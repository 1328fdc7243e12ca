/-! Which identifiers of an uncolored net a colored identifier unfolds into. Unfolded identifiers extend the
    colored one; an identifier that is itself colored is no unfolding of another one that it extends. -/

namespace Formulary

/-- Whether `u` can be an unfolding of `c` in a net with the colored identifiers `ids`. -/
def isUnfolding (ids : List String) (u c : String) : Bool := u.startsWith c && (u = c || !ids.contains u)

/-- The relation between the identifiers of one kind of nodes. -/
structure Mapping where
  /-- The colored identifiers that unfold into something, with what they unfold into. -/
  images : List (String × List String)
  /-- The colored identifiers that unfold into nothing. -/
  unmapped : List String
  /-- The uncolored identifiers that are no unfolding. -/
  unclaimed : List String
deriving DecidableEq, Repr

namespace Mapping

/-- The uncolored identifiers that `c` unfolds into, in the order of the uncolored net. -/
def imageAmong (colored uncolored : List String) (c : String) : List String :=
  uncolored.filter (isUnfolding colored · c)

/-- The mapping between two lists of identifiers. -/
def between (colored uncolored : List String) : Mapping where
  images := (colored.map fun c => (c, imageAmong colored uncolored c)).filter (!·.2.isEmpty)
  unmapped := colored.filter fun c => (imageAmong colored uncolored c).isEmpty
  unclaimed := uncolored.filter fun u => !colored.any (isUnfolding colored u)

/-- The colored identifiers that unfold into something. -/
def mapped (m : Mapping) : List String := m.images.map (·.1)

/-- What a colored identifier unfolds into: nothing for one that is unknown or unmapped. -/
def image (m : Mapping) (c : String) : List String := (m.images.lookup c).getD []

def isEmpty (m : Mapping) : Bool := m.images.isEmpty

end Mapping
end Formulary
