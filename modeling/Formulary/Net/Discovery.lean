import Formulary.Net.Arena

/-! Finding the models in a directory. Every entry that is a directory with the name of a model and a model
    file becomes a model; the others are recorded by reason. -/

namespace Formulary

/-- The entries that did not become models. -/
structure DiscoveryReport where
  notDirectory : List String := []
  wrongName : List String := []
  noModel : List String := []
  duplicate : List String := []
deriving DecidableEq, Repr

namespace DiscoveryReport

def totalSkipped (r : DiscoveryReport) : Nat :=
  r.notDirectory.length + r.wrongName.length + r.noModel.length + r.duplicate.length

/-- What there is to report about a discovery as a whole. -/
def notices (r : DiscoveryReport) : List Notice :=
  if r.totalSkipped = 0 then [] else [.entriesSkipped r.totalSkipped]

end DiscoveryReport

/-- Why a directory has no models. -/
inductive DiscoveryError where
  | unreadable (directory : String) (cause : FileError)
  | link (cause : LinkError)
deriving DecidableEq, Repr

namespace DiscoveryError

/-- The error and its causes, the outermost first. -/
def chain : DiscoveryError → List String
  | unreadable directory cause => ["failed to read dir: " ++ directory, cause.message]
  | link cause => [cause.message]

def message (e : DiscoveryError) : String := ": ".intercalate e.chain

end DiscoveryError

/-- The models found, the entries left out, and what there is to report. -/
structure Discovery where
  arena : Arena := {}
  report : DiscoveryReport := {}
  notices : List Notice := []

namespace Discovery

/-- The position of the model with a given key. -/
def find? (d : Discovery) (key : ModelKey) : Option Nat := d.arena.models.findIdx? (·.key = key)

/-- Takes the entry `name` of the directory `dir` into account. -/
def visit (disk : Disk) (dir : String) (d : Discovery) (name : String) : Discovery :=
  let directory := Path.join dir name
  if !disk.isDirectory directory then { d with report.notDirectory := d.report.notDirectory ++ [name] }
  else
    match ModelKey.ofDirectoryName? name with
    | none => { d with
        report.wrongName := d.report.wrongName ++ [name]
        notices := d.notices ++ [.notModelDirectory name] }
    | some key =>
      let m : Model := { key, directory }
      if !disk.isFile m.file then { d with
        report.noModel := d.report.noModel ++ [name]
        notices := d.notices ++ [.noModelFile name] }
      else if (d.find? key).isSome then { d with
        report.duplicate := d.report.duplicate ++ [name]
        notices := d.notices ++ [.duplicateModel name] }
      else { d with arena := d.arena.add m }

/-- Links a colored model with its uncolored variant, if that was found too. -/
def linkTwin (d : Discovery) (arena : Arena) (m : Model) : Except LinkError Arena :=
  match d.find? m.key, d.find? { m.key with variant := .placeTransition } with
  | some i, some j => if m.isColored then arena.link i j else .ok arena
  | _, _ => .ok arena

/-- The names of entries, in order. -/
def sortedNames (entries : List (String × Entry)) : List String := (entries.map (·.1)).mergeSort fun a b => a ≤ b

/-- The models among the entries of the directory `dir`, in the order of their names. -/
def gather (disk : Disk) (dir : String) (entries : List (String × Entry)) : Discovery :=
  (sortedNames entries).foldl (visit disk dir) {}

/-- Links the models that were seen, in the order in which `seen` gives them. -/
def linked (d : Discovery) (seen : List Model) : Except LinkError Discovery := do
  return { d with arena := ← seen.foldlM d.linkTwin d.arena }

/-- The models in the directory `dir`, with their twins. -/
def ofDirectory (disk : Disk) (dir : String) : Except DiscoveryError Discovery := do
  let entries ← (disk.list dir).mapError (.unreadable dir)
  let d := gather disk dir entries
  (d.linked d.arena.models).mapError .link

end Discovery
end Formulary
