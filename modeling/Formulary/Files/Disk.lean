/-! Directories, files and links as values. A disk is a tree with a working directory; a path is text, with names
    separated by slashes, and is followed name by name from the root or from the working directory. Links of all kinds
    are told by the place that they lead to in the end. -/

namespace Formulary

inductive Entry where
  | file (text : String)
  | directory (entries : List (String × Entry))
  /-- Another name of what is at a place, which is no link itself, unless links lead in a circle. -/
  | link (place : List String)
deriving Repr

/-- Why a path cannot be used, or a program cannot be started. -/
inductive FileError where
  | notFound
  | notDirectory
  | isDirectory
  | nameTooLong
  | alreadyThere
  | tooManyLinks
  /-- A path has a character in it that no path may have. -/
  | nulInName
  /-- A word for a program has a character in it that no word may have. -/
  | nulInWord
deriving DecidableEq, Repr

namespace FileError

def message : FileError → String
  | notFound => "No such file or directory (os error 2)"
  | notDirectory => "Not a directory (os error 20)"
  | isDirectory => "Is a directory (os error 21)"
  | nameTooLong => "File name too long (os error 36)"
  | alreadyThere => "File exists (os error 17)"
  | tooManyLinks => "Too many levels of symbolic links (os error 40)"
  | nulInName => "file name contained an unexpected NUL byte"
  | nulInWord => "nul byte found in provided data"

end FileError

namespace Path

/-- The path of `name` seen from the directory `dir`. An absolute path stays as it is. -/
def join (dir name : String) : String :=
  if name.startsWith "/" || dir = "" then name
  else if dir.toList.getLast? = some '/' then dir ++ name
  else dir ++ "/" ++ name

/-- The number of bytes that no path has room for. -/
def sizeLimit : Nat := 4096

/-- The number of bytes that a name has room for. -/
def nameLimit : Nat := 255

/-- The names on a path, from left to right. -/
def names (path : String) : List String := (path.toList.splitOn '/').map String.ofList

/-- The part of the last name after its last dot, unless the name has no other dot than a leading one. -/
def extension? (path : String) : Option String :=
  match (names path).reverse.dropWhile (fun name => name = "" || name = ".") with
  | [] => none
  | name :: _ =>
    let tail := name.toList.reverse
    let ending := (tail.takeWhile (· ≠ '.')).reverse
    match tail.dropWhile (· ≠ '.') with
    | _ :: _ :: _ => if name = ".." then none else some (String.ofList ending)
    | _ => none

end Path

namespace Entry

def isFile : Entry → Bool
  | file _ => true
  | directory _ | link _ => false

def isDirectory : Entry → Bool
  | directory _ => true
  | file _ | link _ => false

/-- The entries of a directory. -/
def entries : Entry → List (String × Entry)
  | file _ | link _ => []
  | directory es => es

/-- The entry reached from `e` by the names in turn. -/
def get? (e : Entry) : List String → Option Entry
  | [] => some e
  | name :: rest => (e.entries.lookup name).bind (·.get? rest)

/-- The entries with that of `name` replaced, or added at the end. -/
def insert (name : String) (e : Entry) : List (String × Entry) → List (String × Entry)
  | [] => [(name, e)]
  | (n, old) :: rest => if n = name then (n, e) :: rest else (n, old) :: insert name e rest

/-- Whether there is something at a place that nothing can be below. -/
def blocks (e : Entry) (place : List String) : Bool := (e.get? place).any (!·.isDirectory)

/-- The tree with `new` at the end of the names; directories on the way are made where they are missing. -/
def put (new : Entry) : List String → Entry → Entry
  | [], _ => new
  | name :: rest, e => directory (insert name (put new rest ((e.entries.lookup name).getD (directory []))) e.entries)

mutual

/-- The files of a tree with their paths, which begin with `path` and do not lead through links. -/
def files (path : String) : Entry → List (String × String)
  | file text => [(path, text)]
  | directory es => filesAll path es
  | link _ => []

def filesAll (path : String) : List (String × Entry) → List (String × String)
  | [] => []
  | (name, e) :: es => files (Path.join path name) e ++ filesAll path es

end

end Entry

structure Disk where
  root : Entry
  /-- The names that lead to the working directory. -/
  here : List String
deriving Repr

namespace Disk

/-- The place that a link leads to. Nothing need be there, if it would be an entry of a directory. -/
def lead (root : Entry) (target : List String) : Except FileError (List String) :=
  match root.get? target with
  | some (.link _) => .error .tooManyLinks
  | some _ => .ok target
  | none =>
    match root.get? target.dropLast with
    | some (.directory _) => .ok target
    | _ =>
      .error (if (List.range target.length).any (root.blocks <| target.take ·) then .notDirectory else .notFound)

/-- The place that a name leads to from the directory at `place`. Nothing need be there. -/
def move (root : Entry) (place : List String) (name : String) : Except FileError (List String) :=
  match root.get? place with
  | some (.directory entries) =>
    if name = "" ∨ name = "." then .ok place
    else if name = ".." then .ok place.dropLast
    else if name.utf8ByteSize > Path.nameLimit then .error .nameTooLong
    else
      match entries.lookup name with
      | some (.link target) => lead root target
      | _ => .ok (place ++ [name])
  | some _ => .error .notDirectory
  | none => .error .notFound

/-- The place that names lead to from the directory at `place`, one after the other. -/
def follow (root : Entry) (place names : List String) : Except FileError (List String) := names.foldlM (move root) place

/-- The place where a path begins. -/
def start (d : Disk) (path : String) : List String := if path.startsWith "/" then [] else d.here

/-- The place that a path leads to, and the entry there. -/
def locate (d : Disk) (path : String) : Except FileError (List String × Option Entry) :=
  if path.contains '\x00' then .error .nulInName
  else if path = "" then .error .notFound
  else if path.utf8ByteSize ≥ Path.sizeLimit then .error .nameTooLong
  else (follow d.root (d.start path) (Path.names path)).map fun place => (place, d.root.get? place)

/-- Whether there is a directory at a path. -/
def isDirectory (d : Disk) (path : String) : Bool :=
  match d.locate path with
  | .ok (_, some e) => e.isDirectory
  | _ => false

/-- Whether there is a file at a path. -/
def isFile (d : Disk) (path : String) : Bool :=
  match d.locate path with
  | .ok (_, some e) => e.isFile
  | _ => false

/-- The text of the file at a path. -/
def read (d : Disk) (path : String) : Except FileError String := do
  match ← d.locate path with
  | (_, some (.file text)) => return text
  | (_, some (.directory _)) => throw .isDirectory
  | _ => throw .notFound

/-- The entries of the directory at a path. -/
def list (d : Disk) (path : String) : Except FileError (List (String × Entry)) := do
  match ← d.locate path with
  | (_, some (.directory entries)) => return entries
  | (_, some (.file _)) => throw .notDirectory
  | _ => throw .notFound

/-- The disk with the file at a path written. -/
def write (d : Disk) (path text : String) : Except FileError Disk := do
  match ← d.locate path with
  | (_, some (.directory _)) => throw .isDirectory
  | (place, _) => return { d with root := Entry.put (.file text) place d.root }

/-- The place that a name leads to from `place`, whatever is there. -/
def step (place : List String) (name : String) : List String :=
  if name = "" ∨ name = "." then place else if name = ".." then place.dropLast else place ++ [name]

/-- The tree with a directory at a place, unless there is something already. -/
def ensure (root : Entry) (place : List String) : Entry :=
  if (root.get? place).isSome then root else Entry.put (.directory []) place root

/-- The disk with all directories that a path leads through, and the place that it leads to. -/
def walk (d : Disk) (path : String) : Disk × List String :=
  let (root, place) := (Path.names path).foldl
    (fun (root, place) name => (ensure root (step place name), step place name))
    (d.root, d.start path)
  ({ d with root }, place)

/-- The disk with a directory at a path, and with those on the way to it, unless they are there already. -/
def makeDirectory (d : Disk) (path : String) : Disk := (d.walk path).1

/-- The disk with a directory of a name in the working directory. There can be one at the end of a link too. -/
def makeHere (d : Disk) (name : String) : Except FileError Disk :=
  if d.isDirectory name then return d
  else if (d.root.get? (d.here ++ [name])).isSome then throw .alreadyThere
  else
    match d.root.get? d.here with
    | some (.directory _) => return { d with root := Entry.put (.directory []) (d.here ++ [name]) d.root }
    | _ => throw .notFound

/-- The disk with an entry at a path, and with the directories on the way to it. -/
def plant (d : Disk) (path : String) (e : Entry) : Disk :=
  let (d, place) := d.walk path
  { d with root := Entry.put e place d.root }

/-- Whether a file can be written at a path. -/
def writable (d : Disk) (path : String) : Except FileError Unit := do
  let _ ← d.write path ""
  return ()

end Disk
end Formulary
