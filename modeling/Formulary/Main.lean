import Formulary.CommandLine.Run
import Std.Time

/-! The program: takes up the part of the file system that a run looks at, makes the run on it, and writes the
    files that the run changed. It starts no other program, so every checker is missing here and each round of
    filtering ends as it does without one. -/

namespace Formulary

/-- The path of a place. -/
def pathTo (place : List String) : String := "/" ++ "/".intercalate place

/-- The place that a path leads to when all links are followed. -/
def placeOf (path : String) : IO (List String) := do
  let place := (← IO.currentDir) / path
  return (Path.names (← IO.FS.realPath place).toString).filter (· ≠ "")

/-- What is at a path, with the contents of directories down to `depth`, and the places that links there lead to. A file
    that is no text counts as empty, and a link that leads nowhere as one to itself. -/
def observe : (depth : Nat) → (path : String) → StateT (List (List String)) IO (Option Entry)
  | depth, path => do
    let place := (← IO.currentDir) / path
    if ← place.isDir then
      match depth with
      | 0 => return some (.directory [])
      | depth + 1 =>
        let home ← placeOf path
        let mut entries := []
        for child in ← place.readDir do
          let childPath := Path.join path child.fileName
          let childPlace := home ++ [child.fileName]
          if ← (place / child.fileName).pathExists then
            let target ← placeOf childPath
            if target = childPlace then
              match ← observe depth childPath with
              | some e => entries := (child.fileName, e) :: entries
              | none => pure ()
            else
              modify (target :: ·)
              entries := (child.fileName, .link target) :: entries
          else entries := (child.fileName, .link childPlace) :: entries
        return some (.directory entries)
    else if ← place.pathExists then
      try return some (.file (← IO.FS.readFile place)) catch _ => return some (.file "")
    else return none

/-- The disk with what is at a path, and with what links there lead to, unless it is there already. -/
def takeUp (d : Disk) (depth : Nat) (path : String) : IO Disk := do
  match d.locate path with
  | .ok (_, some _) => return d
  | _ =>
    match ← (observe depth path).run [] with
    | (some e, targets) =>
      let place ← placeOf path
      let d := d.plant (pathTo place) e
      let d := if (d.walk path).2 = place then d else d.plant path (.link place)
      match depth with
      | 0 => return d
      | depth + 1 => targets.foldlM (fun d target => takeUp d depth (pathTo target)) d
    | (none, _) => return d

/-- The part of the file system that a run with these words looks at. -/
def surroundingDisk (temporaryDirectory : String) (words : List String) : IO Disk := do
  let here := (Path.names (← IO.currentDir).toString).filter (· ≠ "")
  let bare : Disk := Disk.plant ⟨.directory [], here⟩ "." (.directory [])
  match Arguments.read {} words with
  | .error _ => return bare
  | .ok a =>
    let config := a.config.toList
    match CommandLine.settings (← config.foldlM (takeUp · 1) bare) a with
    | .error _ => config.foldlM (takeUp · 1) bare
    | .ok s =>
      let directories := s.inputDir :: (s.filter.tmpDir.getD temporaryDirectory) :: ["./logs"]
      let d ← takeUp bare 2 s.inputDir
      let d ← (config ++ directories).foldlM (takeUp · 0) d
      return d

/-- Writes the files of the later disk that differ from those of the earlier one. -/
def writeChanges (before after : Disk) : IO Unit := do
  let old := before.root.files ""
  for (path, text) in after.root.files "" do
    if old.lookup path ≠ some text then
      let parts := path.splitOn "/"
      IO.FS.createDirAll ("/" ++ "/".intercalate parts.dropLast)
      IO.FS.writeFile ("/" ++ path) text

/-- Makes a run with the words of the command line, and gives its exit status. -/
def perform (words : List String) : IO UInt32 := do
  let temporaryDirectory := (← IO.getEnv "TMPDIR").getD "/tmp"
  let disk ← surroundingDisk temporaryDirectory words
  let now ← Std.Time.DateTime.now
  let stamp := now.format "uuuu-MM-dd'T'HH:mm:ss.SSSSSSSSSxxx"
  let result := CommandLine.run {
    disk
    start := fun _ => .error .notFound
    temporaryDirectory
    tag := (← IO.monoNanosNow).repr
    started := stamp
    finished := stamp
    logName := "citili_run_" ++ now.format "uuuu-MM-dd_HH-mm-ss" ++ ".txt"
    hasColours := (← (← IO.getStdout).isTty) && (← IO.getEnv "NO_COLOR").isNone } words
  writeChanges disk result.disk
  IO.print result.output
  IO.eprint result.errorOutput
  return UInt32.ofNat result.status

end Formulary

/-- Runs with the words of the command line. -/
def main (words : List String) : IO UInt32 := Formulary.perform words
