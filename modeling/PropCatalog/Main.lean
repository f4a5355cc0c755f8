import PropCatalog.Command.Run
import Std.Time.Zoned

/-!
# The command line program

Takes in the directories that a command line is about, carries it out on them, and writes back what
has changed.
-/

namespace PropCatalog
namespace Program

/-- The text of a location. -/
def pathOf (loc : Location) : String := "/" ++ "/".intercalate loc

/-- Adds a directory and the directories above it. -/
def withDirectory (d : Disk) (loc : Location) : Disk :=
  (List.range loc.length).foldl (fun d n => d.put (loc.take (n + 1)) .directory) d

/-- Adds that a location cannot be read. -/
def withoutReading (d : Disk) (loc : Location) : Disk :=
  { d with denials := (loc, .read) :: d.denials }

/-- Adds what is at a location and below it; directories behind links are left out. -/
partial def takeIn (loc : Location) (d : Disk) : IO Disk := do
  let path := (← IO.currentDir) / pathOf loc
  if !(← path.pathExists) then return d
  if ← path.isDir then
    let mut d := if loc.isEmpty then d else d.put loc .directory
    match ← path.readDir.toBaseIO with
    | .error _ => return withoutReading d loc
    | .ok entries =>
      for entry in entries do
        let below := loc ++ [entry.fileName]
        let isLink := (← entry.path.symlinkMetadata).type == .symlink
        if !(isLink && (← entry.path.isDir)) then
          d ← takeIn below d
      return d
  match ← (IO.FS.readBinFile path).toBaseIO with
  | .ok bytes => return d.put loc (.file bytes.toList)
  | .error _ => return withoutReading (d.put loc (.file [])) loc

/-- The locations that an invocation is about. -/
def placesOf (env : Environment) (i : Invocation) : List Location :=
  let resolved (path : String) : Location := ((Path.ofString path).resolve env.cwd).parts
  let own :=
    match i.task with
    | .build path output =>
      let root := resolved path
      root :: output.toList.map fun o => ((Path.ofString o).resolve root).parts
    | .inspect file _ => [resolved file]
  own ++ i.logFile.toList.map resolved

/-- The disk that an invocation sees. A file brings its directory with it. -/
def diskFor (env : Environment) (i : Invocation) : IO Disk := do
  let mut d := withDirectory {} env.cwd
  for place in placesOf env i do
    let isDir ← ((← IO.currentDir) / pathOf place).isDir
    let place := if isDir then place else place.dropLast
    if ← ((← IO.currentDir) / pathOf place).isDir then
      d ← takeIn place (withDirectory d place)
  return d

/-- Writes what is new or different on a disk, directories before what is in them. -/
def writeBack (old new : Disk) : IO Unit := do
  let changed := new.entries.filter fun e => old.entryAt? e.1 != some e.2
  for (loc, entry) in changed.mergeSort fun a b => a.1.length ≤ b.1.length do
    match entry with
    | .directory => IO.FS.createDirAll (pathOf loc)
    | .file bytes => IO.FS.writeBinFile (pathOf loc) ⟨bytes.toArray⟩

/-! ## The clock -/

/-- A number with at least `width` digits. -/
def padded (width n : Nat) : String :=
  let digits := Text.decimal n
  String.ofList (List.replicate (width - digits.length) '0' ++ digits)

/-- The time of the run, as it stands in front of lines in a log file. -/
def stampNow : IO String := do
  let now ← Std.Time.PlainDateTime.now
  let nat (n : Int) : Nat := n.toNat
  let date :=
    [padded 4 (nat now.year.toInt), padded 2 (nat now.month.val), padded 2 (nat now.day.val)]
  let time :=
    [padded 2 (nat now.hour.val), padded 2 (nat now.minute.val), padded 2 (nat now.second.val)]
  return "-".intercalate date ++ " " ++ ":".intercalate time ++ "," ++
    padded 3 (nat now.millisecond.val) ++ " "

/-- The environment of the run. -/
def environment : IO Environment := do
  let cwd := (Path.ofString (← IO.currentDir).toString).parts
  return { cwd, home := (← IO.getEnv "HOME").getD "/", stamp := ← stampNow }

/-- Prints an outcome and gives its exit code. -/
def display (outcome : Outcome) : IO UInt32 := do
  IO.print outcome.stdout
  IO.eprint outcome.stderr
  return outcome.exit.toUInt32

/-- Carries out a command line. -/
def run (arguments : List String) : IO UInt32 := do
  let env ← environment
  let disk ←
    match Invocation.ofArguments arguments with
    | .ok i => diskFor env i
    | .error _ => pure {}
  let (result, after) := Command.execute env arguments disk
  writeBack disk after
  match result with
  | .ok outcome => display outcome
  | .error e =>
    IO.eprintln ("docspark: " ++ e.message)
    return 1

end Program
end PropCatalog

def main (arguments : List String) : IO UInt32 :=
  PropCatalog.Program.run arguments
