import PropCatalog.Catalog.Record
import PropCatalog.Log
import PropCatalog.Outline.Read
import PropCatalog.Settings.Load

/-!
# Sessions

A session is a disk together with what has been reported. Its steps read and write files and report
as they go, and what they did before a failure stays.

- `Run`             : a step
- `Run.report`      : adds a record, also to the log file if there is one
- `Run.readSource`  : the outline of a component file
- `Run.readComponent`, `Run.readStyle` : components and stylesheets in files
-/

namespace PropCatalog

/-- A file that receives the records from a level on. -/
structure LogFile where
  path : Path
  level : Level
  /-- What stands in front of every line. -/
  stamp : String := ""
  deriving Repr

structure Session where
  disk : Disk
  cwd : Location := []
  log : List LogRecord := []
  logFile : Option LogFile := none
  deriving Repr

/-- A step of a session. -/
abbrev Run := EStateM Failure Session

namespace Run

/-! ## Reports -/

/-- The disk after a record was added to the log file. -/
def appendRecord (d : Disk) (file : LogFile) (r : LogRecord) : Disk :=
  if r.level.rank < file.level.rank then d
  else
    let line := Text.encode (file.stamp ++ r.line ++ "\n").toList
    -- The file was opened at the start, so nothing is denied now.
    match d.locate [] file.path with
    | .error _ => d
    | .ok loc =>
      match d.entryAt? loc with
      | none => d.putFile loc line
      | some .directory => d
      | some (.file bytes) => d.putFile loc (bytes ++ line)

def report (r : LogRecord) : Run Unit :=
  modify fun s => { s with
    log := s.log ++ [r]
    disk := match s.logFile with
      | some file => appendRecord s.disk file r
      | none => s.disk }

def reportAll (rs : List LogRecord) : Run Unit :=
  rs.forM report

/-! ## Components -/

/-- Why a file has no outline. -/
inductive SourceFault where
  | unreadable (p : Path) (e : Disk.TextError)
  | malformed (e : SourceError)

def SourceFault.message : SourceFault → String
  | .unreadable p e => "Unable to read " ++ p.toString ++ ": " ++ e.message
  | .malformed e => e.message

def readSource (d : Disk) (cwd : Location) (p : Path) : Except SourceFault Outline :=
  match d.readText cwd p with
  | .error e => .error (.unreadable p e)
  | .ok text =>
    match Outline.ofText text p.toString with
    | .error e => .error (.malformed e)
    | .ok o => .ok o

/-- The component in a file, with what there is to report. -/
def componentIn (d : Disk) (cwd : Location) (p : Path) (extensions : List String) :
    Option Component × List LogRecord :=
  match readSource d cwd p with
  | .ok o => extract o p.stem extensions
  | .error e =>
    (none, [{
      level := .error
      channel := parserChannel
      message := "Error parsing " ++ p.toString ++ ": " ++ e.message }])

def readComponent (p : Path) (extensions : List String) : Run (Option Component) := do
  let s ← get
  let (component, notes) := componentIn s.disk s.cwd p extensions
  reportAll notes
  return component

/-! ## Stylesheets -/

def styleChannel : Channel := ⟨"style"⟩

/-- The custom properties in a file, with what there is to report. -/
def stylesIn (d : Disk) (cwd : Location) (p : Path) : List StyleVariable × List LogRecord :=
  match d.readText cwd p with
  | .ok text => (Style.customProperties text, [])
  | .error e =>
    ([], [{
      level := .error
      channel := styleChannel
      message := "Error parsing style file " ++ p.toString ++ ": " ++ e.message }])

def readStyle (p : Path) : Run (List StyleVariable) := do
  let s ← get
  let (found, notes) := stylesIn s.disk s.cwd p
  reportAll notes
  return found

/-! ## Files -/

/-- Writes the text of a value, if there is one. -/
def writeValue (p : Path) (v : Value) : Run Unit := do
  match v.prettyText with
  | .error e => throw (.literal e)
  | .ok text =>
    let s ← get
    match s.disk.write s.cwd p (Text.encode (text ++ "\n").toList) with
    | .ok disk => set { s with disk }
    | .error e => throw (.disk e)

def makePath (p : Path) : Run Unit := do
  let s ← get
  let (disk, error) := s.disk.makePath s.cwd p
  -- The directories made before a failure are there all the same.
  set { s with disk }
  match error with
  | some e => throw (.disk e)
  | none => return

end Run
end PropCatalog
