import PropCatalog.Pattern.Glob
import PropCatalog.Settings.Basic
import PropCatalog.Yaml.Load

/-!
# Finding and loading settings

Settings belong to a directory and stand in a file in it. A path names that directory, the file, or
any other file in the directory. Without the file the defaults hold.

- `Environment`   : what a run depends on apart from its arguments and the disk
- `Failure`       : everything a run can fail with
- `Settings.load` : the settings for a path
-/

namespace PropCatalog

/-- Where and when a run takes place. -/
structure Environment where
  /-- The working directory, which is there when a run starts. -/
  cwd : Location
  /-- The directory that a tilde stands for. -/
  home : String
  /-- The directories that a tilde and a name stand for. -/
  accounts : List (String × String) := []
  /-- What stands in front of a line in a log file. -/
  stamp : String := ""
  deriving Repr

/-- Why a run fails. -/
inductive Failure where
  | settings (e : SettingsError)
  | disk (e : DiskError)
  /-- The settings are no text. -/
  | undecodable
  /-- A scalar in the settings does not denote what it should. -/
  | scalar (e : Yaml.ScalarError)
  | glob (e : GlobError)
  | literal (e : LiteralError)
  /-- A tilde stands before an unknown name. -/
  | noHome
  deriving DecidableEq, Repr

def Failure.ofSettings : SettingsFault → Failure
  | .mistake e => .settings e
  | .literal e => .literal e

def Failure.message : Failure → String
  | settings e => e.message
  | disk e => e.message
  | undecodable => "the settings are no text"
  | scalar _ => "a scalar in the settings cannot be read"
  | glob _ => "a file pattern cannot be used"
  | literal _ => "a number has too many digits"
  | noHome => "a home directory is unknown"

/-- A path with a leading tilde replaced by the directory it stands for. -/
def Path.expandHome (env : Environment) (p : Path) : Except Failure Path :=
  match p.isAbsolute, p.parts with
  | false, first :: rest =>
    match first.toList with
    | '~' :: name =>
      let home? :=
        if name.isEmpty then some env.home
        else (env.accounts.find? (·.1 == String.ofList name)).map (·.2)
      match home? with
      | some home => .ok ((Path.ofString home).join { parts := rest })
      | none => .error .noHome
    | _ => .ok p
  | _, _ => .ok p

namespace Settings

/-- The file that holds the settings for a path. -/
def fileFor (env : Environment) (disk : Disk) (p : Path) : Except Failure Path := do
  let p ← p.expandHome env
  let isDirectory ← (disk.isDirectory env.cwd p).mapError .disk
  let file :=
    if isDirectory then p.child settingsFile
    else if p.suffix == ".yml" || p.suffix == ".yaml" then p
    else p.parent.child settingsFile
  return file.resolve env.cwd

/-- The document in a file; a blank file and nothing are an empty mapping. -/
def readFile (disk : Disk) (file : Path) : Except Failure Yaml.Datum :=
  match disk.readText [] file with
  | .error (.disk e) => .error (.disk e)
  | .error .undecodable => .error .undecodable
  | .ok text =>
    if isBlankText text then .ok (.map [])
    else
      match Yaml.load text with
      | .ok .null => .ok (.map [])
      | .ok d => .ok d
      | .error (.malformed problem) => .error (.settings (.malformed file.name problem))
      | .error (.scalar e) => .error (.scalar e)

/-- The settings for a path. -/
def load (env : Environment) (disk : Disk) (p : Path) : Except Failure Settings := do
  let file ← fileFor env disk p
  if !(← (disk.has [] file).mapError .disk) then return { root := file.parent }
  let d ← readFile disk file
  (ofDatum file.parent d).mapError Failure.ofSettings

/-- The directory where the catalog is written. -/
def outputDirectory (env : Environment) (s : Settings) : Except Failure Path := do
  let directory ← (Path.ofString s.directory).expandHome env
  return s.root.join directory

end Settings
end PropCatalog
