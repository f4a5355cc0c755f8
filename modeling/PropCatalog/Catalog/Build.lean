import PropCatalog.Catalog.Discover
import PropCatalog.Catalog.Session

/-!
# Building a catalog

Every component file gets a record of its own, and an index lists them all. A file that holds no
component is skipped, and the others are not affected by it.

- `documentFile` : the record of one component file
- `buildFiles`   : the records of all files, in order, each written as soon as it is made
- `build`        : the whole catalog of a project
-/

namespace PropCatalog

/-- What a build has done. -/
structure BuildResult where
  totals : Totals
  /-- The files without a component, as seen from the project's directory. -/
  skipped : List String
  deriving Repr

namespace Build

open Run

def builderChannel : Channel := ⟨"builder"⟩

def debug (message : String) : Run Unit :=
  report { level := .debug, channel := builderChannel, message }

def info (message : String) : Run Unit :=
  report { level := .info, channel := builderChannel, message }

/-! ## One file -/

/-- The custom properties of one imported stylesheet. -/
def importedStyle (component : Path) (styleImport : String) : Run (List StyleVariable) := do
  let s ← get
  let path := Path.ofImport s.cwd component styleImport
  if ← ofExcept ((s.disk.has s.cwd path).mapError Failure.disk) then
    let found ← readStyle path
    debug ("Found " ++ Text.number found.length ++ " CSS variables in " ++ styleImport)
    return found
  else
    -- A stylesheet that is not there is noted and otherwise left out.
    debug ("Style file " ++ styleImport ++ " not found for " ++ component.name)
    return []

def importedStyles (component : Path) : List String → Run (List StyleVariable)
  | [] => return []
  | styleImport :: rest => do
    let found ← importedStyle component styleImport
    return found ++ (← importedStyles component rest)

def examples (s : Settings) (c : Component) : Run (List Usage) := do
  let options : VariantOptions :=
    { maxPermutations := s.maxPermutations, fallbacks := s.fallbacks }
  let made :=
    if s.autoGenerate then variants options c
    else (defaultUsage options c).map fun usage => ([usage], [])
  match made with
  | .ok (usages, notes) =>
    reportAll notes
    return usages
  | .error e => throw (.literal e)

/-- The record of a component file, if it holds a component. -/
def documentFile (s : Settings) (path : Path) : Run (Option Documentation) := do
  let relative := relativePath s.root path
  debug ("Parsing " ++ relative)
  match ← readComponent path s.styleFiles with
  | none =>
    debug ("Skipped " ++ relative ++ " (no component found)")
    return none
  | some found =>
    -- The record names the file as the project sees it, not by the path it was read from.
    let component := { found with filePath := relative }
    let styleVariables ← importedStyles path component.styleFiles
    let variants ← examples s component
    debug ("Generated " ++ Text.number variants.length ++ " variants for " ++ component.name)
    return some { component, variants, styleVariables }

/-! ## All files -/

/-- The file of a record in the directory of all records. -/
def recordFile (directory : Path) (name : String) : Path :=
  directory.child (name ++ ".json")

/-- Documents files one after the other: the records, and the files that were skipped. -/
def buildFiles (s : Settings) (directory : Path) :
    List Path → Run (List Documentation × List String)
  | [] => return ([], [])
  | path :: rest => do
    match ← documentFile s path with
    | none =>
      let (records, skipped) ← buildFiles s directory rest
      return (records, relativePath s.root path :: skipped)
    | some record =>
      -- The name alone decides the file, so a later component of the same name writes over it.
      let file := recordFile directory record.component.name
      writeValue file record.toValue
      debug ("Saved metadata to " ++ file.toString)
      let (records, skipped) ← buildFiles s directory rest
      return (record :: records, skipped)

/-- The line of a component in the index. -/
def indexEntry (d : Documentation) : Value :=
  .map [
    ("name", .text d.component.name),
    ("description", .text d.component.description),
    ("filePath", .text d.component.filePath),
    ("variantCount", .int d.variants.length),
    ("cssVariableCount", .int d.styleVariables.length)]

def textOrNull (text : Option String) : Value :=
  (text.map Value.text).getD .null

/-- The index of a catalog. -/
def index (s : Settings) (records : List Documentation) : Value :=
  .map [
    ("config", .map [
      ("name", .text s.name),
      ("description", textOrNull s.description),
      ("version", textOrNull s.version),
      ("baseUrl", .text s.baseUrl)]),
    ("components", .list (records.map indexEntry)),
    ("stats", (Totals.ofRecords records).toValue)]

def recordsDirectory (env : Environment) (s : Settings) : Except Failure Path := do
  return (← s.outputDirectory env).child "metadata"

end Build

open Run Build in
/-- Builds the catalog of a project. -/
def build (env : Environment) (s : Settings) : Run BuildResult := do
  let directory ← ofExcept (recordsDirectory env s)
  makePath directory
  let files ← ofExcept (discover (← get).disk s)
  info ("Found " ++ Text.number files.length ++ " candidate component files")
  let (records, skipped) ← buildFiles s directory files
  writeValue (recordFile directory "index") (index s records)
  let totals := Totals.ofRecords records
  info totals.summary
  return { totals, skipped }

end PropCatalog
