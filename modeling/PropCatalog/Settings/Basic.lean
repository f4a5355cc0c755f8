import PropCatalog.Number.Read
import PropCatalog.Path
import PropCatalog.Usage.Literal
import PropCatalog.Yaml.Cursor
import PropCatalog.Yaml.Datum

/-!
# Settings

What a project says about its catalog. Settings are read from a mapping; what it leaves out, or
gives in a form that cannot be used, keeps its default, apart from four mistakes that are refused.

- `Datum.text?`, `Datum.int?`, `Datum.bool?`, `Datum.textList`, `Datum.entries` : the forms in which
  a value may be given
- `Datum.written?`, `Datum.writtenList` : texts, unless they are those of integers that are too long
- `SettingsError`    : the mistakes
- `Settings.ofDatum` : the settings that a document gives
-/

namespace PropCatalog

/-! ## Forms of values -/

namespace Yaml
namespace Datum

/-- The text of a scalar: of a text, a number or a truth value. -/
def text? : Datum → Option String
  | bool b => some (if b then "True" else "False")
  | int n => some (String.ofList (Value.intText n))
  | float x => some x.text
  | text s => some s
  | _ => none

/-- An integer, also when it is given as a text. Truth values and doubles are none. -/
def int? : Datum → Option Int
  | int n => some n
  | text s => Number.integer? s.toList
  | _ => none

/-- A truth value, also when it is given as one of six words in any case. -/
def bool? : Datum → Option Bool
  | bool b => some b
  | text s =>
    let word := String.ofList (lower (Text.trim s.toList))
    if ["true", "yes", "1"].contains word then some true
    else if ["false", "no", "0"].contains word then some false
    else none
  | _ => none

/-- The texts of the scalars in a list; a text alone is a list with one item. -/
def textList : Datum → List String
  | text s => [s]
  | list items => items.filterMap text?
  | bytes bs => bs.map fun b => Text.number b.toNat
  | _ => []

/-- Whether a datum is no integer that is too long to be written. -/
def isWritable : Datum → Bool
  | int n => Value.isWritableInt n
  | _ => true

/-- The text of a scalar, which is not given for an integer that is too long. -/
def written? (d : Datum) : Except LiteralError (Option String) :=
  if d.isWritable then .ok d.text? else .error .tooManyDigits

/-- The texts of a list, which are not given if one of its integers is too long. -/
def writtenList (d : Datum) : Except LiteralError (List String) :=
  match d with
  | list items => if items.all isWritable then .ok d.textList else .error .tooManyDigits
  | _ => .ok d.textList

/-- The entries of a mapping; other data have none. -/
def entries : Datum → List (Datum × Datum)
  | map es => es
  | _ => []

def isMap : Datum → Bool
  | map _ => true
  | _ => false

/-- What a mapping has under a key; a key that is missing has nothing. -/
def field (d : Datum) (key : String) : Datum :=
  (lookup? d.entries key).getD .null

def hasField (d : Datum) (key : String) : Bool :=
  (lookup? d.entries key).isSome

/-- A datum as the value of a fallback, if it is a number. -/
def number? : Datum → Option Value
  | int n => some (.int n)
  | float x => some (.float x)
  | _ => none

end Datum
end Yaml

/-! ## Settings -/

/-- The mistakes in settings that are refused. -/
inductive SettingsError where
  /-- The document in a file is malformed. -/
  | malformed (file : String) (problem : Yaml.Problem)
  | notMapping
  | noIncludes
  | blankDirectory
  | badPermutations
  deriving DecidableEq, Repr

/-- The name of the file that holds the settings. -/
def settingsFile : String := "docspark.yml"

def SettingsError.message : SettingsError → String
  | malformed file problem => "Failed to parse " ++ file ++ ": " ++ problem.message
  | notMapping => settingsFile ++ " must contain a mapping at the root"
  | noIncludes => "source.include must list at least one pattern"
  | blankDirectory => "output.directory cannot be empty"
  | badPermutations => "variants.maxPermutations must be a positive integer"

/-- Why a document gives no settings. -/
inductive SettingsFault where
  | mistake (e : SettingsError)
  /-- A text is asked for that cannot be written. -/
  | literal (e : LiteralError)
  deriving DecidableEq, Repr

def defaultIncludes : List String := ["src/components/**/*.\x7btsx,jsx\x7d"]

def defaultExcludes : List String :=
  ["**/*.test.\x7btsx,jsx\x7d", "**/*.stories.\x7btsx,jsx\x7d"]

structure Settings where
  /-- The directory that the settings are about. -/
  root : Path
  name : String := "Components"
  description : Option String := none
  version : Option String := none
  /-- The patterns of component files. -/
  includes : List String := defaultIncludes
  /-- The patterns of files that are left out. -/
  excludes : List String := defaultExcludes
  /-- The extensions of stylesheets. -/
  styleFiles : List String := defaultStyleExtensions
  /-- Where the catalog is written. -/
  directory : String := "./docs"
  baseUrl : String := "/"
  /-- Whether examples are varied. -/
  autoGenerate : Bool := true
  maxPermutations : Int := 20
  fallbacks : Fallbacks := defaultFallbacks
  deriving Repr

namespace Settings

open Yaml (Datum)

/-- A step that needs texts. -/
def needs {α : Type} (texts : Except LiteralError α) : Except SettingsFault α :=
  texts.mapError .literal

/-- A text, or the default if there is none or it is empty. -/
def textOr (default : String) (text : Option String) : String :=
  (text.filter (· != "")).getD default

/-- The texts under a key, or the default if the key is missing. -/
def textsOr (default : List String) (d : Datum) (key : String) :
    Except LiteralError (List String) :=
  if d.hasField key then (d.field key).writtenList else .ok default

def isBlankText (s : String) : Bool :=
  s.toList.all Text.isBlank

/-- What the catalog is called. -/
def withNames (s : Settings) (d : Datum) : Except SettingsFault Settings := do
  let name ← needs (d.field "name").written?
  let description ← needs (d.field "description").written?
  let version ← needs (d.field "version").written?
  return { s with name := textOr s.name name, description, version }

/-- Which files are components. -/
def withSource (s : Settings) (source : Datum) : Except SettingsFault Settings := do
  let includes ← needs (textsOr s.includes source "include")
  if includes.isEmpty then throw (.mistake .noIncludes)
  let excludes ← needs (textsOr s.excludes source "exclude")
  let styleFiles ← needs (textsOr s.styleFiles source "styleFiles")
  return { s with includes, excludes, styleFiles }

/-- Where the catalog is written. -/
def withOutput (s : Settings) (output : Datum) : Except SettingsFault Settings := do
  let directory ← needs (output.field "directory").written?
  if (directory.map isBlankText).getD false then throw (.mistake .blankDirectory)
  let baseUrl ← needs (output.field "baseUrl").written?
  return { s with directory := directory.getD s.directory, baseUrl := textOr s.baseUrl baseUrl }

/-- The fallbacks, with those texts and numbers replaced that are given. -/
def withFallbacks (fallbacks : Fallbacks) (defaults : Datum) : Except LiteralError Fallbacks := do
  let setTo (key : String) (value : Option Value) (fallbacks : Fallbacks) : Fallbacks :=
    match value with
    | some v => Assoc.set fallbacks key v
    | none => fallbacks
  let string ← (defaults.field "string").written?
  let children ← (defaults.field "children").written?
  return setTo "number" (defaults.field "number").number?
    (setTo "children" (children.map .text) (setTo "string" (string.map .text) fallbacks))

/-- The number of permutations, which is positive if it is given. -/
def permutationsOr (default : Int) (variants : Datum) : Except SettingsFault Int :=
  if variants.hasField "maxPermutations" then
    match (variants.field "maxPermutations").int? with
    | some n => if 0 < n then .ok n else .error (.mistake .badPermutations)
    | none => .error (.mistake .badPermutations)
  else .ok default

/-- How examples are made. -/
def withVariants (s : Settings) (variants : Datum) : Except SettingsFault Settings := do
  let maxPermutations ← permutationsOr s.maxPermutations variants
  let fallbacks ← needs (withFallbacks s.fallbacks (variants.field "defaultValues"))
  let autoGenerate := (variants.field "autoGenerate").bool?.getD s.autoGenerate
  return { s with autoGenerate, maxPermutations, fallbacks }

/-- The settings that a document gives for the directory `root`. -/
def ofDatum (root : Path) (d : Datum) : Except SettingsFault Settings := do
  if !d.isMap then throw (.mistake .notMapping)
  let s ← withNames { root } d
  let s ← s.withSource (d.field "source")
  let s ← s.withOutput (d.field "output")
  s.withVariants (d.field "variants")

end Settings
end PropCatalog
