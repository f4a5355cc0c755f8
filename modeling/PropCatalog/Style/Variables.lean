import PropCatalog.Assoc
import PropCatalog.Text.Search
import PropCatalog.Text.WordChar

/-!
# Custom properties of a stylesheet

A stylesheet documents a custom property in a block `/** … */`, on a line `* --name: description`,
and uses it as `var(--name)` or `var(--name, fallback)`. Blocks, documented names and uses are read
by flat scans from left to right: where one is found, the next is looked for after its end.

- `docBlocks`, `documented`, `uses` : the three scans
- `customProperties` : the properties of a stylesheet with the last description and the first
  fallback of each name
-/

namespace PropCatalog

structure StyleVariable where
  name : String
  description : String := ""
  default : Option String := none
  deriving DecidableEq, Repr

namespace Style

/-! ## Scanning -/

/-- The results of `scan?` at the leftmost places where it succeeds, each search starting where the
last result ended. A scan gives its result and the rest of the text. -/
def scanAll {α : Type} (scan? : List Char → Option (α × List Char)) (cs : List Char) : List α :=
  match cs with
  | [] => []
  | c :: rest =>
    match scan? (c :: rest) with
    | some (a, after) =>
      if _h : after.length < (c :: rest).length then a :: scanAll scan? after else [a]
    | none => scanAll scan? rest
termination_by cs.length
decreasing_by
  · assumption
  · exact Nat.lt_succ_self rest.length

/-- The text up to the first `*/`, and the rest after it. -/
def untilClose? : List Char → Option (List Char × List Char)
  | [] => none
  | '*' :: '/' :: rest => some ([], rest)
  | c :: rest => (untilClose? rest).map fun (inside, after) => (c :: inside, after)

/-- A documentation block at the start of a text, delimiters included. -/
def docBlock? (cs : List Char) : Option (List Char × List Char) :=
  match Text.stripPrefix? ['/', '*', '*'] cs with
  | some rest =>
    (untilClose? rest).map fun (inside, after) =>
      (['/', '*', '*'] ++ inside ++ ['*', '/'], after)
  | none => none

def docBlocks (cs : List Char) : List (List Char) :=
  scanAll docBlock? cs

def isNamePart (c : Char) : Bool :=
  Text.isWordChar c || c == '-'

/-- A custom property name: two hyphens and at least one more character. -/
def name? (cs : List Char) : Option (List Char × List Char) :=
  match cs with
  | '-' :: '-' :: rest =>
    let part := rest.takeWhile isNamePart
    if part.isEmpty then none else some ('-' :: '-' :: part, rest.dropWhile isNamePart)
  | _ => none

/-- A documented name at the start of a text: a star, the name, a colon and the rest of the line on
which the description begins. -/
def documented? (cs : List Char) : Option ((List Char × List Char) × List Char) :=
  match cs with
  | '*' :: rest =>
    match name? (Text.trimLeft rest) with
    | some (name, rest) =>
      match Text.trimLeft rest with
      | ':' :: rest =>
        let rest := Text.trimLeft rest
        let line := rest.takeWhile (· != '\n')
        if line.isEmpty then none else some ((name, line), rest.dropWhile (· != '\n'))
      | _ => none
    | none => none
  | _ => none

/-- The names documented in a block, with the text after the colon. -/
def documented (block : List Char) : List (List Char × List Char) :=
  scanAll documented? block

/-- A use at the start of a text, with the text of its fallback. The fallback ends at the first
closing parenthesis and is empty if there is none. -/
def use? (cs : List Char) : Option ((List Char × List Char) × List Char) :=
  match Text.stripPrefix? "var(".toList cs with
  | some rest =>
    match name? (Text.trimLeft rest) with
    | some (name, rest) =>
      match Text.trimLeft rest with
      | ')' :: rest => some ((name, []), rest)
      | ',' :: rest =>
        let fallback := rest.takeWhile (· != ')')
        match rest.dropWhile (· != ')') with
        | _ :: after => if fallback.isEmpty then none else some ((name, fallback), after)
        | [] => none
      | _ => none
    | none => none
  | none => none

def uses (cs : List Char) : List (List Char × List Char) :=
  scanAll use? cs

/-! ## Variables -/

/-- The description after the colon, without the end of the block. -/
def cleanDescription (cs : List Char) : String :=
  let text := Text.trim cs
  let text := if Text.endsWith ['*', '/'] text then text.dropLast.dropLast else text
  String.ofList (Text.trim text)

/-- A documented name: a later description replaces an earlier one. -/
def addDocumented (vars : List (String × StyleVariable)) (found : List Char × List Char) :
    List (String × StyleVariable) :=
  let name := String.ofList found.1
  Assoc.set vars name { name, description := cleanDescription found.2 }

/-- A used name: the first fallback that is not blank becomes the default. -/
def addUse (vars : List (String × StyleVariable)) (found : List Char × List Char) :
    List (String × StyleVariable) :=
  let name := String.ofList found.1
  let fallback := String.ofList (Text.trim found.2)
  let default := if fallback == "" then none else some fallback
  match Assoc.get? vars name with
  | none => Assoc.set vars name { name, default }
  | some v => if v.default.isNone then Assoc.set vars name { v with default } else vars

/-- The custom properties of a stylesheet, documented ones first. -/
def customProperties (text : String) : List StyleVariable :=
  let cs := text.toList
  let described := ((docBlocks cs).flatMap documented).foldl addDocumented []
  ((uses cs).foldl addUse described).map (·.2)

end Style
end PropCatalog
