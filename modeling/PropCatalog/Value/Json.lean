import PropCatalog.Value.Basic

/-!
# Values as JSON

Two layouts of the same format: `compact` puts everything on one line, `pretty` gives every item a
line of its own and indents by two spaces. Characters beyond ASCII stand for themselves; the special
doubles have names outside the format.
-/

namespace PropCatalog
namespace Value

/-- One character of a JSON string. -/
def jsonChar (c : Char) : List Char :=
  let n := c.toNat
  if c == '"' then ['\\', '"']
  else if c == '\\' then ['\\', '\\']
  else if c == '\n' then ['\\', 'n']
  else if c == '\r' then ['\\', 'r']
  else if c == '\t' then ['\\', 't']
  else if n == 8 then ['\\', 'b']
  else if n == 12 then ['\\', 'f']
  else if n < 32 then '\\' :: 'u' :: Text.hex 4 n
  else [c]

def jsonString (s : String) : List Char :=
  '"' :: s.toList.flatMap jsonChar ++ ['"']

def jsonDouble (x : Double) : List Char :=
  (x.write ⟨"NaN", "Infinity"⟩).toList

/-! ## One line -/

mutual

def compactChars : Value → List Char
  | null => "null".toList
  | bool b => if b then "true".toList else "false".toList
  | int n => intText n
  | float x => jsonDouble x
  | text s => jsonString s
  | list items => ['['] ++ compactItems items ++ [']']
  | map entries => ['\x7b'] ++ compactEntries entries ++ ['\x7d']

def compactItems : List Value → List Char
  | [] => []
  | [item] => compactChars item
  | item :: rest => compactChars item ++ [','] ++ compactItems rest

def compactEntries : List (String × Value) → List Char
  | [] => []
  | [(key, value)] => jsonString key ++ [':'] ++ compactChars value
  | (key, value) :: rest =>
    jsonString key ++ [':'] ++ compactChars value ++ [','] ++ compactEntries rest

end

def compact (v : Value) : String :=
  String.ofList v.compactChars

/-! ## Indented -/

/-- A new line at the given depth. -/
def newLine (depth : Nat) : List Char :=
  '\n' :: List.replicate (2 * depth) ' '

mutual

def prettyChars (depth : Nat) : Value → List Char
  | null => "null".toList
  | bool b => if b then "true".toList else "false".toList
  | int n => intText n
  | float x => jsonDouble x
  | text s => jsonString s
  | list [] => "[]".toList
  | list (item :: rest) =>
    ['['] ++ newLine (depth + 1) ++ prettyChars (depth + 1) item ++ prettyItems (depth + 1) rest ++
      newLine depth ++ [']']
  | map [] => ['\x7b', '\x7d']
  | map ((key, value) :: rest) =>
    ['\x7b'] ++ newLine (depth + 1) ++ jsonString key ++ ": ".toList ++
      prettyChars (depth + 1) value ++ prettyEntries (depth + 1) rest ++ newLine depth ++ ['\x7d']

/-- Further items of a list, each after a comma. -/
def prettyItems (depth : Nat) : List Value → List Char
  | [] => []
  | item :: rest => [','] ++ newLine depth ++ prettyChars depth item ++ prettyItems depth rest

/-- Further entries of a map, each after a comma. -/
def prettyEntries (depth : Nat) : List (String × Value) → List Char
  | [] => []
  | (key, value) :: rest =>
    [','] ++ newLine depth ++ jsonString key ++ ": ".toList ++ prettyChars depth value ++
      prettyEntries depth rest

end

def pretty (v : Value) : String :=
  String.ofList (v.prettyChars 0)

/-- The indented text of a value that can be written. -/
def prettyText (v : Value) : Except LiteralError String :=
  if v.isWritable then .ok v.pretty else .error .tooManyDigits

end Value
end PropCatalog
