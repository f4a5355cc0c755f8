import PropCatalog.Number.Read
import PropCatalog.Text.Quoted

/-!
# Values of examples

The values that examples assign to props, and the records built from them. Integers and doubles are
different even when they are equal as numbers; the entries of a map keep their order.

- `Value.isWritable` : whether a value has a text; an integer with too many digits has none
- `Value.display`    : the text of a value in a title
-/

namespace PropCatalog

/-- Why a literal is neither read nor written. -/
inductive LiteralError where
  /-- An integer has more digits than are read or written. -/
  | tooManyDigits
  deriving DecidableEq, Repr

inductive Value where
  | null
  | bool (b : Bool)
  | int (n : Int)
  | float (x : Double)
  | text (s : String)
  | list (items : List Value)
  | map (entries : List (String × Value))
  deriving Repr, Inhabited

namespace Value

/-- Values that count as nothing: null, false, zero, and empty texts, lists and maps. -/
def isTruthy : Value → Bool
  | null => false
  | bool b => b
  | int n => n != 0
  | float x => !x.isZero
  | text s => s != ""
  | list items => !items.isEmpty
  | map entries => !entries.isEmpty

/-! ## Integers as text -/

/-- The decimal text of an integer. -/
def intText (n : Int) : List Char :=
  if n < 0 then '-' :: Text.decimal n.natAbs else Text.decimal n.natAbs

/-- Whether an integer is written at all. -/
def isWritableInt (n : Int) : Bool :=
  (Text.decimal n.natAbs).length ≤ Number.digitLimit

mutual

/-- Whether a value can be written: every integer in it is. The texts of this library are those of
values that can be written; whatever makes one of them asks first. -/
def isWritable : Value → Bool
  | int n => isWritableInt n
  | list items => areWritable items
  | map entries => entriesWritable entries
  | _ => true

def areWritable : List Value → Bool
  | [] => true
  | item :: rest => isWritable item && areWritable rest

def entriesWritable : List (String × Value) → Bool
  | [] => true
  | (_, value) :: rest => isWritable value && entriesWritable rest

end

/-! ## Display -/

mutual

/-- A value inside a displayed list or map. -/
def inspect : Value → List Char
  | null => "None".toList
  | bool b => if b then "True".toList else "False".toList
  | int n => intText n
  | float x => x.text.toList
  | text s => Text.quoted s.toList
  | list items => ['['] ++ inspectItems items ++ [']']
  | map entries => ['\x7b'] ++ inspectEntries entries ++ ['\x7d']

def inspectItems : List Value → List Char
  | [] => []
  | [item] => inspect item
  | item :: rest => inspect item ++ ", ".toList ++ inspectItems rest

def inspectEntries : List (String × Value) → List Char
  | [] => []
  | [(key, value)] => Text.quoted key.toList ++ ": ".toList ++ inspect value
  | (key, value) :: rest =>
    Text.quoted key.toList ++ ": ".toList ++ inspect value ++ ", ".toList ++ inspectEntries rest

end

/-- A value as it stands in a title: texts bare, truth values in lower case. -/
def display : Value → String
  | null => "undefined"
  | bool b => if b then "true" else "false"
  | text s => s
  | value => String.ofList value.inspect

end Value
end PropCatalog
