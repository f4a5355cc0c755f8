import PropCatalog.Text.Search
import PropCatalog.Yaml.Cursor

/-!
# Tags

The tag of a value says what kind of value it is. A plain scalar without a tag gets one by its form:
a truth value, a number (also in base 60), a date or time, nothing, or else a text.

- `Tag.ofUri`    : the tag with a given name
- `Tag.ofPlain`  : the tag of a plain scalar
- `Timestamp.split?` : the fields of a date or time
-/

namespace PropCatalog
namespace Yaml

inductive Tag where
  | null
  | bool
  | int
  | float
  | binary
  | timestamp
  | omap
  | pairs
  | set
  | str
  | seq
  | map
  | merge
  | value
  | other
  deriving DecidableEq, Repr

/-- What the names of the standard tags begin with. -/
def standardTags : String := "tag:yaml.org,2002:"

def Tag.standard : List (String × Tag) :=
  [("null", .null), ("bool", .bool), ("int", .int), ("float", .float), ("binary", .binary),
    ("timestamp", .timestamp), ("omap", .omap), ("pairs", .pairs), ("set", .set), ("str", .str),
    ("seq", .seq), ("map", .map), ("merge", .merge), ("value", .value)]

def Tag.ofUri (uri : String) : Tag :=
  match Text.stripPrefix? standardTags.toList uri.toList with
  | none => .other
  | some name => ((standard.find? (·.1 == String.ofList name)).map (·.2)).getD .other

/-! ## Truth values and numbers -/

def nullWords : List String := ["", "~", "null", "Null", "NULL"]

def trueWords : List String := ["yes", "Yes", "YES", "true", "True", "TRUE", "on", "On", "ON"]

def falseWords : List String := ["no", "No", "NO", "false", "False", "FALSE", "off", "Off", "OFF"]

def infinityWords : List String := [".inf", ".Inf", ".INF"]

def nanWords : List String := [".nan", ".NaN", ".NAN"]

/-- A text without a sign in front. -/
def unsigned : List Char → List Char
  | '+' :: rest => rest
  | '-' :: rest => rest
  | cs => cs

def isDigitOrBar (c : Char) : Bool := c.isDigit || c == '_'

/-- Digits in groups, the first character being a digit. -/
def isGrouped : List Char → Bool
  | [] => false
  | c :: rest => c.isDigit && rest.all isDigitOrBar

/-- A place of a number in base 60: up to two digits, below 60. -/
def isSixtieth : List Char → Bool
  | [a] => a.isDigit
  | [a, b] => '0' ≤ a && a ≤ '5' && b.isDigit
  | _ => false

/-- Grouped digits and further places in base 60 behind colons, at least one. -/
def isBase60 (cs : List Char) : Bool :=
  match Text.splitAt ':' cs with
  | first :: second :: rest => isGrouped first && (second :: rest).all isSixtieth
  | _ => false

/-- Whether a plain scalar is an integer: binary, octal, decimal, hexadecimal or in base 60. -/
def isInteger (cs : List Char) : Bool :=
  match unsigned cs with
  | ['0'] => true
  | '0' :: 'b' :: digits =>
    !digits.isEmpty && digits.all fun c => c == '0' || c == '1' || c == '_'
  | '0' :: 'x' :: digits => !digits.isEmpty && digits.all fun c => isHexDigit c || c == '_'
  | '0' :: digits => digits.all fun c => ('0' ≤ c && c ≤ '7') || c == '_'
  | digits => isGrouped digits || isBase60 digits

/-- An exponent, whose sign has to be there, or nothing. -/
def isExponent : List Char → Bool
  | [] => true
  | e :: sign :: digits =>
    (e == 'e' || e == 'E') && (sign == '+' || sign == '-') && !digits.isEmpty &&
      digits.all Char.isDigit
  | _ => false

/-- Whether a text is digits and bars, and then an exponent if there is one. -/
def isFraction (cs : List Char) : Bool :=
  isExponent (cs.dropWhile isDigitOrBar)

/-- Whether a plain scalar is a number with a point, or one of the words for infinity and for no
number. A number that begins with its point has no sign. -/
def isFloat (cs : List Char) : Bool :=
  let digits := unsigned cs
  let text := String.ofList digits
  nanWords.contains (String.ofList cs) || infinityWords.contains text ||
    (match cs with
      | '.' :: c :: rest => c.isDigit && isFraction rest
      | _ => false) ||
    (match digits.dropWhile (· != '.') with
      | '.' :: fraction =>
        let whole := digits.takeWhile (· != '.')
        (isGrouped whole && isFraction fraction) || (isBase60 whole && fraction.all isDigitOrBar)
      | _ => false)

/-! ## Dates and times -/

/-- The fields of a date or time, as they are written. -/
structure Timestamp where
  year : List Char
  month : List Char
  day : List Char
  /-- Hour, minute and second. -/
  time : Option (List Char × List Char × List Char) := none
  /-- Hours and minutes of the offset from universal time. -/
  offset : Option (List Char × List Char) := none
  deriving DecidableEq, Repr

/-- The digits at the front of a text if their number is in the range, and the rest. -/
def digitsAtFront? (least most : Nat) (cs : List Char) : Option (List Char × List Char) :=
  let digits := (cs.takeWhile Char.isDigit).take most
  if least ≤ digits.length then some (digits, cs.drop digits.length) else none

/-- The rest of a text behind one expected character. -/
def behind? (c : Char) : List Char → Option (List Char)
  | d :: rest => if c == d then some rest else none
  | [] => none

/-- The offset at the end of a time: a letter for universal time, or a sign and hours. -/
def Timestamp.offset? (cs : List Char) : Option (Option (List Char × List Char)) :=
  match cs.dropWhile isSpaceOrTab with
  | [] => if cs.isEmpty then some none else none
  | ['Z'] => some none
  | sign :: rest =>
    if sign == '+' || sign == '-' then do
      let (hours, rest) ← digitsAtFront? 1 2 rest
      match rest with
      | [] => some (some (hours, []))
      | _ => do
        let (minutes, rest) ← digitsAtFront? 2 2 (← behind? ':' rest)
        if rest.isEmpty then some (some (hours, minutes)) else none
    else none

/-- The time behind a date, up to the end of the text. -/
def Timestamp.withTime? (date : Timestamp) (cs : List Char) : Option Timestamp := do
  let rest ←
    match cs with
    | 'T' :: rest => some rest
    | 't' :: rest => some rest
    | c :: _ => if isSpaceOrTab c then some (cs.dropWhile isSpaceOrTab) else none
    | [] => none
  let (hour, rest) ← digitsAtFront? 1 2 rest
  let (minute, rest) ← digitsAtFront? 2 2 (← behind? ':' rest)
  let (second, rest) ← digitsAtFront? 2 2 (← behind? ':' rest)
  let rest :=
    match rest with
    | '.' :: fraction => fraction.dropWhile Char.isDigit
    | rest => rest
  let offset ← offset? rest
  return { date with time := some (hour, minute, second), offset }

/-- The fields of a date, with or without a time; month and day may have one digit. -/
def Timestamp.split? (cs : List Char) : Option Timestamp := do
  let (year, rest) ← digitsAtFront? 4 4 cs
  let (month, rest) ← digitsAtFront? 1 2 (← behind? '-' rest)
  let (day, rest) ← digitsAtFront? 1 2 (← behind? '-' rest)
  let date : Timestamp := { year, month, day }
  if rest.isEmpty then some date else date.withTime? rest

/-- Whether a plain scalar is a date or time; month and day of a mere date have two digits. -/
def isTimestamp (cs : List Char) : Bool :=
  match Timestamp.split? cs with
  | none => false
  | some t => t.time.isSome || (t.month.length == 2 && t.day.length == 2)

/-! ## Plain scalars -/

/-- The tag of a plain scalar. One line feed may end it. -/
def Tag.ofPlain (text : List Char) : Tag :=
  let cs := if text.getLast? == some '\n' then text.dropLast else text
  let word := String.ofList cs
  if trueWords.contains word || falseWords.contains word then .bool
  else if isFloat cs then .float
  else if isInteger cs then .int
  else if word == "<<" then .merge
  else if nullWords.contains word then .null
  else if isTimestamp cs then .timestamp
  else if word == "=" then .value
  else .str

end Yaml
end PropCatalog
