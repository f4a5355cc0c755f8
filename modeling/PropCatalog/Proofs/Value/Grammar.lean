import PropCatalog.Assoc
import PropCatalog.Number.Read
import PropCatalog.Proofs.Value.Json

/-!
# The grammar of JSON — which texts denote a value

The format of RFC 8259, as a relation between texts and values, and a reader for it. Integers are
numbers without fraction and exponent, all other numbers are doubles. Of several entries with one
key the last one counts, at the place of the first. Half of a surrogate pair denotes the replacement
character.

- `Json.number?`, `Json.IsString` : numbers and strings
- `Json.Denotes`    : texts of values, and of what stands between brackets
- `Json.WellFormed` : texts that denote some value
- `Json.decode`     : the reader
-/

namespace PropCatalog
namespace Json

/-! ## Numbers and words -/

def isBlank (c : Char) : Bool :=
  c == ' ' || c == '\n' || c == '\r' || c == '\t'

def Blanks (cs : List Char) : Prop :=
  ∀ c ∈ cs, isBlank c = true

def words : List (List Char × Value) :=
  [("null".toList, .null), ("true".toList, .bool true), ("false".toList, .bool false)]

def isNumberChar (c : Char) : Bool :=
  c.isDigit || c == '-' || c == '+' || c == '.' || c == 'e' || c == 'E'

/-- Whether a numeral has digits before the point, without a leading zero, and digits after it. -/
def isStrict (n : Number.Numeral) : Bool :=
  (n.whole == ['0'] || !n.whole.isEmpty && n.whole.head? != some '0') && n.fraction != some []

/-- The number that a whole text denotes: a strict numeral of ASCII characters without a plus sign
in front. -/
def number? (cs : List Char) : Option Value :=
  if cs.all isNumberChar && cs.head? != some '+' then
    match Number.numeral? cs with
    | some n =>
      if isStrict n then
        some (if n.isInteger then .int (Number.signed n.negative (Number.valueOf n.whole))
          else .float n.toDouble)
      else none
    | none => none
  else none

/-! ## Strings -/

/-- The characters with a short escape, after its mark. -/
def escapes : List (Char × Char) :=
  ('/', '/') :: Value.shortEscapes

def hexDigit? (c : Char) : Option Nat :=
  if c.isDigit then some (c.toNat - 48)
  else if 'a' ≤ c && c ≤ 'f' then some (c.toNat - 87)
  else if 'A' ≤ c && c ≤ 'F' then some (c.toNat - 55)
  else none

/-- The value of four hexadecimal digits. -/
def hexValue? (cs : List Char) : Option Nat :=
  if cs.length = 4 then (cs.mapM hexDigit?).map (List.foldl (fun acc d => 16 * acc + d) 0) else none

/-- The ways to write one code unit in a string. -/
inductive CodeUnit : List Char → Nat → Prop
  | plain {c : Char} : 32 ≤ c.toNat → c ≠ '"' → c ≠ '\\' → CodeUnit [c] c.toNat
  | short {mark c : Char} : (mark, c) ∈ escapes → CodeUnit ['\\', mark] c.toNat
  | numbered {digits : List Char} {n : Nat} :
      hexValue? digits = some n → CodeUnit ('\\' :: 'u' :: digits) n

inductive CodeUnits : List Char → List Nat → Prop
  | nil : CodeUnits [] []
  | cons {cs cs' : List Char} {n : Nat} {units : List Nat} :
      CodeUnit cs n → CodeUnits cs' units → CodeUnits (cs ++ cs') (n :: units)

def isHigh (n : Nat) : Bool := 0xD800 ≤ n && n < 0xDC00

def isLow (n : Nat) : Bool := 0xDC00 ≤ n && n < 0xE000

/-- The character of a code unit on its own. -/
def unitChar (n : Nat) : Char :=
  if isHigh n || isLow n then Char.ofNat 0xFFFD else Char.ofNat n

/-- The characters of code units: surrogates stand for a character in pairs. -/
def joinUnits : List Nat → List Char
  | [] => []
  | [n] => [unitChar n]
  | high :: low :: units =>
    if isHigh high && isLow low then
      Char.ofNat (0x10000 + 0x400 * (high - 0xD800) + (low - 0xDC00)) :: joinUnits units
    else unitChar high :: joinUnits (low :: units)

/-- Texts of strings: code units between quotes. -/
def IsString (cs : List Char) (s : String) : Prop :=
  ∃ body units, cs = '"' :: (body ++ ['"']) ∧ CodeUnits body units ∧
    s = String.ofList (joinUnits units)

/-! ## Values -/

/-- What a part of a text denotes. -/
inductive Content where
  | value (v : Value)
  /-- A value with blanks around it. -/
  | element (v : Value)
  /-- Elements with commas between them. -/
  | items (vs : List Value)
  /-- A key and an element, with a colon between them. -/
  | entry (key : String) (v : Value)
  /-- Entries with commas between them. -/
  | entries (es : List (String × Value))

inductive Denotes : List Char → Content → Prop
  | word {cs : List Char} {v : Value} : (cs, v) ∈ words → Denotes cs (.value v)
  | number {cs : List Char} {v : Value} : number? cs = some v → Denotes cs (.value v)
  | string {cs : List Char} {s : String} : IsString cs s → Denotes cs (.value (.text s))
  | emptyList {w : List Char} : Blanks w → Denotes ('[' :: (w ++ [']'])) (.value (.list []))
  | list {cs : List Char} {vs : List Value} :
      Denotes cs (.items vs) → Denotes ('[' :: (cs ++ [']'])) (.value (.list vs))
  | emptyMap {w : List Char} :
      Blanks w → Denotes ('\x7b' :: (w ++ ['\x7d'])) (.value (.map []))
  | map {cs : List Char} {es : List (String × Value)} :
      Denotes cs (.entries es) →
        Denotes ('\x7b' :: (cs ++ ['\x7d'])) (.value (.map (Assoc.ofList es)))
  | element {w cs w' : List Char} {v : Value} :
      Blanks w → Denotes cs (.value v) → Blanks w' → Denotes (w ++ (cs ++ w')) (.element v)
  | item {cs : List Char} {v : Value} : Denotes cs (.element v) → Denotes cs (.items [v])
  | items {cs ds : List Char} {v : Value} {vs : List Value} :
      Denotes cs (.element v) → Denotes ds (.items vs) →
        Denotes (cs ++ ',' :: ds) (.items (v :: vs))
  | member {w cs w' ds : List Char} {key : String} {v : Value} :
      Blanks w → IsString cs key → Blanks w' → Denotes ds (.element v) →
        Denotes (w ++ (cs ++ (w' ++ ':' :: ds))) (.entry key v)
  | entry {cs : List Char} {key : String} {v : Value} :
      Denotes cs (.entry key v) → Denotes cs (.entries [(key, v)])
  | entries {cs ds : List Char} {key : String} {v : Value} {es : List (String × Value)} :
      Denotes cs (.entry key v) → Denotes ds (.entries es) →
        Denotes (cs ++ ',' :: ds) (.entries ((key, v) :: es))

def skip (cs : List Char) : List Char :=
  cs.dropWhile isBlank

def word? (cs : List Char) : Option (Value × List Char) :=
  words.findSome? fun (word, v) => (Text.stripPrefix? word cs).map (v, ·)

/-- A number at the beginning of a text, as far as the characters of numbers go. -/
def leadingNumber? (cs : List Char) : Option (Value × List Char) :=
  (number? (cs.takeWhile isNumberChar)).map (·, cs.dropWhile isNumberChar)

/-- The code units up to the closing quote. -/
def units? : List Char → Option (List Nat × List Char)
  | [] => none
  | '"' :: rest => some ([], rest)
  | '\\' :: 'u' :: a :: b :: c :: d :: rest =>
    match hexValue? [a, b, c, d], units? rest with
    | some n, some (units, rest) => some (n :: units, rest)
    | _, _ => none
  | '\\' :: mark :: rest =>
    match escapes.lookup mark, units? rest with
    | some c, some (units, rest) => some (c.toNat :: units, rest)
    | _, _ => none
  | c :: rest =>
    if 32 ≤ c.toNat && c != '\\' then
      (units? rest).map fun (units, rest) => (c.toNat :: units, rest)
    else none

def string? : List Char → Option (String × List Char)
  | '"' :: rest =>
    (units? rest).map fun (units, rest) => (String.ofList (joinUnits units), rest)
  | _ => none

/-- A value read by `read`, with the blanks around it. -/
def element? (read : List Char → Option (Value × List Char)) (cs : List Char) :
    Option (Value × List Char) :=
  (read (skip cs)).map fun (v, rest) => (v, skip rest)

def member? (read : List Char → Option (Value × List Char)) (cs : List Char) :
    Option ((String × Value) × List Char) :=
  match string? (skip cs) with
  | none => none
  | some (key, rest) =>
    match skip rest with
    | ':' :: rest => (element? read rest).map fun (v, rest) => ((key, v), rest)
    | _ => none

mutual

/-- The value at the beginning of a text; `fuel` bounds the depth and the number of items. -/
def value? : Nat → List Char → Option (Value × List Char)
  | 0, _ => none
  | fuel + 1, cs =>
    match cs with
    | '"' :: _ => (string? cs).map fun (s, rest) => (.text s, rest)
    | '[' :: rest =>
      match skip rest with
      | ']' :: rest => some (.list [], rest)
      | _ =>
        match items? fuel rest with
        | some (vs, ']' :: rest) => some (.list vs, rest)
        | _ => none
    | '\x7b' :: rest =>
      match skip rest with
      | '\x7d' :: rest => some (.map [], rest)
      | _ =>
        match entries? fuel rest with
        | some (es, '\x7d' :: rest) => some (.map (Assoc.ofList es), rest)
        | _ => none
    | _ => (word? cs).or (leadingNumber? cs)

def items? : Nat → List Char → Option (List Value × List Char)
  | 0, _ => none
  | fuel + 1, cs =>
    match element? (value? fuel) cs with
    | some (v, ',' :: rest) => (items? fuel rest).map fun (vs, rest) => (v :: vs, rest)
    | some (v, rest) => some ([v], rest)
    | none => none

def entries? : Nat → List Char → Option (List (String × Value) × List Char)
  | 0, _ => none
  | fuel + 1, cs =>
    match member? (value? fuel) cs with
    | some (e, ',' :: rest) => (entries? fuel rest).map fun (es, rest) => (e :: es, rest)
    | some (e, rest) => some ([e], rest)
    | none => none

end

/-- The value that a text denotes. -/
def decode (text : String) : Option Value :=
  let cs := text.toList
  match element? (value? (cs.length + 1)) cs with
  | some (v, []) => some v
  | _ => none

end Json
end PropCatalog
