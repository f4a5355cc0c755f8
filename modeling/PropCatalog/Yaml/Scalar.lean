import PropCatalog.Number.Arithmetic
import PropCatalog.Number.Read
import PropCatalog.Yaml.Datum
import PropCatalog.Yaml.Tag

/-!
# What scalars denote

For each kind of scalar, the datum that its text denotes. A tag that is written out may ask for a
kind that the text does not have, and then there is none.
-/

namespace PropCatalog
namespace Yaml

/-! ## Numbers -/

/-- The text of a number without bars and sign; true stands for minus. -/
def splitNumber (text : List Char) : Except Error (Bool × List Char) :=
  match text.filter (· != '_') with
  | [] => .error (.scalar .emptyNumber)
  | digits => .ok (Number.splitSign digits)

/-- The value of places in base 60, the most significant first. -/
def sumSixtieths (places : List Int) : Int :=
  places.foldl (fun acc place => 60 * acc + place) 0

def readNat? (cs : List Char) : Option Int :=
  match cs with
  | '0' :: 'b' :: digits => Number.integerIn? 2 'b' digits
  | '0' :: 'x' :: digits => Number.integerIn? 16 'x' digits
  | '0' :: _ => Number.integerIn? 8 'o' cs
  | _ =>
    if cs.contains ':' then ((Text.splitAt ':' cs).mapM Number.integer?).map sumSixtieths
    else Number.integer? cs

def readInt (text : List Char) : Except Error Datum := do
  let (negative, digits) ← splitNumber text
  -- a sign alone leaves nothing to look at
  if digits.isEmpty then throw (.scalar .emptyNumber)
  match readNat? digits with
  | some n => return .int (if negative then -n else n)
  | none => throw (.scalar .noNumber)

/-- The sum of places in base 60, the least significant first; `weight` is the value of a place. -/
def addSixtieths : Nat → Double → List Double → Double
  | _, sum, [] => sum
  | weight, sum, place :: rest =>
    addSixtieths (60 * weight) (sum.add (place.mul (.ofNat weight))) rest

def readUnsignedFloat? (cs : List Char) : Option Double :=
  if cs == ".inf".toList then some (.infinite false)
  else if cs == ".nan".toList then some .nan
  else if cs.contains ':' then
    ((Text.splitAt ':' cs).mapM Number.float?).map fun places =>
      addSixtieths 1 (Double.zero false) places.reverse
  else Number.float? cs

def readFloat (text : List Char) : Except Error Datum := do
  let (negative, digits) ← splitNumber text
  match readUnsignedFloat? (digits.map Char.toLower) with
  | some x => return .float (if negative then x.negate else x)
  | none => throw (.scalar .noNumber)

/-! ## Truth values -/

def readBool (text : List Char) : Except Error Datum :=
  let word := String.ofList (text.map Char.toLower)
  if trueWords.contains word then .ok (.bool true)
  else if falseWords.contains word then .ok (.bool false)
  else .error (.scalar .noBoolean)

/-! ## Dates and times -/

def decimalOf (digits : List Char) : Nat :=
  digits.foldl (fun acc d => 10 * acc + (d.toNat - 48)) 0

def isLeapYear (year : Nat) : Bool :=
  year % 4 == 0 && (year % 100 != 0 || year % 400 == 0)

def daysInMonth (year month : Nat) : Nat :=
  if month == 2 then (if isLeapYear year then 29 else 28)
  else if month == 4 || month == 6 || month == 9 || month == 11 then 30
  else 31

/-- Whether the fields are those of a day of the calendar, a time of the day and an offset of less
than a day. -/
def Timestamp.isValid (t : Timestamp) : Bool :=
  let year := decimalOf t.year
  let month := decimalOf t.month
  let day := decimalOf t.day
  1 ≤ year && 1 ≤ month && month ≤ 12 && 1 ≤ day && day ≤ daysInMonth year month &&
    (t.time.all fun (hour, minute, second) =>
      decimalOf hour < 24 && decimalOf minute < 60 && decimalOf second < 60) &&
    (t.offset.all fun (hours, minutes) => 60 * decimalOf hours + decimalOf minutes < 1440)

def readTimestamp (text : List Char) : Except Error Datum :=
  let cs := if text.getLast? == some '\n' then text.dropLast else text
  match Timestamp.split? cs with
  | none => .error (.scalar .noTimestamp)
  | some t => if t.isValid then .ok .instant else .error (.scalar .noDate)

/-! ## Binary data -/

/-- The value of a character of base 64. -/
def sextet? (c : Char) : Option Nat :=
  if 'A' ≤ c && c ≤ 'Z' then some (c.toNat - 65)
  else if 'a' ≤ c && c ≤ 'z' then some (c.toNat - 71)
  else if c.isDigit then some (c.toNat + 4)
  else if c == '+' then some 62
  else if c == '/' then some 63
  else none

/-- Reads groups of four characters as three bytes. `held` are the sextets of the open group and
`pads` the padding marks in it; a group of two or three characters has to be padded. Other
characters are skipped. -/
def base64? : List UInt8 → List Nat → Nat → List Char → Option (List UInt8)
  | done, held, _, [] => if held.isEmpty then some done else none
  | done, held, pads, c :: rest =>
    if c == '=' then
      if 2 ≤ held.length then
        if 4 ≤ held.length + pads + 1 then some (done ++ bytesOf held)
        else base64? done held (pads + 1) rest
      else base64? done held pads rest
    else
      match sextet? c with
      | none => base64? done held pads rest
      | some n =>
        if held.length == 3 then base64? (done ++ bytesOf (held ++ [n])) [] 0 rest
        else base64? done (held ++ [n]) 0 rest
where
  /-- The whole bytes in up to four sextets. -/
  bytesOf : List Nat → List UInt8
    | [a, b] => [(4 * a + b / 16).toUInt8]
    | [a, b, c] => [(4 * a + b / 16).toUInt8, (16 * b + c / 4).toUInt8]
    | [a, b, c, d] => [(4 * a + b / 16).toUInt8, (16 * b + c / 4).toUInt8, (64 * c + d).toUInt8]
    | _ => []

def readBinary (text : List Char) : Except Error Datum :=
  if text.any fun c => 128 ≤ c.toNat then .error (.malformed .badBase64)
  else
    match base64? [] [] 0 text with
    | some bytes => .ok (.bytes bytes)
    | none => .error (.malformed .badBase64)

/-! ## Scalars -/

/-- The datum of a scalar with the given tag. -/
def readScalar (tag : Tag) (text : List Char) : Except Error Datum :=
  match tag with
  | .null => .ok .null
  | .bool => readBool text
  | .int => readInt text
  | .float => readFloat text
  | .binary => readBinary text
  | .timestamp => readTimestamp text
  | .str => .ok (.text (String.ofList text))
  | .omap => .error (.malformed .wrongKind)
  | .pairs => .error (.malformed .wrongKind)
  | .set => .error (.malformed .wrongKind)
  | .seq => .error (.malformed .wrongKind)
  | .map => .error (.malformed .wrongKind)
  | .merge => .error (.malformed .unknownTag)
  | .value => .error (.malformed .unknownTag)
  | .other => .error (.malformed .unknownTag)

end Yaml
end PropCatalog
