import PropCatalog.Number.Double
import PropCatalog.Text.WordChar

/-!
# Reading numerals

Numerals may use the decimal digits of any script. Integers of more than `digitLimit` digits are
refused, leading zeros included.
-/

namespace PropCatalog
namespace Number

/-- The longest integer that is read or written, in digits. -/
def digitLimit : Nat := 4300

/-- The value of a run of digits. -/
def valueOf (digits : List Char) : Nat :=
  digits.foldl (fun acc c => 10 * acc + (Text.digitValue? c).getD 0) 0

/-- Splits off a sign; true stands for minus. -/
def splitSign : List Char → Bool × List Char
  | '-' :: rest => (true, rest)
  | '+' :: rest => (false, rest)
  | cs => (false, cs)

def signed (negative : Bool) (n : Nat) : Int :=
  if negative then -(n : Int) else n

/-- Digits in groups: underscores may stand singly between digits. -/
def groupedDigits? : List Char → Option (List Char)
  | [] => none
  | [c] => if Text.isDecimalDigit c then some [c] else none
  | c :: '_' :: rest => if Text.isDecimalDigit c then (groupedDigits? rest).map (c :: ·) else none
  | c :: rest => if Text.isDecimalDigit c then (groupedDigits? rest).map (c :: ·) else none

/-- An integer numeral with white space around it, a sign and grouped digits. -/
def integer? (text : List Char) : Option Int :=
  let (negative, rest) := splitSign (Text.trimSpace text)
  match groupedDigits? rest with
  | some digits =>
    if digits.length ≤ digitLimit then some (signed negative (valueOf digits)) else none
  | none => none

/-- Splits off the leading digits. -/
def splitDigits (cs : List Char) : List Char × List Char :=
  (cs.takeWhile Text.isDecimalDigit, cs.dropWhile Text.isDecimalDigit)

/-- A numeral taken apart: sign, digits before and after the point, and the exponent. A point is
there when `fraction` is. -/
structure Numeral where
  negative : Bool
  whole : List Char
  fraction : Option (List Char)
  exponent : Option Int
  deriving DecidableEq, Repr

/-- The exponent part of a numeral, with its sign and digits. -/
def splitExponent? : List Char → Option (Option Int)
  | [] => some none
  | c :: rest =>
    if c == 'e' || c == 'E' then
      let (negative, rest) := splitSign rest
      let (digits, rest) := splitDigits rest
      if digits.isEmpty || !rest.isEmpty then none
      else some (some (signed negative (valueOf digits)))
    else none

/-- Reads a whole text as a numeral; some digit has to stand before or after the point. -/
def numeral? (text : List Char) : Option Numeral :=
  let (negative, rest) := splitSign text
  let (whole, rest) := splitDigits rest
  let (fraction, rest) :=
    match rest with
    | '.' :: rest =>
      let (digits, rest) := splitDigits rest
      (some digits, rest)
    | _ => (none, rest)
  if whole.isEmpty && (fraction.getD []).isEmpty then none
  else (splitExponent? rest).map fun exponent => { negative, whole, fraction, exponent }

/-- Whether a numeral denotes an integer: it has neither point nor exponent. -/
def Numeral.isInteger (n : Numeral) : Bool :=
  n.fraction.isNone && n.exponent.isNone

def Numeral.toDouble (n : Numeral) : Double :=
  let fraction := n.fraction.getD []
  Double.ofDecimal n.negative (valueOf (n.whole ++ fraction))
    (n.exponent.getD 0 - (fraction.length : Int))

/-- The names under which a double that is no decimal is read, without its sign. -/
def special? (negative : Bool) (name : List Char) : Option Double :=
  let name := String.ofList (name.map Char.toLower)
  if name == "nan" then some .nan
  else if name == "inf" || name == "infinity" then some (.infinite negative)
  else none

/-- A double with white space around it: a numeral, or one of the special names in any case. -/
def float? (text : List Char) : Option Double :=
  let trimmed := Text.trimSpace text
  let (negative, rest) := splitSign trimmed
  (special? negative rest).or ((numeral? trimmed).map Numeral.toDouble)

/-- The value of a digit in a base of at most sixteen. -/
def digitIn? (base : Nat) (c : Char) : Option Nat :=
  let n :=
    match Text.digitValue? c with
    | some n => n
    | none => if 'a' ≤ c.toLower && c.toLower ≤ 'f' then c.toLower.toNat - 87 else 16
  if n < base then some n else none

/-- An integer in base 2, 8 or 16 with white space around it, a sign, and the mark of the base, a
zero and a letter, if it is there. Such integers may be as long as they like. -/
def integerIn? (base : Nat) (mark : Char) (text : List Char) : Option Int :=
  let (negative, rest) := splitSign (Text.trimSpace text)
  let digits :=
    match rest with
    | '0' :: c :: digits => if c.toLower == mark then digits else rest
    | _ => rest
  if digits.isEmpty then none
  else (digits.mapM (digitIn? base)).map fun values =>
    signed negative (values.foldl (fun acc d => base * acc + d) 0)

end Number
end PropCatalog
