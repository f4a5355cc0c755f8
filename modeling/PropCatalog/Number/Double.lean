import PropCatalog.Text.Search

/-!
# Double-precision numbers

A number is an integer mantissa of at most 53 bits times a power of two, or one of the special
values. The module has both directions between such numbers and decimals, in exact arithmetic:

- `Double.ofDecimal` : the number nearest to a decimal, the one with the even mantissa on a tie
- `Double.shortest`  : the fewest digits that read back as the number, of those the nearest, and on
  a tie the one with the even last digit
- `Double.text`      : the digits written out, positionally from `1e-4` up to below `1e16`
-/

namespace PropCatalog

inductive Double where
  | nan
  | infinite (negative : Bool)
  /-- `mantissa * 2 ^ exponent`; the mantissa is below `2 ^ 53`, and it is at least `2 ^ 52` unless
  the exponent is the least one, `-1074`. -/
  | finite (negative : Bool) (mantissa : Nat) (exponent : Int)
  deriving DecidableEq, Repr, Inhabited

namespace Double

/-! ## From decimals -/

/-- `2 ^ e` as a fraction. -/
def twoPow (e : Int) : Nat × Nat :=
  if 0 ≤ e then (Nat.pow 2 e.toNat, 1) else (1, Nat.pow 2 (-e).toNat)

/-- `10 ^ e` as a fraction. -/
def tenPow (e : Int) : Nat × Nat :=
  if 0 ≤ e then (Nat.pow 10 e.toNat, 1) else (1, Nat.pow 10 (-e).toNat)

/-- The integer nearest to `num / den`, the even one on a tie. -/
def roundDiv (num den : Nat) : Nat :=
  let q := num / den
  let r := num % den
  if den < 2 * r || (2 * r == den && q % 2 == 1) then q + 1 else q

/-- The number nearest to the positive fraction `num / den`. -/
def ofFraction (negative : Bool) (num den : Nat) : Double :=
  let guess : Int := (Nat.log2 num : Int) - Nat.log2 den - 53
  -- the quotient by `2 ^ guess` lies between `2 ^ 52` and `2 ^ 54`
  let (up, down) := twoPow (guess + 53)
  let e := max (if den * up ≤ num * down then guess + 1 else guess) (-1074)
  let (up, down) := twoPow e
  let m := roundDiv (num * down) (den * up)
  let (m, e) := if m == Nat.pow 2 53 then (Nat.pow 2 52, e + 1) else (m, e)
  if 971 < e then .infinite negative else .finite negative m e

def zero (negative : Bool) : Double := .finite negative 0 (-1074)

/-- The number nearest to `digits * 10 ^ exponent`. -/
def ofDecimal (negative : Bool) (digits : Nat) (exponent : Int) : Double :=
  let places : Int := (Text.decimal digits).length + exponent
  if digits == 0 || places < -330 then zero negative
  else if 310 < places then .infinite negative
  else
    let (up, down) := tenPow exponent
    ofFraction negative (digits * up) down

/-! ## To decimals -/

/-- The number of places before the decimal point of `num / den`; for a fraction below a tenth it is
minus the number of zeros after the point. -/
def pointPlace (num den : Nat) : Int :=
  if den ≤ num then (Text.decimal (num / den)).length
  else zeros 0 400
where
  zeros (k : Nat) : Nat → Int
    | 0 => -(k : Int)
    | bound + 1 => if den ≤ num * Nat.pow 10 (k + 1) then -(k : Int) else zeros (k + 1) bound

/-- The decimal with `count` digits that is nearest to the number and reads back as it, if there is
one; on a tie its last digit is even. The number is `4 * mantissa` units, and every decimal from
`lo` to `hi` units reads back as it; the ends themselves do when the mantissa is even. A unit is
`up / down`. -/
def nearest? (mantissa lo hi up down : Nat) (point : Int) (count : Nat) : Option (Nat × Int) :=
  let place := point - count
  let (scale, shrink) := tenPow place
  -- `c * scale / shrink` against `x * up / down`
  let inside (c : Nat) : Bool :=
    let left := c * scale * down
    let low := lo * up * shrink
    let high := hi * up * shrink
    if mantissa % 2 == 0 then low ≤ left && left ≤ high else low < left && left < high
  let value := 4 * mantissa * up * shrink
  let unit := scale * down
  let c := value / unit
  let r := value % unit
  let candidates :=
    if 2 * r < unit || (2 * r == unit && c % 2 == 0) then [c, c + 1] else [c + 1, c]
  (candidates.find? inside).map (·, place)

/-- Drops zeros at the end of a decimal. -/
def dropZeros : Nat → Nat → Int → Nat × Int
  | 0, digits, exponent => (digits, exponent)
  | bound + 1, digits, exponent =>
    if digits != 0 && digits % 10 == 0 then dropZeros bound (digits / 10) (exponent + 1)
    else (digits, exponent)

/-- The fewest digits, with their power of ten, that read back as `mantissa * 2 ^ exponent`. -/
def shortest (mantissa : Nat) (exponent : Int) : Nat × Int :=
  let (up, down) := twoPow (exponent - 2)
  let lo :=
    if mantissa == Nat.pow 2 52 && exponent != -1074 then 4 * mantissa - 1 else 4 * mantissa - 2
  let hi := 4 * mantissa + 2
  let point := pointPlace (4 * mantissa * up) down
  let found := (List.range 17).findSome? fun k =>
    nearest? mantissa lo hi up down point (k + 1)
  let (digits, place) := found.getD (0, 0)
  dropZeros 20 digits place

/-- A sign for negative numbers. -/
def signText (negative : Bool) : List Char :=
  if negative then ['-'] else []

/-- The exponent after its mark: a sign and at least two digits. -/
def exponentText (e : Int) : List Char :=
  let digits := Text.decimal e.natAbs
  (if e < 0 then '-' else '+') :: (if digits.length < 2 then '0' :: digits else digits)

/-- The digits of a decimal, written positionally when the point stands after at most 16 places and
before at most four zeros, and with an exponent otherwise. -/
def layout (digits : Nat) (exponent : Int) : List Char :=
  let ds := Text.decimal digits
  let point : Int := ds.length + exponent
  if digits == 0 then "0.0".toList
  else if -4 < point && point ≤ 16 then
    if point ≤ 0 then "0.".toList ++ List.replicate (-point).toNat '0' ++ ds
    else if (ds.length : Int) ≤ point then
      ds ++ List.replicate (point - ds.length).toNat '0' ++ ".0".toList
    else ds.take point.toNat ++ ['.'] ++ ds.drop point.toNat
  else
    let rest := ds.drop 1
    ds.take 1 ++ (if rest.isEmpty then [] else '.' :: rest) ++ ['e'] ++ exponentText (point - 1)

/-- The texts of a number's special values. -/
structure Names where
  nan : String
  infinite : String

/-- A number as text, with the given names for the special values. -/
def write (names : Names) : Double → String
  | .nan => names.nan
  | .infinite negative => String.ofList (signText negative) ++ names.infinite
  | .finite negative mantissa exponent =>
    let (digits, place) := if mantissa == 0 then (0, 0) else shortest mantissa exponent
    String.ofList (signText negative ++ layout digits place)

/-- A number as shown to a reader. -/
def text (x : Double) : String :=
  x.write ⟨"nan", "inf"⟩

/-- Whether a number is zero of either sign. -/
def isZero : Double → Bool
  | .finite _ mantissa _ => mantissa == 0
  | _ => false

end Double
end PropCatalog
