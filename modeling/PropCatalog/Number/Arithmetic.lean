import PropCatalog.Number.Double

/-!
# Sums and products of doubles

Both operations compute the exact result and round it once, to the nearest double.
-/

namespace PropCatalog
namespace Double

def negate : Double → Double
  | .nan => .nan
  | .infinite negative => .infinite (!negative)
  | .finite negative mantissa exponent => .finite (!negative) mantissa exponent

/-- The number nearest to `mantissa * 2 ^ exponent`. -/
def ofScaled (negative : Bool) (mantissa : Nat) (exponent : Int) : Double :=
  if mantissa == 0 then zero negative
  else
    let (up, down) := twoPow exponent
    ofFraction negative (mantissa * up) down

/-- The double nearest to a natural number. -/
def ofNat (n : Nat) : Double := ofScaled false n 0

/-- A sum; two zeros of different sign make a positive zero. -/
def add : Double → Double → Double
  | .nan, _ => .nan
  | _, .nan => .nan
  | .infinite n, .infinite k => if n == k then .infinite n else .nan
  | .infinite n, .finite _ _ _ => .infinite n
  | .finite _ _ _, .infinite k => .infinite k
  | .finite n m e, .finite k l f =>
    let least := min e f
    let left : Int := m * Nat.pow 2 (e - least).toNat
    let right : Int := l * Nat.pow 2 (f - least).toNat
    let sum := (if n then -left else left) + (if k then -right else right)
    if sum == 0 then zero (n && k) else ofScaled (sum < 0) sum.natAbs least

/-- A product; infinity times zero is no number. -/
def mul : Double → Double → Double
  | .nan, _ => .nan
  | _, .nan => .nan
  | .infinite n, .infinite k => .infinite (n != k)
  | .infinite n, .finite k m _ => if m == 0 then .nan else .infinite (n != k)
  | .finite k m _, .infinite n => if m == 0 then .nan else .infinite (n != k)
  | .finite n m e, .finite k l f => ofScaled (n != k) (m * l) (e + f)

end Double
end PropCatalog
