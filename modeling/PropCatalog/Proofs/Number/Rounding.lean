import Mathlib.Data.Int.Log
import Mathlib.Data.Rat.Floor
import Mathlib.Tactic.FieldSimp
import Mathlib.Tactic.Linarith
import Mathlib.Tactic.NormNum
import Mathlib.Tactic.Positivity
import Mathlib.Tactic.Ring
import PropCatalog.Number.Arithmetic
import PropCatalog.Proofs.Number.Decimal

/-!
# Rounding — which fractions are read as a double

A positive fraction is rounded to the double nearest to it. The fractions that are rounded to one
double are those between two bounds, half way to its neighbours, and the bounds belong to them if
the mantissa is even.

- `Double.Canonical`          : the form in which doubles are kept
- `Double.Nearest`            : the fractions nearest to `mantissa * 2 ^ exponent`
- `canonical_ofFraction`      : rounding keeps to the form
- `ofFraction_eq_of_nearest`, `ofDecimal_eq_of_nearest` : what is nearest to a double is rounded so
-/

namespace PropCatalog
namespace Double

/-! ## Powers as fractions -/

theorem powFraction_spec (base : Nat) (hbase : 0 < base) (e : Int) :
    let f : Nat × Nat := if 0 ≤ e then (Nat.pow base e.toNat, 1) else (1, Nat.pow base (-e).toNat)
    0 < f.1 ∧ 0 < f.2 ∧ (f.1 : ℚ) / f.2 = (base : ℚ) ^ e := by
  by_cases he : 0 ≤ e
  · rcases Int.eq_ofNat_of_zero_le he with ⟨n, rfl⟩
    have hpos : 0 < Nat.pow base n := Nat.pow_pos hbase
    simp only [he, if_true]
    refine ⟨hpos, Nat.one_pos, ?_⟩
    rw [Nat.cast_one, div_one, zpow_natCast]
    exact Nat.cast_pow base n
  · have hneg : e = -((-e).toNat : Int) := by omega
    have hpos : 0 < Nat.pow base (-e).toNat := Nat.pow_pos hbase
    simp only [he, if_false]
    refine ⟨Nat.one_pos, hpos, ?_⟩
    have hcast : ((Nat.pow base (-e).toNat : Nat) : ℚ) = (base : ℚ) ^ (-e).toNat :=
      Nat.cast_pow base _
    rw [hcast, Nat.cast_one, one_div]
    nth_rewrite 2 [hneg]
    rw [zpow_neg, zpow_natCast]

theorem twoPow_spec (e : Int) :
    0 < (twoPow e).1 ∧ 0 < (twoPow e).2 ∧ ((twoPow e).1 : ℚ) / (twoPow e).2 = 2 ^ e :=
  powFraction_spec 2 (by decide) e

theorem tenPow_spec (e : Int) :
    0 < (tenPow e).1 ∧ 0 < (tenPow e).2 ∧ ((tenPow e).1 : ℚ) / (tenPow e).2 = 10 ^ e :=
  powFraction_spec 10 (by decide) e

theorem two_zpow_pos (e : Int) : (0 : ℚ) < 2 ^ e := zpow_pos (by norm_num) e

theorem ten_zpow_pos (e : Int) : (0 : ℚ) < 10 ^ e := zpow_pos (by norm_num) e

/-! ## Rounding to an integer -/

/-- A fraction within one half of an integer is rounded to it; on a tie the integer has to be
even. -/
theorem roundDiv_eq {num den m : Nat} (hden : 0 < den) (hlow : (m : ℚ) - 1 / 2 ≤ (num : ℚ) / den)
    (hhigh : (num : ℚ) / den ≤ m + 1 / 2)
    (hodd : m % 2 = 1 → (m : ℚ) - 1 / 2 < (num : ℚ) / den ∧ (num : ℚ) / den < m + 1 / 2) :
    roundDiv num den = m := by
  have hpos : (0 : ℚ) < den := by exact_mod_cast hden
  rw [le_div_iff₀ hpos] at hlow
  rw [div_le_iff₀ hpos] at hhigh
  have hlow' : 2 * (den * m) ≤ 2 * num + den := by
    have h : (2 : ℚ) * (den * m) ≤ 2 * num + den := by linarith
    exact_mod_cast h
  have hhigh' : 2 * num ≤ 2 * (den * m) + den := by
    have h : (2 : ℚ) * num ≤ 2 * (den * m) + den := by linarith
    exact_mod_cast h
  have hodd' : m % 2 = 1 → 2 * (den * m) < 2 * num + den ∧ 2 * num < 2 * (den * m) + den := by
    intro hm
    rcases hodd hm with ⟨h₁, h₂⟩
    rw [lt_div_iff₀ hpos] at h₁
    rw [div_lt_iff₀ hpos] at h₂
    have h₁' : (2 : ℚ) * (den * m) < 2 * num + den := by linarith
    have h₂' : (2 : ℚ) * num < 2 * (den * m) + den := by linarith
    exact ⟨by exact_mod_cast h₁', by exact_mod_cast h₂'⟩
  have hsplit := Nat.div_add_mod num den
  have hrest := Nat.mod_lt num hden
  unfold roundDiv
  simp only [Bool.or_eq_true, decide_eq_true_eq, Bool.and_eq_true, beq_iff_eq]
  generalize num / den = q at *
  generalize num % den = r at *
  -- The integer is the quotient or the next one, whichever is nearer.
  rcases Nat.lt_or_ge m q with hlt | hge
  · have hprod : den * (m + 1) ≤ den * q := Nat.mul_le_mul_left den hlt
    rw [Nat.mul_add] at hprod
    omega
  · have hcases : m = q ∨ m = q + 1 ∨ q + 2 ≤ m := by omega
    rcases hcases with rfl | rfl | hbig
    · split <;> omega
    · rw [Nat.mul_add, Nat.mul_one] at hlow' hhigh' hodd'
      split <;> omega
    · have hprod : den * (q + 2) ≤ den * m := Nat.mul_le_mul_left den hbig
      rw [Nat.mul_add] at hprod
      omega

/-- The exponent of the double nearest to a fraction, before the mantissa is rounded. -/
def exponentOf (x : ℚ) : Int := max (Int.log 2 x - 52) (-1074)

theorem log_two_eq {x : ℚ} {n : Int} (hlow : (2 : ℚ) ^ n ≤ x) (hhigh : x < 2 ^ (n + 1)) :
    Int.log 2 x = n := by
  have hx : 0 < x := lt_of_lt_of_le (two_zpow_pos n) hlow
  have hle : n ≤ Int.log 2 x :=
    (Int.zpow_le_iff_le_log (by decide) hx).1 (by exact_mod_cast hlow)
  have hlt : Int.log 2 x < n + 1 :=
    (Int.lt_zpow_iff_log_lt (by decide) hx).1 (by exact_mod_cast hhigh)
  omega

/-- Fractions are compared by their products. -/
theorem mul_le_mul_iff_fraction (num up : Nat) {den down : Nat} (hden : 0 < den)
    (hdown : 0 < down) :
    den * up ≤ num * down ↔ (up : ℚ) / down ≤ (num : ℚ) / den := by
  have hden' : (0 : ℚ) < den := by exact_mod_cast hden
  have hdown' : (0 : ℚ) < down := by exact_mod_cast hdown
  rw [div_le_div_iff₀ hdown' hden', mul_comm (up : ℚ)]
  exact_mod_cast Iff.rfl

/-- The exponent that is guessed from the lengths of numerator and denominator is corrected by one
comparison. -/
theorem log_two_fraction {num den : Nat} (hnum : 0 < num) (hden : 0 < den) :
    let guess : Int := (Nat.log2 num : Int) - Nat.log2 den - 53
    (if den * (twoPow (guess + 53)).1 ≤ num * (twoPow (guess + 53)).2 then guess + 1 else guess) =
      Int.log 2 ((num : ℚ) / den) - 52 := by
  intro guess
  have hnum' : (0 : ℚ) < num := by exact_mod_cast hnum
  have hden' : (0 : ℚ) < den := by exact_mod_cast hden
  have hguess : guess + 53 = (Nat.log2 num : Int) - Nat.log2 den := by omega
  rcases twoPow_spec (guess + 53) with ⟨-, hdown, hpow⟩
  have hcompare := mul_le_mul_iff_fraction num (twoPow (guess + 53)).1 hden hdown
  rw [hpow.trans (congrArg (2 ^ ·) hguess)] at hcompare
  have h2 : (2 : ℚ) ≠ 0 := by norm_num
  -- The fraction lies between the powers of two that the lengths give.
  have hlow : (2 : ℚ) ^ ((Nat.log2 num : Int) - Nat.log2 den - 1) ≤ (num : ℚ) / den := by
    have hn : ((2 ^ Nat.log2 num : Nat) : ℚ) ≤ num := by
      exact_mod_cast Nat.log2_self_le (Nat.pos_iff_ne_zero.1 hnum)
    have hd : (den : ℚ) ≤ ((2 ^ (Nat.log2 den + 1) : Nat) : ℚ) := by
      exact_mod_cast Nat.le_of_lt Nat.lt_log2_self
    have hexp : (Nat.log2 num : Int) - Nat.log2 den - 1 =
        (Nat.log2 num : Int) - ((Nat.log2 den + 1 : Nat) : Int) := by push_cast; ring
    rw [hexp, zpow_sub₀ h2, zpow_natCast, zpow_natCast]
    push_cast at hn hd
    gcongr
  have hhigh : (num : ℚ) / den < 2 ^ ((Nat.log2 num : Int) - Nat.log2 den + 1) := by
    have hn : (num : ℚ) < ((2 ^ (Nat.log2 num + 1) : Nat) : ℚ) := by
      exact_mod_cast Nat.lt_log2_self
    have hd : ((2 ^ Nat.log2 den : Nat) : ℚ) ≤ den := by
      exact_mod_cast Nat.log2_self_le (Nat.pos_iff_ne_zero.1 hden)
    have hexp : (Nat.log2 num : Int) - Nat.log2 den + 1 =
        ((Nat.log2 num + 1 : Nat) : Int) - (Nat.log2 den : Int) := by push_cast; ring
    rw [hexp, zpow_sub₀ h2, zpow_natCast, zpow_natCast]
    push_cast at hn hd
    gcongr
  split
  · rename_i hge
    rw [log_two_eq (hcompare.1 hge) hhigh]
    omega
  · rename_i hlt
    have hless : (num : ℚ) / den < 2 ^ ((Nat.log2 num : Int) - Nat.log2 den - 1 + 1) := by
      rw [sub_add_cancel]
      exact lt_of_not_ge fun hge => hlt (hcompare.2 hge)
    rw [log_two_eq hlow hless]
    omega

/-- The exponent of a fraction leaves a mantissa of 53 bits, or of fewer if it is the least one. -/
theorem exponentOf_eq {x : ℚ} {e : Int} (hx : 0 < x) (hleast : -1074 ≤ e)
    (hlow : 2 ^ 52 * 2 ^ e ≤ x ∨ e = -1074) (hhigh : x < 2 ^ 53 * 2 ^ e) : exponentOf x = e := by
  have hsplit : ∀ n : Nat, (2 : ℚ) ^ n * 2 ^ e = 2 ^ ((n : Int) + e) := by
    intro n
    rw [zpow_add₀ (by norm_num), zpow_natCast]
  rw [hsplit] at hlow hhigh
  have hlt : Int.log 2 x < ((53 : Nat) : Int) + e :=
    (Int.lt_zpow_iff_log_lt (by decide) hx).1 (by exact_mod_cast hhigh)
  unfold exponentOf
  rcases hlow with hlow | rfl
  · have hle : ((52 : Nat) : Int) + e ≤ Int.log 2 x :=
      (Int.zpow_le_iff_le_log (by decide) hx).1 (by exact_mod_cast hlow)
    omega
  · omega

/-- A fraction is scaled by its exponent, rounded to an integer, and a carry is moved to the
exponent. -/
theorem ofFraction_eq (negative : Bool) {num den : Nat} (hnum : 0 < num) (hden : 0 < den) :
    ofFraction negative num den =
      let e := exponentOf ((num : ℚ) / den)
      let m := roundDiv (num * (twoPow e).2) (den * (twoPow e).1)
      let r := if m = 2 ^ 53 then (2 ^ 52, e + 1) else (m, e)
      if 971 < r.2 then .infinite negative else .finite negative r.1 r.2 := by
  have hlog := log_two_fraction hnum hden
  dsimp only at hlog
  unfold ofFraction
  dsimp only
  rw [hlog, exponentOf]
  simp only [beq_iff_eq]
  rfl

/-- The scaled fraction, as the quotient of the two numbers that are divided. -/
theorem scaled_fraction (num : Nat) {den : Nat} (hden : 0 < den) (e : Int) :
    0 < den * (twoPow e).1 ∧
      ((num * (twoPow e).2 : Nat) : ℚ) / ((den * (twoPow e).1 : Nat) : ℚ) =
        (num : ℚ) / den / 2 ^ e := by
  rcases twoPow_spec e with ⟨hup, hdown, hpow⟩
  refine ⟨Nat.mul_pos hden hup, ?_⟩
  have hden' : (den : ℚ) ≠ 0 := by exact_mod_cast hden.ne'
  have hup' : ((twoPow e).1 : ℚ) ≠ 0 := by exact_mod_cast hup.ne'
  have hdown' : ((twoPow e).2 : ℚ) ≠ 0 := by exact_mod_cast hdown.ne'
  rw [← hpow]
  push_cast
  field_simp

/-- A fraction within half a unit of a multiple of `2 ^ e` is rounded to this multiple. -/
theorem roundDiv_scaled (num m : Nat) {den : Nat} (hden : 0 < den) (e : Int)
    (hlow : ((m : ℚ) - 1 / 2) * 2 ^ e ≤ (num : ℚ) / den)
    (hhigh : (num : ℚ) / den ≤ (m + 1 / 2) * 2 ^ e)
    (hodd : m % 2 = 1 →
      ((m : ℚ) - 1 / 2) * 2 ^ e < (num : ℚ) / den ∧ (num : ℚ) / den < (m + 1 / 2) * 2 ^ e) :
    roundDiv (num * (twoPow e).2) (den * (twoPow e).1) = m := by
  rcases scaled_fraction num hden e with ⟨hpos, hscaled⟩
  have hunit := two_zpow_pos e
  refine roundDiv_eq hpos ?_ ?_ ?_
  · rwa [hscaled, le_div_iff₀ hunit]
  · rwa [hscaled, div_le_iff₀ hunit]
  · rw [hscaled, lt_div_iff₀ hunit, div_lt_iff₀ hunit]
    exact hodd

/-! ## The form of doubles -/

/-- The mantissa has 53 bits, or fewer if the exponent is the least one. -/
structure CanonicalParts (m : Nat) (e : Int) : Prop where
  small : m < 2 ^ 53
  large : 2 ^ 52 ≤ m ∨ e = -1074
  least : -1074 ≤ e
  greatest : e ≤ 971

/-- A number in the form in which doubles are kept. -/
def Canonical : Double → Prop
  | .nan => True
  | .infinite _ => True
  | .finite _ m e => CanonicalParts m e

/-- The lower end of the fractions that are rounded to `m * 2 ^ e`, in quarters of the last place.
Below a power of two the neighbour is nearer. -/
def lowQuarters (m : Nat) (e : Int) : Nat :=
  if m = 2 ^ 52 ∧ e ≠ -1074 then 4 * m - 1 else 4 * m - 2

/-- The fractions that are nearer to `m * 2 ^ e` than to any other number; the ends count if the
mantissa is even. -/
def Nearest (m : Nat) (e : Int) (x : ℚ) : Prop :=
  if m % 2 = 0 then
    (lowQuarters m e : ℚ) * 2 ^ (e - 2) ≤ x ∧ x ≤ ((4 * m + 2 : Nat) : ℚ) * 2 ^ (e - 2)
  else
    (lowQuarters m e : ℚ) * 2 ^ (e - 2) < x ∧ x < ((4 * m + 2 : Nat) : ℚ) * 2 ^ (e - 2)

theorem Nearest.bounds {m : Nat} {e : Int} {x : ℚ} (h : Nearest m e x) :
    (lowQuarters m e : ℚ) * 2 ^ (e - 2) ≤ x ∧ x ≤ (4 * m + 2) * 2 ^ (e - 2) ∧
      (m % 2 = 1 → (lowQuarters m e : ℚ) * 2 ^ (e - 2) < x ∧ x < (4 * m + 2) * 2 ^ (e - 2)) := by
  unfold Nearest at h
  push_cast at h
  split at h
  · exact ⟨h.1, h.2, fun hodd => by omega⟩
  · exact ⟨h.1.le, h.2.le, fun _ => h⟩

theorem two_zpow_quarter (e : Int) : (2 : ℚ) ^ e = 4 * 2 ^ (e - 2) := by
  have hsplit : e = 2 + (e - 2) := by ring
  nth_rewrite 1 [hsplit]
  rw [zpow_add₀ (by norm_num)]
  norm_num

theorem quarters_le_lowQuarters {m : Nat} (hm : 0 < m) (e : Int) :
    (4 : ℚ) * m - 2 ≤ lowQuarters m e := by
  have hle : 4 * m ≤ lowQuarters m e + 2 := by
    unfold lowQuarters
    split <;> omega
  have hcast : (4 : ℚ) * m ≤ lowQuarters m e + 2 := by exact_mod_cast hle
  linarith

/-- What is nearest to a number is rounded to it. -/
theorem ofFraction_eq_of_nearest (negative : Bool) {num den : Nat} {m : Nat} {e : Int}
    (hnum : 0 < num) (hden : 0 < den) (hm : 0 < m) (hparts : CanonicalParts m e)
    (h : Nearest m e ((num : ℚ) / den)) : ofFraction negative num den = .finite negative m e := by
  have hx : (0 : ℚ) < (num : ℚ) / den := by positivity
  have hround := fun (m' : Nat) (e' : Int) => roundDiv_scaled num m' hden e'
  rw [ofFraction_eq negative hnum hden]
  dsimp only
  generalize (num : ℚ) / den = x at *
  rcases h.bounds with ⟨hlow, hhigh, hodd⟩
  have hu := two_zpow_pos (e - 2)
  have hquarter := two_zpow_quarter e
  rcases hparts with ⟨hsmall, hlarge, hleast, hgreatest⟩
  by_cases hedge : (m = 2 ^ 52 ∧ e ≠ -1074) ∧ x < 2 ^ 52 * 2 ^ e
  · -- Below a power of two the exponent is the smaller one, and the mantissa is rounded up to the
    -- power, which is carried.
    rcases hedge with ⟨hpower, hless⟩
    have hends : lowQuarters m e = 2 ^ 54 - 1 := by
      rw [lowQuarters, if_pos hpower, hpower.1]
      norm_num
    have hhalf : (2 : ℚ) ^ (e - 1) = 2 * 2 ^ (e - 2) := by
      have hsplit : e - 1 = 1 + (e - 2) := by ring
      rw [hsplit, zpow_add₀ (by norm_num), zpow_one]
    rw [hends] at hlow
    rw [hquarter] at hless
    norm_num at hlow hless
    have hexponent : exponentOf x = e - 1 := by
      refine exponentOf_eq hx (by omega) (Or.inl ?_) ?_
      · rw [hhalf]
        linarith
      · rw [hhalf]
        linarith
    have hmantissa := hround (2 ^ 53) (e - 1) (by rw [hhalf]; norm_num; linarith)
      (by rw [hhalf]; norm_num; linarith) (by norm_num)
    rw [hexponent, hmantissa, if_pos rfl, sub_add_cancel, if_neg (by omega), hpower.1]
  · have hends := quarters_le_lowQuarters hm e
    have hbelow : (m : ℚ) + 1 ≤ 2 ^ 53 := by exact_mod_cast hsmall
    have hexponent : exponentOf x = e := by
      refine exponentOf_eq hx hleast ?_ ?_
      · by_cases he : e = -1074
        · exact Or.inr he
        · left
          by_cases hpower : m = 2 ^ 52
          · exact le_of_not_gt fun hless => hedge ⟨⟨hpower, he⟩, hless⟩
          · have hmore : (2 : ℚ) ^ 52 + 1 ≤ m := by
              have : 2 ^ 52 + 1 ≤ m := by omega
              exact_mod_cast this
            rw [hquarter]
            nlinarith
      · rw [hquarter]
        nlinarith
    have hmantissa := hround m e (by rw [hquarter]; nlinarith) (by rw [hquarter]; linarith)
      (fun hm' => ⟨by rw [hquarter]; nlinarith [hodd hm'], by rw [hquarter]; linarith [hodd hm']⟩)
    have hcarry : (if m = 2 ^ 53 then (2 ^ 52, e + 1) else (m, e)) = (m, e) := if_neg (by omega)
    rw [hexponent, hmantissa, hcarry, if_neg (by omega)]

/-! ## Decimals -/

/-- The number of places before the point, as bounds of a decimal. -/
theorem decimal_places {digits : Nat} (h : 0 < digits) (place : Int) :
    (10 : ℚ) ^ ((Text.decimal digits).length + place - 1) ≤ digits * 10 ^ place ∧
      digits * 10 ^ place < (10 : ℚ) ^ ((Text.decimal digits).length + place) := by
  have hlength := Number.length_decimal_pos digits
  rcases Number.decimal_bounds h with ⟨hlow, hhigh⟩
  have hplace := ten_zpow_pos place
  constructor
  · have hexp : ((Text.decimal digits).length : Int) + place - 1 =
        (((Text.decimal digits).length - 1 : Nat) : Int) + place := by omega
    have hlow' : (10 : ℚ) ^ ((Text.decimal digits).length - 1) ≤ digits := by exact_mod_cast hlow
    rw [hexp, zpow_add₀ (by norm_num), zpow_natCast]
    exact mul_le_mul_of_nonneg_right hlow' hplace.le
  · have hhigh' : (digits : ℚ) < 10 ^ (Text.decimal digits).length := by exact_mod_cast hhigh
    rw [zpow_add₀ (by norm_num), zpow_natCast]
    exact mul_lt_mul_of_pos_right hhigh' hplace

/-- The range of the positive fractions that are rounded to a finite number. -/
theorem Nearest.range {m : Nat} {e : Int} {x : ℚ} (h : Nearest m e x) (hm : 0 < m)
    (hparts : CanonicalParts m e) : (2 : ℚ) ^ (-1075 : Int) ≤ x ∧ x < 2 ^ (1024 : Int) := by
  rcases h.bounds with ⟨hlow, hhigh, -⟩
  have hends := quarters_le_lowQuarters hm e
  have hone : (1 : ℚ) ≤ m := by exact_mod_cast hm
  have hbelow : (m : ℚ) + 1 ≤ 2 ^ 53 := by exact_mod_cast hparts.small
  have hu := two_zpow_pos (e - 2)
  constructor
  · calc (2 : ℚ) ^ (-1075 : Int) ≤ 2 ^ (1 + (e - 2)) := by
          refine zpow_le_zpow_right₀ (by norm_num) ?_
          have := hparts.least
          omega
      _ = 2 * 2 ^ (e - 2) := by rw [zpow_add₀ (by norm_num), zpow_one]
      _ ≤ lowQuarters m e * 2 ^ (e - 2) := mul_le_mul_of_nonneg_right (by linarith) hu.le
      _ ≤ x := hlow
  · calc x ≤ (4 * m + 2) * 2 ^ (e - 2) := hhigh
      _ < 2 ^ 55 * 2 ^ (e - 2) := mul_lt_mul_of_pos_right (by linarith) hu
      _ = 2 ^ (55 + (e - 2)) := by
          rw [zpow_add₀ (by norm_num)]
          norm_num
      _ ≤ 2 ^ (1024 : Int) := by
          refine zpow_le_zpow_right₀ (by norm_num) ?_
          have := hparts.greatest
          omega

theorem two_pow_lt_ten_pow : (2 : ℚ) ^ (1024 : Int) < 10 ^ (310 : Int) := by
  have h : 2 ^ 1024 < 10 ^ 310 := by decide +kernel
  have hcast : (2 : ℚ) ^ 1024 < 10 ^ 310 := by exact_mod_cast h
  exact_mod_cast hcast

theorem ten_pow_lt_two_pow : (10 : ℚ) ^ (-331 : Int) < 2 ^ (-1075 : Int) := by
  have h : 2 ^ 1075 < 10 ^ 331 := by decide +kernel
  have hcast : (2 : ℚ) ^ 1075 < 10 ^ 331 := by exact_mod_cast h
  have hinv : ((10 : ℚ) ^ 331)⁻¹ < (2 ^ 1075)⁻¹ := inv_strictAnti₀ (by positivity) hcast
  rw [zpow_neg, zpow_neg]
  exact_mod_cast hinv

/-- A decimal that is nearest to a number is read as it: it is never so far from the range of
doubles that its fraction is not looked at. -/
theorem ofDecimal_eq_of_nearest (negative : Bool) {digits : Nat} {place : Int} {m : Nat} {e : Int}
    (hm : 0 < m) (hparts : CanonicalParts m e) (h : Nearest m e (digits * 10 ^ place)) :
    ofDecimal negative digits place = .finite negative m e := by
  rcases h.range hm hparts with ⟨hlow, hhigh⟩
  have hdigits : 0 < digits := by
    rcases Nat.eq_zero_or_pos digits with rfl | hpos
    · rw [Nat.cast_zero, zero_mul] at hlow
      exact absurd hlow (not_le.2 (two_zpow_pos _))
    · exact hpos
  rcases decimal_places hdigits place with ⟨hplaces, hplaces'⟩
  have hnotSmall : ¬ ((Text.decimal digits).length : Int) + place < -330 := by
    intro hsmall
    have hpow : (10 : ℚ) ^ (((Text.decimal digits).length : Int) + place) ≤ 10 ^ (-331 : Int) :=
      zpow_le_zpow_right₀ (by norm_num) (by omega)
    exact absurd (lt_of_le_of_lt hlow hplaces') (not_lt.2 (hpow.trans ten_pow_lt_two_pow.le))
  have hnotLarge : ¬ 310 < ((Text.decimal digits).length : Int) + place := by
    intro hlarge
    have hpow : (10 : ℚ) ^ (310 : Int) ≤ 10 ^ (((Text.decimal digits).length : Int) + place - 1) :=
      zpow_le_zpow_right₀ (by norm_num) (by omega)
    exact absurd (lt_of_le_of_lt (hpow.trans hplaces) hhigh) (not_lt.2 two_pow_lt_ten_pow.le)
  rcases tenPow_spec place with ⟨hup, hdown, hpow⟩
  have hfraction : ((digits * (tenPow place).1 : Nat) : ℚ) / (tenPow place).2 =
      digits * 10 ^ place := by
    rw [← hpow]
    push_cast
    ring
  unfold ofDecimal
  simp only [beq_iff_eq, Bool.or_eq_true, decide_eq_true_eq]
  rw [if_neg (by omega), if_neg hnotLarge]
  refine ofFraction_eq_of_nearest negative (Nat.mul_pos hdigits hup) hdown hm hparts ?_
  rwa [hfraction]

theorem Canonical.negate {x : Double} (h : x.Canonical) : x.negate.Canonical := by
  cases x <;> exact h

end Double
end PropCatalog
