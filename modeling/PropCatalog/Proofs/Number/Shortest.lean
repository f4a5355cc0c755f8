import Mathlib.Data.Nat.Cast.Order.Field
import PropCatalog.Proofs.Number.Rounding

/-!
# Shortest decimals — what is written is read back

The decimal that is written for a double is nearest to it, so it is read back as the same double.
The search for it always ends: two decimals of seventeen digits are so close together that one of
them is nearer to the double than to its neighbours.

- `inside_iff`        : the comparison of the search is that of `Double.Nearest`
- `nearest_of_close`  : how close a decimal has to be
- `shortest_nearest`  : the decimal that is found
- `ofDecimal_of_shortest` : it is read back
-/

namespace PropCatalog
namespace Double

variable {m : Nat} {e : Int}

/-! ## Candidates -/

/-- The decimals between the ends, compared by products of integers. -/
def inside (m lo hi up down scale shrink c : Nat) : Bool :=
  let left := c * scale * down
  let low := lo * up * shrink
  let high := hi * up * shrink
  if m % 2 == 0 then low ≤ left && left ≤ high else low < left && left < high

/-- The two decimals around `4 * m` units, the nearer one first, and on a tie the even one. -/
def around (m up down scale shrink : Nat) : List Nat :=
  let value := 4 * m * up * shrink
  let unit := scale * down
  let c := value / unit
  let r := value % unit
  if 2 * r < unit || (2 * r == unit && c % 2 == 0) then [c, c + 1] else [c + 1, c]

theorem nearest?_eq (m lo hi up down : Nat) (point : Int) (count : Nat) :
    nearest? m lo hi up down point count =
      ((around m up down (tenPow (point - count)).1 (tenPow (point - count)).2).find?
        (inside m lo hi up down (tenPow (point - count)).1 (tenPow (point - count)).2)).map
        (·, point - count) := rfl

/-- Multiples of a power of two and of a power of ten are compared by products of integers. -/
theorem compare_powers (a b : Nat) (p q : Int) :
    (a * (twoPow p).1 * (tenPow q).2 ≤ b * (tenPow q).1 * (twoPow p).2 ↔
      (a : ℚ) * 2 ^ p ≤ b * 10 ^ q) ∧
    (b * (tenPow q).1 * (twoPow p).2 ≤ a * (twoPow p).1 * (tenPow q).2 ↔
      (b : ℚ) * 10 ^ q ≤ a * 2 ^ p) := by
  rcases twoPow_spec p with ⟨-, hdown, htwo⟩
  rcases tenPow_spec q with ⟨-, hshrink, hten⟩
  have hdown' : (0 : ℚ) < (twoPow p).2 := by exact_mod_cast hdown
  have hshrink' : (0 : ℚ) < (tenPow q).2 := by exact_mod_cast hshrink
  -- Both products are the numbers times the same positive factor.
  have hfactor : (0 : ℚ) < (twoPow p).2 * (tenPow q).2 := mul_pos hdown' hshrink'
  have hleft : ((a * (twoPow p).1 * (tenPow q).2 : Nat) : ℚ) =
      a * 2 ^ p * ((twoPow p).2 * (tenPow q).2) := by
    rw [← htwo]
    push_cast
    field_simp
  have hright : ((b * (tenPow q).1 * (twoPow p).2 : Nat) : ℚ) =
      b * 10 ^ q * ((twoPow p).2 * (tenPow q).2) := by
    rw [← hten]
    push_cast
    field_simp
  constructor
  · rw [← Nat.cast_le (α := ℚ), hleft, hright]
    exact mul_le_mul_iff_left₀ hfactor
  · rw [← Nat.cast_le (α := ℚ), hleft, hright]
    exact mul_le_mul_iff_left₀ hfactor

/-- A decimal is inside if it is nearest to the double. -/
theorem inside_iff (c : Nat) (place : Int) :
    inside m (lowQuarters m e) (4 * m + 2) (twoPow (e - 2)).1 (twoPow (e - 2)).2 (tenPow place).1
      (tenPow place).2 c = true ↔ Nearest m e (c * 10 ^ place) := by
  have hlow := compare_powers (lowQuarters m e) c (e - 2) place
  have hhigh := compare_powers (4 * m + 2) c (e - 2) place
  unfold inside Nearest
  simp only [beq_iff_eq]
  by_cases heven : m % 2 = 0
  · rw [if_pos heven, if_pos heven, Bool.and_eq_true, decide_eq_true_eq, decide_eq_true_eq, hlow.1,
      hhigh.2]
  · rw [if_neg heven, if_neg heven, Bool.and_eq_true, decide_eq_true_eq, decide_eq_true_eq,
      ← not_le, ← not_le, hlow.2, hhigh.1, not_le, not_le]

/-! ## Seventeen digits -/

/-- A decimal is nearest to a double if it differs by less than one part in `10 ^ 16`, halved. -/
theorem nearest_of_close (hm : 0 < m) (hparts : CanonicalParts m e) {x : ℚ}
    (h : |x - 4 * m * 2 ^ (e - 2)| * 10 ^ 16 ≤ 2 * m * 2 ^ (e - 2)) : Nearest m e x := by
  have hu := two_zpow_pos (e - 2)
  have hsmall : (m : ℚ) < 2 ^ 53 := by exact_mod_cast hparts.small
  rcases abs_le.1 (le_div_iff₀ (by norm_num : (0 : ℚ) < 10 ^ 16) |>.2 h) with ⟨hbelow, habove⟩
  have hstrict : (lowQuarters m e : ℚ) * 2 ^ (e - 2) < x ∧
      x < ((4 * m + 2 : Nat) : ℚ) * 2 ^ (e - 2) := by
    have hgap : 2 * (m : ℚ) * 2 ^ (e - 2) / 10 ^ 16 < 2 * 2 ^ (e - 2) := by
      rw [div_lt_iff₀ (by norm_num)]
      nlinarith
    refine ⟨?_, ?_⟩
    · by_cases hedge : m = 2 ^ 52 ∧ e ≠ -1074
      · -- Next to a power of two the gap is half as wide, and the mantissa is the least one.
        have hnarrow : 2 * (m : ℚ) * 2 ^ (e - 2) / 10 ^ 16 < 2 ^ (e - 2) := by
          rw [div_lt_iff₀ (by norm_num), hedge.1]
          push_cast
          linarith
        have hlow : (lowQuarters m e : ℚ) = 4 * m - 1 := by
          rw [lowQuarters, if_pos hedge, Nat.cast_sub (by omega)]
          push_cast
          ring
        rw [hlow]
        linarith
      · have hlow : (lowQuarters m e : ℚ) = 4 * m - 2 := by
          rw [lowQuarters, if_neg hedge, Nat.cast_sub (by omega)]
          push_cast
          ring
        rw [hlow]
        linarith
    · push_cast
      linarith
  unfold Nearest
  split
  · exact ⟨hstrict.1.le, hstrict.2.le⟩
  · exact hstrict

/-- A quotient is at most half away from the integer below it, or from the one above. -/
theorem abs_sub_div_le_half {value unit : Nat} (hunit : 0 < unit) :
    (2 * (value % unit) ≤ unit → |((value / unit : Nat) : ℚ) - value / unit| ≤ 1 / 2) ∧
      (unit ≤ 2 * (value % unit) → |((value / unit + 1 : Nat) : ℚ) - value / unit| ≤ 1 / 2) := by
  have hunit' : (0 : ℚ) < unit := by exact_mod_cast hunit
  have hsplit := Nat.div_add_mod value unit
  have hrest := Nat.mod_lt value hunit
  generalize value / unit = c at *
  generalize value % unit = r at *
  have hvalue : (value : ℚ) / unit = c + r / unit := by
    rw [← hsplit]
    push_cast
    field_simp
  have hnonneg : (0 : ℚ) ≤ r / unit := by positivity
  have hle_one : (r : ℚ) / unit ≤ 1 := by
    rw [div_le_one hunit']
    exact_mod_cast hrest.le
  rw [hvalue]
  constructor
  · intro hhalf
    have hle : (r : ℚ) / unit ≤ 1 / 2 := by
      rw [div_le_div_iff₀ hunit' (by norm_num)]
      have : (2 * r : ℚ) ≤ unit := by exact_mod_cast hhalf
      linarith
    rw [abs_le]
    constructor <;> linarith
  · intro hhalf
    have hge : (1 : ℚ) / 2 ≤ r / unit := by
      rw [div_le_div_iff₀ (by norm_num) hunit']
      have : (unit : ℚ) ≤ 2 * r := by exact_mod_cast hhalf
      linarith
    push_cast
    rw [abs_le]
    constructor <;> linarith

/-- One of the two decimals around a number is at most half a place away. -/
theorem exists_around (p q : Int) :
    ∃ c ∈ around m (twoPow p).1 (twoPow p).2 (tenPow q).1 (tenPow q).2,
      |(c : ℚ) * 10 ^ q - 4 * m * 2 ^ p| ≤ 10 ^ q / 2 := by
  rcases twoPow_spec p with ⟨-, hdown, htwo⟩
  rcases tenPow_spec q with ⟨hscale, hshrink, hten⟩
  have hten' := ten_zpow_pos q
  -- In places of `10 ^ q` the number is `value / unit`.
  have hratio : 4 * (m : ℚ) * 2 ^ p = ((4 * m * (twoPow p).1 * (tenPow q).2 : Nat) : ℚ) /
      ((tenPow q).1 * (twoPow p).2 : Nat) * 10 ^ q := by
    have h₁ : ((twoPow p).2 : ℚ) ≠ 0 := by exact_mod_cast hdown.ne'
    have h₂ : ((tenPow q).1 : ℚ) ≠ 0 := by exact_mod_cast hscale.ne'
    have h₃ : ((tenPow q).2 : ℚ) ≠ 0 := by exact_mod_cast hshrink.ne'
    rw [← htwo, ← hten]
    push_cast
    field_simp
  have hclose := @abs_sub_div_le_half (4 * m * (twoPow p).1 * (tenPow q).2) _
    (Nat.mul_pos hscale hdown)
  unfold around
  dsimp only
  rw [hratio]
  generalize 4 * m * (twoPow p).1 * (tenPow q).2 = value at *
  generalize (tenPow q).1 * (twoPow p).2 = unit at *
  have hplaces : ∀ c : Nat, |(c : ℚ) - value / unit| ≤ 1 / 2 →
      |(c : ℚ) * 10 ^ q - value / unit * 10 ^ q| ≤ 10 ^ q / 2 := by
    intro c hc
    have hscaled := mul_le_mul_of_nonneg_right hc hten'.le
    rw [← sub_mul, abs_mul, abs_of_pos hten']
    linarith
  -- A tie goes to either side; half a place is enough for both.
  split
  · rename_i hfirst
    refine ⟨value / unit, List.mem_cons_self, hplaces _ (hclose.1 ?_)⟩
    simp only [Bool.or_eq_true, decide_eq_true_eq, Bool.and_eq_true, beq_iff_eq] at hfirst
    omega
  · rename_i hfirst
    refine ⟨value / unit + 1, List.mem_cons_self, hplaces _ (hclose.2 ?_)⟩
    simp only [Bool.or_eq_true, decide_eq_true_eq, not_or] at hfirst
    omega

/-! ## The place of the point -/

theorem zeros_spec (num den k bound : Nat) :
    ∃ j : Nat, pointPlace.zeros num den k bound = -(j : Int) ∧
      (den ≤ num * 10 ^ (j + 1) ∨ k + bound ≤ j) := by
  induction bound generalizing k with
  | zero => exact ⟨k, rfl, Or.inr (le_refl k)⟩
  | succ bound ih =>
    rw [pointPlace.zeros]
    split
    · rename_i hle
      exact ⟨k, rfl, Or.inl hle⟩
    · rcases ih (k + 1) with ⟨j, hj, hcase⟩
      refine ⟨j, hj, ?_⟩
      omega

/-- A fraction that is not too small has a digit at the place before the point. -/
theorem pointPlace_le (num : Nat) {den : Nat} (hden : 0 < den)
    (hsmall : (10 : ℚ) ^ (-401 : Int) ≤ (num : ℚ) / den) :
    (10 : ℚ) ^ (pointPlace num den - 1) ≤ (num : ℚ) / den := by
  have hden' : (0 : ℚ) < den := by exact_mod_cast hden
  unfold pointPlace
  split
  · rename_i hle
    have hquotient : 0 < num / den := Nat.div_pos hle hden
    have hlength := Number.length_decimal_pos (num / den)
    have hexp : ((Text.decimal (num / den)).length : Int) - 1 =
        (((Text.decimal (num / den)).length - 1 : Nat) : Int) := by omega
    calc (10 : ℚ) ^ (((Text.decimal (num / den)).length : Int) - 1)
        = ((10 ^ ((Text.decimal (num / den)).length - 1) : Nat) : ℚ) := by
          rw [hexp, zpow_natCast]
          push_cast
          rfl
      _ ≤ ((num / den : Nat) : ℚ) := by exact_mod_cast (Number.decimal_bounds hquotient).1
      _ ≤ (num : ℚ) / den := Nat.cast_div_le
  · rcases zeros_spec num den 0 400 with ⟨j, hj, hcase⟩
    rw [hj]
    rcases hcase with hle | hfar
    · have hle' : (den : ℚ) ≤ num * 10 ^ (j + 1) := by exact_mod_cast hle
      have hexp : -(j : Int) - 1 = -((j + 1 : Nat) : Int) := by push_cast; ring
      rw [hexp, zpow_neg, zpow_natCast, le_div_iff₀ hden', inv_mul_le_iff₀ (by positivity)]
      linarith
    · refine le_trans (zpow_le_zpow_right₀ (by norm_num) ?_) hsmall
      omega

/-! ## The search -/

theorem ten_pow_le_two_pow : (10 : ℚ) ^ (-401 : Int) ≤ 2 ^ (-1074 : Int) := by
  have h : 2 ^ 1074 ≤ 10 ^ 401 := by decide +kernel
  have hcast : (2 : ℚ) ^ 1074 ≤ 10 ^ 401 := by exact_mod_cast h
  have hinv : ((10 : ℚ) ^ 401)⁻¹ ≤ (2 ^ 1074)⁻¹ := inv_anti₀ (by positivity) hcast
  rw [zpow_neg, zpow_neg]
  exact_mod_cast hinv

/-- What the search finds is nearest to the double, however many digits it has. -/
theorem nearest_of_nearest? {point : Int} {count c : Nat} {place : Int}
    (h : nearest? m (lowQuarters m e) (4 * m + 2) (twoPow (e - 2)).1 (twoPow (e - 2)).2 point
      count = some (c, place)) : Nearest m e (c * 10 ^ place) := by
  rw [nearest?_eq] at h
  rcases Option.map_eq_some_iff.1 h with ⟨c', hfind, heq⟩
  cases heq
  exact (inside_iff c (point - count)).1 (List.find?_some hfind)

/-- With seventeen digits the search succeeds. -/
theorem isSome_nearest? (hm : 0 < m) (hparts : CanonicalParts m e) :
    (nearest? m (lowQuarters m e) (4 * m + 2) (twoPow (e - 2)).1 (twoPow (e - 2)).2
      (pointPlace (4 * m * (twoPow (e - 2)).1) (twoPow (e - 2)).2) 17).isSome = true := by
  rcases twoPow_spec (e - 2) with ⟨-, hdown, htwo⟩
  have hone : (1 : ℚ) ≤ m := by exact_mod_cast hm
  have hvalue : ((4 * m * (twoPow (e - 2)).1 : Nat) : ℚ) / (twoPow (e - 2)).2 =
      4 * m * 2 ^ (e - 2) := by
    rw [← htwo]
    push_cast
    ring
  have hlarge : (10 : ℚ) ^ (-401 : Int) ≤ 4 * m * 2 ^ (e - 2) := by
    have hpow : (2 : ℚ) ^ (-1074 : Int) ≤ 2 ^ e := zpow_le_zpow_right₀ (by norm_num) hparts.least
    have hmul : (2 : ℚ) ^ e ≤ 4 * m * 2 ^ (e - 2) := by
      have hu := two_zpow_pos (e - 2)
      rw [two_zpow_quarter]
      nlinarith
    exact ten_pow_le_two_pow.trans (hpow.trans hmul)
  have hpoint := pointPlace_le (4 * m * (twoPow (e - 2)).1) hdown (by rwa [hvalue])
  rw [hvalue] at hpoint
  generalize pointPlace _ _ = point at *
  rcases exists_around (m := m) (e - 2) (point - (17 : Nat)) with ⟨c, hc, hclose⟩
  have hstep : (10 : ℚ) ^ (point - (17 : Nat)) * 10 ^ 16 = 10 ^ (point - 1) := by
    rw [← zpow_natCast, ← zpow_add₀ (by norm_num)]
    congr 1
    push_cast
    ring
  have hnear : Nearest m e (c * 10 ^ (point - (17 : Nat))) := by
    refine nearest_of_close hm hparts ?_
    calc |(c : ℚ) * 10 ^ (point - (17 : Nat)) - 4 * m * 2 ^ (e - 2)| * 10 ^ 16
        ≤ 10 ^ (point - (17 : Nat)) / 2 * 10 ^ 16 :=
          mul_le_mul_of_nonneg_right hclose (by norm_num)
      _ = 10 ^ (point - 1) / 2 := by rw [← hstep]; ring
      _ ≤ 2 * m * 2 ^ (e - 2) := by linarith
  rw [nearest?_eq, Option.isSome_map, List.find?_isSome]
  exact ⟨c, hc, (inside_iff c _).2 hnear⟩

theorem dropZeros_value (bound digits : Nat) (place : Int) :
    ((dropZeros bound digits place).1 : ℚ) * 10 ^ (dropZeros bound digits place).2 =
      digits * 10 ^ place := by
  induction bound generalizing digits place with
  | zero => rfl
  | succ bound ih =>
    rw [dropZeros]
    split
    · rename_i hzero
      simp only [bne_iff_ne, ne_eq, Bool.and_eq_true, beq_iff_eq] at hzero
      have hdigits : (digits : ℚ) = (digits / 10 : Nat) * 10 := by
        have : digits = digits / 10 * 10 := by omega
        exact_mod_cast this
      rw [ih, hdigits, zpow_add₀ (by norm_num), zpow_one]
      ring
    · rfl

/-- The decimal that is written for a double is nearest to it. -/
theorem shortest_nearest (hm : 0 < m) (hparts : CanonicalParts m e) :
    Nearest m e ((shortest m e).1 * 10 ^ (shortest m e).2) := by
  have hlow : (if m == Nat.pow 2 52 && e != -1074 then 4 * m - 1 else 4 * m - 2) =
      lowQuarters m e := by
    simp only [lowQuarters, Bool.and_eq_true, beq_iff_eq, bne_iff_ne]
    rfl
  have hsome := isSome_nearest? hm hparts
  unfold shortest
  dsimp only
  rw [hlow]
  cases hfound : (List.range 17).findSome? fun k => nearest? m (lowQuarters m e) (4 * m + 2)
      (twoPow (e - 2)).1 (twoPow (e - 2)).2
      (pointPlace (4 * m * (twoPow (e - 2)).1) (twoPow (e - 2)).2) (k + 1) with
  | none =>
    rw [List.findSome?_eq_none_iff.1 hfound 16 (by simp)] at hsome
    cases hsome
  | some found =>
    rcases List.exists_of_findSome?_eq_some hfound with ⟨k, -, hk⟩
    rw [Option.getD_some, dropZeros_value]
    exact nearest_of_nearest? hk

/-- The decimal that is written for a double is read back as it, and so is every other way of
writing the same decimal. -/
theorem ofDecimal_of_shortest (negative : Bool) (hm : 0 < m) (hparts : CanonicalParts m e)
    {digits : Nat} {place : Int}
    (hvalue : (digits : ℚ) * 10 ^ place = (shortest m e).1 * 10 ^ (shortest m e).2) :
    ofDecimal negative digits place = .finite negative m e := by
  refine ofDecimal_eq_of_nearest negative hm hparts ?_
  rw [hvalue]
  exact shortest_nearest hm hparts

end Double
end PropCatalog
