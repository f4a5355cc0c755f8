import Mathlib.Data.Nat.Digits.Defs
import Mathlib.Tactic.Linarith
import Mathlib.Tactic.Ring
import PropCatalog.Number.Read

/-!
# Decimal digits — the value of a run of digits

What `Number.valueOf` reads off a run of ASCII digits, and what the digits of a natural number are:
they read back as the number, and the first one is a zero for zero only.

- `valueOf_append`, `valueOf_lt` : values place by place
- `valueOf_decimal`              : the digits of a number read back
- `decimal_bounds`, `length_decimal_valueOf_le`, `decimal_eq_cons` : their number, and the first of
  them
-/

namespace PropCatalog

/-- All characters are ASCII digits. -/
def AllDigits (cs : List Char) : Prop :=
  ∀ c ∈ cs, c.isDigit = true

theorem AllDigits.append {cs cs' : List Char} (h : AllDigits cs) (h' : AllDigits cs') :
    AllDigits (cs ++ cs') := by
  intro c hc
  rcases List.mem_append.1 hc with hc | hc
  · exact h c hc
  · exact h' c hc

theorem AllDigits.sublist {cs cs' : List Char} (h : AllDigits cs') (hsub : cs.Sublist cs') :
    AllDigits cs :=
  fun c hc => h c (hsub.subset hc)

theorem allDigits_replicate (n : Nat) : AllDigits (List.replicate n '0') := by
  intro c hc
  rw [List.eq_of_mem_replicate hc]
  rfl

namespace Number

theorem digitValue?_of_isDigit {c : Char} (h : c.isDigit = true) :
    Text.digitValue? c = some (c.toNat - 48) := by
  have hbound : c.toNat < 128 := by
    have hle : c.toNat ≤ 57 := by
      simp only [Char.isDigit, Bool.and_eq_true, decide_eq_true_eq] at h
      exact h.2
    omega
  rw [Text.digitValue?, if_pos hbound, if_pos h]

/-! ## Values -/

theorem valueOf_cons_from (acc : Nat) (digits : List Char) :
    digits.foldl (fun acc c => 10 * acc + (Text.digitValue? c).getD 0) acc =
      acc * 10 ^ digits.length + valueOf digits := by
  unfold valueOf
  induction digits generalizing acc with
  | nil => simp
  | cons c digits ih =>
    rw [List.foldl_cons, List.foldl_cons, ih, ih (10 * 0 + _), List.length_cons]
    ring

theorem valueOf_append (digits digits' : List Char) :
    valueOf (digits ++ digits') = valueOf digits * 10 ^ digits'.length + valueOf digits' := by
  have hsplit : valueOf (digits ++ digits') =
      digits'.foldl (fun acc c => 10 * acc + (Text.digitValue? c).getD 0) (valueOf digits) :=
    List.foldl_append
  rw [hsplit, valueOf_cons_from]

theorem valueOf_eq_ofDigitChars {digits : List Char} (h : AllDigits digits) :
    valueOf digits = Nat.ofDigitChars 10 digits 0 := by
  have hstep : ∀ acc, digits.foldl (fun acc c => 10 * acc + (Text.digitValue? c).getD 0) acc =
      Nat.ofDigitChars 10 digits acc := by
    induction digits with
    | nil => exact fun _ => rfl
    | cons c digits ih =>
      intro acc
      rw [List.foldl_cons, Nat.ofDigitChars_cons, digitValue?_of_isDigit (h c List.mem_cons_self)]
      exact ih (fun c' hc' => h c' (List.mem_cons_of_mem c hc')) _
  exact hstep 0

theorem valueOf_zero : valueOf ['0'] = 0 := by
  decide

theorem valueOf_replicate (n : Nat) : valueOf (List.replicate n '0') = 0 := by
  induction n with
  | zero => rfl
  | succ n ih =>
    rw [List.replicate_succ, ← List.singleton_append, valueOf_append, ih, valueOf_zero]
    simp

/-- No digit of any script is more than nine. -/
theorem digitValue_le (c : Char) : (Text.digitValue? c).getD 0 ≤ 9 := by
  unfold Text.digitValue?
  split
  · split
    · rename_i hdigit
      have hle : c.toNat ≤ 57 := by
        simp only [Char.isDigit, Bool.and_eq_true, decide_eq_true_eq] at hdigit
        exact hdigit.2
      simp only [Option.getD_some]
      omega
    · exact Nat.zero_le 9
  · cases hfirst : Text.zeroDigits.find? fun first =>
        first ≤ c.toNat && c.toNat < first + 10 with
    | none => exact Nat.zero_le 9
    | some first =>
      have hrange := Array.find?_some hfirst
      simp only [Bool.and_eq_true, decide_eq_true_eq] at hrange
      simp only [Option.map_some, Option.getD_some]
      omega

theorem valueOf_lt (digits : List Char) : valueOf digits < 10 ^ digits.length := by
  induction digits with
  | nil => exact Nat.one_pos
  | cons c digits ih =>
    have hdigit : valueOf [c] ≤ 9 := by
      have hvalue : valueOf [c] = (Text.digitValue? c).getD 0 := by simp [valueOf]
      exact hvalue ▸ digitValue_le c
    have hprod : valueOf [c] * 10 ^ digits.length ≤ 9 * 10 ^ digits.length :=
      Nat.mul_le_mul_right _ hdigit
    rw [← List.singleton_append, valueOf_append, List.length_append, List.length_singleton,
      Nat.pow_add]
    omega

/-! ## The digits of a number -/

theorem allDigits_decimal (n : Nat) : AllDigits (Text.decimal n) :=
  fun _ hc => Nat.isDigit_of_mem_toDigits (by decide) (by decide) hc

theorem valueOf_decimal (n : Nat) : valueOf (Text.decimal n) = n := by
  rw [valueOf_eq_ofDigitChars (allDigits_decimal n)]
  exact Nat.ofDigitChars_toDigits (by decide) (by decide)

theorem decimal_ne_nil (n : Nat) : Text.decimal n ≠ [] :=
  Nat.toDigits_ne_nil

theorem length_decimal_pos (n : Nat) : 0 < (Text.decimal n).length :=
  List.length_pos_iff.2 (decimal_ne_nil n)

/-- The number of digits, as bounds of the number. -/
theorem decimal_bounds {n : Nat} (h : 0 < n) :
    10 ^ ((Text.decimal n).length - 1) ≤ n ∧ n < 10 ^ (Text.decimal n).length := by
  constructor
  · have hpos := length_decimal_pos n
    by_cases hone : (Text.decimal n).length = 1
    · rw [hone]
      exact h
    · by_contra hlt
      have hfew : (Text.decimal n).length ≤ (Text.decimal n).length - 1 :=
        (Nat.length_toDigits_le_iff (by decide) (by omega)).2 (Nat.lt_of_not_le hlt)
      omega
  · have hlt := valueOf_lt (Text.decimal n)
    rwa [valueOf_decimal] at hlt

/-- A number is not longer than a run of digits that it is read off, unless there are none. -/
theorem length_decimal_valueOf_le (digits : List Char) :
    (Text.decimal (valueOf digits)).length ≤ max 1 digits.length := by
  refine (Nat.length_toDigits_le_iff (by decide) (by omega)).2 ?_
  exact (valueOf_lt digits).trans_le (Nat.pow_le_pow_right (by decide) (le_max_right _ _))

/-- The first digit of a positive number is no zero. -/
theorem decimal_eq_cons {n : Nat} (h : 0 < n) :
    ∃ c cs, Text.decimal n = c :: cs ∧ c.isDigit = true ∧ c ≠ '0' ∧ AllDigits cs := by
  have hall := allDigits_decimal n
  have hlow := (decimal_bounds h).1
  have hvalue := valueOf_decimal n
  cases hdigits : Text.decimal n with
  | nil => exact absurd hdigits (decimal_ne_nil n)
  | cons c cs =>
    rw [hdigits] at hall hlow hvalue
    have hrest : AllDigits cs := fun c' hc' => hall c' (List.mem_cons_of_mem c hc')
    refine ⟨c, cs, rfl, hall c List.mem_cons_self, ?_, hrest⟩
    intro hzero
    -- Without its zero the run would be too short for the number.
    have hlt := valueOf_lt cs
    rw [hzero, ← List.singleton_append, valueOf_append, valueOf_zero] at hvalue
    simp only [List.length_cons, Nat.add_sub_cancel] at hlow
    omega

end Number
end PropCatalog
