import Mathlib.Data.List.TakeWhile
import PropCatalog.Proofs.Number.Numeral

/-!
# Texts of numerals — which texts are read as a number

A numeral has a sign or none, digits of any script with a point before, after or among them or
without one, and an exponent or none. `numeral?` takes the longest runs of digits that it comes to.
These are the digits of the numeral, since whatever follows them does not begin with a digit.

- `IsSign`, `IsExponent`, `IsNumeral` : the parts of a numeral, and the whole
- `numeral?_of_parts`, `exists_parts_of_numeral?` : a text and its parts, in both directions
- `isSome_numeral?_iff`     : exactly the numerals are read
- `numeral?_integer_iff`    : the numerals of integers, and what they are read as
-/

namespace PropCatalog
namespace Number

/-! ## Signs and exponents -/

def IsSign (cs : List Char) : Prop :=
  cs = [] ∨ cs = ['+'] ∨ cs = ['-']

inductive IsExponent : List Char → Prop where
  | absent : IsExponent []
  | marked {mark : Char} {sign digits : List Char} (hmark : mark = 'e' ∨ mark = 'E')
      (hsign : IsSign sign) (hdigits : Digits digits) (hsome : digits ≠ []) :
      IsExponent (mark :: (sign ++ digits))

/-- A sign is split off from a text that does not begin with another one. -/
theorem splitSign_append {sign : List Char} (h : IsSign sign) {rest : List Char}
    (hrest : ∀ c, rest.head? = some c → c ≠ '-' ∧ c ≠ '+') :
    splitSign (sign ++ rest) = (decide (sign = ['-']), rest) := by
  rcases h with rfl | rfl | rfl
  · cases rest with
    | nil => rfl
    | cons c rest =>
      have hc := hrest c rfl
      rw [List.nil_append]
      unfold splitSign
      split
      · rename_i heq
        exact absurd (List.cons.inj heq).1 hc.1
      · rename_i heq
        exact absurd (List.cons.inj heq).1 hc.2
      · rfl
  · rfl
  · rfl

theorem exists_splitSign (cs : List Char) :
    ∃ sign, IsSign sign ∧ cs = sign ++ (splitSign cs).2 ∧
      (splitSign cs).1 = decide (sign = ['-']) := by
  unfold splitSign
  split
  · exact ⟨['-'], .inr (.inr rfl), rfl, rfl⟩
  · exact ⟨['+'], .inr (.inl rfl), rfl, rfl⟩
  · exact ⟨[], .inl rfl, rfl, rfl⟩

/-- No digit is a sign or a line feed. -/
theorem ne_of_isDecimalDigit {c : Char} (h : Text.isDecimalDigit c = true) :
    c ≠ '-' ∧ c ≠ '+' ∧ c ≠ '\n' := by
  refine ⟨?_, ?_, ?_⟩ <;> rintro rfl <;> exact absurd h (by decide)

theorem digits_head {digits : List Char} (h : Digits digits) {c : Char}
    (hc : digits.head? = some c) : c ≠ '-' ∧ c ≠ '+' := by
  have hne := ne_of_isDecimalDigit (h c (List.mem_of_head? hc))
  exact ⟨hne.1, hne.2.1⟩

theorem splitDigits_self {digits : List Char} (h : Digits digits) :
    splitDigits digits = (digits, []) := by
  have happend : splitDigits (digits ++ []) = (digits, []) := splitDigits_append h (by simp)
  rwa [List.append_nil] at happend

theorem digits_splitDigits (cs : List Char) : Digits (splitDigits cs).1 :=
  fun _ hc => List.mem_takeWhile_imp hc

theorem splitDigits_append_eq (cs : List Char) : (splitDigits cs).1 ++ (splitDigits cs).2 = cs :=
  List.takeWhile_append_dropWhile

theorem isSome_splitExponent?_iff {cs : List Char} :
    (splitExponent? cs).isSome = true ↔ IsExponent cs := by
  constructor
  · intro h
    cases cs with
    | nil => exact .absent
    | cons mark rest =>
      rcases exists_splitSign rest with ⟨sign, hsign, hrest, -⟩
      have hdigits := digits_splitDigits (splitSign rest).2
      have happend := splitDigits_append_eq (splitSign rest).2
      rw [splitExponent?] at h
      split at h
      · rename_i hmark
        dsimp only at h
        split at h
        · cases h
        · rename_i hnone
          simp only [Bool.or_eq_true, List.isEmpty_iff, Bool.not_eq_true', not_or,
            Bool.not_eq_false] at hnone
          rw [hnone.2, List.append_nil] at happend
          rw [hrest, ← happend]
          exact .marked (by simpa using hmark) hsign hdigits hnone.1
      · cases h
  · intro h
    cases h with
    | absent => rfl
    | @marked mark sign digits hmark hsign hdigits hsome =>
      have hsplit := splitSign_append hsign fun c hc => digits_head hdigits hc
      have hmark' : (mark == 'e' || mark == 'E') = true := by simpa using hmark
      simp [splitExponent?, hmark', hsplit, splitDigits_self hdigits, hsome]

theorem splitExponent?_eq_some_none_iff {cs : List Char} :
    splitExponent? cs = some none ↔ cs = [] := by
  constructor
  · intro h
    cases cs with
    | nil => rfl
    | cons mark rest =>
      rw [splitExponent?] at h
      split at h
      · dsimp only at h
        split at h <;> cases h
      · cases h
  · rintro rfl
    rfl

/-! ## Numerals -/

/-- The texts of numerals. -/
inductive IsNumeral : List Char → Prop where
  | mk {sign whole exponent : List Char} {fraction : Option (List Char)} (hsign : IsSign sign)
      (hwhole : Digits whole) (hfraction : ∀ digits ∈ fraction, Digits digits)
      (hsome : whole ≠ [] ∨ ∃ digits ∈ fraction, digits ≠ []) (hexponent : IsExponent exponent) :
      IsNumeral (sign ++ (whole ++ (fractionPart fraction ++ exponent)))

theorem exponent_head {exponent : List Char} (h : IsExponent exponent) {c : Char}
    (hc : exponent.head? = some c) : c = 'e' ∨ c = 'E' := by
  cases h with
  | absent => cases hc
  | marked hmark =>
    cases hc
    exact hmark

theorem splitFraction_append {fraction : Option (List Char)}
    (hfraction : ∀ digits ∈ fraction, Digits digits) {exponent : List Char}
    (hexponent : IsExponent exponent) :
    splitFraction (fractionPart fraction ++ exponent) = (fraction, exponent) := by
  -- An exponent begins with its mark, so no point or digit is taken from it.
  have hhead : ∀ c, exponent.head? = some c → c ≠ '.' ∧ Text.isDecimalDigit c = false := by
    intro c hc
    rcases exponent_head hexponent hc with rfl | rfl <;> decide
  cases fraction with
  | none =>
    rw [fractionPart, List.nil_append]
    unfold splitFraction
    split
    · exact absurd rfl (hhead '.' rfl).1
    · rfl
  | some digits =>
    have hsplit := splitDigits_append (hfraction digits rfl) fun c hc => (hhead c hc).2
    simp [fractionPart, splitFraction, hsplit]

theorem fractionPart_splitFraction (cs : List Char) :
    cs = fractionPart (splitFraction cs).1 ++ (splitFraction cs).2 ∧
      ∀ digits ∈ (splitFraction cs).1, Digits digits := by
  unfold splitFraction
  split
  · rename_i rest
    refine ⟨?_, ?_⟩
    · rw [fractionPart, List.cons_append, splitDigits_append_eq]
    · rintro digits ⟨⟩
      exact digits_splitDigits rest
  · refine ⟨rfl, ?_⟩
    rintro digits ⟨⟩

/-- A text that is put together from the parts of a numeral is taken apart again. -/
theorem numeral?_of_parts {sign whole exponent : List Char} {fraction : Option (List Char)}
    (hsign : IsSign sign) (hwhole : Digits whole) (hfraction : ∀ digits ∈ fraction, Digits digits)
    (hsome : whole ≠ [] ∨ ∃ digits ∈ fraction, digits ≠ []) (hexponent : IsExponent exponent) :
    numeral? (sign ++ (whole ++ (fractionPart fraction ++ exponent))) =
      (splitExponent? exponent).map fun e =>
        { negative := decide (sign = ['-']), whole, fraction, exponent := e } := by
  -- What follows the digits before the point is a point, the mark of an exponent, or nothing.
  have hafter : ∀ c, (fractionPart fraction ++ exponent).head? = some c →
      Text.isDecimalDigit c = false ∧ c ≠ '-' ∧ c ≠ '+' := by
    intro c hc
    cases fraction with
    | none => rcases exponent_head hexponent hc with rfl | rfl <;> decide
    | some digits =>
      cases hc
      decide
  have hfirst : ∀ c, (whole ++ (fractionPart fraction ++ exponent)).head? = some c →
      c ≠ '-' ∧ c ≠ '+' := by
    intro c hc
    cases whole with
    | nil => exact (hafter c hc).2
    | cons d whole => exact digits_head hwhole hc
  have hnonempty : (whole.isEmpty && (fraction.getD []).isEmpty) = false := by
    rcases hsome with hsome | ⟨digits, hmem, hsome⟩
    · simp [hsome]
    · cases hmem
      simp [hsome]
  rw [numeral?_eq, splitSign_append hsign hfirst]
  dsimp only
  rw [splitDigits_append hwhole fun c hc => (hafter c hc).1]
  dsimp only
  rw [splitFraction_append hfraction hexponent, hnonempty]
  rfl

/-- The parts of a text that is read as a numeral. -/
theorem exists_parts_of_numeral? {cs : List Char} {n : Numeral} (h : numeral? cs = some n) :
    ∃ sign exponent, IsSign sign ∧ Digits n.whole ∧ (∀ digits ∈ n.fraction, Digits digits) ∧
      (n.whole ≠ [] ∨ ∃ digits ∈ n.fraction, digits ≠ []) ∧
      splitExponent? exponent = some n.exponent ∧ n.negative = decide (sign = ['-']) ∧
      cs = sign ++ (n.whole ++ (fractionPart n.fraction ++ exponent)) := by
  -- The text is put together again from what is split off it, one part after the other.
  rcases exists_splitSign cs with ⟨sign, hsign, hcs, hnegative⟩
  have hdigits := splitDigits_append_eq (splitSign cs).2
  rcases fractionPart_splitFraction (splitDigits (splitSign cs).2).2 with ⟨hpart, hfraction⟩
  rw [numeral?_eq] at h
  dsimp only at h
  split at h
  · cases h
  · rename_i hempty
    rcases Option.map_eq_some_iff.1 h with ⟨exponent, hexponent, rfl⟩
    refine ⟨sign, _, hsign, digits_splitDigits _, hfraction, ?_, hexponent, hnegative, ?_⟩
    · simp only [Bool.and_eq_true, List.isEmpty_iff, not_and_or] at hempty
      refine hempty.imp id fun hne => ?_
      cases hsplit : (splitFraction (splitDigits (splitSign cs).2).2).1 with
      | none => exact absurd (by rw [hsplit]; rfl) hne
      | some digits => exact ⟨digits, rfl, by simpa [hsplit] using hne⟩
    · rw [← hpart, hdigits]
      exact hcs

/-- Exactly the texts of numerals are read as one. -/
theorem isSome_numeral?_iff {cs : List Char} : (numeral? cs).isSome = true ↔ IsNumeral cs := by
  constructor
  · intro h
    rcases Option.isSome_iff_exists.1 h with ⟨n, hn⟩
    rcases exists_parts_of_numeral? hn with
      ⟨sign, exponent, hsign, hwhole, hfraction, hsome, hexponent, -, rfl⟩
    exact .mk hsign hwhole hfraction hsome (isSome_splitExponent?_iff.1 (by rw [hexponent]; rfl))
  · rintro ⟨hsign, hwhole, hfraction, hsome, hexponent⟩
    rw [numeral?_of_parts hsign hwhole hfraction hsome hexponent, Option.isSome_map]
    exact isSome_splitExponent?_iff.2 hexponent

/-- The numerals that denote integers: a sign and digits. -/
theorem numeral?_integer_iff {cs : List Char} {n : Numeral} :
    (numeral? cs = some n ∧ n.isInteger = true) ↔
      ∃ sign digits, IsSign sign ∧ Digits digits ∧ digits ≠ [] ∧ cs = sign ++ digits ∧
        n = { negative := decide (sign = ['-']), whole := digits, fraction := none,
              exponent := none } := by
  constructor
  · rintro ⟨hn, hinteger⟩
    rcases exists_parts_of_numeral? hn with
      ⟨sign, exponent, hsign, hwhole, -, hsome, hexponent, hnegative, hcs⟩
    rcases n with ⟨negative, whole, fraction, e⟩
    simp only [Numeral.isInteger, Bool.and_eq_true, Option.isNone_iff_eq_none] at hinteger
    rcases hinteger with ⟨rfl, rfl⟩
    rw [splitExponent?_eq_some_none_iff.1 hexponent] at hcs
    refine ⟨sign, whole, hsign, hwhole, ?_, ?_, ?_⟩
    · exact hsome.resolve_right fun hcase => by simp at hcase
    · simpa [fractionPart] using hcs
    · exact congrArg (Numeral.mk · whole none none) hnegative
  · rintro ⟨sign, digits, hsign, hdigits, hsome, rfl, rfl⟩
    have hnone : ∀ fraction ∈ (none : Option (List Char)), Digits fraction := by simp
    have hread := numeral?_of_parts hsign hdigits hnone (.inl hsome) .absent
    refine ⟨?_, rfl⟩
    simpa [fractionPart, splitExponent?] using hread

/-- There is no line feed in a numeral. -/
theorem feed_not_mem_of_isNumeral {cs : List Char} (h : IsNumeral cs) : '\n' ∉ cs := by
  have hdigits : ∀ {digits : List Char}, Digits digits → '\n' ∉ digits := by
    intro digits hall hmem
    exact (ne_of_isDecimalDigit (hall _ hmem)).2.2 rfl
  have hsigns : ∀ {sign : List Char}, IsSign sign → '\n' ∉ sign := by
    rintro sign (rfl | rfl | rfl) <;> decide
  rcases h with @⟨sign, whole, exponent, fraction, hsign, hwhole, hfraction, -, hexponent⟩
  simp only [List.mem_append, not_or]
  refine ⟨hsigns hsign, hdigits hwhole, ?_, ?_⟩
  · cases fraction with
    | none => exact List.not_mem_nil
    | some digits => simpa [fractionPart] using hdigits (hfraction digits rfl)
  · cases hexponent with
    | absent => exact List.not_mem_nil
    | marked hmark hsign hdigits' =>
      rcases hmark with rfl | rfl <;> simp [hsigns hsign, hdigits hdigits']

end Number
end PropCatalog
