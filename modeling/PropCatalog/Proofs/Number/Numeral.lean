import PropCatalog.Proofs.Number.Decimal

/-!
# Numerals — a text and its parts

A numeral that is written out part by part is read back with the same parts.

- `numeral?_eq`           : reading by a sign, digits, a fraction and an exponent
- `numeral?_writtenParts` : the numeral of a text that is given by its parts
-/

namespace PropCatalog
namespace Number

/-- Splits off a point and the digits after it. -/
def splitFraction (cs : List Char) : Option (List Char) × List Char :=
  match cs with
  | '.' :: rest => (some (splitDigits rest).1, (splitDigits rest).2)
  | _ => (none, cs)

theorem numeral?_eq (text : List Char) :
    numeral? text =
      let rest := (splitSign text).2
      let whole := (splitDigits rest).1
      let fraction := splitFraction (splitDigits rest).2
      if whole.isEmpty && (fraction.1.getD []).isEmpty then none
      else (splitExponent? fraction.2).map fun exponent =>
        { negative := (splitSign text).1, whole, fraction := fraction.1, exponent } := rfl

theorem whole_of_numeral? {text : List Char} {n : Numeral} (h : numeral? text = some n) :
    n.whole = (splitDigits (splitSign text).2).1 := by
  rw [numeral?_eq] at h
  dsimp only at h
  split at h
  · cases h
  · rcases Option.map_eq_some_iff.1 h with ⟨exponent, -, rfl⟩
    rfl

/-! ## Writing by parts -/

/-- An exponent: the mark, a sign, and digits. -/
def exponentPart (e : Option (Bool × List Char)) : List Char :=
  match e with
  | some (negative, digits) => 'e' :: (if negative then '-' else '+') :: digits
  | none => []

def fractionPart (fraction : Option (List Char)) : List Char :=
  match fraction with
  | some digits => '.' :: digits
  | none => []

theorem isDecimalDigit_of_isDigit {c : Char} (h : c.isDigit = true) :
    Text.isDecimalDigit c = true := by
  rw [Text.isDecimalDigit, digitValue?_of_isDigit h]
  rfl

/-- All characters are digits of some script. -/
def Digits (cs : List Char) : Prop :=
  ∀ c ∈ cs, Text.isDecimalDigit c = true

theorem digits_of_allDigits {cs : List Char} (h : AllDigits cs) : Digits cs :=
  fun c hc => isDecimalDigit_of_isDigit (h c hc)

/-- Digits are split off up to a character that is none. -/
theorem splitDigits_append {digits : List Char} (h : Digits digits) {rest : List Char}
    (hrest : ∀ c, rest.head? = some c → Text.isDecimalDigit c = false) :
    splitDigits (digits ++ rest) = (digits, rest) := by
  have hstop : rest.takeWhile Text.isDecimalDigit = [] ∧
      rest.dropWhile Text.isDecimalDigit = rest := by
    cases rest with
    | nil => exact ⟨rfl, rfl⟩
    | cons c rest =>
      have hc := hrest c rfl
      exact ⟨List.takeWhile_cons_of_neg (by simp [hc]), List.dropWhile_cons_of_neg (by simp [hc])⟩
  rw [splitDigits, List.takeWhile_append_of_pos h, List.dropWhile_append_of_pos h, hstop.1,
    hstop.2, List.append_nil]

theorem splitSign_signText (negative : Bool) {c : Char} (hc : c.isDigit = true) (cs : List Char) :
    splitSign (Double.signText negative ++ c :: cs) = (negative, c :: cs) := by
  cases negative with
  | true => rfl
  | false =>
    have hne : c ≠ '-' ∧ c ≠ '+' := by
      constructor <;> rintro rfl <;> exact absurd hc (by decide)
    show splitSign (c :: cs) = (false, c :: cs)
    unfold splitSign
    split
    · rename_i heq
      exact absurd (List.cons.inj heq).1 hne.1
    · rename_i heq
      exact absurd (List.cons.inj heq).1 hne.2
    · rfl

theorem splitExponent?_exponentPart {e : Option (Bool × List Char)}
    (he : ∀ p ∈ e, AllDigits p.2 ∧ p.2 ≠ []) :
    splitExponent? (exponentPart e) = some (e.map fun p => signed p.1 (valueOf p.2)) := by
  cases e with
  | none => rfl
  | some p =>
    rcases p with ⟨negative, digits⟩
    rcases he _ rfl with ⟨hdigits, hne⟩
    have hsign : splitSign ((if negative then '-' else '+') :: digits) = (negative, digits) := by
      cases negative <;> rfl
    have hsplit : splitDigits digits = (digits, []) := by
      have happend : splitDigits (digits ++ []) = (digits, []) :=
        splitDigits_append (digits_of_allDigits hdigits) (by simp)
      rwa [List.append_nil] at happend
    simp [exponentPart, splitExponent?, hsign, hsplit, hne]

/-- A text that is given by its parts is read with these parts. -/
theorem numeral?_writtenParts (negative : Bool) {whole : List Char} {fraction : Option (List Char)}
    {e : Option (Bool × List Char)} (hwhole : AllDigits whole) (hne : whole ≠ [])
    (hfraction : ∀ digits ∈ fraction, AllDigits digits)
    (he : ∀ p ∈ e, AllDigits p.2 ∧ p.2 ≠ []) :
    numeral? (Double.signText negative ++ (whole ++ (fractionPart fraction ++ exponentPart e))) =
      some { negative, whole, fraction, exponent := e.map fun p => signed p.1 (valueOf p.2) } := by
  have hexponentHead : ∀ c, (exponentPart e).head? = some c → Text.isDecimalDigit c = false := by
    intro c hc
    cases e with
    | none => cases hc
    | some p =>
      cases hc
      decide
  have hrestHead : ∀ c, (fractionPart fraction ++ exponentPart e).head? = some c →
      Text.isDecimalDigit c = false := by
    intro c hc
    cases fraction with
    | none => exact hexponentHead c hc
    | some digits =>
      cases hc
      decide
  have hsign : splitSign (Double.signText negative ++
      (whole ++ (fractionPart fraction ++ exponentPart e))) =
      (negative, whole ++ (fractionPart fraction ++ exponentPart e)) := by
    cases whole with
    | nil => exact absurd rfl hne
    | cons c whole => exact splitSign_signText negative (hwhole c List.mem_cons_self) _
  have hsplit : splitFraction (fractionPart fraction ++ exponentPart e) =
      (fraction, exponentPart e) := by
    cases fraction with
    | none =>
      cases e with
      | none => rfl
      | some p => rfl
    | some digits =>
      have hdigits := splitDigits_append (digits_of_allDigits (hfraction digits rfl)) hexponentHead
      simp [fractionPart, splitFraction, hdigits]
  rw [numeral?_eq, hsign]
  dsimp only
  rw [splitDigits_append (digits_of_allDigits hwhole) hrestHead]
  dsimp only
  rw [hsplit, splitExponent?_exponentPart he]
  simp [hne]

end Number
end PropCatalog
