import PropCatalog.Proofs.Number.Numeral
import PropCatalog.Proofs.Number.Shortest

/-!
# Written doubles — the text of a double as a numeral

A decimal is laid out with a point or with an exponent. In each layout the text is a numeral with
digits before the point and without a leading zero, and its value is that of the decimal. So the
text of a finite double is read back as the double.

- `Number.Parts.Strict` : numerals by their parts, without superfluous zeros
- `Number.Parts.Writes` : the decimals that they write
- `writes_layout`       : every layout writes its decimal
- `writes_write`        : the text of a double is read back
-/

namespace PropCatalog
namespace Number

/-- The parts of a numeral without its sign. -/
structure Parts where
  whole : List Char
  fraction : Option (List Char)
  /-- A sign and digits; true stands for minus. -/
  exponent : Option (Bool × List Char)

namespace Parts

def chars (p : Parts) : List Char :=
  p.whole ++ (fractionPart p.fraction ++ exponentPart p.exponent)

def numeral (p : Parts) (negative : Bool) : Numeral :=
  { negative, whole := p.whole, fraction := p.fraction
    exponent := p.exponent.map fun e => signed e.1 (valueOf e.2) }

/-- The parts are digits, and the first one is a zero only if it stands alone before the point. -/
structure Strict (p : Parts) : Prop where
  whole : AllDigits p.whole
  leading : p.whole = ['0'] ∨ ∃ c cs, p.whole = c :: cs ∧ c ≠ '0'
  fraction : ∀ ds ∈ p.fraction, AllDigits ds ∧ ds ≠ []
  exponent : ∀ e ∈ p.exponent, AllDigits e.2 ∧ e.2 ≠ []

/-- The numeral is no integer, and its value is `digits * 10 ^ place`. -/
structure Writes (p : Parts) (digits : Nat) (place : Int) : Prop extends p.Strict where
  notInteger : ∀ negative, (p.numeral negative).isInteger = false
  value : (valueOf (p.whole ++ p.fraction.getD []) : ℚ) *
      10 ^ (((p.numeral false).exponent).getD 0 - ((p.fraction.getD []).length : Int)) =
    digits * 10 ^ place

theorem Strict.numeral? {p : Parts} (h : p.Strict) (negative : Bool) :
    numeral? (Double.signText negative ++ p.chars) = some (p.numeral negative) := by
  have hne : p.whole ≠ [] := by
    rcases h.leading with hzero | ⟨c, cs, hcons, -⟩
    · simp [hzero]
    · simp [hcons]
  exact numeral?_writtenParts negative h.whole hne (fun ds hds => (h.fraction ds hds).1) h.exponent

end Parts
end Number

namespace Double

open Number

/-! ## Layouts -/

/-- An exponent is written with its sign and at least two digits. -/
theorem exponentText_eq (e : Int) :
    ∃ ds, 'e' :: exponentText e = exponentPart (some (decide (e < 0), ds)) ∧ AllDigits ds ∧
      ds ≠ [] ∧ signed (decide (e < 0)) (valueOf ds) = e := by
  have hvalue : signed (decide (e < 0)) e.natAbs = e := by
    unfold signed
    by_cases hneg : e < 0
    · rw [if_pos (decide_eq_true hneg)]
      omega
    · rw [if_neg (by simpa using hneg)]
      omega
  have hsign : (if decide (e < 0) = true then '-' else '+') = if e < 0 then '-' else '+' := by
    simp
  unfold exponentText exponentPart
  dsimp only
  rw [hsign]
  by_cases hshort : (Text.decimal e.natAbs).length < 2
  · rw [if_pos hshort]
    refine ⟨'0' :: Text.decimal e.natAbs, rfl, ?_, by simp, ?_⟩
    · exact (allDigits_replicate 1).append (allDigits_decimal _)
    · rw [← List.singleton_append, valueOf_append, valueOf_zero, valueOf_decimal, Nat.zero_mul,
        Nat.zero_add, hvalue]
  · rw [if_neg hshort]
    exact ⟨Text.decimal e.natAbs, rfl, allDigits_decimal _, decimal_ne_nil _,
      by rw [valueOf_decimal, hvalue]⟩

/-- A decimal below one, with its zeros after the point. -/
theorem writes_small {digits : Nat} {place : Int} {zeros : Nat}
    (hplace : place = -((zeros + (Text.decimal digits).length : Nat) : Int)) :
    Parts.Writes ⟨['0'], some (List.replicate zeros '0' ++ Text.decimal digits), none⟩
      digits place where
  whole := allDigits_replicate 1
  leading := Or.inl rfl
  fraction := by
    rintro ds ⟨⟩
    exact ⟨(allDigits_replicate zeros).append (allDigits_decimal digits),
      by simp [decimal_ne_nil]⟩
  exponent := by simp
  notInteger := fun _ => rfl
  value := by
    have hvalue : valueOf (['0'] ++ (List.replicate zeros '0' ++ Text.decimal digits)) =
        digits := by
      rw [valueOf_append, valueOf_append, valueOf_zero, valueOf_replicate, valueOf_decimal]
      simp
    rw [hplace]
    simp only [Option.getD_some]
    rw [hvalue]
    simp [Parts.numeral]

/-- An integer, with zeros up to the point and one after it. -/
theorem writes_whole {digits : Nat} (hpos : 0 < digits) (zeros : Nat) :
    Parts.Writes ⟨Text.decimal digits ++ List.replicate zeros '0', some ['0'], none⟩
      digits (zeros : Int) where
  whole := (allDigits_decimal digits).append (allDigits_replicate zeros)
  leading := by
    rcases decimal_eq_cons hpos with ⟨c, cs, hcons, -, hne, -⟩
    exact Or.inr ⟨c, cs ++ List.replicate zeros '0', by simp [hcons], hne⟩
  fraction := by
    rintro ds ⟨⟩
    exact ⟨allDigits_replicate 1, by simp⟩
  exponent := by simp
  notInteger := fun _ => rfl
  value := by
    have hvalue : valueOf (Text.decimal digits ++ List.replicate zeros '0' ++ ['0']) =
        digits * 10 ^ zeros * 10 := by
      rw [valueOf_append, valueOf_append, valueOf_zero, valueOf_replicate, valueOf_decimal]
      simp
    have hexponent : (Parts.numeral ⟨Text.decimal digits ++ List.replicate zeros '0', some ['0'],
        none⟩ false).exponent.getD 0 - ((['0'].length : Nat) : Int) = -1 := rfl
    simp only [Option.getD_some]
    rw [hvalue, hexponent, zpow_natCast, zpow_neg_one]
    push_cast
    field_simp

/-- The digits on both sides of a point, with or without an exponent. -/
theorem writes_split {digits : Nat} {place : Int} (hpos : 0 < digits) (count : Nat)
    (fraction : Option (List Char)) (exponent : Option (Bool × List Char)) (hcount : 0 < count)
    (hfraction : fraction.getD [] = (Text.decimal digits).drop count)
    (hne : ∀ ds ∈ fraction, ds ≠ [])
    (hexponent : ∀ e ∈ exponent, AllDigits e.2 ∧ e.2 ≠ [])
    (hdouble : fraction.isSome = true ∨ exponent.isSome = true)
    (hplace : (exponent.map fun e => signed e.1 (valueOf e.2)).getD 0 -
      (((Text.decimal digits).drop count).length : Int) = place) :
    Parts.Writes ⟨(Text.decimal digits).take count, fraction, exponent⟩ digits place where
  whole := (allDigits_decimal digits).sublist (List.take_sublist _ _)
  leading := by
    rcases decimal_eq_cons hpos with ⟨c, cs, hcons, -, hne, -⟩
    cases count with
    | zero => omega
    | succ count => exact Or.inr ⟨c, cs.take count, by simp [hcons], hne⟩
  fraction := by
    intro ds hds
    refine ⟨?_, hne ds hds⟩
    obtain rfl : fraction = some ds := hds
    rw [Option.getD_some] at hfraction
    rw [hfraction]
    exact (allDigits_decimal digits).sublist (List.drop_sublist _ _)
  exponent := hexponent
  notInteger := by
    intro negative
    cases fraction <;> cases exponent <;> simp_all [Parts.numeral, Numeral.isInteger]
  value := by
    dsimp only [Parts.numeral]
    rw [hfraction, List.take_append_drop, valueOf_decimal, hplace]

/-- The digits with a point after the first one, if there are others, and an exponent. -/
theorem writes_scientific {digits : Nat} (hpos : 0 < digits) (place : Int) :
    ∃ p : Parts, (Text.decimal digits).take 1 ++
        (if ((Text.decimal digits).drop 1).isEmpty then [] else '.' :: (Text.decimal digits).drop 1)
        ++ ['e'] ++ exponentText ((Text.decimal digits).length + place - 1) = p.chars ∧
      p.Writes digits place := by
  have hlength := length_decimal_pos digits
  rcases exponentText_eq ((Text.decimal digits).length + place - 1) with
    ⟨ds, htext, hdigits, hne, hvalue⟩
  have hplace : ((Text.decimal digits).length : Int) + place - 1 -
      (((Text.decimal digits).drop 1).length : Int) = place := by
    rw [List.length_drop]
    omega
  by_cases hrest : ((Text.decimal digits).drop 1).isEmpty = true
  · rw [if_pos hrest]
    have hnil := List.isEmpty_iff.1 hrest
    refine ⟨_, ?_, writes_split hpos 1 none
      (some (decide ((Text.decimal digits).length + place - 1 < 0), ds)) Nat.one_pos hnil.symm
      (by simp) ?_ (by simp) ?_⟩
    · rw [Parts.chars, ← htext]
      simp [fractionPart]
    · rintro e ⟨⟩
      exact ⟨hdigits, hne⟩
    · rw [Option.map_some, Option.getD_some, hvalue, hplace]
  · rw [if_neg hrest]
    refine ⟨_, ?_, writes_split hpos 1 (some ((Text.decimal digits).drop 1))
      (some (decide ((Text.decimal digits).length + place - 1 < 0), ds)) Nat.one_pos rfl
      ?_ ?_ (by simp) ?_⟩
    · rw [Parts.chars, ← htext]
      simp [fractionPart]
    · rintro rest ⟨⟩
      simpa using hrest
    · rintro e ⟨⟩
      exact ⟨hdigits, hne⟩
    · rw [Option.map_some, Option.getD_some, hvalue, hplace]

/-- Every layout of a decimal writes it. -/
theorem writes_layout {digits : Nat} (hpos : 0 < digits) (place : Int) :
    ∃ p : Parts, layout digits place = p.chars ∧ p.Writes digits place := by
  unfold layout
  dsimp only
  rw [if_neg (by simpa using hpos.ne')]
  by_cases hpositional : -4 < ((Text.decimal digits).length : Int) + place ∧
      ((Text.decimal digits).length : Int) + place ≤ 16
  · rw [if_pos (by simpa using hpositional)]
    by_cases hsmall : ((Text.decimal digits).length : Int) + place ≤ 0
    · rw [if_pos hsmall]
      refine ⟨⟨['0'], some (List.replicate (-(((Text.decimal digits).length : Int) + place)).toNat
        '0' ++ Text.decimal digits), none⟩, by simp [Parts.chars, fractionPart, exponentPart], ?_⟩
      exact writes_small (by omega)
    rw [if_neg hsmall]
    by_cases hwhole : ((Text.decimal digits).length : Int) ≤
        ((Text.decimal digits).length : Int) + place
    · rw [if_pos hwhole]
      obtain ⟨zeros, rfl⟩ : ∃ zeros : Nat, place = zeros := ⟨place.toNat, by omega⟩
      refine ⟨_, ?_, writes_whole hpos zeros⟩
      simp [Parts.chars, fractionPart, exponentPart]
    · rw [if_neg hwhole]
      refine ⟨_, ?_, writes_split hpos (((Text.decimal digits).length : Int) + place).toNat
        (some ((Text.decimal digits).drop (((Text.decimal digits).length : Int) + place).toNat))
        none (by omega) rfl ?_ (by simp) (by simp) ?_⟩
      · simp [Parts.chars, fractionPart, exponentPart]
      · rintro ds ⟨⟩
        rw [Ne, List.drop_eq_nil_iff]
        omega
      · simp only [Option.map_none, Option.getD_none, List.length_drop]
        omega
  · rw [if_neg (by simpa using hpositional)]
    exact writes_scientific hpos place

/-! ## Doubles -/

theorem shortest_pos {m : Nat} {e : Int} (hm : 0 < m) (hparts : CanonicalParts m e) :
    0 < (shortest m e).1 := by
  have hread := ofDecimal_of_shortest false hm hparts rfl
  rcases Nat.eq_zero_or_pos (shortest m e).1 with hzero | hpos
  · -- Zero digits are read as a zero.
    rw [hzero] at hread
    have hmantissa : Double.finite false 0 (-1074) = .finite false m e := hread
    cases hmantissa
    omega
  · exact hpos

/-- The text of a finite double is a numeral that is read back as it. -/
theorem writes_write (names : Names) (negative : Bool) {m : Nat} {e : Int}
    (hparts : CanonicalParts m e) :
    ∃ p : Parts, ∃ digits place,
      ((Double.finite negative m e).write names).toList = signText negative ++ p.chars ∧
      p.Writes digits place ∧ (p.numeral negative).toDouble = .finite negative m e := by
  unfold write
  dsimp only
  rcases Nat.eq_zero_or_pos m with rfl | hm
  · obtain rfl : e = -1074 := hparts.large.resolve_left (by decide)
    refine ⟨⟨['0'], some ['0'], none⟩, 0, 0, ?_, ?_, rfl⟩
    · rw [String.toList_ofList]
      rfl
    · exact
        { whole := allDigits_replicate 1
          leading := Or.inl rfl
          fraction := by
            rintro ds ⟨⟩
            exact ⟨allDigits_replicate 1, by simp⟩
          exponent := by simp
          notInteger := fun _ => rfl
          value := by
            have hzero : valueOf (['0'] ++ ['0']) = 0 := by decide
            simp only [Option.getD_some]
            rw [hzero]
            simp }
  · rcases writes_layout (shortest_pos hm hparts) (shortest m e).2 with ⟨p, htext, hwrites⟩
    refine ⟨p, _, _, ?_, hwrites, ?_⟩
    · rw [if_neg (by simpa using hm.ne'), String.toList_ofList, htext]
    · exact ofDecimal_of_shortest negative hm hparts hwrites.value

end Double
end PropCatalog
