import PropCatalog.Proofs.Assoc
import PropCatalog.Proofs.Number.Layout
import PropCatalog.Proofs.Value.Reading

/-!
# Values and their texts — what is written is read back

The indented text of a value denotes the value again if all its doubles are numbers, and so does its
text on one line.

- `Value.Proper`        : values with doubles in canonical form and maps with different keys
- `Value.HasSpecial`    : values with an infinite double or one that is no number
- `isString_jsonString`, `number?_jsonDouble` : strings and numbers are read back
- `denotes_prettyChars`, `denotes_compactChars` : the texts of a value without special doubles
  denote it
- `compactChars_append_inj` : a value on one line and what follows it
-/

namespace PropCatalog
namespace Value

/-- Values whose doubles are in canonical form, and whose maps have every key once. -/
inductive Proper : Value → Prop
  | null : Proper .null
  | bool (b : Bool) : Proper (.bool b)
  | int (n : Int) : Proper (.int n)
  | float {x : Double} : x.Canonical → Proper (.float x)
  | text (s : String) : Proper (.text s)
  | list {items : List Value} : (∀ v ∈ items, Proper v) → Proper (.list items)
  | map {entries : List (String × Value)} :
      (entries.map Prod.fst).Nodup → (∀ e ∈ entries, Proper e.2) → Proper (.map entries)

/-- Values with a double somewhere that is infinite or no number. -/
inductive HasSpecial : Value → Prop
  | nan : HasSpecial (.float .nan)
  | infinite (negative : Bool) : HasSpecial (.float (.infinite negative))
  | list {items : List Value} {v : Value} : v ∈ items → HasSpecial v → HasSpecial (.list items)
  | map {entries : List (String × Value)} {e : String × Value} :
      e ∈ entries → HasSpecial e.2 → HasSpecial (.map entries)

end Value

namespace Json

open Number Value

/-! ## Numbers -/

theorem isNumberChar_of_isDigit {c : Char} (h : c.isDigit = true) : isNumberChar c = true := by
  simp [isNumberChar, h]

theorem all_isNumberChar_chars {p : Parts} (h : p.Strict) (negative : Bool) :
    ∀ c ∈ Double.signText negative ++ p.chars, isNumberChar c = true := by
  have hdigits : ∀ {ds : List Char}, AllDigits ds → ∀ c ∈ ds, isNumberChar c = true :=
    fun hds c hc => isNumberChar_of_isDigit (hds c hc)
  have hsign : ∀ c ∈ Double.signText negative, isNumberChar c = true := by
    intro c hc
    cases negative with
    | true =>
      rw [List.mem_singleton.1 hc]
      decide
    | false => cases hc
  have hfraction : ∀ c ∈ fractionPart p.fraction, isNumberChar c = true := by
    cases hp : p.fraction with
    | none => exact fun c hc => absurd hc List.not_mem_nil
    | some ds =>
      intro c hc
      rcases List.mem_cons.1 hc with rfl | hc
      · decide
      · exact hdigits (h.fraction ds hp).1 c hc
  have hexponent : ∀ c ∈ exponentPart p.exponent, isNumberChar c = true := by
    cases hp : p.exponent with
    | none => exact fun c hc => absurd hc List.not_mem_nil
    | some e =>
      intro c hc
      rcases List.mem_cons.1 hc with rfl | hc
      · decide
      rcases List.mem_cons.1 hc with rfl | hc
      · cases e.1 <;> decide
      · exact hdigits (h.exponent e hp).1 c hc
  intro c hc
  simp only [Parts.chars, List.mem_append] at hc
  rcases hc with hc | hc | hc | hc
  · exact hsign c hc
  · exact hdigits h.whole c hc
  · exact hfraction c hc
  · exact hexponent c hc

/-- A numeral without superfluous zeros is a number. -/
theorem number?_chars {p : Parts} (h : p.Strict) (negative : Bool) :
    number? (Double.signText negative ++ p.chars) =
      some (if (p.numeral negative).isInteger then .int (signed negative (valueOf p.whole))
        else .float (p.numeral negative).toDouble) := by
  rw [number?_eq_some_iff]
  refine ⟨List.all_eq_true.2 (all_isNumberChar_chars h negative), ?_, _, h.numeral? negative, ?_,
    rfl⟩
  · -- The first character is a minus or a digit.
    have hwhole := h.whole
    rcases h.leading with hzero | ⟨c, cs, hcons, -⟩
    · cases negative <;> simp [Double.signText, Parts.chars, hzero]
    · rw [hcons] at hwhole
      have hplus : c ≠ '+' := by
        rintro rfl
        exact absurd (hwhole '+' List.mem_cons_self) (by decide)
      cases negative <;> simp [Double.signText, Parts.chars, hcons, hplus]
  · have hfraction : (p.fraction != some []) = true := by
      simp only [bne_iff_ne]
      exact fun hnil => (h.fraction [] hnil).2 rfl
    rcases h.leading with hzero | ⟨c, cs, hcons, hne⟩
    · simp [isStrict, Parts.numeral, hzero, hfraction]
    · simp [isStrict, Parts.numeral, hcons, hne, hfraction]

theorem number?_intText (n : Int) : number? (intText n) = some (.int n) := by
  have hstrict : Parts.Strict ⟨Text.decimal n.natAbs, none, none⟩ := by
    refine ⟨allDigits_decimal _, ?_, by simp, by simp⟩
    rcases Nat.eq_zero_or_pos n.natAbs with hzero | hpos
    · rw [hzero]
      exact Or.inl rfl
    · rcases decimal_eq_cons hpos with ⟨c, cs, hcons, -, hne, -⟩
      exact Or.inr ⟨c, cs, hcons, hne⟩
  have htext : intText n =
      Double.signText (decide (n < 0)) ++ Parts.chars ⟨Text.decimal n.natAbs, none, none⟩ := by
    unfold intText Double.signText Parts.chars
    by_cases hneg : n < 0 <;> simp [hneg, fractionPart, exponentPart]
  have hvalue : signed (decide (n < 0)) (valueOf (Text.decimal n.natAbs)) = n := by
    rw [valueOf_decimal, signed]
    by_cases hneg : n < 0
    · rw [if_pos (decide_eq_true hneg)]
      omega
    · rw [if_neg (by simpa using hneg)]
      omega
  rw [htext, number?_chars hstrict]
  show some (Value.int (signed (decide (n < 0)) (valueOf (Text.decimal n.natAbs)))) = _
  rw [hvalue]

theorem number?_jsonDouble (negative : Bool) {m : Nat} {e : Int}
    (h : Double.CanonicalParts m e) :
    number? (jsonDouble (.finite negative m e)) = some (.float (.finite negative m e)) := by
  rcases Double.writes_write ⟨"NaN", "Infinity"⟩ negative h with
    ⟨p, digits, place, htext, hwrites, hread⟩
  rw [jsonDouble, htext, number?_chars hwrites.toStrict, hwrites.notInteger, hread]
  rfl

/-! ## Strings -/

theorem le_toNat_of_jsonChar {c : Char} (h : jsonChar c = [c]) : 32 ≤ c.toNat := by
  by_contra hlt
  have hlength : 2 ≤ (jsonChar c).length := by
    unfold jsonChar
    dsimp only
    rw [if_pos (show c.toNat < 32 by omega)]
    repeat' split
    all_goals simp
  rw [h, List.length_singleton] at hlength
  omega

theorem hexValue?_hex : ∀ n < 32, hexValue? (Text.hex 4 n) = some n := by
  decide

/-- Every character is written as a code unit. -/
theorem codeUnit_jsonChar (c : Char) : CodeUnit (jsonChar c) c.toNat := by
  rcases jsonChar_cases c with ⟨hc, hquote, hslash⟩ | ⟨mark, hc, hmark⟩ | ⟨hc, hlt⟩
  · have hle := le_toNat_of_jsonChar hc
    rw [hc]
    exact .plain hle hquote hslash
  · rw [hc]
    exact .short (List.mem_cons_of_mem _ hmark)
  · rw [hc]
    exact .numbered (hexValue?_hex c.toNat hlt)

theorem codeUnits_flatMap (cs : List Char) :
    CodeUnits (cs.flatMap jsonChar) (cs.map Char.toNat) := by
  induction cs with
  | nil => exact .nil
  | cons c cs ih => exact .cons (codeUnit_jsonChar c) ih

/-- No character is half of a surrogate pair. -/
theorem not_surrogate (c : Char) : isHigh c.toNat = false ∧ isLow c.toNat = false := by
  have hvalid : c.toNat < 0xD800 ∨ 0xDFFF < c.toNat ∧ c.toNat < 0x110000 := c.valid
  simp only [isHigh, isLow, Bool.and_eq_false_iff, decide_eq_false_iff_not]
  omega

theorem joinUnits_map_toNat (cs : List Char) : joinUnits (cs.map Char.toNat) = cs := by
  have hunit : ∀ c : Char, unitChar c.toNat = c := by
    intro c
    rcases not_surrogate c with ⟨hhigh, hlow⟩
    simp [unitChar, hhigh, hlow]
  induction cs with
  | nil => rfl
  | cons c cs ih =>
    cases cs with
    | nil => simp [joinUnits, hunit]
    | cons c' cs =>
      rw [List.map_cons, List.map_cons, joinUnits, (not_surrogate c).1, Bool.false_and, hunit,
        ← List.map_cons, ih]
      rfl

theorem isString_jsonString (s : String) : IsString (jsonString s) s :=
  ⟨_, _, rfl, codeUnits_flatMap s.toList, by rw [joinUnits_map_toNat, String.ofList_toList]⟩

/-! ## Values -/

theorem blanks_nil : Blanks [] :=
  fun _ hc => absurd hc List.not_mem_nil

theorem denotes_compactItems {v : Value} {items : List Value}
    (h : ∀ w ∈ v :: items, Denotes (compactChars w) (.value w)) :
    Denotes (compactItems (v :: items)) (.items (v :: items)) := by
  induction items generalizing v with
  | nil =>
    have helement := Denotes.element blanks_nil (h v List.mem_cons_self) blanks_nil
    simpa [compactItems] using Denotes.item helement
  | cons w items ih =>
    have helement := Denotes.element blanks_nil (h v List.mem_cons_self) blanks_nil
    have hrest := ih fun u hu => h u (List.mem_cons_of_mem v hu)
    simpa [compactItems] using Denotes.items helement hrest

theorem denotes_compactEntry (key : String) {v : Value}
    (h : Denotes (compactChars v) (.value v)) :
    Denotes (jsonString key ++ ':' :: compactChars v) (.entry key v) := by
  simpa using Denotes.member blanks_nil (isString_jsonString key) blanks_nil
    (Denotes.element blanks_nil h blanks_nil)

theorem denotes_compactEntries {key : String} {v : Value} {entries : List (String × Value)}
    (h : ∀ e ∈ (key, v) :: entries, Denotes (compactChars e.2) (.value e.2)) :
    Denotes (compactEntries ((key, v) :: entries)) (.entries ((key, v) :: entries)) := by
  induction entries generalizing key v with
  | nil =>
    have hentry := denotes_compactEntry key (h (key, v) List.mem_cons_self)
    simpa [compactEntries] using Denotes.entry hentry
  | cons e entries ih =>
    rcases e with ⟨key', w⟩
    have hentry := denotes_compactEntry key (h (key, v) List.mem_cons_self)
    have hrest := ih fun u hu => h u (List.mem_cons_of_mem (key, v) hu)
    simpa [compactEntries] using Denotes.entries hentry hrest

/-- The text on one line denotes the value, too. -/
theorem denotes_compactChars {v : Value} (hproper : v.Proper) (hfinite : ¬ v.HasSpecial) :
    Denotes (compactChars v) (.value v) := by
  induction hproper with
  | null => exact .word (by simp [words, compactChars])
  | bool b => exact .word (by cases b <;> simp [words, compactChars])
  | int n =>
    rw [compactChars]
    exact .number (number?_intText n)
  | @float x hx =>
    rw [compactChars]
    cases x with
    | nan => exact absurd .nan hfinite
    | infinite negative => exact absurd (.infinite negative) hfinite
    | finite negative m e => exact .number (number?_jsonDouble negative hx)
  | text s =>
    rw [compactChars]
    exact .string (isString_jsonString s)
  | @list items _ ih =>
    cases items with
    | nil => exact .emptyList blanks_nil
    | cons v items =>
      have hitems : ∀ w ∈ v :: items, Denotes (compactChars w) (.value w) :=
        fun w hw => ih w hw fun hspecial => hfinite (.list hw hspecial)
      simpa [compactChars] using Denotes.list (denotes_compactItems hitems)
  | @map entries hnodup _ ih =>
    cases entries with
    | nil => exact .emptyMap blanks_nil
    | cons e entries =>
      rcases e with ⟨key, v⟩
      have hentries : ∀ e ∈ (key, v) :: entries, Denotes (compactChars e.2) (.value e.2) :=
        fun e he => ih e he fun hspecial => hfinite (.map he hspecial)
      have hmap := Denotes.map (denotes_compactEntries hentries)
      rw [Assoc.ofList_of_nodup hnodup] at hmap
      simpa [compactChars] using hmap

/-- A value on one line can be read off a text, up to what cannot belong to it. -/
theorem compactChars_append_inj {v v' : Value} (hv : v.Proper ∧ ¬ v.HasSpecial)
    (hv' : v'.Proper ∧ ¬ v'.HasSpecial) {rest rest' : List Char} (hrest : Ends rest)
    (hrest' : Ends rest') (h : compactChars v ++ rest = compactChars v' ++ rest') :
    v = v' ∧ rest = rest' := by
  have hfound := found_of_denotes (denotes_compactChars hv.1 hv.2)
  have hfound' := found_of_denotes (denotes_compactChars hv'.1 hv'.2)
  let fuel := (compactChars v).length + (compactChars v').length + 1
  have hread := hfound fuel rest hrest (by omega)
  have hread' := hfound' fuel rest' hrest' (by omega)
  rw [h] at hread
  exact Prod.mk.inj (Option.some.inj (hread.symm.trans hread'))

end Json
end PropCatalog
