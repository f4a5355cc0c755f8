import PropCatalog.Text.Utf8
import PropCatalog.Value.Json

/-!
# JSON texts — what can be read off their beginning

The text of a JSON string ends where it says so: no text of a string is the beginning of another
one, and the same holds for the bytes of characters. So the first keys and texts of an indented map
can be read off the beginning of its bytes, whatever follows.

- `Text.isPrefix_of_encode_append` : bytes that begin with the bytes of a text
- `jsonString_append_inj`          : a string and what follows it
- `prettyMap_append_inj`, `prettyEntries_text_append_inj` : the first entry of a map and the next
-/

namespace PropCatalog

/-- Bytes that begin with those of a text are the bytes of a text that begins with it. -/
theorem Text.isPrefix_of_encode_append {cs cs' : List Char} {bytes : List UInt8}
    (h : encode cs ++ bytes = encode cs') : cs <+: cs' := by
  refine List.isPrefix_of_utf8Encode_append_eq_utf8Encode bytes.toByteArray ?_
  simpa [encode, List.utf8Encode] using congrArg List.toByteArray h

namespace Value

/-! ## Characters -/

/-- The characters with a short escape: the mark after the backslash, and what it stands for. -/
def shortEscapes : List (Char × Char) :=
  [('"', '"'), ('\\', '\\'), ('n', '\n'), ('r', '\r'), ('t', '\t'), ('b', Char.ofNat 8),
    ('f', Char.ofNat 12)]

/-- The three forms of a character in a string: itself, a short escape, and a numbered one. -/
theorem jsonChar_cases (c : Char) :
    (jsonChar c = [c] ∧ c ≠ '"' ∧ c ≠ '\\') ∨
    (∃ mark, jsonChar c = ['\\', mark] ∧ (mark, c) ∈ shortEscapes) ∨
    (jsonChar c = '\\' :: 'u' :: Text.hex 4 c.toNat ∧ c.toNat < 32) := by
  have hofNat : ∀ n, c.toNat = n → c = Char.ofNat n := by
    intro n hn
    rw [← hn, Char.ofNat_toNat]
  unfold jsonChar
  simp only [beq_iff_eq]
  -- The cases come in the order in which the escapes are tried.
  by_cases h₁ : c = '"'
  · exact .inr (.inl ⟨'"', by simp [h₁], by simp [h₁, shortEscapes]⟩)
  by_cases h₂ : c = '\\'
  · exact .inr (.inl ⟨'\\', by simp [h₂], by simp [h₂, shortEscapes]⟩)
  by_cases h₃ : c = '\n'
  · exact .inr (.inl ⟨'n', by simp [h₃], by simp [h₃, shortEscapes]⟩)
  by_cases h₄ : c = '\r'
  · exact .inr (.inl ⟨'r', by simp [h₄], by simp [h₄, shortEscapes]⟩)
  by_cases h₅ : c = '\t'
  · exact .inr (.inl ⟨'t', by simp [h₅], by simp [h₅, shortEscapes]⟩)
  rw [if_neg h₁, if_neg h₂, if_neg h₃, if_neg h₄, if_neg h₅]
  by_cases h₆ : c.toNat = 8
  · exact .inr (.inl ⟨'b', by simp [h₆], by simp [hofNat 8 h₆, shortEscapes]⟩)
  by_cases h₇ : c.toNat = 12
  · exact .inr (.inl ⟨'f', by simp [h₇], by simp [hofNat 12 h₇, shortEscapes]⟩)
  rw [if_neg h₆, if_neg h₇]
  by_cases h₈ : c.toNat < 32
  · exact .inr (.inr ⟨by simp [h₈], h₈⟩)
  · exact .inl ⟨by simp [h₈], h₁, h₂⟩

theorem shortEscapes_functional :
    ∀ e ∈ shortEscapes, ∀ e' ∈ shortEscapes, e.1 = e'.1 → e.2 = e'.2 := by
  decide

theorem mark_ne_of_mem_shortEscapes : ∀ e ∈ shortEscapes, e.1 ≠ 'u' := by
  decide

theorem length_hex_control : ∀ n < 32, (Text.hex 4 n).length = 4 := by
  decide

theorem hex_control_inj : ∀ n < 32, ∀ m < 32, Text.hex 4 n = Text.hex 4 m → n = m := by
  decide

/-- The text of a character does not begin like that of another one. -/
theorem jsonChar_append_inj {c c' : Char} {t t' : List Char}
    (h : jsonChar c ++ t = jsonChar c' ++ t') : c = c' ∧ t = t' := by
  rcases jsonChar_cases c with ⟨hc, -, hslash⟩ | ⟨mark, hc, hmark⟩ | ⟨hc, hlt⟩ <;>
    rcases jsonChar_cases c' with ⟨hc', -, hslash'⟩ | ⟨mark', hc', hmark'⟩ | ⟨hc', hlt'⟩ <;>
    rw [hc, hc'] at h
  · simpa using h
  · simp [hslash] at h
  · simp [hslash] at h
  · simp [hslash'.symm] at h
  · -- Two short escapes have the same mark, and a mark stands for one character.
    have hboth : mark = mark' ∧ t = t' := by simpa using h
    exact ⟨shortEscapes_functional _ hmark _ hmark' hboth.1, hboth.2⟩
  · have hboth : mark = 'u' ∧ t = Text.hex 4 c'.toNat ++ t' := by simpa using h
    exact absurd hboth.1 (mark_ne_of_mem_shortEscapes _ hmark)
  · simp [hslash'.symm] at h
  · have hboth : 'u' = mark' ∧ Text.hex 4 c.toNat ++ t = t' := by simpa using h
    exact absurd hboth.1.symm (mark_ne_of_mem_shortEscapes _ hmark')
  · -- Two numbered characters have four digits each, so that what follows begins together.
    have hdigits : Text.hex 4 c.toNat ++ t = Text.hex 4 c'.toNat ++ t' := by simpa using h
    have hlength : (Text.hex 4 c.toNat).length = (Text.hex 4 c'.toNat).length := by
      rw [length_hex_control _ hlt, length_hex_control _ hlt']
    have hboth := List.append_inj hdigits hlength
    have hnat := hex_control_inj _ hlt _ hlt' hboth.1
    exact ⟨Char.toNat_inj.1 hnat, hboth.2⟩

/-- No character of a string looks like the quote at its end. -/
theorem jsonChar_append_ne_quote (c : Char) (t t' : List Char) : jsonChar c ++ t ≠ '"' :: t' := by
  intro h
  rcases jsonChar_cases c with ⟨hc, hquote, -⟩ | ⟨mark, hc, -⟩ | ⟨hc, -⟩
  · simp [hc, hquote] at h
  · simp [hc] at h
  · simp [hc] at h

/-! ## Strings -/

theorem flatMap_jsonChar_inj {cs cs' : List Char} {t t' : List Char}
    (h : cs.flatMap jsonChar ++ '"' :: t = cs'.flatMap jsonChar ++ '"' :: t') :
    cs = cs' ∧ t = t' := by
  -- Both texts are read from the front, until one of them comes to its closing quote.
  induction cs generalizing cs' with
  | nil =>
    cases cs' with
    | nil => simpa using h
    | cons c' cs' =>
      rw [List.flatMap_cons, List.append_assoc] at h
      exact absurd h.symm (jsonChar_append_ne_quote _ _ _)
  | cons c cs ih =>
    cases cs' with
    | nil =>
      rw [List.flatMap_cons, List.append_assoc] at h
      exact absurd h (jsonChar_append_ne_quote _ _ _)
    | cons c' cs' =>
      rw [List.flatMap_cons, List.flatMap_cons, List.append_assoc, List.append_assoc] at h
      have hhead := jsonChar_append_inj h
      have htail := ih hhead.2
      exact ⟨by rw [hhead.1, htail.1], htail.2⟩

/-- The text of a string does not begin like that of another one. -/
theorem jsonString_append_inj {s s' : String} {t t' : List Char}
    (h : jsonString s ++ t = jsonString s' ++ t') : s = s' ∧ t = t' := by
  have hinside : s.toList.flatMap jsonChar ++ '"' :: t =
      s'.toList.flatMap jsonChar ++ '"' :: t' := by
    simpa [jsonString] using h
  have hboth := flatMap_jsonChar_inj hinside
  exact ⟨String.toList_injective hboth.1, hboth.2⟩

/-! ## Maps -/

theorem prettyChars_text (depth : Nat) (s : String) :
    prettyChars depth (.text s) = jsonString s := by
  rw [prettyChars]

/-- What follows the first value of a map. -/
def afterFirst (depth : Nat) (rest : List (String × Value)) : List Char :=
  prettyEntries (depth + 1) rest ++ newLine depth ++ ['\x7d']

/-- The first key of a map can be read off its beginning, and the value comes next. -/
theorem prettyMap_append_inj {depth : Nat} {key key' : String} {value value' : Value}
    {rest rest' : List (String × Value)} {t t' : List Char}
    (h : prettyChars depth (.map ((key, value) :: rest)) ++ t =
      prettyChars depth (.map ((key', value') :: rest')) ++ t') :
    key = key' ∧
      prettyChars (depth + 1) value ++ (afterFirst depth rest ++ t) =
        prettyChars (depth + 1) value' ++ (afterFirst depth rest' ++ t') := by
  have hkeys : jsonString key ++ (": ".toList ++ (prettyChars (depth + 1) value ++
      (afterFirst depth rest ++ t))) =
      jsonString key' ++ (": ".toList ++ (prettyChars (depth + 1) value' ++
        (afterFirst depth rest' ++ t'))) := by
    simpa [prettyChars, afterFirst] using h
  have hboth := jsonString_append_inj hkeys
  exact ⟨hboth.1, List.append_cancel_left hboth.2⟩

/-- A text among the entries of a map can be read off, and the entries after it come next. -/
theorem prettyEntries_text_append_inj {depth : Nat} {key s s' : String}
    {rest rest' : List (String × Value)} {t t' : List Char}
    (h : prettyEntries depth ((key, .text s) :: rest) ++ t =
      prettyEntries depth ((key, .text s') :: rest') ++ t') :
    s = s' ∧ prettyEntries depth rest ++ t = prettyEntries depth rest' ++ t' := by
  have htexts : jsonString s ++ (prettyEntries depth rest ++ t) =
      jsonString s' ++ (prettyEntries depth rest' ++ t') := by
    simpa [prettyEntries, prettyChars] using h
  exact jsonString_append_inj htexts

end Value
end PropCatalog
