import PropCatalog.Proofs.Number.NumeralTexts
import PropCatalog.Proofs.Outline.StringLiterals
import PropCatalog.Usage.Literal

/-!
# Literals — the values that texts denote

The text of an example or a default is trimmed and taken out of its quotes. What is left is a truth
value, a numeral, or a text that stands for itself; markup is left alone. This file says what each
of these steps does and which value is read off a text that is written in one of these ways:

- `Enclosed`, `Unquoted`   : a pair of quotes around a text, and the text without it
- `IsNumeralLine`          : the texts that are read as a numeral
- `contentValue`           : the value of what stands between the quotes
- `written`                : a text between quotes or bare, with blanks around it
- `literals_read_back`     : what is written is read back
-/

namespace PropCatalog

open Text Number

/-! ## Quotes and markup -/

/-- A text with a pair of equal quotes around it. -/
def Enclosed (cs : List Char) : Prop :=
  ∃ q inner, isQuote q = true ∧ cs = q :: (inner ++ [q])

/-- A text, and what is left of it without a pair of equal quotes around it. -/
inductive Unquoted : List Char → List Char → Prop where
  | enclosed {q : Char} {inner : List Char} (hquote : isQuote q = true) :
      Unquoted (q :: (inner ++ [q])) inner
  | bare {cs : List Char} (hbare : ¬ Enclosed cs) : Unquoted cs cs

theorem unquote_enclosed {q : Char} (h : isQuote q = true) (inner : List Char) :
    unquote (q :: (inner ++ [q])) = inner := by
  simp [unquote, h]

theorem unquote_of_not_enclosed {cs : List Char} (h : ¬ Enclosed cs) : unquote cs = cs := by
  cases cs with
  | nil => rfl
  | cons q rest =>
    refine if_neg fun hcond => h ?_
    rw [Bool.and_eq_true, beq_iff_eq] at hcond
    rcases List.getLast?_eq_some_iff.1 hcond.2 with ⟨inner, rfl⟩
    exact ⟨q, inner, hcond.1, rfl⟩

theorem unquoted_iff {cs inner : List Char} : Unquoted cs inner ↔ unquote cs = inner := by
  constructor
  · rintro (hquote | hbare)
    · exact unquote_enclosed hquote inner
    · exact unquote_of_not_enclosed hbare
  · rintro rfl
    by_cases h : Enclosed cs
    · rcases h with ⟨q, inner, hquote, rfl⟩
      rw [unquote_enclosed hquote]
      exact .enclosed hquote
    · rw [unquote_of_not_enclosed h]
      exact .bare h

theorem isMarkup_iff {cs : List Char} :
    isMarkup cs = true ↔ ∃ inner, cs = '<' :: (inner ++ ['>']) := by
  rw [isMarkup, Bool.and_eq_true, startsWith, endsWith, List.isPrefixOf_iff_prefix,
    List.isSuffixOf_iff_suffix]
  constructor
  · rintro ⟨⟨rest, rfl⟩, ⟨inner, hinner⟩⟩
    -- The two brackets are different, so that one stands before the other.
    cases inner with
    | nil => simp at hinner
    | cons c inner =>
      obtain rfl : c = '<' := by simpa using (List.cons.inj hinner).1
      exact ⟨inner, hinner.symm⟩
  · rintro ⟨inner, rfl⟩
    exact ⟨⟨_, rfl⟩, ⟨'<' :: inner, rfl⟩⟩

/-! ## Numerals -/

/-- The texts of numerals, with a line feed after them or without. -/
def IsNumeralLine (cs : List Char) : Prop :=
  ∃ body, IsNumeral body ∧ (cs = body ∨ cs = body ++ ['\n'])

theorem numeralLine?_eq_some_iff {cs : List Char} {n : Numeral} :
    numeralLine? cs = some n ↔
      ∃ body, numeral? body = some n ∧ (cs = body ∨ cs = body ++ ['\n']) := by
  rw [numeralLine?]
  constructor
  · intro h
    split at h
    · rename_i hlast
      rcases List.getLast?_eq_some_iff.1 (by simpa using hlast) with ⟨body, rfl⟩
      exact ⟨body, by simpa using h, .inr rfl⟩
    · exact ⟨cs, h, .inl rfl⟩
  · rintro ⟨body, hbody, rfl | rfl⟩
    · -- No numeral ends with a line feed, so none is taken off.
      have hnumeral : IsNumeral cs := isSome_numeral?_iff.1 (by rw [hbody]; rfl)
      have hlast : ¬ (cs.getLast? == some '\n') = true := fun hlast =>
        feed_not_mem_of_isNumeral hnumeral (List.mem_of_getLast? (by simpa using hlast))
      rw [if_neg hlast, hbody]
    · simpa using hbody

theorem isSome_numeralLine?_iff {cs : List Char} :
    (numeralLine? cs).isSome = true ↔ IsNumeralLine cs := by
  simp only [Option.isSome_iff_exists, numeralLine?_eq_some_iff, IsNumeralLine,
    ← isSome_numeral?_iff]
  constructor
  · rintro ⟨n, body, hn, hcs⟩
    exact ⟨body, ⟨n, hn⟩, hcs⟩
  · rintro ⟨body, ⟨n, hn⟩, hcs⟩
    exact ⟨n, body, hn, hcs⟩

instance (cs : List Char) : Decidable (IsNumeralLine cs) :=
  decidable_of_iff _ isSome_numeralLine?_iff

/-! ## Contents -/

/-- The value of what is left of a literal without its quotes. -/
def contentValue (inner : List Char) : Except LiteralError Value :=
  if inner == "true".toList then .ok (.bool true)
  else if inner == "false".toList then .ok (.bool false)
  else
    match numeralLine? inner with
    | some n => numeralValue n
    | none => .ok (.text (String.ofList inner))

theorem readLiteral_eq (text : String) :
    readLiteral text =
      if isMarkup (trim text.toList) then .ok (.text (String.ofList (trim text.toList)))
      else contentValue (unquote (trim text.toList)) := rfl

/-- The text of a truth value. -/
def boolText (b : Bool) : List Char :=
  if b then "true".toList else "false".toList

/-- The characters of truth values are no blanks, no quotes and no brackets. -/
theorem simple_of_mem_boolText {b : Bool} {c : Char} (h : c ∈ boolText b) :
    isBlank c = false ∧ isQuote c = false ∧ c ≠ '<' := by
  have hall : (boolText b).all (fun c => !isBlank c && !isQuote c && c != '<') = true := by
    cases b <;> decide
  simpa [and_assoc] using List.all_eq_true.1 hall c h

theorem contentValue_boolText (b : Bool) : contentValue (boolText b) = .ok (.bool b) := by
  cases b <;> rfl

theorem contentValue_text {s : String} (htrue : s ≠ "true") (hfalse : s ≠ "false")
    (hnumeral : ¬ IsNumeralLine s.toList) : contentValue s.toList = .ok (.text s) := by
  have hword : ∀ word : String, s ≠ word → (s.toList == word.toList) = false := by
    intro word hne
    rw [beq_eq_false_iff_ne]
    exact fun heq => hne (String.toList_injective heq)
  have hnone : numeralLine? s.toList = none := by
    rw [← Option.not_isSome_iff_eq_none, isSome_numeralLine?_iff]
    exact hnumeral
  rw [contentValue, hword _ htrue, hword _ hfalse, hnone, String.ofList_toList]
  rfl

/-- Neither truth value begins like a numeral. -/
theorem contentValue_of_numeralLine? {inner : List Char} {n : Numeral}
    (h : numeralLine? inner = some n) : contentValue inner = numeralValue n := by
  have hword : ∀ b, (inner == boolText b) = false := by
    intro b
    rw [beq_eq_false_iff_ne]
    rintro rfl
    cases b <;> cases h
  have htrue : (inner == "true".toList) = false := hword true
  have hfalse : (inner == "false".toList) = false := hword false
  rw [contentValue, htrue, hfalse, h]
  rfl

/-- The decimal text of an integer is a sign and the digits of its absolute value. -/
theorem exists_sign_intText (n : Int) :
    ∃ sign, IsSign sign ∧ Value.intText n = sign ++ decimal n.natAbs ∧
      signed (decide (sign = ['-'])) n.natAbs = n := by
  unfold Value.intText signed
  by_cases hneg : n < 0
  · refine ⟨['-'], .inr (.inr rfl), by rw [if_pos hneg]; rfl, ?_⟩
    rw [if_pos (by decide)]
    omega
  · refine ⟨[], .inl rfl, by rw [if_neg hneg]; rfl, ?_⟩
    rw [if_neg (by decide)]
    omega

theorem contentValue_intText {n : Int} (h : (decimal n.natAbs).length ≤ digitLimit) :
    contentValue (Value.intText n) = .ok (.int n) := by
  rcases exists_sign_intText n with ⟨sign, hsign, htext, hsigned⟩
  -- The digits are ASCII ones, which are digits like those of other scripts.
  have hread := numeral?_integer_iff.2 ⟨sign, decimal n.natAbs, hsign,
    digits_of_allDigits (allDigits_decimal _), decimal_ne_nil _, rfl, rfl⟩
  rw [← htext] at hread
  rw [contentValue_of_numeralLine? (numeralLine?_eq_some_iff.2 ⟨_, hread.1, .inl rfl⟩),
    numeralValue, if_pos hread.2, if_pos h, valueOf_decimal, hsigned]

/-! ## Written literals -/

/-- A text between quotes or bare, with blanks around it. -/
def written (before quotes core after : List Char) : String :=
  String.ofList (before ++ (quotes ++ (core ++ quotes) ++ after))

/-- A quote, or none. -/
def IsQuotes (quotes : List Char) : Prop :=
  quotes = [] ∨ ∃ q, isQuote q = true ∧ quotes = [q]

section Padding

variable {before after : List Char} (hbefore : Blanks before) (hafter : Blanks after)

include hbefore hafter

theorem trim_written {quotes core : List Char}
    (htrim : trim (quotes ++ (core ++ quotes)) = quotes ++ (core ++ quotes)) :
    trim (written before quotes core after).toList = quotes ++ (core ++ quotes) := by
  rw [written, String.toList_ofList, trim_blanks_append hbefore, trim_append_blanks _ hafter, htrim]

theorem readLiteral_quoted {q : Char} (hquote : isQuote q = true) (core : List Char) :
    readLiteral (written before [q] core after) = contentValue core := by
  -- Between quotes nothing is trimmed, and what begins with a quote is no markup.
  have hends : trim ([q] ++ (core ++ [q])) = [q] ++ (core ++ [q]) := by
    refine (dropEnds_eq_self_iff _ _).2 ⟨fun c hc => ?_, fun c hc => ?_⟩
    · cases hc
      exact isBlank_of_isQuote hquote
    · rw [← List.append_assoc, List.getLast?_concat] at hc
      cases hc
      exact isBlank_of_isQuote hquote
  have hmarkup : isMarkup ([q] ++ (core ++ [q])) = false := by
    rw [Bool.eq_false_iff]
    intro hmarkup
    rcases isMarkup_iff.1 hmarkup with ⟨inner, hinner⟩
    rw [(List.cons.inj hinner).1] at hquote
    exact absurd hquote (by decide)
  rw [readLiteral_eq, trim_written hbefore hafter hends, hmarkup]
  exact congrArg contentValue (unquote_enclosed hquote core)

theorem readLiteral_bare {core : List Char} (htrim : trim core = core)
    (hbare : ¬ Enclosed core) :
    readLiteral (written before [] core after) =
      if isMarkup core then .ok (.text (String.ofList core)) else contentValue core := by
  have hcore : [] ++ (core ++ []) = core := by simp
  have htext : trim (written before [] core after).toList = [] ++ (core ++ []) :=
    trim_written hbefore hafter (by rw [hcore, htrim])
  rw [hcore] at htext
  rw [readLiteral_eq, htext, unquote_of_not_enclosed hbare]

/-- A text without blanks that begins neither with a quote nor with a bracket may be quoted or
not. -/
theorem readLiteral_simple {quotes core : List Char} (hquotes : IsQuotes quotes)
    (hblank : ∀ c ∈ core, isBlank c = false)
    (hfirst : ∀ c ∈ core.head?, isQuote c = false ∧ c ≠ '<') :
    readLiteral (written before quotes core after) = contentValue core := by
  rcases hquotes with rfl | ⟨q, hquote, rfl⟩
  · have htrim : trim core = core := (dropEnds_eq_self_iff _ _).2
      ⟨fun c hc => hblank c (List.mem_of_head? hc), fun c hc => hblank c (List.mem_of_getLast? hc)⟩
    have hbare : ¬ Enclosed core := by
      rintro ⟨q, inner, hquote, rfl⟩
      rw [(hfirst q rfl).1] at hquote
      cases hquote
    have hmarkup : isMarkup core = false := by
      rw [Bool.eq_false_iff]
      intro hmarkup
      rcases isMarkup_iff.1 hmarkup with ⟨inner, rfl⟩
      exact (hfirst '<' rfl).2 rfl
    rw [readLiteral_bare hbefore hafter htrim hbare, hmarkup]
    rfl
  · exact readLiteral_quoted hbefore hafter hquote core

end Padding

/-- The characters of an integer are no blanks, no quotes and no brackets. -/
theorem simple_of_mem_intText {n : Int} {c : Char} (h : c ∈ Value.intText n) :
    isBlank c = false ∧ isQuote c = false ∧ c ≠ '<' := by
  have hcases : c = '-' ∨ c.isDigit = true := by
    have hdigits := allDigits_decimal n.natAbs
    unfold Value.intText at h
    split at h
    · exact (List.mem_cons.1 h).imp id (hdigits c)
    · exact .inr (hdigits c h)
  rcases hcases with rfl | hdigit
  · decide
  · have hrange : 48 ≤ c.toNat ∧ c.toNat ≤ 57 := by
      simpa [Char.isDigit, UInt32.le_iff_toNat_le] using hdigit
    refine ⟨?_, ?_, ?_⟩
    · simp only [isBlank, Bool.or_eq_false_iff, Bool.and_eq_false_iff, decide_eq_false_iff_not,
        beq_eq_false_iff_ne]
      omega
    · rw [Bool.eq_false_iff]
      intro hquote
      simp only [isQuote, Bool.or_eq_true, beq_iff_eq] at hquote
      rcases hquote with (rfl | rfl) | hquote
      · exact absurd hdigit (by decide)
      · exact absurd hdigit (by decide)
      · omega
    · rintro rfl
      exact absurd hdigit (by decide)

/-- What a literal is read as, for any blanks around it. Integers that are not too long and truth
values are read back, quoted or not. A text between quotes is kept as it is, unless it is itself a
truth value or a numeral; and so is a bare text that has no blanks at its ends and no pair of quotes
around it. -/
theorem literals_read_back {before after : List Char} (hbefore : Blanks before)
    (hafter : Blanks after) :
    (∀ quotes, IsQuotes quotes → ∀ n : Int, (decimal n.natAbs).length ≤ 4300 →
      readLiteral (written before quotes (Value.intText n) after) = .ok (.int n)) ∧
    (∀ quotes, IsQuotes quotes → ∀ b,
      readLiteral (written before quotes (boolText b) after) = .ok (.bool b)) ∧
    (∀ q, isQuote q = true → ∀ s : String, s ≠ "true" → s ≠ "false" →
      ¬ IsNumeralLine s.toList →
      readLiteral (written before [q] s.toList after) = .ok (.text s)) ∧
    (∀ s : String, trim s.toList = s.toList → ¬ Enclosed s.toList → s ≠ "true" → s ≠ "false" →
      ¬ IsNumeralLine s.toList →
      readLiteral (written before [] s.toList after) = .ok (.text s)) := by
  refine ⟨?_, ?_, ?_, ?_⟩
  · intro quotes hquotes n hlength
    rw [readLiteral_simple hbefore hafter hquotes, contentValue_intText hlength]
    · exact fun c hc => (simple_of_mem_intText hc).1
    · exact fun c hc => (simple_of_mem_intText (List.mem_of_head? hc)).2
  · intro quotes hquotes b
    rw [readLiteral_simple hbefore hafter hquotes, contentValue_boolText]
    · exact fun c hc => (simple_of_mem_boolText hc).1
    · exact fun c hc => (simple_of_mem_boolText (List.mem_of_head? hc)).2
  · intro q hquote s htrue hfalse hnumeral
    rw [readLiteral_quoted hbefore hafter hquote, contentValue_text htrue hfalse hnumeral]
  · intro s htrim hbare htrue hfalse hnumeral
    rw [readLiteral_bare hbefore hafter htrim hbare, contentValue_text htrue hfalse hnumeral,
      String.ofList_toList, ite_self]

theorem literals_read_back_padded :
    let padded (quotes core : String) : String :=
      written " \n".toList quotes.toList core.toList "\t".toList
    Blanks " \n".toList ∧ Blanks "\t".toList ∧
      readLiteral (padded "'" "-42") = .ok (.int (-42)) ∧
      readLiteral (padded "" "false") = .ok (.bool false) ∧
      readLiteral (padded "'" " it\"s ") = .ok (.text " it\"s ") ∧
      readLiteral (padded "" "<b>'1'</b>") = .ok (.text "<b>'1'</b>") := by
  have hbefore : Blanks " \n".toList := List.all_eq_true.1 (by decide)
  have hafter : Blanks "\t".toList := List.all_eq_true.1 (by decide)
  have hint : Value.intText (-42) = "-42".toList := by decide
  have hbare : ¬ Enclosed "<b>'1'</b>".toList := by
    rintro ⟨q, inner, hquote, heq⟩
    rw [← (List.cons.inj heq).1] at hquote
    exact absurd hquote (by decide)
  rcases literals_read_back hbefore hafter with ⟨hinteger, hbool, hquoted, htext⟩
  refine ⟨hbefore, hafter, ?_, ?_, ?_, ?_⟩
  · have hread := hinteger ['\''] (.inr ⟨'\'', rfl, rfl⟩) (-42) (by decide)
    rwa [hint] at hread
  · exact hbool _ (.inl rfl) false
  · exact hquoted '\'' rfl " it\"s " (by decide) (by decide) (by decide)
  · exact htext "<b>'1'</b>" (by decide) hbare (by decide) (by decide) (by decide)

end PropCatalog
