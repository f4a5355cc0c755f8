import Mathlib.Data.List.Basic
import PropCatalog.Proofs.Number.Numeral
import PropCatalog.Proofs.Value.Grammar

/-!
# Reading JSON — the reader finds what a text denotes

The grammar says which values a text may denote; the reader goes through the text once and never
looks back. It finds every value that the grammar allows, so a text denotes one value at most.

- `Ends`, `Stops`     : what may follow a value
- `Content.Found`     : a text is read as what it denotes, whatever follows
- `found_of_denotes`  : by induction on the grammar, one lemma for each production
- `decode_of_denotes` : whole texts
-/

namespace PropCatalog
namespace Json

/-! ## What may follow a value -/

/-- After a value the text ends, or there is a blank, a comma or a closing bracket. -/
def Ends (rest : List Char) : Prop :=
  ∀ c, rest.head? = some c → isBlank c = true ∨ c = ',' ∨ c = ']' ∨ c = '\x7d'

/-- The same without blanks. -/
def Stops (rest : List Char) : Prop :=
  ∀ c, rest.head? = some c → c = ',' ∨ c = ']' ∨ c = '\x7d'

theorem skip_blanks {w rest : List Char} (hw : Blanks w) (hrest : Stops rest) :
    skip (w ++ rest) = rest := by
  have hnone : rest.dropWhile isBlank = rest := by
    cases rest with
    | nil => rfl
    | cons c rest =>
      rcases hrest c rfl with rfl | rfl | rfl <;> rfl
  rw [skip, List.dropWhile_append_of_pos hw, hnone]

theorem ends_blanks {w rest : List Char} (hw : Blanks w) (hrest : Stops rest) :
    Ends (w ++ rest) := by
  intro c hc
  cases w with
  | nil => exact Or.inr (hrest c hc)
  | cons c' w =>
    cases hc
    exact Or.inl (hw c List.mem_cons_self)

/-- A text that begins with a character that is no blank. -/
theorem skip_append_cons {w cs : List Char} {c : Char} (hw : Blanks w) (hc : isBlank c = false) :
    skip (w ++ c :: cs) = c :: cs := by
  rw [skip, List.dropWhile_append_of_pos hw, List.dropWhile_cons_of_neg (by simp [hc])]

/-! ## Numbers, words and strings are found -/

theorem not_isNumberChar_of_ends {c : Char} {rest : List Char} (h : Ends (c :: rest)) :
    isNumberChar c = false := by
  rcases h c rfl with hblank | rfl | rfl | rfl
  · simp only [isBlank, Bool.or_eq_true, beq_iff_eq] at hblank
    rcases hblank with ((rfl | rfl) | rfl) | rfl <;> decide
  · decide
  · decide
  · decide

theorem all_isNumberChar_of_number? {cs : List Char} {v : Value} (h : number? cs = some v) :
    cs.all isNumberChar = true ∧ cs ≠ [] := by
  unfold number? at h
  split at h
  · rename_i hall
    refine ⟨(Bool.and_eq_true_iff.1 hall).1, ?_⟩
    rintro rfl
    cases h
  · cases h

theorem leadingNumber?_append {cs rest : List Char} {v : Value} (h : number? cs = some v)
    (hrest : Ends rest) : leadingNumber? (cs ++ rest) = some (v, rest) := by
  have hall : ∀ c ∈ cs, isNumberChar c = true :=
    List.all_eq_true.1 (all_isNumberChar_of_number? h).1
  have hstop : rest.takeWhile isNumberChar = [] ∧ rest.dropWhile isNumberChar = rest := by
    cases rest with
    | nil => exact ⟨rfl, rfl⟩
    | cons c rest =>
      have hc := not_isNumberChar_of_ends hrest
      exact ⟨List.takeWhile_cons_of_neg (by simp [hc]), List.dropWhile_cons_of_neg (by simp [hc])⟩
  rw [leadingNumber?, List.takeWhile_append_of_pos hall, List.dropWhile_append_of_pos hall, hstop.1,
    hstop.2, List.append_nil, h]
  rfl

theorem word?_append {cs : List Char} {v : Value} (h : (cs, v) ∈ words) (rest : List Char) :
    word? (cs ++ rest) = some (v, rest) := by
  simp only [words, List.mem_cons, Prod.mk.injEq, List.not_mem_nil, or_false] at h
  rcases h with ⟨rfl, rfl⟩ | ⟨rfl, rfl⟩ | ⟨rfl, rfl⟩ <;> rfl

theorem lookup_escapes : ∀ e ∈ escapes, escapes.lookup e.1 = some e.2 := by
  decide

theorem mark_ne_of_mem_escapes : ∀ e ∈ escapes, e.1 ≠ 'u' := by
  decide

theorem units?_append {body : List Char} {units : List Nat} (h : CodeUnits body units)
    (rest : List Char) : units? (body ++ '"' :: rest) = some (units, rest) := by
  induction h with
  | nil => rfl
  | @cons cs cs' n units hunit _ ih =>
    rw [List.append_assoc]
    cases hunit with
    | @plain c hc hquote hslash =>
      rw [List.singleton_append, units?, ih]
      · simp [hc, hslash]
      · exact hquote
      · exact fun _ _ _ _ _ heq => absurd heq hslash
      · exact fun _ _ heq => absurd heq hslash
    | @short mark c hmark =>
      have hmarkNe : mark ≠ 'u' := mark_ne_of_mem_escapes _ hmark
      rw [List.cons_append, List.singleton_append, units?, ih, lookup_escapes _ hmark]
      exact fun _ _ _ _ _ heq => absurd heq hmarkNe
    | @numbered digits _ hdigits =>
      have hlength : digits.length = 4 := by
        by_contra hne
        rw [hexValue?, if_neg hne] at hdigits
        cases hdigits
      rcases digits with _ | ⟨a, _ | ⟨b, _ | ⟨c, _ | ⟨d, _ | ⟨_, _⟩⟩⟩⟩⟩ <;> simp at hlength
      rw [List.cons_append, List.cons_append]
      simp only [List.cons_append, List.nil_append, units?, hdigits, ih]

theorem string?_append {cs : List Char} {s : String} (h : IsString cs s) (rest : List Char) :
    string? (cs ++ rest) = some (s, rest) := by
  rcases h with ⟨body, units, rfl, hunits, rfl⟩
  have htext : '"' :: (body ++ ['"']) ++ rest = '"' :: (body ++ '"' :: rest) := by simp
  rw [htext, string?, units?_append hunits]
  rfl

/-! ## First characters -/

/-- How a value can begin. -/
def startsValue (c : Char) : Bool :=
  c == '"' || c == '[' || c == '\x7b' || c == 'n' || c == 't' || c == 'f' || c == '-' || c.isDigit

theorem exists_cons_of_string {cs : List Char} {s : String} (h : IsString cs s) :
    ∃ body, cs = '"' :: body := by
  rcases h with ⟨body, units, rfl, -⟩
  exact ⟨_, rfl⟩

/-- What a number consists of. -/
theorem number?_eq_some_iff {cs : List Char} {v : Value} :
    number? cs = some v ↔
      cs.all isNumberChar = true ∧ cs.head? ≠ some '+' ∧
        ∃ n, Number.numeral? cs = some n ∧ isStrict n = true ∧
          v = if n.isInteger then .int (Number.signed n.negative (Number.valueOf n.whole))
            else .float n.toDouble := by
  unfold number?
  simp only [Bool.and_eq_true, bne_iff_ne]
  by_cases hchars : cs.all isNumberChar = true ∧ cs.head? ≠ some '+'
  · rw [if_pos hchars]
    simp only [hchars.1, hchars.2, ne_eq, not_false_eq_true, true_and]
    cases Number.numeral? cs with
    | none =>
      constructor
      · intro h
        cases h
      · intro hcase
        rcases hcase with ⟨n, hn, -⟩
        cases hn
    | some n =>
      simp only [Option.some.injEq, exists_eq_left']
      by_cases hstrict : isStrict n = true
      · rw [if_pos hstrict, Option.some.injEq, eq_comm, and_iff_right hstrict]
      · rw [if_neg hstrict]
        constructor
        · intro h
          cases h
        · exact fun hcase => absurd hcase.1 hstrict
  · rw [if_neg hchars]
    constructor
    · intro h
      cases h
    · exact fun hcase => absurd ⟨hcase.1, hcase.2.1⟩ hchars

/-- A number begins with a digit or a minus sign. -/
theorem exists_cons_of_number? {cs : List Char} {v : Value} (h : number? cs = some v) :
    ∃ c rest, cs = c :: rest ∧ (c = '-' ∨ c.isDigit = true) := by
  rcases number?_eq_some_iff.1 h with ⟨hall, hplus, n, hn, hstrict, -⟩
  cases cs with
  | nil => cases h
  | cons c rest =>
    refine ⟨c, rest, rfl, ?_⟩
    by_cases hminus : c = '-'
    · exact Or.inl hminus
    · right
      have hplus : c ≠ '+' := by simpa using hplus
      have hsign : Number.splitSign (c :: rest) = (false, c :: rest) := by
        unfold Number.splitSign
        split <;> simp_all
      -- Some digit stands before the point, and it is the first character.
      have hdigit : Text.isDecimalDigit c = true := by
        by_contra hnone
        have hwhole := Number.whole_of_numeral? hn
        rw [hsign, Number.splitDigits, List.takeWhile_cons_of_neg hnone] at hwhole
        simp [isStrict, hwhole] at hstrict
      have hchar : isNumberChar c = true := (List.all_eq_true.1 hall) c List.mem_cons_self
      simp only [isNumberChar, Bool.or_eq_true, beq_iff_eq] at hchar
      rcases hchar with ((((hchar | rfl) | rfl) | rfl) | rfl) | rfl
      · exact hchar
      · exact absurd rfl hminus
      · exact absurd rfl hplus
      · exact absurd hdigit (by decide)
      · exact absurd hdigit (by decide)
      · exact absurd hdigit (by decide)

theorem exists_cons_of_denotes {cs : List Char} {v : Value} (h : Denotes cs (.value v)) :
    ∃ c rest, cs = c :: rest ∧ startsValue c = true := by
  cases h with
  | word h =>
    simp only [words, List.mem_cons, Prod.mk.injEq, List.not_mem_nil, or_false] at h
    rcases h with ⟨rfl, -⟩ | ⟨rfl, -⟩ | ⟨rfl, -⟩ <;> exact ⟨_, _, rfl, rfl⟩
  | number h =>
    rcases exists_cons_of_number? h with ⟨c, rest, rfl, hc⟩
    refine ⟨c, rest, rfl, ?_⟩
    rcases hc with rfl | hc
    · rfl
    · simp [startsValue, hc]
  | string h =>
    rcases exists_cons_of_string h with ⟨body, rfl⟩
    exact ⟨_, _, rfl, rfl⟩
  | emptyList => exact ⟨_, _, rfl, rfl⟩
  | list => exact ⟨_, _, rfl, rfl⟩
  | emptyMap => exact ⟨_, _, rfl, rfl⟩
  | map => exact ⟨_, _, rfl, rfl⟩

theorem ne_of_startsValue {c : Char} (h : startsValue c = true) :
    isBlank c = false ∧ c ≠ ']' ∧ c ≠ '\x7d' := by
  refine ⟨?_, ?_, ?_⟩
  · rw [Bool.eq_false_iff]
    intro hblank
    simp only [isBlank, Bool.or_eq_true, beq_iff_eq] at hblank
    rcases hblank with ((rfl | rfl) | rfl) | rfl <;> exact absurd h (by decide)
  · rintro rfl
    exact absurd h (by decide)
  · rintro rfl
    exact absurd h (by decide)

/-! ## Values are found -/

theorem value?_string {cs : List Char} {s : String} (h : IsString cs s) (fuel : Nat)
    (rest : List Char) : value? (fuel + 1) (cs ++ rest) = some (.text s, rest) := by
  have hread := string?_append h rest
  rcases exists_cons_of_string h with ⟨body, rfl⟩
  rw [List.cons_append] at hread ⊢
  rw [value?, hread]
  rfl

/-- What is neither a string nor in brackets is a word or a number. -/
theorem value?_bare {c : Char} (h : c ≠ '"' ∧ c ≠ '[' ∧ c ≠ '\x7b') (fuel : Nat) (cs : List Char) :
    value? (fuel + 1) (c :: cs) = (word? (c :: cs)).or (leadingNumber? (c :: cs)) := by
  rw [value?]
  · exact fun _ heq => h.1 (List.cons.inj heq).1
  · exact fun _ heq => h.2.1 (List.cons.inj heq).1
  · exact fun _ heq => h.2.2 (List.cons.inj heq).1

theorem value?_word {cs : List Char} {v : Value} (h : (cs, v) ∈ words) (fuel : Nat)
    (rest : List Char) : value? (fuel + 1) (cs ++ rest) = some (v, rest) := by
  have hread := word?_append h rest
  have hbare : ∃ c cs', cs = c :: cs' ∧ c ≠ '"' ∧ c ≠ '[' ∧ c ≠ '\x7b' := by
    simp only [words, List.mem_cons, Prod.mk.injEq, List.not_mem_nil, or_false] at h
    rcases h with ⟨rfl, -⟩ | ⟨rfl, -⟩ | ⟨rfl, -⟩ <;> exact ⟨_, _, rfl, by decide⟩
  rcases hbare with ⟨c, cs', rfl, hc⟩
  rw [List.cons_append] at hread ⊢
  rw [value?_bare hc, hread]
  rfl

theorem value?_number {cs : List Char} {v : Value} (h : number? cs = some v) (fuel : Nat)
    {rest : List Char} (hrest : Ends rest) : value? (fuel + 1) (cs ++ rest) = some (v, rest) := by
  have hread := leadingNumber?_append h hrest
  rcases exists_cons_of_number? h with ⟨c, cs', rfl, hc⟩
  rw [List.cons_append] at hread ⊢
  have hbare : c ≠ '"' ∧ c ≠ '[' ∧ c ≠ '\x7b' ∧ c ≠ 'n' ∧ c ≠ 't' ∧ c ≠ 'f' := by
    rcases hc with rfl | hc
    · decide
    · refine ⟨?_, ?_, ?_, ?_, ?_, ?_⟩ <;> rintro rfl <;> exact absurd hc (by decide)
  have hword : word? (c :: (cs' ++ rest)) = none := by
    simp [word?, words, Text.stripPrefix?, Text.startsWith, hbare.2.2.2.1.symm,
      hbare.2.2.2.2.1.symm, hbare.2.2.2.2.2.symm]
  rw [value?_bare ⟨hbare.1, hbare.2.1, hbare.2.2.1⟩, hword, Option.none_or, hread]

/-- Whatever a text denotes, blanks and the beginning of a value come first. -/
theorem exists_start_of_denotes {cs : List Char} {content : Content} (h : Denotes cs content) :
    ∃ w c rest, cs = w ++ c :: rest ∧ Blanks w ∧ startsValue c = true := by
  have hvalue : ∀ {cs : List Char} {v : Value}, Denotes cs (.value v) →
      ∃ w c rest, cs = w ++ c :: rest ∧ Blanks w ∧ startsValue c = true := by
    intro cs v hv
    rcases exists_cons_of_denotes hv with ⟨c, rest, rfl, hc⟩
    exact ⟨[], c, rest, rfl, fun _ hmem => absurd hmem List.not_mem_nil, hc⟩
  induction h with
  | word h => exact hvalue (.word h)
  | number h => exact hvalue (.number h)
  | string h => exact hvalue (.string h)
  | emptyList h => exact hvalue (.emptyList h)
  | list h => exact hvalue (.list h)
  | emptyMap h => exact hvalue (.emptyMap h)
  | map h => exact hvalue (.map h)
  | @element w cs w' v hw hv hw' _ =>
    rcases exists_cons_of_denotes hv with ⟨c, rest, rfl, hc⟩
    exact ⟨w, c, rest ++ w', rfl, hw, hc⟩
  | item _ ih => exact ih
  | items _ _ ih _ =>
    rcases ih with ⟨w, c, rest, rfl, hw, hc⟩
    exact ⟨w, c, _, by rw [List.append_assoc, List.cons_append], hw, hc⟩
  | @member w cs w' ds key v hw hkey hw' _ _ =>
    rcases exists_cons_of_string hkey with ⟨body, rfl⟩
    exact ⟨w, '"', _, by rw [List.cons_append], hw, rfl⟩
  | entry _ ih => exact ih
  | entries _ _ ih _ =>
    rcases ih with ⟨w, c, rest, rfl, hw, hc⟩
    exact ⟨w, c, _, by rw [List.append_assoc, List.cons_append], hw, hc⟩

/-- Between brackets there is no closing bracket in front of what a text denotes. -/
theorem exists_skip_of_denotes {cs : List Char} {content : Content} (h : Denotes cs content)
    (rest : List Char) :
    ∃ c more, skip (cs ++ rest) = c :: more ∧ c ≠ ']' ∧ c ≠ '\x7d' := by
  rcases exists_start_of_denotes h with ⟨w, c, more, rfl, hw, hc⟩
  rcases ne_of_startsValue hc with ⟨hblank, hne⟩
  refine ⟨c, more ++ rest, ?_, hne⟩
  rw [List.append_assoc, List.cons_append, skip_append_cons hw hblank]

/-- A text is read as what it denotes, whatever follows it. -/
def Content.Found (cs : List Char) : Content → Prop
  | .value v => ∀ fuel rest, Ends rest → cs.length < fuel →
      value? fuel (cs ++ rest) = some (v, rest)
  | .element v => ∀ fuel rest, Stops rest → cs.length < fuel →
      element? (value? fuel) (cs ++ rest) = some (v, rest)
  | .items vs => ∀ fuel rest, Stops rest → rest.head? ≠ some ',' → cs.length + 1 < fuel →
      items? fuel (cs ++ rest) = some (vs, rest)
  | .entry key v => ∀ fuel rest, Stops rest → cs.length < fuel →
      member? (value? fuel) (cs ++ rest) = some ((key, v), rest)
  | .entries es => ∀ fuel rest, Stops rest → rest.head? ≠ some ',' → cs.length + 1 < fuel →
      entries? fuel (cs ++ rest) = some (es, rest)

theorem found_element {w cs w' : List Char} {v : Value} (hw : Blanks w)
    (hv : Denotes cs (.value v)) (hw' : Blanks w') (hfound : (Content.value v).Found cs) :
    (Content.element v).Found (w ++ (cs ++ w')) := by
  intro fuel rest hrest hfuel
  have hvalue := hfound fuel (w' ++ rest) (ends_blanks hw' hrest) (by simp at hfuel; omega)
  rcases exists_cons_of_denotes hv with ⟨c, more, rfl, hc⟩
  have htext : w ++ (c :: more ++ w') ++ rest = w ++ c :: (more ++ (w' ++ rest)) := by simp
  rw [element?, htext, skip_append_cons hw (ne_of_startsValue hc).1]
  rw [List.cons_append] at hvalue
  rw [hvalue]
  simp [skip_blanks hw' hrest]

theorem found_items {cs ds : List Char} {v : Value} {vs : List Value}
    (hv : (Content.element v).Found cs) (hvs : (Content.items vs).Found ds) :
    (Content.items (v :: vs)).Found (cs ++ ',' :: ds) := by
  intro fuel rest hrest hcomma hfuel
  rw [List.length_append, List.length_cons] at hfuel
  cases fuel with
  | zero => omega
  | succ fuel =>
    have helement := hv fuel (',' :: (ds ++ rest)) (by intro c hc; cases hc; exact Or.inl rfl)
      (by omega)
    rw [List.append_assoc, List.cons_append, items?, helement]
    simp only
    rw [hvs fuel rest hrest hcomma (by omega)]
    rfl

theorem found_entries {cs ds : List Char} {key : String} {v : Value} {es : List (String × Value)}
    (he : (Content.entry key v).Found cs) (hes : (Content.entries es).Found ds) :
    (Content.entries ((key, v) :: es)).Found (cs ++ ',' :: ds) := by
  intro fuel rest hrest hcomma hfuel
  rw [List.length_append, List.length_cons] at hfuel
  cases fuel with
  | zero => omega
  | succ fuel =>
    have hentry := he fuel (',' :: (ds ++ rest)) (by intro c hc; cases hc; exact Or.inl rfl)
      (by omega)
    rw [List.append_assoc, List.cons_append, entries?, hentry]
    simp only
    rw [hes fuel rest hrest hcomma (by omega)]
    rfl

/-- The last one of several items: no comma follows. -/
theorem found_item {cs : List Char} {v : Value} (hv : (Content.element v).Found cs) :
    (Content.items [v]).Found cs := by
  intro fuel rest hrest hcomma hfuel
  cases fuel with
  | zero => omega
  | succ fuel =>
    rw [items?, hv fuel rest hrest (by omega)]
    split
    · rename_i heq
      cases heq
      exact absurd rfl hcomma
    · rename_i heq
      cases heq
      rfl
    · rename_i heq
      cases heq

theorem found_entry {cs : List Char} {key : String} {v : Value}
    (he : (Content.entry key v).Found cs) : (Content.entries [(key, v)]).Found cs := by
  intro fuel rest hrest hcomma hfuel
  cases fuel with
  | zero => omega
  | succ fuel =>
    rw [entries?, he fuel rest hrest (by omega)]
    split
    · rename_i heq
      cases heq
      exact absurd rfl hcomma
    · rename_i heq
      cases heq
      rfl
    · rename_i heq
      cases heq

theorem found_member {w cs w' ds : List Char} {key : String} {v : Value} (hw : Blanks w)
    (hkey : IsString cs key) (hw' : Blanks w') (hv : (Content.element v).Found ds) :
    (Content.entry key v).Found (w ++ (cs ++ (w' ++ ':' :: ds))) := by
  intro fuel rest hrest hfuel
  simp only [List.length_append, List.length_cons] at hfuel
  have helement := hv fuel rest hrest (by omega)
  have hstring := string?_append hkey (w' ++ ':' :: (ds ++ rest))
  rcases exists_cons_of_string hkey with ⟨body, rfl⟩
  have htext : w ++ ('"' :: body ++ (w' ++ ':' :: ds)) ++ rest =
      w ++ '"' :: (body ++ (w' ++ ':' :: (ds ++ rest))) := by simp
  rw [List.cons_append] at hstring
  rw [member?, htext, skip_append_cons hw (by decide), hstring]
  simp only
  rw [skip_append_cons hw' (by decide)]
  simp only
  rw [helement]
  rfl

theorem found_list {cs : List Char} {vs : List Value} (h : Denotes cs (.items vs))
    (hfound : (Content.items vs).Found cs) :
    (Content.value (.list vs)).Found ('[' :: (cs ++ [']'])) := by
  intro fuel rest _ hfuel
  simp only [List.length_append, List.length_cons, List.length_nil] at hfuel
  cases fuel with
  | zero => omega
  | succ fuel =>
    have htext : '[' :: (cs ++ [']']) ++ rest = '[' :: (cs ++ ']' :: rest) := by simp
    have hitems := hfound fuel (']' :: rest) (by intro c hc; cases hc; exact Or.inr (Or.inl rfl))
      (by simp) (by omega)
    rcases exists_skip_of_denotes h (']' :: rest) with ⟨c, more, hskip, hc, -⟩
    rw [htext, value?, hskip, hitems]
    split
    · rename_i heq
      exact absurd (List.cons.inj heq).1 hc
    · rfl

theorem found_map {cs : List Char} {es : List (String × Value)} (h : Denotes cs (.entries es))
    (hfound : (Content.entries es).Found cs) :
    (Content.value (.map (Assoc.ofList es))).Found ('\x7b' :: (cs ++ ['\x7d'])) := by
  intro fuel rest _ hfuel
  simp only [List.length_append, List.length_cons, List.length_nil] at hfuel
  cases fuel with
  | zero => omega
  | succ fuel =>
    have htext : '\x7b' :: (cs ++ ['\x7d']) ++ rest = '\x7b' :: (cs ++ '\x7d' :: rest) := by simp
    have hentries := hfound fuel ('\x7d' :: rest)
      (by intro c hc; cases hc; exact Or.inr (Or.inr rfl)) (by simp) (by omega)
    rcases exists_skip_of_denotes h ('\x7d' :: rest) with ⟨c, more, hskip, -, hc⟩
    rw [htext, value?, hskip, hentries]
    split
    · rename_i heq
      exact absurd (List.cons.inj heq).1 hc
    · rfl

/-- Everything that a text denotes is found. -/
theorem found_of_denotes {cs : List Char} {content : Content} (h : Denotes cs content) :
    content.Found cs := by
  induction h with
  | word h =>
    intro fuel rest _ hfuel
    cases fuel with
    | zero => omega
    | succ fuel => exact value?_word h fuel rest
  | number h =>
    intro fuel rest hrest hfuel
    cases fuel with
    | zero => omega
    | succ fuel => exact value?_number h fuel hrest
  | string h =>
    intro fuel rest _ hfuel
    cases fuel with
    | zero => omega
    | succ fuel => exact value?_string h fuel rest
  | @emptyList w hw =>
    intro fuel rest _ hfuel
    cases fuel with
    | zero => omega
    | succ fuel =>
      have htext : '[' :: (w ++ [']']) ++ rest = '[' :: (w ++ ']' :: rest) := by simp
      rw [htext, value?, skip_append_cons hw (by decide)]
      rfl
  | list h ih => exact found_list h ih
  | @emptyMap w hw =>
    intro fuel rest _ hfuel
    cases fuel with
    | zero => omega
    | succ fuel =>
      have htext : '\x7b' :: (w ++ ['\x7d']) ++ rest = '\x7b' :: (w ++ '\x7d' :: rest) := by simp
      rw [htext, value?, skip_append_cons hw (by decide)]
      rfl
  | map h ih => exact found_map h ih
  | element hw hv hw' ih => exact found_element hw hv hw' ih
  | item _ ih => exact found_item ih
  | items _ _ ih ih' => exact found_items ih ih'
  | member hw hkey hw' _ ih => exact found_member hw hkey hw' ih
  | entry _ ih => exact found_entry ih
  | entries _ _ ih ih' => exact found_entries ih ih'

end Json
end PropCatalog
