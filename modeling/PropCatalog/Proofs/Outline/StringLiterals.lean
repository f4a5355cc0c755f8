import Mathlib.Data.List.ReduceOption
import PropCatalog.Proofs.Outline.Grouping
import PropCatalog.Proofs.Text.Lines
import PropCatalog.Proofs.Text.Runs

/-!
# String literals — what is read from between the quotes

The value of a literal in a union is read off its text. The blanks in it have been squeezed before,
and all quote characters at either end are dropped, not only the pair that delimits the literal.

- `spaced`, `squeeze_between` : what squeezing makes of a text between two other characters
- `decoded`, `KeptText`       : the value of a literal by its content, and the contents it keeps
- `decoded_eq_iff`            : a value is the content of its literal exactly if that is kept
- `string_literals_decoded`   : the values of a union of string literals, and when they are its
  contents
-/

namespace PropCatalog

open Tsx (Node Source)

namespace Text

/-! ## Squeezed texts -/

/-- The text with a single space in the place of every run of blanks, also at its ends. -/
def spaced : List Char → List Char
  | [] => []
  | c :: rest =>
    if !isBlank c then c :: spaced rest
    else if rest.head?.any isBlank then spaced rest
    else ' ' :: spaced rest

theorem spaced_cons {c : Char} (h : isBlank c = false) (rest : List Char) :
    spaced (c :: rest) = c :: spaced rest := by
  simp [spaced, h]

theorem spaced_blank_blank {c d : Char} (hc : isBlank c = true) (hd : isBlank d = true)
    (rest : List Char) : spaced (c :: d :: rest) = spaced (d :: rest) := by
  rw [spaced]
  simp [hc, hd]

theorem spaced_blank_cons {c d : Char} (hc : isBlank c = true) (hd : isBlank d = false)
    (rest : List Char) : spaced (c :: d :: rest) = ' ' :: spaced (d :: rest) := by
  rw [spaced]
  simp [hc, hd]

theorem words_blank {c : Char} (h : isBlank c = true) (rest : List Char) :
    words (c :: rest) = words rest :=
  runsOutside_cons h rest

theorem words_cons_cons {c d : Char} (hc : isBlank c = false) (hd : isBlank d = false)
    (rest : List Char) : words (c :: d :: rest) = consLine c (words (d :: rest)) :=
  runsOutside_cons_cons hc hd rest

theorem words_cons_blank {c d : Char} (hc : isBlank c = false) (hd : isBlank d = true)
    (rest : List Char) : words (c :: d :: rest) = [c] :: words rest :=
  runsOutside_cons_separator hc hd rest

theorem words_singleton {c : Char} (h : isBlank c = false) : words [c] = [[c]] :=
  runsOutside_singleton h

/-- A text with a character that is no blank has a word. -/
theorem words_ne_nil {cs : List Char} {c : Char} (hc : c ∈ cs) (h : isBlank c = false) :
    words cs ≠ [] := by
  induction cs with
  | nil => cases hc
  | cons d rest ih =>
    cases hd : isBlank d with
    | true =>
      rw [words_blank hd]
      refine ih ((List.mem_cons.1 hc).resolve_left ?_)
      rintro rfl
      rw [hd] at h
      cases h
    | false =>
      cases rest with
      | nil => simp [words_singleton hd]
      | cons e rest =>
        cases he : isBlank e with
        | true => simp [words_cons_blank hd he]
        | false =>
          rw [words_cons_cons hd he]
          cases words (e :: rest) <;> simp [consLine]

theorem squeeze_blank {c : Char} (h : isBlank c = true) (rest : List Char) :
    squeeze (c :: rest) = squeeze rest := by
  rw [squeeze, words_blank h, squeeze]

theorem squeeze_cons_cons {c d : Char} (hc : isBlank c = false) (hd : isBlank d = false)
    (rest : List Char) : squeeze (c :: d :: rest) = c :: squeeze (d :: rest) := by
  have hne := words_ne_nil (List.mem_cons_self (a := d) (l := rest)) hd
  rw [squeeze, squeeze, words_cons_cons hc hd]
  obtain ⟨word, others, hwords⟩ := List.exists_cons_of_ne_nil hne
  rw [hwords]
  exact joinWith_cons_cons [' '] c word others

theorem squeeze_cons_blank {c d : Char} (hc : isBlank c = false) (hd : isBlank d = true)
    {rest : List Char} (hrest : words rest ≠ []) :
    squeeze (c :: d :: rest) = c :: ' ' :: squeeze rest := by
  rw [squeeze, words_cons_blank hc hd, joinWith_cons [' '] [c] hrest]
  rfl

/-- A text between two characters that are no blanks keeps its blanks as single spaces. -/
theorem squeeze_between {c d : Char} (hc : isBlank c = false) (hd : isBlank d = false)
    (cs : List Char) : squeeze (c :: (cs ++ [d])) = c :: (spaced cs ++ [d]) := by
  -- Beside it stands what happens behind a blank, where further blanks are passed over.
  have hboth : (∀ c, isBlank c = false → squeeze (c :: (cs ++ [d])) = c :: (spaced cs ++ [d])) ∧
      ∀ c, isBlank c = true → ' ' :: squeeze (cs ++ [d]) = spaced (c :: cs) ++ [d] := by
    have hwords : ∀ cs, words (cs ++ [d]) ≠ [] := fun cs => words_ne_nil (by simp) hd
    have hlast : squeeze [d] = [d] := by
      rw [squeeze, words_singleton hd]
      rfl
    induction cs with
    | nil =>
      refine ⟨fun c hc => ?_, fun c hc => ?_⟩
      · rw [List.nil_append, squeeze_cons_cons hc hd, hlast]
        rfl
      · rw [List.nil_append, hlast]
        simp [spaced, hc]
    | cons e cs ih =>
      rcases ih with ⟨ihword, ihblank⟩
      cases he : isBlank e with
      | true =>
        refine ⟨fun c hc => ?_, fun c hc => ?_⟩
        · rw [List.cons_append, squeeze_cons_blank hc he (hwords cs), ihblank e he]
        · rw [List.cons_append, squeeze_blank he, ihblank e he, spaced_blank_blank hc he]
      | false =>
        refine ⟨fun c hc => ?_, fun c hc => ?_⟩
        · rw [List.cons_append, squeeze_cons_cons hc he, ihword e he, spaced_cons he]
          rfl
        · rw [List.cons_append, ihword e he, spaced_blank_cons hc he, spaced_cons he]
          rfl
  exact hboth.1 c hc

theorem length_spaced_le (cs : List Char) : (spaced cs).length ≤ cs.length := by
  fun_induction spaced cs with
  | case1 => exact Nat.le_refl _
  | case2 c rest hc ih => exact Nat.succ_le_succ ih
  | case3 c rest hc hd ih => exact Nat.le_succ_of_le ih
  | case4 c rest hc hd ih => exact Nat.succ_le_succ ih

/-- Blanks are kept if they are spaces that stand alone. -/
theorem spaced_eq_self_iff (cs : List Char) :
    spaced cs = cs ↔ (∀ c ∈ cs, isBlank c = true → c = ' ') ∧
      cs.IsChain fun c d => isBlank c = true → isBlank d = false := by
  induction cs with
  | nil => simp [spaced]
  | cons c rest ih =>
    cases rest with
    | nil =>
      cases hc : isBlank c with
      | false => simp [spaced, hc]
      | true => simpa [spaced, hc] using eq_comm
    | cons d rest =>
      rw [List.forall_mem_cons, List.isChain_cons_cons]
      cases hc : isBlank c with
      | false =>
        rw [spaced_cons hc, List.cons_inj_right, ih]
        simp
      | true =>
        cases hd : isBlank d with
        | true =>
          -- Two blanks become one space, which makes the text shorter.
          have hle := length_spaced_le (d :: rest)
          rw [spaced_blank_blank hc hd]
          refine iff_of_false (fun h => ?_) (by simp)
          rw [h, List.length_cons] at hle
          exact Nat.not_succ_le_self _ hle
        | false =>
          rw [spaced_blank_cons hc hd, List.cons.injEq, ih, eq_comm]
          simp [and_assoc]

/-! ## Ends -/

theorem dropEnds_sublist (p : Char → Bool) (cs : List Char) : (dropEnds p cs).Sublist cs := by
  have hright : (dropRight p (dropLeft p cs)).Sublist (dropLeft p cs) := by
    simpa [dropRight] using (List.dropWhile_sublist p (l := (dropLeft p cs).reverse)).reverse
  exact hright.trans (List.dropWhile_sublist p)

/-- Nothing is dropped from a text with other characters at its ends. -/
theorem dropEnds_eq_self_iff (p : Char → Bool) (cs : List Char) :
    dropEnds p cs = cs ↔ (∀ c ∈ cs.head?, p c = false) ∧ ∀ c ∈ cs.getLast?, p c = false := by
  constructor
  · intro h
    -- A text that loses a character at an end is shorter.
    refine ⟨fun c hc => ?_, fun c hc => ?_⟩
    · obtain ⟨rest, rfl⟩ := List.head?_eq_some_iff.1 hc
      by_contra hp
      have hone : ∀ d ∈ [c], p d = true := by simpa using hp
      have hrest : dropEnds p (c :: rest) = dropEnds p rest := dropEnds_all_append hone rest
      have hle := (dropEnds_sublist p rest).length_le
      rw [← hrest, h, List.length_cons] at hle
      exact Nat.not_succ_le_self _ hle
    · obtain ⟨rest, rfl⟩ := List.getLast?_eq_some_iff.1 hc
      by_contra hp
      have hrest : dropEnds p (rest ++ [c]) = dropEnds p rest :=
        dropEnds_append_all rest (by simpa using hp)
      have hle := (dropEnds_sublist p rest).length_le
      rw [← hrest, h, List.length_append] at hle
      exact Nat.not_succ_le_self _ hle
  · rintro ⟨hfirst, hlast⟩
    have hleft : dropLeft p cs = cs := by
      cases cs with
      | nil => rfl
      | cons c rest => simp [dropLeft, hfirst c rfl]
    rw [dropEnds, hleft]
    rcases List.eq_nil_or_concat cs with rfl | ⟨rest, c, rfl⟩
    · rfl
    · have hc : dropRight p [c] = [c] := dropRight_cons (hlast c (by simp)) []
      rw [List.concat_eq_append, dropRight_append, hc]
      rfl

end Text

/-! ## Contents -/

open Text

/-- The value of a string literal, by the text between its quotes. -/
def decoded (content : List Char) : String :=
  String.ofList (dropEnds isQuote (spaced content))

/-- A text that is kept when it is read from between quotes: its blanks are single spaces, and there
are no further quotes at its ends. -/
structure KeptText (content : List Char) : Prop where
  spaces : ∀ c ∈ content, isBlank c = true → c = ' '
  apart : content.IsChain fun c d => isBlank c = true → isBlank d = false
  first : ∀ c ∈ content.head?, isQuote c = false
  last : ∀ c ∈ content.getLast?, isQuote c = false

/-- The value of a string literal is its content exactly if that is kept. -/
theorem decoded_eq_iff (content : List Char) :
    decoded content = String.ofList content ↔ KeptText content := by
  rw [decoded, String.ofList_inj]
  constructor
  · intro h
    -- Neither of the two steps makes a text longer, so each of them changes nothing.
    have hends : dropEnds isQuote (spaced content) = spaced content := by
      apply (dropEnds_sublist isQuote (spaced content)).eq_of_length_le
      rw [h]
      exact length_spaced_le content
    have hspaced : spaced content = content := hends.symm.trans h
    rcases (spaced_eq_self_iff content).1 hspaced with ⟨hspaces, hapart⟩
    rw [hspaced] at hends
    rcases (dropEnds_eq_self_iff isQuote content).1 hends with ⟨hfirst, hlast⟩
    exact ⟨hspaces, hapart, hfirst, hlast⟩
  · rintro ⟨hspaces, hapart, hfirst, hlast⟩
    rw [(spaced_eq_self_iff content).2 ⟨hspaces, hapart⟩]
    exact (dropEnds_eq_self_iff isQuote content).2 ⟨hfirst, hlast⟩

theorem isBlank_of_isQuote {c : Char} (h : isQuote c = true) : isBlank c = false := by
  simp only [isQuote, Bool.or_eq_true, beq_iff_eq] at h
  rcases h with (rfl | rfl) | h
  · rfl
  · rfl
  · simp [isBlank, h]

theorem literalText_quoted {q : Char} (h : isQuote q = true) (content : List Char) :
    literalText (String.ofList (squeeze (q :: (content ++ [q])))) = decoded content := by
  have hblank := isBlank_of_isQuote h
  have hq : ∀ c ∈ [q], isQuote c = true := by simpa using h
  rw [squeeze_between hblank hblank, literalText, String.toList_ofList, decoded]
  exact congrArg String.ofList
    ((dropEnds_all_append hq (spaced content ++ [q])).trans (dropEnds_append_all _ hq))

/-! ## Unions of string literals -/

/-- What a literal type in a union writes: a text between quotes, or that there is no value. -/
inductive Writes (src : Source) (n : Node) : Option (List Char) → Prop where
  | string {q : Char} {content : List Char} (hkind : n.kind = "literal_type")
      (hquote : isQuote q = true) (htext : src.text n = q :: (content ++ [q])) :
      Writes src n (some content)
  | nothing (hkind : n.kind = "literal_type")
      (htext : src.text n = "null".toList ∨ src.text n = "undefined".toList) : Writes src n none

variable {src : Source} {n : Node}

theorem saysNothing_quoted {q : Char} (h : isQuote q = true) (cs : List Char) :
    saysNothing (String.ofList (q :: cs)) = false := by
  -- Neither word begins with a quote.
  have hword : ∀ c word, isQuote c = false →
      String.ofList (q :: cs) ≠ String.ofList (c :: word) := by
    intro c word hc heq
    rw [String.ofList_inj, List.cons.injEq] at heq
    rw [← heq.1, h] at hc
    cases hc
  have hnull := hword 'n' "ull".toList (by decide)
  have hundefined := hword 'u' "ndefined".toList (by decide)
  exact Bool.or_eq_false_iff.2 ⟨beq_eq_false_iff_ne.2 hnull, beq_eq_false_iff_ne.2 hundefined⟩

theorem Writes.value? {content : Option (List Char)} (h : Writes src n content) :
    (readType src n).isLiteral = true ∧ (readType src n).value? = content.map decoded := by
  cases h with
  | @string q content hkind hquote htext =>
    have hblank := isBlank_of_isQuote hquote
    rw [readType_literal hkind, htext]
    refine ⟨rfl, ?_⟩
    rw [TypeExpr.value?, literalText_quoted hquote, squeeze_between hblank hblank,
      saysNothing_quoted hquote]
    rfl
  | nothing hkind htext =>
    rw [readType_literal hkind]
    refine ⟨rfl, ?_⟩
    rcases htext with htext | htext
    · rw [htext]
      decide +kernel
    · rw [htext]
      decide +kernel

/-- The members of a union of string literals are literals, with the values of their contents. -/
theorem filterMap_value?_written {items : List Node} {contents : List (Option (List Char))}
    (h : List.Forall₂ (fun item content => Writes src item.unwrapped content) items contents) :
    (∀ type ∈ items.map (readType src), type.isLiteral = true) ∧
      (items.map (readType src)).filterMap TypeExpr.value? =
        contents.reduceOption.map decoded := by
  induction h with
  | nil => simp
  | @cons item content items contents hfirst _ ih =>
    rcases hfirst.value? with ⟨hliteral, hvalue⟩
    rw [readType_unwrapped] at hliteral hvalue
    rw [List.map_cons, List.forall_mem_cons, List.filterMap_cons, hvalue, ih.2]
    refine ⟨⟨hliteral, ih.1⟩, ?_⟩
    cases content with
    | none => rfl
    | some content => rfl

/-- The values of a union of string literals. They are made of the contents of the literals, in
order, and a union without string literals has none; they are the contents themselves exactly if
every content is kept. Kept contents have different values if they are different. -/
theorem string_literals_decoded {contents : List (Option (List Char))}
    (hunion : n.unwrapped.kind = "union_type")
    (hwritten : List.Forall₂ (fun item content => Writes src item.unwrapped content)
      (n.unwrapped.items "union_type") contents) (o : Outline) :
    (contents.reduceOption = [] → unionValues? o (readType src n) = none) ∧
      (contents.reduceOption ≠ [] →
        unionValues? o (readType src n) = some (contents.reduceOption.map decoded) ∧
        (unionValues? o (readType src n) = some (contents.reduceOption.map String.ofList) ↔
          ∀ content ∈ contents.reduceOption, KeptText content)) ∧
      ∀ a b, KeptText a → KeptText b → decoded a = decoded b → a = b := by
  obtain ⟨text, hread⟩ := readType_union src hunion
  rcases filterMap_value?_written hwritten with ⟨hliteral, hvalues⟩
  have hall : (((n.unwrapped.items "union_type").map (readType src)).all fun type =>
      saysNothing type.text || type.isLiteral) = true := by
    rw [List.all_eq_true]
    intro type htype
    rw [hliteral type htype, Bool.or_true]
  have hunion := unionValues?_union o text ((n.unwrapped.items "union_type").map (readType src))
  rw [literalMembers?_eq, if_pos hall, hvalues, ← hread] at hunion
  refine ⟨fun hnone => ?_, fun hsome => ?_, fun a b ha hb hab => ?_⟩
  · rw [hnone] at hunion
    exact hunion
  · obtain ⟨content, others, hcontents⟩ := List.exists_cons_of_ne_nil hsome
    rw [hcontents] at hunion ⊢
    refine ⟨hunion, ?_⟩
    rw [hunion]
    change some ((content :: others).map decoded) = some _ ↔ _
    rw [Option.some.injEq, List.map_inj_left]
    exact forall₂_congr fun content _ => decoded_eq_iff content
  · rw [(decoded_eq_iff a).2 ha, (decoded_eq_iff b).2 hb] at hab
    exact String.ofList_inj.1 hab

/-- A union of two strings, with quotes at the ends of the one and two blanks in the other. -/
def fontSource : Source :=
  Source.ofString "'\"x\"' | 'a  b' | null"

def fontUnion : Node :=
  .node { kind := "union_type", start := 0, stop := 21 } [
    .node { kind := "union_type", start := 0, stop := 14 } [
      leafAt "literal_type" 0 5, leafAt "literal_type" 8 14],
    leafAt "literal_type" 17 21]

theorem string_literals_decoded_font :
    fontUnion.unwrapped.kind = "union_type" ∧
      List.Forall₂ (fun item content => Writes fontSource item.unwrapped content)
        (fontUnion.unwrapped.items "union_type")
        [some ['"', 'x', '"'], some ['a', ' ', ' ', 'b'], none] ∧
      unionValues? { path := "Font.tsx" } (readType fontSource fontUnion) = some ["x", "a b"] ∧
      unionValues? { path := "Font.tsx" } (readType fontSource fontUnion) ≠
        some ["\"x\"", "a  b"] := by
  have hitems : fontUnion.unwrapped.items "union_type" =
      [leafAt "literal_type" 0 5, leafAt "literal_type" 8 14, leafAt "literal_type" 17 21] := by
    cbv
  have hunion : fontUnion.unwrapped.kind = "union_type" := by decide +kernel
  have hwritten : List.Forall₂ (fun item content => Writes fontSource item.unwrapped content)
      (fontUnion.unwrapped.items "union_type")
      [some ['"', 'x', '"'], some ['a', ' ', ' ', 'b'], none] := by
    rw [hitems]
    refine .cons ?_ (.cons ?_ (.cons ?_ .nil))
    · exact .string (q := '\'') (by decide +kernel) (by decide) (by decide +kernel)
    · exact .string (q := '\'') (by decide +kernel) (by decide) (by decide +kernel)
    · exact .nothing (by decide +kernel) (.inl (by decide +kernel))
  rcases (string_literals_decoded hunion hwritten { path := "Font.tsx" }).2.1 (by decide) with
    ⟨hvalues, hiff⟩
  refine ⟨hunion, hwritten, hvalues.trans (by decide +kernel), fun hkept => ?_⟩
  -- The first content begins with a quote.
  have hfirst := (hiff.1 hkept ['"', 'x', '"'] (by decide)).first '"' rfl
  exact absurd hfirst (by decide)

end PropCatalog
