import PropCatalog.Proofs.Docs.Blocks

/-!
# Line endings — documentation with carriage returns

A text may come with a carriage return before each of its line feeds. Comments are read the same
way with and without them:

- `Text.withReturns`       : a text with these carriage returns
- `Text.lines_withReturns` : a pair of them is one line break
- `Text.trim_withReturns`  : what is trimmed is trimmed with its carriage returns
- `Docs.commentLines_withReturns` : the lines of a comment are the same
- `line_endings_read_alike`       : descriptions and tags are the same
-/

namespace PropCatalog
namespace Text

/-- A text with a carriage return before every line feed. -/
def withReturns (cs : List Char) : List Char :=
  cs.flatMap fun c => if c = '\n' then ['\r', '\n'] else [c]

theorem withReturns_feed (cs : List Char) :
    withReturns ('\n' :: cs) = '\r' :: '\n' :: withReturns cs := rfl

theorem withReturns_cons {c : Char} (h : c ≠ '\n') (cs : List Char) :
    withReturns (c :: cs) = c :: withReturns cs := by
  simp [withReturns, h]

theorem withReturns_append (cs ds : List Char) :
    withReturns (cs ++ ds) = withReturns cs ++ withReturns ds :=
  List.flatMap_append

theorem withReturns_eq_self {cs : List Char} (h : '\n' ∉ cs) : withReturns cs = cs := by
  induction cs with
  | nil => rfl
  | cons c cs ih =>
    have hc : c ≠ '\n' := fun heq => h (heq ▸ List.mem_cons_self)
    rw [withReturns_cons hc, ih fun hmem => h (List.mem_cons_of_mem _ hmem)]

/-- Without its carriage returns the text is the one it was. -/
theorem filter_withReturns {cs : List Char} (h : '\r' ∉ cs) :
    (withReturns cs).filter (· != '\r') = cs := by
  induction cs with
  | nil => rfl
  | cons c cs ih =>
    have hrest := ih fun hmem => h (List.mem_cons_of_mem _ hmem)
    by_cases hc : c = '\n'
    · subst hc
      rw [withReturns_feed]
      simp [hrest]
    · have hreturn : c ≠ '\r' := fun heq => h (heq ▸ List.mem_cons_self)
      rw [withReturns_cons hc]
      simp [hreturn, hrest]

/-! ## Lines -/

/-- A carriage return and a line feed break a line once. -/
theorem lines_withReturns {cs : List Char} (h : '\r' ∉ cs) : lines (withReturns cs) = lines cs := by
  induction cs with
  | nil => rfl
  | cons c cs ih =>
    have hrest := ih fun hmem => h (List.mem_cons_of_mem _ hmem)
    by_cases hc : c = '\n'
    · subst hc
      rw [withReturns_feed, lines_newline, lines.eq_2, hrest]
    · have hreturn : c ≠ '\r' := fun heq => h (heq ▸ List.mem_cons_self)
      rw [withReturns_cons hc]
      cases hbreak : isLineBreak c with
      | true =>
        have hpair : ∀ ds : List Char, c = '\r' → ds.head? ≠ some '\n' := fun _ heq =>
          absurd heq hreturn
        rw [lines_cons_break hbreak (hpair _), lines_cons_break hbreak (hpair _), hrest]
      | false => rw [lines_cons hbreak, lines_cons hbreak, hrest]

/-! ## Trimming -/

theorem dropLeft_withReturns {p : Char → Bool} (hfeed : p '\n' = true) (hreturn : p '\r' = true)
    (cs : List Char) : dropLeft p (withReturns cs) = withReturns (dropLeft p cs) := by
  induction cs with
  | nil => rfl
  | cons c cs ih =>
    by_cases hc : c = '\n'
    · subst hc
      rw [withReturns_feed]
      simpa [dropLeft, hfeed, hreturn] using ih
    · rw [withReturns_cons hc]
      cases hp : p c with
      | true => simpa [dropLeft, hp] using ih
      | false => simp [dropLeft, hp, withReturns_cons hc]

theorem dropRight_withReturns {p : Char → Bool} (hfeed : p '\n' = true) (hreturn : p '\r' = true)
    (cs : List Char) : dropRight p (withReturns cs) = withReturns (dropRight p cs) := by
  induction cs with
  | nil => rfl
  | cons c cs ih =>
    -- What is left of the text behind the character decides whether the character stays.
    have hsplit : ∀ ds : List Char, dropRight p (c :: ds) =
        if (dropRight p ds).isEmpty then dropRight p [c] else c :: dropRight p ds :=
      dropRight_append p [c]
    have hfront : ∀ ds : List Char, withReturns (c :: ds) = withReturns [c] ++ withReturns ds :=
      withReturns_append [c]
    have hempty : (withReturns (dropRight p cs)).isEmpty = (dropRight p cs).isEmpty := by
      cases dropRight p cs with
      | nil => rfl
      | cons d ds => by_cases hd : d = '\n' <;> simp [withReturns, hd]
    have hone : dropRight p (withReturns [c]) = withReturns (dropRight p [c]) := by
      by_cases hc : c = '\n'
      · subst hc
        simp [withReturns, dropRight, hfeed, hreturn]
      · cases hp : p c <;> simp [withReturns, dropRight, hc, hp]
    rw [hfront, dropRight_append, ih, hempty, hone, hsplit cs, ← hfront]
    exact (apply_ite withReturns _ _ _).symm

theorem trim_withReturns (cs : List Char) : trim (withReturns cs) = withReturns (trim cs) := by
  unfold trim dropEnds
  rw [dropLeft_withReturns rfl rfl, dropRight_withReturns rfl rfl]

/-! ## Ends of a text -/

section Ends

variable {part cs : List Char}

theorem startsWith_withReturns (hfeed : '\n' ∉ part) (hreturn : '\r' ∉ part) (h : '\r' ∉ cs) :
    startsWith part (withReturns cs) = startsWith part cs := by
  rw [startsWith, startsWith, Bool.eq_iff_iff, List.isPrefixOf_iff_prefix,
    List.isPrefixOf_iff_prefix]
  constructor
  · intro hpre
    have hkept := hpre.filter (· != '\r')
    rwa [filter_withReturns h, ← withReturns_eq_self hfeed, filter_withReturns hreturn] at hkept
  · rintro ⟨rest, rfl⟩
    exact ⟨withReturns rest, by rw [withReturns_append, withReturns_eq_self hfeed]⟩

theorem endsWith_withReturns (hfeed : '\n' ∉ part) (hreturn : '\r' ∉ part) (h : '\r' ∉ cs) :
    endsWith part (withReturns cs) = endsWith part cs := by
  rw [endsWith, endsWith, Bool.eq_iff_iff, List.isSuffixOf_iff_suffix, List.isSuffixOf_iff_suffix]
  constructor
  · intro hsuf
    have hkept := hsuf.filter (· != '\r')
    rwa [filter_withReturns h, ← withReturns_eq_self hfeed, filter_withReturns hreturn] at hkept
  · rintro ⟨rest, rfl⟩
    exact ⟨withReturns rest, by rw [withReturns_append, withReturns_eq_self hfeed]⟩

end Ends

end Text

namespace Docs

open Text

/-! ## Comments -/

theorem blockInside_sublist (cs : List Char) : (blockInside cs).Sublist cs := by
  have hopened : (if startsWith ['*'] cs then cs.drop 1 else cs).Sublist cs := by
    split
    · exact List.drop_sublist 1 cs
    · exact List.Sublist.refl cs
  refine List.Sublist.trans ?_ hopened
  unfold blockInside
  dsimp only
  generalize (if startsWith ['*'] cs then cs.drop 1 else cs) = ds
  split
  · exact (List.dropLast_sublist _).trans (List.dropLast_sublist ds)
  · exact List.Sublist.refl ds

/-- The delimiters of a block are dropped whatever its line endings. -/
theorem blockInside_withReturns {cs : List Char} (h : '\r' ∉ cs) :
    blockInside (withReturns cs) = withReturns (blockInside cs) := by
  -- The second star of the opening delimiter, and then the closing delimiter.
  have hopened : (if startsWith ['*'] (withReturns cs) then (withReturns cs).drop 1
      else withReturns cs) = withReturns (if startsWith ['*'] cs then cs.drop 1 else cs) := by
    rw [startsWith_withReturns (by decide) (by decide) h]
    split
    · rename_i hstar
      rcases List.isPrefixOf_iff_prefix.1 hstar with ⟨rest, rfl⟩
      rw [withReturns_append]
      rfl
    · rfl
  have hclosed : ∀ ds : List Char, '\r' ∉ ds →
      (if endsWith ['*', '/'] (withReturns ds) then (withReturns ds).dropLast.dropLast
        else withReturns ds) =
        withReturns (if endsWith ['*', '/'] ds then ds.dropLast.dropLast else ds) := by
    intro ds hds
    rw [endsWith_withReturns (by decide) (by decide) hds]
    split
    · rename_i hclose
      rcases List.isSuffixOf_iff_suffix.1 hclose with ⟨body, rfl⟩
      have hkept : withReturns ['*', '/'] = ['*', '/'] := rfl
      rw [withReturns_append, hkept, dropLast_close, dropLast_close]
    · rfl
  unfold blockInside
  dsimp only
  rw [hopened]
  refine hclosed _ fun hmem => h ?_
  split at hmem
  · exact List.mem_of_mem_drop hmem
  · exact hmem

/-- The lines of a comment are the same whatever its line endings. -/
theorem commentLines_withReturns {cs : List Char} (h : '\r' ∉ cs) :
    commentLines (withReturns cs) = commentLines cs := by
  have htrimmed : '\r' ∉ trim cs := fun hmem => h (mem_of_mem_trim hmem)
  unfold commentLines
  dsimp only
  rw [trim_withReturns, startsWith_withReturns (by decide) (by decide) htrimmed]
  split
  · rename_i hopening
    rcases List.isPrefixOf_iff_prefix.1 hopening with ⟨inside, heq⟩
    rw [← heq] at htrimmed ⊢
    have hinside : '\r' ∉ inside := fun hmem => htrimmed (List.mem_append_right _ hmem)
    have hdrop : (withReturns (['/', '*'] ++ inside)).drop 2 = withReturns inside := by
      rw [withReturns_append]
      rfl
    rw [hdrop, blockInside_withReturns hinside,
      lines_withReturns fun hmem => hinside ((blockInside_sublist inside).subset hmem)]
    rfl
  · rw [lines_withReturns htrimmed]

end Docs

open Docs Text in
/-- A comment without carriage returns says the same with a carriage return before each of its line
feeds: as a documentation block and as any other comment it has the same description and the same
tags, in the same order. -/
theorem line_endings_read_alike (text : String) (h : '\r' ∉ text.toList) :
    ofBlock (String.ofList (withReturns text.toList)) = ofBlock text ∧
      ofPlain (String.ofList (withReturns text.toList)) = ofPlain text := by
  have hlines : commentLines (String.ofList (withReturns text.toList)).toList =
      commentLines text.toList := by
    rw [String.toList_ofList, commentLines_withReturns h]
  refine ⟨?_, ?_⟩
  · unfold ofBlock
    rw [hlines]
  · rw [ofPlain, ofPlain, hlines]

/-- A block with a tag of several lines. -/
def toneBlock : String :=
  "/**\n * Colour of\n * the badge.\n * @example <Badge\n *   tone />\n * @hideInDocs\n */\n"

/-- Line comments with a tag. -/
def toneLines : String :=
  "// Colour of\n// tone: red\n/// the badge."

open Docs Text in
theorem line_endings_read_alike_tone :
    ofBlock (String.ofList (withReturns toneBlock.toList)) =
        { description := "Colour of\nthe badge."
          tags := [("example", "<Badge\n  tone />"), ("hideInDocs", "true")] } ∧
      ofPlain (String.ofList (withReturns toneLines.toList)) =
        { description := "Colour of\nthe badge.", tags := [("tone", "red")] } := by
  have hblock := (line_endings_read_alike toneBlock (by decide)).1
  have hlines := (line_endings_read_alike toneLines (by decide)).2
  exact ⟨hblock.trans (by decide +kernel), hlines.trans (by decide +kernel)⟩

end PropCatalog
