import Mathlib.Data.List.Infix
import PropCatalog.Proofs.Text.Lines

/-!
# Searching texts — where something is found in a text that is put together

- `stripPrefix?_eq_some_iff` : what a text starts with
- `prefix_of_prefix_append_cons`, `not_infix_append_cons` : a text is not found across a character
  that it does not have
- `beforeFirst`       : the part of a text before the first occurrence of another one
- `replaceFirst_append` : the first occurrence is the one that is replaced
-/

namespace PropCatalog
namespace Text

/-! ## Beginnings -/

theorem stripPrefix?_append (pre cs : List Char) : stripPrefix? pre (pre ++ cs) = some cs := by
  simp [stripPrefix?, startsWith]

theorem stripPrefix?_eq_some_iff {pre cs rest : List Char} :
    stripPrefix? pre cs = some rest ↔ cs = pre ++ rest := by
  constructor
  · intro h
    unfold stripPrefix? at h
    split at h
    · rename_i hpre
      rcases List.isPrefixOf_iff_prefix.1 hpre with ⟨tail, rfl⟩
      rw [List.drop_left] at h
      rw [Option.some.inj h]
    · cases h
  · rintro rfl
    exact stripPrefix?_append pre rest

theorem stripPrefix?_eq_none {pre cs : List Char} (h : ¬ pre <+: cs) :
    stripPrefix? pre cs = none := by
  refine Option.eq_none_iff_forall_ne_some.2 fun rest hrest => ?_
  exact h ⟨rest, (stripPrefix?_eq_some_iff.1 hrest).symm⟩

/-- A text at the beginning goes no further than to a character that it does not have. -/
theorem prefix_of_prefix_append_cons {needle cs rest : List Char} {d : Char} (hd : d ∉ needle)
    (h : needle <+: cs ++ d :: rest) : needle <+: cs := by
  rcases Nat.lt_or_ge cs.length needle.length with hlength | hlength
  · have hstop : cs ++ [d] <+: cs ++ d :: rest := ⟨rest, by simp⟩
    have hpre : cs ++ [d] <+: needle :=
      List.prefix_of_prefix_length_le hstop h (by simpa using Nat.succ_le_of_lt hlength)
    exact absurd (hpre.subset (by simp)) hd
  · exact List.prefix_of_prefix_length_le h (List.prefix_append cs _) hlength

/-- A text goes up to the first character of a kind. -/
theorem takeWhile_ne_append {cs : List Char} {c : Char} (h : c ∉ cs) (rest : List Char) :
    (cs ++ c :: rest).takeWhile (· != c) = cs := by
  have hall : ∀ d ∈ cs, (d != c) = true := fun d hd => bne_iff_ne.2 fun heq => h (heq ▸ hd)
  rw [List.takeWhile_append_of_pos hall]
  simp

theorem dropWhile_ne_append {cs : List Char} {c : Char} (h : c ∉ cs) (rest : List Char) :
    (cs ++ c :: rest).dropWhile (· != c) = c :: rest := by
  have hall : ∀ d ∈ cs, (d != c) = true := fun d hd => bne_iff_ne.2 fun heq => h (heq ▸ hd)
  rw [List.dropWhile_append_of_pos hall]
  simp

/-! ## Occurrences -/

/-- A text is not found across a character that it does not have. -/
theorem not_infix_append_cons {needle cs ds : List Char} {c : Char} (hc : c ∉ needle)
    (hcs : ¬ needle <:+: cs) (hds : ¬ needle <:+: ds) : ¬ needle <:+: cs ++ c :: ds := by
  -- What goes on behind `cs` would begin with `c`.
  have hpre : ∀ part, part <+: c :: ds → c ∉ part → part = [] := by
    intro part hpart hnot
    cases part with
    | nil => rfl
    | cons d part =>
      rcases hpart with ⟨tail, htail⟩
      rw [(List.cons.inj htail).1] at hnot
      exact absurd List.mem_cons_self hnot
  rw [List.infix_append_iff, List.infix_cons_iff]
  rintro (h | (h | h) | ⟨left, right, rfl, hleft, hright⟩)
  · exact hcs h
  · rw [hpre needle h hc] at hcs
    exact hcs List.nil_infix
  · exact hds h
  · rw [hpre right hright fun hmem => hc (List.mem_append_right _ hmem), List.append_nil] at hcs
    exact hcs hleft.isInfix

theorem not_infix_cons {needle cs : List Char} {c : Char} (hc : c ∉ needle) (hne : needle ≠ [])
    (h : ¬ needle <:+: cs) : ¬ needle <:+: c :: cs := by
  have hnil : ¬ needle <:+: [] := fun hoccurs => hne (List.infix_nil.1 hoccurs)
  exact not_infix_append_cons hc hnil h

/-- An occurrence does not begin in a text without its first character. -/
theorem infix_of_infix_append {c : Char} {needle cs ds : List Char} (hc : c ∉ cs)
    (h : c :: needle <:+: cs ++ ds) : c :: needle <:+: ds := by
  rcases List.infix_append_iff.1 h with h | h | ⟨left, right, heq, hleft, hright⟩
  · exact absurd (h.subset List.mem_cons_self) hc
  · exact h
  · cases left with
    | nil =>
      rw [heq]
      exact hright.isInfix
    | cons d left =>
      rw [(List.cons.inj heq).1] at hc
      exact absurd (hleft.subset List.mem_cons_self) hc

/-- Where a text occurs there is a first occurrence of it. -/
theorem exists_first {needle cs : List Char} (hne : needle ≠ []) (h : needle <:+: cs) :
    ∃ before after, cs = before ++ (needle ++ after) ∧ ¬ needle <:+: before := by
  induction cs with
  | nil => exact absurd (List.infix_nil.1 h) hne
  | cons c cs ih =>
    by_cases hpre : needle <+: c :: cs
    · rcases hpre with ⟨after, hafter⟩
      exact ⟨[], after, hafter.symm, fun hnil => hne (List.infix_nil.1 hnil)⟩
    · have hrest : needle <:+: cs := (List.infix_cons_iff.1 h).resolve_left hpre
      rcases ih hrest with ⟨before, after, rfl, hbefore⟩
      refine ⟨c :: before, after, rfl, fun hoccurs => ?_⟩
      rcases List.infix_cons_iff.1 hoccurs with hhead | htail
      · exact hpre (hhead.trans ⟨needle ++ after, rfl⟩)
      · exact hbefore htail

/-- The part of a text before the first occurrence of `needle`, or the whole text. -/
def beforeFirst (needle : List Char) : List Char → List Char
  | [] => []
  | c :: rest => if needle <+: c :: rest then [] else c :: beforeFirst needle rest

theorem beforeFirst_isPrefix (needle cs : List Char) : beforeFirst needle cs <+: cs := by
  induction cs with
  | nil => exact List.nil_prefix
  | cons c cs ih =>
    unfold beforeFirst
    split
    · exact List.nil_prefix
    · exact List.cons_prefix_cons.2 ⟨rfl, ih⟩

theorem not_infix_beforeFirst {needle : List Char} (hne : needle ≠ []) (cs : List Char) :
    ¬ needle <:+: beforeFirst needle cs := by
  induction cs with
  | nil => exact fun h => hne (List.infix_nil.1 h)
  | cons c cs ih =>
    unfold beforeFirst
    split
    · exact fun h => hne (List.infix_nil.1 h)
    · rename_i hpre
      intro h
      rcases List.infix_cons_iff.1 h with hhead | htail
      · exact hpre (hhead.trans (List.cons_prefix_cons.2 ⟨rfl, beforeFirst_isPrefix needle cs⟩))
      · exact ih htail

theorem beforeFirst_eq_self {needle cs : List Char} (h : ¬ needle <:+: cs) :
    beforeFirst needle cs = cs := by
  induction cs with
  | nil => rfl
  | cons c cs ih =>
    rw [beforeFirst, if_neg fun hpre => h hpre.isInfix,
      ih fun hoccurs => h (List.infix_cons hoccurs)]

theorem replaceFirst_eq_self {needle cs : List Char} (h : ¬ needle <:+: cs)
    (replacement : List Char) : replaceFirst needle replacement cs = cs := by
  induction cs with
  | nil =>
    rw [List.infix_nil] at h
    simp [replaceFirst, h]
  | cons c cs ih =>
    have hpre : ¬ needle.isPrefixOf (c :: cs) = true := fun hpre =>
      h (List.isPrefixOf_iff_prefix.1 hpre).isInfix
    rw [replaceFirst, if_neg hpre, ih fun hoccurs => h (List.infix_cons hoccurs)]

section Fenced

variable {c : Char} {needle : List Char}

/-- A text with its first character nowhere else does not begin before another one that begins with
this character and go on into it. -/
theorem prefix_of_prefix_append (hc : c ∉ needle) {cs : List Char} (hne : cs ≠ [])
    {rest : List Char} (h : c :: needle <+: cs ++ c :: rest) : c :: needle <+: cs := by
  cases cs with
  | nil => exact absurd rfl hne
  | cons d cs =>
    rcases List.cons_prefix_cons.1 h with ⟨rfl, htail⟩
    exact List.cons_prefix_cons.2 ⟨rfl, prefix_of_prefix_append_cons hc htail⟩

theorem not_isPrefix_append (hc : c ∉ needle) {d : Char} {cs : List Char}
    (h : ¬ c :: needle <:+: d :: cs) (rest : List Char) :
    ¬ c :: needle <+: d :: (cs ++ (c :: needle ++ rest)) := fun hpre =>
  h (prefix_of_prefix_append hc (List.cons_ne_nil d cs) hpre).isInfix

theorem beforeFirst_append (hc : c ∉ needle) {cs : List Char} (h : ¬ c :: needle <:+: cs)
    (rest : List Char) : beforeFirst (c :: needle) (cs ++ (c :: needle ++ rest)) = cs := by
  induction cs with
  | nil => exact if_pos (List.prefix_append (c :: needle) rest)
  | cons d cs ih =>
    have hcs := ih fun hoccurs => h (List.infix_cons hoccurs)
    rw [List.cons_append, beforeFirst, if_neg (not_isPrefix_append hc h rest), hcs]

theorem replaceFirst_append (hc : c ∉ needle) {cs : List Char} (h : ¬ c :: needle <:+: cs)
    (replacement rest : List Char) :
    replaceFirst (c :: needle) replacement (cs ++ (c :: needle ++ rest)) =
      cs ++ (replacement ++ rest) := by
  induction cs with
  | nil =>
    have hpre : (c :: needle).isPrefixOf (c :: needle ++ rest) = true :=
      List.isPrefixOf_iff_prefix.2 (List.prefix_append (c :: needle) rest)
    rw [List.cons_append] at hpre
    rw [List.nil_append, List.cons_append, replaceFirst, if_pos hpre, ← List.cons_append,
      List.drop_left, List.nil_append]
  | cons d cs ih =>
    have hpre := not_isPrefix_append hc h rest
    have hcs := ih fun hoccurs => h (List.infix_cons hoccurs)
    rw [← List.isPrefixOf_iff_prefix] at hpre
    rw [List.cons_append, replaceFirst, if_neg hpre, hcs, List.cons_append]

end Fenced

end Text
end PropCatalog
