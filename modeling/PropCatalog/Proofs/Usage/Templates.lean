import PropCatalog.Proofs.Text.Search
import PropCatalog.Usage.Snippet

/-!
# Templates — placeholders filled one after another, and all at once

The placeholders of a template are meant to be filled all at once: where the placeholder of an axis
first stands in the template, the text of the axis's value is written, and all else stays. They are
filled one after another in what has become of the template, so that a placeholder may be found in
a text that was written before, or in one together with the braces around it.

- `filledFrom`, `filledAtOnce` : a template with its placeholders filled all at once
- `ComesUp`, `Undisturbed`     : a placeholder stands before its own place in the template, and no
  placeholder ever does
- `Flat`                       : templates in which no placeholder can come up
- `fillPlaceholder_filledAtOnce` : one more axis
- `placeholders_filled_at_once`  : when the placeholders are filled as they are meant to be
-/

namespace PropCatalog

open Text (beforeFirst)

variable {props : List (String × Value)}

/-! ## Placeholders -/

/-- The name of an axis in braces. -/
def placeholder (axis : String) : List Char :=
  '\x7b' :: (axis.toList ++ ['\x7d'])

/-- The text of an axis's value with a capital first letter, if the axis has a value. -/
def axisText? (props : List (String × Value)) (axis : String) : Option (List Char) :=
  (assigned? props axis).map fun value => Text.upperFirst value.display.toList

/-- Names without braces. -/
def Braceless (axes : List String) : Prop :=
  ∀ axis ∈ axes, '\x7b' ∉ axis.toList ∧ '\x7d' ∉ axis.toList

instance (axes : List String) : Decidable (Braceless axes) :=
  inferInstanceAs (Decidable (∀ axis ∈ axes, _))

theorem Braceless.of_subset {axes others : List String} (h : Braceless axes)
    (hsub : others ⊆ axes) : Braceless others :=
  fun axis haxis => h axis (hsub haxis)

theorem Braceless.not_mem_tail {axes : List String} (h : Braceless axes) {axis : String}
    (haxis : axis ∈ axes) : '\x7b' ∉ axis.toList ++ ['\x7d'] := by
  have hopen := (h axis haxis).1
  simpa using hopen

/-- Only one placeholder begins at a place. -/
theorem Braceless.eq_of_isPrefix {axes : List String} (h : Braceless axes) {axis other : String}
    (haxis : axis ∈ axes) (hother : other ∈ axes) {s : List Char} (hs : placeholder axis <+: s)
    (hs' : placeholder other <+: s) : axis = other := by
  have hname : ∀ name ∈ axes, placeholder name <+: s →
      (s.tail.takeWhile (· != '\x7d')) = name.toList := by
    rintro name hmem ⟨rest, rfl⟩
    have hrest : (placeholder name ++ rest).tail = name.toList ++ '\x7d' :: rest := by
      simp [placeholder]
    rw [hrest, Text.takeWhile_ne_append (h name hmem).2]
  -- Both names are what stands up to the closing brace.
  exact String.toList_inj.1 ((hname axis haxis hs).symm.trans (hname other hother hs'))

theorem placeholder_ne_nil (axis : String) : placeholder axis ≠ [] := List.cons_ne_nil _ _

theorem placeholder_append_ne_nil (axis : String) (rest : List Char) :
    placeholder axis ++ rest ≠ [] := List.cons_ne_nil _ _

theorem fillPlaceholder_eq (props : List (String × Value)) (s : List Char) (axis : String) :
    fillPlaceholder props s axis =
      match axisText? props axis with
      | none => s
      | some text => Text.replaceFirst (placeholder axis) text s := by
  unfold fillPlaceholder axisText? placeholder
  cases assigned? props axis <;> rfl

/-! ## All at once -/

/-- The text of an axis whose placeholder begins a part of a template, unless the placeholder stands
in what is before this part. -/
def textHere? (props : List (String × Value)) (before s : List Char) (axis : String) :
    Option (String × List Char) :=
  if placeholder axis <+: s ∧ ¬ placeholder axis <:+: before then
    (axisText? props axis).map (axis, ·)
  else none

/-- A part of a template with every placeholder filled that stands in it for the first time. -/
def filledFrom (props : List (String × Value)) (axes : List String) (before : List Char) :
    List Char → List Char
  | [] => []
  | c :: rest =>
    match axes.findSome? (textHere? props before (c :: rest)) with
    | some (axis, text) =>
      text ++ filledFrom props axes (before ++ placeholder axis)
        ((c :: rest).drop (placeholder axis).length)
    | none => c :: filledFrom props axes (before ++ [c]) rest
termination_by s => s.length
decreasing_by
  · simp only [placeholder, List.length_drop, List.length_cons]
    omega
  · exact Nat.lt_succ_self rest.length

/-- A template with the first placeholder of each axis filled. -/
def filledAtOnce (props : List (String × Value)) (axes : List String) (template : List Char) :
    List Char :=
  filledFrom props axes [] template

theorem textHere?_eq_some_iff {before s : List Char} {axis : String} {e : String × List Char} :
    textHere? props before s axis = some e ↔
      e.1 = axis ∧ placeholder axis <+: s ∧ ¬ placeholder axis <:+: before ∧
        axisText? props axis = some e.2 := by
  rcases e with ⟨name, text⟩
  unfold textHere?
  split
  · rename_i h
    simp only [Option.map_eq_some_iff, Prod.mk.injEq, h, not_false_eq_true, true_and]
    constructor
    · rintro ⟨_, htext, rfl, rfl⟩
      exact ⟨rfl, htext⟩
    · rintro ⟨rfl, htext⟩
      exact ⟨text, htext, rfl, rfl⟩
  · rename_i h
    refine ⟨fun hnone => absurd hnone (by simp), fun ⟨_, hpre, hbefore, _⟩ => ?_⟩
    exact absurd ⟨hpre, hbefore⟩ h

/-- What is filled at a place, whatever the order of the axes. -/
theorem findSome?_textHere?_eq_some_iff {axes : List String} (h : Braceless axes)
    {before s : List Char} {e : String × List Char} :
    axes.findSome? (textHere? props before s) = some e ↔
      e.1 ∈ axes ∧ placeholder e.1 <+: s ∧ ¬ placeholder e.1 <:+: before ∧
        axisText? props e.1 = some e.2 := by
  constructor
  · intro hfound
    rcases List.exists_of_findSome?_eq_some hfound with ⟨axis, haxis, here⟩
    rcases textHere?_eq_some_iff.1 here with ⟨rfl, hrest⟩
    exact ⟨haxis, hrest⟩
  · rintro ⟨haxis, hpre, hbefore, htext⟩
    have here : textHere? props before s e.1 = some e :=
      textHere?_eq_some_iff.2 ⟨rfl, hpre, hbefore, htext⟩
    cases hfound : axes.findSome? (textHere? props before s) with
    | none =>
      rw [List.findSome?_eq_none_iff.1 hfound e.1 haxis] at here
      cases here
    | some found =>
      rcases List.exists_of_findSome?_eq_some hfound with ⟨axis, hmem, hthere⟩
      have hsame : axis = e.1 :=
        h.eq_of_isPrefix hmem haxis (textHere?_eq_some_iff.1 hthere).2.1 hpre
      rw [← hthere, hsame, here]

section Scan

variable {axes : List String}

theorem filledFrom_nil (before : List Char) : filledFrom props axes before [] = [] := by
  rw [filledFrom]

/-- Where nothing is filled a character is copied. -/
theorem filledFrom_cons {before : List Char} {c : Char} {rest : List Char}
    (h : axes.findSome? (textHere? props before (c :: rest)) = none) :
    filledFrom props axes before (c :: rest) =
      c :: filledFrom props axes (before ++ [c]) rest := by
  rw [filledFrom, h]

/-- Where a placeholder is filled the text is written, and the rest stands behind it. -/
theorem filledFrom_placeholder {before rest text : List Char} {axis : String}
    (h : axes.findSome? (textHere? props before (placeholder axis ++ rest)) = some (axis, text)) :
    filledFrom props axes before (placeholder axis ++ rest) =
      text ++ filledFrom props axes (before ++ placeholder axis) rest := by
  have hcons : placeholder axis ++ rest = '\x7b' :: (axis.toList ++ ['\x7d'] ++ rest) := rfl
  have hdrop : (placeholder axis ++ rest).drop (placeholder axis).length = rest := List.drop_left
  rw [hcons] at h hdrop ⊢
  rw [filledFrom, h]
  simp only [hdrop]

/-- The text begins with the placeholder that is filled at its place. -/
theorem prefix_of_findSome?_textHere? {before s text : List Char} {axis : String}
    (h : axes.findSome? (textHere? props before s) = some (axis, text)) :
    placeholder axis <+: s := by
  rcases List.exists_of_findSome?_eq_some h with ⟨_, _, here⟩
  rcases textHere?_eq_some_iff.1 here with ⟨rfl, hpre, -⟩
  exact hpre

/-- Going through a template: it is at its end, or a placeholder is filled, or a character is
copied. -/
theorem filledFrom_induction (props : List (String × Value)) (axes : List String)
    {motive : List Char → List Char → Prop} (nil : ∀ before, motive before [])
    (filled : ∀ before axis text rest,
      axes.findSome? (textHere? props before (placeholder axis ++ rest)) = some (axis, text) →
      motive (before ++ placeholder axis) rest → motive before (placeholder axis ++ rest))
    (copied : ∀ before c rest, axes.findSome? (textHere? props before (c :: rest)) = none →
      motive (before ++ [c]) rest → motive before (c :: rest))
    (before s : List Char) : motive before s := by
  induction before, s using filledFrom.induct props axes with
  | case1 before => exact nil before
  | case2 before c rest axis text here ih =>
    rcases prefix_of_findSome?_textHere? here with ⟨after, hafter⟩
    rw [← hafter, List.drop_left] at ih
    rw [← hafter] at here ⊢
    exact filled before axis text after here ih
  | case3 before c rest here ih => exact copied before c rest here ih

/-- Two ways to fill a text, the same at every place of it. -/
theorem filledFrom_congr {others : List String} {before s : List Char}
    (h : ∀ left right, s = left ++ right → right ≠ [] →
      axes.findSome? (textHere? props (before ++ left) right) =
        others.findSome? (textHere? props (before ++ left) right)) :
    filledFrom props axes before s = filledFrom props others before s := by
  induction before, s using filledFrom_induction props axes with
  | nil before => rw [filledFrom_nil, filledFrom_nil]
  | filled before axis text rest here ih =>
    have hthere := h [] (placeholder axis ++ rest) rfl (placeholder_append_ne_nil axis rest)
    rw [List.append_nil, here] at hthere
    rw [filledFrom_placeholder here, filledFrom_placeholder hthere.symm, ih]
    rintro left right rfl hne
    have hmore := h (placeholder axis ++ left) right (by simp) hne
    rwa [← List.append_assoc] at hmore
  | copied before c rest here ih =>
    have hthere := h [] _ rfl (List.cons_ne_nil c rest)
    rw [List.append_nil, here] at hthere
    rw [filledFrom_cons here, filledFrom_cons hthere.symm, ih]
    rintro left right rfl hne
    have hmore := h (c :: left) right rfl hne
    rwa [← List.singleton_append, ← List.append_assoc] at hmore

/-- The order of the axes does not matter. -/
theorem filledFrom_perm {others : List String} (hnames : Braceless axes) (h : axes.Perm others)
    (before s : List Char) :
    filledFrom props axes before s = filledFrom props others before s := by
  -- At every place there is at most one axis to choose.
  refine filledFrom_congr fun left right _ _ => Option.ext fun e => ?_
  rw [findSome?_textHere?_eq_some_iff hnames,
    findSome?_textHere?_eq_some_iff (hnames.of_subset h.symm.subset), h.mem_iff]

/-- One more axis changes nothing in a text in which its placeholder is not to be filled. -/
theorem filledFrom_append_axis {axis : String} {before s : List Char}
    (h : ∀ text, axisText? props axis = some text → placeholder axis <:+: before ∨
      ∀ right, right <:+ s → ¬ placeholder axis <+: right) :
    filledFrom props (axes ++ [axis]) before s = filledFrom props axes before s := by
  refine filledFrom_congr fun left right hs _ => ?_
  have hnone : textHere? props (before ++ left) right axis = none := by
    refine Option.eq_none_iff_forall_ne_some.2 fun e here => ?_
    rcases textHere?_eq_some_iff.1 here with ⟨-, hpre, hbefore, htext⟩
    rcases h e.2 htext with hin | hnot
    · exact hbefore (hin.trans (List.infix_append_left))
    · exact hnot right ⟨left, hs.symm⟩ hpre
  rw [List.findSome?_append, List.findSome?_singleton, hnone, Option.or_none]

/-- No placeholder begins with another character than an opening brace. -/
theorem filledFrom_copied {w : List Char} (hw : '\x7b' ∉ w) (before rest : List Char) :
    filledFrom props axes before (w ++ rest) = w ++ filledFrom props axes (before ++ w) rest := by
  induction w generalizing before with
  | nil => simp
  | cons c w ih =>
    have hnone : axes.findSome? (textHere? props before (c :: (w ++ rest))) = none := by
      refine List.findSome?_eq_none_iff.2 fun axis _ => ?_
      refine Option.eq_none_iff_forall_ne_some.2 fun e here => ?_
      have hpre := (textHere?_eq_some_iff.1 here).2.1
      rw [← (List.cons_prefix_cons.1 hpre).1] at hw
      exact hw List.mem_cons_self
    rw [List.cons_append, filledFrom_cons hnone, ih fun hmem => hw (List.mem_cons_of_mem c hmem)]
    simp

/-- A text can be filled up to an opening brace, and from there on. -/
theorem filledFrom_append (hnames : Braceless axes) (before s rest : List Char) :
    filledFrom props axes before (s ++ '\x7b' :: rest) =
      filledFrom props axes before s ++ filledFrom props axes (before ++ s) ('\x7b' :: rest) := by
  -- What is filled at a place of `s` does not depend on what follows `s`.
  have hsame : ∀ before s, s ≠ [] →
      axes.findSome? (textHere? props before (s ++ '\x7b' :: rest)) =
        axes.findSome? (textHere? props before s) := by
    intro before s hne
    refine Option.ext fun e => ?_
    rw [findSome?_textHere?_eq_some_iff hnames, findSome?_textHere?_eq_some_iff hnames]
    refine and_congr_right fun haxis => and_congr_left fun _ => ⟨fun hpre => ?_, fun hpre => ?_⟩
    · exact Text.prefix_of_prefix_append (hnames.not_mem_tail haxis) hne hpre
    · exact hpre.trans (List.prefix_append s _)
  induction before, s using filledFrom_induction props axes with
  | nil before => rw [filledFrom_nil, List.append_nil, List.nil_append, List.nil_append]
  | filled before axis text more here ih =>
    have hthere := (hsame before _ (placeholder_append_ne_nil axis more)).trans here
    rw [List.append_assoc] at hthere ⊢
    rw [filledFrom_placeholder here, filledFrom_placeholder hthere, ih, List.append_assoc,
      List.append_assoc]
  | copied before c more here ih =>
    have hthere := (hsame before _ (List.cons_ne_nil c more)).trans here
    rw [List.cons_append] at hthere ⊢
    rw [filledFrom_cons here, filledFrom_cons hthere, ih, List.append_assoc]
    rfl

end Scan

/-! ## One more axis -/

section Step

variable {earlier : List String} {axis : String}

/-- The placeholder of another axis is copied. -/
theorem filledFrom_other (hnames : Braceless (earlier ++ [axis])) (haxis : axis ∉ earlier)
    (before rest : List Char) :
    filledFrom props earlier before (placeholder axis ++ rest) =
      placeholder axis ++ filledFrom props earlier (before ++ placeholder axis) rest := by
  have hnone : earlier.findSome? (textHere? props before (placeholder axis ++ rest)) = none := by
    refine List.findSome?_eq_none_iff.2 fun other hother => ?_
    refine Option.eq_none_iff_forall_ne_some.2 fun e here => ?_
    have hsame : axis = other :=
      hnames.eq_of_isPrefix (by simp) (List.mem_append_left _ hother) (List.prefix_append _ rest)
        (textHere?_eq_some_iff.1 here).2.1
    exact haxis (hsame ▸ hother)
  have htail := hnames.not_mem_tail (List.mem_append_right earlier (List.mem_singleton_self axis))
  rw [placeholder, List.cons_append] at hnone ⊢
  rw [filledFrom_cons hnone, filledFrom_copied htail, List.cons_append,
    List.append_cons before '\x7b' (axis.toList ++ ['\x7d'])]

/-- What one more axis adds: its text where its placeholder first stands in the template. -/
theorem filledAtOnce_around (hnames : Braceless (earlier ++ [axis])) (haxis : axis ∉ earlier)
    {text : List Char} (htext : axisText? props axis = some text) {before : List Char}
    (hbefore : ¬ placeholder axis <:+: before) (rest : List Char) :
    ∃ more,
      filledAtOnce props earlier (before ++ (placeholder axis ++ rest)) =
        filledAtOnce props earlier before ++ (placeholder axis ++ more) ∧
      filledAtOnce props (earlier ++ [axis]) (before ++ (placeholder axis ++ rest)) =
        filledAtOnce props earlier before ++ (text ++ more) := by
  have hhere : (earlier ++ [axis]).findSome? (textHere? props before (placeholder axis ++ rest)) =
      some (axis, text) :=
    (findSome?_textHere?_eq_some_iff hnames).2
      ⟨by simp, List.prefix_append _ rest, hbefore, htext⟩
  -- The placeholder is not in what is before its place, and behind it it has been there.
  have hleft :
      filledFrom props (earlier ++ [axis]) [] before = filledFrom props earlier [] before :=
    filledFrom_append_axis fun _ _ => .inr fun right hright hpre =>
      hbefore (hpre.isInfix.trans hright.isInfix)
  have hright : filledFrom props (earlier ++ [axis]) (before ++ placeholder axis) rest =
      filledFrom props earlier (before ++ placeholder axis) rest :=
    filledFrom_append_axis fun _ _ => .inl List.infix_append_right
  have hsplit : ∀ {axes}, Braceless axes →
      filledAtOnce props axes (before ++ (placeholder axis ++ rest)) =
        filledFrom props axes [] before ++
          filledFrom props axes before (placeholder axis ++ rest) :=
    fun h => filledFrom_append h [] before _
  refine ⟨filledFrom props earlier (before ++ placeholder axis) rest, ?_, ?_⟩
  · rw [hsplit (hnames.of_subset (List.subset_append_left earlier [axis])),
      filledFrom_other hnames haxis, filledAtOnce]
  · rw [hsplit hnames, hleft, filledFrom_placeholder hhere, hright, filledAtOnce]

/-- Either the placeholder of one more axis is not in the template, or it stands behind what is
before it and its text takes its place. -/
theorem filledAtOnce_append_axis (hnames : Braceless (earlier ++ [axis])) (haxis : axis ∉ earlier)
    {text : List Char} (htext : axisText? props axis = some text) (template : List Char) :
    let before := filledAtOnce props earlier (beforeFirst (placeholder axis) template)
    (filledAtOnce props earlier template = before ∧
        filledAtOnce props (earlier ++ [axis]) template = before) ∨
      ∃ more, filledAtOnce props earlier template = before ++ (placeholder axis ++ more) ∧
        filledAtOnce props (earlier ++ [axis]) template = before ++ (text ++ more) := by
  by_cases hin : placeholder axis <:+: template
  · right
    rcases Text.exists_first (placeholder_ne_nil axis) hin with ⟨before, rest, rfl, hbefore⟩
    have hfirst : beforeFirst (placeholder axis) (before ++ (placeholder axis ++ rest)) = before :=
      Text.beforeFirst_append (hnames.not_mem_tail (by simp)) hbefore rest
    rw [hfirst]
    exact filledAtOnce_around hnames haxis htext hbefore rest
  · left
    rw [Text.beforeFirst_eq_self hin]
    refine ⟨rfl, filledFrom_append_axis fun _ _ => .inr fun right hright hpre => ?_⟩
    exact hin (hpre.isInfix.trans hright.isInfix)

/-- When other axes are filled, the placeholder of an axis stands before the place that it has in
the template; anywhere, if it has none. -/
def ComesUp (props : List (String × Value)) (earlier : List String) (axis : String)
    (template : List Char) : Prop :=
  placeholder axis <:+: filledAtOnce props earlier (beforeFirst (placeholder axis) template)

instance (axis : String) (template : List Char) : Decidable (ComesUp props earlier axis template) :=
  inferInstanceAs (Decidable (_ <:+: _))

/-- Filling one more placeholder in what was filled at once is the same as filling it at once with
the others, unless the placeholder has come up before its place. -/
theorem fillPlaceholder_filledAtOnce (hnames : Braceless (earlier ++ [axis]))
    (haxis : axis ∉ earlier) {template : List Char}
    (h : ∀ text, axisText? props axis = some text → ¬ ComesUp props earlier axis template) :
    fillPlaceholder props (filledAtOnce props earlier template) axis =
      filledAtOnce props (earlier ++ [axis]) template := by
  rw [fillPlaceholder_eq]
  cases htext : axisText? props axis with
  | none =>
    -- Without a value the axis changes neither side.
    refine (filledFrom_append_axis fun text hsome => ?_).symm
    rw [htext] at hsome
    cases hsome
  | some text =>
    have hup := h text htext
    rcases filledAtOnce_append_axis hnames haxis htext template with
      ⟨hone, hmore⟩ | ⟨more, hone, hmore⟩
    · rw [hone, hmore]
      exact Text.replaceFirst_eq_self hup text
    · rw [hone, hmore]
      exact Text.replaceFirst_append (hnames.not_mem_tail (by simp)) hup text more

/-- A placeholder that has come up before its place is filled there, with a text that does not look
like it. -/
theorem fillPlaceholder_filledAtOnce_ne (hnames : Braceless (earlier ++ [axis]))
    (haxis : axis ∉ earlier) {template text : List Char} (htext : axisText? props axis = some text)
    (hne : text ≠ []) (hbrace : text.head? ≠ some '\x7b')
    (hup : ComesUp props earlier axis template) :
    fillPlaceholder props (filledAtOnce props earlier template) axis ≠
      filledAtOnce props (earlier ++ [axis]) template := by
  rcases Text.exists_first (placeholder_ne_nil axis) hup with ⟨before, after, hbefore, hnot⟩
  rw [fillPlaceholder_eq, htext]
  intro heq
  -- Behind `before` the one goes on with the text, the other still with the placeholder.
  have hstart :
      ∃ more others, before ++ (text ++ more) = before ++ (placeholder axis ++ others) := by
    rcases filledAtOnce_append_axis hnames haxis htext template with
      ⟨hone, hmore⟩ | ⟨more, hone, hmore⟩
    · rw [hone, hmore, hbefore] at heq
      have hfilled := Text.replaceFirst_append (hnames.not_mem_tail (by simp)) hnot text after
      exact ⟨after, after, hfilled.symm.trans heq⟩
    · rw [hone, hmore, hbefore, List.append_assoc, List.append_assoc, List.append_assoc,
        List.append_assoc] at heq
      have hfilled := Text.replaceFirst_append (hnames.not_mem_tail (by simp)) hnot text
        (after ++ (placeholder axis ++ more))
      exact ⟨_, _, hfilled.symm.trans heq⟩
  rcases hstart with ⟨more, others, hstart⟩
  have hhead := congrArg List.head? (List.append_cancel_left hstart)
  cases text with
  | nil => exact hne rfl
  | cons c text => exact hbrace hhead

end Step

/-! ## One axis after another -/

/-- The placeholder of no axis comes up when the axes before it are filled. -/
def Undisturbed (props : List (String × Value)) (axes : List String)
    (template : List Char) : Prop :=
  ∀ i, (h : i < axes.length) → (axisText? props axes[i]).isSome →
    ¬ ComesUp props (axes.take i) axes[i] template

instance (axes : List String) (template : List Char) :
    Decidable (Undisturbed props axes template) :=
  inferInstanceAs (Decidable (∀ i, (h : i < axes.length) → _))

theorem filledAtOnce_no_axes (template : List Char) :
    filledAtOnce props [] template = template := by
  have hall : ∀ before, filledFrom props [] before template = template := by
    induction template with
    | nil => exact filledFrom_nil
    | cons c rest ih =>
      intro before
      rw [filledFrom_cons List.findSome?_nil, ih]
  exact hall []

section Run

variable {axes : List String} {template : List Char}

theorem not_mem_take_of_nodup (h : axes.Nodup) {i : Nat} (hi : i < axes.length) :
    axes[i] ∉ axes.take i := by
  have hsplit := h.sublist (List.take_sublist (i + 1) axes)
  rw [List.take_succ_eq_append_getElem hi, List.nodup_append] at hsplit
  exact fun hmem => hsplit.2.2 _ hmem _ (List.mem_singleton_self _) rfl

theorem Braceless.take_succ (h : Braceless axes) {i : Nat} (hi : i < axes.length) :
    Braceless (axes.take i ++ [axes[i]]) := by
  rw [← List.take_succ_eq_append_getElem hi]
  exact h.of_subset (List.take_subset (i + 1) axes)

theorem foldl_take_succ (template : List Char) {i : Nat} (hi : i < axes.length) :
    (axes.take (i + 1)).foldl (fillPlaceholder props) template =
      fillPlaceholder props ((axes.take i).foldl (fillPlaceholder props) template) axes[i] := by
  rw [List.take_succ_eq_append_getElem hi, List.foldl_append, List.foldl_cons, List.foldl_nil]

/-- As far as no placeholder comes up before its place, the axes are filled as if at once. -/
theorem Undisturbed.foldl_take (hnodup : axes.Nodup) (hnames : Braceless axes)
    (h : Undisturbed props axes template) (n : Nat) :
    (axes.take n).foldl (fillPlaceholder props) template =
      filledAtOnce props (axes.take n) template := by
  induction n with
  | zero => exact (filledAtOnce_no_axes template).symm
  | succ n ih =>
    rcases Nat.lt_or_ge n axes.length with hn | hn
    · rw [foldl_take_succ template hn, ih, List.take_succ_eq_append_getElem hn]
      refine fillPlaceholder_filledAtOnce (hnames.take_succ hn) (not_mem_take_of_nodup hnodup hn) ?_
      exact fun text htext => h n hn (by rw [htext]; rfl)
    · rw [List.take_of_length_le hn] at ih
      rw [List.take_of_length_le (Nat.le_succ_of_le hn), ih]

/-- A placeholder that comes up makes a difference there. -/
theorem undisturbed_of_foldl_take (hnodup : axes.Nodup) (hnames : Braceless axes)
    (htexts : ∀ axis ∈ axes, ∀ text, axisText? props axis = some text →
      text ≠ [] ∧ text.head? ≠ some '\x7b')
    (h : ∀ n, (axes.take n).foldl (fillPlaceholder props) template =
      filledAtOnce props (axes.take n) template) : Undisturbed props axes template := by
  intro i hi hsome hup
  rcases Option.isSome_iff_exists.1 hsome with ⟨text, htext⟩
  rcases htexts _ (List.getElem_mem hi) text htext with ⟨hne, hbrace⟩
  refine fillPlaceholder_filledAtOnce_ne (hnames.take_succ hi) (not_mem_take_of_nodup hnodup hi)
    htext hne hbrace hup ?_
  rw [← h i, ← foldl_take_succ template hi, h (i + 1), List.take_succ_eq_append_getElem hi]

end Run

/-! ## Templates without braces in braces -/

def isBrace (c : Char) : Bool :=
  c == '\x7b' || c == '\x7d'

/-- Behind an opening brace there is a closing one before the next that opens. -/
def Flat : List Char → Prop
  | [] => True
  | c :: rest => (c = '\x7b' → rest.find? isBrace ≠ some '\x7b') ∧ Flat rest

instance Flat.decidable : (template : List Char) → Decidable (Flat template)
  | [] => .isTrue trivial
  | c :: rest =>
    have := Flat.decidable rest
    inferInstanceAs (Decidable ((c = '\x7b' → rest.find? isBrace ≠ some '\x7b') ∧ Flat rest))

theorem Flat.of_append {left right : List Char} (h : Flat (left ++ right)) : Flat right := by
  induction left with
  | nil => exact h
  | cons c left ih => exact ih h.2

theorem Flat.of_isPrefix {left s : List Char} (h : Flat s) (hpre : left <+: s) : Flat left := by
  rcases hpre with ⟨right, rfl⟩
  induction left with
  | nil => trivial
  | cons c left ih =>
    refine ⟨fun hc hfind => h.1 hc ?_, ih h.2⟩
    rw [List.append_eq, List.find?_append, hfind, Option.some_or]

section Flat

variable {axes : List String}

/-- Where the next brace does not open, nothing is filled up to it. -/
theorem prefix_of_prefix_filledFrom {name : List Char} (hname : ∀ c ∈ name, isBrace c = false)
    {before s : List Char} (hs : s.find? isBrace ≠ some '\x7b')
    (h : name ++ ['\x7d'] <+: filledFrom props axes before s) : name ++ ['\x7d'] <+: s := by
  induction s generalizing name before with
  | nil => rwa [filledFrom_nil] at h
  | cons c s ih =>
    have hc : c ≠ '\x7b' := by
      rintro rfl
      exact hs rfl
    have hcopied :
        filledFrom props axes before (c :: s) = c :: filledFrom props axes (before ++ [c]) s :=
      filledFrom_copied (w := [c]) (by simpa using hc.symm) before s
    rw [hcopied] at h
    cases name with
    | nil => exact List.cons_prefix_cons.2 ⟨(List.cons_prefix_cons.1 h).1, List.nil_prefix⟩
    | cons d name =>
      rcases List.cons_prefix_cons.1 h with ⟨rfl, hmore⟩
      have hd : isBrace d = false := hname d List.mem_cons_self
      rw [List.find?_cons_of_neg (by simp [hd])] at hs
      exact List.cons_prefix_cons.2
        ⟨rfl, ih (fun e he => hname e (List.mem_cons_of_mem d he)) hs hmore⟩

/-- Texts without opening braces bring up no placeholder. -/
theorem Flat.infix_of_infix_filledFrom {axis : String}
    (hname : ∀ c ∈ axis.toList, isBrace c = false)
    (htexts : ∀ other ∈ axes, ∀ text, axisText? props other = some text → '\x7b' ∉ text)
    {before s : List Char} (hflat : Flat s)
    (h : placeholder axis <:+: filledFrom props axes before s) : placeholder axis <:+: s := by
  induction before, s using filledFrom_induction props axes with
  | nil before => rwa [filledFrom_nil] at h
  | filled before other text rest here ih =>
    rw [filledFrom_placeholder here] at h
    -- No placeholder begins in the text, so that it stands in what follows.
    have hnot : '\x7b' ∉ text := by
      rcases List.exists_of_findSome?_eq_some here with ⟨_, hmem, hthere⟩
      rcases textHere?_eq_some_iff.1 hthere with ⟨rfl, -, -, htext⟩
      exact htexts _ hmem text htext
    exact (ih hflat.of_append (Text.infix_of_infix_append hnot h)).trans List.infix_append_right
  | copied before c rest here ih =>
    rw [filledFrom_cons here] at h
    rcases List.infix_cons_iff.1 h with hpre | hin
    · rcases List.cons_prefix_cons.1 hpre with ⟨rfl, htail⟩
      have hrest := prefix_of_prefix_filledFrom hname (hflat.1 rfl) htail
      exact (List.cons_prefix_cons.2 ⟨rfl, hrest⟩).isInfix
    · exact List.infix_cons (ih hflat.2 hin)

/-- In a flat template no text without opening braces disturbs another axis. -/
theorem Flat.undisturbed (hnames : Braceless axes)
    (htexts : ∀ axis ∈ axes, ∀ text, axisText? props axis = some text → '\x7b' ∉ text)
    {template : List Char} (hflat : Flat template) : Undisturbed props axes template := by
  intro i hi _ hup
  have hname : ∀ c ∈ axes[i].toList, isBrace c = false := by
    intro c hc
    have hnot := hnames _ (List.getElem_mem hi)
    rw [isBrace, Bool.or_eq_false_iff, beq_eq_false_iff_ne, beq_eq_false_iff_ne]
    exact ⟨fun heq => hnot.1 (heq ▸ hc), fun heq => hnot.2 (heq ▸ hc)⟩
  have hbefore := hflat.of_isPrefix (Text.beforeFirst_isPrefix (placeholder axes[i]) template)
  exact Text.not_infix_beforeFirst (placeholder_ne_nil _) template
    (hbefore.infix_of_infix_filledFrom hname
      (fun other hother => htexts other (List.mem_of_mem_take hother)) hup)

end Flat

/-! ## Filling -/

/-- The placeholders of distinct axes are filled as if at once, in whatever order the axes come, if
no placeholder comes up before its place in the template; so it is in flat templates with texts that
have no opening brace. Otherwise the first placeholder that comes up makes a difference, unless its
text is empty or begins with such a brace itself. -/
theorem placeholders_filled_at_once (template : String) (props : List (String × Value))
    {axes : List String} (hnodup : axes.Nodup) (hnames : Braceless axes) :
    (∀ order, order.Perm axes → Undisturbed props order template.toList →
        fillTemplate template props order =
          String.ofList (filledAtOnce props axes template.toList)) ∧
      (Flat template.toList →
        (∀ axis ∈ axes, ∀ text, axisText? props axis = some text → '\x7b' ∉ text) →
        ∀ order, order.Perm axes → fillTemplate template props order =
          String.ofList (filledAtOnce props axes template.toList)) ∧
      ((∀ axis ∈ axes, ∀ text, axisText? props axis = some text →
          text ≠ [] ∧ text.head? ≠ some '\x7b') →
        ((∀ n, fillTemplate template props (axes.take n) =
            String.ofList (filledAtOnce props (axes.take n) template.toList)) ↔
          Undisturbed props axes template.toList)) := by
  have hordered : ∀ order, order.Perm axes → Undisturbed props order template.toList →
      fillTemplate template props order =
        String.ofList (filledAtOnce props axes template.toList) := by
    intro order hperm h
    have hbraces := hnames.of_subset hperm.subset
    have hrun := h.foldl_take (hperm.nodup_iff.2 hnodup) hbraces order.length
    rw [List.take_length] at hrun
    rw [fillTemplate, hrun, filledAtOnce, filledFrom_perm hbraces hperm, filledAtOnce]
  refine ⟨hordered, fun hflat htexts order hperm => ?_, fun htexts => ?_⟩
  · refine hordered order hperm (hflat.undisturbed (hnames.of_subset hperm.subset) ?_)
    exact fun axis haxis => htexts axis (hperm.subset haxis)
  · simp only [fillTemplate, String.ofList_inj]
    exact ⟨undisturbed_of_foldl_take hnodup hnames htexts, fun h => h.foldl_take hnodup hnames⟩

/-- In one order the text of an axis is taken for the placeholder of the other one. -/
theorem placeholders_filled_at_once_orders :
    let props : List (String × Value) := [("a", .text "see \x7bb\x7d"), ("b", .text "x")]
    let template := "\x7ba\x7d \x7bb\x7d"
    ["a", "b"].Nodup ∧ Braceless ["a", "b"] ∧ ["b", "a"].Perm ["a", "b"] ∧
      Undisturbed props ["b", "a"] template.toList ∧
      fillTemplate template props ["b", "a"] = "See \x7bb\x7d X" ∧
      ¬ Undisturbed props ["a", "b"] template.toList ∧
      fillTemplate template props ["a", "b"] = "See X \x7bb\x7d" := by
  intro props template
  have hnodup : ["a", "b"].Nodup := by decide
  have hnames : Braceless ["a", "b"] := by decide
  have hperm : ["b", "a"].Perm ["a", "b"] := by decide
  have hundisturbed : Undisturbed props ["b", "a"] template.toList := by decide +kernel
  have hfilled := (placeholders_filled_at_once template props hnodup hnames).1 _ hperm hundisturbed
  refine ⟨hnodup, hnames, hperm, hundisturbed, hfilled.trans ?_, ?_, ?_⟩
  all_goals decide +kernel

end PropCatalog
