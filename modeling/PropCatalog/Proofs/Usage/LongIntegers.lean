import PropCatalog.Proofs.Usage.AssignedValues
import PropCatalog.Proofs.Usage.Literals

/-!
# Long integers — when examples cannot be made

The one text that denotes no value is that of an integer with too many digits. The examples of a
component cannot be made if such a text is that of a prop whose value one of them needs, and then
there are none at all.

- `Overlong`            : the texts that denote no value
- `ReadsValue`          : the props whose value is needed for some example
- `exists_fillProps_eq_ok_iff`, `exists_defaultUsage_eq_ok_iff` : assignments that can be completed
- `variants_error_iff`  : the components whose examples cannot be made
-/

namespace PropCatalog

open Text Number

/-! ## Texts without a value -/

/-- A sign and more digits than are read, with a line feed after them or without. -/
def IsLongInteger (cs : List Char) : Prop :=
  ∃ sign digits, IsSign sign ∧ Digits digits ∧ 4300 < digits.length ∧
    (cs = sign ++ digits ∨ cs = sign ++ digits ++ ['\n'])

/-- A text that is no markup and whose content is a long integer, in quotes or not. -/
def Overlong (text : String) : Prop :=
  (¬ ∃ inner, trim text.toList = '<' :: (inner ++ ['>'])) ∧
    ∃ content, Unquoted (trim text.toList) content ∧ IsLongInteger content

/-- A prop whose value is said by such a text. -/
def PropSpec.IsOverlong (p : PropSpec) : Prop :=
  ∃ text, p.valueText? = some text ∧ Overlong text

/-- A prop has no value that can be written: its text denotes none, or it has no text and too long
an integer stands in for it. -/
def PropSpec.LacksValue (fallbacks : Fallbacks) (name : String) (p : PropSpec) : Prop :=
  p.IsOverlong ∨ p.valueText? = none ∧ (p.standIn fallbacks name).isWritable = false

theorem eq_tooManyDigits_iff {α : Type} {x : Except LiteralError α} :
    x = .error .tooManyDigits ↔ ¬ ∃ a, x = .ok a := by
  cases x with
  | error e => cases e; simp
  | ok a => simp

theorem numeralValue_eq_error_iff {n : Numeral} :
    numeralValue n = .error .tooManyDigits ↔ n.isInteger = true ∧ 4300 < n.whole.length := by
  unfold numeralValue digitLimit
  split
  · rename_i hinteger
    split
    · simp [hinteger]
      omega
    · simp [hinteger]
      omega
  · rename_i hinteger
    simp [hinteger]

theorem isLongInteger_iff {cs : List Char} :
    IsLongInteger cs ↔
      ∃ n, numeralLine? cs = some n ∧ n.isInteger = true ∧ 4300 < n.whole.length := by
  constructor
  · rintro ⟨sign, digits, hsign, hdigits, hlong, hcs⟩
    have hsome : digits ≠ [] := List.ne_nil_of_length_pos (by omega)
    have hread := numeral?_integer_iff.2 ⟨sign, digits, hsign, hdigits, hsome, rfl, rfl⟩
    exact ⟨_, numeralLine?_eq_some_iff.2 ⟨_, hread.1, hcs⟩, hread.2, hlong⟩
  · rintro ⟨n, hn, hinteger, hlong⟩
    rcases numeralLine?_eq_some_iff.1 hn with ⟨body, hbody, hcs⟩
    rcases numeral?_integer_iff.1 ⟨hbody, hinteger⟩ with
      ⟨sign, digits, hsign, hdigits, -, rfl, rfl⟩
    exact ⟨sign, digits, hsign, hdigits, hlong, hcs⟩

theorem contentValue_eq_error_iff {content : List Char} :
    contentValue content = .error .tooManyDigits ↔ IsLongInteger content := by
  rw [isLongInteger_iff]
  cases hline : numeralLine? content with
  | none =>
    -- Without a numeral there is a truth value or a text.
    simp only [contentValue, hline]
    split
    · simp
    · split <;> simp
  | some n =>
    rw [contentValue_of_numeralLine? hline, numeralValue_eq_error_iff]
    simp

theorem readLiteral_eq_error_iff {text : String} :
    readLiteral text = .error .tooManyDigits ↔ Overlong text := by
  -- Markup is read as a text, so only what is in quotes or without any can be an integer.
  rw [readLiteral_eq, Overlong, ← isMarkup_iff]
  by_cases hmarkup : isMarkup (trim text.toList) = true
  · simp [hmarkup]
  · simp only [hmarkup, not_false_eq_true, true_and, Bool.false_eq_true, if_false, unquoted_iff,
      exists_eq_left', contentValue_eq_error_iff]

theorem isWritable_of_readLiteral {text : String} {value : Value}
    (h : readLiteral text = .ok value) : value.isWritable = true := by
  rcases readLiteral_cases h with ⟨-, hwritable⟩ | ⟨n, rfl⟩
  · exact hwritable
  · rfl

/-- A prop has a value that can be written unless the text that says which one it is denotes none,
or there is no such text and the value that stands in for it cannot be written. -/
theorem exists_inferValue_eq_ok_iff (fallbacks : Fallbacks) (name : String) {p : PropSpec} :
    (∃ value, inferValue fallbacks name p = .ok value ∧ value.isWritable = true) ↔
      ¬ p.LacksValue fallbacks name := by
  unfold PropSpec.LacksValue PropSpec.IsOverlong
  cases htext : p.valueText? with
  | some text =>
    rw [inferValue_of_valueText? fallbacks name htext]
    simp only [Option.some.injEq, exists_eq_left', ← readLiteral_eq_error_iff,
      eq_tooManyDigits_iff, reduceCtorEq, false_and, or_false, not_not]
    exact ⟨fun ⟨value, hvalue, _⟩ => ⟨value, hvalue⟩,
      fun ⟨value, hvalue⟩ => ⟨value, hvalue, isWritable_of_readLiteral hvalue⟩⟩
  | none =>
    rw [inferValue_of_no_text fallbacks name htext]
    simp

/-- Where all fallbacks can be written, only a text can denote no value. -/
theorem lacksValue_iff_isOverlong {fallbacks : Fallbacks}
    (hfallbacks : ∀ e ∈ fallbacks, e.2.isWritable = true) (name : String) (p : PropSpec) :
    p.LacksValue fallbacks name ↔ p.IsOverlong := by
  refine or_iff_left ?_
  rintro ⟨-, hunwritable⟩
  have hwritable : (p.standIn fallbacks name).isWritable = true := by
    rcases p.standIn_cases fallbacks name with ⟨key, hkey⟩ | ⟨-, hbuilt⟩
    · rw [hkey]
      cases hget : Assoc.get? fallbacks key with
      | none => rfl
      | some value => exact hfallbacks _ (Assoc.mem_of_get? hget)
    · exact hbuilt
  rw [hwritable] at hunwritable
  cases hunwritable

/-! ## Completed assignments -/

open Value

theorem exists_addInferred_eq_ok_iff {fallbacks : Fallbacks} {acc : List (String × Value)}
    {name : String} {p : PropSpec} :
    (∃ acc', addInferred fallbacks acc name p = .ok acc' ∧ entriesWritable acc' = true) ↔
      entriesWritable acc = true ∧ ¬ p.LacksValue fallbacks name := by
  rw [← exists_inferValue_eq_ok_iff fallbacks name]
  constructor
  · rintro ⟨acc', h, hacc'⟩
    rcases addInferred_eq_ok h with ⟨value, hvalue, ⟨rfl, rfl⟩ | ⟨-, rfl⟩⟩
    · exact ⟨hacc', .null, hvalue, rfl⟩
    · rw [entriesWritable_iff, List.forall_mem_append, List.forall_mem_singleton] at hacc'
      exact ⟨entriesWritable_iff.2 hacc'.1, value, hvalue, hacc'.2⟩
  · rintro ⟨hacc, value, hvalue, hwritable⟩
    have hadded : entriesWritable (acc ++ [(name, value)]) = true := by
      rw [entriesWritable_iff, List.forall_mem_append, List.forall_mem_singleton]
      exact ⟨entriesWritable_iff.1 hacc, hwritable⟩
    unfold addInferred
    rw [hvalue]
    cases value with
    | null => exact ⟨acc, rfl, hacc⟩
    | bool | int | float | text | list | map => exact ⟨_, rfl, hadded⟩

theorem exists_requireStep_eq_ok_iff {options : VariantOptions} {acc : List (String × Value)}
    {entry : String × PropSpec} :
    (∃ acc', requireStep options acc entry = .ok acc' ∧ entriesWritable acc' = true) ↔
      entriesWritable acc = true ∧
        (entry.2.optional = false → ¬ entry.2.LacksValue options.fallbacks entry.1) := by
  unfold requireStep
  cases entry.2.optional with
  | true => simp [pure, Except.pure]
  | false =>
    simp only [Bool.false_eq_true, if_false, true_implies]
    exact exists_addInferred_eq_ok_iff

/-- An example can be made of an assignment that can be written. -/
theorem exists_bind_writeUsage_eq_ok_iff {assign : Except LiteralError (List (String × Value))}
    {c : Component} {varied : List String} {isPermutation : Bool} :
    (∃ u, (assign >>= fun props => writeUsage c props varied isPermutation) = .ok u) ↔
      ∃ props, assign = .ok props ∧ entriesWritable props = true := by
  simp only [bind_writeUsage_eq_ok_iff]
  constructor
  · rintro ⟨u, props, hprops, hwritable, -⟩
    exact ⟨props, hprops, hwritable⟩
  · rintro ⟨props, hprops, hwritable⟩
    exact ⟨_, props, hprops, hwritable, rfl⟩

theorem exists_defaultUsage_eq_ok_iff {options : VariantOptions} {c : Component} :
    (∃ u, defaultUsage options c = .ok u) ↔
      ∀ entry ∈ c.props, entry.2.hidden = false → entry.2.optional = false →
        ¬ entry.2.LacksValue options.fallbacks entry.1 := by
  have hfold : (∃ props, (visibleProps c).foldlM (requireStep options) [] = .ok props ∧
      entriesWritable props = true) ↔ entriesWritable [] = true ∧ ∀ entry ∈ visibleProps c,
        entry.2.optional = false → ¬ entry.2.LacksValue options.fallbacks entry.1 := by
    -- No step looks at what was added before it, so that nothing has to be kept.
    refine exists_foldlM_eq_ok_iff (fun _ _ => True) ?_ (fun _ _ => trivial) trivial
    intro acc entry rest _
    exact exists_requireStep_eq_ok_iff
  rw [defaultUsage_eq_visible, exists_bind_writeUsage_eq_ok_iff, hfold]
  simp [visibleProps, entriesWritable]

section Filling

variable {options : VariantOptions} {assigned : List (String × Value)}

/-- Of the props ahead, those are there that were assigned to begin with. -/
structure FillsRest (assigned acc : List (String × Value)) (rest : List (String × PropSpec)) :
    Prop where
  keys : (rest.map (·.1)).Nodup
  assigned : ∀ entry ∈ rest, entry.1 ∈ acc.map (·.1) ↔ entry.1 ∈ assigned.map (·.1)

theorem exists_fillStep_eq_ok_iff {acc : List (String × Value)} {entry : String × PropSpec} :
    (∃ acc', fillStep options acc entry = .ok acc' ∧ entriesWritable acc' = true) ↔
      entriesWritable acc = true ∧ (entry.1 ∉ acc.map (·.1) → entry.2.IsFilled →
        ¬ entry.2.LacksValue options.fallbacks entry.1) := by
  have hunchanged : (∃ acc', (pure acc : Except LiteralError _) = .ok acc' ∧
      entriesWritable acc' = true) ↔ entriesWritable acc = true := by
    simp [pure, Except.pure]
  unfold fillStep PropSpec.IsFilled
  rw [← Assoc.has_iff_mem_keys, ← fills_iff]
  split
  · -- A prop that is assigned or hidden is passed over.
    rename_i hskip
    rw [hunchanged]
    refine (and_iff_left fun hnot hfilled => ?_).symm
    rw [hfilled.1, Bool.or_false] at hskip
    exact absurd hskip hnot
  · rename_i hskip
    rw [Bool.or_eq_true, not_or, Bool.not_eq_true, Bool.not_eq_true] at hskip
    split
    · rename_i hfill
      simp only [hskip, hfill, Bool.false_eq_true, not_false_eq_true, true_and, true_implies]
      exact exists_addInferred_eq_ok_iff
    · rename_i hfill
      rw [hunchanged]
      exact (and_iff_left fun _ hfilled => absurd hfilled.2 hfill).symm

/-- A step adds its own prop only, and this one is not among those ahead of it. -/
theorem FillsRest.step {acc acc' : List (String × Value)} {entry : String × PropSpec}
    {rest : List (String × PropSpec)} (h : FillsRest assigned acc (entry :: rest))
    (hstep : fillStep options acc entry = .ok acc') : FillsRest assigned acc' rest := by
  have hkeys := List.nodup_cons.1 (List.map_cons ▸ h.keys)
  refine ⟨hkeys.2, fun other hother => ?_⟩
  have hne : other.1 ≠ entry.1 := by
    intro heq
    exact hkeys.1 (heq ▸ List.mem_map_of_mem hother)
  rw [mem_keys_fillStep_iff hstep, ← h.assigned other (List.mem_cons_of_mem _ hother)]
  exact or_iff_left fun hentry => hne hentry.1

/-- An assignment can be completed if every prop that is filled in has a value. -/
theorem exists_fillProps_eq_ok_iff {c : Component} (hkeys : (c.props.map (·.1)).Nodup)
    (hassigned : entriesWritable assigned = true) :
    (∃ props, fillProps options c assigned = .ok props ∧ entriesWritable props = true) ↔
      ∀ entry ∈ c.props, entry.1 ∉ assigned.map (·.1) → entry.2.IsFilled →
        ¬ entry.2.LacksValue options.fallbacks entry.1 := by
  rw [fillProps_eq, ← and_iff_right hassigned (b := ∀ entry ∈ c.props, _)]
  -- Names are distinct, so a prop that is met is there only if it was assigned to begin with.
  refine exists_foldlM_eq_ok_iff (FillsRest assigned) ?_ FillsRest.step ⟨hkeys, fun _ _ => .rfl⟩
  intro acc entry rest hfits
  rw [exists_fillStep_eq_ok_iff, hfits.assigned entry List.mem_cons_self]

end Filling

/-! ## Examples -/

/-- Whether some example needs the value of a prop. Without axes, the required props are needed;
with axes, those with a default as well, but not the only axis, which every example assigns. -/
def ReadsValue (c : Component) (entry : String × PropSpec) : Prop :=
  entry.2.hidden = false ∧
    (axisEntries c = [] ∧ entry.2.optional = false ∨
      axisEntries c ≠ [] ∧ axisEntries c ≠ [entry] ∧
        (entry.2.optional = false ∨ ∃ text, entry.2.default = some text ∧ text ≠ ""))

theorem exists_variants_of_no_axes {options : VariantOptions} {c : Component}
    (haxes : axisEntries c = []) :
    (∃ r, variants options c = .ok r) ↔ ∃ u, defaultUsage options c = .ok u := by
  have haxes' : (axes c.props).isEmpty = true := by rw [axes_eq, haxes]; rfl
  cases hprops : c.props.isEmpty with
  | true =>
    refine iff_of_true ⟨([], []), ?_⟩ (exists_defaultUsage_eq_ok_iff.2 ?_)
    · simp only [variants, hprops, if_true]
      rfl
    · rw [List.isEmpty_iff.1 hprops]
      exact fun entry hentry => absurd hentry List.not_mem_nil
  | false =>
    simp only [variants, hprops, haxes', Bool.false_eq_true, if_false, if_true]
    exact exists_bind_pure_eq_ok_iff

section Axes

variable {options : VariantOptions} {c : Component} (hkeys : (c.props.map (·.1)).Nodup)

include hkeys

/-- There is another axis than a prop unless it is the only one. -/
theorem exists_axis_ne_iff (haxes : axisEntries c ≠ []) {entry : String × PropSpec}
    (hentry : entry ∈ c.props) :
    (∃ axis ∈ axisEntries c, entry.1 ≠ axis.1) ↔ axisEntries c ≠ [entry] := by
  have hnodup : (axisEntries c).Nodup := (List.Nodup.of_map _ hkeys).filter _
  rw [hnodup.ne_singleton_iff, or_iff_right haxes]
  refine exists_congr fun axis => and_congr_right fun haxis => not_congr ?_
  constructor
  · intro heq
    exact List.inj_on_of_nodup_map hkeys (List.mem_of_mem_filter haxis) hentry heq.symm
  · rintro rfl
    rfl

theorem exists_singles_eq_ok_iff (haxes : axisEntries c ≠ []) :
    (∃ single, singles options c (axes c.props) = .ok single) ↔
      ∀ entry ∈ c.props, axisEntries c ≠ [entry] → entry.2.IsFilled →
        ¬ entry.2.LacksValue options.fallbacks entry.1 := by
  have husage : ∀ axis value, (∃ u, singleUsage options c axis value = .ok u) ↔
      ∀ entry ∈ c.props, entry.1 ≠ axis → entry.2.IsFilled →
        ¬ entry.2.LacksValue options.fallbacks entry.1 := by
    intro axis value
    rw [singleUsage, exists_bind_writeUsage_eq_ok_iff, exists_fillProps_eq_ok_iff hkeys rfl]
    simp only [List.map_singleton, List.mem_singleton]
  rw [singles_eq hkeys, exists_mapM_eq_ok_iff]
  constructor
  · intro hall entry hentry honly
    -- Another axis has a value, and its example fills the prop in.
    rcases (exists_axis_ne_iff hkeys haxes hentry).2 honly with ⟨axis, haxis, hne⟩
    have hvalues : axis.2.values.getD [] ≠ [] := by
      have haxis' := List.of_mem_filter haxis
      simp only [Bool.and_eq_true, Bool.not_eq_true', List.isEmpty_eq_false_iff] at haxis'
      exact haxis'.2
    rcases List.exists_mem_of_ne_nil _ hvalues with ⟨value, hvalue⟩
    have husage' := hall (axis.1, value)
      (List.mem_flatMap.2 ⟨axis, haxis, List.mem_map.2 ⟨value, hvalue, rfl⟩⟩)
    exact (husage axis.1 value).1 husage' entry hentry hne
  · rintro hall ⟨axis, value⟩ hpair
    rcases List.mem_flatMap.1 hpair with ⟨p, hp, hmem⟩
    rcases List.mem_map.1 hmem with ⟨_, -, heq⟩
    cases heq
    refine (husage p.1 value).2 fun entry hentry hne => hall entry hentry ?_
    exact (exists_axis_ne_iff hkeys haxes hentry).1 ⟨p, hp, hne⟩

/-- With a single axis no axes are varied together, and with several of them no prop is the only
axis. -/
theorem exists_permutations_eq_ok
    (hall : ∀ entry ∈ c.props, axisEntries c ≠ [entry] → entry.2.IsFilled →
      ¬ entry.2.LacksValue options.fallbacks entry.1) :
    ∃ permuted, permutations options c (axes c.props) = .ok permuted := by
  refine exists_bind_pure_eq_ok_iff.2 (exists_mapM_eq_ok_iff.2 fun choice hchoice => ?_)
  -- What is assigned to begin with are values of axes, which are texts.
  have hassigned : entriesWritable choice.2 = true := by
    refine entriesWritable_iff.2 fun e he => ?_
    rcases assignsOwn_of_mem_chooseAssignments hchoice he with ⟨text, -, hvalue⟩
    rw [hvalue]
    rfl
  have htwo : 2 ≤ (axisEntries c).length := by
    by_contra hfew
    rw [fst_chooseAssignments_axisSets hkeys, enumeration_eq_nil hfew] at hchoice
    cases hchoice
  refine exists_bind_writeUsage_eq_ok_iff.2 ((exists_fillProps_eq_ok_iff hkeys hassigned).2 ?_)
  intro entry hentry _
  refine hall entry hentry fun honly => ?_
  rw [honly] at htwo
  exact absurd htwo (by simp)

theorem exists_variants_of_axes (haxes : axisEntries c ≠ []) :
    (∃ r, variants options c = .ok r) ↔
      ∀ entry ∈ c.props, axisEntries c ≠ [entry] → entry.2.IsFilled →
        ¬ entry.2.LacksValue options.fallbacks entry.1 := by
  have haxes' : (axes c.props).isEmpty = false := by
    rw [axes_eq, List.isEmpty_map, List.isEmpty_eq_false_iff]
    exact haxes
  have hprops : c.props.isEmpty = false := by
    rw [List.isEmpty_eq_false_iff]
    intro hnil
    exact haxes (by rw [axisEntries, hnil, List.filter_nil])
  rw [← exists_singles_eq_ok_iff hkeys haxes]
  simp only [variants, hprops, haxes', Bool.false_eq_true, if_false]
  constructor
  · rintro ⟨r, hr⟩
    rcases bind_eq_ok_iff.1 hr with ⟨single, hsingle, -⟩
    exact ⟨single, hsingle⟩
  · rintro ⟨single, hsingle⟩
    -- Where the examples of single values can be made, those of several axes can.
    rcases exists_permutations_eq_ok hkeys
      ((exists_singles_eq_ok_iff hkeys haxes).1 ⟨single, hsingle⟩) with ⟨permuted, hpermuted⟩
    exact ⟨_, bind_eq_ok_iff.2 ⟨single, hsingle, bind_eq_ok_iff.2 ⟨permuted, hpermuted, rfl⟩⟩⟩

theorem exists_variants_eq_ok_iff :
    (∃ r, variants options c = .ok r) ↔
      ∀ entry ∈ c.props, ReadsValue c entry →
        ¬ entry.2.LacksValue options.fallbacks entry.1 := by
  by_cases haxes : axisEntries c = []
  · rw [exists_variants_of_no_axes haxes, exists_defaultUsage_eq_ok_iff]
    refine forall₂_congr fun entry _ => ?_
    simp [ReadsValue, haxes]
  · rw [exists_variants_of_axes hkeys haxes]
    refine forall₂_congr fun entry _ => ?_
    simp only [ReadsValue, haxes, PropSpec.IsFilled, false_and, false_or, ne_eq, not_false_eq_true,
      true_and]
    constructor
    · rintro hentry ⟨hshown, honly, hneeded⟩
      exact hentry honly ⟨hshown, hneeded⟩
    · rintro hentry honly ⟨hshown, hneeded⟩
      exact hentry ⟨hshown, honly, hneeded⟩

end Axes

/-- The examples of a component cannot be made exactly if some example needs the value of a prop
that has none that can be written, and the error is that of too many digits then. In all other cases
they are made. If the fallbacks can be written, as the ones built in, then these are the props whose
text is an integer with too many digits. -/
theorem variants_error_iff (options : VariantOptions) (c : Component)
    (hkeys : (c.props.map (·.1)).Nodup) :
    (variants options c = .error .tooManyDigits ↔
      ∃ entry ∈ c.props, ReadsValue c entry ∧ entry.2.LacksValue options.fallbacks entry.1) ∧
    ((∃ usages notes, variants options c = .ok (usages, notes)) ↔
      ¬ ∃ entry ∈ c.props, ReadsValue c entry ∧ entry.2.LacksValue options.fallbacks entry.1) ∧
    ((∀ e ∈ options.fallbacks, e.2.isWritable = true) →
      (variants options c = .error .tooManyDigits ↔
        ∃ entry ∈ c.props, ReadsValue c entry ∧
          ∃ text, entry.2.valueText? = some text ∧ Overlong text) ∧
      ((∃ usages notes, variants options c = .ok (usages, notes)) ↔
        ¬ ∃ entry ∈ c.props, ReadsValue c entry ∧
          ∃ text, entry.2.valueText? = some text ∧ Overlong text)) := by
  have hok : (∃ usages notes, variants options c = .ok (usages, notes)) ↔
      ¬ ∃ entry ∈ c.props, ReadsValue c entry ∧
        entry.2.LacksValue options.fallbacks entry.1 := by
    rw [← Prod.exists (p := fun r => variants options c = .ok r), exists_variants_eq_ok_iff hkeys]
    simp only [not_exists, not_and]
  have herror : variants options c = .error .tooManyDigits ↔
      ∃ entry ∈ c.props, ReadsValue c entry ∧
        entry.2.LacksValue options.fallbacks entry.1 := by
    rw [eq_tooManyDigits_iff, Prod.exists, hok, not_not]
  refine ⟨herror, hok, fun hfallbacks => ?_⟩
  simp only [lacksValue_iff_isOverlong hfallbacks, PropSpec.IsOverlong] at herror hok
  exact ⟨herror, hok⟩

/-- A counter that starts at an integer of so many ones, written in quotes. -/
def counter (digits : Nat) : Component where
  name := "Counter"
  props := [
    ("start", { type := "bigint",
                sample := some (written [] ['\''] (List.replicate digits '1') []) }),
    ("tone", { type := "Tone", optional := true, values := some ["info"],
               renderVariants := true })]

theorem overlong_ones_iff (digits : Nat) :
    Overlong (written [] ['\''] (List.replicate digits '1') []) ↔ 4300 < digits := by
  have hblanks : Blanks [] := fun _ hc => absurd hc List.not_mem_nil
  rw [← readLiteral_eq_error_iff, readLiteral_quoted hblanks hblanks rfl,
    contentValue_eq_error_iff]
  constructor
  · rintro ⟨sign, ones, -, -, hlong, hcs⟩
    rcases hcs with hcs | hcs
    · have hlength := congrArg List.length hcs
      simp only [List.length_replicate, List.length_append] at hlength
      omega
    · have hlength := congrArg List.length hcs
      simp only [List.length_replicate, List.length_append, List.length_singleton] at hlength
      omega
  · intro hlong
    refine ⟨[], List.replicate digits '1', .inl rfl, ?_, by simpa using hlong, .inl rfl⟩
    intro c hc
    rw [List.eq_of_mem_replicate hc]
    decide

/-- The integer of a counter is needed for the example of its tone. -/
theorem needs_overlong_counter_iff (digits : Nat) :
    (∃ entry ∈ (counter digits).props, ReadsValue (counter digits) entry ∧
      ∃ text, entry.2.valueText? = some text ∧ Overlong text) ↔ 4300 < digits := by
  have hgiven : given? (some (written [] ['\''] (List.replicate digits '1') [])) =
      some (written [] ['\''] (List.replicate digits '1') []) := by
    refine Option.filter_eq_some_iff.2 ⟨rfl, ?_⟩
    rw [bne_iff_ne, ne_eq, ← String.toList_inj]
    simp [written]
  rw [← overlong_ones_iff]
  constructor
  · rintro ⟨entry, hentry, -, text, htext, hlong⟩
    simp only [counter, List.mem_cons, List.not_mem_nil, or_false] at hentry
    rcases hentry with rfl | rfl
    · rw [PropSpec.valueText?, hgiven] at htext
      cases htext
      exact hlong
    · cases htext
  · intro hlong
    refine ⟨_, List.mem_cons_self, ⟨rfl, .inr ⟨?_, ?_, .inl rfl⟩⟩, _, ?_, hlong⟩
    · exact List.cons_ne_nil _ _
    · intro heq
      have hnames := congrArg (List.map Prod.fst) heq
      exact absurd (show ["tone"] = ["start"] from hnames) (by decide)
    · rw [PropSpec.valueText?, hgiven]
      rfl

theorem variants_error_iff_counter :
    ((counter 4301).props.map (·.1)).Nodup ∧ ((counter 4300).props.map (·.1)).Nodup ∧
      (∀ e ∈ defaultFallbacks, e.2.isWritable = true) ∧
      variants {} (counter 4301) = .error .tooManyDigits ∧
      ∃ usages notes, variants {} (counter 4300) = .ok (usages, notes) := by
  have hkeys : ∀ digits, ((counter digits).props.map (·.1)).Nodup := by
    intro digits
    show ["start", "tone"].Nodup
    decide
  have hfallbacks : ∀ e ∈ defaultFallbacks, e.2.isWritable = true := by decide
  refine ⟨hkeys _, hkeys _, hfallbacks, ?_, ?_⟩
  · exact ((variants_error_iff {} (counter 4301) (hkeys _)).2.2 hfallbacks).1.2
      ((needs_overlong_counter_iff 4301).2 (by decide))
  · refine ((variants_error_iff {} (counter 4300) (hkeys _)).2.2 hfallbacks).2.2 fun hneeds => ?_
    exact absurd ((needs_overlong_counter_iff 4300).1 hneeds) (by decide)

end PropCatalog
