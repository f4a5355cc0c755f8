import PropCatalog.Proofs.Assoc
import PropCatalog.Proofs.Fallible
import PropCatalog.Proofs.Value.Writable
import PropCatalog.Usage.Variants

/-!
# Filled props — which props an example assigns

Every example begins with an assignment of some axes, which `fillProps` completes:

- `mem_keys_fillProps_iff` : the keys of a completed assignment
- `bind_writeUsage_eq_ok_iff` : an example is made of an assignment that can be written
- `mem_variants_cases`     : where an example of a component comes from
- `isWritable_of_mem_variants` : examples can be written
-/

namespace PropCatalog

/-! ## Completed assignments -/

/-- Whether a prop is filled in where it is not assigned: it is shown, and it is required or has a
default. -/
def PropSpec.IsFilled (p : PropSpec) : Prop :=
  p.hidden = false ∧ (p.optional = false ∨ ∃ text, p.default = some text ∧ text ≠ "")

theorem isSome_given?_iff {text : Option String} :
    (given? text).isSome = true ↔ ∃ s, text = some s ∧ s ≠ "" := by
  cases text with
  | none => simp [given?]
  | some s => simp [given?]

theorem fills_iff {p : PropSpec} :
    (!p.optional || (given? p.default).isSome) = true ↔
      p.optional = false ∨ ∃ text, p.default = some text ∧ text ≠ "" := by
  rw [Bool.or_eq_true, Bool.not_eq_true', isSome_given?_iff]

/-- An inferred value is added at the end unless it is null. -/
theorem addInferred_eq_ok {fallbacks : Fallbacks} {acc acc' : List (String × Value)} {name : String}
    {prop : PropSpec} (h : addInferred fallbacks acc name prop = .ok acc') :
    ∃ value, inferValue fallbacks name prop = .ok value ∧
      ((value = .null ∧ acc' = acc) ∨ (value ≠ .null ∧ acc' = acc ++ [(name, value)])) := by
  rcases bind_eq_ok_iff.1 h with ⟨value, hvalue, hadd⟩
  refine ⟨value, hvalue, ?_⟩
  cases value with
  | null =>
    cases hadd
    exact Or.inl ⟨rfl, rfl⟩
  | bool | int | float | text | list | map =>
    cases hadd
    exact Or.inr ⟨by simp, rfl⟩

/-- One prop of a component is looked at. -/
def fillStep (options : VariantOptions) (acc : List (String × Value)) (entry : String × PropSpec) :
    Except LiteralError (List (String × Value)) :=
  if Assoc.has acc entry.1 || entry.2.hidden then pure acc
  else if !entry.2.optional || (given? entry.2.default).isSome then
    addInferred options.fallbacks acc entry.1 entry.2
  else pure acc

theorem fillProps_eq (options : VariantOptions) (c : Component) (assigned : List (String × Value)) :
    fillProps options c assigned = c.props.foldlM (fillStep options) assigned := rfl

/-- What a prop adds to the keys: its own one, if it is filled in by a value. -/
theorem mem_keys_fillStep_iff {options : VariantOptions} {acc acc' : List (String × Value)}
    {entry : String × PropSpec} (h : fillStep options acc entry = .ok acc') (key : String) :
    key ∈ acc'.map (·.1) ↔
      key ∈ acc.map (·.1) ∨
        key = entry.1 ∧ entry.2.IsFilled ∧
          ∃ value, inferValue options.fallbacks entry.1 entry.2 = .ok value ∧ value ≠ .null := by
  unfold fillStep at h
  by_cases hskip : (Assoc.has acc entry.1 || entry.2.hidden) = true
  · -- A prop that is assigned or hidden adds nothing, and its key is there only if assigned.
    rw [if_pos hskip] at h
    cases h
    constructor
    · exact Or.inl
    · intro hcase
      rcases hcase with hmem | ⟨rfl, hfilled, -⟩
      · exact hmem
      · rw [hfilled.1, Bool.or_false] at hskip
        exact Assoc.has_iff_mem_keys.1 hskip
  · rw [if_neg hskip] at h
    have hhidden : entry.2.hidden = false := by
      cases hh : entry.2.hidden
      · rfl
      · simp [hh] at hskip
    by_cases hfill : (!entry.2.optional || (given? entry.2.default).isSome) = true
    · rw [if_pos hfill] at h
      have hfilled : entry.2.IsFilled := ⟨hhidden, fills_iff.1 hfill⟩
      rcases addInferred_eq_ok h with ⟨value, hvalue, ⟨hnull, rfl⟩ | ⟨hne, rfl⟩⟩
      · constructor
        · exact Or.inl
        · intro hcase
          rcases hcase with hmem | ⟨-, -, other, hother, hne⟩
          · exact hmem
          · rw [hvalue] at hother
            cases hother
            exact absurd hnull hne
      · rw [List.map_append, List.mem_append, List.map_singleton, List.mem_singleton]
        exact or_congr Iff.rfl ⟨fun hkey => ⟨hkey, hfilled, value, hvalue, hne⟩, fun hkey => hkey.1⟩
    · rw [if_neg hfill] at h
      cases h
      constructor
      · exact Or.inl
      · intro hcase
        rcases hcase with hmem | ⟨-, hfilled, -⟩
        · exact hmem
        · exact absurd (fills_iff.2 hfilled.2) hfill

/-- The keys of a completed assignment: those assigned, and those of the props that are filled in by
a value. -/
theorem mem_keys_fillProps_iff {options : VariantOptions} {c : Component}
    {assigned props : List (String × Value)} (h : fillProps options c assigned = .ok props)
    (key : String) :
    key ∈ props.map (·.1) ↔
      key ∈ assigned.map (·.1) ∨
        ∃ p, (key, p) ∈ c.props ∧ p.IsFilled ∧
          ∃ value, inferValue options.fallbacks key p = .ok value ∧ value ≠ .null := by
  rw [fillProps_eq] at h
  generalize c.props = entries at h
  -- Each prop adds to the keys there so far, so the assignment to begin with is arbitrary.
  induction entries generalizing assigned with
  | nil =>
    cases h
    simp
  | cons entry entries ih =>
    rcases bind_eq_ok_iff.1 h with ⟨acc, hstep, hrest⟩
    rw [ih hrest, mem_keys_fillStep_iff hstep, or_assoc]
    refine or_congr Iff.rfl ?_
    constructor
    · intro hcase
      rcases hcase with ⟨rfl, hfilled, hvalue⟩ | ⟨p, hp, hfilled, hvalue⟩
      · exact ⟨entry.2, List.mem_cons_self, hfilled, hvalue⟩
      · exact ⟨p, List.mem_cons_of_mem _ hp, hfilled, hvalue⟩
    · intro hcase
      rcases hcase with ⟨p, hp, hfilled, hvalue⟩
      rcases List.mem_cons.1 hp with rfl | hp
      · exact Or.inl ⟨rfl, hfilled, hvalue⟩
      · exact Or.inr ⟨p, hp, hfilled, hvalue⟩

/-! ## Where examples come from -/

/-- An example is made of an assignment, if this can be written. -/
theorem bind_writeUsage_eq_ok_iff {assign : Except LiteralError (List (String × Value))}
    {c : Component} {varied : List String} {isPermutation : Bool} {u : Usage} :
    (assign >>= fun props => writeUsage c props varied isPermutation) = .ok u ↔
      ∃ props, assign = .ok props ∧ Value.entriesWritable props = true ∧
        u = makeUsage c props varied isPermutation := by
  rw [bind_eq_ok_iff]
  refine exists_congr fun props => and_congr_right fun _ => ?_
  unfold writeUsage
  split
  · rename_i h
    simp [h, eq_comm]
  · rename_i h
    simp [h]

/-- What `variants` makes when there are axes. -/
theorem map_fst_variants_of_axes {c : Component} (options : VariantOptions)
    (hne : c.props.isEmpty = false) (haxes : (axes c.props).isEmpty = false) :
    (variants options c).map (·.1) = do
      let single ← singles options c (axes c.props)
      let permuted ← (chooseAssignments c.props permutationCeiling (axisSets (axes c.props))).1.mapM
        (permutationUsage options c)
      return cut options.maxPermutations (single ++ permuted) := by
  simp only [variants, hne, haxes, permutations, Bool.false_eq_true, if_false]
  cases singles options c (axes c.props) with
  | error e => rfl
  | ok single =>
    cases (chooseAssignments c.props permutationCeiling (axisSets (axes c.props))).1.mapM
        (permutationUsage options c) with
    | error e => rfl
    | ok permuted => rfl

theorem mem_of_mem_cut {α : Type} {n : Int} {items : List α} {a : α} (h : a ∈ cut n items) :
    a ∈ items := by
  unfold cut at h
  split at h
  · exact List.mem_of_mem_take h
  · exact List.mem_of_mem_take h

/-- What the examples of a component are: none without props, the default one without axes, and
otherwise those of single values and of assignments of several axes. -/
theorem variants_eq_ok {options : VariantOptions} {c : Component} {usages : List Usage}
    {notes : List LogRecord} (h : variants options c = .ok (usages, notes)) :
    (c.props = [] ∧ usages = []) ∨
      (c.props ≠ [] ∧ axes c.props = [] ∧
        ∃ usage, defaultUsage options c = .ok usage ∧ usages = [usage]) ∨
      (axes c.props ≠ [] ∧ ∃ single permuted, singles options c (axes c.props) = .ok single ∧
        (chooseAssignments c.props permutationCeiling (axisSets (axes c.props))).1.mapM
          (permutationUsage options c) = .ok permuted ∧
        usages = cut options.maxPermutations (single ++ permuted)) := by
  by_cases hprops : c.props.isEmpty = true
  · have hnone : variants options c = .ok ([], []) := by
      simp only [variants, hprops, if_true]
      rfl
    rw [hnone] at h
    cases h
    exact Or.inl ⟨by simpa using hprops, rfl⟩
  · have hprops' : c.props.isEmpty = false := by simpa using hprops
    cases haxes : (axes c.props).isEmpty with
    | true =>
      have hdefault :
          variants options c = (defaultUsage options c).map fun usage => ([usage], []) := by
        simp only [variants, hprops', haxes, Bool.false_eq_true, if_false, if_true]
        cases defaultUsage options c <;> rfl
      rw [hdefault] at h
      cases hmade : defaultUsage options c with
      | error e =>
        rw [hmade] at h
        cases h
      | ok usage =>
        rw [hmade] at h
        cases h
        exact Or.inr (Or.inl ⟨by simpa using hprops, by simpa using haxes, usage, rfl, rfl⟩)
    | false =>
      have hall := map_fst_variants_of_axes options hprops' haxes
      rw [h] at hall
      rcases bind_eq_ok_iff.1 hall.symm with ⟨single, hsingle, hrest⟩
      rcases bind_eq_ok_iff.1 hrest with ⟨permuted, hpermuted, hcut⟩
      cases hcut
      exact Or.inr (Or.inr ⟨by simpa using haxes, single, permuted, hsingle, hpermuted, rfl⟩)

/-- The single examples are those of the axes and of their own values. -/
theorem mem_singles {options : VariantOptions} {c : Component} {names : List String}
    {single : List Usage} (h : singles options c names = .ok single) {u : Usage} (hu : u ∈ single) :
    ∃ axis ∈ names, ∃ value ∈ axisValues c.props axis,
      singleUsage options c axis value = .ok u := by
  rcases exists_of_mem_mapM h hu with ⟨⟨axis, value⟩, hpair, husage⟩
  rcases List.mem_flatMap.1 hpair with ⟨axis', haxis, hvalue⟩
  rcases List.mem_map.1 hvalue with ⟨value', hmem, heq⟩
  cases heq
  exact ⟨axis, haxis, value, hmem, husage⟩

/-- An example is the default one, that of a value of an axis, or that of an assignment of several
axes. -/
theorem mem_variants_cases {options : VariantOptions} {c : Component} {usages : List Usage}
    {notes : List LogRecord} (h : variants options c = .ok (usages, notes)) {u : Usage}
    (hu : u ∈ usages) :
    (axes c.props = [] ∧ defaultUsage options c = .ok u) ∨
      (∃ axis ∈ axes c.props, ∃ value, singleUsage options c axis value = .ok u) ∨
      ∃ choice ∈ (chooseAssignments c.props permutationCeiling (axisSets (axes c.props))).1,
        permutationUsage options c choice = .ok u := by
  rcases variants_eq_ok h with
    ⟨-, rfl⟩ | ⟨-, haxes, usage, hdefault, rfl⟩ | ⟨-, single, permuted, hsingle, hpermuted, rfl⟩
  · cases hu
  · rcases List.mem_singleton.1 hu with rfl
    exact Or.inl ⟨haxes, hdefault⟩
  · rcases List.mem_append.1 (mem_of_mem_cut hu) with hmem | hmem
    · rcases mem_singles hsingle hmem with ⟨axis, haxis, value, -, husage⟩
      exact Or.inr (Or.inl ⟨axis, haxis, value, husage⟩)
    · exact Or.inr (Or.inr (exists_of_mem_mapM hpermuted hmem))

/-! ## What examples hold -/

theorem Usage.isWritable_toValue {u : Usage} (h : Value.entriesWritable u.props = true) :
    u.toValue.isWritable = true := by
  refine Value.isWritable_map_iff.2 ?_
  simp only [List.forall_mem_cons, List.not_mem_nil, IsEmpty.forall_iff, implies_true, and_true]
  exact ⟨h, rfl, rfl, rfl, isWritable_textList _⟩

/-- The examples of a component can be written. -/
theorem isWritable_of_mem_variants {options : VariantOptions} {c : Component} {usages : List Usage}
    {notes : List LogRecord} (h : variants options c = .ok (usages, notes)) {u : Usage}
    (hu : u ∈ usages) : u.toValue.isWritable = true := by
  have hmade : ∀ {assign : Except LiteralError (List (String × Value))} {varied isPermutation},
      (assign >>= fun props => writeUsage c props varied isPermutation) = .ok u →
        u.toValue.isWritable = true := by
    intro assign varied isPermutation hassign
    rcases bind_writeUsage_eq_ok_iff.1 hassign with ⟨props, -, hwritable, rfl⟩
    exact Usage.isWritable_toValue hwritable
  rcases mem_variants_cases h hu with
    ⟨-, hdefault⟩ | ⟨axis, -, value, hsingle⟩ | ⟨choice, -, hpermutation⟩
  · exact hmade hdefault
  · exact hmade hsingle
  · exact hmade hpermutation

end PropCatalog
