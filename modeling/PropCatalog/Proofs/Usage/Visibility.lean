import PropCatalog.Proofs.Usage.Enumeration

/-!
# Hidden props — what examples cannot depend on

Hidden props are neither varied nor filled in, so the examples of a component are made of its name
and its visible props alone. The steps behind them are of two kinds:

- `axes_eq_visible`, `fillProps_eq_visible`, `defaultUsage_eq_visible` : steps that go through all
  props and leave out the hidden ones
- `AgreeOn` : steps that look props up by name, which they do for axes only, as in
  `chooseAssignments_congr` and `title_congr`

`hidden_props_unseen` puts them together: it compares the examples of two components that differ in
their hidden props.
-/

namespace PropCatalog

/-- The props of a component that are not hidden. -/
def visibleProps (c : Component) : List (String × PropSpec) :=
  c.props.filter fun p => !p.2.hidden

/-- A component without its hidden props. -/
def Component.withoutHidden (c : Component) : Component :=
  { c with props := visibleProps c }

/-- Components of one name with the same visible props, in the same order. Their hidden props may be
any, at any place. -/
structure SameVisible (c c' : Component) : Prop where
  name : c'.name = c.name
  visible : visibleProps c' = visibleProps c

theorem sameVisible_withoutHidden (c : Component) : SameVisible c c.withoutHidden := by
  refine ⟨rfl, ?_⟩
  simp [visibleProps, Component.withoutHidden, List.filter_filter]

/-! ## Steps through all props -/

theorem nodup_visibleProps {c : Component} (hkeys : (c.props.map (·.1)).Nodup) :
    ((visibleProps c).map (·.1)).Nodup :=
  hkeys.sublist (List.filter_sublist.map _)

theorem axes_eq_visible (c : Component) : axes c.props = axes (visibleProps c) := by
  have haxis : ∀ p ∈ c.props, p.2.isAxis = (p.2.isAxis && !p.2.hidden) := by
    intro p _
    cases hhidden : p.2.hidden <;> simp [PropSpec.isAxis, hhidden]
  rw [axes, axes, visibleProps, List.filter_filter, List.filter_congr haxis]

theorem fillStep_of_hidden (options : VariantOptions) (acc : List (String × Value))
    {entry : String × PropSpec} (h : entry.2.hidden = true) :
    fillStep options acc entry = pure acc := by
  simp [fillStep, h]

theorem fillProps_eq_visible (options : VariantOptions) (c : Component)
    (assigned : List (String × Value)) :
    fillProps options c assigned = (visibleProps c).foldlM (fillStep options) assigned := by
  rw [fillProps_eq, visibleProps, List.foldlM_filter]
  congr 1
  funext acc entry
  cases hhidden : entry.2.hidden with
  | false => simp
  | true => simpa using fillStep_of_hidden options acc hhidden

/-- The default example adds one prop after the other, unless it is optional. -/
def requireStep (options : VariantOptions) (acc : List (String × Value))
    (entry : String × PropSpec) : Except LiteralError (List (String × Value)) :=
  if entry.2.optional then pure acc else addInferred options.fallbacks acc entry.1 entry.2

theorem defaultUsage_eq_visible (options : VariantOptions) (c : Component) :
    defaultUsage options c = (do
      let props ← (visibleProps c).foldlM (requireStep options) []
      writeUsage c props [] false) := by
  rw [visibleProps, List.foldlM_filter]
  unfold defaultUsage
  congr 2
  funext acc entry
  cases hhidden : entry.2.hidden <;> simp [requireStep, hhidden]

/-! ## Steps that look props up -/

/-- Two maps have the same values under some names. -/
def AgreeOn (names : List String) (props others : List (String × PropSpec)) : Prop :=
  ∀ name ∈ names, Assoc.get? others name = Assoc.get? props name

section Lookup

variable {props others : List (String × PropSpec)}

theorem AgreeOn.subset {names fewer : List String} (h : AgreeOn names props others)
    (hsub : fewer ⊆ names) : AgreeOn fewer props others :=
  fun name hname => h name (hsub hname)

theorem axisValues_congr {names : List String} (h : AgreeOn names props others) {name : String}
    (hname : name ∈ names) : axisValues others name = axisValues props name := by
  rw [axisValues, axisValues, h name hname]

theorem hasConflict_congr {set : List String} (h : AgreeOn set props others) :
    hasConflict others set = hasConflict props set := by
  induction set with
  | nil => rfl
  | cons a rest ih =>
    have hrest := ih (h.subset (List.subset_cons_self a rest))
    have hconflict : ∀ b ∈ rest, conflict others a b = conflict props a b := by
      intro b hb
      simp only [conflict, h a List.mem_cons_self, h b (List.mem_cons_of_mem _ hb)]
    have hany : rest.any (conflict others a) = rest.any (conflict props a) := by
      rw [Bool.eq_iff_iff, List.any_eq_true, List.any_eq_true]
      exact exists_congr fun b => and_congr_right fun hb => by rw [hconflict b hb]
    rw [hasConflict, hasConflict, hany, hrest]

theorem assignments_congr {set : List String} (h : AgreeOn set props others) :
    assignments others set = assignments props set := by
  have hvalues : (set.map fun axis => (axisValues others axis).take valuesPerAxis) =
      set.map fun axis => (axisValues props axis).take valuesPerAxis := by
    refine List.map_congr_left ?_
    intro axis haxis
    rw [axisValues_congr h haxis]
  rw [assignments, assignments, hvalues]

/-- The loop over sets of axes reads nothing but the props in these sets. -/
theorem chooseAssignments_congr (room : Nat) {sets : List (List String)}
    (h : ∀ set ∈ sets, AgreeOn set props others) :
    chooseAssignments others room sets = chooseAssignments props room sets := by
  induction sets generalizing room with
  | nil => rfl
  | cons set sets ih =>
    have hset := h set List.mem_cons_self
    have hrest : ∀ room, chooseAssignments others room sets = chooseAssignments props room sets :=
      fun room => ih room fun other hother => h other (List.mem_cons_of_mem _ hother)
    simp only [chooseAssignments, hasConflict_congr hset, assignments_congr hset, hrest]

theorem title_congr {varied : List String} (h : AgreeOn varied props others)
    (values : List (String × Value)) : title others values varied = title props values varied := by
  have htemplate : (varied.findSome? fun axis =>
        ((Assoc.get? others axis).bind (·.displayTemplate)).filter (· != "")) =
      varied.findSome? fun axis =>
        ((Assoc.get? props axis).bind (·.displayTemplate)).filter (· != "") := by
    rw [← List.head?_filterMap, ← List.head?_filterMap]
    congr 1
    refine List.filterMap_congr ?_
    intro axis haxis
    rw [h axis haxis]
  simp only [title, htemplate]

end Lookup

/-! ## Components that differ in hidden props -/

theorem get?_visibleProps {c : Component} (hkeys : (c.props.map (·.1)).Nodup) {axis : String}
    (haxis : axis ∈ axes c.props) : Assoc.get? c.props axis = Assoc.get? (visibleProps c) axis := by
  rcases List.mem_map.1 haxis with ⟨p, hp, rfl⟩
  rcases List.mem_filter.1 hp with ⟨hmem, hisAxis⟩
  have hvisible : p ∈ visibleProps c := by
    refine List.mem_filter.2 ⟨hmem, ?_⟩
    -- An axis is visible by definition.
    simp only [PropSpec.isAxis, Bool.and_eq_true] at hisAxis
    exact hisAxis.2
  rw [Assoc.get?_of_mem hkeys hmem, Assoc.get?_of_mem (nodup_visibleProps hkeys) hvisible]

section SameVisible

variable {c c' : Component} (hkeys : (c.props.map (·.1)).Nodup)
  (hkeys' : (c'.props.map (·.1)).Nodup) (h : SameVisible c c')

include h

theorem SameVisible.axes : axes c'.props = axes c.props := by
  rw [axes_eq_visible c', h.visible, ← axes_eq_visible c]

theorem SameVisible.fillProps (options : VariantOptions) (assigned : List (String × Value)) :
    fillProps options c' assigned = fillProps options c assigned := by
  rw [fillProps_eq_visible, h.visible, ← fillProps_eq_visible]

theorem SameVisible.writeUsage (props : List (String × Value)) {varied : List String}
    (hagree : AgreeOn varied c.props c'.props) (isPermutation : Bool) :
    writeUsage c' props varied isPermutation = writeUsage c props varied isPermutation := by
  simp only [PropCatalog.writeUsage, makeUsage, h.name, title_congr hagree]

theorem SameVisible.defaultUsage (options : VariantOptions) :
    defaultUsage options c' = defaultUsage options c := by
  have hnone : AgreeOn [] c.props c'.props := fun name hname => absurd hname List.not_mem_nil
  simp only [defaultUsage_eq_visible, h.visible, h.writeUsage _ hnone]

include hkeys hkeys'

theorem SameVisible.agreeOn_axes : AgreeOn (PropCatalog.axes c.props) c.props c'.props := by
  intro axis haxis
  have haxis' : axis ∈ PropCatalog.axes c'.props := h.axes ▸ haxis
  rw [get?_visibleProps hkeys' haxis', h.visible, ← get?_visibleProps hkeys haxis]

theorem SameVisible.singles (options : VariantOptions) :
    singles options c' (PropCatalog.axes c.props) =
      singles options c (PropCatalog.axes c.props) := by
  have hagree := h.agreeOn_axes hkeys hkeys'
  have hpairs : ((PropCatalog.axes c.props).flatMap fun axis =>
        (axisValues c'.props axis).map (axis, ·)) =
      (PropCatalog.axes c.props).flatMap fun axis => (axisValues c.props axis).map (axis, ·) := by
    refine List.flatMap_congr ?_
    intro axis haxis
    rw [axisValues_congr hagree haxis]
  rw [PropCatalog.singles, PropCatalog.singles, hpairs]
  refine mapM_congr ?_
  intro pair hpair
  rcases List.mem_flatMap.1 hpair with ⟨axis, haxis, hvalue⟩
  rcases List.mem_map.1 hvalue with ⟨value, -, rfl⟩
  have hone : AgreeOn [axis] c.props c'.props := by
    refine hagree.subset ?_
    simpa using haxis
  simp only [singleUsage, h.fillProps, h.writeUsage _ hone]

theorem SameVisible.permutations (options : VariantOptions) :
    permutations options c' (PropCatalog.axes c.props) =
      permutations options c (PropCatalog.axes c.props) := by
  -- All sets of axes that are tried consist of axes.
  have hsets : ∀ set ∈ axisSets (PropCatalog.axes c.props), AgreeOn set c.props c'.props := by
    intro set hset
    refine (h.agreeOn_axes hkeys hkeys').subset ?_
    rw [axisSets_eq] at hset
    rcases List.mem_append.1 hset with hset | hset
    · exact (mem_combinations_iff.1 hset).1.subset
    · exact (mem_combinations_iff.1 hset).1.subset
  have hchosen := chooseAssignments_congr permutationCeiling hsets
  have hmade : (chooseAssignments c.props permutationCeiling
        (axisSets (PropCatalog.axes c.props))).1.mapM (permutationUsage options c') =
      (chooseAssignments c.props permutationCeiling
        (axisSets (PropCatalog.axes c.props))).1.mapM (permutationUsage options c) := by
    refine mapM_congr ?_
    intro choice hchoice
    rw [fst_chooseAssignments] at hchoice
    rcases List.mem_flatMap.1 (List.mem_of_mem_take hchoice) with ⟨set, hset, hassigned⟩
    rcases List.mem_map.1 hassigned with ⟨assigned, -, rfl⟩
    have hagree := hsets set (List.mem_of_mem_filter hset)
    simp only [permutationUsage, h.fillProps, h.writeUsage _ hagree]
  simp only [PropCatalog.permutations, hchosen, hmade]

theorem SameVisible.variants (options : VariantOptions) (hne : visibleProps c ≠ []) :
    variants options c' = variants options c := by
  have hprops : ∀ component : Component, visibleProps component ≠ [] →
      component.props.isEmpty = false := by
    intro component hvisible
    rw [List.isEmpty_eq_false_iff]
    intro hnil
    exact hvisible (by rw [visibleProps, hnil, List.filter_nil])
  have hempty := hprops c hne
  have hempty' := hprops c' (h.visible ▸ hne)
  simp only [PropCatalog.variants, hempty, hempty', h.axes, h.name, h.defaultUsage,
    h.singles hkeys hkeys', h.permutations hkeys hkeys']

end SameVisible

/-- Hidden props cannot influence examples: removing them all gives the same examples, or the same
failure, and so does any other change to them. -/
theorem hidden_props_unseen (options : VariantOptions) (c : Component)
    (hkeys : (c.props.map (·.1)).Nodup) (hvisible : ∃ p ∈ c.props, p.2.hidden = false) :
    (variants options c.withoutHidden = variants options c ∧
      defaultUsage options c.withoutHidden = defaultUsage options c) ∧
    ∀ c' : Component, (c'.props.map (·.1)).Nodup → SameVisible c c' →
      variants options c' = variants options c ∧
        defaultUsage options c' = defaultUsage options c := by
  have hne : visibleProps c ≠ [] := by
    rcases hvisible with ⟨p, hp, hshown⟩
    exact List.ne_nil_of_mem (List.mem_filter.2 ⟨hp, by simp [hshown]⟩)
  have hremoved := sameVisible_withoutHidden c
  refine ⟨⟨?_, hremoved.defaultUsage options⟩, ?_⟩
  · exact hremoved.variants hkeys (nodup_visibleProps hkeys) options hne
  · intro c' hkeys' hsame
    exact ⟨hsame.variants hkeys hkeys' options hne, hsame.defaultUsage options⟩

/-- A chip with one visible prop, which is varied, after a hidden one. -/
def chip (hidden : PropSpec) : Component where
  name := "Chip"
  props := [
    ("secret", { hidden with hidden := true }),
    ("tone", { type := "Tone", values := some ["info", "warn"], renderVariants := true,
               displayTemplate := some "\x7btone\x7d chip" })]

theorem hidden_props_unseen_chip :
    let secret : PropSpec := { type := "string", values := some ["a", "b"], default := some "x",
                               renderVariants := true, excludedWith := ["tone"] }
    ((chip secret).props.map (·.1)).Nodup ∧ SameVisible (chip secret) (chip { type := "number" }) ∧
      variants {} (chip secret).withoutHidden = variants {} (chip secret) ∧
      variants {} (chip { type := "number" }) = variants {} (chip secret) := by
  intro secret
  have hall := hidden_props_unseen {} (chip secret) (by decide)
    ⟨_, List.mem_cons_of_mem _ List.mem_cons_self, rfl⟩
  have hsame : SameVisible (chip secret) (chip { type := "number" }) := ⟨rfl, rfl⟩
  exact ⟨by decide, hsame, hall.1.1, (hall.2 _ (by decide) hsame).1⟩

end PropCatalog
