import PropCatalog.Proofs.Usage.Visibility

/-!
# Closed sets of values — which values an example assigns

Every value in an example was either chosen for an axis, out of the values of that axis, or inferred
for a prop. Inference looks at the text of the type before it looks at the values, so a prop with a
closed set of values keeps to it unless that text reads like an open type.

- `readsAsOpen`, `openValue` : the texts that are taken for an open type, and what they give
- `AddsInferred`             : steps that add at most one inferred value
- `value_cases_of_variants`, `value_cases_of_defaultUsage` : where a value comes from
- `closed_props_assigned`    : what a prop with a closed set of values is assigned

The text is searched as a whole, the literals of a union and the names of aliases included, as
`formField` shows.
-/

namespace PropCatalog

/-! ## Types by their text -/

/-- The words that make the text of a type an open one. -/
def openWords : List String := ["string", "number", "boolean"] ++ contentMarkers

/-- Whether the text of a type is taken for an array, a primitive type or content. -/
def readsAsOpen (type : String) : Bool :=
  let text := lower type.toList
  isArrayText text || openWords.any fun word => Text.contains word.toList text

/-- The value of a prop whose type is taken for an open one; the values it lists are not asked. -/
def openValue (fallbacks : Fallbacks) (type : String) : Value :=
  valueOfType fallbacks none (lower type.toList)

theorem valueOfType_of_readsAsOpen {type : String} (h : readsAsOpen type = true)
    (fallbacks : Fallbacks) (values : Option (List String)) :
    valueOfType fallbacks values (lower type.toList) = openValue fallbacks type := by
  simp only [readsAsOpen, openWords, List.any_append, List.any_cons, List.any_nil, Bool.or_false,
    Bool.or_eq_true] at h
  unfold openValue valueOfType
  -- One of the rules before the last applies, and none of these reads the values.
  rcases h with harray | (hstring | hnumber | hboolean) | hcontent
  · simp only [harray, if_true]
  · simp only [hstring, if_true]
  · simp only [hnumber, if_true]
  · simp only [hboolean, if_true]
  · simp only [hcontent, if_true]

theorem valueOfType_of_not_readsAsOpen {type : String} (h : readsAsOpen type = false)
    (fallbacks : Fallbacks) (first : String) (rest : List String) :
    valueOfType fallbacks (some (first :: rest)) (lower type.toList) = .text first := by
  simp only [readsAsOpen, openWords, List.any_append, List.any_cons, List.any_nil, Bool.or_false,
    Bool.or_eq_false_iff] at h
  rcases h with ⟨harray, ⟨hstring, hnumber, hboolean⟩, hcontent⟩
  simp only [valueOfType, harray, hstring, hnumber, hboolean, hcontent, Bool.false_eq_true,
    if_false]

/-- What is inferred for a prop with a closed set of values and nothing else to go by. -/
theorem inferValue_closed {fallbacks : Fallbacks} {name : String} {p : PropSpec} {value : Value}
    (hname : name ≠ "children") (hvalues : p.values.getD [] ≠ []) (hsample : given? p.sample = none)
    (hdefault : given? p.default = none) (h : inferValue fallbacks name p = .ok value) :
    (readsAsOpen p.type = false → ∃ text ∈ p.values.getD [], value = .text text) ∧
      (readsAsOpen p.type = true → value = openValue fallbacks p.type) := by
  have hmade : inferValue fallbacks name p =
      .ok (valueOfType fallbacks p.values (lower p.type.toList)) := by
    simp [inferValue, hsample, hdefault, hname]
  have hvalue : value = valueOfType fallbacks p.values (lower p.type.toList) :=
    Except.ok.inj (h.symm.trans hmade)
  constructor
  · intro hclosed
    cases hlist : p.values with
    | none => simp [hlist] at hvalues
    | some texts =>
      cases texts with
      | nil => simp [hlist] at hvalues
      | cons first rest =>
        rw [hlist, valueOfType_of_not_readsAsOpen hclosed] at hvalue
        exact ⟨first, by simp, hvalue⟩
  · intro hopen
    rw [hvalue, valueOfType_of_readsAsOpen hopen]

/-! ## Where values come from -/

/-- A step through props that adds at most the inferred value of the prop it is at. -/
def AddsInferred (options : VariantOptions)
    (step : List (String × Value) → String × PropSpec →
      Except LiteralError (List (String × Value))) : Prop :=
  ∀ ⦃acc entry acc'⦄, step acc entry = .ok acc' →
    acc' = acc ∨ ∃ value, inferValue options.fallbacks entry.1 entry.2 = .ok value ∧
      acc' = acc ++ [(entry.1, value)]

theorem addInferred_cases {fallbacks : Fallbacks} {acc acc' : List (String × Value)} {name : String}
    {prop : PropSpec} (h : addInferred fallbacks acc name prop = .ok acc') :
    acc' = acc ∨ ∃ value, inferValue fallbacks name prop = .ok value ∧
      acc' = acc ++ [(name, value)] := by
  rcases addInferred_eq_ok h with ⟨value, hvalue, ⟨-, hsame⟩ | ⟨-, hadded⟩⟩
  · exact Or.inl hsame
  · exact Or.inr ⟨value, hvalue, hadded⟩

theorem addsInferred_fillStep (options : VariantOptions) :
    AddsInferred options (fillStep options) := by
  intro acc entry acc' h
  unfold fillStep at h
  split at h
  · cases h
    exact Or.inl rfl
  · split at h
    · exact addInferred_cases h
    · cases h
      exact Or.inl rfl

theorem addsInferred_requireStep (options : VariantOptions) :
    AddsInferred options (requireStep options) := by
  intro acc entry acc' h
  unfold requireStep at h
  split at h
  · cases h
    exact Or.inl rfl
  · exact addInferred_cases h

/-- After all steps a value is one that was there before, or one that was inferred. -/
theorem AddsInferred.cases_of_mem {options : VariantOptions}
    {step : List (String × Value) → String × PropSpec → Except LiteralError (List (String × Value))}
    (hstep : AddsInferred options step) {entries : List (String × PropSpec)}
    {acc props : List (String × Value)} (h : entries.foldlM step acc = .ok props) {name : String}
    {value : Value} (hmem : (name, value) ∈ props) :
    (name, value) ∈ acc ∨
      ∃ p, (name, p) ∈ entries ∧ inferValue options.fallbacks name p = .ok value := by
  induction entries generalizing acc with
  | nil =>
    cases h
    exact Or.inl hmem
  | cons entry entries ih =>
    rcases foldlM_cons_eq_ok_iff.1 h with ⟨acc', hfirst, hrest⟩
    rcases ih hrest with hacc' | ⟨p, hp, hvalue⟩
    · rcases hstep hfirst with rfl | ⟨added, hadded, rfl⟩
      · exact Or.inl hacc'
      · rcases List.mem_append.1 hacc' with hacc | hnew
        · exact Or.inl hacc
        · cases List.mem_singleton.1 hnew
          exact Or.inr ⟨entry.2, List.mem_cons_self, hadded⟩
    · exact Or.inr ⟨p, List.mem_cons_of_mem _ hp, hvalue⟩

/-- An assignment of axes gives each of them one of its own values. -/
def AssignsOwn (c : Component) (assigned : List (String × Value)) : Prop :=
  ∀ ⦃name value⦄, (name, value) ∈ assigned → ∃ text ∈ axisValues c.props name, value = .text text

theorem assignsOwn_of_mem_assignments {c : Component} {set : List String}
    {assigned : List (String × Value)} (h : assigned ∈ assignments c.props set) :
    AssignsOwn c assigned := by
  intro name value hmem
  rcases List.mem_map.1 h with ⟨texts, htexts, rfl⟩
  rw [mem_choices_iff, List.forall₂_map_right_iff] at htexts
  rw [List.zip_map_right] at hmem
  rcases List.mem_map.1 hmem with ⟨⟨axis, text⟩, hzip, heq⟩
  cases heq
  exact ⟨text, List.mem_of_mem_take (List.forall₂_zip htexts.flip hzip), rfl⟩

/-- The assignments of several axes that are tried give each axis one of its own values. -/
theorem assignsOwn_of_mem_chooseAssignments {c : Component} {room : Nat}
    {sets : List (List String)} {choice : List String × List (String × Value)}
    (h : choice ∈ (chooseAssignments c.props room sets).1) : AssignsOwn c choice.2 := by
  rw [fst_chooseAssignments] at h
  rcases List.mem_flatMap.1 (List.mem_of_mem_take h) with ⟨set, -, hassigned⟩
  rcases List.mem_map.1 hassigned with ⟨assigned, hmem, rfl⟩
  exact assignsOwn_of_mem_assignments hmem

theorem value_cases_of_fillProps {options : VariantOptions} {c : Component}
    {assigned props : List (String × Value)} (hown : AssignsOwn c assigned)
    (h : fillProps options c assigned = .ok props) {name : String} {value : Value}
    (hmem : (name, value) ∈ props) :
    (∃ text ∈ axisValues c.props name, value = .text text) ∨
      ∃ p, (name, p) ∈ c.props ∧ inferValue options.fallbacks name p = .ok value := by
  rw [fillProps_eq] at h
  rcases (addsInferred_fillStep options).cases_of_mem h hmem with hassigned | hinferred
  · exact Or.inl (hown hassigned)
  · exact Or.inr hinferred

/-- The default example has inferred values only. -/
theorem value_cases_of_defaultUsage {options : VariantOptions} {c : Component} {u : Usage}
    (h : defaultUsage options c = .ok u) {name : String} {value : Value}
    (hmem : (name, value) ∈ u.props) :
    ∃ p, (name, p) ∈ c.props ∧ inferValue options.fallbacks name p = .ok value := by
  rw [defaultUsage_eq_visible] at h
  rcases bind_writeUsage_eq_ok_iff.1 h with ⟨props, hprops, -, rfl⟩
  rcases (addsInferred_requireStep options).cases_of_mem hprops hmem with hnone | ⟨p, hp, hvalue⟩
  · cases hnone
  · exact ⟨p, List.mem_of_mem_filter hp, hvalue⟩

/-- A value in an example is one of the values of its axis, or it was inferred. -/
theorem value_cases_of_variants {options : VariantOptions} {c : Component} {usages : List Usage}
    {notes : List LogRecord} (h : variants options c = .ok (usages, notes)) {u : Usage}
    (hu : u ∈ usages) {name : String} {value : Value} (hmem : (name, value) ∈ u.props) :
    (∃ text ∈ axisValues c.props name, value = .text text) ∨
      ∃ p, (name, p) ∈ c.props ∧ inferValue options.fallbacks name p = .ok value := by
  rcases variants_eq_ok h with
    ⟨-, rfl⟩ | ⟨-, -, usage, hdefault, rfl⟩ | ⟨-, single, permuted, hsingle, hpermuted, rfl⟩
  · cases hu
  · rcases List.mem_singleton.1 hu with rfl
    exact Or.inr (value_cases_of_defaultUsage hdefault hmem)
  · rcases List.mem_append.1 (mem_of_mem_cut hu) with hu | hu
    · rcases mem_singles hsingle hu with ⟨axis, -, text, htext, husage⟩
      rcases bind_writeUsage_eq_ok_iff.1 husage with ⟨props, hfill, -, rfl⟩
      have hown : AssignsOwn c [(axis, .text text)] := by
        intro name' value' hassigned
        cases List.mem_singleton.1 hassigned
        exact ⟨text, htext, rfl⟩
      exact value_cases_of_fillProps hown hfill hmem
    · rcases exists_of_mem_mapM hpermuted hu with ⟨choice, hchoice, husage⟩
      rcases bind_writeUsage_eq_ok_iff.1 husage with ⟨props, hfill, -, rfl⟩
      exact value_cases_of_fillProps (assignsOwn_of_mem_chooseAssignments hchoice) hfill hmem

/-! ## Props with a closed set of values -/

/-- What an example assigns to a prop with a closed set of values that has neither a sample nor a
default: one of these values, as long as the text of its type does not read like an open type. If it
does, the value may also be that of the open type, and in the default example it always is. -/
theorem closed_props_assigned (options : VariantOptions) (c : Component)
    (hkeys : (c.props.map (·.1)).Nodup) {name : String} {p : PropSpec} (hp : (name, p) ∈ c.props)
    (hname : name ≠ "children") (hvalues : p.values.getD [] ≠ [])
    (hsample : given? p.sample = none) (hdefault : given? p.default = none) {u : Usage}
    {value : Value} (hmem : (name, value) ∈ u.props) :
    ((∃ usages notes, variants options c = .ok (usages, notes) ∧ u ∈ usages) →
      (readsAsOpen p.type = false → ∃ text ∈ p.values.getD [], value = .text text) ∧
        ((∃ text ∈ p.values.getD [], value = .text text) ∨
          value = openValue options.fallbacks p.type)) ∧
    (defaultUsage options c = .ok u →
      (readsAsOpen p.type = false → ∃ text ∈ p.values.getD [], value = .text text) ∧
        (readsAsOpen p.type = true → value = openValue options.fallbacks p.type)) := by
  -- The prop of a name is the only one, so what was inferred for the name was inferred for `p`.
  have hinferred : (∃ q, (name, q) ∈ c.props ∧ inferValue options.fallbacks name q = .ok value) →
      inferValue options.fallbacks name p = .ok value := by
    intro hcase
    rcases hcase with ⟨q, hq, hvalue⟩
    have hsame : (name, q) = (name, p) := List.inj_on_of_nodup_map hkeys hq hp rfl
    cases hsame
    exact hvalue
  constructor
  · intro hexample
    rcases hexample with ⟨usages, notes, hvariants, hu⟩
    rcases value_cases_of_variants hvariants hu hmem with hown | hcase
    · rw [axisValues_of_mem hkeys hp] at hown
      exact ⟨fun _ => hown, Or.inl hown⟩
    · have hclosed := inferValue_closed hname hvalues hsample hdefault (hinferred hcase)
      refine ⟨hclosed.1, ?_⟩
      cases hopen : readsAsOpen p.type with
      | false => exact Or.inl (hclosed.1 hopen)
      | true => exact Or.inr (hclosed.2 hopen)
  · intro hexample
    have hcase := value_cases_of_defaultUsage hexample hmem
    exact inferValue_closed hname hvalues hsample hdefault (hinferred hcase)

/-- A toggle with two props that have a closed set of values; one of them is varied. -/
def toggle : Component where
  name := "Toggle"
  props := [
    ("size", { type := "Size", values := some ["sm", "lg"] }),
    ("tone", { type := "Tone", values := some ["info", "warn"], renderVariants := true })]

theorem closed_props_assigned_toggle :
    let u := makeUsage toggle [("tone", .text "info"), ("size", .text "sm")] ["tone"] false
    (∃ usages notes, variants {} toggle = .ok (usages, notes) ∧ u ∈ usages) ∧
      ("size", Value.text "sm") ∈ u.props ∧ readsAsOpen "Size" = false ∧
      ∃ text ∈ ["sm", "lg"], Value.text "sm" = .text text := by
  intro u
  have hexample : ∃ usages notes, variants {} toggle = .ok (usages, notes) ∧ u ∈ usages :=
    ⟨_, _, rfl, List.mem_cons_self⟩
  have hmem : ("size", Value.text "sm") ∈ u.props := List.mem_cons_of_mem _ List.mem_cons_self
  have hall := closed_props_assigned {} toggle (by decide) List.mem_cons_self (by decide)
    (by decide) (by decide) (by decide) hmem
  exact ⟨hexample, hmem, by decide, (hall.1 hexample).1 (by decide)⟩

/-- A field that is of one of two kinds, named like primitive types. -/
def formField : Component where
  name := "Field"
  props := [("kind", { type := "'string' | 'number'", values := some ["string", "number"] })]

example : (defaultUsage {} formField).map (·.props) = .ok [("kind", .text "Example text")] := rfl

end PropCatalog
