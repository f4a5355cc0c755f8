import Mathlib.Data.List.Pairwise
import PropCatalog.Proofs.Usage.Enumeration

/-!
# Exclusions — which axes an example varies together

Axes that exclude each other are never varied together, but an example also assigns the props that
are required or have a default, and some of these may be axes as well. This file separates the two:

- `VariesFreely`       : names among which no two axes are in conflict
- `Varies`             : the axes that an example varies
- `joined_axes_filled` : of two axes of an example that are in conflict, one is not varied by it and
  was filled in

That a conflict can come about in this way is shown by `gauge`, both axes of which are required.
-/

namespace PropCatalog

/-- No two different axes among the names are in conflict. -/
def VariesFreely (c : Component) (names : List String) : Prop :=
  ∀ p ∈ axisEntries c, ∀ q ∈ axisEntries c,
    p.1 ∈ names → q.1 ∈ names → p.1 ≠ q.1 → ¬ Joined p q

theorem Joined.symm {p q : String × PropSpec} (h : Joined p q) : Joined q p :=
  Or.symm h

theorem mem_props_of_mem_axisEntries {c : Component} {p : String × PropSpec}
    (h : p ∈ axisEntries c) : p ∈ c.props :=
  List.mem_of_mem_filter h

/-! ## Assignments -/

theorem variesFreely_singleton (c : Component) (name : String) : VariesFreely c [name] := by
  intro p _ q _ hpn hqn hne
  have hp : p.1 = name := List.mem_singleton.1 hpn
  have hq : q.1 = name := List.mem_singleton.1 hqn
  exact absurd (hp.trans hq.symm) hne

/-- The names of an admissible choice are those it assigns values to. -/
theorem AxisChoice.Admissible.keys_assignment {axes : List (String × PropSpec)} {x : AxisChoice}
    (h : x.Admissible axes) :
    (x.assignment axes).2.map (·.1) = (x.assignment axes).1 := by
  have hlen : (x.entries axes).length = x.values.length := h.values.length_eq
  have hleft : (x.entries axes).zipWith (fun p _ => p.1) x.values = (x.entries axes).map (·.1) := by
    -- There are as many values as axes, so no name is cut off.
    rw [← List.map_uncurry_zip_eq_zipWith]
    calc
      ((x.entries axes).zip x.values).map (Function.uncurry fun p _ => p.1)
          = (((x.entries axes).zip x.values).map Prod.fst).map (·.1) := by
            rw [List.map_map]
            rfl
      _ = (x.entries axes).map (·.1) := by
            rw [List.map_fst_zip (le_of_eq hlen)]
  simpa [AxisChoice.assignment, List.map_zipWith] using hleft

theorem AxisChoice.Admissible.variesFreely {c : Component} (hkeys : (c.props.map (·.1)).Nodup)
    {x : AxisChoice} (h : x.Admissible (axisEntries c)) :
    VariesFreely c (x.assignment (axisEntries c)).1 := by
  -- A name of the choice is that of one entry only, since names are distinct.
  have hentry : ∀ p ∈ axisEntries c, p.1 ∈ (x.entries (axisEntries c)).map (·.1) →
      p ∈ x.entries (axisEntries c) := by
    intro p hp hmem
    rcases List.mem_map.1 hmem with ⟨p', hp', hname⟩
    rcases List.mem_filterMap.1 hp' with ⟨i, -, hget⟩
    have hp'' := mem_props_of_mem_axisEntries (List.mem_of_getElem? hget)
    have hsame : p' = p :=
      List.inj_on_of_nodup_map hkeys hp'' (mem_props_of_mem_axisEntries hp) hname
    exact hsame ▸ hp'
  have hfree : ∀ p ∈ x.entries (axisEntries c), ∀ q ∈ x.entries (axisEntries c),
      p ≠ q → ¬ Joined p q := by
    have : Std.Symm fun p q : String × PropSpec => ¬ Joined p q :=
      ⟨fun _ _ hnot hjoined => hnot hjoined.symm⟩
    intro p hp q hq hne
    exact h.free.forall hp hq hne
  intro p hp q hq hpn hqn hne
  exact hfree p (hentry p hp hpn) q (hentry q hq hqn) fun heq => hne (congrArg (·.1) heq)

/-! ## Completed assignments -/

/-- An axis that an example has and that was not assigned was filled in. -/
theorem isFilled_of_not_assigned {options : VariantOptions} {c : Component}
    (hkeys : (c.props.map (·.1)).Nodup) {assigned props : List (String × Value)}
    (h : fillProps options c assigned = .ok props) {p : String × PropSpec} (hp : p ∈ axisEntries c)
    (hmem : p.1 ∈ props.map (·.1)) (hnot : p.1 ∉ assigned.map (·.1)) : p.2.IsFilled := by
  rcases (mem_keys_fillProps_iff h p.1).1 hmem with hassigned | ⟨spec, hspec, hfilled, -⟩
  · exact absurd hassigned hnot
  · have hsame : (p.1, spec) = p :=
      List.inj_on_of_nodup_map hkeys hspec (mem_props_of_mem_axisEntries hp) rfl
    have hspec' : spec = p.2 := congrArg (·.2) hsame
    exact hspec' ▸ hfilled

/-- If the assigned axes are free of conflicts, then a conflict in the completed assignment is one
with an axis that was filled in. -/
theorem filled_of_joined {options : VariantOptions} {c : Component}
    (hkeys : (c.props.map (·.1)).Nodup) {assigned props : List (String × Value)}
    (h : fillProps options c assigned = .ok props) (hfree : VariesFreely c (assigned.map (·.1)))
    {p q : String × PropSpec} (hp : p ∈ axisEntries c) (hq : q ∈ axisEntries c) (hne : p.1 ≠ q.1)
    (hpm : p.1 ∈ props.map (·.1)) (hqm : q.1 ∈ props.map (·.1)) (hjoined : Joined p q) :
    (p.1 ∉ assigned.map (·.1) ∧ p.2.IsFilled) ∨ (q.1 ∉ assigned.map (·.1) ∧ q.2.IsFilled) := by
  by_cases hpa : p.1 ∈ assigned.map (·.1)
  · have hqa : q.1 ∉ assigned.map (·.1) := by
      intro hqa
      exact hfree p hp q hq hpa hqa hne hjoined
    exact Or.inr ⟨hqa, isFilled_of_not_assigned hkeys h hq hqm hqa⟩
  · exact Or.inl ⟨hpa, isFilled_of_not_assigned hkeys h hp hpm hpa⟩

/-! ## Examples -/

/-- The axes that an example varies, and what this says about the others. -/
structure Varies (c : Component) (u : Usage) (varied : List String) : Prop where
  /-- A permutation varies the axes it combines. -/
  combined : u.isPermutation = true → varied = u.combinedProps
  /-- Any other example varies one axis, or none if there are none. -/
  single : u.isPermutation = false →
    (axisEntries c = [] ∧ varied = []) ∨ ∃ p ∈ axisEntries c, varied = [p.1]
  assigned : ∀ name ∈ varied, name ∈ u.props.map (·.1)
  /-- Of two axes that are assigned and in conflict, one is not varied, but was filled in because it
  is required or has a default. -/
  filled : ∀ p ∈ axisEntries c, ∀ q ∈ axisEntries c, p.1 ≠ q.1 →
    p.1 ∈ u.props.map (·.1) → q.1 ∈ u.props.map (·.1) → Joined p q →
    (p.1 ∉ varied ∧ p.2.IsFilled) ∨ (q.1 ∉ varied ∧ q.2.IsFilled)

theorem varies_of_defaultUsage {options : VariantOptions} {c : Component} {u : Usage}
    (hnone : axes c.props = []) (h : defaultUsage options c = .ok u) : Varies c u [] := by
  have hentries : axisEntries c = [] := by
    rw [axes_eq] at hnone
    exact List.map_eq_nil_iff.1 hnone
  rcases bind_writeUsage_eq_ok_iff.1 h with ⟨props, -, -, rfl⟩
  refine ⟨?_, ?_, ?_, ?_⟩
  · intro hperm
    simp [makeUsage] at hperm
  · intro _
    exact Or.inl ⟨hentries, rfl⟩
  · intro name hname
    cases hname
  · intro p hp
    rw [hentries] at hp
    cases hp

theorem varies_of_singleUsage {options : VariantOptions} {c : Component}
    (hkeys : (c.props.map (·.1)).Nodup) {axis value : String} {u : Usage}
    (haxis : axis ∈ axes c.props) (h : singleUsage options c axis value = .ok u) :
    Varies c u [axis] := by
  rcases bind_writeUsage_eq_ok_iff.1 h with ⟨props, hfill, -, rfl⟩
  refine ⟨?_, ?_, ?_, ?_⟩
  · intro hperm
    simp [makeUsage] at hperm
  · intro _
    rw [axes_eq] at haxis
    rcases List.mem_map.1 haxis with ⟨p, hp, rfl⟩
    exact Or.inr ⟨p, hp, rfl⟩
  · intro name hname
    have hassigned : name ∈ [(axis, Value.text value)].map (·.1) := by simpa using hname
    exact (mem_keys_fillProps_iff hfill name).2 (Or.inl hassigned)
  · intro p hp q hq hne hpm hqm hjoined
    exact filled_of_joined hkeys hfill (variesFreely_singleton c axis) hp hq hne hpm hqm hjoined

theorem varies_of_permutationUsage {options : VariantOptions} {c : Component}
    (hkeys : (c.props.map (·.1)).Nodup) {x : AxisChoice} (hadm : x.Admissible (axisEntries c))
    {u : Usage} (h : permutationUsage options c (x.assignment (axisEntries c)) = .ok u) :
    Varies c u (x.assignment (axisEntries c)).1 := by
  have hnames := hadm.keys_assignment
  have hfree := hadm.variesFreely hkeys
  rw [← hnames] at hfree
  rcases bind_writeUsage_eq_ok_iff.1 h with ⟨props, hfill, -, rfl⟩
  refine ⟨?_, ?_, ?_, ?_⟩
  · intro _
    simp [makeUsage]
  · intro hperm
    simp [makeUsage] at hperm
  · intro name hname
    exact (mem_keys_fillProps_iff hfill name).2 (Or.inl (hnames ▸ hname))
  · intro p hp q hq hne hpm hqm hjoined
    rw [← hnames]
    exact filled_of_joined hkeys hfill hfree hp hq hne hpm hqm hjoined

/-- In every example the axes that are varied are free of conflicts, and a conflict with another
axis comes from filling in a prop that is required or has a default. -/
theorem joined_axes_filled (options : VariantOptions) (c : Component)
    (hkeys : (c.props.map (·.1)).Nodup) {usages : List Usage} {notes : List LogRecord}
    (h : variants options c = .ok (usages, notes)) {u : Usage} (hu : u ∈ usages) :
    ∃ varied, Varies c u varied := by
  rcases mem_variants_cases h hu with
    ⟨hnone, hdefault⟩ | ⟨axis, haxis, value, hsingle⟩ | ⟨choice, hchoice, hpermuted⟩
  · exact ⟨[], varies_of_defaultUsage hnone hdefault⟩
  · exact ⟨[axis], varies_of_singleUsage hkeys haxis hsingle⟩
  · -- The assignment is one of the enumeration, so its axes are free of conflicts.
    rw [fst_chooseAssignments_axisSets hkeys] at hchoice
    rcases List.mem_map.1 hchoice with ⟨x, hx, rfl⟩
    have hadm : x.Admissible (axisEntries c) := mem_enumeration_iff.1 (List.mem_of_mem_take hx)
    exact ⟨_, varies_of_permutationUsage hkeys hadm hpermuted⟩

/-- A gauge with two required axes, one of which excludes the other. -/
def gauge : Component where
  name := "Gauge"
  props := [
    ("tone", { type := "Tone", values := some ["info"], renderVariants := true,
               excludedWith := ["size"] }),
    ("size", { type := "Size", values := some ["sm"], renderVariants := true })]

theorem joined_axes_filled_gauge :
    (gauge.props.map (·.1)).Nodup ∧
      ∃ usages notes u, variants {} gauge = .ok (usages, notes) ∧ u ∈ usages ∧
        ∃ varied, Varies gauge u varied :=
  ⟨by decide, _, _, _, rfl, List.mem_cons_self,
    joined_axes_filled {} gauge (by decide) rfl List.mem_cons_self⟩

/-- The example for the tone of a gauge also has its size, which the tone excludes. -/
theorem gauge_example_joined :
    ∃ usages notes, variants {} gauge = .ok (usages, notes) ∧
      ∃ u ∈ usages, ∃ p ∈ axisEntries gauge, ∃ q ∈ axisEntries gauge,
        p.1 ≠ q.1 ∧ p.1 ∈ u.props.map (·.1) ∧ q.1 ∈ u.props.map (·.1) ∧ Joined p q := by
  refine ⟨_, _, rfl, _, List.mem_cons_self, ?_⟩
  decide

end PropCatalog
