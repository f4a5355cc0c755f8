import PropCatalog.Proofs.Usage.Enumeration

/-!
# Counts — how many examples are shown

A component with axes has one example for each value of each axis and, at most ten times, one for an
admissible choice of several axes. Of these so many are shown as are asked for, a negative number
leaving out so many at the end. Without axes the number that is asked for plays no part.

- `exampleCount`      : the examples of a component with axes
- `shownCount`        : those that are shown
- `length_variants`   : it is their number
- `shownCount_le_iff` : when they are not more than asked for
-/

namespace PropCatalog

/-- How many examples a component with axes has. -/
def exampleCount (c : Component) : Nat :=
  ((axisEntries c).flatMap fun p => p.2.values.getD []).length +
    min 10 (enumeration (axisEntries c)).length

/-- How many examples of a component are shown when `n` are asked for. -/
def shownCount (c : Component) (n : Int) : Nat :=
  if c.props = [] then 0
  else if axisEntries c = [] then 1
  else if 0 ≤ n then min n.toNat (exampleCount c)
  else exampleCount c - n.natAbs

theorem length_cut {α : Type} (n : Int) (items : List α) :
    (cut n items).length =
      if 0 ≤ n then min n.toNat items.length else items.length - n.natAbs := by
  rw [cut]
  split
  · exact List.length_take
  · rw [List.length_take, Nat.min_eq_left (Nat.sub_le _ _)]

/-- There is one example for each value of each axis. -/
theorem length_singles {options : VariantOptions} {c : Component}
    (hkeys : (c.props.map (·.1)).Nodup) {single : List Usage}
    (h : singles options c (axes c.props) = .ok single) :
    single.length = ((axisEntries c).flatMap fun p => p.2.values.getD []).length := by
  rw [singles_eq hkeys] at h
  rw [← (mapM_eq_ok_iff.1 h).length_eq]
  simp only [List.length_flatMap, List.length_map]

/-- There is one example for each choice of several axes, as far as there is room. -/
theorem length_permutations {options : VariantOptions} {c : Component}
    (hkeys : (c.props.map (·.1)).Nodup) {permuted : List Usage}
    (h : (chooseAssignments c.props permutationCeiling (axisSets (axes c.props))).1.mapM
      (permutationUsage options c) = .ok permuted) :
    permuted.length = min 10 (enumeration (axisEntries c)).length := by
  rw [fst_chooseAssignments_axisSets hkeys] at h
  rw [← (mapM_eq_ok_iff.1 h).length_eq, List.length_map, List.length_take]
  rfl

/-- The number of examples that are shown. -/
theorem length_variants {options : VariantOptions} {c : Component}
    (hkeys : (c.props.map (·.1)).Nodup) {usages : List Usage} {notes : List LogRecord}
    (h : variants options c = .ok (usages, notes)) :
    usages.length = shownCount c options.maxPermutations := by
  rcases variants_eq_ok h with ⟨hprops, rfl⟩ | ⟨hprops, haxes, usage, -, rfl⟩ |
    ⟨haxes, single, permuted, hsingle, hpermuted, rfl⟩
  · simp [shownCount, hprops]
  · rw [axes_eq, List.map_eq_nil_iff] at haxes
    simp [shownCount, hprops, haxes]
  · rw [axes_eq, Ne, List.map_eq_nil_iff] at haxes
    have hprops : c.props ≠ [] := by
      intro hprops
      simp [axisEntries, hprops] at haxes
    rw [shownCount, if_neg hprops, if_neg haxes, length_cut, List.length_append,
      length_singles hkeys hsingle, length_permutations hkeys hpermuted]
    rfl

/-- At most as many examples are shown as are asked for, and none for a negative number, unless the
default example is shown though none is asked for, or a negative number leaves some. -/
theorem shownCount_le_iff (c : Component) (n : Int) :
    (shownCount c n : Int) ≤ max n 0 ↔
      1 ≤ n ∨ c.props = [] ∨ axisEntries c ≠ [] ∧ (n = 0 ∨ exampleCount c ≤ n.natAbs) := by
  unfold shownCount
  split_ifs with hprops haxes hn
  · simp [hprops]
  · simp [hprops, haxes]
  · have hmin : ((min n.toNat (exampleCount c) : Nat) : Int) ≤ max n 0 := by omega
    have hcases : 1 ≤ n ∨ n = 0 := by omega
    exact iff_of_true hmin (hcases.imp_right fun hzero => Or.inr ⟨haxes, Or.inl hzero⟩)
  · have hleft : ((exampleCount c - n.natAbs : Nat) : Int) ≤ max n 0 ↔
        exampleCount c ≤ n.natAbs := by omega
    have hone : ¬ 1 ≤ n := by omega
    have hzero : ¬ n = 0 := by omega
    simp only [hleft, hone, hprops, haxes, hzero, false_or, ne_eq, not_false_eq_true, true_and]

end PropCatalog
