import Mathlib.Data.List.DropRight
import PropCatalog.Proofs.Usage.Combinations
import PropCatalog.Proofs.Usage.Filling

/-!
# Examples of a component — the enumeration behind them

`variants` goes through sets of axes and their values with a ceiling, leaves out sets with a
conflict and cuts the result. This file says which examples these are:

- `axisEntries`          : the axes of a component
- `AxisChoice`           : two or three axes with one value of each, by positions
- `AxisChoice.Before`    : the order of choices: by size, then by axes, then by values
- `AxisChoice.Admissible`: the choices that are combined
- `enumeration`          : all of them in order, without a ceiling
- `plannedExamples`      : the examples that the enumeration gives

The loop of `chooseAssignments` is a prefix of the enumeration, by induction over the sets of axes.
-/

namespace PropCatalog

/-! ## Axes and choices -/

/-- The props that are varied, with their names: visible, asking for it, and with values. -/
def axisEntries (c : Component) : List (String × PropSpec) :=
  c.props.filter fun p => p.2.renderVariants && !p.2.hidden && !(p.2.values.getD []).isEmpty

/-- Whether one of two props lists the other among those it is not varied with. -/
def Joined (p q : String × PropSpec) : Prop :=
  q.1 ∈ p.2.excludedWith ∨ p.1 ∈ q.2.excludedWith

instance : DecidableRel Joined :=
  fun p q => inferInstanceAs (Decidable (q.1 ∈ p.2.excludedWith ∨ p.1 ∈ q.2.excludedWith))

/-- The values of an axis that are combined with others. -/
def combinedValues (p : String × PropSpec) : List String :=
  (p.2.values.getD []).take 2

/-- Several axes with one value of each, by their positions. -/
structure AxisChoice where
  axes : List Nat
  values : List Nat

namespace AxisChoice

/-- Fewer axes come first, then axes further to the front, and of the same axes the values further
to the front, those of the last axis changing fastest. -/
def Before (x y : AxisChoice) : Prop :=
  x.axes.length < y.axes.length ∨
    x.axes.length = y.axes.length ∧ (x.axes < y.axes ∨ x.axes = y.axes ∧ x.values < y.values)

/-- The axes of a choice among all axes. -/
def entries (axes : List (String × PropSpec)) (x : AxisChoice) : List (String × PropSpec) :=
  x.axes.filterMap (axes[·]?)

/-- The choices that are made: two or three different axes without a conflict, and one of the first
two values of each. -/
structure Admissible (axes : List (String × PropSpec)) (x : AxisChoice) : Prop where
  size : x.axes.length = 2 ∨ x.axes.length = 3
  increasing : x.axes.Pairwise (· < ·)
  inRange : ∀ i ∈ x.axes, i < axes.length
  free : (x.entries axes).Pairwise fun p q => ¬ Joined p q
  values : List.Forall₂ (fun p v => v < (combinedValues p).length) (x.entries axes) x.values

/-- The names of the axes of a choice, and what the choice assigns to them. -/
def assignment (axes : List (String × PropSpec)) (x : AxisChoice) :
    List String × List (String × Value) :=
  ((x.entries axes).map (·.1),
    (x.entries axes).zipWith (fun p v => (p.1, .text ((combinedValues p).getD v ""))) x.values)

end AxisChoice

/-! ## The enumeration -/

/-- The choices for a set of axes with their positions. -/
def choicesFor (set : List ((String × PropSpec) × Nat)) : List AxisChoice :=
  (choices (set.map fun z => List.range (combinedValues z.1).length)).map fun values =>
    { axes := set.map (·.2), values }

/-- Whether no two axes of a set are in conflict. -/
def isFree (set : List ((String × PropSpec) × Nat)) : Bool :=
  decide (set.Pairwise fun z w => ¬ Joined z.1 w.1)

/-- All choices in order: pairs of axes first, then sets of three. -/
def enumeration (axes : List (String × PropSpec)) : List AxisChoice :=
  ((combinations 2 axes.zipIdx ++ combinations 3 axes.zipIdx).filter isFree).flatMap choicesFor

/-- The entries at the positions of a set are its own ones. -/
theorem filterMap_positions {axes : List (String × PropSpec)}
    {set : List ((String × PropSpec) × Nat)} (h : ∀ z ∈ set, axes[z.2]? = some z.1) :
    (set.map (·.2)).filterMap (axes[·]?) = set.map (·.1) := by
  rw [List.filterMap_map, ← List.filterMap_eq_map]
  exact List.filterMap_congr fun z hz => by simpa using h z hz

theorem mem_choicesFor_iff {set : List ((String × PropSpec) × Nat)} {x : AxisChoice} :
    x ∈ choicesFor set ↔
      x.axes = set.map (·.2) ∧
        List.Forall₂ (fun p v => v < (combinedValues p).length) (set.map (·.1)) x.values := by
  have hforall : ∀ values : List Nat,
      values ∈ choices (set.map fun z => List.range (combinedValues z.1).length) ↔
        List.Forall₂ (fun p v => v < (combinedValues p).length) (set.map (·.1)) values := by
    intro values
    rw [mem_choices_iff, List.forall₂_map_right_iff, List.forall₂_map_left_iff]
    simp only [List.mem_range]
    exact ⟨List.Forall₂.flip, List.Forall₂.flip⟩
  simp only [choicesFor, List.mem_map, hforall]
  constructor
  · intro hcase
    rcases hcase with ⟨values, hvalues, rfl⟩
    exact ⟨rfl, hvalues⟩
  · intro hcase
    rcases hcase with ⟨haxes, hvalues⟩
    exact ⟨x.values, hvalues, by rw [← haxes]⟩

/-- The sets of axes of a size: increasing positions with the axes at them. -/
theorem mem_combinations_zipIdx_iff {axes : List (String × PropSpec)} {k : Nat}
    {set : List ((String × PropSpec) × Nat)} :
    set ∈ combinations k axes.zipIdx ↔
      (set.map (·.2)).Pairwise (· < ·) ∧ (∀ z ∈ set, axes[z.2]? = some z.1) ∧ set.length = k := by
  rw [mem_combinations_iff, sublist_zipIdx_iff, and_assoc]

theorem mem_enumeration_iff {axes : List (String × PropSpec)} {x : AxisChoice} :
    x ∈ enumeration axes ↔ x.Admissible axes := by
  simp only [enumeration, List.mem_flatMap, List.mem_filter, List.mem_append,
    mem_combinations_zipIdx_iff, mem_choicesFor_iff, isFree, decide_eq_true_eq]
  constructor
  · intro hcase
    rcases hcase with ⟨set, ⟨hset, hfree⟩, haxes, hvalues⟩
    have hinc : (set.map (·.2)).Pairwise (· < ·) := by
      rcases hset with hset | hset <;> exact hset.1
    have hget : ∀ z ∈ set, axes[z.2]? = some z.1 := by
      rcases hset with hset | hset <;> exact hset.2.1
    have hentries : x.entries axes = set.map (·.1) := by
      rw [AxisChoice.entries, haxes, filterMap_positions hget]
    refine ⟨?_, haxes ▸ hinc, ?_, ?_, hentries ▸ hvalues⟩
    · rw [haxes, List.length_map]
      rcases hset with hset | hset
      · exact Or.inl hset.2.2
      · exact Or.inr hset.2.2
    · rw [haxes]
      intro i hi
      rcases List.mem_map.1 hi with ⟨z, hz, rfl⟩
      exact (List.getElem?_eq_some_iff.1 (hget z hz)).1
    · rw [hentries, List.pairwise_map]
      exact hfree
  · intro h
    -- The set is read off the positions; none is lost, since all are in range.
    have hset : ∃ set : List ((String × PropSpec) × Nat),
        set.map (·.2) = x.axes ∧ ∀ z ∈ set, axes[z.2]? = some z.1 := by
      refine ⟨x.axes.pmap (fun i hi => (axes[i], i)) h.inRange, ?_, ?_⟩
      · simp [List.map_pmap]
      · intro z hz
        rcases List.mem_pmap.1 hz with ⟨i, hi, rfl⟩
        exact List.getElem?_eq_getElem _
    rcases hset with ⟨set, haxes, hget⟩
    have hentries : x.entries axes = set.map (·.1) := by
      rw [AxisChoice.entries, ← haxes, filterMap_positions hget]
    have hlen : set.length = x.axes.length := by rw [← haxes, List.length_map]
    refine ⟨set, ⟨?_, ?_⟩, haxes.symm, hentries ▸ h.values⟩
    · rcases h.size with hsize | hsize
      · exact Or.inl ⟨haxes ▸ h.increasing, hget, hlen.trans hsize⟩
      · exact Or.inr ⟨haxes ▸ h.increasing, hget, hlen.trans hsize⟩
    · have hfree := h.free
      rw [hentries, List.pairwise_map] at hfree
      exact hfree

/-- Sets of one size come in the order of their positions. -/
theorem pairwise_combinations_zipIdx (k : Nat) (axes : List (String × PropSpec)) :
    (combinations k axes.zipIdx).Pairwise fun set other => set.map (·.2) < other.map (·.2) := by
  have hrange : axes.zipIdx.map (·.2) = List.range' 0 axes.length := List.zipIdx_map_snd 0 axes
  have hsorted :=
    pairwise_combinations (k := k) (List.pairwise_lt_range' (s := 0) (n := axes.length))
  rw [← hrange, combinations_map, List.pairwise_map] at hsorted
  exact hsorted

theorem pairwise_enumeration (axes : List (String × PropSpec)) :
    (enumeration axes).Pairwise AxisChoice.Before := by
  have hlength : ∀ k, ∀ set ∈ combinations k axes.zipIdx, set.length = k :=
    fun k set hset => (mem_combinations_iff.1 hset).2
  -- The sets come by size, and those of one size by positions; filtering keeps the order.
  have hsets : (combinations 2 axes.zipIdx ++ combinations 3 axes.zipIdx).Pairwise
      fun set other => set.length < other.length ∨
        set.length = other.length ∧ set.map (·.2) < other.map (·.2) := by
    rw [List.pairwise_append]
    refine ⟨?_, ?_, ?_⟩
    · refine (pairwise_combinations_zipIdx 2 axes).imp_of_mem ?_
      intro set other hset hother hlt
      exact Or.inr ⟨(hlength 2 set hset).trans (hlength 2 other hother).symm, hlt⟩
    · refine (pairwise_combinations_zipIdx 3 axes).imp_of_mem ?_
      intro set other hset hother hlt
      exact Or.inr ⟨(hlength 3 set hset).trans (hlength 3 other hother).symm, hlt⟩
    · intro set hset other hother
      rw [hlength 2 set hset, hlength 3 other hother]
      exact Or.inl (by decide)
  rw [enumeration, List.pairwise_flatMap]
  constructor
  · -- Within one set of axes the choices are ordered by their values.
    intro set _
    refine (pairwise_choices ?_).map _ fun values values' hlt => Or.inr ⟨rfl, Or.inr ⟨rfl, hlt⟩⟩
    intro xs hxs
    rcases List.mem_map.1 hxs with ⟨z, -, rfl⟩
    exact List.pairwise_lt_range
  · refine (hsets.sublist List.filter_sublist).imp ?_
    intro set other hlt x hx y hy
    have hx' := (mem_choicesFor_iff.1 hx).1
    have hy' := (mem_choicesFor_iff.1 hy).1
    rcases hlt with hlt | ⟨hlen, hlt⟩
    · exact Or.inl (by simpa [hx', hy'] using hlt)
    · exact Or.inr ⟨by simpa [hx', hy'] using hlen, Or.inl (by simpa [hx', hy'] using hlt)⟩

/-! ## The loop over sets of axes -/

/-- The loop finds a prefix of what all sets without a conflict give, as long as there is room. -/
theorem fst_chooseAssignments (props : List (String × PropSpec)) (room : Nat)
    (sets : List (List String)) :
    (chooseAssignments props room sets).1 =
      ((sets.filter fun set => !hasConflict props set).flatMap fun set =>
        (assignments props set).map (set, ·)).take room := by
  induction sets generalizing room with
  | nil => simp [chooseAssignments]
  | cons set sets ih =>
    by_cases hroom : room = 0
    · simp [chooseAssignments, hroom]
    · by_cases hconflict : hasConflict props set = true
      · simp [chooseAssignments, hroom, hconflict, ih]
      · -- The room left for later sets is what the choices of this one do not take.
        have hfree : hasConflict props set = false := by simpa using hconflict
        simp only [chooseAssignments, hroom, hfree, beq_iff_eq, if_false, Bool.false_eq_true, ih,
          List.filter_cons, Bool.not_false, if_true, List.flatMap_cons, List.take_append,
          List.length_map, List.length_take, List.map_take]
        congr 2
        omega

/-- The sets of axes that are tried are those of two and of three axes. -/
theorem axisSets_eq (names : List String) :
    axisSets names = combinations 2 names ++ combinations 3 names := by
  have hshort : ∀ k, names.length < k → combinations k names = [] := by
    intro k hk
    refine List.eq_nil_iff_forall_not_mem.2 ?_
    intro set hset
    rcases mem_combinations_iff.1 hset with ⟨hsub, hlen⟩
    have := hsub.length_le
    omega
  unfold axisSets maxAxesTogether
  have hcases : names.length = 0 ∨ names.length = 1 ∨ names.length = 2 ∨ 3 ≤ names.length := by
    omega
  rcases hcases with h | h | h | h
  · simp [h, hshort 2 (by omega), hshort 3 (by omega)]
  · simp [h, hshort 2 (by omega), hshort 3 (by omega), List.range_succ]
  · simp [h, hshort 3 (by omega), List.range_succ]
  · simp [Nat.min_eq_right h, List.range_succ]

/-- Names with the texts chosen for them, for axes and positions of values. -/
theorem zip_names_zipWith (set : List ((String × PropSpec) × Nat)) (values : List Nat) :
    (set.map (·.1.1)).zip
        ((set.zipWith (fun z v => (combinedValues z.1).getD v "") values).map Value.text) =
      (set.map (·.1)).zipWith (fun p v => (p.1, .text ((combinedValues p).getD v ""))) values := by
  induction set generalizing values with
  | nil => simp
  | cons z set ih =>
    cases values with
    | nil => simp
    | cons v values => simpa using ih values

section Entries

variable {props : List (String × PropSpec)} (hkeys : (props.map (·.1)).Nodup)

include hkeys

theorem conflict_eq_true_iff {p q : String × PropSpec} (hp : p ∈ props) (hq : q ∈ props) :
    conflict props p.1 q.1 = true ↔ Joined p q := by
  have hp' := Assoc.get?_of_mem hkeys hp
  have hq' := Assoc.get?_of_mem hkeys hq
  simp [conflict, hp', hq', Joined]

theorem hasConflict_eq_false_iff {set : List (String × PropSpec)} (h : ∀ p ∈ set, p ∈ props) :
    hasConflict props (set.map (·.1)) = false ↔ set.Pairwise fun p q => ¬ Joined p q := by
  induction set with
  | nil => simp [hasConflict]
  | cons p set ih =>
    have hp := h p List.mem_cons_self
    have hset : ∀ q ∈ set, q ∈ props := fun q hq => h q (List.mem_cons_of_mem _ hq)
    have hany : (set.map (·.1)).any (conflict props p.1) = false ↔ ∀ q ∈ set, ¬ Joined p q := by
      rw [List.any_eq_false]
      constructor
      · intro hall q hq hjoined
        exact hall q.1 (List.mem_map_of_mem hq)
          ((conflict_eq_true_iff hkeys hp (hset q hq)).2 hjoined)
      · intro hall name hname
        rcases List.mem_map.1 hname with ⟨q, hq, rfl⟩
        rw [conflict_eq_true_iff hkeys hp (hset q hq)]
        exact hall q hq
    rw [List.map_cons, hasConflict, Bool.or_eq_false_iff, hany, ih hset, List.pairwise_cons]

theorem axisValues_of_mem {p : String × PropSpec} (hp : p ∈ props) :
    axisValues props p.1 = p.2.values.getD [] := by
  have hp' := Assoc.get?_of_mem hkeys hp
  simp [axisValues, hp']

/-- The assignments for a set of axes are those of its choices. -/
theorem assignments_eq (axes : List (String × PropSpec)) {set : List ((String × PropSpec) × Nat)}
    (hget : ∀ z ∈ set, axes[z.2]? = some z.1) (hmem : ∀ z ∈ set, z.1 ∈ props) :
    (assignments props (set.map (·.1.1))).map (set.map (·.1.1), ·) =
      (choicesFor set).map (AxisChoice.assignment axes) := by
  have hvalues : (set.map (·.1.1)).map (fun axis => (axisValues props axis).take valuesPerAxis) =
      set.map fun z => combinedValues z.1 := by
    rw [List.map_map]
    refine List.map_congr_left ?_
    intro z hz
    simp [axisValues_of_mem hkeys (hmem z hz), combinedValues, valuesPerAxis]
  rw [assignments, hvalues, choices_eq_map_positions (fun z => combinedValues z.1) "" set,
    choicesFor]
  simp only [List.map_map]
  refine List.map_congr_left ?_
  intro values _
  simp only [Function.comp_apply, AxisChoice.assignment, AxisChoice.entries,
    filterMap_positions hget, zip_names_zipWith, List.map_map]
  rfl

end Entries

theorem axes_eq (c : Component) : axes c.props = (axisEntries c).map (·.1) := by
  have hfilter : c.props.filter (·.2.isAxis) = axisEntries c := by
    refine List.filter_congr ?_
    intro p _
    simp only [PropSpec.isAxis]
    cases p.2.renderVariants <;> cases p.2.hidden <;> simp
  rw [axes, hfilter]

/-- The axes of a set are at their positions, and they are props of the component. -/
theorem entries_of_mem_combinations {c : Component} {set : List ((String × PropSpec) × Nat)}
    (h : set ∈ combinations 2 (axisEntries c).zipIdx ++ combinations 3 (axisEntries c).zipIdx) :
    (∀ z ∈ set, (axisEntries c)[z.2]? = some z.1) ∧ ∀ z ∈ set, z.1 ∈ c.props := by
  have hget : ∀ z ∈ set, (axisEntries c)[z.2]? = some z.1 := by
    rcases List.mem_append.1 h with h | h
    · exact (mem_combinations_zipIdx_iff.1 h).2.1
    · exact (mem_combinations_zipIdx_iff.1 h).2.1
  exact ⟨hget, fun z hz => List.mem_of_mem_filter (List.mem_of_getElem? (hget z hz))⟩

theorem not_hasConflict_eq_isFree {c : Component} (hkeys : (c.props.map (·.1)).Nodup)
    {set : List ((String × PropSpec) × Nat)} (h : ∀ z ∈ set, z.1 ∈ c.props) :
    (!hasConflict c.props (set.map (·.1.1))) = isFree set := by
  have hprops : ∀ p ∈ set.map (·.1), p ∈ c.props := by
    intro p hp
    rcases List.mem_map.1 hp with ⟨z, hz, rfl⟩
    exact h z hz
  have hiff := hasConflict_eq_false_iff hkeys hprops
  rw [List.map_map, List.pairwise_map] at hiff
  rw [isFree, Bool.eq_iff_iff, Bool.not_eq_true', decide_eq_true_eq]
  exact hiff

/-- The loop over all sets of axes takes the choices of the enumeration while there is room. -/
theorem fst_chooseAssignments_axisSets {c : Component} (hkeys : (c.props.map (·.1)).Nodup)
    (room : Nat) :
    (chooseAssignments c.props room (axisSets (axes c.props))).1 =
      ((enumeration (axisEntries c)).take room).map (AxisChoice.assignment (axisEntries c)) := by
  have hnames : axes c.props = (axisEntries c).zipIdx.map (·.1.1) := by
    have hfst := List.zipIdx_map_fst 0 (axisEntries c)
    rw [axes_eq]
    nth_rewrite 1 [← hfst]
    rw [List.map_map]
    rfl
  have hfilter :
      ((combinations 2 (axisEntries c).zipIdx ++ combinations 3 (axisEntries c).zipIdx).filter
        fun set => !hasConflict c.props (set.map (·.1.1))) =
      (combinations 2 (axisEntries c).zipIdx ++ combinations 3 (axisEntries c).zipIdx).filter
        isFree := by
    refine List.filter_congr ?_
    intro set hset
    exact not_hasConflict_eq_isFree hkeys (entries_of_mem_combinations hset).2
  rw [fst_chooseAssignments, axisSets_eq, hnames, combinations_map, combinations_map,
    ← List.map_append, List.filter_map, List.flatMap_map, List.map_take, enumeration,
    List.map_flatMap]
  congr 1
  simp only [Function.comp_def, hfilter]
  refine List.flatMap_congr ?_
  intro set hset
  rcases entries_of_mem_combinations (List.mem_of_mem_filter hset) with ⟨hget, hprops⟩
  exact assignments_eq hkeys (axisEntries c) hget hprops

/-! ## All examples -/

/-- The examples that an enumeration of choices gives: one for each value of each axis, then the
first ten choices if there are two axes; as many of them as are asked for, a negative number leaving
out so many at the end. -/
def plannedExamples (options : VariantOptions) (c : Component) (choices : List AxisChoice) :
    Except LiteralError (List Usage) := do
  let axes := axisEntries c
  let single ← (axes.flatMap fun p => (p.2.values.getD []).map fun value => (p.1, value)).mapM
    fun (axis, value) => singleUsage options c axis value
  let chosen := if 2 ≤ axes.length then choices.take 10 else []
  let permuted ← (chosen.map (AxisChoice.assignment axes)).mapM (permutationUsage options c)
  let all := single ++ permuted
  return if 0 ≤ options.maxPermutations then all.take options.maxPermutations.toNat
    else all.rdrop options.maxPermutations.natAbs

theorem enumeration_eq_nil {axes : List (String × PropSpec)} (h : ¬ 2 ≤ axes.length) :
    enumeration axes = [] := by
  refine List.eq_nil_iff_forall_not_mem.2 ?_
  intro x hx
  have hadm := mem_enumeration_iff.1 hx
  -- Two increasing positions in range need two axes.
  have hsub : x.axes.Subperm (List.range axes.length) := by
    refine List.subperm_of_subset ?_ ?_
    · exact hadm.increasing.imp fun hlt heq => absurd (heq ▸ hlt) (Nat.lt_irrefl _)
    · exact fun i hi => List.mem_range.2 (hadm.inRange i hi)
  have hle := hsub.length_le
  rw [List.length_range] at hle
  rcases hadm.size with hsize | hsize <;> omega

theorem singles_eq {c : Component} (hkeys : (c.props.map (·.1)).Nodup) (options : VariantOptions) :
    singles options c (axes c.props) =
      ((axisEntries c).flatMap fun p => (p.2.values.getD []).map fun value => (p.1, value)).mapM
        fun (axis, value) => singleUsage options c axis value := by
  have hpairs : ((axes c.props).flatMap fun axis => (axisValues c.props axis).map (axis, ·)) =
      (axisEntries c).flatMap fun p => (p.2.values.getD []).map fun value => (p.1, value) := by
    rw [axes_eq, List.flatMap_map]
    refine List.flatMap_congr ?_
    intro p hp
    rw [axisValues_of_mem hkeys (List.mem_of_mem_filter hp)]
  rw [singles, hpairs]

theorem cut_eq {α : Type} (n : Int) (items : List α) :
    cut n items = if 0 ≤ n then items.take n.toNat else items.rdrop n.natAbs := rfl

/-- The examples of a component with props are the default one if no prop is varied, and otherwise
the examples planned by the one list that holds the admissible choices in order. -/
theorem variants_enumerate (options : VariantOptions) (c : Component) (hne : c.props ≠ [])
    (hkeys : (c.props.map (·.1)).Nodup) :
    ∃ choices : List AxisChoice,
      choices.Pairwise AxisChoice.Before ∧
        (∀ x, x ∈ choices ↔ x.Admissible (axisEntries c)) ∧
        (variants options c).map (·.1) =
          if (axisEntries c).isEmpty then (defaultUsage options c).map fun usage => [usage]
          else plannedExamples options c choices := by
  refine ⟨enumeration (axisEntries c), pairwise_enumeration _, fun x => mem_enumeration_iff, ?_⟩
  have hprops : c.props.isEmpty = false := by simpa using hne
  have haxes : (axes c.props).isEmpty = (axisEntries c).isEmpty := by
    rw [axes_eq, List.isEmpty_map]
  cases hentries : (axisEntries c).isEmpty with
  | true =>
    rw [hentries] at haxes
    simp only [variants, hprops, haxes, Bool.false_eq_true, if_false, if_true]
    cases defaultUsage options c <;> rfl
  | false =>
    rw [hentries] at haxes
    -- With fewer than two axes the enumeration is empty, so asking for two changes nothing.
    have hchosen :
        (if 2 ≤ (axisEntries c).length then (enumeration (axisEntries c)).take 10 else []) =
          (enumeration (axisEntries c)).take 10 := by
      by_cases htwo : 2 ≤ (axisEntries c).length
      · rw [if_pos htwo]
      · rw [if_neg htwo, enumeration_eq_nil htwo, List.take_nil]
    rw [map_fst_variants_of_axes options hprops haxes, singles_eq hkeys,
      fst_chooseAssignments_axisSets hkeys, plannedExamples]
    simp only [hchosen, permutationCeiling, cut_eq, Bool.false_eq_true, if_false]

/-- A badge with three axes, two of which exclude each other, and a prop that is not varied. -/
def badge : Component where
  name := "Badge"
  props := [
    ("tone", { type := "Tone", optional := true, values := some ["info", "warn", "dark"],
               renderVariants := true, excludedWith := ["size"] }),
    ("label", { type := "string" }),
    ("size", { type := "Size", optional := true, values := some ["sm", "lg"],
               renderVariants := true }),
    ("shape", { type := "Shape", optional := true, values := some ["round"],
                renderVariants := true })]

theorem variants_enumerate_badge :
    badge.props ≠ [] ∧ (badge.props.map (·.1)).Nodup ∧
      ∃ choices : List AxisChoice,
        choices.Pairwise AxisChoice.Before ∧
          (∀ x, x ∈ choices ↔ x.Admissible (axisEntries badge)) ∧
          (variants {} badge).map (·.1) =
            if (axisEntries badge).isEmpty then (defaultUsage {} badge).map fun usage => [usage]
            else plannedExamples {} badge choices :=
  ⟨by decide, by decide, variants_enumerate {} badge (by decide) (by decide)⟩

example : (enumeration (axisEntries badge)).map (·.axes) = [[0, 2], [0, 2], [1, 2], [1, 2]] := by
  decide

end PropCatalog
