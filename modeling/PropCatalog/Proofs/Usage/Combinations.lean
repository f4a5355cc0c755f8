import Mathlib.Data.List.Forall2
import Mathlib.Data.List.Lex
import Mathlib.Data.List.Sort
import PropCatalog.Usage.Variants

/-!
# Combinations and choices — what they hold and in which order

- `combinations k xs` : the sublists of length `k`, in lexicographic order of positions
- `choices xss`       : one element of each list, in lexicographic order of positions

Positions are those of `List.zipIdx`, so that equal elements at different places stay apart.
-/

namespace PropCatalog

variable {α β : Type}

/-! ## Combinations -/

theorem mem_combinations_iff {k : Nat} {xs ys : List α} :
    ys ∈ combinations k xs ↔ ys.Sublist xs ∧ ys.length = k := by
  induction xs generalizing k ys with
  | nil =>
    cases k with
    | zero => simp [combinations]
    | succ k =>
      simp only [combinations, List.not_mem_nil, List.sublist_nil, false_iff]
      intro hcase
      rcases hcase with ⟨rfl, hlen⟩
      simp at hlen
  | cons x xs ih =>
    cases k with
    | zero =>
      simp only [combinations, List.mem_singleton, List.length_eq_zero_iff]
      constructor
      · rintro rfl
        exact ⟨List.nil_sublist _, rfl⟩
      · exact fun h => h.2
    | succ k =>
      rw [combinations, List.mem_append, List.mem_map, ih, List.sublist_cons_iff]
      constructor
      · intro hcase
        rcases hcase with ⟨zs, hzs, rfl⟩ | ⟨hsub, hlen⟩
        · rcases ih.1 hzs with ⟨hsub, hlen⟩
          exact ⟨Or.inr ⟨zs, rfl, hsub⟩, by simp [hlen]⟩
        · exact ⟨Or.inl hsub, hlen⟩
      · intro hcase
        rcases hcase with ⟨hsub | ⟨zs, rfl, hsub⟩, hlen⟩
        · exact Or.inr ⟨hsub, hlen⟩
        · exact Or.inl ⟨zs, ih.2 ⟨hsub, by simpa using hlen⟩, rfl⟩

theorem combinations_map (f : α → β) (k : Nat) (xs : List α) :
    combinations k (xs.map f) = (combinations k xs).map (List.map f) := by
  induction xs generalizing k with
  | nil => cases k <;> simp [combinations]
  | cons x xs ih =>
    cases k with
    | zero => simp [combinations]
    | succ k => simp [combinations, ih, Function.comp_def]

/-- The combinations of an increasing list come in lexicographic order. -/
theorem pairwise_combinations {k : Nat} {xs : List Nat} (h : xs.Pairwise (· < ·)) :
    (combinations k xs).Pairwise (· < ·) := by
  induction xs generalizing k with
  | nil => cases k <;> simp [combinations]
  | cons x xs ih =>
    rcases List.pairwise_cons.1 h with ⟨hhead, htail⟩
    cases k with
    | zero => simp [combinations]
    | succ k =>
      rw [combinations, List.pairwise_append]
      refine ⟨?_, ih htail, ?_⟩
      · exact (ih htail).map _ fun _ _ hlt => List.cons_lt_cons_self.2 hlt
      · -- What begins with `x` comes before what begins further on.
        intro ys hys zs hzs
        rcases List.mem_map.1 hys with ⟨ys', -, rfl⟩
        rcases mem_combinations_iff.1 hzs with ⟨hsub, hlen⟩
        cases zs with
        | nil => simp at hlen
        | cons z zs =>
          have hz : z ∈ xs := hsub.subset List.mem_cons_self
          exact List.cons_lt_cons_iff.2 (Or.inl (hhead z hz))

/-- A list of elements with positions is a sublist of all of them if the positions increase and the
elements are those at the positions. -/
theorem sublist_zipIdx_iff {xs : List α} {zs : List (α × Nat)} :
    zs.Sublist xs.zipIdx ↔
      (zs.map (·.2)).Pairwise (· < ·) ∧ ∀ z ∈ zs, xs[z.2]? = some z.1 := by
  have hall : (xs.zipIdx.map (·.2)).Pairwise (· < ·) := by
    have hrange : xs.zipIdx.map (·.2) = List.range' 0 xs.length := List.zipIdx_map_snd 0 xs
    rw [hrange]
    exact List.pairwise_lt_range'
  constructor
  · intro hsub
    refine ⟨hall.sublist (hsub.map _), ?_⟩
    intro z hz
    exact List.mem_zipIdx_iff_getElem?.1 (hsub.subset hz)
  · intro hcase
    rcases hcase with ⟨hinc, hget⟩
    rw [List.pairwise_map] at hinc hall
    have hnodup : zs.Nodup := hinc.imp fun hlt heq => absurd (heq ▸ hlt) (Nat.lt_irrefl _)
    have hsubset : zs ⊆ xs.zipIdx := fun z hz => List.mem_zipIdx_iff_getElem?.2 (hget z hz)
    have : Std.Antisymm fun z w : α × Nat => z.2 < w.2 :=
      ⟨fun _ _ hlt hgt => absurd hgt (Nat.lt_asymm hlt)⟩
    exact List.sublist_of_subperm_of_pairwise (List.subperm_of_subset hnodup hsubset) hinc hall

/-! ## Choices -/

theorem mem_choices_iff {xss : List (List α)} {ys : List α} :
    ys ∈ choices xss ↔ List.Forall₂ (· ∈ ·) ys xss := by
  induction xss generalizing ys with
  | nil => simp [choices]
  | cons xs xss ih =>
    simp only [choices, List.mem_flatMap, List.mem_map, ih]
    constructor
    · intro hcase
      rcases hcase with ⟨x, hx, zs, hzs, rfl⟩
      exact List.Forall₂.cons hx hzs
    · intro h
      cases h with
      | cons hx hzs => exact ⟨_, hx, _, hzs, rfl⟩

/-- The choices from increasing lists come in lexicographic order. -/
theorem pairwise_choices {xss : List (List Nat)} (h : ∀ xs ∈ xss, xs.Pairwise (· < ·)) :
    (choices xss).Pairwise (· < ·) := by
  induction xss with
  | nil => simp [choices]
  | cons xs xss ih =>
    have hrest := ih fun ys hys => h ys (List.mem_cons_of_mem _ hys)
    rw [choices, List.pairwise_flatMap]
    constructor
    · intro x _
      exact hrest.map _ fun _ _ hlt => List.cons_lt_cons_self.2 hlt
    · refine (h xs List.mem_cons_self).imp ?_
      intro x y hlt ys hys zs hzs
      rcases List.mem_map.1 hys with ⟨ys', -, rfl⟩
      rcases List.mem_map.1 hzs with ⟨zs', -, rfl⟩
      exact List.cons_lt_cons_iff.2 (Or.inl hlt)

/-- Choosing elements is choosing their positions. -/
theorem choices_eq_map_positions (f : β → List α) (default : α) (bs : List β) :
    choices (bs.map f) =
      (choices (bs.map fun b => List.range (f b).length)).map fun positions =>
        bs.zipWith (fun b i => (f b).getD i default) positions := by
  induction bs with
  | nil => simp [choices]
  | cons b bs ih =>
    have hrange : f b = (List.range (f b).length).map fun i => (f b).getD i default := by
      apply List.ext_getElem?
      intro i
      by_cases hi : i < (f b).length
      · simp [hi]
      · simp [hi]
    rw [List.map_cons, List.map_cons, choices, choices, ih]
    conv_lhs => rw [hrange]
    simp [List.flatMap_map, List.map_flatMap, Function.comp_def]

end PropCatalog
