import Mathlib.Data.List.Induction
import Mathlib.Data.List.Nodup
import PropCatalog.Assoc

/-!
# Ordered maps — the first element of every key

Adding pairs one after the other by `Assoc.insertNew` keeps the first pair of every key. This file
says which elements these are:

- `firsts`             : the elements of a list, the first one of each key
- `mem_firsts_iff`     : in a strictly ordered list, the elements that come before all others of
  their key
- `firsts_append`      : the first elements of two lists joined
- `firsts_of_nodup`, `mem_firsts_of_injective` : with different keys, all elements are the first
  ones of theirs
- `foldl_insertNew_eq` : what `insertNew` collects from a list
- `ofList_of_nodup`    : pairs with different keys
- `get?_ofList`, `map_fst_ofList` : in general the last pair of a key counts, at the place of the
  first one
- `map_fst_foldl`      : the keys of a map that is built step by step
- `foldl_addNew_eq`    : a list that each name is added to once
-/

namespace PropCatalog
namespace Assoc

variable {α β κ : Type} [DecidableEq κ]

/-- The elements of a list, the first one of each key. -/
def firsts (key : α → κ) (xs : List α) : List α :=
  xs.eraseDupsBy fun x y => key x == key y

@[simp] theorem firsts_nil (key : α → κ) : firsts key [] = [] := rfl

theorem firsts_cons (key : α → κ) (x : α) (xs : List α) :
    firsts key (x :: xs) = x :: firsts key (xs.filter fun y => key y ≠ key x) := by
  simp [firsts, List.eraseDupsBy_cons]

/-! ## Keys and order of the first elements -/

theorem firsts_sublist (key : α → κ) (xs : List α) : (firsts key xs).Sublist xs := by
  match xs with
  | [] => simp
  | x :: xs =>
    rw [firsts_cons]
    have hrest := firsts_sublist key (xs.filter fun y => key y ≠ key x)
    exact (hrest.trans List.filter_sublist).cons_cons x
termination_by xs.length
decreasing_by
  exact Nat.lt_succ_of_le (List.length_filter_le _ _)

theorem mem_map_firsts (key : α → κ) (xs : List α) (k : κ) :
    k ∈ (firsts key xs).map key ↔ k ∈ xs.map key := by
  match xs with
  | [] => simp
  | x :: xs =>
    have hrest := mem_map_firsts key (xs.filter fun y => key y ≠ key x) k
    rw [firsts_cons, List.map_cons, List.mem_cons, hrest, List.map_cons, List.mem_cons]
    by_cases hk : k = key x
    · simp [hk]
    · simp only [hk, false_or, List.mem_map, List.mem_filter]
      constructor
      · intro hcase
        rcases hcase with ⟨y, ⟨hy, -⟩, rfl⟩
        exact ⟨y, hy, rfl⟩
      · intro hcase
        rcases hcase with ⟨y, hy, rfl⟩
        exact ⟨y, ⟨hy, by simpa using hk⟩, rfl⟩
termination_by xs.length
decreasing_by
  exact Nat.lt_succ_of_le (List.length_filter_le _ _)

theorem nodup_map_firsts (key : α → κ) (xs : List α) : ((firsts key xs).map key).Nodup := by
  match xs with
  | [] => simp
  | x :: xs =>
    rw [firsts_cons, List.map_cons, List.nodup_cons]
    refine ⟨?_, nodup_map_firsts key (xs.filter fun y => key y ≠ key x)⟩
    rw [mem_map_firsts]
    intro hmem
    rcases List.mem_map.1 hmem with ⟨y, hy, hkey⟩
    have hne : key y ≠ key x := by simpa using (List.mem_filter.1 hy).2
    exact hne hkey
termination_by xs.length
decreasing_by
  exact Nat.lt_succ_of_le (List.length_filter_le _ _)

/-- An element that is its own key is kept once. -/
theorem mem_firsts_id {xs : List κ} {k : κ} : k ∈ firsts id xs ↔ k ∈ xs := by
  simpa using mem_map_firsts id xs k

theorem nodup_firsts_id (xs : List κ) : (firsts id xs).Nodup := by
  simpa using nodup_map_firsts id xs

/-- With different keys nothing is left out. -/
theorem firsts_of_nodup (key : α → κ) {xs : List α} (h : (xs.map key).Nodup) :
    firsts key xs = xs := by
  induction xs with
  | nil => rfl
  | cons x xs ih =>
    rw [List.map_cons, List.nodup_cons] at h
    have hrest : (xs.filter fun y => key y ≠ key x) = xs := by
      refine List.filter_eq_self.2 fun y hy => decide_eq_true fun hkey => h.1 ?_
      rw [← hkey]
      exact List.mem_map_of_mem hy
    rw [firsts_cons, hrest, ih h.2]

theorem firsts_map (key : β → κ) (f : α → β) (xs : List α) :
    firsts key (xs.map f) = (firsts (fun x => key (f x)) xs).map f := by
  match xs with
  | [] => simp
  | x :: xs =>
    have hrest := firsts_map key f (xs.filter fun y => key (f y) ≠ key (f x))
    rw [List.map_cons, firsts_cons, firsts_cons, List.map_cons, ← hrest, List.filter_map]
    rfl
termination_by xs.length
decreasing_by
  exact Nat.lt_succ_of_le (List.length_filter_le _ _)

/-- Of two lists joined, all of the first one counts, and of the second one what has other keys. -/
theorem firsts_append (key : α → κ) (xs ys : List α) :
    firsts key (xs ++ ys) =
      firsts key xs ++ firsts key (ys.filter fun y => key y ∉ xs.map key) := by
  match xs with
  | [] => simp
  | x :: xs =>
    have hrest := firsts_append key (xs.filter fun y => key y ≠ key x)
      (ys.filter fun y => key y ≠ key x)
    have hkeys : (ys.filter fun y => key y ≠ key x).filter
          (fun y => key y ∉ (xs.filter fun z => key z ≠ key x).map key) =
        ys.filter fun y => key y ∉ (x :: xs).map key := by
      rw [List.filter_filter]
      refine List.filter_congr fun y _ => ?_
      by_cases hy : key y = key x
      · simp [hy]
      · have hmem : key y ∈ (xs.filter fun z => key z ≠ key x).map key ↔ key y ∈ xs.map key := by
          simp only [List.mem_map, List.mem_filter, decide_eq_true_eq]
          constructor
          · rintro ⟨z, ⟨hz, -⟩, hkey⟩
            exact ⟨z, hz, hkey⟩
          · rintro ⟨z, hz, hkey⟩
            exact ⟨z, ⟨hz, hkey ▸ hy⟩, hkey⟩
        rw [Bool.eq_iff_iff]
        simp only [Bool.and_eq_true, decide_eq_true_eq, hmem, List.map_cons, List.mem_cons, not_or]
        exact and_comm
    rw [List.cons_append, firsts_cons, firsts_cons, List.filter_append, hrest, hkeys,
      List.cons_append]
termination_by xs.length
decreasing_by
  exact Nat.lt_succ_of_le (List.length_filter_le _ _)

/-- If different elements have different keys, the first ones are all there are. -/
theorem mem_firsts_of_injective (key : α → κ) {xs : List α}
    (h : ∀ x ∈ xs, ∀ y ∈ xs, key x = key y → x = y) (x : α) : x ∈ firsts key xs ↔ x ∈ xs := by
  constructor
  · exact fun hx => (firsts_sublist key xs).subset hx
  · intro hx
    rcases List.mem_map.1 ((mem_map_firsts key xs (key x)).2 (List.mem_map_of_mem hx)) with
      ⟨y, hy, hkey⟩
    rwa [← h y ((firsts_sublist key xs).subset hy) x hx hkey]

/-- In a list that is ordered by an irreflexive and asymmetric relation, an element is the first of
its key if no element of that key is less. -/
theorem mem_firsts_iff (key : α → κ) (lt : α → α → Prop) (hasymm : ∀ x y, lt x y → ¬ lt y x)
    (xs : List α) (hsorted : xs.Pairwise lt) (x : α) :
    x ∈ firsts key xs ↔ x ∈ xs ∧ ∀ y ∈ xs, key y = key x → ¬ lt y x := by
  match xs with
  | [] => simp
  | a :: xs =>
    have hhead : ∀ y ∈ xs, lt a y := (List.pairwise_cons.1 hsorted).1
    have htail := (List.pairwise_cons.1 hsorted).2
    have hrest := mem_firsts_iff key lt hasymm (xs.filter fun y => key y ≠ key a)
      (htail.sublist List.filter_sublist) x
    rw [firsts_cons, List.mem_cons, hrest]
    have hmem : ∀ y, y ∈ xs.filter (fun y => key y ≠ key a) ↔ y ∈ xs ∧ key y ≠ key a := by
      intro y
      simp
    simp only [hmem]
    constructor
    · intro hcase
      rcases hcase with rfl | ⟨⟨hx, hne⟩, hmin⟩
      · -- The head is least: what follows it is greater.
        refine ⟨List.mem_cons_self, ?_⟩
        intro y hy _ hlt
        rcases List.mem_cons.1 hy with rfl | hy
        · exact hasymm _ _ hlt hlt
        · exact hasymm _ _ hlt (hhead y hy)
      · refine ⟨List.mem_cons_of_mem _ hx, ?_⟩
        intro y hy hkey
        rcases List.mem_cons.1 hy with rfl | hy
        · exact absurd hkey.symm hne
        · exact hmin y ⟨hy, fun h => hne (hkey.symm.trans h)⟩ hkey
    · intro hcase
      rcases hcase with ⟨hx, hmin⟩
      rcases List.mem_cons.1 hx with rfl | hx
      · exact Or.inl rfl
      · -- An element with the key of the head would not be least.
        have hne : key x ≠ key a := by
          intro h
          exact hmin a List.mem_cons_self h.symm (hhead x hx)
        exact Or.inr ⟨⟨hx, hne⟩, fun y hy hkey => hmin y (List.mem_cons_of_mem _ hy.1) hkey⟩
termination_by xs.length
decreasing_by
  exact Nat.lt_succ_of_le (List.length_filter_le _ _)

/-! ## Looking up keys -/

theorem get?_of_mem {pairs : List (String × α)} (hkeys : (pairs.map (·.1)).Nodup) {key : String}
    {a : α} (h : (key, a) ∈ pairs) : get? pairs key = some a := by
  induction pairs with
  | nil => cases h
  | cons pair pairs ih =>
    rcases List.nodup_cons.1 hkeys with ⟨hnot, hrest⟩
    rcases List.mem_cons.1 h with rfl | h
    · simp [get?]
    · have hne : pair.1 ≠ key := by
        rintro rfl
        exact hnot (List.mem_map.2 ⟨_, h, rfl⟩)
      simpa [get?, hne] using ih hrest h

theorem mem_of_get? {pairs : List (String × α)} {key : String} {a : α}
    (h : get? pairs key = some a) : (key, a) ∈ pairs := by
  rcases Option.map_eq_some_iff.1 h with ⟨pair, hpair, rfl⟩
  have hkey : pair.1 = key := by simpa using List.find?_some hpair
  rw [← hkey]
  exact List.mem_of_find?_eq_some hpair

theorem has_iff_mem_keys {pairs : List (String × α)} {key : String} :
    has pairs key = true ↔ key ∈ pairs.map (·.1) := by
  simp [has]

theorem has_of_get? {pairs : List (String × α)} {key : String} {a : α}
    (h : get? pairs key = some a) : has pairs key = true :=
  has_iff_mem_keys.2 (List.mem_map_of_mem (mem_of_get? h))

theorem get?_cons (pair : String × α) (pairs : List (String × α)) (key : String) :
    get? (pair :: pairs) key = if pair.1 = key then some pair.2 else get? pairs key := by
  by_cases hkey : pair.1 = key <;> simp [get?, hkey]

theorem get?_append (pairs others : List (String × α)) (key : String) :
    get? (pairs ++ others) key = (get? pairs key).or (get? others key) := by
  rw [get?, List.find?_append, Option.map_or]
  rfl

/-! ## Building a map from new pairs only -/

theorem has_append (pairs others : List (String × α)) (key : String) :
    has (pairs ++ others) key = (has pairs key || has others key) := by
  simp [has]

/-- What `insertNew` collects: the elements whose keys are not taken, the first one of each key. -/
theorem map_snd_foldl_insertNew (key : α → String) (xs : List α) (acc : List (String × α)) :
    (xs.foldl (fun acc x => insertNew acc (key x, x)) acc).map (·.2) =
      acc.map (·.2) ++ firsts key (xs.filter fun x => !has acc (key x)) := by
  induction xs generalizing acc with
  | nil => simp
  | cons x xs ih =>
    rw [List.foldl_cons, ih]
    by_cases h : has acc (key x) = true
    · simp [insertNew, h]
    · have hx : has acc (key x) = false := by simpa using h
      -- The new pair takes the key of `x`, which is what `firsts` filters by.
      have hfilter :
          (xs.filter fun y => !has (acc ++ [(key x, x)]) (key y)) =
            (xs.filter fun y => !has acc (key y)).filter fun y => key y ≠ key x := by
        rw [List.filter_filter]
        refine List.filter_congr ?_
        intro y _
        rw [has_append]
        by_cases hk : key y = key x
        · simp [has, hk]
        · have hk' : ¬ key x = key y := fun e => hk e.symm
          simp [has, hk, hk']
      simp [insertNew, hx, hfilter, firsts_cons]

theorem foldl_insertNew_eq (key : α → String) (xs : List α) :
    (xs.foldl (fun acc x => insertNew acc (key x, x)) []).map (·.2) = firsts key xs := by
  have hfilter : (xs.filter fun x => !has ([] : List (String × α)) (key x)) = xs := by
    simp [has]
  rw [map_snd_foldl_insertNew, hfilter, List.map_nil, List.nil_append]

/-! ## Building a map from all pairs -/

theorem set_of_not_mem {pairs : List (String × α)} {key : String} (a : α)
    (h : key ∉ pairs.map (·.1)) : set pairs key a = pairs ++ [(key, a)] := by
  induction pairs with
  | nil => rfl
  | cons pair pairs ih =>
    rw [List.map_cons, List.mem_cons, not_or] at h
    have hne : ¬ pair.1 = key := fun heq => h.1 heq.symm
    simp [set, hne, ih h.2]

theorem mem_set {pairs : List (String × α)} {key : String} {a : α} {pair : String × α}
    (h : pair ∈ set pairs key a) : pair = (key, a) ∨ pair ∈ pairs := by
  induction pairs with
  | nil => exact Or.inl (List.mem_singleton.1 h)
  | cons first rest ih =>
    by_cases hkey : first.1 = key
    · have hset : set (first :: rest) key a = (first.1, a) :: rest := by simp [set, hkey]
      rw [hset, hkey] at h
      rcases List.mem_cons.1 h with rfl | h
      · exact Or.inl rfl
      · exact Or.inr (List.mem_cons_of_mem _ h)
    · have hset : set (first :: rest) key a = first :: set rest key a := by simp [set, hkey]
      rw [hset] at h
      rcases List.mem_cons.1 h with rfl | h
      · exact Or.inr List.mem_cons_self
      · rcases ih h with heq | hmem
        · exact Or.inl heq
        · exact Or.inr (List.mem_cons_of_mem _ hmem)

theorem get?_set (pairs : List (String × α)) (key : String) (a : α) (key' : String) :
    get? (set pairs key a) key' = if key = key' then some a else get? pairs key' := by
  induction pairs with
  | nil => exact get?_cons (key, a) [] key'
  | cons pair pairs ih =>
    by_cases hkey : pair.1 = key
    · have hset : set (pair :: pairs) key a = (key, a) :: pairs := by simp [set, hkey]
      rw [hset, get?_cons, get?_cons, hkey]
      by_cases hkey' : key = key' <;> simp [hkey']
    · have hset : set (pair :: pairs) key a = pair :: set pairs key a := by simp [set, hkey]
      rw [hset, get?_cons, get?_cons, ih]
      by_cases hpair : pair.1 = key'
      · have hne : ¬ key = key' := fun h => hkey (hpair.trans h.symm)
        simp [hpair, hne]
      · simp [hpair]

theorem map_fst_set (pairs : List (String × α)) (key : String) (a : α) :
    (set pairs key a).map (·.1) =
      pairs.map (·.1) ++ if has pairs key then [] else [key] := by
  induction pairs with
  | nil => rfl
  | cons pair pairs ih =>
    by_cases hkey : pair.1 = key
    · simp [set, has, hkey]
    · have hhas : has (pair :: pairs) key = has pairs key := by simp [has, hkey]
      have hset : set (pair :: pairs) key a = pair :: set pairs key a := by simp [set, hkey]
      rw [hset, List.map_cons, ih, hhas, List.map_cons, List.cons_append]

/-- Among all pairs with a key the last one counts. -/
theorem get?_ofList (pairs : List (String × α)) (key : String) :
    get? (ofList pairs) key = get? pairs.reverse key := by
  induction pairs using List.reverseRecOn with
  | nil => rfl
  | append_singleton pairs pair ih =>
    have hlast : ofList (pairs ++ [pair]) = set (ofList pairs) pair.1 pair.2 := by
      simp [ofList]
    rw [hlast, get?_set, List.reverse_append, List.reverse_singleton, List.singleton_append,
      get?_cons, ih]

/-- Steps that give a place to a key only if it has none leave the keys in the order in which they
were first given. -/
theorem map_fst_foldl {step : List (String × α) → β → List (String × α)} {key : β → String}
    (hstep : ∀ acc x, (step acc x).map (·.1) =
      acc.map (·.1) ++ if has acc (key x) then [] else [key x])
    (xs : List β) (acc : List (String × α)) :
    (xs.foldl step acc).map (·.1) =
      acc.map (·.1) ++ firsts id ((xs.map key).filter fun k => !has acc k) := by
  induction xs generalizing acc with
  | nil => simp
  | cons x xs ih =>
    have hhas : ∀ k, has (step acc x) k = (has acc k || key x == k) := by
      intro k
      rw [Bool.eq_iff_iff, Bool.or_eq_true, has_iff_mem_keys, has_iff_mem_keys, hstep]
      by_cases hkey : has acc (key x) = true
      · have hmem := has_iff_mem_keys.1 hkey
        by_cases hk : key x = k
        · simp [hkey, ← hk, hmem]
        · simp [hkey, hk]
      · by_cases hk : key x = k
        · simp [← hk, hkey]
        · simp [hkey, hk, Ne.symm hk]
    rw [List.foldl_cons, ih, hstep, List.map_cons]
    cases hkey : has acc (key x) with
    | true =>
      have hfilter : ((xs.map key).filter fun k => !has (step acc x) k) =
          (xs.map key).filter fun k => !has acc k := by
        refine List.filter_congr fun k _ => ?_
        rw [hhas]
        by_cases hk : key x = k
        · simp [← hk, hkey]
        · simp [hk]
      simp [hfilter, hkey]
    | false =>
      -- From here on the key of `x` is taken, which is what `firsts` filters by.
      have hfilter : ((xs.map key).filter fun k => !has (step acc x) k) =
          ((xs.map key).filter fun k => !has acc k).filter fun k => k ≠ key x := by
        rw [List.filter_filter]
        refine List.filter_congr fun k _ => ?_
        rw [hhas]
        by_cases hk : key x = k
        · simp [hk]
        · simp [hk, Ne.symm hk]
      simp [hfilter, hkey, firsts_cons]

/-- The keys of a map come in the order in which they were first given. -/
theorem map_fst_ofList (pairs : List (String × α)) :
    (ofList pairs).map (·.1) = (firsts (·.1) pairs).map (·.1) := by
  have hkeys := map_fst_foldl (fun acc (pair : String × α) => map_fst_set acc pair.1 pair.2)
    pairs []
  have hnone : ((pairs.map (·.1)).filter fun k => !has ([] : List (String × α)) k) =
      pairs.map (·.1) := by
    simp [has]
  rw [hnone, List.map_nil, List.nil_append, firsts_map] at hkeys
  exact hkeys

/-- Adding each name to a list unless it is there keeps the first ones. -/
theorem foldl_addNew_eq (names : List String) :
    names.foldl (fun acc name => if acc.contains name then acc else acc ++ [name]) [] =
      firsts id names := by
  -- The names are the keys of a map whose entries hold nothing.
  have hkeys : ∀ (acc : List (String × Unit)) (name : String),
      (insertNew acc (name, ())).map (·.1) =
        acc.map (·.1) ++ if has acc name then [] else [name] := by
    intro acc name
    by_cases h : has acc name = true <;> simp [insertNew, h]
  have hstep : ∀ (acc : List (String × Unit)) (name : String),
      (if (acc.map (·.1)).contains name then acc.map (·.1) else acc.map (·.1) ++ [name]) =
        (insertNew acc (name, ())).map (·.1) := by
    intro acc name
    rw [hkeys]
    by_cases h : has acc name = true
    · rw [if_pos (List.contains_iff_mem.2 (has_iff_mem_keys.1 h)), if_pos h, List.append_nil]
    · rw [if_neg fun hmem => h (has_iff_mem_keys.2 (List.contains_iff_mem.1 hmem)), if_neg h]
  have hall : (names.map fun name => name).filter
      (fun k => !has ([] : List (String × Unit)) k) = names := by
    simp [has]
  calc names.foldl (fun acc name => if acc.contains name then acc else acc ++ [name]) []
      = (names.foldl (fun acc name => insertNew acc (name, ())) []).map (·.1) :=
        @List.foldl_hom _ _ _ (fun acc : List (String × Unit) => acc.map (·.1)) _ _ names [] hstep
    _ = firsts id names := by
        rw [map_fst_foldl hkeys names [], hall, List.map_nil, List.nil_append]

/-- Pairs with different keys are a map as they stand. -/
theorem ofList_of_nodup {pairs : List (String × α)} (h : (pairs.map (·.1)).Nodup) :
    ofList pairs = pairs := by
  have hstep : ∀ acc : List (String × α), ((acc ++ pairs).map (·.1)).Nodup →
      pairs.foldl (fun acc pair => set acc pair.1 pair.2) acc = acc ++ pairs := by
    induction pairs with
    | nil => simp
    | cons pair pairs ih =>
      intro acc hacc
      have hnot : pair.1 ∉ acc.map (·.1) := by
        rw [List.map_append, List.nodup_append] at hacc
        exact fun hmem => hacc.2.2 _ hmem _ (by simp) rfl
      rw [List.foldl_cons, set_of_not_mem _ hnot,
        ih (List.nodup_cons.1 h).2 _ (by simpa using hacc), List.append_assoc,
        List.singleton_append]
  exact hstep [] h

end Assoc
end PropCatalog
