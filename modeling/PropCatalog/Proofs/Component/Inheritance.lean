import Mathlib.Data.List.Lex
import PropCatalog.Component.Extract
import PropCatalog.Proofs.Assoc

/-!
# Inheritance — paths through bases and the props they give

`inherited` walks through the bases of a declaration under a limit, a guard against cycles and the
filters of utility types. This file describes the same members without a walk:

- `Wraps`           : a base as a reference to a declaration under utility types
- `InheritancePath` : a way from a declaration through bases to another one
- `Origin`          : where a member stands, by positions; the order of origins is depth first
- `Contributes`     : the member that an origin gives to a declaration
- `Flattened`       : what the props of a component are

`walk` is the walk with the origin of every member. It is strictly ordered and holds exactly the
contributions, and leaving out the origins gives `inherited`.
-/

namespace PropCatalog

/-! ## Paths -/

/-- A utility type on a path, with the keys it lists. -/
structure Wrapper where
  utility : String
  keys : List String

/-- Whether a utility type lets members of a name pass. -/
def Wrapper.Admits (w : Wrapper) (name : String) : Prop :=
  (w.utility = "Omit" → name ∉ w.keys) ∧ (w.utility = "Pick" → name ∈ w.keys)

/-- A base refers to a declaration by name, under utility types with at least one argument, the
outermost one first. -/
inductive Wraps : TypeExpr → List Wrapper → String → Prop where
  | plain {text name : String} {arguments : List TypeExpr} :
      name ∉ utilityTypes ∨ arguments = [] → Wraps (.reference text name arguments) [] name
  | utility {text name target : String} {base : TypeExpr} {keys : List TypeExpr}
      {wrappers : List Wrapper} :
      name ∈ utilityTypes → Wraps base wrappers target →
      Wraps (.reference text name (base :: keys)) (⟨name, keyNamesOf keys⟩ :: wrappers) target

/-- `InheritancePath o first positions trail wrappers last`: taking the bases at the given positions
leads from `first` to `last`. On the way stand the declarations named in `trail`, both ends
included, and the utility types `wrappers`. -/
inductive InheritancePath (o : Outline) :
    PropsDecl → List Nat → List String → List Wrapper → PropsDecl → Prop where
  | here (decl : PropsDecl) : InheritancePath o decl [] [decl.name] [] decl
  | step {decl next last : PropsDecl} {i : Nat} {base : TypeExpr} {name : String}
      {positions : List Nat} {trail : List String} {wrappers others : List Wrapper} :
      decl.bases[i]? = some base → Wraps base wrappers name → o.decl? name = some next →
      InheritancePath o next positions trail others last →
      InheritancePath o decl (i :: positions) (decl.name :: trail) (wrappers ++ others) last

/-! ## Origins -/

/-- Where a member stands: the positions of the bases that lead to its declaration, and its own
position there. -/
structure Origin where
  bases : List Nat
  index : Nat

namespace Origin

/-- The depth-first order: the members of a declaration come before those of its bases, and the
bases come in their own order. -/
def Before (x y : Origin) : Prop :=
  x.bases < y.bases ∨ x.bases = y.bases ∧ x.index < y.index

/-- An origin as seen from a declaration one base further up. -/
def under (i : Nat) (x : Origin) : Origin :=
  { x with bases := i :: x.bases }

theorem Before.asymm {x y : Origin} (h : x.Before y) : ¬ y.Before x := by
  intro h'
  rcases h with h | ⟨heq, hlt⟩
  · rcases h' with h' | ⟨heq', -⟩
    · exact lt_asymm h h'
    · exact absurd (heq' ▸ h) (lt_irrefl _)
  · rcases h' with h' | ⟨-, hlt'⟩
    · exact absurd (heq ▸ h') (lt_irrefl _)
    · exact Nat.lt_asymm hlt hlt'

theorem before_under {x y : Origin} (i : Nat) (h : x.Before y) :
    (x.under i).Before (y.under i) := by
  rcases h with h | ⟨heq, hlt⟩
  · exact Or.inl (List.cons_lt_cons_self.2 h)
  · exact Or.inr ⟨congrArg (i :: ·) heq, hlt⟩

theorem before_of_lt {i j : Nat} (h : i < j) (x y : Origin) : (x.under i).Before (y.under j) :=
  Or.inl (List.cons_lt_cons_iff.2 (Or.inl h))

end Origin

/-! ## Members that pass utility types -/

/-- What the utility types of a path, the outermost one first, make of a member. -/
def passed : List Wrapper → Member → Option Member
  | [], m => some m
  | w :: wrappers, m => (passed wrappers m).bind (applyUtility w.utility w.keys)

theorem passed_append (wrappers others : List Wrapper) (m : Member) :
    passed (wrappers ++ others) m = (passed others m).bind (passed wrappers) := by
  induction wrappers with
  | nil =>
    cases h : passed others m <;> simp [passed, h]
  | cons w wrappers ih =>
    simp only [List.cons_append, passed, ih, Option.bind_assoc]

/-- A member with the optionality that the utility types of a path give it. -/
def withUtilities (wrappers : List Wrapper) (m : Member) : Member :=
  if ∃ w ∈ wrappers, w.utility = "Partial" then { m with optional := true } else m

@[simp] theorem withUtilities_name (wrappers : List Wrapper) (m : Member) :
    (withUtilities wrappers m).name = m.name := by
  unfold withUtilities
  split <;> rfl

theorem withUtilities_cons (w : Wrapper) (wrappers : List Wrapper) (m : Member) :
    withUtilities (w :: wrappers) m = withUtilities [w] (withUtilities wrappers m) := by
  by_cases hw : w.utility = "Partial"
  · by_cases hrest : ∃ v ∈ wrappers, v.utility = "Partial" <;> simp [withUtilities, hw, hrest]
  · simp [withUtilities, hw]

theorem applyUtility_eq_some_iff {w : Wrapper} {m m' : Member} :
    applyUtility w.utility w.keys m = some m' ↔ w.Admits m.name ∧ withUtilities [w] m = m' := by
  by_cases ho : w.utility = "Omit"
  · by_cases hk : m.name ∈ w.keys <;> simp [applyUtility, Wrapper.Admits, withUtilities, ho, hk]
  · by_cases hp : w.utility = "Pick"
    · by_cases hk : m.name ∈ w.keys <;> simp [applyUtility, Wrapper.Admits, withUtilities, hp, hk]
    · by_cases hq : w.utility = "Partial" <;>
        simp [applyUtility, Wrapper.Admits, withUtilities, ho, hp, hq]

/-- A member passes the utility types of a path if each of them admits its name, and is changed in
its optionality only. -/
theorem passed_eq_some_iff {wrappers : List Wrapper} {m m' : Member} :
    passed wrappers m = some m' ↔
      (∀ w ∈ wrappers, w.Admits m.name) ∧ withUtilities wrappers m = m' := by
  induction wrappers generalizing m' with
  | nil => simp [passed, withUtilities]
  | cons w wrappers ih =>
    rw [passed, Option.bind_eq_some_iff, withUtilities_cons, List.forall_mem_cons]
    constructor
    · intro hcase
      rcases hcase with ⟨m₁, h₁, happly⟩
      rcases ih.1 h₁ with ⟨hall, rfl⟩
      rcases applyUtility_eq_some_iff.1 happly with ⟨hw, heq⟩
      exact ⟨⟨by simpa using hw, hall⟩, heq⟩
    · intro hcase
      rcases hcase with ⟨⟨hw, hall⟩, heq⟩
      refine ⟨withUtilities wrappers m, ih.2 ⟨hall, rfl⟩, applyUtility_eq_some_iff.2 ⟨?_, heq⟩⟩
      simpa using hw

/-! ## The walk with origins -/

/-- The members of a declaration with their origins, for any way of walking through a base: first
its own ones, then those of its bases. -/
def located (decl : PropsDecl) (through : TypeExpr → List (Origin × Member)) :
    List (Origin × Member) :=
  decl.members.mapIdx (fun j m => (⟨[], j⟩, m)) ++
    (decl.bases.mapIdx fun i base =>
      (through base).map fun found => (found.1.under i, found.2)).flatten

/-- The walk through a base, with the origin of every member as seen from the declaration that the
base refers to. -/
def walk (o : Outline) : Nat → List String → TypeExpr → List (Origin × Member)
  | 0, _, _ => []
  | limit + 1, ancestors, .reference _ name arguments =>
    match utilityTypes.contains name, arguments with
    | true, base :: keys =>
      (walk o limit ancestors base).filterMap fun found =>
        (applyUtility name (keyNamesOf keys) found.2).map (found.1, ·)
    | _, _ =>
      if ancestors.contains name then []
      else
        match o.decl? name with
        | none => []
        | some decl => located decl (walk o limit (name :: ancestors))
  | _ + 1, _, _ => []

/-- The member that a step comes upon. -/
def Step.member? : Step → Option Member
  | .member m => some m
  | .note _ => none

/-! ### Members, order and origins of a declaration -/

theorem map_snd_located (decl : PropsDecl) (through : TypeExpr → List (Origin × Member)) :
    (located decl through).map (·.2) =
      decl.members ++ decl.bases.flatMap fun base => (through base).map (·.2) := by
  have hown :
      (decl.members.mapIdx fun j m => ((⟨[], j⟩ : Origin), m)).map (·.2) = decl.members := by
    apply List.ext_getElem?
    intro j
    simp [Function.comp_def]
  have hbases :
      ((decl.bases.mapIdx fun i base =>
        (through base).map fun found => (found.1.under i, found.2)).map fun found =>
          found.map (·.2)) = decl.bases.map fun base => (through base).map (·.2) := by
    apply List.ext_getElem?
    intro i
    simp [Function.comp_def]
  rw [located, List.map_append, hown, List.map_flatten, hbases, List.flatMap_def]

theorem mem_located_iff {decl : PropsDecl} {through : TypeExpr → List (Origin × Member)}
    {x : Origin} {m : Member} :
    (x, m) ∈ located decl through ↔
      (x.bases = [] ∧ decl.members[x.index]? = some m) ∨
        ∃ i base y, decl.bases[i]? = some base ∧ (y, m) ∈ through base ∧ x = y.under i := by
  rw [located, List.mem_append]
  refine or_congr ?_ ?_
  · rw [List.mem_mapIdx]
    constructor
    · intro hcase
      rcases hcase with ⟨j, hj, heq⟩
      cases heq
      exact ⟨rfl, List.getElem?_eq_getElem hj⟩
    · intro hcase
      rcases hcase with ⟨hnil, hm⟩
      rcases List.getElem?_eq_some_iff.1 hm with ⟨hj, hget⟩
      refine ⟨x.index, hj, ?_⟩
      rw [hget, ← hnil]
  · rw [List.mem_flatten]
    constructor
    · intro hcase
      rcases hcase with ⟨group, hgroup, hmem⟩
      rcases List.mem_mapIdx.1 hgroup with ⟨i, hi, rfl⟩
      rcases List.mem_map.1 hmem with ⟨⟨y, m'⟩, hy, heq⟩
      cases heq
      exact ⟨i, decl.bases[i], y, List.getElem?_eq_getElem hi, hy, rfl⟩
    · intro hcase
      rcases hcase with ⟨i, base, y, hbase, hy, rfl⟩
      rcases List.getElem?_eq_some_iff.1 hbase with ⟨hi, hget⟩
      refine ⟨_, List.mem_mapIdx.2 ⟨i, hi, rfl⟩, List.mem_map.2 ⟨(y, m), ?_, rfl⟩⟩
      rwa [hget]

theorem pairwise_located {decl : PropsDecl} {through : TypeExpr → List (Origin × Member)}
    (h : ∀ base, (through base).Pairwise fun f g => f.1.Before g.1) :
    (located decl through).Pairwise fun f g => f.1.Before g.1 := by
  rw [located, List.pairwise_append]
  refine ⟨?_, ?_, ?_⟩
  · rw [List.pairwise_iff_getElem]
    intro i j hi hj hlt
    simpa [Origin.Before] using hlt
  · rw [List.pairwise_flatten]
    constructor
    · intro group hgroup
      rcases List.mem_mapIdx.1 hgroup with ⟨i, hi, rfl⟩
      exact (h _).map _ fun _ _ hbefore => Origin.before_under i hbefore
    · -- Members of different bases are ordered by the positions of the bases.
      rw [List.pairwise_iff_getElem]
      intro i j hi hj hlt f hf g hg
      rw [List.getElem_mapIdx] at hf hg
      rcases List.mem_map.1 hf with ⟨f', -, rfl⟩
      rcases List.mem_map.1 hg with ⟨g', -, rfl⟩
      exact Origin.before_of_lt hlt f'.1 g'.1
  · -- An own member has no positions of bases, which is least.
    intro f hf g hg
    rcases List.mem_mapIdx.1 hf with ⟨j, hj, rfl⟩
    rcases List.mem_flatten.1 hg with ⟨group, hgroup, hmem⟩
    rcases List.mem_mapIdx.1 hgroup with ⟨i, hi, rfl⟩
    rcases List.mem_map.1 hmem with ⟨g', -, rfl⟩
    exact Or.inl (List.nil_lt_cons _ _)

/-! ### One step of the walk -/

/-- A reference is followed to a declaration, or it is a utility type with arguments. -/
theorem plain_or_utility (name : String) (arguments : List TypeExpr) :
    (name ∉ utilityTypes ∨ arguments = []) ∨
      ∃ base keys, name ∈ utilityTypes ∧ arguments = base :: keys := by
  by_cases hmem : name ∈ utilityTypes
  · cases arguments with
    | nil => exact Or.inl (Or.inr rfl)
    | cons base keys => exact Or.inr ⟨base, keys, hmem, rfl⟩
  · exact Or.inl (Or.inl hmem)

theorem walk_utility (o : Outline) (limit : Nat) (ancestors : List String) {name : String}
    (text : String) (base : TypeExpr) (keys : List TypeExpr) (h : name ∈ utilityTypes) :
    walk o (limit + 1) ancestors (.reference text name (base :: keys)) =
      (walk o limit ancestors base).filterMap fun found =>
        (applyUtility name (keyNamesOf keys) found.2).map (found.1, ·) := by
  have hc : utilityTypes.contains name = true := by simpa using h
  simp only [walk, hc]

theorem walk_plain (o : Outline) (limit : Nat) (ancestors : List String) {name : String}
    (text : String) (arguments : List TypeExpr) (h : name ∉ utilityTypes ∨ arguments = []) :
    walk o (limit + 1) ancestors (.reference text name arguments) =
      if name ∈ ancestors then []
      else
        match o.decl? name with
        | none => []
        | some decl => located decl (walk o limit (name :: ancestors)) := by
  cases arguments with
  | nil => simp [walk]
  | cons base keys =>
    have hn : utilityTypes.contains name = false := by simpa using h
    simp only [walk, hn, List.contains_iff_mem]

theorem inherited_utility (o : Outline) (limit : Nat) (ancestors : List String) {name : String}
    (text : String) (base : TypeExpr) (keys : List TypeExpr) (h : name ∈ utilityTypes) :
    (inherited o (limit + 1) ancestors (.reference text name (base :: keys))).filterMap
        Step.member? =
      ((inherited o limit ancestors base).filterMap Step.member?).filterMap
        (applyUtility name (keyNamesOf keys)) := by
  have hc : utilityTypes.contains name = true := by simpa using h
  simp only [inherited, hc]
  rw [List.filterMap_filterMap, List.filterMap_filterMap]
  congr 1
  funext step
  cases step with
  | member m => cases hm : applyUtility name (keyNamesOf keys) m <;> simp [Step.member?, hm]
  | note r => rfl

theorem inherited_plain (o : Outline) (limit : Nat) (ancestors : List String) {name : String}
    (text : String) (arguments : List TypeExpr) (h : name ∉ utilityTypes ∨ arguments = []) :
    (inherited o (limit + 1) ancestors (.reference text name arguments)).filterMap Step.member? =
      if name ∈ ancestors then []
      else
        match o.decl? name with
        | none => []
        | some decl =>
          decl.members ++ decl.bases.flatMap fun base =>
            (inherited o limit (name :: ancestors) base).filterMap Step.member? := by
  have hstep :
      inherited o (limit + 1) ancestors (.reference text name arguments) =
        if ancestors.contains name then []
        else
          match o.decl? name with
          | none => [.note (unresolvedNote o name)]
          | some decl =>
            decl.members.map .member ++
              decl.bases.flatMap (inherited o limit (name :: ancestors)) := by
    -- The branch for declarations is that of references which are no utility type with arguments.
    have hbranch : ∀ base keys,
        utilityTypes.contains name = true → arguments = base :: keys → False := by
      intro base keys hutility harguments
      rcases h with hplain | hnone
      · exact hplain (by simpa using hutility)
      · rw [hnone] at harguments
        cases harguments
    exact inherited.eq_3 o ancestors limit text name arguments hbranch
  rw [hstep]
  by_cases ha : name ∈ ancestors
  · simp [ha]
  · cases hd : o.decl? name with
    | none => simp [ha, Step.member?]
    | some decl =>
      simp [ha, List.filterMap_append, List.filterMap_map, List.filterMap_flatMap,
        Function.comp_def, Step.member?]

/-- Leaving out the origins gives the members that `inherited` comes upon. -/
theorem filterMap_member?_inherited (o : Outline) (limit : Nat) (ancestors : List String)
    (base : TypeExpr) :
    (inherited o limit ancestors base).filterMap Step.member? =
      (walk o limit ancestors base).map (·.2) := by
  -- Both walks spend the limit in the same way, so the induction is on it.
  induction limit generalizing ancestors base with
  | zero => simp [inherited, walk]
  | succ limit ih =>
    cases base with
    | reference text name arguments =>
      rcases plain_or_utility name arguments with hplain | ⟨base, keys, hmem, rfl⟩
      · rw [inherited_plain o limit ancestors text arguments hplain,
          walk_plain o limit ancestors text arguments hplain]
        by_cases ha : name ∈ ancestors
        · simp [ha]
        · cases hd : o.decl? name with
          | none => simp [ha]
          | some decl => simp only [ha, if_false, map_snd_located, ih]
      · rw [inherited_utility o limit ancestors text base keys hmem,
          walk_utility o limit ancestors text base keys hmem, ih, List.filterMap_map,
          List.map_filterMap]
        congr 1
        funext found
        cases h : applyUtility name (keyNamesOf keys) found.2 <;> simp [h]
    | literal | union | intersection | object | other => simp [inherited, walk]

theorem pairwise_walk (o : Outline) (limit : Nat) (ancestors : List String) (base : TypeExpr) :
    (walk o limit ancestors base).Pairwise fun f g => f.1.Before g.1 := by
  induction limit generalizing ancestors base with
  | zero => simp [walk]
  | succ limit ih =>
    cases base with
    | reference text name arguments =>
      rcases plain_or_utility name arguments with hplain | ⟨base, keys, hmem, rfl⟩
      · rw [walk_plain o limit ancestors text arguments hplain]
        by_cases ha : name ∈ ancestors
        · simp [ha]
        · cases hd : o.decl? name with
          | none => simp [ha]
          | some decl => simpa [ha] using pairwise_located fun base => ih (name :: ancestors) base
      · rw [walk_utility o limit ancestors text base keys hmem, List.pairwise_filterMap]
        -- A utility type drops and changes members, but never moves them.
        refine (ih ancestors base).imp ?_
        intro f g hbefore f' hf' g' hg'
        rcases Option.map_eq_some_iff.1 hf' with ⟨m, -, rfl⟩
        rcases Option.map_eq_some_iff.1 hg' with ⟨m', -, rfl⟩
        exact hbefore
    | literal | union | intersection | object | other => simp [walk]

/-! ### What the walk comes upon -/

theorem Outline.decl?_name {o : Outline} {name : String} {decl : PropsDecl}
    (h : o.decl? name = some decl) : decl.name = name := by
  unfold Outline.decl? at h
  split at h
  · cases h
    rfl
  · rcases Option.bind_eq_some_iff.1 h with ⟨value, -, halias⟩
    cases value <;> simp only [aliasDecl?, Option.some.injEq, reduceCtorEq] at halias
    all_goals
      cases halias
      rfl

theorem InheritancePath.name_mem_trail {o : Outline} {first last : PropsDecl} {positions : List Nat}
    {trail : List String} {wrappers : List Wrapper}
    (h : InheritancePath o first positions trail wrappers last) : first.name ∈ trail := by
  cases h <;> exact List.mem_cons_self

theorem wraps_utility_iff {text name target : String} {base : TypeExpr} {keys : List TypeExpr}
    {wrappers : List Wrapper} (h : name ∈ utilityTypes) :
    Wraps (.reference text name (base :: keys)) wrappers target ↔
      ∃ others, wrappers = ⟨name, keyNamesOf keys⟩ :: others ∧ Wraps base others target := by
  constructor
  · intro hwraps
    cases hwraps with
    | plain hplain => simp [h] at hplain
    | utility _ hbase => exact ⟨_, rfl, hbase⟩
  · intro hcase
    rcases hcase with ⟨others, rfl, hbase⟩
    exact Wraps.utility h hbase

theorem wraps_plain_iff {text name target : String} {arguments : List TypeExpr}
    {wrappers : List Wrapper} (h : name ∉ utilityTypes ∨ arguments = []) :
    Wraps (.reference text name arguments) wrappers target ↔ wrappers = [] ∧ target = name := by
  constructor
  · intro hwraps
    cases hwraps with
    | plain _ => exact ⟨rfl, rfl⟩
    | utility hu _ => simp [hu] at h
  · intro hcase
    rcases hcase with ⟨rfl, rfl⟩
    exact Wraps.plain h

/-- `m` is what the member at the origin `x` of `decl` becomes on its way, which avoids `ancestors`
and itself and takes `cost` declarations and utility types after `decl`. -/
def Gives (o : Outline) (ancestors : List String) (cost : Nat) (decl : PropsDecl) (x : Origin)
    (m : Member) : Prop :=
  ∃ trail wrappers last own,
    InheritancePath o decl x.bases trail wrappers last ∧ trail.Nodup ∧
      (∀ name ∈ trail, name ∉ ancestors) ∧ cost = x.bases.length + wrappers.length ∧
      last.members[x.index]? = some own ∧ passed wrappers own = some m

/-- A member that a base gives: the declaration it refers to gives it, and the utility types around
the reference let it pass. -/
def GivesThrough (o : Outline) (ancestors : List String) (cost : Nat) (base : TypeExpr) (x : Origin)
    (m : Member) : Prop :=
  ∃ wrappers name decl rest m',
    Wraps base wrappers name ∧ o.decl? name = some decl ∧ cost = wrappers.length + 1 + rest ∧
      Gives o ancestors rest decl x m' ∧ passed wrappers m' = some m

theorem gives_iff {o : Outline} {ancestors : List String} {cost : Nat} {decl : PropsDecl}
    {x : Origin} {m : Member} (h : decl.name ∉ ancestors) :
    Gives o ancestors cost decl x m ↔
      (x.bases = [] ∧ cost = 0 ∧ decl.members[x.index]? = some m) ∨
        ∃ i base y, decl.bases[i]? = some base ∧
          GivesThrough o (decl.name :: ancestors) cost base y m ∧ x = y.under i := by
  rcases x with ⟨bases, index⟩
  constructor
  · intro hcase
    rcases hcase with ⟨trail, wrappers, last, own, hpath, hnodup, havoid, hcost, hown, hpassed⟩
    cases hpath with
    | here =>
      refine Or.inl ⟨rfl, by simpa using hcost, ?_⟩
      simpa [passed] using hown.trans hpassed
    | @step _ next _ i base name positions trail wrappers others hbase hwraps hdecl hrest =>
      -- The first hop is split off; `decl` becomes an ancestor of what follows.
      rcases List.nodup_cons.1 hnodup with ⟨hnot, hnodup⟩
      -- The utility types further down are passed first, then those of this base.
      rw [passed_append] at hpassed
      rcases Option.bind_eq_some_iff.1 hpassed with ⟨m', hm', hm⟩
      refine Or.inr ⟨i, base, ⟨positions, index⟩, hbase, ?_, rfl⟩
      refine ⟨wrappers, name, next, positions.length + others.length, m', hwraps, hdecl, ?_, ?_, hm⟩
      · simp only [List.length_cons, List.length_append] at hcost
        omega
      · refine ⟨trail, others, last, own, hrest, hnodup, ?_, rfl, hown, hm'⟩
        intro n hn hmem
        rcases List.mem_cons.1 hmem with rfl | hmem
        · exact hnot hn
        · exact havoid n (List.mem_cons_of_mem _ hn) hmem
  · intro hcase
    rcases hcase with ⟨hnil, hcost, hm⟩ | ⟨i, base, y, hbase, hthrough, heq⟩
    · simp only at hnil
      subst hnil
      refine ⟨_, _, decl, m, InheritancePath.here decl, List.nodup_singleton _, ?_, ?_, hm, rfl⟩
      · simpa using h
      · simpa using hcost
    · rcases hthrough with ⟨wrappers, name, next, rest, m', hwraps, hdecl, hcost, hgives, hm⟩
      rcases hgives with ⟨trail, others, last, own, hpath, hnodup, havoid, hrest, hown, hm'⟩
      cases heq
      -- The path below avoids its ancestors, so putting `decl` in front keeps it free of repeats.
      refine ⟨_, _, last, own, InheritancePath.step hbase hwraps hdecl hpath, ?_, ?_, ?_, hown, ?_⟩
      · refine List.nodup_cons.2 ⟨?_, hnodup⟩
        intro hmem
        exact havoid _ hmem List.mem_cons_self
      · intro n hn
        rcases List.mem_cons.1 hn with rfl | hn
        · exact h
        · exact fun hmem => havoid n hn (List.mem_cons_of_mem _ hmem)
      · simp only [List.length_cons, List.length_append]
        omega
      · rw [passed_append, hm', Option.bind_some, hm]

/-- Nothing is reached through a declaration that stands among the ancestors. -/
theorem not_gives_of_mem_ancestors {o : Outline} {ancestors : List String} {cost : Nat}
    {decl : PropsDecl} {x : Origin} {m : Member} (h : decl.name ∈ ancestors) :
    ¬ Gives o ancestors cost decl x m := by
  intro hcase
  rcases hcase with ⟨trail, wrappers, last, own, hpath, -, havoid, -⟩
  exact havoid _ hpath.name_mem_trail h

theorem givesThrough_plain_iff {o : Outline} {ancestors : List String} {cost : Nat}
    {text name : String} {arguments : List TypeExpr} {x : Origin} {m : Member}
    (h : name ∉ utilityTypes ∨ arguments = []) :
    GivesThrough o ancestors cost (.reference text name arguments) x m ↔
      ∃ decl rest, o.decl? name = some decl ∧ cost = rest + 1 ∧
        Gives o ancestors rest decl x m := by
  constructor
  · intro hcase
    rcases hcase with ⟨wrappers, target, decl, rest, m', hwraps, hdecl, hcost, hgives, hm⟩
    rcases (wraps_plain_iff h).1 hwraps with ⟨rfl, rfl⟩
    cases hm
    simp only [List.length_nil] at hcost
    exact ⟨decl, rest, hdecl, by omega, hgives⟩
  · intro hcase
    rcases hcase with ⟨decl, rest, hdecl, hcost, hgives⟩
    refine ⟨[], name, decl, rest, m, Wraps.plain h, hdecl, ?_, hgives, rfl⟩
    simp only [List.length_nil]
    omega

theorem givesThrough_utility_iff {o : Outline} {ancestors : List String} {cost : Nat}
    {text name : String} {base : TypeExpr} {keys : List TypeExpr} {x : Origin} {m : Member}
    (h : name ∈ utilityTypes) :
    GivesThrough o ancestors cost (.reference text name (base :: keys)) x m ↔
      ∃ rest m', cost = rest + 1 ∧ GivesThrough o ancestors rest base x m' ∧
        applyUtility name (keyNamesOf keys) m' = some m := by
  constructor
  · intro hcase
    rcases hcase with ⟨wrappers, target, decl, rest, m', hwraps, hdecl, hcost, hgives, hm⟩
    rcases (wraps_utility_iff h).1 hwraps with ⟨others, rfl, hbase⟩
    rcases Option.bind_eq_some_iff.1 hm with ⟨m₁, hm₁, happly⟩
    refine ⟨others.length + 1 + rest, m₁, ?_, ?_, happly⟩
    · simp only [List.length_cons] at hcost
      omega
    · exact ⟨others, target, decl, rest, m', hbase, hdecl, rfl, hgives, hm₁⟩
  · intro hcase
    rcases hcase with ⟨_, m₁, hcost, hthrough, happly⟩
    rcases hthrough with ⟨others, target, decl, rest, m', hbase, hdecl, rfl, hgives, hm₁⟩
    refine ⟨_, target, decl, rest, m', Wraps.utility h hbase, hdecl, ?_, hgives, ?_⟩
    · simp only [List.length_cons]
      omega
    · rw [passed, hm₁, Option.bind_some, happly]

/-- `through` comes upon the members that a base gives within a limit. -/
def Finds (o : Outline) (ancestors : List String) (limit : Nat)
    (through : TypeExpr → List (Origin × Member)) (base : TypeExpr) : Prop :=
  ∀ x m, (x, m) ∈ through base ↔ ∃ cost ≤ limit, GivesThrough o ancestors cost base x m

/-- A declaration gives what its bases give and its own members. -/
theorem mem_located_iff_gives {o : Outline} {ancestors : List String} {limit : Nat}
    {decl : PropsDecl} {through : TypeExpr → List (Origin × Member)} (h : decl.name ∉ ancestors)
    (hthrough : ∀ base, Finds o (decl.name :: ancestors) limit through base)
    {x : Origin} {m : Member} :
    (x, m) ∈ located decl through ↔ ∃ cost ≤ limit, Gives o ancestors cost decl x m := by
  rw [mem_located_iff]
  constructor
  · intro hcase
    rcases hcase with ⟨hnil, hm⟩ | ⟨i, base, y, hbase, hy, rfl⟩
    · exact ⟨0, Nat.zero_le _, (gives_iff h).2 (Or.inl ⟨hnil, rfl, hm⟩)⟩
    · rcases (hthrough base y m).1 hy with ⟨cost, hle, hgives⟩
      exact ⟨cost, hle, (gives_iff h).2 (Or.inr ⟨i, base, y, hbase, hgives, rfl⟩)⟩
  · intro hcase
    rcases hcase with ⟨cost, hle, hgives⟩
    rcases (gives_iff h).1 hgives with ⟨hnil, -, hm⟩ | ⟨i, base, y, hbase, hgives', rfl⟩
    · exact Or.inl ⟨hnil, hm⟩
    · exact Or.inr ⟨i, base, y, hbase, (hthrough base y m).2 ⟨cost, hle, hgives'⟩, rfl⟩

theorem finds_plain {o : Outline} {limit : Nat} {ancestors : List String} {text name : String}
    {arguments : List TypeExpr} (h : name ∉ utilityTypes ∨ arguments = [])
    (ih : ∀ base, Finds o (name :: ancestors) limit (walk o limit (name :: ancestors)) base) :
    Finds o ancestors (limit + 1) (walk o (limit + 1) ancestors)
      (.reference text name arguments) := by
  intro x m
  simp only [walk_plain o limit ancestors text arguments h, givesThrough_plain_iff h]
  cases hd : o.decl? name with
  | none => by_cases ha : name ∈ ancestors <;> simp [ha]
  | some decl =>
    have hname : decl.name = name := Outline.decl?_name hd
    subst hname
    -- The hop to the declaration takes one of the limit.
    have hcost : (∃ cost ≤ limit + 1, ∃ decl' rest, some decl = some decl' ∧ cost = rest + 1 ∧
        Gives o ancestors rest decl' x m) ↔ ∃ cost ≤ limit, Gives o ancestors cost decl x m := by
      constructor
      · intro hcase
        rcases hcase with ⟨_, hle, _, rest, hsome, rfl, hgives⟩
        cases hsome
        exact ⟨rest, by omega, hgives⟩
      · intro hcase
        rcases hcase with ⟨rest, hle, hgives⟩
        exact ⟨rest + 1, by omega, decl, rest, rfl, rfl, hgives⟩
    rw [hcost]
    by_cases ha : decl.name ∈ ancestors
    · simp [ha, not_gives_of_mem_ancestors ha]
    · simp only [ha, if_false]
      exact mem_located_iff_gives ha ih

theorem finds_utility {o : Outline} {limit : Nat} {ancestors : List String} {text name : String}
    {base : TypeExpr} {keys : List TypeExpr} (h : name ∈ utilityTypes)
    (ih : Finds o ancestors limit (walk o limit ancestors) base) :
    Finds o ancestors (limit + 1) (walk o (limit + 1) ancestors)
      (.reference text name (base :: keys)) := by
  intro x m
  simp only [walk_utility o limit ancestors text base keys h, List.mem_filterMap,
    givesThrough_utility_iff h]
  constructor
  · intro hcase
    rcases hcase with ⟨⟨y, m₁⟩, hy, happly⟩
    rcases Option.map_eq_some_iff.1 happly with ⟨m₂, hm₂, heq⟩
    cases heq
    rcases (ih y m₁).1 hy with ⟨cost, hle, hgives⟩
    exact ⟨cost + 1, by omega, cost, m₁, rfl, hgives, hm₂⟩
  · intro hcase
    rcases hcase with ⟨_, hle, rest, m₁, rfl, hgives, happly⟩
    refine ⟨(x, m₁), (ih x m₁).2 ⟨rest, by omega, hgives⟩, ?_⟩
    rw [happly, Option.map_some]

/-- The walk comes upon exactly the members that are given within the limit. -/
theorem finds_walk (o : Outline) (limit : Nat) (ancestors : List String) (base : TypeExpr) :
    Finds o ancestors limit (walk o limit ancestors) base := by
  induction limit generalizing ancestors base with
  | zero =>
    intro x m
    constructor
    · intro h
      simp [walk] at h
    · intro hcase
      rcases hcase with ⟨cost, hle, wrappers, name, decl, rest, m', -, -, hcost, -⟩
      omega
  | succ limit ih =>
    cases base with
    | reference text name arguments =>
      rcases plain_or_utility name arguments with hplain | ⟨base, keys, hmem, rfl⟩
      · exact finds_plain hplain fun base => ih (name :: ancestors) base
      · exact finds_utility hmem (ih ancestors base)
    | literal | union | intersection | object | other =>
      intro x m
      constructor
      · intro h
        simp [walk] at h
      · intro hcase
        rcases hcase with ⟨cost, hle, wrappers, name, decl, rest, m', hwraps, -⟩
        cases hwraps

/-! ## The props of a component -/

/-- The member that the origin `x` gives to a declaration: a path of distinct declarations leads to
it, with at most `inheritanceLimit` declarations and utility types after the first one, and every
utility type on the path admits its name. -/
def Contributes (o : Outline) (decl : PropsDecl) (x : Origin) (m : Member) : Prop :=
  ∃ trail wrappers last own,
    InheritancePath o decl x.bases trail wrappers last ∧ trail.Nodup ∧
      x.bases.length + wrappers.length ≤ inheritanceLimit ∧ last.members[x.index]? = some own ∧
      (∀ w ∈ wrappers, w.Admits own.name) ∧ m = withUtilities wrappers own

/-- All members of a declaration with their origins, inherited ones included. -/
def contributions (o : Outline) (decl : PropsDecl) : List (Origin × Member) :=
  located decl (walk o inheritanceLimit [decl.name])

theorem mem_contributions_iff {o : Outline} {decl : PropsDecl} {x : Origin} {m : Member} :
    (x, m) ∈ contributions o decl ↔ Contributes o decl x m := by
  have hgives : (x, m) ∈ contributions o decl ↔
      ∃ cost ≤ inheritanceLimit, Gives o [] cost decl x m :=
    mem_located_iff_gives List.not_mem_nil fun base =>
      finds_walk o inheritanceLimit [decl.name] base
  rw [hgives]
  constructor
  · intro hcase
    rcases hcase with ⟨_, hle, trail, wrappers, last, own, hpath, hnodup, -, rfl, hown, hpassed⟩
    rcases passed_eq_some_iff.1 hpassed with ⟨hall, heq⟩
    exact ⟨trail, wrappers, last, own, hpath, hnodup, hle, hown, hall, heq.symm⟩
  · intro hcase
    rcases hcase with ⟨trail, wrappers, last, own, hpath, hnodup, hle, hown, hall, heq⟩
    have hpassed := passed_eq_some_iff.2 ⟨hall, heq.symm⟩
    exact ⟨_, hle, trail, wrappers, last, own, hpath, hnodup, fun _ _ => List.not_mem_nil, rfl,
      hown, hpassed⟩

theorem pairwise_contributions (o : Outline) (decl : PropsDecl) :
    (contributions o decl).Pairwise fun f g => f.1.Before g.1 :=
  pairwise_located fun base => pairwise_walk o inheritanceLimit [decl.name] base

/-- Flattening keeps the first contribution of every name. -/
theorem flatten_eq_firsts (o : Outline) (decl : PropsDecl) :
    flatten o decl =
      (Assoc.firsts (fun found => found.2.name) (contributions o decl)).map (·.2) := by
  have hmembers : decl.members ++ (inheritedBy o decl).filterMap Step.member? =
      (contributions o decl).map (·.2) := by
    rw [contributions, map_snd_located, inheritedBy, List.filterMap_flatMap]
    simp only [filterMap_member?_inherited]
  rw [← Assoc.firsts_map, ← hmembers, ← Assoc.foldl_insertNew_eq]
  rfl

/-- What the props of a component are, for the declaration of its props and the way a prop is made
of a member. -/
structure Flattened (o : Outline) (decl : PropsDecl) (build : Member → PropSpec)
    (props : List (String × PropSpec)) : Prop where
  /-- Every name is that of one prop. -/
  nodup : (props.map (·.1)).Nodup
  /-- The names are those of own members, and of members at the end of a path through bases that
  goes through no declaration twice, has at most ten hops and utility types, and admits the name. -/
  mem_iff : ∀ n, n ∈ props.map (·.1) ↔
    (∃ m ∈ decl.members, m.name = n) ∨
      ∃ positions trail wrappers last,
        positions ≠ [] ∧ InheritancePath o decl positions trail wrappers last ∧ trail.Nodup ∧
          positions.length + wrappers.length ≤ 10 ∧ (∃ m ∈ last.members, m.name = n) ∧
          ∀ w ∈ wrappers, w.Admits n
  /-- The props are made of the first contributions of their names, in depth-first order. -/
  firsts : ∃ found : List (Origin × Member),
    props = found.map (fun f => (f.2.name, build f.2)) ∧
      (found.Pairwise fun f g => f.1.Before g.1) ∧
      ∀ x m, (x, m) ∈ found ↔
        Contributes o decl x m ∧ ∀ y m', Contributes o decl y m' → m'.name = m.name → ¬ y.Before x

/-- A name is contributed by the declaration itself or at the end of a path. -/
theorem exists_contributes_iff {o : Outline} {decl : PropsDecl} {n : String} :
    (∃ x m, Contributes o decl x m ∧ m.name = n) ↔
      (∃ m ∈ decl.members, m.name = n) ∨
        ∃ positions trail wrappers last,
          positions ≠ [] ∧ InheritancePath o decl positions trail wrappers last ∧ trail.Nodup ∧
            positions.length + wrappers.length ≤ 10 ∧ (∃ m ∈ last.members, m.name = n) ∧
            ∀ w ∈ wrappers, w.Admits n := by
  constructor
  · intro hcase
    rcases hcase with ⟨x, m, ⟨trail, wrappers, last, own, hpath, hnodup, hle, hown, hall, rfl⟩, rfl⟩
    rw [withUtilities_name]
    have hmem : own ∈ last.members := List.mem_of_getElem? hown
    -- A path without bases stays at the declaration, whose own members these are.
    by_cases hnil : x.bases = []
    · rw [hnil] at hpath
      cases hpath
      exact Or.inl ⟨own, hmem, rfl⟩
    · exact Or.inr
        ⟨x.bases, trail, wrappers, last, hnil, hpath, hnodup, hle, ⟨own, hmem, rfl⟩, hall⟩
  · intro hcase
    rcases hcase with
      ⟨m, hm, rfl⟩ | ⟨positions, trail, wrappers, last, -, hpath, hnodup, hle, ⟨m, hm, rfl⟩, hall⟩
    · rcases List.getElem?_of_mem hm with ⟨j, hj⟩
      refine ⟨⟨[], j⟩, m, ⟨_, [], decl, m, InheritancePath.here decl, ?_, ?_, hj, ?_, ?_⟩, rfl⟩
      · exact List.nodup_singleton _
      · exact Nat.zero_le _
      · exact fun w hw => absurd hw List.not_mem_nil
      · simp [withUtilities]
    · rcases List.getElem?_of_mem hm with ⟨j, hj⟩
      refine ⟨⟨positions, j⟩, withUtilities wrappers m, ?_, withUtilities_name wrappers m⟩
      exact ⟨trail, wrappers, last, m, hpath, hnodup, hle, hj, hall, rfl⟩

/-- The props that flattening gives, for any way of making props of members. -/
theorem flattened_flatten (o : Outline) (decl : PropsDecl) (build : Member → PropSpec) :
    Flattened o decl build ((flatten o decl).map fun m => (m.name, build m)) := by
  have hnames : ((flatten o decl).map fun m => (m.name, build m)).map (·.1) =
      (Assoc.firsts (fun found => found.2.name) (contributions o decl)).map
        fun found => found.2.name := by
    simp [flatten_eq_firsts, Function.comp_def]
  refine ⟨?_, ?_, ?_⟩
  · rw [hnames]
    exact Assoc.nodup_map_firsts _ _
  · intro n
    rw [hnames, Assoc.mem_map_firsts, ← exists_contributes_iff]
    simp [mem_contributions_iff]
  · refine ⟨Assoc.firsts (fun found => found.2.name) (contributions o decl), ?_, ?_, ?_⟩
    · simp [flatten_eq_firsts, Function.comp_def]
    · exact (pairwise_contributions o decl).sublist (Assoc.firsts_sublist _ _)
    · intro x m
      rw [Assoc.mem_firsts_iff _ _ (fun f g => Origin.Before.asymm) _
        (pairwise_contributions o decl)]
      simp [mem_contributions_iff]

/-- A module that declares the props of a component gives the component, and its props are exactly
the contributions to that declaration: sound, complete and in depth-first order, each prop made of
the first member of its name. -/
theorem extract_props_flattened (o : Outline) (name : String) (extensions : List String)
    (decl : PropsDecl) (h : o.propsDecl? name = some decl) :
    ∃ component notes, extract o name extensions = (some component, notes) ∧
      Flattened o decl (buildProp o (propDefaults o name decl.name)) component.props := by
  refine ⟨_, _, by rw [extract, h], ?_⟩
  exact flattened_flatten o decl _

/-- The props of a switch: one base, reached through two utility types and leading back to the
switch. -/
def switchDecl : PropsDecl where
  name := "SwitchProps"
  members := [{ name := "label" }]
  bases := [
    .reference "Omit<Base, 'a'>" "Omit" [.reference "Base" "Base" [], .literal "'a'"],
    .reference "Partial<Pick<Base, 'a'>>" "Partial" [
      .reference "Pick<Base, 'a'>" "Pick" [.reference "Base" "Base" [], .literal "'a'"]]]

def switchModule : Outline where
  path := "Switch.tsx"
  interfaces := [
    { name := "Base"
      members := [{ name := "a" }, { name := "b" }]
      extends_ := [.reference "SwitchProps" "SwitchProps" []] },
    { name := "SwitchProps", members := switchDecl.members, extends_ := switchDecl.bases }]

theorem extract_props_flattened_switch :
    switchModule.propsDecl? "Switch" = some switchDecl ∧
      ∃ component notes, extract switchModule "Switch" [] = (some component, notes) ∧
        Flattened switchModule switchDecl
          (buildProp switchModule (propDefaults switchModule "Switch" "SwitchProps"))
          component.props :=
  ⟨rfl, extract_props_flattened switchModule "Switch" [] switchDecl rfl⟩

example : (flatten switchModule switchDecl).map (fun m => (m.name, m.optional)) =
    [("label", false), ("b", false), ("a", true)] := by
  decide

end PropCatalog
