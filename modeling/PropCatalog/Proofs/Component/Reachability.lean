import PropCatalog.Proofs.Component.Inheritance

/-!
# Reachable declarations — the guard against cycles loses no prop

Where no base is a utility type, the bases of declarations form a graph, which may well have cycles
and in which several ways may lead to one declaration. `inherited` follows ways on which no
declaration comes twice. Nothing is missed by this, since every way can be shortened to such a one.

- `Extends`, `Hops`             : the graph, and its ways by their number of steps
- `Outline.Unwrapped`           : no base is a utility type with arguments
- `InheritancePath.from_mem`    : the rest of a path from a declaration on it
- `exists_path_of_hops`         : every way can be shortened
- `extract_props_reachable`     : the props of a component, by the declarations within ten steps
-/

namespace PropCatalog

/-! ## The graph of bases -/

/-- Whether a base is a utility type with at least one argument. -/
def TypeExpr.isUtility : TypeExpr → Bool
  | .reference _ name (_ :: _) => utilityTypes.contains name
  | _ => false

/-- No base of a declaration is a utility type with arguments. -/
def Outline.Unwrapped (o : Outline) : Prop :=
  ∀ name decl, o.decl? name = some decl → ∀ base ∈ decl.bases, base.isUtility = false

/-- A base of the first declaration refers to the second one. -/
def Extends (o : Outline) (decl next : PropsDecl) : Prop :=
  ∃ text name arguments, .reference text name arguments ∈ decl.bases ∧ o.decl? name = some next

/-- A way through the graph with so many steps. -/
inductive Hops (o : Outline) : Nat → PropsDecl → PropsDecl → Prop where
  | here (decl : PropsDecl) : Hops o 0 decl decl
  | step {decl next last : PropsDecl} {n : Nat} :
      Extends o decl next → Hops o n next last → Hops o (n + 1) decl last

theorem TypeExpr.isUtility_eq_false_iff {text name : String} {arguments : List TypeExpr} :
    (TypeExpr.reference text name arguments).isUtility = false ↔
      name ∉ utilityTypes ∨ arguments = [] := by
  cases arguments with
  | nil => simp [TypeExpr.isUtility]
  | cons base keys => simp [TypeExpr.isUtility]

/-! ## Paths are ways -/

theorem hops_of_path {o : Outline} (hplain : o.Unwrapped) {first last : PropsDecl}
    {positions : List Nat} {trail : List String} {wrappers : List Wrapper}
    (h : InheritancePath o first positions trail wrappers last)
    (hfirst : ∃ name, o.decl? name = some first) :
    wrappers = [] ∧ Hops o positions.length first last := by
  induction h with
  | here decl => exact ⟨rfl, Hops.here decl⟩
  | @step decl next last i base name positions trail wrappers others hbase hwraps hdecl _ ih =>
    rcases hfirst with ⟨firstName, hfirstDecl⟩
    rcases ih ⟨name, hdecl⟩ with ⟨rfl, hrest⟩
    have hmem : base ∈ decl.bases := List.mem_of_getElem? hbase
    have hnot : base.isUtility = false := hplain firstName decl hfirstDecl base hmem
    cases hwraps with
    | plain _ => exact ⟨rfl, Hops.step ⟨_, _, _, hmem, hdecl⟩ hrest⟩
    | utility hutility _ =>
      -- A base with utility types around it is not there at all.
      have hplainBase := TypeExpr.isUtility_eq_false_iff.1 hnot
      simp [hutility] at hplainBase

/-! ## Ways can be shortened to paths -/

/-- The rest of a path from a declaration on it, which is a path of its own and no longer. -/
theorem InheritancePath.from_mem {o : Outline} {first last : PropsDecl} {positions : List Nat}
    {trail : List String} {wrappers : List Wrapper}
    (h : InheritancePath o first positions trail wrappers last)
    (hfirst : o.decl? first.name = some first) {name : String} (hmem : name ∈ trail) :
    ∃ decl positions' trail' wrappers', o.decl? name = some decl ∧
      InheritancePath o decl positions' trail' wrappers' last ∧
      trail' <:+ trail ∧ positions' <:+ positions ∧ wrappers' <:+ wrappers := by
  induction h with
  | here decl =>
    rcases List.mem_singleton.1 hmem with rfl
    exact ⟨decl, _, _, _, hfirst, InheritancePath.here decl, List.suffix_rfl, List.suffix_rfl,
      List.suffix_rfl⟩
  | @step decl next last i base target positions trail wrappers others hbase hwraps hdecl hrest
      ih =>
    rcases List.mem_cons.1 hmem with rfl | hmem
    · exact ⟨decl, _, _, _, hfirst, InheritancePath.step hbase hwraps hdecl hrest, List.suffix_rfl,
        List.suffix_rfl, List.suffix_rfl⟩
    · have hnext : o.decl? next.name = some next := (Outline.decl?_name hdecl).symm ▸ hdecl
      rcases ih hnext hmem with
        ⟨found, positions', trail', wrappers', hfound, hpath, htrail, hpositions, hwrappers⟩
      exact ⟨found, positions', trail', wrappers', hfound, hpath,
        htrail.trans (List.suffix_cons _ _), hpositions.trans (List.suffix_cons _ _),
        hwrappers.trans (List.suffix_append _ _)⟩

/-- Every way can be shortened to a path on which no declaration comes twice. -/
theorem exists_path_of_hops {o : Outline} (hplain : o.Unwrapped) {n : Nat}
    {first last : PropsDecl} (h : Hops o n first last) (hfirst : o.decl? first.name = some first) :
    ∃ positions trail, InheritancePath o first positions trail [] last ∧ trail.Nodup ∧
      positions.length ≤ n := by
  induction h with
  | here decl =>
    exact ⟨[], [decl.name], InheritancePath.here decl, List.nodup_singleton _, Nat.le_refl 0⟩
  | @step decl next last n hextends _ ih =>
    rcases hextends with ⟨text, name, arguments, hbase, hdecl⟩
    have hnext : o.decl? next.name = some next := (Outline.decl?_name hdecl).symm ▸ hdecl
    rcases ih hnext with ⟨positions, trail, hpath, hnodup, hle⟩
    by_cases hmem : decl.name ∈ trail
    · -- The way comes back to where it began: the loop is left out.
      rcases hpath.from_mem hnext hmem with
        ⟨found, positions', trail', wrappers', hfound, hpath', htrail, hpositions, hwrappers⟩
      have hsame : found = decl := Option.some.inj (hfound.symm.trans hfirst)
      have hnone : wrappers' = [] := List.suffix_nil.1 hwrappers
      subst hsame hnone
      have hshorter : positions'.length ≤ positions.length := hpositions.length_le
      exact ⟨positions', trail', hpath', htrail.sublist.nodup hnodup, by omega⟩
    · rcases List.getElem?_of_mem hbase with ⟨i, hi⟩
      have hwraps : Wraps (.reference text name arguments) [] name :=
        Wraps.plain (TypeExpr.isUtility_eq_false_iff.1 (hplain _ decl hfirst _ hbase))
      have hlonger : InheritancePath o decl (i :: positions) (decl.name :: trail) [] last :=
        InheritancePath.step hi hwraps hdecl hpath
      exact ⟨i :: positions, decl.name :: trail, hlonger, List.nodup_cons.2 ⟨hmem, hnodup⟩,
        Nat.succ_le_succ hle⟩

/-! ## Props by reachable declarations -/

/-- A name is contributed to a declaration exactly if a member of a declaration within the limit
has it. -/
theorem exists_contributes_iff_hops {o : Outline} (hplain : o.Unwrapped) {decl : PropsDecl}
    (hdecl : o.decl? decl.name = some decl) {n : String} :
    (∃ x m, Contributes o decl x m ∧ m.name = n) ↔
      ∃ hops ≤ inheritanceLimit, ∃ last, Hops o hops decl last ∧
        ∃ m ∈ last.members, m.name = n := by
  constructor
  · intro hcase
    rcases hcase with ⟨x, m, ⟨trail, wrappers, last, own, hpath, -, hle, hown, -, rfl⟩, rfl⟩
    rcases hops_of_path hplain hpath ⟨_, hdecl⟩ with ⟨rfl, hhops⟩
    refine ⟨x.bases.length, by simpa using hle, last, hhops, own, List.mem_of_getElem? hown, ?_⟩
    rw [withUtilities_name]
  · intro hcase
    rcases hcase with ⟨hops, hle, last, hhops, m, hm, rfl⟩
    rcases exists_path_of_hops hplain hhops hdecl with ⟨positions, trail, hpath, hnodup, hshort⟩
    rcases List.getElem?_of_mem hm with ⟨j, hj⟩
    have hlimit : positions.length + ([] : List Wrapper).length ≤ inheritanceLimit := by
      rw [List.length_nil]
      omega
    refine ⟨⟨positions, j⟩, m, ⟨trail, [], last, m, hpath, hnodup, hlimit, hj, ?_, ?_⟩, rfl⟩
    · exact fun w hw => absurd hw List.not_mem_nil
    · simp [withUtilities]

/-- Without utility types the props of a component are named by the members of all declarations that
can be reached from that of its props in at most ten steps, whatever cycles there are on the way. -/
theorem extract_props_reachable (o : Outline) (hplain : o.Unwrapped) (name : String)
    (extensions : List String) (decl : PropsDecl) (h : o.propsDecl? name = some decl) :
    ∃ component notes, extract o name extensions = (some component, notes) ∧
      ∀ n, n ∈ component.props.map (·.1) ↔
        ∃ hops ≤ 10, ∃ last, Hops o hops decl last ∧ ∃ m ∈ last.members, m.name = n := by
  have hdecl : o.decl? decl.name = some decl := (Outline.decl?_name h).symm ▸ h
  refine ⟨_, _, by rw [extract, h], ?_⟩
  intro n
  have hnames := (flattened_flatten o decl (buildProp o (propDefaults o name decl.name))).mem_iff n
  rw [hnames, ← exists_contributes_iff, exists_contributes_iff_hops hplain hdecl]
  rfl

/-- The props of a tab: two bases, one of which leads back to the tab and to the other one. -/
def tabDecl : PropsDecl where
  name := "TabProps"
  members := [{ name := "label" }]
  bases := [.reference "Pressable" "Pressable" [], .reference "Focusable" "Focusable" []]

def tabModule : Outline where
  path := "Tab.tsx"
  interfaces := [
    { name := "Focusable", members := [{ name := "autoFocus" }] },
    { name := "Pressable"
      members := [{ name := "onPress" }]
      extends_ := [.reference "TabProps" "TabProps" [], .reference "Focusable" "Focusable" []] },
    { name := "TabProps", members := tabDecl.members, extends_ := tabDecl.bases }]

theorem extract_props_reachable_tab :
    tabModule.Unwrapped ∧ tabModule.propsDecl? "Tab" = some tabDecl ∧
      ∃ component notes, extract tabModule "Tab" [] = (some component, notes) ∧
        ∀ n, n ∈ component.props.map (·.1) ↔
          ∃ hops ≤ 10, ∃ last, Hops tabModule hops tabDecl last ∧
            ∃ m ∈ last.members, m.name = n := by
  have hplain : tabModule.Unwrapped := by
    intro name decl hdecl
    -- Every declaration is one of the three interfaces.
    cases hfound : tabModule.interface? name with
    | none =>
      have halias : tabModule.alias? name = none := rfl
      simp [Outline.decl?, hfound, halias] at hdecl
    | some i =>
      have hmem : i ∈ tabModule.interfaces := List.mem_of_find?_eq_some hfound
      have hall : ∀ i ∈ tabModule.interfaces, ∀ base ∈ i.extends_, base.isUtility = false := by
        decide
      simp only [Outline.decl?, hfound, Option.some.injEq] at hdecl
      subst hdecl
      exact hall i hmem
  exact ⟨hplain, rfl, extract_props_reachable tabModule hplain "Tab" [] tabDecl rfl⟩

example : (flatten tabModule tabDecl).map (·.name) = ["label", "onPress", "autoFocus"] := by
  decide

end PropCatalog
