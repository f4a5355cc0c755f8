import PropCatalog.Proofs.Component.Indirection

/-!
# Attempts — the default export behind the variable of a component

The function behind a component is looked for from the variable of its name and then from the
default export. The second attempt passes over the names that the first one has visited. Where the
first one has come to a dead end or back to itself, these names lead to no function. Where it was
stopped by the limit they may, and then the default export is given up although it leads to one.

- `ownAttempt`, `exportAttempt` : the two attempts, each on its own
- `follow_of_route`             : a way within the limit and past new names is followed to its end
- `follow_eq_some_iff`          : a function is found exactly if there is such a way to it
- `exists_follow_of_seen`       : a function behind a name that was visited is found within some
  limit
- `default_export_followed`     : when the default export is given up
-/

namespace PropCatalog

/-! ## Ways are followed -/

/-- A name that is the name of a variable is followed to its value. -/
theorem follow_assigned {o : Outline} {name : String} {v : Variable} {value : Expr}
    {visited : List String} (hname : name ∉ visited) (hfunction : o.function? name = none)
    (hvariable : o.variableNamed? name = some v) (hvalue : v.initializer = some value)
    (limit : Nat) (text : String) :
    follow o (limit + 1) (.identifier text name) visited =
      follow o limit value (name :: visited) := by
  rcases v with ⟨vname, declaredType, initializer, outer, inner⟩
  cases hvalue
  simp [follow, hname, hfunction, hvariable]

/-- A way within the limit, past names that were not visited, is followed to its end. -/
theorem follow_of_route {o : Outline} {e : Expr} {hops : List Hop} {f : Callable}
    (hroute : Route o e hops f) {limit : Nat} {visited : List String}
    (hfresh : FreshNames hops visited) (hcost : followCost hops < limit) :
    follow o limit e visited = (some f, (routeNames hops).reverse ++ visited) := by
  induction hroute generalizing limit visited with
  | inline text f =>
    obtain ⟨limit, rfl⟩ : ∃ n, limit = n + 1 := ⟨limit - 1, by omega⟩
    rfl
  | @wrapped text callee first others comments hops f hfirst ih =>
    rw [followCost] at hcost
    · obtain ⟨limit, rfl⟩ : ∃ n, limit = n + 1 := ⟨limit - 1, by omega⟩
      rw [follow]
      exact ih hfresh (by omega)
    · simp
  | @declared text name f hfunction =>
    obtain ⟨limit, rfl⟩ : ∃ n, limit = n + 1 := ⟨limit - 1, by omega⟩
    have hname : name ∉ visited := hfresh.2 name (by simp [routeNames])
    simp [follow, hname, hfunction, routeNames]
  | @assigned text name v value hops f hfunction hvariable hvalue _ ih =>
    rcases freshNames_variable_iff.1 hfresh with ⟨hname, hrest⟩
    rw [followCost] at hcost
    · obtain ⟨limit, rfl⟩ : ∃ n, limit = n + 1 := ⟨limit - 1, by omega⟩
      rw [follow_assigned hname hfunction hvariable hvalue, ih hrest (by omega)]
      simp [routeNames]
    · simp

/-- A function is found exactly if there is a way to it within the limit, past names that were not
visited. -/
theorem follow_eq_some_iff {o : Outline} {limit : Nat} {e : Expr} {visited : List String}
    {f : Callable} :
    (follow o limit e visited).1 = some f ↔
      ∃ hops, Route o e hops f ∧ FreshNames hops visited ∧ followCost hops < limit := by
  constructor
  · exact route_of_follow
  · rintro ⟨hops, hroute, hfresh, hcost⟩
    rw [follow_of_route hroute hfresh hcost]

/-- Names that were visited before make no difference exactly if nothing is found anyway, or if no
name on the way is one of them. Where they make one, nothing is found. -/
theorem follow_visited (o : Outline) (limit : Nat) (e : Expr) (visited : List String) :
    ((follow o limit e visited).1 = (follow o limit e []).1 ↔
      (follow o limit e []).1 = none ∨ ∀ n ∈ (follow o limit e []).2, n ∉ visited) ∧
    ((follow o limit e visited).1 ≠ (follow o limit e []).1 →
      (follow o limit e visited).1 = none) := by
  -- With more names visited nothing else is found.
  have hsame : ∀ f, (follow o limit e visited).1 = some f → (follow o limit e []).1 = some f := by
    intro f hf
    rcases follow_eq_some_iff.1 hf with ⟨hops, hroute, hfresh, hcost⟩
    exact follow_eq_some_iff.2 ⟨hops, hroute, hfresh.mono (by simp), hcost⟩
  cases hseen : (follow o limit e visited).1 with
  | some f =>
    rw [hsame f hseen]
    refine ⟨iff_of_true rfl (.inr fun n hn => ?_), fun h => absurd rfl h⟩
    rcases follow_eq_some_iff.1 hseen with ⟨hops, hroute, hfresh, hcost⟩
    rw [follow_of_route hroute (hfresh.mono (by simp)) hcost, List.append_nil,
      List.mem_reverse] at hn
    exact hfresh.2 n hn
  | none =>
    refine ⟨⟨fun h => .inl h.symm, ?_⟩, fun _ => rfl⟩
    rintro (hnone | hnew)
    · exact hnone.symm
    · cases hfree : (follow o limit e []).1 with
      | none => rfl
      | some f =>
        rcases follow_eq_some_iff.1 hfree with ⟨hops, hroute, hfresh, hcost⟩
        rw [follow_of_route hroute hfresh hcost, List.append_nil] at hnew
        have hpast : FreshNames hops visited :=
          ⟨hfresh.1, fun n hn => hnew n (List.mem_reverse.2 hn)⟩
        rw [follow_eq_some_iff.2 ⟨hops, hroute, hpast, hcost⟩] at hseen
        cases hseen

/-! ## Names that were visited in vain -/

/-- The names that were visited stay visited. -/
theorem mem_follow_of_mem {o : Outline} {limit : Nat} {e : Expr} {visited : List String}
    {n : String} (h : n ∈ visited) : n ∈ (follow o limit e visited).2 := by
  fun_induction follow o limit e visited with
  | case1 | case2 | case3 | case4 | case6 => exact h
  | case5 _ _ _ _ _ _ _ ih => exact ih h
  | case7 | case9 => exact List.mem_cons_of_mem _ h
  | case8 _ _ _ _ _ _ _ _ _ _ _ _ _ ih => exact ih (List.mem_cons_of_mem _ h)

/-- A way that comes to a name that was seen has a last such name. -/
theorem Route.exists_last {o : Outline} {e : Expr} {hops : List Hop} {f : Callable}
    (h : Route o e hops f) {seen : List String} (hnodup : (routeNames hops).Nodup)
    (hseen : ∃ n ∈ routeNames hops, n ∈ seen) :
    ∃ text name rest, Route o (.identifier text name) rest f ∧ name ∈ seen ∧
      (routeNames rest).Nodup ∧ ∀ n ∈ (routeNames rest).tail, n ∉ seen := by
  induction h with
  | inline => simp [routeNames] at hseen
  | wrapped _ ih => exact ih hnodup hseen
  | @declared text name f hfunction =>
    refine ⟨text, name, _, .declared hfunction, ?_, hnodup, by simp [routeNames]⟩
    simpa [routeNames] using hseen
  | @assigned text name v value hops f hfunction hvariable hvalue hrest ih =>
    by_cases hlater : ∃ n ∈ routeNames hops, n ∈ seen
    · exact ih (List.nodup_cons.1 hnodup).2 hlater
    · refine ⟨text, name, _, .assigned hfunction hvariable hvalue hrest, ?_, hnodup, ?_⟩
      · rcases hseen with ⟨n, hn, hmem⟩
        rcases List.mem_cons.1 hn with rfl | hn
        · exact hmem
        · exact absurd ⟨n, hn, hmem⟩ hlater
      · intro n hn hmem
        exact hlater ⟨n, hn, hmem⟩

/-- If nothing is found, but a function lies behind a name that was visited, then only the limit has
kept it from being found. -/
theorem exists_follow_of_seen {o : Outline} {limit : Nat} {e : Expr} {visited : List String}
    (hnone : (follow o limit e visited).1 = none) {text name : String} {rest : List Hop}
    {f : Callable} (hroute : Route o (.identifier text name) rest f)
    (hseen : name ∈ (follow o limit e visited).2) (hnew : name ∉ visited)
    (hnodup : (routeNames rest).Nodup)
    (hlast : ∀ n ∈ (routeNames rest).tail, n ∉ (follow o limit e visited).2) :
    ∃ more, (follow o more e visited).1 = some f := by
  -- The walk is followed to where it has come to the name.
  fun_induction follow o limit e visited with
  | case1 | case2 | case3 | case4 | case6 => exact absurd hseen hnew
  | case5 limit visited t callee first others comments ih =>
    rcases ih hnone hseen hnew hlast with ⟨more, hmore⟩
    exact ⟨more + 1, by rw [follow]; exact hmore⟩
  | case7 => cases hnone
  | case8 limit t other visited hpast visited' hfunction vname declaredType value outer inner
      hvariable ih =>
    have hother : other ∉ visited := by simpa using hpast
    by_cases hname : name = other
    · subst hname
      cases hroute with
      | declared hfunction' => cases hfunction.symm.trans hfunction'
      | @assigned _ _ v value' hops _ _ hvariable' hvalue' hrest =>
        cases hvariable.symm.trans hvariable'
        cases hvalue'
        -- Nothing on the rest of the way is visited before it.
        have hfresh : FreshNames hops (name :: visited) :=
          ⟨(List.nodup_cons.1 hnodup).2, fun n hn hmem => hlast n hn (mem_follow_of_mem hmem)⟩
        refine ⟨followCost hops + 2, ?_⟩
        rw [follow_assigned hother hfunction hvariable rfl,
          follow_of_route hrest hfresh (Nat.lt_succ_self _)]
    · have hnew' : name ∉ other :: visited := by simpa [hname] using hnew
      rcases ih hnone hseen hnew' hlast with ⟨more, hmore⟩
      exact ⟨more + 1, by rw [follow_assigned hother hfunction hvariable rfl]; exact hmore⟩
  | case9 limit t other visited hpast visited' hfunction hvariable =>
    -- The name is a dead end, so that no way leads on from it.
    have hname : name = other := (List.mem_cons.1 hseen).resolve_right hnew
    subst hname
    cases hroute with
    | declared hfunction' => cases hfunction.symm.trans hfunction'
    | @assigned _ _ v value _ _ _ hvariable' hvalue' _ =>
      rcases v with ⟨vname, declaredType, initializer, outer, inner⟩
      cases hvalue'
      exact absurd hvariable' (hvariable _ _ _ _ _)

/-! ## The two attempts -/

/-- What the variable of a name leads to, with the names visited on the way. -/
def ownAttempt (o : Outline) (name : String) : Option Callable × List String :=
  match o.variableNamed? name with
  | some v => followVariable o v
  | none => (none, [])

/-- What the default export leads to if it is all there is, with the names visited on the way. -/
def exportAttempt (o : Outline) : Option Callable × List String :=
  match o.defaultExport with
  | some (.declaration function) => (some function, [])
  | some (.expression value) => follow o followLimit value []
  | none => (none, [])

theorem implementation?_of_ownAttempt {o : Outline} {name : String}
    (hfunction : o.function? name = none) (hown : (ownAttempt o name).1 = none) :
    implementation? o name =
      match o.defaultExport with
      | some (.declaration function) => some function
      | some (.expression value) => (follow o followLimit value (ownAttempt o name).2).1
      | none => none := by
  rcases hexport : o.defaultExport with _ | function | value
  all_goals
    cases hvariable : o.variableNamed? name with
    | none => simp [implementation?, hfunction, ownAttempt, hvariable, hexport]
    | some v =>
      simp only [ownAttempt, hvariable] at hown
      simp [implementation?, hfunction, ownAttempt, hvariable, hexport, hown]

/-- The attempt from a variable follows its name, with one step more to go. -/
theorem follow_name {o : Outline} {name : String} {v : Variable}
    (hfunction : o.function? name = none) (hvariable : o.variableNamed? name = some v)
    (text : String) :
    follow o (followLimit + 1) (.identifier text name) [] = ownAttempt o name := by
  have hname : v.name = name := (Outline.name_of_variableNamed? hvariable).1
  have hown : ownAttempt o name = followVariable o v := by rw [ownAttempt, hvariable]
  rw [hown]
  cases hvalue : v.initializer with
  | some value =>
    rw [follow_assigned List.not_mem_nil hfunction hvariable hvalue, followVariable.eq_def, hvalue,
      hname]
  | none =>
    rcases v with ⟨vname, declaredType, initializer, outer, inner⟩
    cases hvalue
    cases hname
    simp [follow, hfunction, hvariable, followVariable]

/-- If the attempt from a variable fails, but a function lies on a way through one of the names it
has visited, then it was stopped by the limit: within a greater one it finds that function. -/
theorem exists_limit_of_ownAttempt {o : Outline} {name : String}
    (hfunction : o.function? name = none) (hown : (ownAttempt o name).1 = none) {e : Expr}
    {hops : List Hop} {f : Callable} (hroute : Route o e hops f)
    (hnodup : (routeNames hops).Nodup) (hmeets : ∃ n ∈ routeNames hops, n ∈ (ownAttempt o name).2) :
    ∃ v value limit, o.variableNamed? name = some v ∧ v.initializer = some value ∧
      followLimit < limit ∧ (follow o limit value [v.name]).1 = some f := by
  cases hvariable : o.variableNamed? name with
  | none =>
    rcases hmeets with ⟨n, -, hn⟩
    rw [ownAttempt, hvariable] at hn
    cases hn
  | some v =>
    have hname : v.name = name := (Outline.name_of_variableNamed? hvariable).1
    have hfollow := follow_name hfunction hvariable name
    rw [← hfollow] at hown hmeets
    rcases hroute.exists_last hnodup hmeets with ⟨text, last, rest, hrest, hseen, hfresh, hlast⟩
    rcases exists_follow_of_seen hown hrest hseen List.not_mem_nil hfresh hlast with ⟨more, hmore⟩
    rcases follow_eq_some_iff.1 hmore with ⟨way, hway, hnew, -⟩
    cases hway with
    | declared hfunction' => cases hfunction.symm.trans hfunction'
    | @assigned _ _ w value hops' _ _ hvariable' hvalue hrest' =>
      cases hvariable.symm.trans hvariable'
      have hpast : FreshNames hops' [v.name] := by
        rw [hname]
        exact (freshNames_variable_iff.1 hnew).2
      refine ⟨v, value, max (followCost hops') followLimit + 1, rfl, hvalue, by omega, ?_⟩
      exact follow_eq_some_iff.2 ⟨hops', hrest', hpast, by omega⟩

/-- When the default export counts as if it were all there is, for a component that has no function
of its name and whose variable leads to none: exactly if the default export leads to no function
either, or to one on a way that passes none of the names visited from the variable. Otherwise it is
given up, and it was the limit that stopped the first attempt: further on the variable leads to the
very same function. -/
theorem default_export_followed {o : Outline} {name : String}
    (hfunction : o.function? name = none) (hown : (ownAttempt o name).1 = none) :
    (implementation? o name = (exportAttempt o).1 ↔
      (exportAttempt o).1 = none ∨ ∀ n ∈ (exportAttempt o).2, n ∉ (ownAttempt o name).2) ∧
    (implementation? o name ≠ (exportAttempt o).1 →
      implementation? o name = none ∧
      ∃ v value limit, o.variableNamed? name = some v ∧ v.initializer = some value ∧
        followLimit < limit ∧ (follow o limit value [v.name]).1 = (exportAttempt o).1) := by
  rw [implementation?_of_ownAttempt hfunction hown, exportAttempt]
  cases hexport : o.defaultExport with
  | none => simp
  | some exported =>
    cases exported with
    | declaration f => simp
    | expression value =>
      dsimp only
      rcases follow_visited o followLimit value (ownAttempt o name).2 with ⟨hiff, hnone⟩
      refine ⟨hiff, fun hne => ⟨hnone hne, ?_⟩⟩
      cases hfree : (follow o followLimit value []).1 with
      | none => exact absurd (hiff.2 (.inl hfree)) hne
      | some f =>
        rcases follow_eq_some_iff.1 hfree with ⟨hops, hroute, hfresh, hcost⟩
        refine exists_limit_of_ownAttempt hfunction hown hroute hfresh.1 ?_
        -- A way past no visited name would be followed to its end.
        by_cases hmeets : ∃ n ∈ routeNames hops, n ∈ (ownAttempt o name).2
        · exact hmeets
        · have hpast : FreshNames hops (ownAttempt o name).2 :=
            ⟨hfresh.1, fun n hn hmem => hmeets ⟨n, hn, hmem⟩⟩
          rw [hfree, follow_eq_some_iff.2 ⟨hops, hroute, hpast, hcost⟩] at hne
          exact absurd rfl hne

/-- A component at the beginning of a chain of names; the default export is the third of them. -/
def chainModule : Outline where
  path := "Card.tsx"
  vars :=
    [("Card", "A"), ("A", "B"), ("B", "C"), ("C", "D"), ("D", "E"), ("E", "F"), ("F", "G"),
      ("G", "H"), ("H", "I")].map (fun (name, value) =>
        { name, initializer := some (.identifier value value) }) ++
    [{ name := "I", initializer := some (.function "() => null" (some {})) }]
  defaultExport := some (.expression (.identifier "B" "B"))

/-- The default export leads to a function, which is given up. -/
theorem default_export_followed_chain :
    chainModule.function? "Card" = none ∧ (ownAttempt chainModule "Card").1 = none ∧
      (exportAttempt chainModule).1 = some {} ∧ implementation? chainModule "Card" = none ∧
      ∃ v value limit, chainModule.variableNamed? "Card" = some v ∧ v.initializer = some value ∧
        followLimit < limit ∧ (follow chainModule limit value [v.name]).1 = some {} := by
  have hfunction : chainModule.function? "Card" = none := by decide
  have hown : (ownAttempt chainModule "Card").1 = none := by decide
  have hexport : (exportAttempt chainModule).1 = some {} := by decide
  rcases default_export_followed hfunction hown with ⟨hiff, hgiven⟩
  have hne : implementation? chainModule "Card" ≠ (exportAttempt chainModule).1 := by
    intro heq
    exact absurd (hiff.1 heq) (by decide)
  rcases hgiven hne with ⟨hnone, hlimit⟩
  rw [hexport] at hlimit
  exact ⟨hfunction, hown, hexport, hnone, hlimit⟩

end PropCatalog
