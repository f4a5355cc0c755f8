import PropCatalog.Component.Defaults
import PropCatalog.Component.Describe

/-!
# Indirections — from a component's name to the function behind it

The defaults and the description of a component are both looked for along re-assignments and wrapper
calls. The two walks take the same ways, but they count the steps differently: to the value of a
variable is one step for `follow` and two for `describe`, which looks at the name and at the
variable apart. So the function behind a component can be found, documented, and too far away for
its description.

- `Route`, `FreshNames`        : the way from an expression to a function
- `followCost`, `describeCost` : what a way takes of the limits of the two walks
- `route_of_follow`            : a function is found on a way within the limit of `follow`
- `describe_ne_empty`, `describe_eq_empty` : a description is found within the limit of `describe`,
  and beyond it not
- `description_of_implementation` : when the documented function behind a component describes it
-/

namespace PropCatalog

/-! ## Ways -/

/-- One step on the way from an expression to a function. -/
inductive Hop where
  /-- To the first argument of a call. -/
  | wrapper
  /-- To the value of a variable. -/
  | variable (name : String)
  /-- To a declared function. -/
  | function (name : String)
  deriving DecidableEq, Repr

/-- The way from an expression to the function that it stands for. -/
inductive Route (o : Outline) : Expr → List Hop → Callable → Prop where
  | inline (text : String) (f : Callable) : Route o (.function text (some f)) [] f
  | wrapped {text callee : String} {first : Expr} {others : List Expr} {comments : List Comment}
      {hops : List Hop} {f : Callable} (hfirst : Route o first hops f) :
      Route o (.call text callee (first :: others) comments) (.wrapper :: hops) f
  | declared {text name : String} {f : Callable} (hfunction : o.function? name = some f) :
      Route o (.identifier text name) [.function name] f
  | assigned {text name : String} {v : Variable} {value : Expr} {hops : List Hop} {f : Callable}
      (hfunction : o.function? name = none) (hvariable : o.variableNamed? name = some v)
      (hvalue : v.initializer = some value) (hrest : Route o value hops f) :
      Route o (.identifier text name) (.variable name :: hops) f

/-- The names on a way, in order. -/
def routeNames : List Hop → List String
  | [] => []
  | .wrapper :: hops => routeNames hops
  | .variable name :: hops => name :: routeNames hops
  | .function name :: hops => name :: routeNames hops

/-- What a way takes of the limit of `follow`. -/
def followCost : List Hop → Nat
  | [] => 0
  | .function _ :: hops => followCost hops
  | _ :: hops => followCost hops + 1

/-- What a way takes of the limit of `describe`. -/
def describeCost : List Hop → Nat
  | [] => 0
  -- The comments of a function that is an argument are read at its call.
  | [.wrapper] => 0
  | .wrapper :: hops => describeCost hops + 1
  | .variable _ :: hops => describeCost hops + 2
  | .function _ :: hops => describeCost hops + 1

/-- No name on a way comes twice or was visited before. -/
def FreshNames (hops : List Hop) (visited : List String) : Prop :=
  (routeNames hops).Nodup ∧ ∀ name ∈ routeNames hops, name ∉ visited

theorem FreshNames.mono {hops : List Hop} {visited fewer : List String}
    (h : FreshNames hops visited) (hsub : ∀ name ∈ fewer, name ∈ visited) :
    FreshNames hops fewer := by
  refine ⟨h.1, ?_⟩
  intro name hname hvisited
  exact h.2 name hname (hsub name hvisited)

theorem freshNames_variable_iff {name : String} {hops : List Hop} {visited : List String} :
    FreshNames (.variable name :: hops) visited ↔
      name ∉ visited ∧ FreshNames hops (name :: visited) := by
  simp only [FreshNames, routeNames, List.nodup_cons, List.mem_cons, not_or]
  constructor
  · rintro ⟨⟨hname, hnodup⟩, hall⟩
    refine ⟨hall name (.inl rfl), hnodup, ?_⟩
    intro other hother
    refine ⟨?_, hall other (.inr hother)⟩
    rintro rfl
    exact hname hother
  · rintro ⟨hname, hnodup, hall⟩
    refine ⟨⟨fun hmem => (hall name hmem).1 rfl, hnodup⟩, ?_⟩
    rintro other (rfl | hother)
    · exact hname
    · exact (hall other hother).2

/-- A way of no steps ends where it begins. -/
theorem Route.eq_inline {o : Outline} {e : Expr} {f : Callable} (h : Route o e [] f) :
    ∃ text, e = .function text (some f) := by
  cases h with
  | inline text f => exact ⟨text, rfl⟩

theorem Outline.name_of_variableNamed? {o : Outline} {name : String} {v : Variable}
    (h : o.variableNamed? name = some v) : v.name = name ∧ v ∈ o.vars := by
  have hname := List.find?_some h
  exact ⟨by simpa using hname, List.mem_of_find?_eq_some h⟩

/-! ## Following -/

/-- A function that is found by following an expression is found on a way, within the limit and past
names that were not visited. -/
theorem route_of_follow {o : Outline} {limit : Nat} {e : Expr} {visited : List String}
    {f : Callable} (h : (follow o limit e visited).1 = some f) :
    ∃ hops, Route o e hops f ∧ FreshNames hops visited ∧ followCost hops < limit := by
  -- The induction is on the limit: every step but the last one takes one of it.
  induction limit generalizing e visited with
  | zero => simp [follow] at h
  | succ limit ih =>
    cases e with
    | function text function =>
      simp only [follow] at h
      subst h
      exact ⟨[], .inline text f, ⟨List.nodup_nil, by simp [routeNames]⟩, by simp [followCost]⟩
    | other text => simp [follow] at h
    | call text callee arguments comments =>
      cases arguments with
      | nil => simp [follow] at h
      | cons first others =>
        rw [follow] at h
        rcases ih h with ⟨hops, hroute, hfresh, hcost⟩
        exact ⟨.wrapper :: hops, .wrapped hroute, hfresh, by simpa [followCost] using hcost⟩
    | identifier text name =>
      rw [follow] at h
      by_cases hvisited : name ∈ visited
      · simp [hvisited] at h
      · simp only [List.contains_iff_mem, hvisited, if_false] at h
        cases hfunction : o.function? name with
        | some function =>
          simp only [hfunction, Option.some.injEq] at h
          subst h
          refine ⟨[.function name], .declared hfunction, ⟨by simp [routeNames], ?_⟩, by
            simp [followCost]⟩
          simpa [routeNames] using hvisited
        | none =>
          simp only [hfunction] at h
          cases hvariable : o.variableNamed? name with
          | none => simp [hvariable] at h
          | some v =>
            rcases v with ⟨vname, declaredType, initializer, outer, inner⟩
            cases initializer with
            | none => simp [hvariable] at h
            | some value =>
              simp only [hvariable] at h
              rcases ih h with ⟨hops, hroute, hfresh, hcost⟩
              have hall := freshNames_variable_iff.2 ⟨hvisited, hfresh⟩
              exact ⟨.variable name :: hops, .assigned hfunction hvariable rfl hroute, hall, by
                simpa [followCost] using hcost⟩

/-! ## Describing -/

theorem describe_identifier (o : Outline) (limit : Nat) (text name : String)
    (visited : List String) :
    describe o (limit + 1) (.expression (.identifier text name)) visited =
      describe o limit (.name name) visited := by
  rw [describe]

/-- A call passes on the description of its first argument, unless that is a function. -/
theorem describe_call {o : Outline} {first : Expr} {hops : List Hop} {f : Callable}
    (hfirst : Route o first hops f) (hhops : hops ≠ []) (limit : Nat) (text callee : String)
    (others : List Expr) (comments : List Comment) (visited : List String) :
    describe o (limit + 1) (.expression (.call text callee (first :: others) comments)) visited =
      describe o limit (.expression first) visited := by
  have hnot : ∀ text' function, first = .function text' function → False := by
    rintro text' function rfl
    cases hfirst with
    | inline => exact hhops rfl
  rw [describe]
  exact hnot

/-- The description of a variable: its own, or that of its value. -/
theorem describe_variable {o : Outline} {v : Variable} {value : Expr} {visited : List String}
    (hvisited : v.name ∉ visited) (hvalue : v.initializer = some value) (limit : Nat) :
    describe o (limit + 1) (.variable v) visited =
      if v.ownDescription = "" then describe o limit (.expression value) (v.name :: visited)
      else v.ownDescription := by
  rw [describe]
  by_cases hown : v.ownDescription = "" <;> simp [hvisited, hvalue, hown]

theorem describe_name_variable {o : Outline} {name : String} {v : Variable}
    {visited : List String} (hvisited : name ∉ visited) (hfunction : o.function? name = none)
    (hvariable : o.variableNamed? name = some v) (limit : Nat) :
    describe o (limit + 1) (.name name) visited = describe o (limit + 1) (.variable v) visited := by
  have hname : v.name = name := (Outline.name_of_variableNamed? hvariable).1
  rw [describe, describe]
  simp [hvisited, hfunction, hvariable]

theorem describe_name_function {o : Outline} {name : String} {f : Callable}
    {visited : List String} (hvisited : name ∉ visited) (hfunction : o.function? name = some f)
    (limit : Nat) :
    describe o (limit + 1) (.name name) visited = description f.comments := by
  rw [describe]
  simp [hvisited, hfunction]

theorem describeCost_wrapper {hops : List Hop} (h : hops ≠ []) :
    describeCost (.wrapper :: hops) = describeCost hops + 1 := by
  cases hops with
  | nil => exact absurd rfl h
  | cons hop rest => rw [describeCost]; simp

/-- Within the limit of `describe`, a documented function is described on the way to it. -/
theorem describe_ne_empty {o : Outline} {e : Expr} {hops : List Hop} {f : Callable}
    (hroute : Route o e hops f) (hdoc : description f.comments ≠ "") {limit : Nat}
    {visited : List String} (hfresh : FreshNames hops visited)
    (hcost : describeCost hops < limit) :
    describe o limit (.expression e) visited ≠ "" := by
  induction hroute generalizing limit visited with
  | inline text f =>
    obtain ⟨limit, rfl⟩ : ∃ n, limit = n + 1 := ⟨limit - 1, by omega⟩
    simpa [describe] using hdoc
  | @wrapped text callee first others comments hops f hfirst ih =>
    obtain ⟨limit, rfl⟩ : ∃ n, limit = n + 1 := ⟨limit - 1, by omega⟩
    by_cases hhops : hops = []
    · -- The function is an argument, and its own comments come before those of the statement.
      subst hhops
      obtain ⟨inner, rfl⟩ := hfirst.eq_inline
      simp [describe, hdoc]
    · rw [describe_call hfirst hhops]
      rw [describeCost_wrapper hhops] at hcost
      exact ih hdoc hfresh (by omega)
  | @declared text name f hfunction =>
    have hname : name ∉ visited := hfresh.2 name (by simp [routeNames])
    simp only [describeCost] at hcost
    obtain ⟨limit, rfl⟩ : ∃ n, limit = n + 2 := ⟨limit - 2, by omega⟩
    rw [describe_identifier, describe_name_function hname hfunction]
    exact hdoc
  | @assigned text name v value hops f hfunction hvariable hvalue _ ih =>
    rcases freshNames_variable_iff.1 hfresh with ⟨hname, hrest⟩
    have hv : v.name = name := (Outline.name_of_variableNamed? hvariable).1
    simp only [describeCost] at hcost
    obtain ⟨limit, rfl⟩ : ∃ n, limit = n + 2 := ⟨limit - 2, by omega⟩
    rw [describe_identifier, describe_name_variable hname hfunction hvariable,
      describe_variable (hv ▸ hname) hvalue]
    -- A documented variable on the way is as good as the function at its end.
    by_cases hown : v.ownDescription = ""
    · rw [if_pos hown, hv]
      exact ih hdoc hrest (by omega)
    · rw [if_neg hown]
      exact hown

/-- Beyond the limit nothing is found on a way whose variables are not documented. -/
theorem describe_eq_empty {o : Outline} {e : Expr} {hops : List Hop} {f : Callable}
    (hroute : Route o e hops f) (hplain : ∀ v ∈ o.vars, v.ownDescription = "") {limit : Nat}
    (hcost : limit ≤ describeCost hops) (visited : List String) :
    describe o limit (.expression e) visited = "" := by
  induction hroute generalizing limit visited with
  | inline text f =>
    have hzero : limit = 0 := by simpa [describeCost] using hcost
    rw [hzero, describe]
  | @wrapped text callee first others comments hops f hfirst ih =>
    by_cases hhops : hops = []
    · have hzero : limit = 0 := by simpa [hhops, describeCost] using hcost
      rw [hzero, describe]
    · rw [describeCost_wrapper hhops] at hcost
      cases limit with
      | zero => rw [describe]
      | succ limit =>
        rw [describe_call hfirst hhops]
        exact ih (by omega) visited
  | @declared text name f hfunction =>
    simp only [describeCost] at hcost
    cases limit with
    | zero => rw [describe]
    | succ limit =>
      have hzero : limit = 0 := by omega
      rw [hzero, describe_identifier, describe]
  | @assigned text name v value hops f hfunction hvariable hvalue _ ih =>
    simp only [describeCost] at hcost
    rcases Outline.name_of_variableNamed? hvariable with ⟨hv, hmem⟩
    match limit with
    | 0 => rw [describe]
    | 1 => rw [describe_identifier, describe]
    | limit + 2 =>
      rw [describe_identifier]
      by_cases hname : name ∈ visited
      · rw [describe]
        simp [hname]
      · rw [describe_name_variable hname hfunction hvariable,
          describe_variable (hv ▸ hname) hvalue, if_pos (hplain v hmem)]
        exact ih (by omega) _

/-! ## Components -/

/-- How the function behind a component is found, with the limit that holds when a description is
looked for on the same way. -/
inductive Implements (o : Outline) (name : String) (f : Callable) : List Hop → Nat → Prop where
  | named (hfunction : o.function? name = some f) : Implements o name f [] 1
  -- The variable itself takes one of the limit.
  | held {v : Variable} {value : Expr} {hops : List Hop} (hfunction : o.function? name = none)
      (hvariable : o.variableNamed? name = some v) (hvalue : v.initializer = some value)
      (hroute : Route o value hops f) (hfresh : FreshNames hops [v.name]) :
      Implements o name f hops (describeLimit - 1)
  | exported (hfunction : o.function? name = none)
      (hexport : o.defaultExport = some (.declaration f)) : Implements o name f [] 1
  -- A name is looked up at once when it is exported.
  | exportedName {text other : String} {hops : List Hop} (hfunction : o.function? name = none)
      (hexport : o.defaultExport = some (.expression (.identifier text other)))
      (hroute : Route o (.identifier text other) hops f) (hfresh : FreshNames hops []) :
      Implements o name f hops (describeLimit + 1)
  | exportedValue {value : Expr} {hops : List Hop} (hfunction : o.function? name = none)
      (hexport : o.defaultExport = some (.expression value))
      (hvalue : ∀ text other, value ≠ .identifier text other) (hroute : Route o value hops f)
      (hfresh : FreshNames hops []) : Implements o name f hops describeLimit

/-- A function that implements a component is found in one of these ways, within the limit of
`follow`. -/
theorem implements_of_implementation? {o : Outline} {name : String} {f : Callable}
    (h : implementation? o name = some f) :
    ∃ hops limit, Implements o name f hops limit ∧ followCost hops < followLimit := by
  unfold implementation? at h
  cases hfunction : o.function? name with
  | some g =>
    simp only [hfunction, Option.some.injEq] at h
    subst h
    exact ⟨[], 1, .named hfunction, by decide⟩
  | none =>
    simp only [hfunction] at h
    split at h
    · -- Following the variable of that name has found the function.
      rename_i g hfound
      cases h
      cases hvariable : o.variableNamed? name with
      | none => simp [hvariable] at hfound
      | some v =>
        simp only [hvariable] at hfound
        cases hvalue : v.initializer with
        | none => simp [followVariable, hvalue] at hfound
        | some value =>
          simp only [followVariable, hvalue] at hfound
          rcases route_of_follow hfound with ⟨hops, hroute, hfresh, hcost⟩
          exact ⟨hops, _, .held hfunction hvariable hvalue hroute hfresh, hcost⟩
    · cases hexport : o.defaultExport with
      | none => simp [hexport] at h
      | some exported =>
        cases exported with
        | declaration g =>
          simp only [hexport, Option.some.injEq] at h
          subst h
          exact ⟨[], 1, .exported hfunction hexport, by decide⟩
        | expression value =>
          simp only [hexport] at h
          rcases route_of_follow h with ⟨hops, hroute, hfresh, hcost⟩
          -- The names seen on the way of the variable do not count for a description.
          have hnone : FreshNames hops [] := hfresh.mono (by simp)
          by_cases hname : ∃ text other, value = .identifier text other
          · rcases hname with ⟨text, other, rfl⟩
            exact ⟨hops, _, .exportedName hfunction hexport hroute hnone, hcost⟩
          · have hvalue : ∀ text other, value ≠ .identifier text other := by
              intro text other heq
              exact hname ⟨text, other, heq⟩
            exact ⟨hops, _, .exportedValue hfunction hexport hvalue hroute hnone, hcost⟩

/-- A component is described if one of the three seeds is. -/
theorem componentDescription_ne_empty {o : Outline} {name : String}
    (h : describeFunction o name ≠ "" ∨ describeVariable o name ≠ "" ∨
      describeDefaultExport o ≠ "") : componentDescription o name ≠ "" := by
  unfold componentDescription
  dsimp only
  cases hfind : [describeFunction o name, describeVariable o name, describeDefaultExport o].find?
      (· != "") with
  | some text => simpa using List.find?_some hfind
  | none =>
    have hall := List.find?_eq_none.1 hfind
    simp at hall
    simp [hall] at h

/-- Without documented variables a component is described by its seeds only. -/
theorem componentDescription_eq_empty {o : Outline} {name : String}
    (hplain : ∀ v ∈ o.vars, v.ownDescription = "") (hfunction : describeFunction o name = "")
    (hvariable : describeVariable o name = "") (hexport : describeDefaultExport o = "") :
    componentDescription o name = "" := by
  have hcandidates : o.vars.filterMap (candidate? name) = [] := by
    rw [List.filterMap_eq_nil_iff]
    intro v hv
    simp [candidate?, hplain v hv]
  simp [componentDescription, hfunction, hvariable, hexport, bestCandidate, hcandidates]

/-! ### The seeds, by the expressions they start from -/

theorem describeVariable_eq {o : Outline} {name : String} {v : Variable} {value : Expr}
    (hvariable : o.variableNamed? name = some v) (hvalue : v.initializer = some value) :
    describeVariable o name =
      if v.ownDescription = "" then
        describe o (describeLimit - 1) (.expression value) [v.name]
      else v.ownDescription := by
  have hstart := describe_variable (o := o) (List.not_mem_nil (a := v.name)) hvalue
    (describeLimit - 1)
  rw [describeVariable, hvariable]
  exact hstart

theorem describeDefaultExport_identifier {o : Outline} {text other : String}
    (hexport : o.defaultExport = some (.expression (.identifier text other))) :
    describeDefaultExport o =
      describe o (describeLimit + 1) (.expression (.identifier text other)) [] := by
  rw [describeDefaultExport, hexport, describe_identifier]

theorem describeDefaultExport_value {o : Outline} {value : Expr}
    (hexport : o.defaultExport = some (.expression value))
    (hvalue : ∀ text other, value ≠ .identifier text other) :
    describeDefaultExport o = describe o describeLimit (.expression value) [] := by
  rw [describeDefaultExport, hexport]
  cases value with
  | identifier text other => exact absurd rfl (hvalue text other)
  | call => rfl
  | function => rfl
  | other => rfl

namespace Implements

variable {o : Outline} {name : String} {f : Callable} {hops : List Hop} {limit : Nat}

/-- Within the limit, the documented function behind a component describes it, unless something
nearer does. -/
theorem description_ne_empty (h : Implements o name f hops limit)
    (hdoc : description f.comments ≠ "") (hcost : describeCost hops < limit) :
    componentDescription o name ≠ "" := by
  apply componentDescription_ne_empty
  cases h with
  | named hfunction =>
    have hseed : describeFunction o name = description f.comments := by
      simp [describeFunction, hfunction]
    exact .inl (hseed ▸ hdoc)
  | @held v value _ hfunction hvariable hvalue hroute hfresh =>
    have hroad := describe_ne_empty hroute hdoc hfresh hcost
    refine .inr (.inl ?_)
    rw [describeVariable_eq hvariable hvalue]
    by_cases hown : v.ownDescription = ""
    · rw [if_pos hown]
      exact hroad
    · rw [if_neg hown]
      exact hown
  | exported hfunction hexport =>
    have hseed : describeDefaultExport o = description f.comments := by
      simp [describeDefaultExport, hexport]
    exact .inr (.inr (hseed ▸ hdoc))
  | exportedName hfunction hexport hroute hfresh =>
    have hroad := describe_ne_empty hroute hdoc hfresh hcost
    exact .inr (.inr (describeDefaultExport_identifier hexport ▸ hroad))
  | exportedValue hfunction hexport hvalue hroute hfresh =>
    have hroad := describe_ne_empty hroute hdoc hfresh hcost
    exact .inr (.inr (describeDefaultExport_value hexport hvalue ▸ hroad))

/-- Beyond the limit the function does not describe the component. What else might do so is excluded
here: documented variables, and a second seed. -/
theorem description_eq_empty (h : Implements o name f hops limit)
    (hplain : ∀ v ∈ o.vars, v.ownDescription = "")
    (hsingle : o.variableNamed? name = none ∨ o.defaultExport = none)
    (hcost : limit ≤ describeCost hops) : componentDescription o name = "" := by
  -- A component without a function of its name has no description there.
  have hseed : o.function? name = none → describeFunction o name = "" := by
    intro hfunction
    simp [describeFunction, hfunction]
  have hvariable : o.variableNamed? name = none → describeVariable o name = "" := by
    intro hnone
    simp [describeVariable, hnone]
  cases h with
  | named hfunction => simp [describeCost] at hcost
  | exported hfunction hexport => simp [describeCost] at hcost
  | @held v value _ hfunction hheld hvalue hroute hfresh =>
    have hexport : o.defaultExport = none := by
      rcases hsingle with hnone | hnone
      · rw [hheld] at hnone
        cases hnone
      · exact hnone
    have hmem : v ∈ o.vars := (Outline.name_of_variableNamed? hheld).2
    have hroad : describeVariable o name = "" := by
      rw [describeVariable_eq hheld hvalue, if_pos (hplain v hmem)]
      exact describe_eq_empty hroute hplain hcost _
    exact componentDescription_eq_empty hplain (hseed hfunction) hroad (by
      simp [describeDefaultExport, hexport])
  | exportedName hfunction hexport hroute hfresh =>
    have hnone : o.variableNamed? name = none := hsingle.resolve_right (by simp [hexport])
    have hroad := describe_eq_empty hroute hplain hcost []
    rw [← describeDefaultExport_identifier hexport] at hroad
    exact componentDescription_eq_empty hplain (hseed hfunction) (hvariable hnone) hroad
  | exportedValue hfunction hexport hvalue hroute hfresh =>
    have hnone : o.variableNamed? name = none := hsingle.resolve_right (by simp [hexport])
    have hroad := describe_eq_empty hroute hplain hcost []
    rw [← describeDefaultExport_value hexport hvalue] at hroad
    exact componentDescription_eq_empty hplain (hseed hfunction) (hvariable hnone) hroad

end Implements

/-- When the documented function behind a component describes it. The function is found on a way
that takes less than `followLimit` when it is followed. If a way to it is also short enough for a
description, the component has one. If it is not, and nothing else is documented, it has none. -/
theorem description_of_implementation {o : Outline} {name : String} {f : Callable}
    (hf : implementation? o name = some f) (hdoc : description f.comments ≠ "") :
    (∃ hops limit, Implements o name f hops limit ∧ followCost hops < followLimit) ∧
      ∀ hops limit, Implements o name f hops limit →
        (describeCost hops < limit → componentDescription o name ≠ "") ∧
        ((∀ v ∈ o.vars, v.ownDescription = "") →
          o.variableNamed? name = none ∨ o.defaultExport = none →
          limit ≤ describeCost hops → componentDescription o name = "") := by
  refine ⟨implements_of_implementation? hf, ?_⟩
  intro hops limit himplements
  refine ⟨himplements.description_ne_empty hdoc, ?_⟩
  intro hplain hsingle hcost
  exact himplements.description_eq_empty hplain hsingle hcost

/-! ## A function five names away -/

/-- A module in which a component is re-assigned until it comes to a documented function. -/
def renamedButton : Outline where
  path := "Button.tsx"
  functions := [{ name := some "BaseButton", comments := [⟨"/** A button. */"⟩] }]
  vars := [
    { name := "Button", initializer := some (.identifier "Themed" "Themed") },
    { name := "Themed", initializer := some (.identifier "Sized" "Sized") },
    { name := "Sized", initializer := some (.identifier "Focused" "Focused") },
    { name := "Focused", initializer := some (.identifier "Plain" "Plain") },
    { name := "Plain", initializer := some (.identifier "BaseButton" "BaseButton") }]

theorem description_of_implementation_button :
    ∃ f, implementation? renamedButton "Button" = some f ∧ description f.comments ≠ "" ∧
      componentDescription renamedButton "Button" = "" ∧
      ∃ hops limit, Implements renamedButton "Button" f hops limit ∧
        limit ≤ describeCost hops := by
  have hf : implementation? renamedButton "Button" =
      some { name := some "BaseButton", comments := [⟨"/** A button. */"⟩] } := by
    decide
  have hdoc : description [⟨"/** A button. */"⟩] ≠ "" := by decide +kernel
  have hnone : componentDescription renamedButton "Button" = "" := by decide +kernel
  rcases description_of_implementation hf hdoc with ⟨⟨hops, limit, himplements, -⟩, hways⟩
  have hfar : ¬ describeCost hops < limit := by
    intro hcost
    exact (hways hops limit himplements).1 hcost hnone
  exact ⟨_, hf, hdoc, hnone, hops, limit, himplements, Nat.le_of_not_lt hfar⟩

end PropCatalog
