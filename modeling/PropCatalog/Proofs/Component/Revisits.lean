import Mathlib.Data.Nat.Find
import PropCatalog.Proofs.Component.Indirection

/-!
# Revisits — the names that were visited only cut work

A description is looked for along re-assignments and wrapper calls, within a limit of steps, and a
name that was visited before leads nowhere. The limit alone would do: a walk that comes back to a
name goes round in circles until the limit is used up, and finds nothing that way either.

- `Move`, `Target.move` : one step of the walk, with any rule about the names at which it stops
- `describeUnless`      : the walk by such steps, and `describeFreely` the one that stops at no name
- `describeUnless_mono` : what is found within a limit is found within every greater one
- `describe_eq_freely`  : past names that lead nowhere both walks find the same
- `component_description_freely` : the description of a component does not depend on the names that
  were visited
-/

namespace PropCatalog

/-! ## Steps -/

/-- What one step of a walk comes to: a description, or another target behind some names. -/
inductive Move where
  | found (text : String)
  | goOn (target : Target) (names : List String)

def Variable.move (v : Variable) : Move :=
  if v.ownDescription != "" then .found v.ownDescription
  else
    match v.initializer with
    | some value => .goOn (.expression value) [v.name]
    | none => .found ""

def Expr.move : Expr → Move
  | .identifier _ n => .goOn (.name n) []
  | .call _ _ (.function _ inner :: _) statementComments =>
    let own := (inner.map fun f => description f.comments).getD ""
    .found (if own == "" then description statementComments else own)
  | .call _ _ (first :: _) _ => .goOn (.expression first) []
  | .function _ (some inner) => .found (description inner.comments)
  | _ => .found ""

/-- One step from a target, where some names are passed over. -/
def Target.move (stops : String → Bool) (o : Outline) : Target → Move
  | .variable v => if stops v.name then .found "" else v.move
  | .name n =>
    if stops n then .found ""
    else
      match o.function? n with
      | some function => .found (description function.comments)
      | none =>
        match o.variableNamed? n with
        | some v => if stops v.name then .found "" else v.move
        | none => .found ""
  | .expression e => e.move

/-- Where a walk ends that goes on with `go` behind its first step. -/
def Move.run (go : Target → List String → String) (visited : List String) : Move → String
  | .found text => text
  | .goOn next names => go next (names ++ visited)

/-- The walk by such steps. Which names are passed over may depend on those that were visited. -/
def describeUnless (stops : List String → String → Bool) (o : Outline) :
    Nat → Target → List String → String
  | 0, _, _ => ""
  | limit + 1, target, visited =>
    (target.move (stops visited) o).run (describeUnless stops o limit) visited

theorem Variable.run_move (v : Variable) (go : Target → List String → String)
    (visited : List String) :
    v.move.run go visited =
      if v.ownDescription != "" then v.ownDescription
      else
        match v.initializer with
        | some value => go (.expression value) (v.name :: visited)
        | none => "" := by
  unfold Variable.move
  split
  · rfl
  · cases v.initializer <;> rfl

/-- A description is looked for by steps that pass over the names that were visited. -/
theorem describe_succ (o : Outline) (limit : Nat) (target : Target) (visited : List String) :
    describe o (limit + 1) target visited =
      (target.move visited.contains o).run (describe o limit) visited := by
  rw [describe.eq_def]
  rcases target with v | n | e
  · by_cases hv : v.name ∈ visited
    · simp [Target.move, Move.run, hv]
    · cases hvalue : v.initializer <;> simp [Target.move, hv, v.run_move, hvalue]
  · by_cases hn : n ∈ visited
    · simp [Target.move, Move.run, hn]
    · cases hfunction : o.function? n with
      | some function => simp [Target.move, Move.run, hn, hfunction]
      | none =>
        cases hvariable : o.variableNamed? n with
        | none => simp [Target.move, Move.run, hn, hfunction, hvariable]
        | some v =>
          have hname : v.name = n := (Outline.name_of_variableNamed? hvariable).1
          cases hvalue : v.initializer <;>
            simp [Target.move, hn, hfunction, hvariable, hname, v.run_move, hvalue]
  · cases e with
    | identifier text n => rfl
    | call text callee arguments comments =>
      rcases arguments with _ | ⟨first, others⟩
      · rfl
      · cases first <;> rfl
    | function text inner => cases inner <;> rfl
    | other text => rfl

theorem describe_eq_unless (o : Outline) (limit : Nat) (target : Target) (visited : List String) :
    describe o limit target visited =
      describeUnless (fun visited name => visited.contains name) o limit target visited := by
  induction limit generalizing target visited with
  | zero => rw [describe, describeUnless]
  | succ limit ih =>
    rw [describe_succ, describeUnless]
    cases target.move visited.contains o with
    | found text => rfl
    | goOn next names => exact ih next (names ++ visited)

/-! ## Limits -/

/-- What is found within a limit is found within every greater one. -/
theorem describeUnless_mono {stops : List String → String → Bool} {o : Outline} {limit : Nat}
    {target : Target} {visited : List String}
    (h : describeUnless stops o limit target visited ≠ "") {more : Nat} (hmore : limit ≤ more) :
    describeUnless stops o more target visited = describeUnless stops o limit target visited := by
  induction limit generalizing target visited more with
  | zero => exact absurd rfl h
  | succ limit ih =>
    obtain ⟨more, rfl⟩ : ∃ k, more = k + 1 := ⟨more - 1, by omega⟩
    rw [describeUnless] at h
    rw [describeUnless, describeUnless]
    cases hmove : target.move (stops visited) o with
    | found text => rfl
    | goOn next names =>
      rw [hmove] at h
      exact ih h (by omega)

/-- The walk that passes over no name. -/
def describeFreely (o : Outline) (limit : Nat) (target : Target) : String :=
  describeUnless (fun _ _ => false) o limit target []

theorem describeUnless_freely (o : Outline) (limit : Nat) (target : Target)
    (visited : List String) :
    describeUnless (fun _ _ => false) o limit target visited = describeFreely o limit target := by
  unfold describeFreely
  induction limit generalizing target visited with
  | zero => rfl
  | succ limit ih =>
    rw [describeUnless, describeUnless]
    cases target.move (fun _ => false) o with
    | found text => rfl
    | goOn next names => exact (ih next (names ++ visited)).trans (ih next (names ++ [])).symm

theorem describeFreely_succ (o : Outline) (limit : Nat) (target : Target) :
    describeFreely o (limit + 1) target =
      (target.move (fun _ => false) o).run (fun next _ => describeFreely o limit next) [] := by
  rw [describeFreely, describeUnless]
  cases target.move (fun _ => false) o with
  | found text => rfl
  | goOn next names => exact describeUnless_freely o limit next _

/-! ## Names that lead nowhere -/

/-- Nothing is found behind the given names within a limit. -/
def Barren (o : Outline) (limit : Nat) (names : List String) : Prop :=
  ∀ n ∈ names, ∀ k ≤ limit, describeFreely o k (.name n) = ""

theorem Barren.mono {o : Outline} {limit less : Nat} {names : List String}
    (h : Barren o limit names) (hless : less ≤ limit) : Barren o less names :=
  fun n hn k hk => h n hn k (Nat.le_trans hk hless)

theorem Barren.append {o : Outline} {limit : Nat} {names others : List String}
    (h : Barren o limit names) (h' : Barren o limit others) : Barren o limit (names ++ others) :=
  fun n hn => (List.mem_append.1 hn).elim (h n) (h' n)

/-- Where no name is passed over, the names that were visited make no difference to a step. -/
theorem Target.move_eq {o : Outline} {target : Target} {visited : List String}
    (hname : ∀ n, target = .name n → n ∉ visited)
    (hvariable : ∀ v, target = .variable v → v.name ∉ visited) :
    target.move visited.contains o = target.move (fun _ => false) o := by
  rcases target with v | n | e
  · simp [Target.move, hvariable v rfl]
  · have hn := hname n rfl
    cases hfunction : o.function? n with
    | some function => simp [Target.move, hn, hfunction]
    | none =>
      cases hheld : o.variableNamed? n with
      | none => simp [Target.move, hn, hfunction, hheld]
      | some v =>
        have hv : v.name = n := (Outline.name_of_variableNamed? hheld).1
        simp [Target.move, hn, hfunction, hheld, hv]
  · rfl

theorem Variable.move_goOn {v : Variable} {next : Target} {names : List String}
    (h : v.move = .goOn next names) : (∃ e, next = .expression e) ∧ names = [v.name] := by
  unfold Variable.move at h
  split at h
  · cases h
  · cases hvalue : v.initializer with
    | none => simp [hvalue] at h
    | some value =>
      rw [hvalue] at h
      cases h
      exact ⟨⟨value, rfl⟩, rfl⟩

theorem Expr.move_goOn {e : Expr} {next : Target} {names : List String}
    (h : e.move = .goOn next names) : (∀ v, next ≠ .variable v) ∧ names = [] := by
  unfold Expr.move at h
  split at h
  all_goals cases h
  all_goals exact ⟨fun v => by simp, rfl⟩

/-- The names behind which a target stands. -/
def Target.names : Target → List String
  | .variable v => [v.name]
  | .name n => [n]
  | .expression _ => []

/-- A step goes on at a name or at an expression, behind the name of its target if it has one. -/
theorem Target.move_goOn {o : Outline} {target next : Target} {names : List String}
    (h : target.move (fun _ => false) o = .goOn next names) :
    (∀ v, next ≠ .variable v) ∧ names = target.names := by
  have hvariable : ∀ v : Variable, v.move = .goOn next names →
      (∀ w, next ≠ .variable w) ∧ names = [v.name] := by
    intro v hv
    rcases v.move_goOn hv with ⟨⟨e, rfl⟩, hnames⟩
    exact ⟨fun w => by simp, hnames⟩
  rcases target with v | n | e
  · exact hvariable v h
  · simp only [Target.move, Bool.false_eq_true, if_false] at h
    cases hfunction : o.function? n with
    | some function => simp [hfunction] at h
    | none =>
      cases hheld : o.variableNamed? n with
      | none => simp [hfunction, hheld] at h
      | some v =>
        simp only [hfunction, hheld] at h
        have hname : v.name = n := (Outline.name_of_variableNamed? hheld).1
        exact hname ▸ hvariable v h
  · exact e.move_goOn h

theorem describe_mono {o : Outline} {limit : Nat} {target : Target} {visited : List String}
    (h : describe o limit target visited ≠ "") {more : Nat} (hmore : limit ≤ more) :
    describe o more target visited = describe o limit target visited := by
  rw [describe_eq_unless] at h
  rw [describe_eq_unless, describe_eq_unless]
  exact describeUnless_mono h hmore

theorem describeFreely_mono {o : Outline} {limit : Nat} {target : Target}
    (h : describeFreely o limit target ≠ "") {more : Nat} (hmore : limit ≤ more) :
    describeFreely o more target = describeFreely o limit target :=
  describeUnless_mono h hmore

/-- A walk may go on behind names from which nothing is found that is not found from here. Should
something be found behind them, it is found from here within a limit that is too small to come back
to them, so that it makes no difference whether they count as visited. -/
theorem describe_past {o : Outline} {limit : Nat} {next : Target} {names visited : List String}
    (hbarren : Barren o limit visited)
    (hnames : ∀ n ∈ names, ∀ k, describeFreely o (k + 1) (.name n) ≠ "" →
      describeFreely o k next ≠ "")
    (ih : ∀ k ≤ limit, Barren o k (names ++ visited) →
      describe o k next (names ++ visited) = describeFreely o k next) :
    describe o limit next (names ++ visited) = describeFreely o limit next := by
  by_cases hall : Barren o limit names
  · exact ih limit (Nat.le_refl _) (hall.append hbarren)
  · -- The smallest limit within which something is found behind one of the names.
    obtain ⟨k, hk, hfruitful⟩ : ∃ k ≤ limit, ∃ n ∈ names, describeFreely o k (.name n) ≠ "" := by
      by_contra hnone
      refine hall fun n hn k hk => ?_
      by_contra hne
      exact hnone ⟨k, hk, n, hn, hne⟩
    have hfind : ∃ k, ∃ n ∈ names, describeFreely o k (.name n) ≠ "" := ⟨k, hfruitful⟩
    have hle : Nat.find hfind ≤ limit := Nat.le_trans (Nat.find_min' hfind hfruitful) hk
    obtain ⟨n, hn, hfound⟩ := Nat.find_spec hfind
    have hleast : ∀ k < Nat.find hfind, ∀ n ∈ names, describeFreely o k (.name n) = "" := by
      intro k hk n hn
      by_contra hne
      exact Nat.find_min hfind hk ⟨n, hn, hne⟩
    generalize Nat.find hfind = least at hle hfound hleast
    cases least with
    | zero => exact absurd rfl hfound
    | succ least =>
      have hnext : describeFreely o least next ≠ "" := hnames n hn least hfound
      have hless : least ≤ limit := Nat.le_of_succ_le hle
      have hsmall : Barren o least (names ++ visited) :=
        Barren.append (fun n hn k hk => hleast k (Nat.lt_succ_of_le hk) n hn) (hbarren.mono hless)
      have hsame := ih least hless hsmall
      rw [describeFreely_mono hnext hless, ← hsame]
      exact describe_mono (hsame ▸ hnext) hless

/-- Past names that lead nowhere, the names that were visited make no difference to a walk. -/
theorem describe_eq_freely {o : Outline} {limit : Nat} {target : Target} {visited : List String}
    (hbarren : Barren o limit visited)
    (hstart : ∀ v, target = .variable v → v.name ∉ visited ∧
      ∀ k, describeFreely o k (.name v.name) ≠ "" → describeFreely o k target ≠ "") :
    describe o limit target visited = describeFreely o limit target := by
  -- The limit drops by more than one step where the walk is compared with a shorter one.
  induction limit using Nat.strong_induction_on generalizing target visited with
  | _ limit ih =>
    cases limit with
    | zero =>
      rw [describe]
      rfl
    | succ limit =>
      by_cases hstop : ∃ n ∈ visited, target = .name n
      · -- The one walk stops at the name, the other goes on and finds nothing.
        rcases hstop with ⟨n, hn, rfl⟩
        rw [hbarren n hn (limit + 1) (Nat.le_refl _), describe_succ]
        simp [Target.move, Move.run, hn]
      · have hmove : target.move visited.contains o = target.move (fun _ => false) o :=
          Target.move_eq (fun n hn hvisited => hstop ⟨n, hvisited, hn⟩) fun v hv => (hstart v hv).1
        rw [describe_succ, describeFreely_succ, hmove]
        cases hnext : target.move (fun _ => false) o with
        | found text => rfl
        | goOn next names =>
          rcases Target.move_goOn hnext with ⟨hother, rfl⟩
          refine describe_past (hbarren.mono (Nat.le_succ limit)) ?_ ?_
          · -- What is found behind the name of the target is found from the target as well.
            intro n hn k hfound
            have hstep : describeFreely o (k + 1) target = describeFreely o k next := by
              rw [describeFreely_succ, hnext, Move.run]
            rw [← hstep]
            rcases target with v | m | e
            · rw [List.mem_singleton.1 hn] at hfound
              exact (hstart v rfl).2 (k + 1) hfound
            · rw [List.mem_singleton.1 hn] at hfound
              exact hfound
            · cases hn
          · intro k hk hb
            exact ih k (Nat.lt_succ_of_le hk) hb fun v hv => absurd hv (hother v)

/-! ## Components -/

/-- The description of a component by any walk: at its function, from its variable and from the
default export, or else that of the best candidate. -/
def descriptionBy (walk : Nat → Target → String) (o : Outline) (name : String) : String :=
  let seeds := [describeFunction o name,
    ((o.variableNamed? name).map fun v => walk describeLimit (.variable v)).getD "",
    match o.defaultExport with
    | none => ""
    | some (.declaration function) => description function.comments
    | some (.expression (.identifier _ n)) => walk describeLimit (.name n)
    | some (.expression value) => walk describeLimit (.expression value)]
  match seeds.find? (· != "") with
  | some text => text
  | none => ((bestCandidate o name).map Candidate.description).getD ""

theorem componentDescription_eq (o : Outline) (name : String) :
    componentDescription o name =
      descriptionBy (fun limit target => describe o limit target []) o name :=
  rfl

theorem barren_nil (o : Outline) (limit : Nat) : Barren o limit [] :=
  fun _ hn => absurd hn List.not_mem_nil

/-- From a name or an expression nothing depends on the names that are visited on the way. -/
theorem describe_start {o : Outline} {target : Target} (h : ∀ v, target ≠ .variable v)
    (limit : Nat) : describe o limit target [] = describeFreely o limit target :=
  describe_eq_freely (barren_nil o limit) fun v hv => absurd hv (h v)

/-- From the variable of a name, unless the name is that of a documented function: this is not come
to if the variable counts as visited. -/
theorem describe_start_variable {o : Outline} {name : String} {v : Variable}
    (hvariable : o.variableNamed? name = some v) (hfunction : describeFunction o name = "")
    (limit : Nat) :
    describe o limit (.variable v) [] = describeFreely o limit (.variable v) := by
  refine describe_eq_freely (barren_nil o limit) ?_
  rintro _ ⟨⟩
  refine ⟨List.not_mem_nil, ?_⟩
  have hname : v.name = name := (Outline.name_of_variableNamed? hvariable).1
  rw [hname]
  intro k hfound
  cases k with
  | zero => exact absurd rfl hfound
  | succ k =>
    rw [describeFreely_succ] at hfound ⊢
    -- A function hides the variable of its name, but this one has nothing to say.
    cases hdeclared : o.function? name with
    | some f =>
      have hempty : description f.comments = "" := by
        simpa [describeFunction, hdeclared] using hfunction
      simp [Target.move, Move.run, hdeclared, hempty] at hfound
    | none => simpa [Target.move, hdeclared, hvariable] using hfound

/-- Whatever a component is described by, the names that were visited make no difference. -/
theorem descriptionBy_freely (o : Outline) (name : String) :
    descriptionBy (fun limit target => describe o limit target []) o name =
      descriptionBy (describeFreely o) o name := by
  unfold descriptionBy
  by_cases hfunction : describeFunction o name = ""
  · have hvariable : (o.variableNamed? name).map (fun v =>
        describe o describeLimit (.variable v) []) =
        (o.variableNamed? name).map fun v => describeFreely o describeLimit (.variable v) := by
      cases h : o.variableNamed? name with
      | none => rfl
      | some v => exact congrArg some (describe_start_variable h hfunction describeLimit)
    have hname : ∀ n, describe o describeLimit (.name n) [] =
        describeFreely o describeLimit (.name n) := fun n => describe_start (by simp) describeLimit
    have hexpression : ∀ e, describe o describeLimit (.expression e) [] =
        describeFreely o describeLimit (.expression e) :=
      fun e => describe_start (by simp) describeLimit
    simp only [hvariable, hname, hexpression]
  · simp [hfunction]

/-- The description of a component is found by the walk that passes over the names it has visited,
and the walk that passes over none finds the same. -/
theorem component_description_freely (o : Outline) (name : String) :
    componentDescription o name =
        descriptionBy (fun limit target =>
          describeUnless (fun visited n => visited.contains n) o limit target []) o name ∧
      componentDescription o name =
        descriptionBy (fun limit target =>
          describeUnless (fun _ _ => false) o limit target []) o name := by
  rw [componentDescription_eq]
  constructor
  · simp only [describe_eq_unless]
  · exact descriptionBy_freely o name

end PropCatalog
