import PropCatalog.Proofs.Catalog.Discovery
import PropCatalog.Proofs.Catalog.FileRun

/-!
# Failures of steps — what a build can end in

Steps of a session fail for different reasons, and a handler around them catches some of these. A
bound on the failures of a step is found from the bounds of its parts.

- `Run.FailsOnly`   : a bound on the failures of a step, closed under sequences of steps
- `Build.Arises`, `Build.failsOnly_build` : a build never fails because of its settings
-/

namespace PropCatalog

/-! ## Bounds on failures -/

namespace Run

/-- Every failure of a step satisfies `P`, in whatever session it is taken. -/
def FailsOnly {α : Type} (x : Run α) (P : Failure → Prop) : Prop :=
  ∀ ⦃σ e σ'⦄, x σ = .error e σ' → P e

variable {α β : Type} {P : Failure → Prop}

theorem FailsOnly.bind {x : Run α} {f : α → Run β} (hx : FailsOnly x P)
    (hf : ∀ a, FailsOnly (f a) P) : FailsOnly (x >>= f) P := by
  intro σ e σ' hfail
  rcases run_bind_eq_error_iff.1 hfail with hfirst | ⟨a, σ₁, -, hsecond⟩
  · exact hx hfirst
  · exact hf a hsecond

theorem failsOnly_pure (a : α) : FailsOnly (pure a) P := by
  intro σ e σ' hfail
  cases hfail

theorem failsOnly_get : FailsOnly get P := by
  intro σ e σ' hfail
  cases hfail

theorem failsOnly_set (σ₀ : Session) : FailsOnly (set σ₀) P := by
  intro σ e σ' hfail
  cases hfail

theorem failsOnly_throw {failure : Failure} (h : P failure) :
    FailsOnly (throw failure : Run α) P := by
  intro σ e σ' hfail
  cases hfail
  exact h

theorem failsOnly_ofExcept {x : Except Failure α} (h : ∀ e, x = .error e → P e) :
    FailsOnly (ofExcept x) P := by
  cases x with
  | error e => exact failsOnly_throw (h e rfl)
  | ok a => exact failsOnly_pure a

/-- A step without failures. -/
theorem FailsOnly.ne_error {x : Run α} (h : FailsOnly x fun _ => False) (σ : Session) (e : Failure)
    (σ' : Session) : x σ ≠ .error e σ' :=
  fun hfail => h hfail

/-! ## Steps of a session -/

theorem failsOnly_report (r : LogRecord) : FailsOnly (report r) P := by
  intro σ e σ' hfail
  cases hfail

theorem failsOnly_reportAll (rs : List LogRecord) : FailsOnly (reportAll rs) P := by
  induction rs with
  | nil => exact failsOnly_pure ()
  | cons r rs ih => exact (failsOnly_report r).bind fun _ => ih

theorem failsOnly_readComponent (p : Path) (extensions : List String) :
    FailsOnly (readComponent p extensions) P :=
  failsOnly_get.bind fun _ => (failsOnly_reportAll _).bind fun _ => failsOnly_pure _

theorem failsOnly_readStyle (p : Path) : FailsOnly (readStyle p) P :=
  failsOnly_get.bind fun _ => (failsOnly_reportAll _).bind fun _ => failsOnly_pure _

/-- Reports never fail. -/
theorem exists_reportAll_eq_ok (rs : List LogRecord) (σ : Session) :
    ∃ σ', reportAll rs σ = .ok () σ' := by
  cases hreport : reportAll rs σ with
  | ok a σ' => exact ⟨σ', rfl⟩
  | error e σ' => exact absurd hreport ((failsOnly_reportAll rs).ne_error σ e σ')

theorem exists_readComponent_eq_ok (p : Path) (extensions : List String) (σ : Session) :
    ∃ σ', readComponent p extensions σ = .ok (componentIn σ.disk σ.cwd p extensions).1 σ' := by
  rcases exists_reportAll_eq_ok (componentIn σ.disk σ.cwd p extensions).2 σ with ⟨σ', hreport⟩
  exact ⟨σ', run_bind_eq_ok_iff.2 ⟨σ, σ, rfl, run_bind_eq_ok_iff.2 ⟨(), σ', hreport, rfl⟩⟩⟩

theorem failsOnly_writeValue (hdisk : ∀ e, P (.disk e)) (hliteral : ∀ e, P (.literal e)) (p : Path)
    (v : Value) : FailsOnly (writeValue p v) P := by
  unfold writeValue
  cases v.prettyText with
  | error e => exact failsOnly_throw (hliteral e)
  | ok text =>
    refine failsOnly_get.bind fun s => ?_
    cases s.disk.write s.cwd p (Text.encode (text ++ "\n").toList) with
    | ok disk => exact failsOnly_set _
    | error e => exact failsOnly_throw (hdisk e)

theorem failsOnly_makePath (hdisk : ∀ e, P (.disk e)) (p : Path) : FailsOnly (makePath p) P := by
  refine failsOnly_get.bind fun s => ?_
  rcases s.disk.makePath s.cwd p with ⟨disk, error⟩
  refine (failsOnly_set _).bind fun _ => ?_
  cases error with
  | none => exact failsOnly_pure ()
  | some e => exact failsOnly_throw (hdisk e)

/-- What is asked of the disk fails for a fault of the disk, if at all. -/
theorem failsOnly_ofDisk (hdisk : ∀ e, P (.disk e)) (x : Except DiskError α) :
    FailsOnly (ofExcept (x.mapError Failure.disk)) P := by
  refine failsOnly_ofExcept fun e he => ?_
  rcases mapError_eq_error_iff.1 he with ⟨fault, -, rfl⟩
  exact hdisk fault

end Run

/-! ## Builds -/

namespace Build

open Run

/-- The failures a build can end in. -/
def Arises : Failure → Prop
  | .disk _ => True
  | .glob _ => True
  | .literal _ => True
  | .noHome => True
  | .settings _ => False
  | .undecodable => False
  | .scalar _ => False

theorem failsOnly_importedStyles (component : Path) (imports : List String) :
    FailsOnly (importedStyles component imports) Arises := by
  induction imports with
  | nil => exact failsOnly_pure _
  | cons styleImport rest ih =>
    have hone : FailsOnly (importedStyle component styleImport) Arises := by
      refine failsOnly_get.bind fun s => ?_
      refine (failsOnly_ofDisk (fun _ => trivial) _).bind fun isThere => ?_
      cases isThere with
      | true =>
        exact (failsOnly_readStyle _).bind fun _ => (failsOnly_report _).bind fun _ =>
          failsOnly_pure _
      | false => exact (failsOnly_report _).bind fun _ => failsOnly_pure _
    exact hone.bind fun _ => ih.bind fun _ => failsOnly_pure _

theorem failsOnly_examples (s : Settings) (c : Component) : FailsOnly (examples s c) Arises := by
  unfold examples
  dsimp only
  split
  · exact (failsOnly_reportAll _).bind fun _ => failsOnly_pure _
  · exact failsOnly_throw trivial

theorem failsOnly_documentFile (s : Settings) (path : Path) :
    FailsOnly (documentFile s path) Arises := by
  refine (failsOnly_report _).bind fun _ => (failsOnly_readComponent _ _).bind fun found => ?_
  cases found with
  | none => exact (failsOnly_report _).bind fun _ => failsOnly_pure _
  | some component =>
    exact (failsOnly_importedStyles _ _).bind fun _ => (failsOnly_examples _ _).bind fun _ =>
      (failsOnly_report _).bind fun _ => failsOnly_pure _

theorem failsOnly_buildFiles (s : Settings) (directory : Path) (files : List Path) :
    FailsOnly (buildFiles s directory files) Arises := by
  induction files with
  | nil => exact failsOnly_pure _
  | cons path rest ih =>
    refine (failsOnly_documentFile s path).bind fun found => ?_
    cases found with
    | none => exact ih.bind fun _ => failsOnly_pure _
    | some record =>
      exact (failsOnly_writeValue (fun _ => trivial) (fun _ => trivial) _ _).bind fun _ =>
        (failsOnly_report _).bind fun _ => ih.bind fun _ => failsOnly_pure _

/-- A tilde before an unknown name is all that can be wrong with a directory. -/
theorem expandHome_eq_error {env : Environment} {p : Path} {e : Failure}
    (h : p.expandHome env = .error e) : e = .noHome := by
  unfold Path.expandHome at h
  split at h
  · split at h
    · dsimp only at h
      split at h
      · cases h
      · cases h
        rfl
    · cases h
  · cases h

theorem outputDirectory_eq_error {env : Environment} {s : Settings} {e : Failure}
    (h : s.outputDirectory env = .error e) : e = .noHome :=
  expandHome_eq_error (bind_pure_eq_error_iff.1 h)

theorem recordsDirectory_eq_error {env : Environment} {s : Settings} {e : Failure}
    (h : recordsDirectory env s = .error e) : e = .noHome :=
  outputDirectory_eq_error (bind_pure_eq_error_iff.1 h)

/-- A build has its settings, so it fails for other reasons. -/
theorem failsOnly_build (env : Environment) (s : Settings) : FailsOnly (build env s) Arises := by
  have hdirectory : FailsOnly (ofExcept (recordsDirectory env s)) Arises := by
    refine failsOnly_ofExcept fun e he => ?_
    rw [recordsDirectory_eq_error he]
    exact trivial
  refine hdirectory.bind fun directory => ?_
  refine (failsOnly_makePath (fun _ => trivial) directory).bind fun _ => ?_
  refine failsOnly_get.bind fun start => ?_
  have hfiles : FailsOnly (ofExcept (discover start.disk s)) Arises := by
    refine failsOnly_ofExcept fun e he => ?_
    rcases discover_eq_error he with ⟨fault, rfl⟩ | ⟨fault, rfl⟩
    · exact trivial
    · exact trivial
  refine hfiles.bind fun files => (failsOnly_report _).bind fun _ => ?_
  refine (failsOnly_buildFiles _ _ _).bind fun found => ?_
  exact (failsOnly_writeValue (fun _ => trivial) (fun _ => trivial) _ _).bind fun _ =>
    (failsOnly_report _).bind fun _ => failsOnly_pure _

end Build
end PropCatalog
