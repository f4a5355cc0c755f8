import PropCatalog.Catalog.Session
import PropCatalog.Proofs.Disk
import PropCatalog.Proofs.Value.Writable

/-!
# Sessions — what steps leave alone

Most steps of a session read files and report. Reports only ever add bytes to the log file, so such
a step leaves every other file as it is; the steps that write leave the directories as they are.

- `Session.Leads`, `Session.LogsTo` : where a path and the log file lead
- `Session.Holds`    : the file at a path has the text of a value
- `Session.Follows`  : the same directories, and the same log file
- `Session.Reported` : nothing happened but reports
- `Run.Quiet`        : steps that only report
- `Run.writeValue_eq_ok` : what a written value does to a disk
-/

namespace PropCatalog

/-! ## Where paths lead -/

/-- The bytes of the file that a value is written to. -/
def valueBytes (v : Value) : List UInt8 :=
  Text.encode (v.pretty ++ "\n").toList

namespace Session

/-- A path leads to a location. -/
def Leads (σ : Session) (p : Path) (loc : Location) : Prop :=
  σ.disk.locate σ.cwd p = .ok loc

/-- The log file is at a location. -/
def LogsTo (σ : Session) (loc : Location) : Prop :=
  ∃ file, σ.logFile = some file ∧ σ.disk.locate [] file.path = .ok loc

instance (σ : Session) (p : Path) (loc : Location) : Decidable (σ.Leads p loc) :=
  inferInstanceAs (Decidable (σ.disk.locate σ.cwd p = .ok loc))

instance (σ : Session) (loc : Location) : Decidable (σ.LogsTo loc) :=
  inferInstanceAs (Decidable (∃ file, σ.logFile = some file ∧ σ.disk.locate [] file.path = .ok loc))

/-- A later session in which all paths lead where they led. -/
structure Follows (σ σ' : Session) : Prop where
  cwd : σ'.cwd = σ.cwd
  logFile : σ'.logFile = σ.logFile
  directories : Disk.SameDirectories σ.disk σ'.disk

namespace Follows

variable {σ σ' σ'' : Session}

theorem refl (σ : Session) : Follows σ σ :=
  ⟨rfl, rfl, Disk.SameDirectories.refl σ.disk⟩

theorem trans (h : Follows σ σ') (h' : Follows σ' σ'') : Follows σ σ'' :=
  ⟨h'.cwd.trans h.cwd, h'.logFile.trans h.logFile, h.directories.trans h'.directories⟩

theorem leads_iff (h : Follows σ σ') (p : Path) (loc : Location) :
    σ'.Leads p loc ↔ σ.Leads p loc := by
  unfold Leads
  rw [h.cwd]
  exact Disk.locate_eq_ok_iff h.directories σ.cwd p loc

theorem logsTo_iff (h : Follows σ σ') (loc : Location) : σ'.LogsTo loc ↔ σ.LogsTo loc := by
  simp only [LogsTo, h.logFile, Disk.locate_eq_ok_iff h.directories]

end Follows

/-- The file at a path holds a value: its bytes are those of the text of the value. -/
def Holds (σ : Session) (p : Path) (v : Value) : Prop :=
  ∃ loc, σ.Leads p loc ∧ σ.disk.entryAt? loc = some (.file (valueBytes v))

/-! ## Reports -/

/-- Nothing happened at a location, or only reports to the log file. -/
structure Kept (σ σ' : Session) (loc : Location) : Prop where
  grows : Disk.GrowsAt σ.disk σ'.disk loc
  unlogged : ¬ σ.LogsTo loc → Disk.SameAt σ.disk σ'.disk loc

theorem kept_of_sameAt {σ σ' : Session} {loc : Location}
    (h : Disk.SameAt σ.disk σ'.disk loc) : Kept σ σ' loc :=
  ⟨h.growsAt, fun _ => h⟩

theorem Kept.trans {σ σ' σ'' : Session} {loc : Location} (hfollows : Follows σ σ')
    (h : Kept σ σ' loc) (h' : Kept σ' σ'' loc) : Kept σ σ'' loc := by
  refine ⟨h.grows.trans h'.grows, ?_⟩
  intro hlog
  -- The log file is in the same place in both sessions.
  have hlog' : ¬ σ'.LogsTo loc := fun hmem => hlog ((hfollows.logsTo_iff loc).1 hmem)
  exact (h.unlogged hlog).trans (h'.unlogged hlog')

/-- Nothing happened but reports. -/
structure Reported (σ σ' : Session) : Prop where
  cwd : σ'.cwd = σ.cwd
  logFile : σ'.logFile = σ.logFile
  kept : ∀ loc, Kept σ σ' loc

namespace Reported

variable {σ σ' σ'' : Session}

theorem refl (σ : Session) : Reported σ σ :=
  ⟨rfl, rfl, fun loc => kept_of_sameAt (Disk.SameAt.refl σ.disk loc)⟩

theorem follows (h : Reported σ σ') : Follows σ σ' :=
  ⟨h.cwd, h.logFile, Disk.sameDirectories_of_growsAt fun loc => (h.kept loc).grows⟩

theorem trans (h : Reported σ σ') (h' : Reported σ' σ'') : Reported σ σ'' :=
  ⟨h'.cwd.trans h.cwd, h'.logFile.trans h.logFile, fun loc =>
    (h.kept loc).trans h.follows (h'.kept loc)⟩

end Reported

end Session

/-! ## Steps that only report -/

namespace Run

open Session

/-- A step that does nothing but report when it succeeds. -/
def Quiet {α : Type} (x : Run α) : Prop :=
  ∀ ⦃σ a σ'⦄, x σ = .ok a σ' → Reported σ σ'

theorem quiet_pure {α : Type} (a : α) : Quiet (pure a) := by
  intro σ b σ' h
  cases h
  exact Reported.refl _

theorem quiet_get : Quiet get := by
  intro σ b σ' h
  cases h
  exact Reported.refl _

theorem quiet_throw {α : Type} (e : Failure) : Quiet (throw e : Run α) := by
  intro σ b σ' h
  cases h

theorem quiet_ofExcept {α : Type} (x : Except Failure α) : Quiet (ofExcept x) := by
  intro σ a σ' h
  rw [(run_ofExcept_eq_ok_iff.1 h).2]
  exact Reported.refl _

theorem Quiet.bind {α β : Type} {x : Run α} {f : α → Run β} (hx : Quiet x)
    (hf : ∀ a, Quiet (f a)) : Quiet (x >>= f) := by
  intro σ b σ' h
  rcases run_bind_eq_ok_iff.1 h with ⟨a, σ₁, hfirst, hrest⟩
  exact (hx hfirst).trans (hf a hrest)

/-- What a report adds to the log file. -/
def recordBytes (file : LogFile) (r : LogRecord) : List UInt8 :=
  Text.encode (file.stamp ++ r.line ++ "\n").toList

/-- A record that the log file shows is added to it, unless a directory is in the way. -/
theorem appendRecord_of_shown {d : Disk} {file : LogFile} {r : LogRecord} {loc : Location}
    (hshown : file.level.rank ≤ r.level.rank) (hloc : d.locate [] file.path = .ok loc)
    (hfile : d.entryAt? loc ≠ some .directory) :
    appendRecord d file r = d.putFile loc (d.bytesAt loc ++ recordBytes file r) := by
  rw [appendRecord, if_neg (Nat.not_lt.2 hshown), ← recordBytes, Disk.bytesAt]
  cases hentry : d.entryAt? loc with
  | none => simp [hloc, hentry]
  | some entry =>
    cases entry with
    | directory => exact absurd hentry hfile
    | file bytes => simp [hloc, hentry]

/-- A report adds bytes to the log file, or leaves the disk as it is. -/
theorem appendRecord_cases (d : Disk) (file : LogFile) (r : LogRecord) :
    appendRecord d file r = d ∨
      ∃ loc, d.locate [] file.path = .ok loc ∧ d.entryAt? loc ≠ some .directory ∧
        appendRecord d file r = d.putFile loc (d.bytesAt loc ++ recordBytes file r) := by
  by_cases hlevel : r.level.rank < file.level.rank
  · exact .inl (by simp [appendRecord, hlevel])
  cases hloc : d.locate [] file.path with
  | error fault => exact .inl (by simp [appendRecord, hlevel, hloc])
  | ok loc =>
    by_cases hfile : d.entryAt? loc = some .directory
    · exact .inl (by simp [appendRecord, hlevel, hloc, hfile])
    · exact .inr ⟨loc, rfl, hfile, appendRecord_of_shown (Nat.not_lt.1 hlevel) hloc hfile⟩

theorem recordBytes_ne_nil (file : LogFile) (r : LogRecord) : recordBytes file r ≠ [] := by
  simp [recordBytes, Text.encode, String.utf8EncodeChar_ne_nil]

theorem report_eq_ok {r : LogRecord} {σ σ' : Session} {u : Unit} (h : report r σ = .ok u σ') :
    σ'.cwd = σ.cwd ∧ σ'.logFile = σ.logFile ∧
      σ'.disk = match σ.logFile with
        | some file => appendRecord σ.disk file r
        | none => σ.disk := by
  cases h
  exact ⟨rfl, rfl, rfl⟩

theorem quiet_report (r : LogRecord) : Quiet (report r) := by
  intro σ a σ' h
  rcases report_eq_ok h with ⟨hcwd, hlogFile, hdisk⟩
  refine ⟨hcwd, hlogFile, ?_⟩
  intro at_
  have hkept : σ'.disk = σ.disk → Kept σ σ' at_ := by
    intro hsame
    exact kept_of_sameAt (hsame ▸ Disk.SameAt.refl σ.disk at_)
  cases hlog : σ.logFile with
  | none => exact hkept (by rw [hdisk, hlog])
  | some file =>
    rw [hlog] at hdisk
    rcases appendRecord_cases σ.disk file r with hsame | ⟨loc, hloc, hfile, hput⟩
    · exact hkept (hdisk.trans hsame)
    · -- The only location that is written to is that of the log file.
      have hdisk' := hdisk.trans hput
      refine ⟨?_, ?_⟩
      · rw [hdisk']
        exact Disk.growsAt_putFile_append σ.disk hfile _ at_
      · intro hunlogged
        have hne : at_ ≠ loc := by
          intro heq
          exact hunlogged ⟨file, hlog, heq ▸ hloc⟩
        rw [hdisk']
        exact Disk.sameAt_putFile σ.disk hfile hne _

theorem quiet_reportAll (rs : List LogRecord) : Quiet (reportAll rs) := by
  induction rs with
  | nil => exact quiet_pure ()
  | cons r rs ih => exact (quiet_report r).bind fun _ => ih

theorem quiet_readComponent (p : Path) (extensions : List String) :
    Quiet (readComponent p extensions) :=
  quiet_get.bind fun _ => (quiet_reportAll _).bind fun _ => quiet_pure _

theorem quiet_readStyle (p : Path) : Quiet (readStyle p) :=
  quiet_get.bind fun _ => (quiet_reportAll _).bind fun _ => quiet_pure _

end Run

/-! ## Steps that write -/

/-- A value is written where its path leads, if it has a text and can be written there. -/
theorem Run.writeValue_eq_ok {p : Path} {v : Value} {σ σ' : Session} {u : Unit}
    (h : Run.writeValue p v σ = .ok u σ') :
    ∃ loc, σ.Leads p loc ∧ σ.disk.entryAt? loc ≠ some .directory ∧
      σ' = { σ with disk := σ.disk.putFile loc (valueBytes v) } := by
  unfold Run.writeValue at h
  cases htext : v.prettyText with
  | error e =>
    rw [htext] at h
    cases h
  | ok text =>
    rw [htext] at h
    rcases run_bind_eq_ok_iff.1 h with ⟨s, σ₁, hget, hrest⟩
    cases hget
    rw [← (Value.prettyText_eq_ok_iff.1 htext).2, ← valueBytes] at hrest
    cases hwrite : σ.disk.write σ.cwd p (valueBytes v) with
    | error e =>
      rw [hwrite] at hrest
      cases hrest
    | ok d =>
      rw [hwrite] at hrest
      cases hrest
      -- Writing forgets the bytes that were there, which is `modify` by a constant function.
      rcases (Disk.modify_eq_ok_iff _ _ _ _ _).1 hwrite with ⟨loc, hloc, hcan, rfl⟩
      exact ⟨loc, hloc, hcan.not_directory, rfl⟩

namespace Run

open Session

variable {p : Path} {v : Value} {σ σ' : Session} {u : Unit} {loc : Location}

theorem follows_of_writeValue (h : writeValue p v σ = .ok u σ') : Follows σ σ' := by
  rcases writeValue_eq_ok h with ⟨loc, -, hfile, rfl⟩
  exact ⟨rfl, rfl, Disk.sameDirectories_putFile σ.disk hfile _⟩

theorem kept_of_writeValue (h : writeValue p v σ = .ok u σ') (hloc : ¬ σ.Leads p loc) :
    Kept σ σ' loc := by
  rcases writeValue_eq_ok h with ⟨loc', hleads, hfile, rfl⟩
  have hne : loc ≠ loc' := by
    intro heq
    exact hloc (heq ▸ hleads)
  exact kept_of_sameAt (Disk.sameAt_putFile σ.disk hfile hne _)

end Run

end PropCatalog
