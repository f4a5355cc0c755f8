import PropCatalog.Command.Run
import PropCatalog.Proofs.Catalog.Failures

/-!
# Failures of a command line — which are handled and which are passed on

A command line opens its log file, loads the settings and builds a catalog, or it inspects a single
component. The handlers around these steps cover some of their failures only.

- `Settings.load_eq_disk_iff` : loading settings fails on the disk exactly if they are `Blocked`
- `Command.buildTask_eq`      : a build with its handlers, by what its steps end in
- `Command.Obstructed`        : the tasks that pass on a failure of the disk
- `execute_failures`          : mistakes in the settings and disk failures during a build end with
  code one; a log file that cannot be opened and files out of reach are passed on
-/

namespace PropCatalog

/-! ## Settings -/

namespace Settings

open Build

/-- Settings that are out of reach: it cannot be told where their file is or whether it is there, or
the file cannot be read. -/
inductive Blocked (env : Environment) (d : Disk) (p : Path) : Prop
  | lost {q : Path} : p.expandHome env = .ok q → d.Unknowable env.cwd q → Blocked env d p
  | hidden {file : Path} : fileFor env d p = .ok file → d.Unknowable [] file → Blocked env d p
  | unreadable {file : Path} : fileFor env d p = .ok file → d.Unreadable [] file → Blocked env d p

theorem fileFor_congr {d d' : Disk} (h : Disk.SameDirectories d d') (env : Environment)
    (p : Path) : fileFor env d' p = fileFor env d p := by
  unfold fileFor
  cases p.expandHome env with
  | error e => rfl
  | ok q =>
    have hsame := Disk.isDirectory_congr h env.cwd q
    simp only [bind, Except.bind, hsame]

/-- Settings that are out of reach stay so on a disk with the same directories on which nothing more
can be read. -/
theorem Blocked.of_same {d d' : Disk} (h : Disk.SameDirectories d d')
    (hread : ∀ file, d.Unreadable [] file → d'.Unreadable [] file) {env : Environment} {p : Path}
    (hblocked : Blocked env d p) : Blocked env d' p := by
  cases hblocked with
  | lost hexpand hlost => exact .lost hexpand ((Disk.unknowable_congr h _ _).2 hlost)
  | hidden hfile hhidden =>
    exact .hidden ((fileFor_congr h env p).trans hfile) ((Disk.unknowable_congr h _ _).2 hhidden)
  | unreadable hfile hunreadable =>
    exact .unreadable ((fileFor_congr h env p).trans hfile) (hread _ hunreadable)

/-- Asking the disk fails exactly if it cannot be told what is there. -/
theorem exists_asked_eq_disk_iff {α : Type} (d : Disk) (cwd : Location) (p : Path)
    (f : Option DiskEntry → α) :
    (∃ e, ((d.lookup cwd p).map f).mapError Failure.disk = .error (.disk e)) ↔
      d.Unknowable cwd p := by
  rw [← Disk.exists_lookup_eq_error_iff d cwd p f]
  simp [mapError_eq_error_iff]

theorem fileFor_eq_disk_iff {env : Environment} {d : Disk} {p : Path} :
    (∃ e, fileFor env d p = .error (.disk e)) ↔
      ∃ q, p.expandHome env = .ok q ∧ d.Unknowable env.cwd q := by
  unfold fileFor
  cases hexpand : p.expandHome env with
  | error failure =>
    have hhome : failure = .noHome := expandHome_eq_error hexpand
    simp [bind, Except.bind, hhome]
  | ok q =>
    simp only [Except.ok.injEq, exists_eq_left', ← exists_asked_eq_disk_iff d env.cwd q
      (· == some .directory)]
    exact exists_congr fun e => bind_pure_eq_error_iff

/-- Reading settings fails on the disk exactly if their text cannot be read. -/
theorem readFile_eq_disk_iff {d : Disk} {file : Path} {e : DiskError} :
    readFile d file = .error (.disk e) ↔ d.readText [] file = .error (.disk e) := by
  unfold readFile
  cases hread : d.readText [] file with
  | error fault => cases fault <;> simp
  | ok text =>
    constructor
    · intro h
      dsimp only at h
      -- A text that was read is a document, or it is refused for what it says.
      split at h
      · cases h
      · split at h <;> cases h
    · intro h
      cases h

/-- A document that was read is refused for what it says, if at all. -/
theorem ofDatum_ne_disk (root : Path) (datum : Yaml.Datum) (e : DiskError) :
    (ofDatum root datum).mapError Failure.ofSettings ≠ .error (.disk e) := by
  intro h
  rcases mapError_eq_error_iff.1 h with ⟨fault, -, hfault⟩
  cases fault <;> cases hfault

/-- Loading settings fails on the disk exactly if they are out of reach. -/
theorem load_eq_disk_iff {env : Environment} {d : Disk} {p : Path} :
    (∃ e, load env d p = .error (.disk e)) ↔ Blocked env d p := by
  constructor
  · rintro ⟨e, h⟩
    -- The disk is asked three times: where the file is, whether it is there, and what is in it.
    rcases bind_eq_error_iff.1 h with hlost | ⟨file, hfile, h⟩
    · rcases fileFor_eq_disk_iff.1 ⟨e, hlost⟩ with ⟨q, hexpand, hunknowable⟩
      exact .lost hexpand hunknowable
    rcases bind_eq_error_iff.1 h with hhidden | ⟨isThere, hhas, h⟩
    · exact .hidden hfile ((exists_asked_eq_disk_iff d [] file _).1 ⟨e, hhidden⟩)
    cases isThere with
    | false => cases h
    | true =>
      rcases bind_eq_error_iff.1 h with hread | ⟨datum, -, h⟩
      · have hunreadable := (Disk.readText_eq_disk_iff (mapError_eq_ok_iff.1 hhas)).1
          ⟨e, readFile_eq_disk_iff.1 hread⟩
        exact .unreadable hfile hunreadable
      · exact absurd h (ofDatum_ne_disk file.parent datum e)
  · rintro (⟨hexpand, hlost⟩ | ⟨hfile, hhidden⟩ | ⟨hfile, hunreadable⟩)
    · rcases fileFor_eq_disk_iff.2 ⟨_, hexpand, hlost⟩ with ⟨e, hfail⟩
      exact ⟨e, bind_eq_error_iff.2 (.inl hfail)⟩
    · rcases (exists_asked_eq_disk_iff d [] _ _).2 hhidden with ⟨e, hfail⟩
      exact ⟨e, bind_eq_error_iff.2 (.inr ⟨_, hfile, bind_eq_error_iff.2 (.inl hfail)⟩)⟩
    · -- What cannot be read is there, so that reading it is tried.
      have hhas := Disk.has_of_unreadable hunreadable
      rcases (Disk.readText_eq_disk_iff hhas).2 hunreadable with ⟨e, hfail⟩
      refine ⟨e, bind_eq_error_iff.2 (.inr ⟨_, hfile, bind_eq_error_iff.2 (.inr ⟨true, ?_, ?_⟩)⟩)⟩
      · exact mapError_eq_ok_iff.2 hhas
      · exact bind_eq_error_iff.2 (.inl (readFile_eq_disk_iff.2 hfail))

end Settings

/-! ## Tasks -/

namespace Command

open Run Build

/-- The settings with the directory that a command line asks for. -/
def redirected (s : Settings) (output : Option String) : Settings :=
  match output.filter (· != "") with
  | some directory => { s with directory }
  | none => s

/-- A build and its summary. -/
def summarizedBuild (env : Environment) (s : Settings) : Run Outcome := do
  let result ← build env s
  let directory ← ofExcept (s.outputDirectory env)
  return { stdout := result.totals.summary ++ " in " ++ shownPath env directory ++ "\n" }

/-- What is printed when the disk fails during a build. -/
def buildFailed (e : DiskError) : Outcome :=
  failed ("docspark build failed: " ++ e.message ++ "\nRun with --verbose for more details.")

/-- A build as it is run: failures of the disk are caught. Its steps are written out as in
`buildTask`, since a handler takes them in that form. -/
def guardedBuild (env : Environment) (s : Settings) : Run Outcome := do
  try
    let result ← build env s
    let directory ← ofExcept (s.outputDirectory env)
    return { stdout := result.totals.summary ++ " in " ++ shownPath env directory ++ "\n" }
  catch
    | .disk e => return buildFailed e
    | e => throw e

theorem guardedBuild_eq (env : Environment) (s : Settings) (σ : Session) :
    guardedBuild env s σ =
      match summarizedBuild env s σ with
      | .error (.disk e) σ' => .ok (buildFailed e) σ'
      | .error e σ' => .error e σ'
      | .ok outcome σ' => .ok outcome σ' := by
  simp only [guardedBuild, summarizedBuild, tryCatch, tryCatchThe, MonadExceptOf.tryCatch,
    EStateM.tryCatch, bind, EStateM.bind]
  -- The summary is inside the handler, and finding its directory may fail too.
  cases build env s σ with
  | error e σ' => cases e <;> rfl
  | ok result σ' =>
    cases s.outputDirectory env with
    | error e => cases e <;> rfl
    | ok directory => rfl

theorem get_apply (σ : Session) : (EStateM.get : Run Session) σ = .ok σ σ := rfl

/-- What a build task does, by what loading the settings and building end in. -/
theorem buildTask_eq (env : Environment) (path : String) (output : Option String) (σ : Session) :
    buildTask env path output σ =
      match Settings.load env σ.disk (Path.ofString path) with
      | .error (.settings e) => .ok (failed ("Invalid configuration: " ++ e.message)) σ
      | .error e => .error e σ
      | .ok s =>
        match summarizedBuild env (redirected s output) σ with
        | .error (.disk e) σ' => .ok (buildFailed e) σ'
        | .error e σ' => .error e σ'
        | .ok outcome σ' => .ok outcome σ' := by
  unfold buildTask redirected
  simp only [bind, EStateM.bind, get, getThe, MonadStateOf.get, get_apply]
  cases Settings.load env σ.disk (Path.ofString path) with
  | error e => cases e <;> rfl
  | ok s =>
    cases output.filter (· != "") with
    | none => exact guardedBuild_eq env s σ
    | some directory => exact guardedBuild_eq env { s with directory } σ

theorem failsOnly_summarizedBuild (env : Environment) (s : Settings) :
    FailsOnly (summarizedBuild env s) Arises := by
  refine (failsOnly_build env s).bind fun result => ?_
  have hdirectory : FailsOnly (ofExcept (s.outputDirectory env)) Arises := by
    refine failsOnly_ofExcept fun e he => ?_
    rw [outputDirectory_eq_error he]
    exact trivial
  exact hdirectory.bind fun _ => failsOnly_pure _

/-- A build task passes on no mistake in the settings, and a failure of the disk exactly if it comes
from loading them. -/
theorem buildTask_eq_error {env : Environment} {path : String} {output : Option String}
    {σ σ' : Session} {e : Failure} (h : buildTask env path output σ = .error e σ') :
    (∀ mistake, e ≠ .settings mistake) ∧
      ∀ fault, e = .disk fault → Settings.load env σ.disk (Path.ofString path) = .error e := by
  rw [buildTask_eq] at h
  cases hload : Settings.load env σ.disk (Path.ofString path) with
  | error failure =>
    rw [hload] at h
    cases failure <;> cases h <;> simp
  | ok s =>
    rw [hload] at h
    cases hbuild : summarizedBuild env (redirected s output) σ with
    | ok outcome σ₁ =>
      simp only [hbuild] at h
      cases h
    | error failure σ₁ =>
      have harises := failsOnly_summarizedBuild env (redirected s output) hbuild
      simp only [hbuild] at h
      -- What is left after the handler is neither of the disk nor of the settings.
      cases failure <;> cases h <;> simp_all [Arises]

theorem buildTask_eq_disk_iff {env : Environment} {path : String} {output : Option String}
    {σ : Session} :
    (∃ e σ', buildTask env path output σ = .error (.disk e) σ') ↔
      Settings.Blocked env σ.disk (Path.ofString path) := by
  rw [← Settings.load_eq_disk_iff]
  constructor
  · rintro ⟨e, σ', h⟩
    exact ⟨e, (buildTask_eq_error h).2 e rfl⟩
  · rintro ⟨e, hload⟩
    exact ⟨e, σ, by rw [buildTask_eq, hload]⟩

/-- An inspection fails where it is asked whether the file is there, or for an example that cannot
be made. -/
theorem inspectTask_eq_error {file : String} {n : Int} {σ σ' : Session} {e : Failure}
    (h : inspectTask file n σ = .error e σ') :
    (∃ fault, σ.disk.isFile σ.cwd (Path.ofString file) = .error fault ∧ e = .disk fault) ∨
      ∃ fault, e = .literal fault := by
  -- The steps are taken off the front; those that only read and report do not fail.
  rcases run_bind_eq_error_iff.1 h with hget | ⟨_, _, hget, h⟩
  · cases hget
  cases hget
  rcases run_bind_eq_error_iff.1 h with hasked | ⟨isThere, σ₁, -, h⟩
  · rcases mapError_eq_error_iff.1 (run_ofExcept_eq_error_iff.1 hasked).1 with ⟨fault, hfault, rfl⟩
    exact .inl ⟨fault, hfault, rfl⟩
  refine .inr ?_
  cases isThere with
  | false => cases h
  | true =>
    rcases run_bind_eq_error_iff.1 h with hread | ⟨found, σ₂, -, h⟩
    · exact absurd hread ((failsOnly_readComponent _ _).ne_error _ _ _)
    cases found with
    | none => cases h
    | some c =>
      dsimp only at h
      cases hvariants : variants { maxPermutations := n } c with
      | error fault =>
        rw [hvariants] at h
        cases h
        exact ⟨fault, rfl⟩
      | ok made =>
        rw [hvariants] at h
        rcases run_bind_eq_error_iff.1 h with hreport | ⟨_, σ₃, -, h⟩
        · exact absurd hreport ((failsOnly_reportAll _).ne_error _ _ _)
        generalize Value.prettyText _ = text at h
        cases text with
        | error fault =>
          cases h
          exact ⟨fault, rfl⟩
        | ok text => cases h

theorem inspectTask_eq_disk_iff {file : String} {n : Int} {σ : Session} :
    (∃ e σ', inspectTask file n σ = .error (.disk e) σ') ↔
      σ.disk.Unknowable σ.cwd (Path.ofString file) := by
  rw [← Disk.exists_lookup_eq_error_iff]
  constructor
  · rintro ⟨e, σ', h⟩
    rcases inspectTask_eq_error h with ⟨fault, hfault, -⟩ | ⟨fault, hfault⟩
    · exact ⟨fault, hfault⟩
    · cases hfault
  · rintro ⟨fault, hfault⟩
    refine ⟨fault, σ, run_bind_eq_error_iff.2 (.inr ⟨σ, σ, rfl, run_bind_eq_error_iff.2 (.inl ?_)⟩)⟩
    exact run_ofExcept_eq_error_iff.2 ⟨mapError_eq_error_iff.2 ⟨fault, hfault, rfl⟩, rfl⟩

/-- A task whose files are out of reach. -/
inductive Obstructed (env : Environment) (disk : Disk) : Task → Prop
  /-- The settings cannot be found or read. -/
  | build {path : String} {output : Option String} :
      Settings.Blocked env disk (Path.ofString path) → Obstructed env disk (.build path output)
  /-- It cannot be told whether the file is there. -/
  | inspect {file : String} {n : Int} :
      disk.Unknowable env.cwd (Path.ofString file) → Obstructed env disk (.inspect file n)

theorem Obstructed.of_same {d d' : Disk} (h : Disk.SameDirectories d d')
    (hread : ∀ file, d.Unreadable [] file → d'.Unreadable [] file) {env : Environment} {task : Task}
    (hobstructed : Obstructed env d task) : Obstructed env d' task := by
  cases hobstructed with
  | build hblocked => exact .build (hblocked.of_same h hread)
  | inspect hunknowable => exact .inspect ((Disk.unknowable_congr h _ _).2 hunknowable)

/-- A task passes on a failure of the disk exactly if its files are out of reach. -/
theorem runTask_eq_disk_iff {env : Environment} {task : Task} {σ : Session}
    (hcwd : σ.cwd = env.cwd) :
    (∃ e σ', runTask env task σ = .error (.disk e) σ') ↔ Obstructed env σ.disk task := by
  cases task with
  | build path output =>
    refine buildTask_eq_disk_iff.trans ⟨.build, fun h => ?_⟩
    cases h with
    | build hblocked => exact hblocked
  | inspect file n =>
    refine inspectTask_eq_disk_iff.trans ?_
    rw [hcwd]
    refine ⟨.inspect, fun h => ?_⟩
    cases h with
    | inspect hunknowable => exact hunknowable

theorem runTask_ne_settings (env : Environment) (task : Task) (mistake : SettingsError)
    (σ σ' : Session) : runTask env task σ ≠ .error (.settings mistake) σ' := by
  intro h
  cases task with
  | build path output => exact (buildTask_eq_error h).1 mistake rfl
  | inspect file n =>
    rcases inspectTask_eq_error h with ⟨fault, -, hfault⟩ | ⟨fault, hfault⟩ <;> cases hfault

/-! ## Whole command lines -/

/-- The log file of an invocation cannot be opened: its path leads nowhere, or to where no file can
be written. -/
def LogRefused (env : Environment) (i : Invocation) (disk : Disk) : Prop :=
  ∃ file, logFileOf env i = some file ∧
    ∀ loc, disk.locate env.cwd file.path = .ok loc → ¬ disk.CanWrite loc

/-- The session in which the task of an invocation is carried out: its log file is open. -/
def Opened (env : Environment) (i : Invocation) (disk : Disk) (σ : Session) : Prop :=
  openLog env i { disk, cwd := env.cwd } = .ok () σ

/-- Opening a log file writes an empty file, or leaves the bytes of a file as they are. -/
structure Prepared (env : Environment) (disk : Disk) (σ : Session) : Prop where
  cwd : σ.cwd = env.cwd
  log : σ.log = []
  directories : Disk.SameDirectories disk σ.disk
  unreadable_iff : ∀ cwd p, σ.disk.Unreadable cwd p ↔ disk.Unreadable cwd p

theorem Opened.prepared {env : Environment} {i : Invocation} {disk : Disk} {σ : Session}
    (h : Opened env i disk σ) : Prepared env disk σ := by
  unfold Opened openLog at h
  cases hfile : logFileOf env i with
  | none =>
    rw [hfile] at h
    cases h
    exact ⟨rfl, rfl, Disk.SameDirectories.refl disk, fun _ _ => .rfl⟩
  | some file =>
    rw [hfile] at h
    rcases run_bind_eq_ok_iff.1 h with ⟨s, σ₁, hget, h⟩
    cases hget
    cases happend : disk.append env.cwd file.path [] with
    | error e =>
      simp only [happend] at h
      cases h
    | ok disk' =>
      simp only [happend] at h
      cases h
      rcases (Disk.modify_eq_ok_iff _ _ _ _ _).1 happend with ⟨loc, -, hcan, rfl⟩
      exact ⟨rfl, rfl, Disk.sameDirectories_putFile disk hcan.not_directory _,
        Disk.unreadable_putFile_iff hcan.not_directory _⟩

/-- A session with an open log file obstructs the same tasks. -/
theorem Prepared.obstructed_iff {env : Environment} {disk : Disk} {σ : Session}
    (h : Prepared env disk σ) (task : Task) :
    Obstructed env σ.disk task ↔ Obstructed env disk task :=
  ⟨fun hlater => hlater.of_same h.directories.symm fun file => (h.unreadable_iff [] file).1,
    fun hbefore => hbefore.of_same h.directories fun file => (h.unreadable_iff [] file).2⟩

/-- A log file is opened, or the disk refuses it. -/
theorem opened_or_refused (env : Environment) (i : Invocation) (disk : Disk) :
    (¬ LogRefused env i disk ∧ ∃ σ, Opened env i disk σ) ∨
      (LogRefused env i disk ∧
        ∃ e σ, openLog env i { disk, cwd := env.cwd } = .error (.disk e) σ) := by
  unfold LogRefused Opened openLog
  cases hfile : logFileOf env i with
  | none => exact .inl ⟨by simp, _, rfl⟩
  | some file =>
    cases happend : disk.append env.cwd file.path [] with
    | error e =>
      refine .inr ⟨⟨file, rfl, ?_⟩, e, ⟨disk, env.cwd, [], none⟩, ?_⟩
      · intro loc hloc hcan
        -- A file that can be written would have been opened.
        have hok := (Disk.modify_eq_ok_iff disk env.cwd file.path (· ++ []) _).2
          ⟨loc, hloc, hcan, rfl⟩
        have hcontra := happend.symm.trans hok
        cases hcontra
      · simp only [bind, EStateM.bind, get, getThe, MonadStateOf.get, get_apply, happend]
        rfl
    | ok disk' =>
      rcases (Disk.modify_eq_ok_iff _ _ _ _ _).1 happend with ⟨loc, hloc, hcan, -⟩
      refine .inl ⟨?_, { disk := disk', cwd := env.cwd, logFile := some file }, ?_⟩
      · rintro ⟨_, hsame, hall⟩
        cases hsame
        exact hall loc hloc hcan
      · simp only [bind, EStateM.bind, get, getThe, MonadStateOf.get, get_apply, happend]
        rfl

/-- A command line that asks for something ends as its task does in the opened session. -/
theorem execute_of_opened {env : Environment} {arguments : List String} {disk : Disk}
    {i : Invocation} {σ : Session} (hargs : Invocation.ofArguments arguments = .ok i)
    (hopen : Opened env i disk σ) :
    (execute env arguments disk).1 =
      match runTask env i.task σ with
      | .ok outcome σ' =>
        .ok { outcome with
          stderr := LogRecord.console (Level.shown i.verbose) σ'.log ++ outcome.stderr }
      | .error e _ => .error e := by
  unfold Opened at hopen
  simp only [execute, hargs, runInvocation, EStateM.run, bind, EStateM.bind, hopen]
  cases runTask env i.task σ <;> rfl

theorem execute_of_refused {env : Environment} {arguments : List String} {disk : Disk}
    {i : Invocation} {σ : Session} {e : Failure}
    (hargs : Invocation.ofArguments arguments = .ok i)
    (hrefused : openLog env i { disk, cwd := env.cwd } = .error e σ) :
    (execute env arguments disk).1 = .error e := by
  simp only [execute, hargs, runInvocation, EStateM.run, bind, EStateM.bind, hrefused]

/-- A failure of the disk leaves a command line exactly if it lies in opening the log file, or if
the files of the task are out of reach. -/
theorem execute_eq_disk_iff {env : Environment} {arguments : List String} {i : Invocation}
    (hargs : Invocation.ofArguments arguments = .ok i) (disk : Disk) :
    (∃ e, (execute env arguments disk).1 = .error (.disk e)) ↔
      LogRefused env i disk ∨ Obstructed env disk i.task := by
  rcases opened_or_refused env i disk with ⟨hlog, σ, hopen⟩ | ⟨hlog, fault, σ, hrefused⟩
  · -- What obstructs the task in the opened session did so before.
    rw [or_iff_right hlog, ← hopen.prepared.obstructed_iff,
      ← runTask_eq_disk_iff hopen.prepared.cwd, execute_of_opened hargs hopen]
    cases runTask env i.task σ with
    | ok outcome σ' => simp
    | error e σ' => simp
  · refine iff_of_true ⟨fault, execute_of_refused hargs hrefused⟩ (.inl hlog)

theorem execute_ne_settings {env : Environment} {arguments : List String} {i : Invocation}
    (hargs : Invocation.ofArguments arguments = .ok i) (disk : Disk) (e : SettingsError) :
    (execute env arguments disk).1 ≠ .error (.settings e) := by
  intro h
  -- Either the task ends the run, or the log file does, with a failure of the disk.
  rcases opened_or_refused env i disk with ⟨-, σ, hopen⟩ | ⟨-, fault, σ, hrefused⟩
  · rw [execute_of_opened hargs hopen] at h
    cases hrun : runTask env i.task σ with
    | ok outcome σ' =>
      rw [hrun] at h
      cases h
    | error failure σ' =>
      rw [hrun] at h
      cases h
      exact runTask_ne_settings env i.task e σ σ' hrun
  · rw [execute_of_refused hargs hrefused] at h
    cases h

end Command

open Command in
/-- What becomes of failures, for every command line that asks for something. No mistake in the
settings is passed on. A failure of the disk is passed on exactly if the log file cannot be opened,
if the settings of a build cannot be found or read, or if it cannot be told whether the file of an
inspection is there. All others end a build with code one and a message. -/
theorem execute_failures {env : Environment} {arguments : List String} {i : Invocation}
    (hargs : Invocation.ofArguments arguments = .ok i) (disk : Disk) :
    (∀ e, (execute env arguments disk).1 ≠ .error (.settings e)) ∧
      ((∃ e, (execute env arguments disk).1 = .error (.disk e)) ↔
        LogRefused env i disk ∨ Obstructed env disk i.task) ∧
      ∀ σ path output, Opened env i disk σ → i.task = .build path output →
        (∀ e, Settings.load env σ.disk (Path.ofString path) = .error (.settings e) →
          (execute env arguments disk).1 =
            .ok { exit := 1, stderr := "Invalid configuration: " ++ e.message ++ "\n" }) ∧
        ∀ s e σ', Settings.load env σ.disk (Path.ofString path) = .ok s →
          build env (redirected s output) σ = .error (.disk e) σ' →
          (execute env arguments disk).1 = .ok {
            exit := 1
            stderr := LogRecord.console (Level.shown i.verbose) σ'.log ++
              "docspark build failed: " ++ e.message ++
              "\nRun with --verbose for more details.\n" } := by
  refine ⟨execute_ne_settings hargs disk, execute_eq_disk_iff hargs disk, ?_⟩
  intro σ path output hopen htask
  refine ⟨?_, ?_⟩
  · intro e hload
    have hrun : runTask env i.task σ =
        .ok (failed ("Invalid configuration: " ++ e.message)) σ := by
      simp only [htask, runTask, buildTask_eq, hload]
    simp [execute_of_opened hargs hopen, hrun, hopen.prepared.log, failed, LogRecord.console]
  · intro s e σ' hload hbuild
    have hsummarized : summarizedBuild env (redirected s output) σ = .error (.disk e) σ' :=
      run_bind_eq_error_iff.2 (.inl hbuild)
    have hrun : runTask env i.task σ = .ok (buildFailed e) σ' := by
      simp only [htask, runTask, buildTask_eq, hload, hsummarized]
    simp [execute_of_opened hargs hopen, hrun, buildFailed, failed, String.append_assoc]

/-- A project in which a directory has the name of the file with the settings. -/
def blockedProject : Disk where
  entries := [(["docspark.yml"], .directory)]

theorem execute_failures_blocked :
    Invocation.ofArguments ["build"] = .ok { task := .build "." none } ∧
      ∃ e, (Command.execute { cwd := [], home := "/" } ["build"] blockedProject).1 =
        .error (.disk e) := by
  have hargs : Invocation.ofArguments ["build"] = .ok { task := .build "." none } := by decide
  have hfile : Settings.fileFor { cwd := [], home := "/" } blockedProject (Path.ofString ".") =
      .ok { root := "/", parts := ["docspark.yml"] } := by decide
  have hunreadable : blockedProject.Unreadable [] { root := "/", parts := ["docspark.yml"] } :=
    ⟨["docspark.yml"], .directory, by decide, by decide, .inl rfl⟩
  have hblocked : Command.Obstructed { cwd := [], home := "/" } blockedProject
      (.build "." none) := .build (.unreadable hfile hunreadable)
  exact ⟨hargs, (execute_failures hargs blockedProject).2.1.2 (.inr hblocked)⟩

end PropCatalog
