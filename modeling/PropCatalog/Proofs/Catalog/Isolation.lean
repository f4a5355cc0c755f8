import PropCatalog.Proofs.Catalog.Accounting
import PropCatalog.Proofs.Catalog.Discovery
import PropCatalog.Proofs.Catalog.Outcome

/-!
# Isolation — a component file does not affect the others

Two projects that differ in the bytes of one component file are built alike in all other files: the
same of them are skipped, and the others have the same records and the same entries in the index.
What a build writes must not be read by it, for then the record of one component would be the
stylesheet of another.

- `Session.DifferAt`       : two sessions whose disks differ in one file
- `Gathered.Apart`         : nothing that is read lies where the build writes
- `Gathered.Unshared`      : no other component imports the file as a stylesheet
- `AgreeElsewhere`         : two builds alike in all files but one
- `build_files_accounted`  : accounting and isolation for every build that succeeds
-/

namespace PropCatalog

/-! ## Two sessions -/

/-- Two sessions in one directory, with disks that differ in the bytes of one file. -/
structure Session.DifferAt (loc : Location) (σ τ : Session) : Prop where
  cwd : τ.cwd = σ.cwd
  disk : Disk.DifferAt loc σ.disk τ.disk

namespace Build

open Session Run

theorem text?_of_differAt {loc : Location} {σ τ : Session} (h : Session.DifferAt loc σ τ)
    {q : Path} (hq : ¬ σ.Leads q loc) : τ.text? q = σ.text? q := by
  refine text?_congr h.cwd h.disk.sameDirectories ?_
  intro at_ hleads
  refine ⟨h.disk.elsewhere at_ ?_, h.disk.allows at_⟩
  intro heq
  exact hq (heq ▸ hleads)

/-! ## What a build reads and writes -/

namespace Gathered

/-- Nothing that is read lies where the build writes: no component file and no stylesheet that one
of them imports is in the directory of the records, or is the log file. -/
def Apart (s : Settings) (c : Gathered) : Prop :=
  Build.Apart s c.directory c.start c.files

/-- No component imports the file at a location as a stylesheet, except for the one in that file. -/
def Unshared (s : Settings) (loc : Location) (c : Gathered) : Prop :=
  ∀ p ∈ c.files, ¬ c.start.Leads p loc →
    ∀ q ∈ c.start.stylesheets s p, ¬ c.start.Leads q loc

instance (s : Settings) (c : Gathered) : Decidable (c.Apart s) :=
  inferInstanceAs (Decidable (∀ p ∈ c.files, ∀ q ∈ c.start.sources s p,
    Untouched c.start c.directory q))

instance (s : Settings) (loc : Location) (c : Gathered) : Decidable (c.Unshared s loc) :=
  inferInstanceAs (Decidable (∀ p ∈ c.files, ¬ c.start.Leads p loc →
    ∀ q ∈ c.start.stylesheets s p, ¬ c.start.Leads q loc))

end Gathered

section Gathered

variable {env : Environment} {s : Settings} {σ σ' τ τ' : Session} {c c' : Gathered}
  {loc : Location}

theorem nodup_gather (h : gather env s σ = .ok c σ') :
    (c.files.map (relativePath s.root)).Nodup := by
  rcases gather_eq_ok h with ⟨-, -, hdiscover, -⟩
  exact nodup_discover hdiscover

/-- A build whose files are apart gives the records that its files have when they are found. -/
theorem gives_gather (h : gather env s σ = .ok c σ') (hapart : c.Apart s) :
    Gives s c.start c.files c.records c.skipped := by
  rcases gather_eq_ok h with ⟨-, -, -, σ₁, hreported, hrun⟩
  exact (spares_of_reported hreported c.directory).gives hapart hrun.gives

/-- Up to the files that are found, builds of sessions that differ in one file go the same way. -/
theorem start_gather (hdiffer : Session.DifferAt loc σ τ) (h : gather env s σ = .ok c σ')
    (h' : gather env s τ = .ok c' τ') :
    Session.DifferAt loc c.start c'.start ∧ c'.files = c.files := by
  rcases gather_eq_ok h with ⟨hdirectory, hmake, hdiscover, -⟩
  rcases gather_eq_ok h' with ⟨hdirectory', hmake', hdiscover', -⟩
  have hsame : c'.directory = c.directory := Except.ok.inj (hdirectory'.symm.trans hdirectory)
  have hstart := (makePath_eq_ok hmake).2
  have hstart' := (makePath_eq_ok hmake').2
  rw [hsame, hdiffer.cwd] at hstart'
  have halike := hdiffer.disk.makePath σ.cwd c.directory
  have hdiffer' : Session.DifferAt loc c.start c'.start := by
    rw [hstart, hstart']
    exact ⟨rfl, halike.2⟩
  refine ⟨hdiffer', ?_⟩
  exact discover_eq hdiffer'.disk s hdiscover hdiscover'

/-- Every other file has the same record. -/
theorem record?_of_differAt (hdiffer : Session.DifferAt loc c.start τ)
    (hunshared : c.Unshared s loc) {p : Path} (hp : p ∈ c.files) (hother : ¬ c.start.Leads p loc) :
    record? s τ p = record? s c.start p := by
  refine record?_congr hdiffer.cwd ?_
  intro q hq
  rcases List.mem_cons.1 hq with rfl | hq
  · exact text?_of_differAt hdiffer hother
  · exact text?_of_differAt hdiffer (hunshared p hp hother q hq)

end Gathered

/-! ## Two builds -/

/-- Two builds that have found the same files and are alike in all of them but the one at `loc`. -/
structure AgreeElsewhere (s : Settings) (loc : Location) (c c' : Gathered) : Prop where
  files : c'.files = c.files
  skipped : ∀ p ∈ c.files, ¬ c.start.Leads p loc →
    (relativePath s.root p ∈ c'.skipped ↔ relativePath s.root p ∈ c.skipped)
  records : ∀ p ∈ c.files, ¬ c.start.Leads p loc →
    ∀ d : Documentation, d.component.filePath = relativePath s.root p →
      (d ∈ c'.records ↔ d ∈ c.records)
  entries : ∀ p ∈ c.files, ¬ c.start.Leads p loc →
    ∀ entry : Value, entry.field "filePath" = .text (relativePath s.root p) →
      (entry ∈ entriesOf (index s c'.records) ↔ entry ∈ entriesOf (index s c.records))

theorem agreeElsewhere_of_gather {env : Environment} {s : Settings} {σ σ' τ τ' : Session}
    {c c' : Gathered} {loc : Location} (hdiffer : Session.DifferAt loc σ τ)
    (h : gather env s σ = .ok c σ') (h' : gather env s τ = .ok c' τ') (hapart : c.Apart s)
    (hapart' : c'.Apart s) (hunshared : c.Unshared s loc) : AgreeElsewhere s loc c c' := by
  rcases start_gather hdiffer h h' with ⟨hstart, hfiles⟩
  have hnodup := nodup_gather h
  have hgives := gives_gather h hapart
  have hgives' := gives_gather h' hapart'
  rw [hfiles] at hgives'
  have hrecord : ∀ p ∈ c.files, ¬ c.start.Leads p loc →
      record? s c'.start p = record? s c.start p :=
    fun p hp hother => record?_of_differAt hstart hunshared hp hother
  have hrecords : ∀ p ∈ c.files, ¬ c.start.Leads p loc →
      ∀ d : Documentation, d.component.filePath = relativePath s.root p →
        (d ∈ c'.records ↔ d ∈ c.records) := by
    intro p hp hother d hname
    rw [hgives.mem_records_iff hnodup hp hname, hgives'.mem_records_iff hnodup hp hname,
      hrecord p hp hother]
  refine ⟨hfiles, ?_, hrecords, ?_⟩
  · intro p hp hother
    rw [hgives.mem_skipped_iff hnodup hp, hgives'.mem_skipped_iff hnodup hp, hrecord p hp hother]
  · intro p hp hother entry hentry
    -- An entry is made from a record, which says the same path.
    have hpath : ∀ d : Documentation, indexEntry d = entry →
        d.component.filePath = relativePath s.root p := by
      intro d hd
      rw [← hd, field_filePath_indexEntry] at hentry
      exact Value.text.inj hentry
    rw [entriesOf_index, entriesOf_index, List.mem_map, List.mem_map]
    refine exists_congr fun d => and_congr_left fun hd => ?_
    exact hrecords p hp hother d (hpath d hd)

end Build

open Build in
/-- Every build that succeeds accounts for each component file: it is skipped or in the index, and
the totals are those of the index that the build writes. And a project that differs in the bytes of
one component file is built alike in all other files. -/
theorem build_files_accounted {env : Environment} {s : Settings} {σ σ' : Session} {r : BuildResult}
    (h : build env s σ = .ok r σ') :
    ∃ c σ₁, gather env s σ = .ok c σ₁ ∧
      discover c.start.disk s = .ok c.files ∧ r.skipped = c.skipped ∧
      (∃ loc, σ'.Leads (recordFile c.directory "index") loc ∧
        σ'.Begins loc (valueBytes (index s c.records))) ∧
      Accounted s c.files (index s c.records) r ∧
      ∀ loc τ c' τ₁, Session.DifferAt loc σ τ → gather env s τ = .ok c' τ₁ →
        c.Apart s → c'.Apart s → c.Unshared s loc → AgreeElsewhere s loc c c' := by
  rw [build_eq_gather] at h
  rcases run_bind_eq_ok_iff.1 h with ⟨c, σ₁, hgather, h⟩
  rcases run_bind_eq_ok_iff.1 h with ⟨_, σ₂, hindex, h⟩
  rcases run_bind_eq_ok_iff.1 h with ⟨_, σ₃, hsummary, h⟩
  cases h
  rcases gather_eq_ok hgather with ⟨-, -, hdiscover, σ₀, -, hrun⟩
  refine ⟨c, σ₁, hgather, hdiscover, rfl, ?_,
    accounted_of_fileRun hrun (nodup_gather hgather), ?_⟩
  · -- After the index only the totals are reported.
    rcases Run.begins_of_writeValue hindex with ⟨loc, hleads, hbegins⟩
    have hreported := quiet_info _ hsummary
    exact ⟨loc, (hreported.follows.leads_iff _ _).2 hleads,
      hbegins.of_kept hreported.follows (hreported.kept loc)⟩
  · intro loc τ c' τ₁ hdiffer hgather' hapart hapart' hunshared
    exact agreeElsewhere_of_gather hdiffer hgather hgather' hapart hapart' hunshared

/-! ## A file that becomes a component -/

/-- A project with a component that imports a stylesheet, and a file without a component. -/
def noteSession : Session where
  disk := { entries := [
    (["src"], .directory),
    (["src", "components"], .directory),
    (["src", "components", "Chip.tsx"],
      .file (Text.encode "import './chip.css';interface ChipProps\x7ba:T\x7d".toList)),
    (["src", "components", "chip.css"], .file (Text.encode "var(--gap)".toList)),
    (["src", "components", "Note.jsx"], .file [])] }

/-- The file without a component. -/
def noteLocation : Location := ["src", "components", "Note.jsx"]

/-- The same project with a component in that file. -/
def notedSession : Session where
  disk := noteSession.disk.put noteLocation
    (.file (Text.encode "interface NoteProps\x7b\x7d".toList))

/-- The settings of a project that says nothing about its catalog. -/
def noteSettings : Settings := { root := { root := "/" } }

open Build in
theorem build_files_accounted_note :
    ∃ r σ' c c' τ₁,
      build { cwd := [], home := "/" } noteSettings noteSession = .ok r σ' ∧
      gather { cwd := [], home := "/" } noteSettings notedSession = .ok c' τ₁ ∧
      r.totals = ⟨1, 1, 1⟩ ∧ r.skipped = ["src/components/Note.jsx"] ∧ c'.skipped = [] ∧
      Accounted noteSettings c.files (index noteSettings c.records) r ∧
      AgreeElsewhere noteSettings noteLocation c c' := by
  have hcheck : (match build { cwd := [], home := "/" } noteSettings noteSession,
        gather { cwd := [], home := "/" } noteSettings noteSession,
        gather { cwd := [], home := "/" } noteSettings notedSession with
      | .ok r _, .ok c _, .ok c' _ => decide (
          (r.totals = ⟨1, 1, 1⟩ ∧ r.skipped = ["src/components/Note.jsx"] ∧ c'.skipped = []) ∧
            c.Apart noteSettings ∧ c'.Apart noteSettings ∧ c.Unshared noteSettings noteLocation)
      | _, _, _ => false) = true := by
    decide +kernel
  have hdiffer : Session.DifferAt noteLocation noteSession notedSession := by
    have hnodup : (noteSession.disk.entries.map Prod.fst).Nodup := by decide +kernel
    have hfile : noteSession.disk.entryAt? noteLocation = some (.file []) := by decide +kernel
    exact ⟨rfl, Disk.differAt_put hnodup hfile _⟩
  cases hbuild : build { cwd := [], home := "/" } noteSettings noteSession with
  | error e σ' => simp [hbuild] at hcheck
  | ok r σ' =>
    rcases build_files_accounted hbuild with ⟨c, σ₁, hgather, -, -, -, haccounted, hisolated⟩
    cases hgather' : gather { cwd := [], home := "/" } noteSettings notedSession with
    | error e τ' => simp [hbuild, hgather, hgather'] at hcheck
    | ok c' τ₁ =>
      rw [hbuild, hgather, hgather'] at hcheck
      rcases of_decide_eq_true hcheck with ⟨⟨htotals, hskipped, hnone⟩, hapart, hapart', hunshared⟩
      exact ⟨r, σ', c, c', τ₁, rfl, rfl, htotals, hskipped, hnone, haccounted,
        hisolated noteLocation notedSession c' τ₁ hdiffer hgather' hapart hapart' hunshared⟩

end PropCatalog
