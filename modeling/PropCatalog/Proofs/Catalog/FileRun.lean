import PropCatalog.Catalog.Build
import PropCatalog.Proofs.Assoc
import PropCatalog.Proofs.Catalog.Session

/-!
# Runs of a build — step by step

A build that succeeds is a chain of steps, each from the session that the one before it left.

- `quiet_documentFile`, `filePath_documentFile` : documenting one file only reports, and the record
  names the file
- `FileRun`     : the steps for a list of files
- `gather`      : a build up to its index, with all that it has found and made
- `build_eq_ok` : the steps of a whole build
-/

namespace PropCatalog
namespace Build

open Session Run

/-! ## One file -/

theorem quiet_debug (message : String) : Quiet (debug message) :=
  quiet_report _

theorem quiet_info (message : String) : Quiet (info message) :=
  quiet_report _

theorem quiet_importedStyle (component : Path) (styleImport : String) :
    Quiet (importedStyle component styleImport) := by
  refine quiet_get.bind fun s => (quiet_ofExcept _).bind fun isThere => ?_
  cases isThere with
  | true => exact (quiet_readStyle _).bind fun _ => (quiet_debug _).bind fun _ => quiet_pure _
  | false => exact (quiet_debug _).bind fun _ => quiet_pure _

theorem quiet_importedStyles (component : Path) (imports : List String) :
    Quiet (importedStyles component imports) := by
  induction imports with
  | nil => exact quiet_pure _
  | cons styleImport rest ih =>
    exact (quiet_importedStyle component styleImport).bind fun _ => ih.bind fun _ => quiet_pure _

theorem quiet_examples (s : Settings) (c : Component) : Quiet (examples s c) := by
  -- The examples are made without a session; only their notes are reported.
  unfold examples
  dsimp only
  split
  · exact (quiet_reportAll _).bind fun _ => quiet_pure _
  · exact quiet_throw _

theorem quiet_documentFile (s : Settings) (path : Path) : Quiet (documentFile s path) := by
  refine (quiet_debug _).bind fun _ => (quiet_readComponent _ _).bind fun found => ?_
  cases found with
  | none => exact (quiet_debug _).bind fun _ => quiet_pure _
  | some component =>
    exact (quiet_importedStyles _ _).bind fun _ => (quiet_examples _ _).bind fun _ =>
      (quiet_debug _).bind fun _ => quiet_pure _

/-- The record of a file names the file as it is seen from the project's directory. -/
theorem filePath_documentFile {s : Settings} {path : Path} {d : Documentation} {σ σ' : Session}
    (h : documentFile s path σ = .ok (some d) σ') :
    d.component.filePath = relativePath s.root path := by
  rcases run_bind_eq_ok_iff.1 h with ⟨_, σ₁, -, h⟩
  rcases run_bind_eq_ok_iff.1 h with ⟨found, σ₂, -, h⟩
  cases found with
  | none =>
    rcases run_bind_eq_ok_iff.1 h with ⟨_, σ₃, -, h⟩
    cases h
  | some component =>
    rcases run_bind_eq_ok_iff.1 h with ⟨styles, σ₃, -, h⟩
    rcases run_bind_eq_ok_iff.1 h with ⟨usages, σ₄, -, h⟩
    rcases run_bind_eq_ok_iff.1 h with ⟨_, σ₅, -, h⟩
    cases h
    rfl

/-! ## All files -/

/-- A record goes to a file directly in the directory of all records. -/
theorem leads_recordFile {σ : Session} {directory : Path} {name : String} {loc : Location}
    (h : σ.Leads (recordFile directory name) loc) :
    ∃ here, σ.Leads directory here ∧ loc = here ++ [name ++ ".json"] := by
  -- With its extension a name is too long to be a double dot, so it is one step below.
  have hlong : ∀ short : String, short.length < 5 → name ++ ".json" ≠ short := by
    intro short hshort heq
    have hlength := congrArg String.length heq
    rw [String.length_append] at hlength
    have hjson : ".json".length = 5 := rfl
    omega
  exact Disk.locate_child (hlong ".." (by decide)) (hlong "" (by decide)) h

/-- The steps by which files are documented one after the other: the records and the files that
were skipped, with the session at the end. -/
inductive FileRun (s : Settings) (directory : Path) :
    Session → List Path → List Documentation → List String → Session → Prop
  | done (σ : Session) : FileRun s directory σ [] [] [] σ
  | skip {σ σ₁ σ' : Session} {path : Path} {rest : List Path} {records : List Documentation}
      {skipped : List String} (hnone : documentFile s path σ = .ok none σ₁)
      (hrest : FileRun s directory σ₁ rest records skipped σ') :
      FileRun s directory σ (path :: rest) records (relativePath s.root path :: skipped) σ'
  | save {σ σ₁ σ₂ σ₃ σ' : Session} {path : Path} {rest : List Path} {d : Documentation}
      {records : List Documentation} {skipped : List String}
      (hsome : documentFile s path σ = .ok (some d) σ₁)
      (hwrite : writeValue (recordFile directory d.component.name) d.toValue σ₁ = .ok () σ₂)
      (hquiet : Reported σ₂ σ₃) (hrest : FileRun s directory σ₃ rest records skipped σ') :
      FileRun s directory σ (path :: rest) (d :: records) skipped σ'

theorem fileRun_of_buildFiles {s : Settings} {directory : Path} {files : List Path}
    {records : List Documentation} {skipped : List String} {σ σ' : Session}
    (h : buildFiles s directory files σ = .ok (records, skipped) σ') :
    FileRun s directory σ files records skipped σ' := by
  -- The induction follows `buildFiles`; every file starts from the session that the last one left.
  induction files generalizing σ records skipped with
  | nil =>
    cases h
    exact .done _
  | cons path rest ih =>
    rcases run_bind_eq_ok_iff.1 h with ⟨found, σ₁, hdocument, h⟩
    cases found with
    | none =>
      rcases run_bind_eq_ok_iff.1 h with ⟨⟨records', skipped'⟩, σ₂, hrest, h⟩
      cases h
      exact .skip hdocument (ih hrest)
    | some d =>
      rcases run_bind_eq_ok_iff.1 h with ⟨_, σ₂, hwrite, h⟩
      rcases run_bind_eq_ok_iff.1 h with ⟨_, σ₃, hdebug, h⟩
      rcases run_bind_eq_ok_iff.1 h with ⟨⟨records', skipped'⟩, σ₄, hrest, h⟩
      cases h
      exact .save hdocument hwrite (quiet_debug _ hdebug) (ih hrest)

/-- The records name files of the list, in its order. -/
theorem FileRun.filePaths_sublist {s : Settings} {directory : Path} {σ σ' : Session}
    {files : List Path} {records : List Documentation} {skipped : List String}
    (h : FileRun s directory σ files records skipped σ') :
    (records.map fun d => d.component.filePath).Sublist (files.map (relativePath s.root)) := by
  induction h with
  | done => exact List.Sublist.slnil
  | skip _ _ ih => exact ih.cons _
  | save hsome _ _ _ ih =>
    rw [List.map_cons, List.map_cons, filePath_documentFile hsome]
    exact ih.cons_cons _

/-! ## The whole build -/

/-- No file is found twice. -/
theorem nodup_discover {d : Disk} {s : Settings} {files : List Path}
    (h : discover d s = .ok files) : (files.map (relativePath s.root)).Nodup := by
  rcases bind_eq_ok_iff.1 h with ⟨paths, -, hchosen⟩
  cases hchosen
  -- Leaving out what was seen before is keeping the first path of every file.
  exact Assoc.nodup_map_firsts (relativePath s.root) _

theorem makePath_eq_ok {p : Path} {σ σ' : Session} {u : Unit} (h : makePath p σ = .ok u σ') :
    (σ.disk.makePath σ.cwd p).2 = none ∧
      σ' = { σ with disk := (σ.disk.makePath σ.cwd p).1 } := by
  rcases run_bind_eq_ok_iff.1 h with ⟨s, σ₁, hget, h⟩
  cases hget
  -- The new disk is set before the failure is looked at.
  rcases hmade : σ.disk.makePath σ.cwd p with ⟨disk, error⟩
  simp only [hmade] at h
  rcases run_bind_eq_ok_iff.1 h with ⟨_, σ₂, hset, h⟩
  cases hset
  cases error with
  | some e => cases h
  | none =>
    cases h
    exact ⟨rfl, rfl⟩

theorem makePath_logFile {p : Path} {σ σ' : Session} {u : Unit} (h : makePath p σ = .ok u σ') :
    σ'.logFile = σ.logFile := by
  rw [(makePath_eq_ok h).2]

/-- What a build has found and made when all files are documented. -/
structure Gathered where
  /-- The directory of the records. -/
  directory : Path
  /-- The session in which the files were found, with that directory made. -/
  start : Session
  files : List Path
  records : List Documentation
  skipped : List String

/-- A build up to its index. -/
def gather (env : Environment) (s : Settings) : Run Gathered := do
  let directory ← ofExcept (recordsDirectory env s)
  makePath directory
  let start ← get
  let files ← ofExcept (discover start.disk s)
  info ("Found " ++ Text.number files.length ++ " candidate component files")
  let (records, skipped) ← buildFiles s directory files
  return { directory, start, files, records, skipped }

theorem gather_eq_ok {env : Environment} {s : Settings} {σ σ' : Session} {c : Gathered}
    (h : gather env s σ = .ok c σ') :
    recordsDirectory env s = .ok c.directory ∧
      makePath c.directory σ = .ok () c.start ∧
      discover c.start.disk s = .ok c.files ∧
      ∃ σ₁, Reported c.start σ₁ ∧ FileRun s c.directory σ₁ c.files c.records c.skipped σ' := by
  -- One step after the other is taken off the front; the steps that failed would end the run.
  rcases run_bind_eq_ok_iff.1 h with ⟨directory, _, hdirectory, h⟩
  rcases run_ofExcept_eq_ok_iff.1 hdirectory with ⟨hrecords, rfl⟩
  rcases run_bind_eq_ok_iff.1 h with ⟨_, start, hmake, h⟩
  rcases run_bind_eq_ok_iff.1 h with ⟨_, _, hget, h⟩
  cases hget
  rcases run_bind_eq_ok_iff.1 h with ⟨files, _, hfind, h⟩
  rcases run_ofExcept_eq_ok_iff.1 hfind with ⟨hdiscover, rfl⟩
  rcases run_bind_eq_ok_iff.1 h with ⟨_, σ₁, hfound, h⟩
  rcases run_bind_eq_ok_iff.1 h with ⟨⟨records, skipped⟩, σ₂, hfiles, h⟩
  cases h
  exact ⟨hrecords, hmake, hdiscover, σ₁, quiet_info _ hfound, fileRun_of_buildFiles hfiles⟩

/-- A build documents all files, writes the index of their records and reports the totals. -/
theorem build_eq_gather (env : Environment) (s : Settings) :
    build env s = do
      let c ← gather env s
      writeValue (recordFile c.directory "index") (index s c.records)
      info (Totals.ofRecords c.records).summary
      return { totals := Totals.ofRecords c.records, skipped := c.skipped } := by
  simp only [build, gather, bind_assoc, pure_bind]

/-- What a build has done when it succeeds: it made the directory of the records, found the files,
documented them one after the other and wrote the index. -/
theorem build_eq_ok {env : Environment} {s : Settings} {σ σ' : Session} {r : BuildResult}
    (h : build env s σ = .ok r σ') :
    ∃ directory files records σ₁ σ₂ σ₃ σ₄,
      recordsDirectory env s = .ok directory ∧
      makePath directory σ = .ok () σ₁ ∧
      discover σ₁.disk s = .ok files ∧
      Reported σ₁ σ₂ ∧
      FileRun s directory σ₂ files records r.skipped σ₃ ∧
      writeValue (recordFile directory "index") (index s records) σ₃ = .ok () σ₄ ∧
      info (Totals.ofRecords records).summary σ₄ = .ok () σ' ∧
      r.totals = Totals.ofRecords records := by
  rw [build_eq_gather] at h
  rcases run_bind_eq_ok_iff.1 h with ⟨c, σ₃, hgather, h⟩
  rcases run_bind_eq_ok_iff.1 h with ⟨_, σ₄, hindex, h⟩
  rcases run_bind_eq_ok_iff.1 h with ⟨_, σ₅, hsummary, h⟩
  cases h
  rcases gather_eq_ok hgather with ⟨hdirectory, hmake, hdiscover, σ₂, hfound, hrun⟩
  exact ⟨c.directory, c.files, c.records, c.start, σ₂, σ₃, σ₄, hdirectory, hmake, hdiscover, hfound,
    hrun, hindex, hsummary, rfl⟩

end Build
end PropCatalog
