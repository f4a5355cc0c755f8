import PropCatalog.Proofs.Catalog.FileRun

/-!
# Outcomes — what a component file gives

The record of a component file is made from the text of the file and the texts of the stylesheets
that its component imports. A build writes to the directory of its records and to the log file only,
so as long as nothing that is read lies there, every file gives what it would have given at the
start.

- `Session.text?`   : the text of a file, if there is one
- `Session.sources` : the files that are read for a component file
- `record?`         : the record of a component file, by what is read for it
- `eq_record?_of_documentFile` : documenting a file gives this record
- `Spares`          : nothing was written but records and reports
- `Apart`           : nothing that is read lies where a build writes
- `FileRun.gives`   : a run gives the records that its files have at the start
-/

namespace PropCatalog

/-! ## Texts -/

namespace Session

/-- The text of the file at a path, if there is one. -/
def text? (σ : Session) (p : Path) : Option String :=
  (σ.disk.readText σ.cwd p).toOption

/-- The text that the bytes of a file stand for. -/
def textOf? (bytes : List UInt8) : Option String :=
  (Text.decodeStrict? bytes).map fun cs => String.ofList (Disk.withLineFeeds cs)

theorem text?_eq_some_iff {σ : Session} {p : Path} {text : String} :
    σ.text? p = some text ↔
      ∃ loc bytes, σ.Leads p loc ∧ σ.disk.entryAt? loc = some (.file bytes) ∧
        σ.disk.allows loc .read = true ∧ textOf? bytes = some text := by
  have hread : σ.text? p = some text ↔
      ∃ bytes, σ.disk.read σ.cwd p = .ok bytes ∧ textOf? bytes = some text := by
    unfold text? Disk.readText textOf?
    cases σ.disk.read σ.cwd p with
    | error e => simp [Except.toOption]
    | ok bytes => cases hdecode : Text.decodeStrict? bytes <;> simp [Except.toOption, hdecode]
  rw [hread]
  simp only [Disk.read_eq_ok_iff]
  constructor
  · intro hcase
    rcases hcase with ⟨bytes, ⟨loc, hleads, hentry, hread⟩, htext⟩
    exact ⟨loc, bytes, hleads, hentry, hread, htext⟩
  · intro hcase
    rcases hcase with ⟨loc, bytes, hleads, hentry, hread, htext⟩
    exact ⟨bytes, ⟨loc, hleads, hentry, hread⟩, htext⟩

/-- Two sessions with the same directories that have the same where a path leads have the same text
there. -/
theorem text?_congr {σ σ' : Session} {p : Path} (hcwd : σ'.cwd = σ.cwd)
    (hdirectories : Disk.SameDirectories σ.disk σ'.disk)
    (hsame : ∀ loc, σ.Leads p loc → Disk.SameAt σ.disk σ'.disk loc) :
    σ'.text? p = σ.text? p := by
  have hleads : ∀ loc, σ'.Leads p loc ↔ σ.Leads p loc := by
    intro loc
    unfold Leads
    rw [hcwd]
    exact Disk.locate_eq_ok_iff hdirectories σ.cwd p loc
  ext text
  simp only [text?_eq_some_iff, hleads]
  refine exists_congr fun loc => exists_congr fun bytes => and_congr_right fun hloc => ?_
  rw [(hsame loc hloc).entry, (hsame loc hloc).rights]

/-! ## What is read for a component file -/

/-- The component in a file, if there is one. -/
def component? (σ : Session) (s : Settings) (p : Path) : Option Component :=
  (Run.componentIn σ.disk σ.cwd p s.styleFiles).1

/-- The custom properties in a stylesheet. -/
def styles (σ : Session) (p : Path) : List StyleVariable :=
  (Run.stylesIn σ.disk σ.cwd p).1

/-- The stylesheets that the component in a file imports. -/
def stylesheets (σ : Session) (s : Settings) (p : Path) : List Path :=
  (σ.component? s p).toList.flatMap fun c => c.styleFiles.map (Path.ofImport σ.cwd p)

/-- The files that are read for a component file: the file itself and the stylesheets. -/
def sources (σ : Session) (s : Settings) (p : Path) : List Path :=
  p :: σ.stylesheets s p

theorem component?_eq (σ : Session) (s : Settings) (p : Path) :
    σ.component? s p = (σ.text? p).bind fun text =>
      match Outline.ofText text p.toString with
      | .ok o => (extract o p.stem s.styleFiles).1
      | .error _ => none := by
  unfold component? text? Run.componentIn Run.readSource
  cases σ.disk.readText σ.cwd p with
  | error e => rfl
  | ok text =>
    simp only [Except.toOption, Option.bind_some]
    cases Outline.ofText text p.toString <;> rfl

theorem styles_eq (σ : Session) (p : Path) :
    σ.styles p = ((σ.text? p).map Style.customProperties).getD [] := by
  unfold styles text? Run.stylesIn
  cases σ.disk.readText σ.cwd p <;> rfl

end Session

namespace Build

open Session Run

/-- The examples of a component, with what there is to report. -/
def usages (s : Settings) (c : Component) : Except LiteralError (List Usage × List LogRecord) :=
  let options : VariantOptions :=
    { maxPermutations := s.maxPermutations, fallbacks := s.fallbacks }
  if s.autoGenerate then variants options c
  else (defaultUsage options c).map fun usage => ([usage], [])

theorem examples_eq (s : Settings) (c : Component) :
    examples s c =
      match usages s c with
      | .ok (us, notes) => do
        reportAll notes
        return us
      | .error e => throw (.literal e) := rfl

/-- The record of a component file: none if the file holds no component. -/
def record? (s : Settings) (σ : Session) (p : Path) : Option Documentation := do
  let found ← σ.component? s p
  let component := { found with filePath := relativePath s.root p }
  let (variants, _) ← (usages s component).toOption
  return { component, variants, styleVariables := (σ.stylesheets s p).flatMap σ.styles }

section Congruence

variable {σ σ' : Session} {s : Settings} {p : Path} (hcwd : σ'.cwd = σ.cwd)
  (htext : ∀ q ∈ σ.sources s p, σ'.text? q = σ.text? q)

include htext in
theorem component?_congr : σ'.component? s p = σ.component? s p := by
  rw [component?_eq, component?_eq, htext p List.mem_cons_self]

include hcwd htext in
theorem sources_congr : σ'.sources s p = σ.sources s p := by
  rw [sources, sources, stylesheets, stylesheets, component?_congr htext, hcwd]

include hcwd htext in
/-- What is read for a file decides its record. -/
theorem record?_congr : record? s σ' p = record? s σ p := by
  have hsheets : σ'.stylesheets s p = σ.stylesheets s p :=
    List.tail_eq_of_cons_eq (sources_congr hcwd htext)
  have hstyles : (σ.stylesheets s p).flatMap σ'.styles = (σ.stylesheets s p).flatMap σ.styles := by
    refine List.flatMap_congr ?_
    intro q hq
    rw [styles_eq, styles_eq, htext q (List.mem_cons_of_mem _ hq)]
  rw [record?, record?, component?_congr htext, hsheets, hstyles]

end Congruence

/-! ## What a build writes -/

/-- The places that a build writes to while it documents files: the log file and the files directly
in the directory of the records. -/
def Writes (σ : Session) (directory : Path) (loc : Location) : Prop :=
  σ.LogsTo loc ∨ ∃ here name, σ.Leads directory here ∧ loc = here ++ [name]

theorem writes_iff_dropLast {σ : Session} {directory : Path} {loc : Location} :
    Writes σ directory loc ↔ σ.LogsTo loc ∨ loc ≠ [] ∧ σ.Leads directory loc.dropLast := by
  refine or_congr_right ⟨?_, ?_⟩
  · intro hcase
    rcases hcase with ⟨here, name, hleads, rfl⟩
    exact ⟨by simp, by simpa using hleads⟩
  · intro hcase
    rcases hcase with ⟨hne, hleads⟩
    exact ⟨_, _, hleads, (List.dropLast_append_getLast hne).symm⟩

instance (σ : Session) (directory : Path) (loc : Location) : Decidable (Writes σ directory loc) :=
  decidable_of_iff' _ writes_iff_dropLast

/-- A build does not write to the file at a path. -/
def Untouched (σ : Session) (directory q : Path) : Prop :=
  ∀ loc, σ.Leads q loc → ¬ Writes σ directory loc

theorem untouched_iff_mem {σ : Session} {directory q : Path} :
    Untouched σ directory q ↔
      ∀ loc ∈ (σ.disk.locate σ.cwd q).toOption, ¬ Writes σ directory loc := by
  unfold Untouched Leads
  cases σ.disk.locate σ.cwd q with
  | error e => simp [Except.toOption]
  | ok at_ => simp [Except.toOption]

instance (σ : Session) (directory q : Path) : Decidable (Untouched σ directory q) :=
  decidable_of_iff' _ untouched_iff_mem

/-- A later session in which all is as it was where a build does not write. -/
structure Spares (directory : Path) (σ σ' : Session) : Prop where
  follows : Follows σ σ'
  same : ∀ loc, ¬ Writes σ directory loc → Disk.SameAt σ.disk σ'.disk loc

theorem writes_iff {σ σ' : Session} (h : Follows σ σ') (directory : Path) (loc : Location) :
    Writes σ' directory loc ↔ Writes σ directory loc := by
  simp only [Writes, h.logsTo_iff, h.leads_iff]

theorem spares_of_reported {σ σ' : Session} (h : Reported σ σ') (directory : Path) :
    Spares directory σ σ' := by
  refine ⟨h.follows, ?_⟩
  intro loc hloc
  exact (h.kept loc).unlogged fun hlog => hloc (Or.inl hlog)

theorem spares_of_writeValue {σ σ' : Session} {directory : Path} {name : String} {v : Value}
    {u : Unit} (h : writeValue (recordFile directory name) v σ = .ok u σ') :
    Spares directory σ σ' := by
  refine ⟨follows_of_writeValue h, ?_⟩
  intro loc hloc
  have hother : ¬ σ.Leads (recordFile directory name) loc := by
    intro hleads
    rcases leads_recordFile hleads with ⟨here, hhere, heq⟩
    exact hloc (Or.inr ⟨here, _, hhere, heq⟩)
  exact (kept_of_writeValue h hother).unlogged fun hlog => hloc (Or.inl hlog)

namespace Spares

variable {directory : Path} {σ σ' σ'' : Session}

theorem trans (h : Spares directory σ σ') (h' : Spares directory σ' σ'') :
    Spares directory σ σ'' := by
  refine ⟨h.follows.trans h'.follows, ?_⟩
  intro loc hloc
  have hloc' : ¬ Writes σ' directory loc := fun hwrites =>
    hloc ((writes_iff h.follows directory loc).1 hwrites)
  exact (h.same loc hloc).trans (h'.same loc hloc')

theorem untouched_iff (h : Spares directory σ σ') (q : Path) :
    Untouched σ' directory q ↔ Untouched σ directory q := by
  simp only [Untouched, h.follows.leads_iff, writes_iff h.follows]

theorem text?_eq (h : Spares directory σ σ') {q : Path} (hq : Untouched σ directory q) :
    σ'.text? q = σ.text? q :=
  text?_congr h.follows.cwd h.follows.directories fun loc hleads => h.same loc (hq loc hleads)

section Sources

variable {s : Settings} {p : Path} (h : Spares directory σ σ')
  (hsources : ∀ q ∈ σ.sources s p, Untouched σ directory q)

include h hsources

theorem record?_eq : record? s σ' p = record? s σ p :=
  record?_congr h.follows.cwd fun q hq => h.text?_eq (hsources q hq)

theorem untouched_sources : ∀ q ∈ σ'.sources s p, Untouched σ' directory q := by
  intro q hq
  rw [sources_congr h.follows.cwd fun q hq => h.text?_eq (hsources q hq)] at hq
  exact (h.untouched_iff q).2 (hsources q hq)

end Sources

end Spares

/-! ## One file -/

theorem usages_of_examples {s : Settings} {c : Component} {σ σ' : Session} {us : List Usage}
    (h : examples s c σ = .ok us σ') : ∃ notes, usages s c = .ok (us, notes) := by
  rw [examples_eq] at h
  cases hmade : usages s c with
  | error e =>
    rw [hmade] at h
    cases h
  | ok made =>
    rw [hmade] at h
    rcases run_bind_eq_ok_iff.1 h with ⟨_, σ₁, -, h⟩
    cases h
    exact ⟨made.2, rfl⟩

theorem eq_component?_of_readComponent {s : Settings} {p : Path} {σ σ' : Session}
    {found : Option Component} (h : readComponent p s.styleFiles σ = .ok found σ') :
    found = σ.component? s p := by
  rcases run_bind_eq_ok_iff.1 h with ⟨_, _, hget, h⟩
  cases hget
  rcases run_bind_eq_ok_iff.1 h with ⟨_, σ₁, -, h⟩
  cases h
  rfl

theorem eq_styles_of_readStyle {p : Path} {σ σ' : Session} {found : List StyleVariable}
    (h : readStyle p σ = .ok found σ') : found = σ.styles p := by
  rcases run_bind_eq_ok_iff.1 h with ⟨_, _, hget, h⟩
  cases hget
  rcases run_bind_eq_ok_iff.1 h with ⟨_, σ₁, -, h⟩
  exact (EStateM.Result.ok.inj h).1.symm

theorem eq_styles_of_importedStyle {p : Path} {styleImport : String} {σ σ' : Session}
    {found : List StyleVariable} (h : importedStyle p styleImport σ = .ok found σ') :
    found = σ.styles (Path.ofImport σ.cwd p styleImport) := by
  rcases run_bind_eq_ok_iff.1 h with ⟨_, _, hget, h⟩
  cases hget
  rcases run_bind_eq_ok_iff.1 h with ⟨isThere, σ₀, hasked, h⟩
  rcases run_ofExcept_eq_ok_iff.1 hasked with ⟨hhas, hsame⟩
  rw [mapError_eq_ok_iff] at hhas
  rw [← hsame] at h
  cases isThere with
  | true =>
    rw [if_pos rfl] at h
    rcases run_bind_eq_ok_iff.1 h with ⟨read, σ₁, hread, h⟩
    rcases run_bind_eq_ok_iff.1 h with ⟨_, σ₂, -, h⟩
    cases h
    exact eq_styles_of_readStyle hread
  | false =>
    rw [if_neg Bool.false_ne_true] at h
    rcases run_bind_eq_ok_iff.1 h with ⟨_, σ₁, -, h⟩
    cases h
    -- A stylesheet that is not there has no text, and so no custom properties.
    have htext : σ.text? (Path.ofImport σ.cwd p styleImport) = none := by
      refine Option.eq_none_iff_forall_ne_some.2 fun text hsome => ?_
      rcases text?_eq_some_iff.1 hsome with ⟨loc, bytes, hleads, hentry, -⟩
      have hthere := (Disk.has_eq_true_iff _ _ _).2 ⟨loc, hleads, by simp [hentry]⟩
      rw [hhas] at hthere
      cases hthere
    rw [styles_eq, htext]
    rfl

/-- The stylesheets are read one after the other, with nothing but reports in between. -/
theorem eq_flatMap_of_importedStyles {directory p : Path} {imports : List String}
    {σ σ₁ σ' : Session} {found : List StyleVariable} (hspares : Spares directory σ σ₁)
    (h : importedStyles p imports σ₁ = .ok found σ')
    (huntouched : ∀ i ∈ imports, Untouched σ directory (Path.ofImport σ.cwd p i)) :
    found = (imports.map (Path.ofImport σ.cwd p)).flatMap σ.styles := by
  -- The induction is on the imports, from any session that spares what they lead to.
  induction imports generalizing σ₁ found with
  | nil =>
    cases h
    rfl
  | cons styleImport rest ih =>
    rcases run_bind_eq_ok_iff.1 h with ⟨first, σ₂, hfirst, h⟩
    rcases run_bind_eq_ok_iff.1 h with ⟨others, σ₃, hothers, h⟩
    cases h
    have hlater := hspares.trans
      (spares_of_reported (quiet_importedStyle p styleImport hfirst) directory)
    have hrest := ih hlater hothers fun i hi => huntouched i (List.mem_cons_of_mem _ hi)
    have htext := hspares.text?_eq (huntouched styleImport List.mem_cons_self)
    rw [eq_styles_of_importedStyle hfirst, hspares.follows.cwd, styles_eq, htext, ← styles_eq,
      hrest, List.map_cons, List.flatMap_cons]

/-- Documenting a file gives the record that the file has at the start. -/
theorem eq_record?_of_documentFile {s : Settings} {directory p : Path} {σ σ' : Session}
    {found : Option Documentation} (h : documentFile s p σ = .ok found σ')
    (huntouched : ∀ q ∈ σ.sources s p, Untouched σ directory q) : found = record? s σ p := by
  rcases run_bind_eq_ok_iff.1 h with ⟨_, σ₁, hdebug, h⟩
  rcases run_bind_eq_ok_iff.1 h with ⟨component, σ₂, hread, h⟩
  have hspares := spares_of_reported (quiet_debug _ hdebug) directory
  have hspares' := hspares.trans (spares_of_reported (quiet_readComponent _ _ hread) directory)
  have hcomponent : component = σ.component? s p :=
    (eq_component?_of_readComponent hread).trans
      (component?_congr fun q hq => hspares.text?_eq (huntouched q hq))
  cases component with
  | none =>
    rcases run_bind_eq_ok_iff.1 h with ⟨_, σ₃, -, h⟩
    cases h
    rw [record?, ← hcomponent]
    rfl
  | some c =>
    rcases run_bind_eq_ok_iff.1 h with ⟨styles, σ₃, hstyles, h⟩
    rcases run_bind_eq_ok_iff.1 h with ⟨us, σ₄, hexamples, h⟩
    rcases run_bind_eq_ok_iff.1 h with ⟨_, σ₅, -, h⟩
    cases h
    rcases usages_of_examples hexamples with ⟨notes, husages⟩
    have hsheets : σ.stylesheets s p = c.styleFiles.map (Path.ofImport σ.cwd p) := by
      rw [stylesheets, ← hcomponent]
      simp
    have hfound : styles = (σ.stylesheets s p).flatMap σ.styles := by
      rw [hsheets]
      refine eq_flatMap_of_importedStyles hspares' hstyles fun i hi => ?_
      exact huntouched _ (List.mem_cons_of_mem _ (hsheets ▸ List.mem_map_of_mem hi))
    rw [record?, ← hcomponent, hfound]
    simp only [Option.bind_eq_bind, Option.bind_some, husages]
    rfl

/-! ## All files -/

/-- The records and the skipped files are those that the files have in a session, in order. -/
structure Gives (s : Settings) (σ : Session) (files : List Path) (records : List Documentation)
    (skipped : List String) : Prop where
  records : records = files.filterMap (record? s σ)
  skipped : skipped = (files.filter fun p => (record? s σ p).isNone).map (relativePath s.root)

/-- Nothing that is read for the files lies where a build writes. -/
def Apart (s : Settings) (directory : Path) (σ : Session) (files : List Path) : Prop :=
  ∀ p ∈ files, ∀ q ∈ σ.sources s p, Untouched σ directory q

/-- What the files give later they would have given earlier. -/
theorem Spares.gives {s : Settings} {directory : Path} {σ σ' : Session} {files : List Path}
    {records : List Documentation} {skipped : List String} (h : Spares directory σ σ')
    (hapart : Apart s directory σ files)
    (hgives : Apart s directory σ' files → Gives s σ' files records skipped) :
    Gives s σ files records skipped := by
  have hlater := hgives fun p hp => h.untouched_sources (hapart p hp)
  have hsame : ∀ p ∈ files, record? s σ' p = record? s σ p :=
    fun p hp => h.record?_eq (hapart p hp)
  refine ⟨hlater.records.trans (List.filterMap_congr hsame), ?_⟩
  rw [hlater.skipped, List.filter_congr fun p hp => by rw [hsame p hp]]

/-- A run gives the records that its files have at the start. -/
theorem FileRun.gives {s : Settings} {directory : Path} {σ σ' : Session} {files : List Path}
    {records : List Documentation} {skipped : List String}
    (h : FileRun s directory σ files records skipped σ') (hapart : Apart s directory σ files) :
    Gives s σ files records skipped := by
  -- The rest of the files starts from a later session, in which they are as they were.
  induction h with
  | done => exact ⟨rfl, rfl⟩
  | @skip _ _ _ path _ _ _ hnone _ ih =>
    have hspares := spares_of_reported (quiet_documentFile s path hnone) directory
    have hpath := eq_record?_of_documentFile hnone (hapart path List.mem_cons_self)
    have hrest := hspares.gives (fun p hp => hapart p (List.mem_cons_of_mem _ hp)) ih
    exact ⟨by simp [← hpath, hrest.records], by simp [← hpath, hrest.skipped]⟩
  | @save _ _ _ _ _ path _ _ _ _ hsome hwrite hquiet _ ih =>
    have hspares := ((spares_of_reported (quiet_documentFile s path hsome) directory).trans
      (spares_of_writeValue hwrite)).trans (spares_of_reported hquiet directory)
    have hpath := eq_record?_of_documentFile hsome (hapart path List.mem_cons_self)
    have hrest := hspares.gives (fun p hp => hapart p (List.mem_cons_of_mem _ hp)) ih
    exact ⟨by simp [← hpath, hrest.records], by simp [← hpath, hrest.skipped]⟩

/-! ### Files by their names -/

theorem filePath_record? {s : Settings} {σ : Session} {p : Path} {d : Documentation}
    (h : record? s σ p = some d) : d.component.filePath = relativePath s.root p := by
  rcases Option.bind_eq_some_iff.1 h with ⟨found, -, h⟩
  rcases Option.bind_eq_some_iff.1 h with ⟨made, -, h⟩
  cases h
  rfl

namespace Gives

variable {s : Settings} {σ : Session} {files : List Path} {records : List Documentation}
  {skipped : List String} (h : Gives s σ files records skipped)
  (hnodup : (files.map (relativePath s.root)).Nodup) {p : Path} (hp : p ∈ files)

include h hnodup hp

theorem mem_skipped_iff : relativePath s.root p ∈ skipped ↔ record? s σ p = none := by
  rw [h.skipped]
  constructor
  · intro hmem
    rcases List.mem_map.1 hmem with ⟨p', hp', hname⟩
    rcases List.mem_filter.1 hp' with ⟨hmem', hnone⟩
    rw [← List.inj_on_of_nodup_map hnodup hmem' hp hname]
    exact Option.isNone_iff_eq_none.1 hnone
  · intro hnone
    exact List.mem_map_of_mem (List.mem_filter.2 ⟨hp, by rw [hnone]; rfl⟩)

theorem mem_records_iff {d : Documentation} (hname : d.component.filePath = relativePath s.root p) :
    d ∈ records ↔ record? s σ p = some d := by
  rw [h.records, List.mem_filterMap]
  constructor
  · intro hcase
    rcases hcase with ⟨p', hp', hrecord⟩
    -- The path of the record says which of the files it belongs to.
    have hsame : relativePath s.root p' = relativePath s.root p :=
      (filePath_record? hrecord).symm.trans hname
    rw [← List.inj_on_of_nodup_map hnodup hp' hp hsame]
    exact hrecord
  · exact fun hrecord => ⟨p, hp, hrecord⟩

end Gives

end Build
end PropCatalog
