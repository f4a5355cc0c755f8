import PropCatalog.Command.Run
import PropCatalog.Proofs.Catalog.FileRun
import PropCatalog.Proofs.Value.Json

/-!
# Index and records — which records a build leaves behind

A record is written to a file that has the name of its component, and the index to a file named
`index`. Two components of one name therefore share a file, and a component named `index` shares
that of the index; the later write wins. This file says exactly when the record of a component is
still there at the end.

- `Session.Begins`     : a file was given some bytes, and at most reports came after them
- `FileRun.begins`     : the last record of every name is in its file
- `filePath_of_valueBytes` : the bytes of a record say which file it is about
- `RecordsAgree`, `build_records_agree` : the index and the records at the end of a build
-/

namespace PropCatalog

/-! ## Files with a value -/

namespace Session

variable {σ σ' : Session} {loc : Location} {bytes : List UInt8}

/-- The file at a path is the log file. -/
def IsLog (σ : Session) (p : Path) : Prop :=
  ∃ loc, σ.Leads p loc ∧ σ.LogsTo loc

/-- The file at a location was given some bytes, and at most reports came after them. -/
def Begins (σ : Session) (loc : Location) (bytes : List UInt8) : Prop :=
  ∃ more, σ.disk.entryAt? loc = some (.file (bytes ++ more)) ∧ (¬ σ.LogsTo loc → more = [])

theorem Begins.of_kept (h : σ.Begins loc bytes) (hfollows : Follows σ σ')
    (hkept : Kept σ σ' loc) : σ'.Begins loc bytes := by
  rcases h with ⟨more, hentry, hnone⟩
  have hgrows := hkept.grows.entry
  rw [hentry] at hgrows
  rcases hgrows.of_file with ⟨more', hentry'⟩
  refine ⟨more ++ more', by rw [hentry', List.append_assoc], ?_⟩
  intro hlog'
  have hlog : ¬ σ.LogsTo loc := fun hmem => hlog' ((hfollows.logsTo_iff loc).2 hmem)
  -- Without the log file the entry is the old one, so that nothing was added.
  have hsame := (hkept.unlogged hlog).entry
  rw [hentry, hentry', Option.some.injEq, DiskEntry.file.injEq] at hsame
  have hmore' : more' = [] := List.append_right_eq_self.1 hsame
  rw [hnone hlog, hmore', List.append_nil]

theorem Leads.unique {p : Path} {loc' : Location} (h : σ.Leads p loc) (h' : σ.Leads p loc') :
    loc = loc' :=
  Except.ok.inj (h.symm.trans h')

end Session

namespace Run

open Session

variable {p : Path} {v : Value} {σ σ' : Session} {u : Unit}

theorem begins_of_writeValue (h : writeValue p v σ = .ok u σ') :
    ∃ loc, σ'.Leads p loc ∧ σ'.Begins loc (valueBytes v) := by
  have hfollows := follows_of_writeValue h
  rcases writeValue_eq_ok h with ⟨loc, hleads, hfile, rfl⟩
  refine ⟨loc, (hfollows.leads_iff p loc).2 hleads, [], ?_, fun _ => rfl⟩
  rw [Disk.entryAt?_putFile σ.disk hfile, if_pos rfl, List.append_nil]

end Run

namespace Build

open Session Run

/-! ## The files of records -/

/-- Records of different names go to different files. -/
theorem recordFile_inj {σ : Session} {directory : Path} {name name' : String} {loc : Location}
    (h : σ.Leads (recordFile directory name) loc) (h' : σ.Leads (recordFile directory name') loc) :
    name = name' := by
  rcases leads_recordFile h with ⟨here, hhere, heq⟩
  rcases leads_recordFile h' with ⟨here', hhere', heq'⟩
  have hsame : here = here' := Except.ok.inj (hhere.symm.trans hhere')
  have hlast : name ++ ".json" = name' ++ ".json" := by
    have hlists := heq.symm.trans heq'
    rw [hsame] at hlists
    simpa using List.append_cancel_left hlists
  have hchars : name.toList ++ ".json".toList = name'.toList ++ ".json".toList := by
    simpa only [String.toList_append] using congrArg String.toList hlast
  exact String.toList_injective (List.append_cancel_right hchars)

/-! ## What a run leaves in the files -/

section FileRun

variable {s : Settings} {directory : Path} {σ σ' : Session} {files : List Path}
  {records : List Documentation} {skipped : List String}

theorem FileRun.follows (h : FileRun s directory σ files records skipped σ') : Follows σ σ' := by
  induction h with
  | done σ => exact Follows.refl σ
  | skip hnone _ ih => exact (quiet_documentFile _ _ hnone).follows.trans ih
  | save hsome hwrite hquiet _ ih =>
    have hdocument := (quiet_documentFile _ _ hsome).follows
    exact hdocument.trans ((follows_of_writeValue hwrite).trans (hquiet.follows.trans ih))

/-- A file that is no record's is left alone. -/
theorem FileRun.kept (h : FileRun s directory σ files records skipped σ') {loc : Location}
    (hloc : ∀ d ∈ records, ¬ σ.Leads (recordFile directory d.component.name) loc) :
    Kept σ σ' loc := by
  induction h with
  | done σ => exact (Reported.refl σ).kept loc
  | skip hnone _ ih =>
    have hquiet := quiet_documentFile _ _ hnone
    refine (hquiet.kept loc).trans hquiet.follows (ih ?_)
    intro d hd hleads
    exact hloc d hd ((hquiet.follows.leads_iff _ _).1 hleads)
  | save hsome hwrite hquiet hrest ih =>
    -- Documenting and reporting keep the location, and the record is written to another one.
    have hdocument := quiet_documentFile _ _ hsome
    have hbefore := hdocument.follows.trans (follows_of_writeValue hwrite)
    have hstep := hbefore.trans hquiet.follows
    have hwritten : Kept _ _ loc := kept_of_writeValue hwrite fun hleads =>
      hloc _ List.mem_cons_self ((hdocument.follows.leads_iff _ _).1 hleads)
    have hkept := ((hdocument.kept loc).trans hdocument.follows hwritten).trans hbefore
      (hquiet.kept loc)
    refine hkept.trans hstep (ih ?_)
    intro d hd hleads
    exact hloc d (List.mem_cons_of_mem _ hd) ((hstep.leads_iff _ _).1 hleads)

/-- The last record of every name is in its file. -/
theorem FileRun.begins (h : FileRun s directory σ files records skipped σ')
    {before after : List Documentation} {d : Documentation}
    (hsplit : records = before ++ d :: after)
    (hlast : ∀ e ∈ after, e.component.name ≠ d.component.name) :
    ∃ loc, σ'.Leads (recordFile directory d.component.name) loc ∧
      σ'.Begins loc (valueBytes d.toValue) := by
  induction h generalizing before with
  | done => simp at hsplit
  | skip _ _ ih => exact ih hsplit
  | save hsome hwrite hquiet hrest ih =>
    cases before with
    | cons b before =>
      -- The record is written later, and so is every record that comes after it.
      rw [List.cons_append, List.cons.injEq] at hsplit
      exact ih hsplit.2
    | nil =>
      rw [List.nil_append, List.cons.injEq] at hsplit
      rcases hsplit with ⟨rfl, rfl⟩
      rcases begins_of_writeValue hwrite with ⟨loc, hleads, hbegins⟩
      have hleads' := (hquiet.follows.leads_iff _ _).2 hleads
      -- The records after this one have other names, so they go to other files.
      have hkept : Kept _ _ loc := hrest.kept fun e he hleadsE =>
        hlast e he (recordFile_inj hleadsE hleads')
      refine ⟨loc, (hrest.follows.leads_iff _ _).2 hleads', ?_⟩
      exact (hbegins.of_kept hquiet.follows (hquiet.kept loc)).of_kept hrest.follows hkept

end FileRun

/-! ## What the bytes say -/

theorem exists_append_of_valueBytes {v v' : Value} {more : List UInt8}
    (h : valueBytes v ++ more = valueBytes v') :
    ∃ t, v.prettyChars 0 ++ t = v'.prettyChars 0 ++ ['\n'] := by
  rcases Text.isPrefix_of_encode_append h with ⟨t, ht⟩
  refine ⟨'\n' :: t, ?_⟩
  simpa [Value.pretty] using ht

/-- The bytes of a record say which file it is about, whatever was added to them. -/
theorem filePath_of_valueBytes {d d' : Documentation} {more : List UInt8}
    (h : valueBytes d.toValue ++ more = valueBytes d'.toValue) :
    d.component.filePath = d'.component.filePath := by
  rcases exists_append_of_valueBytes h with ⟨t, ht⟩
  -- The component comes first, with its name, its description and the path of its file.
  simp only [Documentation.toValue] at ht
  have hcomponent := (Value.prettyMap_append_inj ht).2
  simp only [Component.toValue] at hcomponent
  have hname := (Value.prettyMap_append_inj hcomponent).2
  rw [Value.prettyChars_text, Value.prettyChars_text] at hname
  have hdescription := (Value.jsonString_append_inj hname).2
  simp only [Value.afterFirst, List.append_assoc] at hdescription
  have hpath := (Value.prettyEntries_text_append_inj hdescription).2
  exact (Value.prettyEntries_text_append_inj hpath).1

/-- The bytes of the index are never those of a record. -/
theorem valueBytes_index_append_ne (s : Settings) (records : List Documentation)
    (d : Documentation) (more : List UInt8) :
    valueBytes (index s records) ++ more ≠ valueBytes d.toValue := by
  intro h
  rcases exists_append_of_valueBytes h with ⟨t, ht⟩
  simp only [index, Documentation.toValue] at ht
  have hkey := (Value.prettyMap_append_inj ht).1
  exact absurd hkey (by decide)

/-! ## The end of a build -/

/-- The last value that a file was given; reports follow it exactly if the file is the log file. -/
def LastWritten (σ : Session) (p : Path) (v : Value) : Prop :=
  ∃ loc more, σ.Leads p loc ∧ σ.disk.entryAt? loc = some (.file (valueBytes v ++ more)) ∧
    (more = [] ↔ ¬ σ.LogsTo loc)

theorem LastWritten.bytes_of_holds {σ : Session} {p : Path} {v v' : Value}
    (h : LastWritten σ p v) (hholds : σ.Holds p v') :
    ∃ more, valueBytes v ++ more = valueBytes v' := by
  rcases h with ⟨loc, more, hleads, hentry, -⟩
  rcases hholds with ⟨loc', hleads', hentry'⟩
  have hloc : loc' = loc := Leads.unique hleads' hleads
  rw [hloc, hentry, Option.some.injEq, DiskEntry.file.injEq] at hentry'
  exact ⟨more, hentry'⟩

theorem LastWritten.holds_iff {σ : Session} {p : Path} {v : Value} (h : LastWritten σ p v) :
    σ.Holds p v ↔ ¬ σ.IsLog p := by
  rcases h with ⟨loc, more, hleads, hentry, hmore⟩
  have hlog : σ.IsLog p ↔ σ.LogsTo loc := by
    constructor
    · intro hlog
      rcases hlog with ⟨loc', hleads', hlog'⟩
      exact (Leads.unique hleads' hleads) ▸ hlog'
    · exact fun hlog => ⟨loc, hleads, hlog⟩
  rw [hlog, ← hmore]
  constructor
  · intro hholds
    rcases hholds with ⟨loc', hleads', hentry'⟩
    rw [Leads.unique hleads' hleads, hentry, Option.some.injEq, DiskEntry.file.injEq] at hentry'
    exact List.append_right_eq_self.1 hentry'
  · intro hnone
    refine ⟨loc, hleads, ?_⟩
    rw [hentry, hnone, List.append_nil]

/-- The summary at the end of a build is a report that the log file shows. -/
theorem lastWritten_of_summary {message : String} {σ σ' : Session} {u : Unit} {p : Path}
    {loc : Location} {v : Value} (h : info message σ = .ok u σ')
    (hlevel : ∀ file, σ.logFile = some file → file.level.rank ≤ Level.info.rank)
    (hleads : σ.Leads p loc) (hbegins : σ.Begins loc (valueBytes v)) : LastWritten σ' p v := by
  have hreported := quiet_info _ h
  have hfollows := hreported.follows
  have hleads' := (hfollows.leads_iff p loc).2 hleads
  by_cases hlog : σ.LogsTo loc
  · -- The summary is added to the file, so that what follows the value is not empty.
    have hlog' : σ'.LogsTo loc := (hfollows.logsTo_iff loc).2 hlog
    rcases hlog with ⟨file, hfile, hloc⟩
    rcases hbegins with ⟨more, hentry, -⟩
    have hdisk := (report_eq_ok h).2.2
    rw [hfile] at hdisk
    have hplace : σ.disk.entryAt? loc ≠ some .directory := by simp [hentry]
    have hput := hdisk.trans (appendRecord_of_shown (hlevel file hfile) hloc hplace)
    have hbytes : σ.disk.bytesAt loc = valueBytes v ++ more := by simp [Disk.bytesAt, hentry]
    refine ⟨loc, more ++ recordBytes file ⟨.info, builderChannel, message⟩, hleads', ?_, ?_⟩
    · rw [hput, Disk.entryAt?_putFile σ.disk hplace, if_pos rfl, hbytes, List.append_assoc]
    · simp [hlog', recordBytes_ne_nil]
  · have hlog' : ¬ σ'.LogsTo loc := fun hmem => hlog ((hfollows.logsTo_iff loc).1 hmem)
    rcases hbegins with ⟨more, hentry, hnone⟩
    have hmore := hnone hlog
    refine ⟨loc, more, hleads', ?_, by simp [hlog', hmore]⟩
    rw [((hreported.kept loc).unlogged hlog).entry, hentry]

/-- The log file of a command line shows at least what is for information. -/
theorem rank_level_logFileOf {env : Environment} {i : Invocation} {file : LogFile}
    (h : Command.logFileOf env i = some file) : file.level.rank ≤ Level.info.rank := by
  rcases Option.map_eq_some_iff.1 h with ⟨path, -, rfl⟩
  cases i.verbose with
  | true => simp [Level.shown, Level.rank]
  | false => simp [Level.shown, Level.rank]

/-- Among elements with a property there is a last one. -/
theorem exists_last {α : Type} {p : α → Prop} {xs : List α} (h : ∃ x ∈ xs, p x) :
    ∃ before x after, xs = before ++ x :: after ∧ p x ∧ ∀ y ∈ after, ¬ p y := by
  induction xs with
  | nil => simp at h
  | cons x xs ih =>
    by_cases hlater : ∃ y ∈ xs, p y
    · rcases ih hlater with ⟨before, y, after, hsplit, hy, hafter⟩
      exact ⟨x :: before, y, after, by rw [hsplit, List.cons_append], hy, hafter⟩
    · have hx : p x := by
        rcases h with ⟨y, hy, hp⟩
        rcases List.mem_cons.1 hy with rfl | hy
        · exact hp
        · exact absurd ⟨y, hy, hp⟩ hlater
      exact ⟨[], x, xs, rfl, hx, fun y hy hp => hlater ⟨y, hy, hp⟩⟩

/-- How the files at the end of a build agree with the index of its records. -/
structure RecordsAgree (s : Settings) (directory : Path) (records : List Documentation)
    (σ : Session) : Prop where
  /-- The file of the index holds the index of the records, unless it is the log file. -/
  index : σ.Holds (recordFile directory "index") (index s records) ↔
    ¬ σ.IsLog (recordFile directory "index")
  /-- The file named after a component of the index holds the record of that component exactly if
  its name is not that of the index, no later component has its name, and it is not the log file. -/
  record : ∀ before d after, records = before ++ d :: after →
    (σ.Holds (recordFile directory d.component.name) d.toValue ↔
      d.component.name ≠ "index" ∧ (∀ e ∈ after, e.component.name ≠ d.component.name) ∧
        ¬ σ.IsLog (recordFile directory d.component.name))
  /-- Where the name is taken, the file holds no record of the component at all. -/
  taken : ∀ before d after, records = before ++ d :: after →
    (d.component.name = "index" ∨ ∃ e ∈ after, e.component.name = d.component.name) →
      ∀ d' : Documentation, σ.Holds (recordFile directory d.component.name) d'.toValue →
        d'.component.filePath ≠ d.component.filePath

section Written

variable {s : Settings} {directory : Path} {records : List Documentation} {σ : Session}
  (hnodup : (records.map fun d => d.component.filePath).Nodup)
  (hindex : LastWritten σ (recordFile directory "index") (index s records))
  (hlast : ∀ before d after, records = before ++ d :: after → d.component.name ≠ "index" →
    (∀ e ∈ after, e.component.name ≠ d.component.name) →
    LastWritten σ (recordFile directory d.component.name) d.toValue)
  {before after : List Documentation} {d : Documentation}

include hnodup in
/-- Records are about different files. -/
theorem filePath_ne_of_mem_after (hsplit : records = before ++ d :: after) {e : Documentation}
    (he : e ∈ after) : d.component.filePath ≠ e.component.filePath := by
  rw [hsplit, List.map_append, List.map_cons] at hnodup
  have htail := (List.nodup_append.1 hnodup).2.1
  intro heq
  exact (List.nodup_cons.1 htail).1 (heq ▸ List.mem_map_of_mem he)

include hnodup hindex hlast in
/-- Where the name of a record is taken, the file holds something else. -/
theorem filePath_ne_of_taken (hsplit : records = before ++ d :: after)
    (hname : d.component.name = "index" ∨ ∃ e ∈ after, e.component.name = d.component.name)
    {d' : Documentation} (hholds : σ.Holds (recordFile directory d.component.name) d'.toValue) :
    d'.component.filePath ≠ d.component.filePath := by
  by_cases hreserved : d.component.name = "index"
  · rw [hreserved] at hholds
    rcases hindex.bytes_of_holds hholds with ⟨more, hbytes⟩
    exact absurd hbytes (valueBytes_index_append_ne s records d' more)
  · -- The file has the last record of the name, which is about another file than `d`.
    rcases exists_last (hname.resolve_left hreserved) with ⟨between, e, rest, hafter, he, hrest⟩
    have hsplitE : records = (before ++ d :: between) ++ e :: rest := by
      rw [hsplit, hafter, List.append_assoc, List.cons_append]
    have hwritten := hlast _ e rest hsplitE (he ▸ hreserved) fun x hx => he ▸ hrest x hx
    rw [he] at hwritten
    rcases hwritten.bytes_of_holds hholds with ⟨more, hbytes⟩
    have hpath : e.component.filePath = d'.component.filePath := filePath_of_valueBytes hbytes
    have hother : d.component.filePath ≠ e.component.filePath :=
      filePath_ne_of_mem_after hnodup hsplit (by simp [hafter])
    exact fun heq => hother (hpath.trans heq).symm

include hnodup hindex hlast in
/-- The last record of every name decides what is in its file. -/
theorem recordsAgree_of_lastWritten : RecordsAgree s directory records σ := by
  refine ⟨hindex.holds_iff, ?_, ?_⟩
  · intro before d after hsplit
    by_cases hname : d.component.name = "index" ∨
        ∃ e ∈ after, e.component.name = d.component.name
    · constructor
      · intro hholds
        exact absurd rfl (filePath_ne_of_taken hnodup hindex hlast hsplit hname hholds)
      · intro hall
        rcases hname with hreserved | ⟨e, he, hsame⟩
        · exact absurd hreserved hall.1
        · exact absurd hsame (hall.2.1 e he)
    · rcases not_or.1 hname with ⟨hreserved, hnone⟩
      have hlater : ∀ e ∈ after, e.component.name ≠ d.component.name :=
        fun e he hsame => hnone ⟨e, he, hsame⟩
      rw [(hlast before d after hsplit hreserved hlater).holds_iff]
      exact ⟨fun hlog => ⟨hreserved, hlater, hlog⟩, fun hall => hall.2.2⟩
  · intro before d after hsplit hname d' hholds
    exact filePath_ne_of_taken hnodup hindex hlast hsplit hname hholds

end Written

end Build

open Build in
/-- The index and the records at the end of every build that succeeds, in the session of any command
line. An entry of the index and the record of its component are made from the same `Documentation`,
so a file that holds the record has the path and the counts of the entry. -/
theorem build_records_agree {env : Environment} {s : Settings} {i : Invocation} {σ σ' : Session}
    {r : BuildResult} (hlog : σ.logFile = Command.logFileOf env i)
    (h : build env s σ = .ok r σ') :
    ∃ directory records, recordsDirectory env s = .ok directory ∧
      r.totals = Totals.ofRecords records ∧ RecordsAgree s directory records σ' := by
  rcases build_eq_ok h with ⟨directory, files, records, σ₁, σ₂, σ₃, σ₄, hdirectory, hmake,
    hdiscover, hfound, hrun, hindex, hsummary, htotals⟩
  have hwrite := Run.follows_of_writeValue hindex
  -- No step opens or closes a log file.
  have hlogFile : σ₄.logFile = σ.logFile := by
    calc
      σ₄.logFile = σ₃.logFile := hwrite.logFile
      _ = σ₂.logFile := hrun.follows.logFile
      _ = σ₁.logFile := hfound.logFile
      _ = σ.logFile := makePath_logFile hmake
  have hlevel : ∀ file, σ₄.logFile = some file → file.level.rank ≤ Level.info.rank := by
    intro file hfile
    rw [hlogFile, hlog] at hfile
    exact rank_level_logFileOf hfile
  refine ⟨directory, records, hdirectory, htotals, ?_⟩
  refine recordsAgree_of_lastWritten (hrun.filePaths_sublist.nodup (nodup_discover hdiscover)) ?_ ?_
  · rcases Run.begins_of_writeValue hindex with ⟨loc, hleads, hbegins⟩
    exact lastWritten_of_summary hsummary hlevel hleads hbegins
  · intro before d after hsplit hname hlater
    rcases hrun.begins hsplit hlater with ⟨loc, hleads, hbegins⟩
    -- The index goes to a file of another name.
    have hkept : Session.Kept σ₃ σ₄ loc := Run.kept_of_writeValue hindex fun hleads' =>
      hname (recordFile_inj hleads hleads')
    exact lastWritten_of_summary hsummary hlevel ((hwrite.leads_iff _ _).2 hleads)
      (hbegins.of_kept hwrite hkept)

/-! ## Two files of one name -/

/-- A project with two component files of one name. -/
def cardSession : Session where
  disk := { entries := [
    (["src"], .directory),
    (["src", "components"], .directory),
    (["src", "components", "Card.tsx"],
      .file (Text.encode "interface CardProps \x7b a: string \x7d".toList)),
    (["src", "components", "Card.jsx"],
      .file (Text.encode "interface CardProps \x7b b: string \x7d".toList))] }

/-- The settings of a project that says nothing about its catalog. -/
def cardSettings : Settings := { root := { root := "/" } }

theorem build_records_agree_cards :
    ∃ r σ' directory records,
      build { cwd := [], home := "/" } cardSettings cardSession = .ok r σ' ∧
      (Totals.ofRecords records).components = 2 ∧
      Build.RecordsAgree cardSettings directory records σ' := by
  have hcount : (match build { cwd := [], home := "/" } cardSettings cardSession with
      | .ok r _ => r.totals.components
      | .error _ _ => 0) = 2 := by
    decide +kernel
  cases hbuild : build { cwd := [], home := "/" } cardSettings cardSession with
  | error e σ' => simp [hbuild] at hcount
  | ok r σ' =>
    rw [hbuild] at hcount
    have hlog : cardSession.logFile =
        Command.logFileOf { cwd := [], home := "/" } { task := .build "." none } := rfl
    rcases build_records_agree hlog hbuild with ⟨directory, records, -, htotals, hagree⟩
    exact ⟨r, σ', directory, records, rfl, htotals ▸ hcount, hagree⟩

end PropCatalog
