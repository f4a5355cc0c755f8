import PropCatalog.Disk
import PropCatalog.Proofs.Fallible
import PropCatalog.Proofs.Path

/-!
# Disks — what an operation on files leaves alone

Where a path leads depends on the directories of a disk and the rights in them only, and giving a
file new bytes leaves these as they are. So a location that was found once stays where it is while
files are written.

- `entryAt?_putFile`, `allows_putFile` : what is at each location after a file was written
- `SameAt`, `SameDirectories` : disks that have the same at a location, or the same directories
- `locate_sameWay`    : disks with the same directories lead paths to the same locations
- `modify_eq_ok_iff`, `read_eq_ok_iff`, `readText_eq_disk_iff` : writing and reading, by locations
- `GrowsAt`           : what may become of a location when bytes are added to files
-/

namespace PropCatalog
namespace Disk

/-! ## Entries -/

@[simp] theorem entryAt?_nil (d : Disk) : d.entryAt? [] = some .directory := rfl

theorem entryAt?_put (d : Disk) {loc : Location} (hloc : loc ≠ []) (entry : DiskEntry)
    (at_ : Location) :
    (d.put loc entry).entryAt? at_ = if at_ = loc then some entry else d.entryAt? at_ := by
  by_cases hroot : at_ = []
  · have hne : [] ≠ loc := fun h => hloc h.symm
    simp [hroot, hne]
  by_cases hat : at_ = loc
  · simp [hat, entryAt?, put, hloc]
  -- Elsewhere the search passes the new entry and the removal of the old one goes unnoticed.
  have hfilter : (d.entries.filter (·.1 != loc)).find? (·.1 == at_) =
      d.entries.find? (·.1 == at_) := by
    rw [List.find?_filter]
    congr 1
    funext e
    by_cases he : e.1 = at_
    · simp [he, hat]
    · simp [he]
  have hloc_at : (loc == at_) = false := by simpa using fun h => hat h.symm
  simp only [entryAt?, put, List.find?_cons, hloc_at, hfilter, if_neg hat]

theorem entryAt?_create (d : Disk) {loc : Location} (hloc : loc ≠ []) (entry : DiskEntry)
    (at_ : Location) :
    (d.create loc entry).entryAt? at_ = if at_ = loc then some entry else d.entryAt? at_ :=
  d.entryAt?_put hloc entry at_

/-- The root is a directory, so a place without one is not the root. -/
theorem ne_nil_of_not_directory {d : Disk} {loc : Location}
    (h : d.entryAt? loc ≠ some .directory) : loc ≠ [] := by
  rintro rfl
  exact h rfl

theorem entryAt?_putFile (d : Disk) {loc : Location} (hloc : d.entryAt? loc ≠ some .directory)
    (bytes : List UInt8) (at_ : Location) :
    (d.putFile loc bytes).entryAt? at_ =
      if at_ = loc then some (.file bytes) else d.entryAt? at_ := by
  unfold putFile
  split
  · exact d.entryAt?_create (ne_nil_of_not_directory hloc) _ at_
  · exact d.entryAt?_put (ne_nil_of_not_directory hloc) _ at_

/-! ## Rights -/

theorem allows_create (d : Disk) (loc : Location) (entry : DiskEntry) (at_ : Location)
    (permission : Permission) :
    (d.create loc entry).allows at_ permission = (at_ == loc || d.allows at_ permission) := by
  by_cases hat : at_ = loc
  · simp [allows, create, hat]
  · simp [allows, create, hat]

/-- Where nothing is written and where something was before, the rights stay as they are. -/
theorem allows_putFile {d : Disk} {loc at_ : Location}
    (h : at_ ≠ loc ∨ d.entryAt? loc ≠ none) (bytes : List UInt8) (permission : Permission) :
    (d.putFile loc bytes).allows at_ permission = d.allows at_ permission := by
  unfold putFile
  split
  · rename_i hnone
    have hat : at_ ≠ loc := h.resolve_right fun hsome => hsome hnone
    simp [allows_create, hat]
  · rfl

/-- A new file is not denied to anyone. -/
theorem allows_putFile_of_none {d : Disk} {loc : Location} (h : d.entryAt? loc = none)
    (bytes : List UInt8) (permission : Permission) :
    (d.putFile loc bytes).allows loc permission = true := by
  simp [putFile, h, allows_create]

/-- The bytes of the file at a location; elsewhere there are none. -/
def bytesAt (d : Disk) (loc : Location) : List UInt8 :=
  match d.entryAt? loc with
  | some (.file bytes) => bytes
  | _ => []

/-! ## Disks compared -/

/-- Two disks have the same at a location, with the same rights. -/
structure SameAt (d d' : Disk) (loc : Location) : Prop where
  entry : d'.entryAt? loc = d.entryAt? loc
  rights : ∀ permission, d'.allows loc permission = d.allows loc permission

theorem SameAt.refl (d : Disk) (loc : Location) : SameAt d d loc :=
  ⟨rfl, fun _ => rfl⟩

theorem SameAt.symm {d d' : Disk} {loc : Location} (h : SameAt d d' loc) : SameAt d' d loc :=
  ⟨h.entry.symm, fun permission => (h.rights permission).symm⟩

theorem SameAt.trans {d d' d'' : Disk} {loc : Location} (h : SameAt d d' loc)
    (h' : SameAt d' d'' loc) : SameAt d d'' loc :=
  ⟨h'.entry.trans h.entry, fun permission => (h'.rights permission).trans (h.rights permission)⟩

/-- Writing a file leaves all other locations as they are. -/
theorem sameAt_putFile (d : Disk) {loc at_ : Location} (hloc : d.entryAt? loc ≠ some .directory)
    (hat : at_ ≠ loc) (bytes : List UInt8) : SameAt d (d.putFile loc bytes) at_ :=
  ⟨by rw [entryAt?_putFile d hloc, if_neg hat], allows_putFile (.inl hat) bytes⟩

/-- Two disks have the same directories, with the same rights in them. -/
def SameDirectories (d d' : Disk) : Prop :=
  ∀ loc, d.entryAt? loc = some .directory ∨ d'.entryAt? loc = some .directory → SameAt d d' loc

theorem SameDirectories.refl (d : Disk) : SameDirectories d d :=
  fun loc _ => SameAt.refl d loc

theorem SameDirectories.symm {d d' : Disk} (h : SameDirectories d d') : SameDirectories d' d :=
  fun loc hloc => (h loc hloc.symm).symm

theorem SameDirectories.directory_iff {d d' : Disk} (h : SameDirectories d d') (loc : Location) :
    d'.entryAt? loc = some .directory ↔ d.entryAt? loc = some .directory :=
  ⟨fun hthere => (h loc (.inr hthere)).entry ▸ hthere,
    fun hthere => (h loc (.inl hthere)).entry.trans hthere⟩

theorem SameDirectories.trans {d d' d'' : Disk} (h : SameDirectories d d')
    (h' : SameDirectories d' d'') : SameDirectories d d'' := by
  intro loc hloc
  rw [h'.directory_iff, h.directory_iff, or_self] at hloc
  exact (h loc (.inl hloc)).trans (h' loc (.inl ((h.directory_iff loc).2 hloc)))

/-- Writing a file where no directory is leaves the directories as they are. -/
theorem sameDirectories_putFile (d : Disk) {loc : Location}
    (hloc : d.entryAt? loc ≠ some .directory) (bytes : List UInt8) :
    SameDirectories d (d.putFile loc bytes) := by
  intro at_ hat
  have hne : at_ ≠ loc := by
    rintro rfl
    rw [entryAt?_putFile d hloc, if_pos rfl] at hat
    rcases hat with hat | hat
    · exact hloc hat
    · cases hat
  exact sameAt_putFile d hloc hne bytes

/-! ## Paths -/

theorem enter_eq_ok_iff (d : Disk) (here : Location) (part : String) (loc : Location) :
    d.enter here part = .ok loc ↔
      d.entryAt? here = some .directory ∧ d.allows here .search = true ∧
        ((part = ".." ∧ loc = here.dropLast) ∨
          part ≠ ".." ∧ byteLength part ≤ partLimit ∧ loc = here ++ [part]) := by
  unfold enter
  cases hentry : d.entryAt? here with
  | none => simp
  | some entry =>
    cases entry with
    | file bytes => simp
    | directory =>
      cases hsearch : d.allows here .search with
      | false => simp
      | true =>
        by_cases hup : part = ".."
        · simp [hup, eq_comm]
        · by_cases hlong : partLimit < byteLength part
          · simp [hup, hlong, Nat.not_le.2 hlong]
          · rw [if_neg (by simp), if_neg (by simpa using hup), if_neg hlong]
            simp only [true_and, hup, false_and, false_or, not_false_eq_true, ne_eq,
              Except.ok.injEq, eq_comm, and_iff_right (Nat.not_lt.1 hlong)]

/-- What two disks say about a path, if they are not told apart by why nothing is there. -/
inductive SameWay : Except DiskFault Location → Except DiskFault Location → Prop
  | same (way : Except DiskFault Location) : SameWay way way
  | absent {fault fault' : DiskFault} : fault.isAbsence = true → fault'.isAbsence = true →
      SameWay (.error fault) (.error fault')

theorem enter_sameWay {d d' : Disk} (h : SameDirectories d d') (here : Location) (part : String) :
    SameWay (d.enter here part) (d'.enter here part) := by
  by_cases hhere : d.entryAt? here = some .directory
  · have hsame : d'.enter here part = d.enter here part := by
      simp only [enter, (h here (.inl hhere)).entry, (h here (.inl hhere)).rights]
    rw [hsame]
    exact .same _
  · -- Nothing is entered on either disk, be it for a file or for nothing.
    have hnone : ∀ d : Disk, d.entryAt? here ≠ some .directory →
        ∃ fault, d.enter here part = .error fault ∧ fault.isAbsence = true := by
      intro d hd
      unfold enter
      split
      · exact ⟨_, rfl, rfl⟩
      · exact ⟨_, rfl, rfl⟩
      · exact absurd ‹_› hd
    rcases hnone d hhere with ⟨fault, hfault, habsent⟩
    rcases hnone d' fun hthere => hhere ((h.directory_iff here).1 hthere) with
      ⟨fault', hfault', habsent'⟩
    rw [hfault, hfault']
    exact .absent habsent habsent'

/-- Disks with the same directories lead a path to the same location. -/
theorem locate_sameWay {d d' : Disk} (h : SameDirectories d d') (cwd : Location) (p : Path) :
    SameWay (d.locate cwd p) (d'.locate cwd p) := by
  unfold locate
  split
  · exact .same _
  generalize (if p.isAbsolute then [] else cwd) = here
  -- Part by part both walks are at the same location, or both have ended with nothing there.
  induction p.parts generalizing here with
  | nil => exact .same _
  | cons part parts ih =>
    rw [List.foldlM_cons, List.foldlM_cons]
    have hstep := enter_sameWay h here part
    generalize d.enter here part = way at hstep
    generalize d'.enter here part = way' at hstep
    cases hstep with
    | same =>
      cases way with
      | error fault => exact .same _
      | ok next => exact ih next
    | absent habsent habsent' => exact .absent habsent habsent'

theorem locate_eq_ok_iff {d d' : Disk} (h : SameDirectories d d') (cwd : Location) (p : Path)
    (loc : Location) : d'.locate cwd p = .ok loc ↔ d.locate cwd p = .ok loc := by
  have hway := locate_sameWay h cwd p
  generalize d.locate cwd p = way at hway
  generalize d'.locate cwd p = way' at hway
  cases hway with
  | same => rfl
  | absent => simp

theorem length_encode_pos {cs : List Char} (h : cs ≠ []) : 0 < (Text.encode cs).length := by
  rcases List.exists_cons_of_ne_nil h with ⟨c, rest, rfl⟩
  have hfirst : 0 < (String.utf8EncodeChar c).length :=
    List.length_pos_iff.2 String.utf8EncodeChar_ne_nil
  simp only [Text.encode, List.flatMap_cons, List.length_append]
  omega

/-- The text of a directory is not longer than that of what is in it. -/
theorem byteLength_toString_le_child (p : Path) {name : String} (h : name ≠ "") :
    byteLength p.toString ≤ byteLength (p.child name).toString := by
  rcases p.toList_toString_child h with ⟨more, hmore, hchild⟩
  have hpos := length_encode_pos hmore
  have hdot : (Text.encode ['.']).length = 1 := by decide
  have happend : (Text.encode (p.root.toList ++ slashed p.parts ++ more)).length =
      (Text.encode (p.root.toList ++ slashed p.parts)).length + (Text.encode more).length := by
    rw [Text.encode, List.flatMap_append, List.length_append, ← Text.encode, ← Text.encode]
  rw [byteLength, byteLength, hchild, p.toList_toString, happend]
  split
  · rw [hdot]
    omega
  · exact Nat.le_add_right _ _

/-- The location of a child is one step below that of the directory. -/
theorem locate_child {d : Disk} {cwd : Location} {p : Path} {name : String} (hup : name ≠ "..")
    (hsome : name ≠ "") {loc : Location} (h : d.locate cwd (p.child name) = .ok loc) :
    ∃ here, d.locate cwd p = .ok here ∧ loc = here ++ [name] := by
  have habs : (p.child name).isAbsolute = p.isAbsolute := rfl
  have hparts : (p.child name).parts = p.parts ++ [name] := rfl
  have hlength := byteLength_toString_le_child p hsome
  unfold locate at h
  split at h
  · cases h
  · rename_i hlimit
    -- The walk to the child is the walk to the directory and one step more.
    rw [habs, hparts, List.foldlM_append] at h
    rcases bind_eq_ok_iff.1 h with ⟨here, hhere, hlast⟩
    rcases foldlM_cons_eq_ok_iff.1 hlast with ⟨next, hnext, hdone⟩
    cases hdone
    refine ⟨here, ?_, ?_⟩
    · rw [locate, if_neg (by omega), hhere]
    · rcases (enter_eq_ok_iff d here name loc).1 hnext with ⟨-, -, ⟨hup', -⟩ | ⟨-, -, hloc⟩⟩
      · exact absurd hup' hup
      · exact hloc

/-! ## Existence -/

/-- A path of which it cannot be told where it leads: something on the way is denied, or a name is
too long. -/
def Unknowable (d : Disk) (cwd : Location) (p : Path) : Prop :=
  ∃ fault, d.locate cwd p = .error fault ∧ fault.isAbsence = false

theorem unknowable_congr {d d' : Disk} (h : SameDirectories d d') (cwd : Location) (p : Path) :
    d'.Unknowable cwd p ↔ d.Unknowable cwd p := by
  unfold Unknowable
  have hway := locate_sameWay h cwd p
  generalize d.locate cwd p = way at hway
  generalize d'.locate cwd p = way' at hway
  cases hway with
  | same => rfl
  | absent habsent habsent' => simp [habsent, habsent']

/-- What is asked about the entry at a path fails exactly if it cannot be told where this is. -/
theorem exists_lookup_eq_error_iff {α : Type} (d : Disk) (cwd : Location) (p : Path)
    (f : Option DiskEntry → α) :
    (∃ e, (d.lookup cwd p).map f = .error e) ↔ d.Unknowable cwd p := by
  unfold lookup Unknowable
  cases d.locate cwd p with
  | ok loc => simp [Except.map]
  | error fault => cases habsent : fault.isAbsence <;> simp [Except.map, habsent]

theorem has_eq_true_iff (d : Disk) (cwd : Location) (p : Path) :
    d.has cwd p = .ok true ↔ ∃ loc, d.locate cwd p = .ok loc ∧ d.entryAt? loc ≠ none := by
  unfold has lookup
  cases d.locate cwd p with
  | error fault => cases habsent : fault.isAbsence <;> simp [Except.map, habsent]
  | ok loc => simp [Except.map, Option.ne_none_iff_isSome]

/-- Which paths lead to directories depends on the directories of a disk only. -/
theorem isDirectory_congr {d d' : Disk} (h : SameDirectories d d') (cwd : Location) (p : Path) :
    d'.isDirectory cwd p = d.isDirectory cwd p := by
  unfold isDirectory lookup
  have hway := locate_sameWay h cwd p
  generalize d.locate cwd p = way at hway
  generalize d'.locate cwd p = way' at hway
  cases hway with
  | absent habsent habsent' => simp [habsent, habsent', Except.map]
  | same =>
    cases way with
    | error fault => rfl
    | ok loc =>
      have hsame : (d'.entryAt? loc == some .directory) = (d.entryAt? loc == some .directory) := by
        rw [Bool.eq_iff_iff, beq_iff_eq, beq_iff_eq]
        exact h.directory_iff loc
      simp only [Except.map, hsame]

/-! ## Files -/

theorem read_eq_ok_iff (d : Disk) (cwd : Location) (p : Path) (bytes : List UInt8) :
    d.read cwd p = .ok bytes ↔
      ∃ loc, d.locate cwd p = .ok loc ∧ d.entryAt? loc = some (.file bytes) ∧
        d.allows loc .read = true := by
  unfold read
  cases hloc : d.locate cwd p with
  | error fault => simp
  | ok loc =>
    cases hentry : d.entryAt? loc with
    | none => simp [hentry]
    | some entry =>
      cases hread : d.allows loc .read with
      | false => simp [hentry, hread]
      | true => cases entry <;> simp [hentry, hread]

/-- Whether a file can be written at a location. -/
inductive CanWrite (d : Disk) (loc : Location) : Prop
  /-- A new file is made in its directory. -/
  | new : d.entryAt? loc = none → d.allows loc.dropLast .write = true → CanWrite d loc
  | file {bytes : List UInt8} : d.entryAt? loc = some (.file bytes) →
      d.allows loc .write = true → CanWrite d loc

theorem CanWrite.not_directory {d : Disk} {loc : Location} (h : d.CanWrite loc) :
    d.entryAt? loc ≠ some .directory := by
  cases h with
  | new hentry _ => simp [hentry]
  | file hentry _ => simp [hentry]

theorem canWrite_iff {d : Disk} {loc : Location} :
    d.CanWrite loc ↔
      (d.entryAt? loc = none ∧ d.allows loc.dropLast .write = true) ∨
        ∃ bytes, d.entryAt? loc = some (.file bytes) ∧ d.allows loc .write = true := by
  constructor
  · rintro (⟨hentry, hallowed⟩ | ⟨hentry, hallowed⟩)
    · exact .inl ⟨hentry, hallowed⟩
    · exact .inr ⟨_, hentry, hallowed⟩
  · rintro (⟨hentry, hallowed⟩ | ⟨bytes, hentry, hallowed⟩)
    · exact .new hentry hallowed
    · exact .file hentry hallowed

/-- A file is given new bytes where its path leads, if it can be written there. -/
theorem modify_eq_ok_iff (d : Disk) (cwd : Location) (p : Path) (f : List UInt8 → List UInt8)
    (d' : Disk) :
    d.modify cwd p f = .ok d' ↔
      ∃ loc, d.locate cwd p = .ok loc ∧ d.CanWrite loc ∧
        d' = d.putFile loc (f (d.bytesAt loc)) := by
  -- A file that is not there yet begins with no bytes, which is what `bytesAt` says of it.
  unfold modify bytesAt
  simp only [canWrite_iff]
  cases hloc : d.locate cwd p with
  | error fault => simp
  | ok loc =>
    cases hentry : d.entryAt? loc with
    | none =>
      cases hallowed : d.allows loc.dropLast .write with
      | false => simp [hentry, hallowed]
      | true => simpa [hentry, hallowed] using eq_comm
    | some entry =>
      cases entry with
      | directory => simp [hentry]
      | file bytes =>
        cases hallowed : d.allows loc .write with
        | false => simp [hentry, hallowed]
        | true => simpa [hentry, hallowed] using eq_comm

/-- What is at a path and cannot be read: a directory, or anything of which reading is denied. -/
def Unreadable (d : Disk) (cwd : Location) (p : Path) : Prop :=
  ∃ loc entry, d.locate cwd p = .ok loc ∧ d.entryAt? loc = some entry ∧
    (entry = .directory ∨ d.allows loc .read = false)

theorem has_of_readText {d : Disk} {cwd : Location} {p : Path} {text : String}
    (h : d.readText cwd p = .ok text) : d.has cwd p = .ok true := by
  unfold readText at h
  cases hread : d.read cwd p with
  | error e =>
    rw [hread] at h
    cases h
  | ok bytes =>
    rcases (read_eq_ok_iff d cwd p bytes).1 hread with ⟨loc, hloc, hentry, -⟩
    exact (has_eq_true_iff d cwd p).2 ⟨loc, hloc, by simp [hentry]⟩

theorem has_of_unreadable {d : Disk} {cwd : Location} {p : Path} (h : d.Unreadable cwd p) :
    d.has cwd p = .ok true := by
  rcases h with ⟨loc, entry, hloc, hentry, -⟩
  exact (has_eq_true_iff d cwd p).2 ⟨loc, hloc, by simp [hentry]⟩

/-- What is there fails to be read exactly if it is unreadable. -/
theorem readText_eq_disk_iff {d : Disk} {cwd : Location} {p : Path} (h : d.has cwd p = .ok true) :
    (∃ e, d.readText cwd p = .error (.disk e)) ↔ d.Unreadable cwd p := by
  rcases (has_eq_true_iff d cwd p).1 h with ⟨loc, hloc, hsome⟩
  rcases Option.ne_none_iff_exists'.1 hsome with ⟨entry, hentry⟩
  unfold readText read Unreadable
  cases hread : d.allows loc .read with
  | false => simp [hloc, hentry, hread]
  | true =>
    cases entry with
    | directory => simp [hloc, hentry, hread]
    | file bytes => cases hdecode : Text.decodeStrict? bytes <;> simp [hloc, hentry, hread, hdecode]

/-- Writing a file makes nothing readable that was not, and nothing unreadable. -/
theorem unreadable_putFile_iff {d : Disk} {loc : Location} (hloc : d.entryAt? loc ≠ some .directory)
    (bytes : List UInt8) (cwd : Location) (p : Path) :
    (d.putFile loc bytes).Unreadable cwd p ↔ d.Unreadable cwd p := by
  -- The path leads where it led, so only what is there has to be compared.
  refine exists_congr fun at_ => ?_
  simp only [locate_eq_ok_iff (sameDirectories_putFile d hloc bytes)]
  by_cases hat : at_ = loc
  · subst hat
    rw [entryAt?_putFile d hloc, if_pos rfl]
    cases hentry : d.entryAt? at_ with
    | none => simp [allows_putFile_of_none hentry]
    | some entry =>
      cases entry with
      | directory => exact absurd hentry hloc
      | file old => simp [allows_putFile (.inr (by simp [hentry] : d.entryAt? at_ ≠ none))]
  · rw [(sameAt_putFile d hloc hat bytes).entry, (sameAt_putFile d hloc hat bytes).rights]

/-! ## Growth -/

/-- What may become of an entry when bytes are only ever added to files. -/
inductive Grows : Option DiskEntry → Option DiskEntry → Prop
  | same (entry : Option DiskEntry) : Grows entry entry
  | created (bytes : List UInt8) : Grows none (some (.file bytes))
  | extended (bytes more : List UInt8) :
      Grows (some (.file bytes)) (some (.file (bytes ++ more)))

namespace Grows

theorem trans {e e' e'' : Option DiskEntry} (h : Grows e e') (h' : Grows e' e'') :
    Grows e e'' := by
  cases h with
  | same => exact h'
  | created bytes =>
    -- What was created may have grown since, and counts as created with all its bytes.
    cases h' with
    | same => exact .created bytes
    | extended _ more => exact .created (bytes ++ more)
  | extended bytes more =>
    cases h' with
    | same => exact .extended bytes more
    | extended _ more' => simpa using Grows.extended bytes (more ++ more')

theorem directory_iff {e e' : Option DiskEntry} (h : Grows e e') :
    e' = some .directory ↔ e = some .directory := by
  cases h with
  | same => rfl
  | created bytes => simp
  | extended bytes more => simp

theorem ne_none {e e' : Option DiskEntry} (h : Grows e e') (he : e ≠ none) : e' ≠ none := by
  cases h with
  | same => exact he
  | created bytes => simp
  | extended bytes more => simp

/-- A file that grows begins with the bytes it had. -/
theorem of_file {bytes : List UInt8} {e' : Option DiskEntry} (h : Grows (some (.file bytes)) e') :
    ∃ more, e' = some (.file (bytes ++ more)) := by
  cases h with
  | same => exact ⟨[], by simp⟩
  | extended _ more => exact ⟨more, rfl⟩

end Grows

/-- A location where bytes were only ever added to files, by which rights are not touched. -/
structure GrowsAt (d d' : Disk) (loc : Location) : Prop where
  entry : Grows (d.entryAt? loc) (d'.entryAt? loc)
  rights : d.entryAt? loc ≠ none → ∀ permission, d'.allows loc permission = d.allows loc permission

theorem SameAt.growsAt {d d' : Disk} {loc : Location} (h : SameAt d d' loc) : GrowsAt d d' loc :=
  ⟨h.entry ▸ .same _, fun _ => h.rights⟩

theorem GrowsAt.trans {d d' d'' : Disk} {loc : Location} (h : GrowsAt d d' loc)
    (h' : GrowsAt d' d'' loc) : GrowsAt d d'' loc := by
  refine ⟨h.entry.trans h'.entry, fun hthere permission => ?_⟩
  rw [h'.rights (h.entry.ne_none hthere), h.rights hthere]

/-- Where only bytes were added, directories stay as they are. -/
theorem sameDirectories_of_growsAt {d d' : Disk} (h : ∀ loc, GrowsAt d d' loc) :
    SameDirectories d d' := by
  intro loc hloc
  rw [(h loc).entry.directory_iff, or_self] at hloc
  refine ⟨((h loc).entry.directory_iff.2 hloc).trans hloc.symm, (h loc).rights ?_⟩
  simp [hloc]

/-- Appending bytes to a file makes it grow and leaves the others alone. -/
theorem growsAt_putFile_append (d : Disk) {loc : Location}
    (hloc : d.entryAt? loc ≠ some .directory) (more : List UInt8) (at_ : Location) :
    GrowsAt d (d.putFile loc (d.bytesAt loc ++ more)) at_ := by
  by_cases hat : at_ = loc
  · subst hat
    refine ⟨?_, fun hthere => allows_putFile (.inr hthere) _⟩
    rw [entryAt?_putFile d hloc, if_pos rfl]
    unfold bytesAt
    cases hentry : d.entryAt? at_ with
    | none => simpa using Grows.created more
    | some entry =>
      cases entry with
      | directory => exact absurd hentry hloc
      | file bytes => simpa using Grows.extended bytes more
  · exact (sameAt_putFile d hloc hat _).growsAt

end Disk
end PropCatalog
