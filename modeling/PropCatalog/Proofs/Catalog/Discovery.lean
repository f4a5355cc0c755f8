import Mathlib.Data.List.Lex
import Mathlib.Data.List.Nodup
import Mathlib.Data.List.Perm.Basic
import Mathlib.Data.String.Basic
import PropCatalog.Catalog.Discover
import PropCatalog.Proofs.Disk
import PropCatalog.Proofs.Pattern.Glob

/-!
# Discovery — which files are found, whatever is in them

The component files of a project depend on where its files and directories are. What a file holds
plays no part, nor does the order in which a disk lists its entries, since the paths of a pattern
are sorted.

- `Disk.DifferAt`         : two disks that differ in the bytes of one file
- `DifferAt.makePath`     : making directories keeps the two alike
- `Glob.select_perm`      : a pattern finds the same paths on both
- `candidates_eq_ok_iff`  : what the patterns find, pattern by pattern
- `mergeSort_eq_of_perm`  : paths below one directory have one sorted order
- `discover_eq`           : the same component files are found on both
-/

namespace PropCatalog

/-! ## Disks that differ in one file -/

namespace Disk

/-- What an entry shows without being read: whether it is a directory. -/
def kind (entry : Option DiskEntry) : Option Bool :=
  entry.map (· == .directory)

/-- The locations of a disk with the kinds of their entries. -/
def listing (d : Disk) : List (Location × Bool) :=
  d.entries.map fun e => (e.1, e.2 == .directory)

/-- The name in a directory that an entry of a listing has, with its kind. -/
def childOf? (here : Location) (e : Location × Bool) : Option (String × Bool) :=
  match here.isPrefixOf e.1, e.1.drop here.length with
  | true, [name] => some (name, e.2)
  | _, _ => none

/-- The way below a directory to an entry of a listing, if that is a directory. -/
def directoryBelow? (here : Location) (e : Location × Bool) : Option (List String) :=
  match e.2, here.isPrefixOf e.1, e.1.drop here.length with
  | true, true, name :: names => some (name :: names)
  | _, _, _ => none

/-- Two disks with the same entries, in whatever order, up to the bytes of the file at `loc`, and
with the same rights. -/
structure DifferAt (loc : Location) (d d' : Disk) : Prop where
  listing : d'.listing.Perm d.listing
  elsewhere : ∀ at_, at_ ≠ loc → d'.entryAt? at_ = d.entryAt? at_
  file : ∃ bytes, d.entryAt? loc = some (.file bytes)
  file' : ∃ bytes, d'.entryAt? loc = some (.file bytes)
  denials : d'.denials = d.denials

theorem kind_eq_some_true_iff {entry : Option DiskEntry} :
    kind entry = some true ↔ entry = some .directory := by
  cases entry <;> simp [kind]

theorem kind_eq_none_iff {entry : Option DiskEntry} : kind entry = none ↔ entry = none := by
  simp [kind]

/-- Giving a file other bytes makes a disk that differs in this file. -/
theorem differAt_put {d : Disk} {loc : Location} {old : List UInt8}
    (hnodup : (d.entries.map Prod.fst).Nodup) (hfile : d.entryAt? loc = some (.file old))
    (bytes : List UInt8) : DifferAt loc d (d.put loc (.file bytes)) := by
  have hroot : loc ≠ [] := by
    intro hnil
    simp [hnil] at hfile
  refine ⟨?_, ?_, ⟨old, hfile⟩, ⟨bytes, ?_⟩, rfl⟩
  · simp only [entryAt?, beq_iff_eq, hroot, if_false] at hfile
    rcases Option.map_eq_some_iff.1 hfile with ⟨e, hfind, he⟩
    rcases List.find?_eq_some_iff_append.1 hfind with ⟨hloc, before, after, hentries, -⟩
    -- The entry moves to the front, and there is no second entry at its location.
    rw [beq_iff_eq] at hloc
    rw [hentries, List.map_append, List.map_cons, List.nodup_middle, List.nodup_cons, hloc,
      ← List.map_append] at hnodup
    have hothers : d.entries.filter (·.1 != loc) = before ++ after := by
      have hkept : (before ++ after).filter (·.1 != loc) = before ++ after := by
        refine List.filter_eq_self.2 fun e' he' => ?_
        simpa using fun heq : e'.1 = loc => hnodup.1 (heq ▸ List.mem_map_of_mem he')
      rw [← hkept, hentries]
      simp [hloc]
    have hsame : (e.1, e.2 == DiskEntry.directory) = (loc, false) := by
      rw [hloc, he]
      rfl
    unfold Disk.listing put
    rw [hothers, hentries, List.map_append, List.map_cons, List.map_cons, List.map_append, hsame]
    exact List.perm_middle.symm
  · intro at_ hat
    rw [entryAt?_put d hroot, if_neg hat]
  · rw [entryAt?_put d hroot, if_pos rfl]

namespace DifferAt

variable {loc : Location} {d d' : Disk} (h : DifferAt loc d d')

include h

theorem kind_entryAt? (at_ : Location) : kind (d'.entryAt? at_) = kind (d.entryAt? at_) := by
  by_cases hat : at_ = loc
  · rcases h.file with ⟨bytes, hbytes⟩
    rcases h.file' with ⟨bytes', hbytes'⟩
    rw [hat, hbytes, hbytes']
    rfl
  · rw [h.elsewhere at_ hat]

theorem allows (at_ : Location) (permission : Permission) :
    d'.allows at_ permission = d.allows at_ permission := by
  rw [Disk.allows, Disk.allows, h.denials]

theorem sameDirectories : SameDirectories d d' := by
  intro at_ hat
  refine ⟨h.elsewhere at_ ?_, h.allows at_⟩
  rintro rfl
  rcases h.file with ⟨bytes, hbytes⟩
  rcases h.file' with ⟨bytes', hbytes'⟩
  simp [hbytes, hbytes'] at hat

/-! ### Paths -/

theorem enter (here : Location) (part : String) : d'.enter here part = d.enter here part := by
  have hkind := h.kind_entryAt? here
  unfold Disk.enter
  rw [h.allows]
  -- A step along a path asks for the kind of the entry only.
  rcases hentry : d.entryAt? here with _ | (_ | bytes) <;>
    rcases hentry' : d'.entryAt? here with _ | (_ | bytes') <;>
    simp [hentry, hentry', kind] at hkind <;> rfl

theorem locate (cwd : Location) (p : Path) : d'.locate cwd p = d.locate cwd p := by
  have henter : d'.enter = d.enter := by
    funext here part
    exact h.enter here part
  rw [Disk.locate, Disk.locate, henter]

/-- What is asked about the entry at a path has the same answer on both disks if it is about the
kind of the entry. -/
theorem map_lookup {α : Type} {f : Option DiskEntry → α}
    (hf : ∀ entry entry', kind entry' = kind entry → f entry' = f entry) (cwd : Location)
    (p : Path) : (d'.lookup cwd p).map f = (d.lookup cwd p).map f := by
  unfold Disk.lookup
  rw [h.locate]
  cases d.locate cwd p with
  | error fault => rfl
  | ok at_ => exact congrArg Except.ok (hf _ _ (h.kind_entryAt? at_))

theorem has (cwd : Location) (p : Path) : d'.has cwd p = d.has cwd p := by
  refine h.map_lookup (fun entry entry' hkind => ?_) cwd p
  rcases entry with _ | _ <;> rcases entry' with _ | _ <;> simp [kind] at hkind <;> rfl

theorem isDirectory (cwd : Location) (p : Path) : d'.isDirectory cwd p = d.isDirectory cwd p := by
  refine h.map_lookup (fun entry entry' hkind => ?_) cwd p
  rw [Bool.eq_iff_iff, beq_iff_eq, beq_iff_eq, ← kind_eq_some_true_iff, hkind,
    kind_eq_some_true_iff]

theorem isFile (cwd : Location) (p : Path) : d'.isFile cwd p = d.isFile cwd p := by
  refine h.map_lookup (fun entry entry' hkind => ?_) cwd p
  rcases entry with _ | (_ | bytes) <;> rcases entry' with _ | (_ | bytes') <;>
    simp [kind] at hkind <;> rfl

theorem openDirectory (cwd : Location) (p : Path) :
    d'.openDirectory cwd p = d.openDirectory cwd p := by
  unfold Disk.openDirectory
  rw [h.locate]
  cases d.locate cwd p with
  | error fault => rfl
  | ok at_ =>
    have hkind := h.kind_entryAt? at_
    rcases hentry : d.entryAt? at_ with _ | (_ | bytes) <;>
      rcases hentry' : d'.entryAt? at_ with _ | (_ | bytes') <;>
      simp [hentry, hentry', kind] at hkind <;> simp only [hentry, hentry', h.allows]

/-! ### Making directories -/

theorem create_directory {at_ : Location} (hnone : d.entryAt? at_ = none) :
    DifferAt loc (d.create at_ .directory) (d'.create at_ .directory) := by
  have hroot : at_ ≠ [] := by
    intro hnil
    simp [hnil] at hnone
  have hloc : loc ≠ at_ := by
    intro heq
    rcases h.file with ⟨bytes, hbytes⟩
    rw [heq, hnone] at hbytes
    cases hbytes
  have hlisting : ∀ d : Disk, (d.create at_ .directory).listing =
      (at_, true) :: d.listing.filter (·.1 != at_) := by
    intro d
    simp [Disk.listing, create, put, List.filter_map, Function.comp_def]
  refine ⟨?_, ?_, ?_, ?_, ?_⟩
  · rw [hlisting, hlisting]
    exact (h.listing.filter _).cons _
  · intro other hother
    rw [entryAt?_create _ hroot, entryAt?_create _ hroot, h.elsewhere other hother]
  · rw [entryAt?_create _ hroot, if_neg hloc]
    exact h.file
  · rw [entryAt?_create _ hroot, if_neg hloc]
    exact h.file'
  · rw [create, create, h.denials]

/-- Making a directory fails alike on both disks, or leaves disks that differ in the same file. -/
theorem makeDirectory (cwd : Location) (p : Path) :
    (∃ e, d.makeDirectory cwd p = .error e ∧ d'.makeDirectory cwd p = .error e) ∨
      ∃ made made', d.makeDirectory cwd p = .ok made ∧ d'.makeDirectory cwd p = .ok made' ∧
        DifferAt loc made made' := by
  unfold Disk.makeDirectory
  rw [h.locate]
  cases d.locate cwd p with
  | error fault => exact Or.inl ⟨_, rfl, rfl⟩
  | ok at_ =>
    have hkind := h.kind_entryAt? at_
    cases hentry : d.entryAt? at_ with
    | none =>
      have hentry' : d'.entryAt? at_ = none := by
        rw [hentry] at hkind
        exact kind_eq_none_iff.1 hkind
      simp only [hentry, hentry', h.allows]
      cases d.allows at_.dropLast .write with
      | false => exact Or.inl ⟨_, rfl, rfl⟩
      | true => exact Or.inr ⟨_, _, rfl, rfl, h.create_directory hentry⟩
    | some entry =>
      cases hentry' : d'.entryAt? at_ with
      | none =>
        rw [hentry, hentry'] at hkind
        cases hkind
      | some entry' =>
        exact Or.inl ⟨⟨.taken, p⟩, by simp only [hentry], by simp only [hentry']⟩

end DifferAt

/-- One attempt to make a directory that may be there already. -/
def attempt (d : Disk) (cwd : Location) (p : Path) : Disk × Option DiskError :=
  match d.makeDirectory cwd p with
  | .ok made => (made, none)
  | .error e => if e.fault == .missing then (d, some e) else d.settle cwd p e

theorem makeReversed_cons (d : Disk) (cwd : Location) (root name : String) (above : List String) :
    d.makeReversed cwd root (name :: above) =
      let p : Path := { root, parts := (name :: above).reverse }
      match d.makeDirectory cwd p with
      | .ok made => (made, none)
      | .error e =>
        if e.fault == .missing then
          match d.makeReversed cwd root above with
          | (made, some e) => (made, some e)
          | (made, none) => made.attempt cwd p
        else d.settle cwd p e := rfl

/-- Two outcomes with the same failure, if any, on disks that differ in one file. -/
def Alike (loc : Location) (x x' : Disk × Option DiskError) : Prop :=
  x'.2 = x.2 ∧ DifferAt loc x.1 x'.1

namespace DifferAt

variable {loc : Location} {d d' : Disk}

theorem settle (h : DifferAt loc d d') (cwd : Location) (p : Path) (e : DiskError) :
    Alike loc (d.settle cwd p e) (d'.settle cwd p e) := by
  unfold Disk.settle
  rw [h.isDirectory]
  split
  · exact ⟨rfl, h⟩
  · exact ⟨rfl, h⟩

theorem attempt (h : DifferAt loc d d') (cwd : Location) (p : Path) :
    Alike loc (d.attempt cwd p) (d'.attempt cwd p) := by
  unfold Disk.attempt
  rcases h.makeDirectory cwd p with ⟨e, herror, herror'⟩ | ⟨made, made', hmade, hmade', hdiffer⟩
  · simp only [herror, herror']
    by_cases hmissing : (e.fault == .missing) = true
    · rw [if_pos hmissing, if_pos hmissing]
      exact ⟨rfl, h⟩
    · rw [if_neg hmissing, if_neg hmissing]
      exact h.settle cwd p e
  · simp only [hmade, hmade']
    exact ⟨rfl, hdiffer⟩

theorem makeReversed (h : DifferAt loc d d') (cwd : Location) (root : String)
    (reversed : List String) :
    Alike loc (d.makeReversed cwd root reversed) (d'.makeReversed cwd root reversed) := by
  induction reversed with
  | nil => exact h.attempt cwd { root }
  | cons name above ih =>
    rw [makeReversed_cons, makeReversed_cons]
    dsimp only
    rcases h.makeDirectory cwd { root, parts := (name :: above).reverse } with
      ⟨e, herror, herror'⟩ | ⟨made, made', hmade, hmade', hdiffer⟩
    · simp only [herror, herror']
      by_cases hmissing : (e.fault == .missing) = true
      · rw [if_pos hmissing, if_pos hmissing]
        -- The directories above are made first, and then there is one more attempt.
        rcases hup : d.makeReversed cwd root above with ⟨made, error⟩
        rcases hup' : d'.makeReversed cwd root above with ⟨made', error'⟩
        rw [hup, hup'] at ih
        rcases ih with ⟨hsame, hdiffer⟩
        dsimp only at hsame hdiffer
        subst hsame
        cases error' with
        | some e => exact ⟨rfl, hdiffer⟩
        | none => exact hdiffer.attempt cwd _
      · rw [if_neg hmissing, if_neg hmissing]
        exact h.settle cwd _ e
    · simp only [hmade, hmade']
      exact ⟨rfl, hdiffer⟩

/-- Making a directory and those above it has the same outcome on both disks. -/
theorem makePath (h : DifferAt loc d d') (cwd : Location) (p : Path) :
    Alike loc (d.makePath cwd p) (d'.makePath cwd p) :=
  h.makeReversed cwd p.root p.parts.reverse

/-! ### What directories hold -/

theorem directoriesBelow (h : DifferAt loc d d') (here : Location) :
    (d'.directoriesBelow here).Perm (d.directoriesBelow here) := by
  -- Which directories there are can be read off the listing.
  have hlisting : ∀ d : Disk, d.directoriesBelow here =
      [] :: d.listing.filterMap (directoryBelow? here) := by
    intro d
    simp only [Disk.directoriesBelow, Disk.listing, List.filterMap_map]
    congr 2
    funext e
    rcases e with ⟨at_, entry⟩
    simp only [Function.comp_apply, directoryBelow?]
    cases entry <;> cases here.isPrefixOf at_ <;> cases at_.drop here.length <;> rfl
  rw [hlisting, hlisting]
  exact (h.listing.filterMap _).cons _

theorem children (h : DifferAt loc d d') (here : Location) :
    (d'.children here).Perm (d.children here) := by
  have hlisting : ∀ d : Disk, d.children here = d.listing.filterMap (childOf? here) := by
    intro d
    rw [Disk.listing, List.filterMap_map]
    rfl
  rw [hlisting, hlisting]
  exact h.listing.filterMap _

end DifferAt

end Disk

/-! ## Patterns -/

namespace Glob

section DifferAt

variable {loc : Location} {d d' : Disk} (h : Disk.DifferAt loc d d')

include h

theorem waysBelow_perm (here : Path) : (waysBelow d' here).Perm (waysBelow d here) := by
  unfold waysBelow
  rw [h.locate]
  split
  · exact h.directoriesBelow _
  · exact List.Perm.refl _

theorem isFound_eq (here : Path) (way : List String) :
    isFound d' here way = isFound d here way := by
  induction way generalizing here with
  | nil => rfl
  | cons name rest ih => rw [isFound, isFound, h.openDirectory, ih]

theorem namesIn_perm {here : Path} {names names' : List (String × Bool)}
    (hnames : namesIn d here = .ok names) (hnames' : namesIn d' here = .ok names') :
    names'.Perm names := by
  unfold namesIn at hnames hnames'
  rw [h.openDirectory] at hnames'
  cases hopen : d.openDirectory [] here with
  | ok at_ =>
    rw [hopen] at hnames hnames'
    cases hnames
    cases hnames'
    exact h.children at_
  | error e =>
    -- Where the names cannot be read, this is so on both disks.
    rw [hopen] at hnames hnames'
    rw [Except.ok.inj (hnames'.symm.trans hnames)]

theorem atEnd_perm {here : Path} {find find' : Path → Except DiskError (List Path)}
    {way : List String} {ps ps' : List Path}
    (hfind : ∀ qs qs', find (here.below way) = .ok qs → find' (here.below way) = .ok qs' →
      qs'.Perm qs)
    (hps : atEnd d here find way = .ok ps) (hps' : atEnd d' here find' way = .ok ps') :
    ps'.Perm ps := by
  have hsame := isFound_eq h here way
  rcases atEnd_eq_ok hps with ⟨hthere, hps⟩ | ⟨hthere, rfl⟩
  · rcases atEnd_eq_ok hps' with ⟨-, hps'⟩ | ⟨hthere', -⟩
    · exact hfind _ _ hps hps'
    · rw [hsame, hthere] at hthere'
      cases hthere'
  · rcases atEnd_eq_ok hps' with ⟨hthere', -⟩ | ⟨-, rfl⟩
    · rw [hsame, hthere] at hthere'
      cases hthere'
    · exact List.Perm.refl _

theorem selectParts_perm {directoriesOnly : Bool} {here : Path} {parts : List GlobPart}
    {found found' : List Path} (hfound : selectParts d directoriesOnly here parts = .ok found)
    (hfound' : selectParts d' directoriesOnly here parts = .ok found') : found'.Perm found := by
  -- The induction follows the parts; every part continues from directories found before.
  induction parts generalizing here found found' with
  | nil =>
    cases hfound
    cases hfound'
    exact List.Perm.refl _
  | cons part rest ih =>
    cases part with
    | directories =>
      refine findAll_perm (waysBelow_perm h here) (fun way ps ps' hps hps' => ?_) hfound hfound'
      exact atEnd_perm h (fun _ _ hqs hqs' => ih hqs hqs') hps hps'
    | wildcard pieces =>
      rcases bind_eq_ok_iff.1 hfound with ⟨names, hnames, hfound⟩
      rcases bind_eq_ok_iff.1 hfound' with ⟨names', hnames', hfound'⟩
      refine findAll_perm (namesIn_perm h hnames hnames') (fun child ps ps' hps hps' => ?_)
        hfound hfound'
      dsimp only at hps hps'
      split at hps
      · rw [if_pos ‹_›] at hps'
        exact ih hps hps'
      · rw [if_neg ‹_›] at hps'
        cases hps
        cases hps'
        exact List.Perm.refl _
    | name text =>
      rw [selectParts, h.isDirectory, h.has] at hfound'
      exact perm_of_there (fun _ _ hps hps' => ih hps hps') hfound hfound'

theorem select_perm {g : Glob} {root : Path} {found found' : List Path}
    (hfound : g.select d root = .ok found) (hfound' : g.select d' root = .ok found') :
    found'.Perm found := by
  rw [select, h.isDirectory] at hfound'
  exact perm_of_there (fun _ _ hps hps' => selectParts_perm h hps hps') hfound hfound'

end DifferAt

end Glob

/-! ## Sorted paths -/

theorem Path.partsLe_iff (as bs : List String) : Path.le.partsLe as bs = true ↔ as ≤ bs := by
  rw [← not_lt]
  induction as generalizing bs with
  | nil => simp [Path.le.partsLe]
  | cons a as ih =>
    cases bs with
    | nil => simp [Path.le.partsLe]
    | cons b bs =>
      rw [Path.le.partsLe, List.cons_lt_cons_iff]
      by_cases hab : a = b
      · simp [hab, ih]
      · have hba : ¬ b = a := fun heq => hab heq.symm
        simp [hab, hba, lt_iff_le_and_ne]

theorem Path.le_iff (p q : Path) : p.le q = true ↔ p.parts ≤ q.parts :=
  Path.partsLe_iff p.parts q.parts

theorem pairwise_mergeSort_paths (ps : List Path) :
    (ps.mergeSort Path.le).Pairwise fun p q => p.le q = true := by
  refine List.pairwise_mergeSort ?_ ?_ ps
  · intro p q r hpq hqr
    rw [Path.le_iff] at hpq hqr ⊢
    exact le_trans hpq hqr
  · intro p q
    rw [Bool.or_eq_true, Path.le_iff, Path.le_iff]
    exact le_total p.parts q.parts

/-- Paths with one root are in the same place of the order only if they are the same. -/
theorem mergeSort_eq_of_perm {root : String} {ps qs : List Path} (h : qs.Perm ps)
    (hroot : ∀ p ∈ ps, p.root = root) : qs.mergeSort Path.le = ps.mergeSort Path.le := by
  have hperm : (qs.mergeSort Path.le).Perm (ps.mergeSort Path.le) :=
    ((List.mergeSort_perm qs _).trans h).trans (List.mergeSort_perm ps _).symm
  refine hperm.eq_of_pairwise ?_ (pairwise_mergeSort_paths qs) (pairwise_mergeSort_paths ps)
  intro p q hp hq hpq hqp
  have hrootOf : ∀ {xs : List Path}, xs.Perm ps → ∀ x ∈ xs.mergeSort Path.le, x.root = root := by
    intro xs hxs x hx
    exact hroot x (hxs.mem_iff.1 ((List.mergeSort_perm xs _).mem_iff.1 hx))
  have hparts : p.parts = q.parts :=
    le_antisymm ((Path.le_iff p q).1 hpq) ((Path.le_iff q p).1 hqp)
  have hsame : p.root = q.root :=
    (hrootOf h p hp).trans (hrootOf (List.Perm.refl ps) q hq).symm
  cases p
  cases q
  simp_all

/-! ## Component files -/

theorem findOn_eq_ok_iff {d : Disk} {root : Path} {pattern : String} {found : List Path} :
    findOn d root pattern = .ok found ↔
      ∃ g, Glob.ofString pattern = .ok g ∧ g.select d root = .ok found := by
  unfold findOn
  cases Glob.ofString pattern with
  | error e => simp
  | ok g => simp [mapError_eq_ok_iff]

section FilesAmong

variable {ε : Type} {isFile : Path → Except ε Bool}

theorem mem_filesAmong_iff {ps files : List Path} (h : filesAmong isFile ps = .ok files)
    (p : Path) : p ∈ files ↔ p ∈ ps ∧ isFile p = .ok true := by
  induction ps generalizing files with
  | nil =>
    cases h
    simp
  | cons first rest ih =>
    rcases bind_eq_ok_iff.1 h with ⟨isFirst, hfirst, h⟩
    rcases bind_eq_ok_iff.1 h with ⟨others, hothers, h⟩
    cases h
    have hrest := ih hothers
    cases isFirst with
    | true =>
      rw [if_pos rfl, List.mem_cons, List.mem_cons, hrest, or_and_right]
      exact or_congr_left ⟨fun heq => ⟨heq, heq ▸ hfirst⟩, fun heq => heq.1⟩
    | false =>
      rw [if_neg Bool.false_ne_true, List.mem_cons, hrest, or_and_right]
      refine (or_iff_right ?_).symm
      rintro ⟨rfl, hp⟩
      rw [hfirst] at hp
      cases hp

theorem exists_filesAmong_iff {ps : List Path} :
    (∃ files, filesAmong isFile ps = .ok files) ↔ ∀ p ∈ ps, ∃ isThere, isFile p = .ok isThere := by
  induction ps with
  | nil => simp [filesAmong]
  | cons first rest ih =>
    rw [List.forall_mem_cons, ← ih]
    simp only [filesAmong, bind_eq_ok_iff]
    constructor
    · rintro ⟨files, isFirst, hfirst, others, hothers, -⟩
      exact ⟨⟨isFirst, hfirst⟩, others, hothers⟩
    · rintro ⟨⟨isFirst, hfirst⟩, others, hothers⟩
      exact ⟨_, isFirst, hfirst, others, hothers, rfl⟩

theorem exists_of_filesAmong_eq_error {ps : List Path} {e : ε}
    (h : filesAmong isFile ps = .error e) : ∃ p ∈ ps, isFile p = .error e := by
  induction ps with
  | nil => cases h
  | cons first rest ih =>
    rcases bind_eq_error_iff.1 h with hfirst | ⟨isFirst, -, h⟩
    · exact ⟨first, List.mem_cons_self, hfirst⟩
    · rcases ih (bind_pure_eq_error_iff.1 h) with ⟨p, hp, hfail⟩
      exact ⟨p, List.mem_cons_of_mem first hp, hfail⟩

end FilesAmong

/-- What the patterns find, pattern by pattern. -/
theorem candidates_eq_ok_iff {ε : Type} {find : String → Except ε (List Path)}
    {isFile : Path → Except ε Bool} {patterns : List String} {files : List Path} :
    candidates find isFile patterns = .ok files ↔
      ∃ founds, List.Forall₂ (fun pattern found => ∃ paths, find pattern = .ok paths ∧
        filesAmong isFile (paths.mergeSort Path.le) = .ok found) patterns founds ∧
          files = founds.flatten := by
  unfold candidates
  rw [bind_eq_ok_iff]
  refine exists_congr fun founds => ?_
  rw [mapM_eq_ok_iff]
  simp only [bind_eq_ok_iff]
  refine and_congr_right fun _ => ?_
  exact ⟨fun h => (Except.ok.inj h).symm, fun h => congrArg Except.ok h.symm⟩

/-- Files are not found for a pattern that cannot be read, or for a fault of the disk. -/
theorem discover_eq_error {d : Disk} {s : Settings} {e : Failure} (h : discover d s = .error e) :
    (∃ fault, e = .glob fault) ∨ ∃ fault, e = .disk fault := by
  rcases exists_of_mapM_eq_error (bind_pure_eq_error_iff.1 (bind_pure_eq_error_iff.1 h)) with
    ⟨pattern, -, hpattern⟩
  rcases bind_eq_error_iff.1 hpattern with hfind | ⟨paths, -, hfiles⟩
  · unfold findOn at hfind
    split at hfind
    · cases hfind
      exact Or.inl ⟨_, rfl⟩
    · rcases mapError_eq_error_iff.1 hfind with ⟨fault, -, rfl⟩
      exact Or.inr ⟨fault, rfl⟩
  · rcases exists_of_filesAmong_eq_error hfiles with ⟨p, -, hp⟩
    rcases mapError_eq_error_iff.1 hp with ⟨fault, -, rfl⟩
    exact Or.inr ⟨fault, rfl⟩

/-- The same component files are found on two disks that differ in the bytes of one file. -/
theorem discover_eq {loc : Location} {d d' : Disk} (h : Disk.DifferAt loc d d') (s : Settings)
    {files files' : List Path} (hfiles : discover d s = .ok files)
    (hfiles' : discover d' s = .ok files') : files' = files := by
  rcases bind_eq_ok_iff.1 hfiles with ⟨found, hfound, hchosen⟩
  rcases bind_eq_ok_iff.1 hfiles' with ⟨found', hfound', hchosen'⟩
  rcases candidates_eq_ok_iff.1 hfound with ⟨founds, hall, rfl⟩
  rcases candidates_eq_ok_iff.1 hfound' with ⟨founds', hall', rfl⟩
  have hisFile : d'.isFile [] = d.isFile [] := by
    funext p
    exact h.isFile [] p
  -- The paths of each pattern are the same up to their order, and sorting removes this difference.
  have hsame : founds' = founds := by
    generalize includePatterns s.includes = patterns at hall hall'
    clear hfound hfound' hchosen hchosen'
    induction hall generalizing founds' with
    | nil =>
      cases hall'
      rfl
    | cons hfirst _ ih =>
      cases hall' with
      | cons hfirst' hrest' =>
        rcases hfirst with ⟨paths, hpaths, hfiles⟩
        rcases hfirst' with ⟨paths', hpaths', hfiles'⟩
        rcases findOn_eq_ok_iff.1 hpaths with ⟨g, hg, hselect⟩
        rcases findOn_eq_ok_iff.1 hpaths' with ⟨g', hg', hselect'⟩
        cases hg.symm.trans hg'
        have hroot : ∀ p ∈ paths, p.root = s.root.root := by
          intro p hp
          rcases Glob.spells_of_mem_select hselect hp with ⟨names, rfl, -⟩
          rfl
        rw [hisFile, mergeSort_eq_of_perm (Glob.select_perm h hselect hselect') hroot,
          hfiles] at hfiles'
        rw [Except.ok.inj hfiles', ih _ hrest']
  rw [hsame] at hchosen'
  exact Except.ok.inj (hchosen'.symm.trans hchosen)

end PropCatalog
