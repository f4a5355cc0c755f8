import Mathlib.Data.List.Perm.Basic
import PropCatalog.Pattern.Glob
import PropCatalog.Proofs.Fallible

/-!
# File patterns — what they find

Every path that a pattern finds is made of names that the parts of the pattern stand for, one part
after the other.

- `Glob.Spells`            : parts of a pattern and the names that they stand for
- `Glob.findAll_eq_ok`     : what is found at several places
- `Glob.exists_way_of_mem` : the first part of a pattern and those after it
- `Glob.spells_of_mem_select` : the names of what is found
-/

namespace PropCatalog

/-! ## What the parts of a pattern stand for -/

/-- Whether a part of a pattern stands for the names `way`, where `**` stands for `least`
directories or more. -/
def GlobPart.Spells (least : Nat) (way : List String) : GlobPart → Prop
  | .directories => least ≤ way.length
  | .wildcard pieces => ∃ name, way = [name] ∧ Pattern.matchesPieces pieces name.toList = true
  | .name text => way = [text]

/-- Parts of a pattern and the names that they stand for, one part after the other. -/
inductive Glob.Spells (least : Nat) : List GlobPart → List String → Prop
  | nil : Spells least [] []
  | cons {part : GlobPart} {parts : List GlobPart} {way names : List String} :
      part.Spells least way → Spells least parts names → Spells least (part :: parts) (way ++ names)

namespace Glob

/-! ## Several places -/

/-- What a search gives, if it succeeds. -/
def orNothing (found : Except DiskError (List Path)) : List Path :=
  (found.toOption).getD []

theorem findAll_eq_ok {α : Type} {places : List α} {find : α → Except DiskError (List Path)}
    {found : List Path} (h : findAll places find = .ok found) :
    found = places.flatMap (fun place => orNothing (find place)) ∧
      ∀ place ∈ places, ∃ ps, find place = .ok ps := by
  rcases bind_eq_ok_iff.1 h with ⟨founds, hfounds, hflat⟩
  cases hflat
  refine ⟨?_, fun place hplace => ?_⟩
  · have hall := mapM_eq_ok_iff.1 hfounds
    clear h hfounds
    induction hall with
    | nil => rfl
    | cons hfirst _ ih =>
      rw [List.flatten_cons, List.flatMap_cons, ← ih, hfirst]
      rfl
  · rcases exists_result_of_mapM hfounds hplace with ⟨ps, -, hps⟩
    exact ⟨ps, hps⟩

theorem exists_place_of_mem {α : Type} {places : List α} {find : α → Except DiskError (List Path)}
    {found : List Path} (h : findAll places find = .ok found) {p : Path} (hp : p ∈ found) :
    ∃ place ∈ places, ∃ ps, find place = .ok ps ∧ p ∈ ps := by
  rcases findAll_eq_ok h with ⟨rfl, hall⟩
  rcases List.mem_flatMap.1 hp with ⟨place, hplace, hmem⟩
  rcases hall place hplace with ⟨ps, hps⟩
  rw [hps] at hmem
  exact ⟨place, hplace, ps, hps, hmem⟩

/-- What is found at several places is the same up to its order, if it is so at each of them. -/
theorem findAll_perm {α : Type} {places places' : List α}
    {find find' : α → Except DiskError (List Path)} {found found' : List Path}
    (hplaces : places'.Perm places)
    (hfind : ∀ place ps ps', find place = .ok ps → find' place = .ok ps' → ps'.Perm ps)
    (hfound : findAll places find = .ok found) (hfound' : findAll places' find' = .ok found') :
    found'.Perm found := by
  rcases findAll_eq_ok hfound with ⟨rfl, hall⟩
  rcases findAll_eq_ok hfound' with ⟨rfl, hall'⟩
  refine hplaces.flatMap fun place hplace => ?_
  rcases hall place (hplaces.mem_iff.1 hplace) with ⟨ps, hps⟩
  rcases hall' place hplace with ⟨ps', hps'⟩
  rw [hps, hps']
  exact hfind place ps ps' hps hps'

/-- A search is made only if there is something to search in. -/
theorem perm_of_there {asked : Except DiskError Bool} {find find' : Except DiskError (List Path)}
    {found found' : List Path}
    (hfind : ∀ ps ps', find = .ok ps → find' = .ok ps' → ps'.Perm ps)
    (hfound : (asked >>= fun isThere => if isThere then find else pure []) = .ok found)
    (hfound' : (asked >>= fun isThere => if isThere then find' else pure []) = .ok found') :
    found'.Perm found := by
  rcases bind_eq_ok_iff.1 hfound with ⟨isThere, hthere, hfound⟩
  rcases bind_eq_ok_iff.1 hfound' with ⟨isThere', hthere', hfound'⟩
  cases hthere.symm.trans hthere'
  cases isThere with
  | true => exact hfind found found' hfound hfound'
  | false =>
    cases hfound
    cases hfound'
    exact List.Perm.refl _

theorem atEnd_eq_ok {d : Disk} {here : Path} {find : Path → Except DiskError (List Path)}
    {way : List String} {ps : List Path} (h : atEnd d here find way = .ok ps) :
    (isFound d here way = .ok true ∧ find (here.below way) = .ok ps) ∨
      (isFound d here way = .ok false ∧ ps = []) := by
  rcases bind_eq_ok_iff.1 h with ⟨found, hfound, h⟩
  cases found with
  | true =>
    rcases bind_eq_ok_iff.1 h with ⟨below, hbelow, h⟩
    rcases bind_eq_ok_iff.1 h with ⟨names, -, h⟩
    cases h
    exact .inl ⟨hfound, hbelow⟩
  | false =>
    cases h
    exact .inr ⟨hfound, rfl⟩

/-! ## Parts -/

/-- What the parts find begins with names that the first part stands for, and the other parts find
the rest below these. -/
theorem exists_way_of_mem {d : Disk} {directoriesOnly : Bool} {here p : Path} {part : GlobPart}
    {rest : List GlobPart} {found : List Path}
    (h : selectParts d directoriesOnly here (part :: rest) = .ok found) (hp : p ∈ found) :
    ∃ way ps, part.Spells 0 way ∧ selectParts d directoriesOnly (here.below way) rest = .ok ps ∧
      p ∈ ps := by
  cases part with
  | directories =>
    rcases exists_place_of_mem h hp with ⟨way, -, ps, hps, hmem⟩
    rcases atEnd_eq_ok hps with ⟨-, hbelow⟩ | ⟨-, rfl⟩
    · exact ⟨way, ps, Nat.zero_le _, hbelow, hmem⟩
    · cases hmem
  | wildcard pieces =>
    rcases bind_eq_ok_iff.1 h with ⟨names, -, h⟩
    rcases exists_place_of_mem h hp with ⟨⟨name, isDirectory⟩, -, ps, hps, hmem⟩
    dsimp only at hps
    split at hps
    · rename_i hfits
      exact ⟨[name], ps, ⟨name, rfl, (Bool.and_eq_true_iff.1 hfits).1⟩, hps, hmem⟩
    · cases hps
      cases hmem
  | name text =>
    rcases bind_eq_ok_iff.1 h with ⟨isThere, -, h⟩
    split at h
    · exact ⟨[text], found, rfl, h, hp⟩
    · cases h
      cases hp

theorem below_append (here : Path) (way names : List String) :
    (here.below way).below names = here.below (way ++ names) := by
  simp [Path.below]

/-- What is found below a directory has names that the parts stand for. -/
theorem spells_of_mem_selectParts {d : Disk} {directoriesOnly : Bool} {here p : Path}
    {parts : List GlobPart} {found : List Path}
    (h : selectParts d directoriesOnly here parts = .ok found) (hp : p ∈ found) :
    ∃ names, p = here.below names ∧ Spells 0 parts names := by
  induction parts generalizing here found with
  | nil =>
    cases h
    refine ⟨[], ?_, Spells.nil⟩
    rw [List.mem_singleton.1 hp]
    simp [Path.below]
  | cons part rest ih =>
    rcases exists_way_of_mem h hp with ⟨way, ps, hway, hps, hmem⟩
    rcases ih hps hmem with ⟨names, rfl, hnames⟩
    exact ⟨way ++ names, below_append here way names, Spells.cons hway hnames⟩

theorem spells_of_mem_select {g : Glob} {d : Disk} {root p : Path} {found : List Path}
    (h : g.select d root = .ok found) (hp : p ∈ found) :
    ∃ names, p = root.below names ∧ Spells 0 g.parts names := by
  rcases bind_eq_ok_iff.1 h with ⟨isDirectory, -, h⟩
  split at h
  · exact spells_of_mem_selectParts h hp
  · cases h
    cases hp

end Glob
end PropCatalog
