import Mathlib.Data.List.DropRight
import PropCatalog.Outline.Read

/-!
# Comments before a declaration — which of them trail what comes before

The comments right before a node document it, unless they trail: a comment that begins on the row on
which the sibling before the comments ends is about that sibling, if it is no opening token.

- `commentRun`, `trails`   : the comments right before a node, and those of them that trail
- `row_mono`               : offsets further on lie on the same row or a later one
- `comments_site`          : of the comments before a node, only the first one is ever left out
- `site_comments_trailing` : all trailing comments are left out exactly if no second one trails
-/

namespace PropCatalog

open Tsx (Node Source)

/-! ## Rows -/

theorem toList_loop_eq (bytes : ByteArray) (i : Nat) (done : List UInt8) :
    ByteArray.toList.loop bytes i done = done.reverse ++ bytes.data.toList.drop i := by
  fun_induction ByteArray.toList.loop bytes i done with
  | case1 i done h ih =>
    have hi : i < bytes.data.toList.length := h
    have hget : bytes.get! i = bytes.data.toList[i] := by
      cases bytes with
      | mk data => simpa [ByteArray.get!] using getElem!_pos data i h
    rw [ih, List.drop_eq_getElem_cons hi, List.reverse_cons, List.append_assoc, hget]
    rfl
  | case2 i done h =>
    have hi : bytes.data.toList.length ≤ i := Nat.le_of_not_lt h
    rw [List.drop_eq_nil_of_le hi, List.append_nil]

theorem toList_eq_data (bytes : ByteArray) : bytes.toList = bytes.data.toList :=
  toList_loop_eq bytes 0 []

/-- Offsets further on lie on the same row or a later one. -/
theorem row_mono (src : Source) {i j : Nat} (h : i ≤ j) : src.row i ≤ src.row j := by
  have hsplit : src.bytes.extract 0 j = src.bytes.extract 0 i ++ src.bytes.extract i j :=
    ByteArray.extract_eq_extract_append_extract i (Nat.zero_le i) h
  unfold Source.row Source.before
  rw [hsplit, toList_eq_data, toList_eq_data, ByteArray.toList_data_append, List.count_append]
  exact Nat.le_add_right _ _

/-! ## Comments that trail -/

/-- The comments right before a place, in source order: all comments at the end of the siblings
before it. -/
def commentRun (before : List Node) : List Node :=
  before.rtakeWhile (·.isComment)

/-- Whether a comment of the run trails what comes before the run: it begins on the row on which the
sibling there ends, and that sibling opens nothing. -/
def trails (src : Source) (before : List Node) (c : Node) : Bool :=
  match (before.rdropWhile (·.isComment)).getLast? with
  | some sibling =>
    !openingTokens.contains sibling.kind && src.row c.start == src.row sibling.stop
  | none => false

/-- Nodes as comments. -/
def asComments (src : Source) (nodes : List Node) : List Comment :=
  nodes.map fun n => ⟨String.ofList (src.text n)⟩

theorem asComments_filter_iff (src : Source) (p : Node → Bool) (nodes : List Node) :
    asComments src nodes = asComments src (nodes.filter p) ↔ ∀ n ∈ nodes, p n = true := by
  constructor
  · intro h
    -- A comment that is left out makes the list shorter, whatever the texts are.
    have hlength := congrArg List.length h
    simp only [asComments, List.length_map] at hlength
    exact List.length_filter_eq_length_iff.1 hlength.symm
  · intro h
    rw [List.filter_eq_self.2 h]

/-- Siblings in source order: each ends before the next one begins. -/
structure InOrder (siblings : List Node) : Prop where
  apart : siblings.Pairwise fun a b => a.stop ≤ b.start
  forward : ∀ a ∈ siblings, a.start ≤ a.stop

/-- Where an element is kept only if all before it are, `takeWhile` keeps all that there are. -/
theorem takeWhile_eq_filter {p : Node → Bool} {nodes : List Node}
    (h : nodes.Pairwise fun a b => p b = true → p a = true) :
    nodes.takeWhile p = nodes.filter p ∧ nodes.dropWhile p = nodes.filter fun n => !p n := by
  induction nodes with
  | nil => exact ⟨rfl, rfl⟩
  | cons n nodes ih =>
    rcases List.pairwise_cons.1 h with ⟨hfirst, hrest⟩
    by_cases hn : p n = true
    · have hih := ih hrest
      simp [hn, hih.1, hih.2]
    · -- What follows an element that is not kept is not kept either.
      have hnone : ∀ m ∈ nodes, p m = false := by
        intro m hm
        by_contra hkept
        exact hn (hfirst m hm (by simpa using hkept))
      have hempty : nodes.filter p = [] := List.filter_eq_nil_iff.2 (by simpa using hnone)
      have hall : (nodes.filter fun m => !p m) = nodes :=
        List.filter_eq_self.2 (by simpa using hnone)
      simp [hn, hempty, hall]

/-- In source order a comment trails only if all comments before it in the run do. -/
theorem InOrder.pairwise_trails {before : List Node} (h : InOrder before) (src : Source) :
    (commentRun before).Pairwise fun a b =>
      trails src before b = true → trails src before a = true := by
  have hsplit : before.rdropWhile (·.isComment) ++ commentRun before = before :=
    List.rdropWhile_append_rtakeWhile
  have hapart := h.apart
  rw [← hsplit] at hapart
  rcases List.pairwise_append.1 hapart with ⟨-, hrun, hcross⟩
  refine hrun.imp_of_mem ?_
  intro a b ha hb hab htrails
  unfold trails at htrails ⊢
  cases hlast : (before.rdropWhile (·.isComment)).getLast? with
  | none => simp [hlast] at htrails
  | some sibling =>
    simp only [hlast, Bool.and_eq_true, beq_iff_eq] at htrails ⊢
    refine ⟨htrails.1, ?_⟩
    -- The sibling, the first comment and the second one follow each other.
    have hsibling : sibling.stop ≤ a.start :=
      hcross sibling (List.mem_of_getLast? hlast) a ha
    have hcomment : a.start ≤ b.start := by
      have hmem : a ∈ before := hsplit ▸ List.mem_append_right _ ha
      exact (h.forward a hmem).trans hab
    apply Nat.le_antisymm
    · calc src.row a.start ≤ src.row b.start := row_mono src hcomment
        _ = src.row sibling.stop := htrails.2
    · exact row_mono src hsibling

/-! ## Sites -/

/-- The site of a node among its siblings. -/
theorem site_mem_sitesFrom (earlier before : List Node) (n : Node) (later : List Node) :
    ⟨before.reverse ++ earlier, n⟩ ∈ sitesFrom earlier (before ++ n :: later) := by
  induction before generalizing earlier with
  | nil => exact List.mem_cons_self
  | cons sibling before ih =>
    apply List.mem_cons_of_mem
    simpa using ih (sibling :: earlier)

/-- Of the comments before a node only the first one is ever left out. -/
theorem comments_site (src : Source) (before : List Node) (n : Node) :
    (Site.mk before.reverse n).comments src =
      asComments src (match commentRun before with
        | [] => []
        | first :: rest => if trails src before first then rest else first :: rest) := by
  have hrun : commentRun before = (before.reverse.takeWhile (·.isComment)).reverse := rfl
  have hsibling : (before.rdropWhile (·.isComment)).getLast? =
      (before.reverse.dropWhile (·.isComment)).head? :=
    List.getLast?_reverse
  unfold Site.comments trails
  rw [hrun, hsibling]
  generalize before.reverse.takeWhile (·.isComment) = run
  generalize (before.reverse.dropWhile (·.isComment)).head? = sibling?
  -- The nearest comment comes first in a site, so the first one of the run comes last there.
  rcases List.eq_nil_or_concat run with rfl | ⟨rest, first, rfl⟩
  · cases sibling? <;> rfl
  · cases sibling? with
    | none => simp [asComments]
    | some sibling =>
      simp only [List.concat_eq_append, List.getLast?_append, List.getLast?_singleton,
        Option.some_or, List.dropLast_concat, List.reverse_append, List.reverse_singleton,
        List.singleton_append]
      split <;> simp [asComments]

/-- What a node is documented by, at every place among siblings. Of the comments right before it
that trail, all but the first one are kept: the comments are those of the run that do not trail
exactly if no comment of the run but its first one trails. In source order they are the trailing
comments but the first one, followed by the comments that do not trail. -/
theorem site_comments_trailing (src : Source) (before : List Node) (n : Node) (later : List Node) :
    ⟨before.reverse, n⟩ ∈ sitesFrom [] (before ++ n :: later) ∧
      ((Site.mk before.reverse n).comments src =
          asComments src ((commentRun before).filter fun c => !trails src before c) ↔
        ∀ c ∈ (commentRun before).tail, trails src before c = false) ∧
      (InOrder before → (Site.mk before.reverse n).comments src =
        asComments src (((commentRun before).filter (trails src before)).tail ++
          (commentRun before).filter fun c => !trails src before c)) := by
  refine ⟨by simpa using site_mem_sitesFrom [] before n later, ?_, ?_⟩
  · rw [comments_site]
    cases commentRun before with
    | nil => simp
    | cons first rest =>
      have hrest := asComments_filter_iff src (fun c => !trails src before c) rest
      cases hfirst : trails src before first with
      | true => simpa [hfirst] using hrest
      | false =>
        have hcons : ∀ nodes, asComments src (first :: nodes) =
            ⟨String.ofList (src.text first)⟩ :: asComments src nodes := fun _ => rfl
        simpa [hfirst, hcons] using hrest
  · intro horder
    rcases takeWhile_eq_filter (horder.pairwise_trails src) with ⟨htake, hdrop⟩
    rw [comments_site, ← htake, ← hdrop]
    cases commentRun before with
    | nil => rfl
    | cons first rest =>
      cases hfirst : trails src before first with
      | true => simp [hfirst, List.takeWhile_append_dropWhile]
      | false => simp [hfirst]

/-- The end of a member with two comments behind it. -/
def rowSource : Source :=
  Source.ofString ";/* a */ // b\nsecond"

def rowSiblings : List Node :=
  [.node { kind := ";", named := false, start := 0, stop := 1 } [],
    .node { kind := "comment", start := 1, stop := 8 } [],
    .node { kind := "comment", start := 9, stop := 13 } []]

def rowMember : Node :=
  .node { kind := "property_signature", start := 14, stop := 20 } []

/-- The second comment behind a member is taken for one on the next member. -/
theorem site_comments_trailing_row :
    InOrder rowSiblings ∧
      (Site.mk rowSiblings.reverse rowMember).comments rowSource = [⟨"// b"⟩] ∧
      (Site.mk rowSiblings.reverse rowMember).comments rowSource ≠
        asComments rowSource
          ((commentRun rowSiblings).filter fun c => !trails rowSource rowSiblings c) := by
  have horder : InOrder rowSiblings := ⟨by decide, by decide⟩
  rcases site_comments_trailing rowSource rowSiblings rowMember [] with ⟨-, hiff, hordered⟩
  refine ⟨horder, (hordered horder).trans (by decide +kernel), ?_⟩
  intro hequal
  exact absurd (hiff.1 hequal) (by decide +kernel)

end PropCatalog
