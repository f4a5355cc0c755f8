import Mathlib.Data.List.TakeWhile
import PropCatalog.Tsx.Node

/-!
# Faults — the first one in the order of a text

A text that cannot be read is refused with the place of a fault in its tree. The tree is searched
with a list of the trees still to be visited. This file compares the search with the order of the
nodes, each node before those below it and these from left to right:

- `Node.preorder`   : the nodes of a tree in this order
- `searched`        : the search with a stack whose top is its last tree, round by round
- `searched_eq_some`: a stack holds the rest of the order backwards, tree by tree
- `Source.PointAt`  : row and column of an offset
- `first_fault_located` : the search ends, and names the place of the first fault, if there is one
-/

namespace PropCatalog
namespace Tsx

/-! ## The order of the nodes -/

mutual

/-- The nodes of a tree, each before those below it, and these from left to right. -/
def Node.preorder : Node → List Node
  | .node label children => .node label children :: preorderAll children

/-- The nodes of several trees, one tree after the other. -/
def preorderAll : List Node → List Node
  | [] => []
  | n :: rest => n.preorder ++ preorderAll rest

end

theorem preorderAll_eq (forest : List Node) :
    preorderAll forest = forest.flatMap Node.preorder := by
  induction forest with
  | nil => rfl
  | cons n rest ih => rw [preorderAll, ih, List.flatMap_cons]

theorem Node.preorder_eq (n : Node) : n.preorder = n :: n.children.flatMap Node.preorder := by
  cases n with
  | node label children => rw [Node.preorder, preorderAll_eq, Node.children]

/-- A tree is replaced by its children when its node is taken off the front of the order. -/
theorem flatMap_preorder_cons (n : Node) (rest : List Node) :
    (n :: rest).flatMap Node.preorder = n :: (n.children ++ rest).flatMap Node.preorder := by
  rw [List.flatMap_cons, n.preorder_eq, List.flatMap_append, List.cons_append]

/-- The search goes through the nodes in their order. -/
theorem firstFault?_eq_find? (forest : List Node) :
    firstFault? forest = (forest.flatMap Node.preorder).find? Node.isFault := by
  fun_induction firstFault? forest with
  | case1 => rfl
  | case2 n rest hfault => rw [flatMap_preorder_cons, List.find?_cons_of_pos hfault]
  | case3 n rest hfault ih => rw [flatMap_preorder_cons, List.find?_cons_of_neg hfault, ih]

/-- A fault without another one before it. -/
def IsFirstFault (root n : Node) : Prop :=
  ∃ before after, root.preorder = before ++ n :: after ∧ n.isFault = true ∧
    ∀ m ∈ before, m.isFault = false

theorem firstFault?_eq_some_iff {root n : Node} :
    firstFault? [root] = some n ↔ IsFirstFault root n := by
  rw [firstFault?_eq_find?, List.flatMap_singleton, List.find?_eq_some_iff_append, IsFirstFault]
  simp only [Bool.not_eq_true']
  constructor
  · rintro ⟨hfault, before, after, heq, hbefore⟩
    exact ⟨before, after, heq, hfault, hbefore⟩
  · rintro ⟨before, after, heq, hfault, hbefore⟩
    exact ⟨hfault, before, after, heq, hbefore⟩

theorem firstFault?_eq_none_iff {root : Node} :
    firstFault? [root] = none ↔ ∀ n ∈ root.preorder, n.isFault = false := by
  rw [firstFault?_eq_find?, List.flatMap_singleton, List.find?_eq_none]
  simp only [Bool.not_eq_true]

/-! ## The search with a stack -/

/-- One round of a search. The last tree of the stack is taken off, which ends the search if it is a
fault, and otherwise leaves its children, the first one last. An empty stack ends it as well. -/
def searchRound (stack : List Node) : Option Node ⊕ List Node :=
  match stack.getLast? with
  | none => .inl none
  | some n => if n.isFault then .inl (some n) else .inr (stack.dropLast ++ n.children.reverse)

/-- What a search with a stack has found after a number of rounds, if it has ended by then. -/
def searched : Nat → List Node → Option (Option Node)
  | 0, _ => none
  | rounds + 1, stack =>
    match searchRound stack with
    | .inl found => some found
    | .inr stack => searched rounds stack

theorem searchRound_concat (stack : List Node) (n : Node) :
    searchRound (stack ++ [n]) =
      if n.isFault then .inl (some n) else .inr (stack ++ n.children.reverse) := by
  simp [searchRound]

/-- Every round takes one node off the front of the order that is left. Read from its top, the stack
holds this order tree by tree. -/
theorem searched_eq_some {rounds : Nat} {stack : List Node}
    (h : (stack.reverse.flatMap Node.preorder).length < rounds) :
    searched rounds stack = some (firstFault? stack.reverse) := by
  induction rounds generalizing stack with
  | zero => exact absurd h (Nat.not_lt_zero _)
  | succ rounds ih =>
    rcases List.eq_nil_or_concat stack with rfl | ⟨stack, n, rfl⟩
    · rw [List.reverse_nil, firstFault?.eq_1]
      rfl
    · rw [List.concat_eq_append] at h ⊢
      rw [List.reverse_concat] at h ⊢
      rw [flatMap_preorder_cons, List.length_cons] at h
      rw [searched, searchRound_concat, firstFault?.eq_2]
      by_cases hfault : n.isFault = true
      · rw [if_pos hfault, if_pos hfault]
      · rw [if_neg hfault, if_neg hfault]
        have hstack : (stack ++ n.children.reverse).reverse = n.children ++ stack.reverse := by
          rw [List.reverse_append, List.reverse_reverse]
        rw [← hstack] at h ⊢
        exact ih (Nat.lt_of_succ_lt_succ h)

/-! ## Places -/

/-- The row and the column of an offset, both counted from zero: the number of whole lines before
it, and the number of bytes on its own line. -/
def Source.PointAt (src : Source) (offset row column : Nat) : Prop :=
  ∃ above line, src.before offset = above ++ line ∧ (∀ b ∈ above.getLast?, b = 10) ∧ 10 ∉ line ∧
    above.count 10 = row ∧ line.length = column

theorem Source.PointAt.eq {src : Source} {offset row column : Nat}
    (h : src.PointAt offset row column) : src.row offset = row ∧ src.column offset = column := by
  rcases h with ⟨above, line, heq, habove, hline, rfl, rfl⟩
  have hstop : above.reverse.takeWhile (· != 10) = [] := by
    cases hlast : above.reverse with
    | nil => rfl
    | cons b bs =>
      have hb : b = 10 := habove b (by rw [← List.head?_reverse, hlast]; rfl)
      simp [hb]
  have hkept : ∀ b ∈ line.reverse, (b != 10) = true := by
    intro b hb
    rw [bne_iff_ne]
    rintro rfl
    exact hline (List.mem_reverse.1 hb)
  constructor
  · rw [Source.row, heq, List.count_append, List.count_eq_zero.2 hline, Nat.add_zero]
  · rw [Source.column, heq, List.reverse_append, List.takeWhile_append_of_pos hkept, hstop,
      List.append_nil, List.length_reverse]

theorem Source.pointAt (src : Source) (offset : Nat) :
    src.PointAt offset (src.row offset) (src.column offset) := by
  unfold Source.PointAt Source.row Source.column
  generalize hback : (src.before offset).reverse = back
  rw [List.reverse_eq_iff.1 hback]
  -- Read backwards, the bytes begin with those of the line.
  have hline : 10 ∉ (back.takeWhile (· != 10)).reverse := by
    intro hmem
    simpa using List.mem_takeWhile_imp (List.mem_reverse.1 hmem)
  have hsplit : back.reverse =
      (back.dropWhile (· != 10)).reverse ++ (back.takeWhile (· != 10)).reverse := by
    rw [← List.reverse_append, List.takeWhile_append_dropWhile]
  refine ⟨_, _, hsplit, fun b hb => ?_, hline, ?_, List.length_reverse⟩
  · have hstop := List.head?_dropWhile_not (· != 10) back
    rw [List.getLast?_reverse] at hb
    rw [Option.mem_def.1 hb] at hstop
    simpa using hstop
  · rw [hsplit, List.count_append, List.count_eq_zero.2 hline, Nat.add_zero]

/-! ## The place of the first fault -/

theorem location_ne_unknown (row column : String) :
    "line " ++ row ++ ", column " ++ column ≠ "unknown location" := by
  intro h
  have hhead := congrArg (fun s : String => s.toList.head?) h
  simp at hhead

/-- The search for a fault ends, within one round more than there are nodes, and finds what the list
of trees still to be visited leads to. The place that is named is that of the first fault, each node
coming before those below it and these from left to right, with its row and column counted from one.
No place is named exactly if there is no fault. -/
theorem first_fault_located (src : Source) (root : Node) :
    (∀ rounds, root.preorder.length < rounds →
      searched rounds [root] = some (firstFault? [root])) ∧
      (∀ n row column, IsFirstFault root n → src.PointAt n.start row column →
        faultLocation src root =
          "line " ++ Text.number (row + 1) ++ ", column " ++ Text.number (column + 1)) ∧
      (faultLocation src root = "unknown location" ↔ ∀ n ∈ root.preorder, n.isFault = false) := by
  refine ⟨fun rounds hrounds => ?_, fun n row column hfirst hpoint => ?_, ?_⟩
  · exact searched_eq_some (by simpa using hrounds)
  · rcases hpoint.eq with ⟨rfl, rfl⟩
    rw [faultLocation, firstFault?_eq_some_iff.2 hfirst]
  · rw [← firstFault?_eq_none_iff, faultLocation]
    cases firstFault? [root] with
    | none => simp
    | some n => exact iff_of_false (location_ne_unknown _ _) (Option.some_ne_none n)

/-- A call without its closing parenthesis, and an unreadable piece behind it. -/
def openCall : Node :=
  .node { kind := "program", start := 0, stop := 9 } [
    .node { kind := "comment", start := 0, stop := 3 } [],
    .node { kind := "call", start := 4, stop := 7 } [
      .node { kind := "identifier", start := 4, stop := 5 } [],
      .node { kind := ")", named := false, start := 7, stop := 7, missing := true } []],
    .node { kind := "ERROR", start := 8, stop := 9 } []]

theorem first_fault_located_open_call :
    searched 7 [openCall] = some (firstFault? [openCall]) ∧
      faultLocation (Source.ofString "//x\nf(a\n\x7d") openCall = "line 2, column 4" := by
  rcases first_fault_located (Source.ofString "//x\nf(a\n\x7d") openCall with ⟨hends, hplace, -⟩
  have hfirst : IsFirstFault openCall
      (.node { kind := ")", named := false, start := 7, stop := 7, missing := true } []) :=
    ⟨openCall.preorder.take 4, openCall.preorder.drop 5, rfl, rfl, by decide⟩
  have hpoint := (Source.ofString "//x\nf(a\n\x7d").pointAt 7
  have hrow : (Source.ofString "//x\nf(a\n\x7d").row 7 = 1 := by decide +kernel
  have hcolumn : (Source.ofString "//x\nf(a\n\x7d").column 7 = 3 := by decide +kernel
  rw [hrow, hcolumn] at hpoint
  exact ⟨hends 7 (by decide), (hplace _ 1 3 hfirst hpoint).trans (by decide +kernel)⟩

end Tsx
end PropCatalog
