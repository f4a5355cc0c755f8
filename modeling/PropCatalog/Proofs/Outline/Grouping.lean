import Mathlib.Data.List.Basic
import PropCatalog.Component.Extract
import PropCatalog.Outline.Read

/-!
# Grouping — joined types and the parentheses in them

Unions and intersections can be written with any nesting and with any parentheses. Nested joined
types of one kind are read as one list of operands, and parentheses are taken off the type that they
enclose, but the two do not work together: a joined type in parentheses within another one stays a
single operand, which is no literal, no object type and no reference.

- `unwrapped`, `operands` : what a type is put together of, whatever the grouping
- `items`, `buried`       : the operands that a joined type is read with, and the joined types that
  stay among them
- `flattenType_eq`        : reading a joined type is reading its items
- `grouped_types_read`    : the values of a union and the declaration of an intersection are those
  of all operands exactly if nothing that counts is buried
-/

namespace PropCatalog

open Tsx (Node Source)

/-! ## Lists in pieces -/

/-- Lists put together from pieces, some of which are left out of the one, are equal exactly if
those are empty. -/
theorem flatMap_ite_eq_iff {α β : Type} (p : α → Prop) [DecidablePred p] (f g : α → List β)
    (xs : List α) :
    (xs.flatMap fun x => if p x then [] else f x) =
        (xs.flatMap fun x => if p x then g x else f x) ↔ ∀ x ∈ xs, p x → g x = [] := by
  have hlength : ∀ ys : List α, (ys.flatMap fun x => if p x then [] else f x).length ≤
      (ys.flatMap fun x => if p x then g x else f x).length := by
    intro ys
    induction ys with
    | nil => exact Nat.le_refl _
    | cons y ys ih =>
      rw [List.flatMap_cons, List.flatMap_cons, List.length_append, List.length_append]
      refine Nat.add_le_add ?_ ih
      split
      · exact Nat.zero_le _
      · exact Nat.le_refl _
  induction xs with
  | nil => simp
  | cons x xs ih =>
    rw [List.flatMap_cons, List.flatMap_cons, List.forall_mem_cons]
    by_cases hx : p x
    · rw [if_pos hx, if_pos hx, List.nil_append]
      constructor
      · intro h
        -- The shorter list leaves no room for the piece.
        have hempty : g x = [] := by
          have hequal := congrArg List.length h
          have hle := hlength xs
          rw [List.length_append] at hequal
          exact List.eq_nil_of_length_eq_zero (by omega)
        rw [hempty, List.nil_append] at h
        exact ⟨fun _ => hempty, ih.1 h⟩
      · rintro ⟨hempty, hrest⟩
        rw [hempty hx, List.nil_append]
        exact ih.2 hrest
    · rw [if_neg hx, if_neg hx, List.append_cancel_left_eq]
      exact ih.trans (and_iff_right fun h => absurd h hx).symm

/-! ## Grouped types -/

namespace Tsx.Node

/-- The type inside all parentheses around it. -/
def unwrapped (n : Node) : Node :=
  if n.kind = "parenthesized_type" then
    match _h : n.parts with
    | inside :: _ => unwrapped inside
    | [] => n
  else n
termination_by sizeOf n
decreasing_by exact sizeOf_lt_of_mem (mem_children_of_mem_parts (by simp [_h]))

/-- The operands of a type that is put together by joined types of one kind and by parentheses, in
source order. -/
def operands (kind : String) (n : Node) : List Node :=
  if n.kind = kind then n.parts.attach.flatMap fun ⟨part, _⟩ => operands kind part
  else if n.kind = "parenthesized_type" then
    match _h : n.parts with
    | inside :: _ => operands kind inside
    | [] => [n]
  else [n]
termination_by sizeOf n
decreasing_by
  · exact sizeOf_lt_of_mem (mem_children_of_mem_parts ‹_›)
  · exact sizeOf_lt_of_mem (mem_children_of_mem_parts (by simp [_h]))

/-- The operands that a joined type is read with: joined types of its kind are opened where they
stand without parentheses. -/
def items (kind : String) (n : Node) : List Node :=
  n.parts.attach.flatMap fun ⟨part, _⟩ => if part.kind = kind then items kind part else [part]
termination_by sizeOf n
decreasing_by exact sizeOf_lt_of_mem (mem_children_of_mem_parts ‹_›)

/-- The joined types that stand in parentheses among the items of a joined type of their kind. -/
def buried (kind : String) (n : Node) : List Node :=
  (n.unwrapped.items kind).filter (·.unwrapped.kind = kind)

/-- The operands that are not within a buried type. -/
def found (kind : String) (n : Node) : List Node :=
  ((n.unwrapped.items kind).filter (·.unwrapped.kind ≠ kind)).map unwrapped

theorem operands_of_joined {kind : String} {n : Node} (h : n.kind = kind) :
    n.operands kind = n.parts.flatMap (operands kind) := by
  rw [operands, if_pos h]
  simp

theorem items_eq (kind : String) (n : Node) :
    n.items kind =
      n.parts.flatMap fun part => if part.kind = kind then part.items kind else [part] := by
  rw [items]
  simp

/-- Parentheses around a type leave its operands as they are. -/
theorem operands_unwrapped {kind : String} (hkind : kind ≠ "parenthesized_type") (n : Node) :
    n.unwrapped.operands kind = n.operands kind := by
  fun_induction unwrapped n with
  | case1 n hparens inside rest hparts ih =>
    have hother : n.kind ≠ kind := fun h => hkind (h ▸ hparens)
    rw [ih, operands.eq_def kind n, if_neg hother, if_pos hparens]
    split
    next inside' rest' hparts' =>
      cases hparts.symm.trans hparts'
      rfl
    next hnone => cases hparts.symm.trans hnone
  | case2 n hparens hparts => rfl
  | case3 n hparens => rfl

/-- A type that is no joined type inside its parentheses is an operand itself. -/
theorem operands_of_single {kind : String} {n : Node} (h : n.unwrapped.kind ≠ kind)
    (hkind : kind ≠ "parenthesized_type") : n.operands kind = [n.unwrapped] := by
  rw [← operands_unwrapped hkind]
  fun_induction unwrapped n with
  | case1 n hparens inside rest hparts ih => exact ih h
  | case2 n hparens hparts =>
    -- Empty parentheses are left as they are.
    rw [operands, if_neg h, if_pos hparens]
    split
    next inside rest hsome => cases hparts.symm.trans hsome
    next hnone => rfl
  | case3 n hparens => rw [operands, if_neg h, if_neg hparens]

/-- The operands of a joined type are those of its items. -/
theorem operands_eq_flatMap_items {kind : String} {n : Node} (h : n.kind = kind) :
    n.operands kind = (n.items kind).flatMap (operands kind) := by
  fun_induction items kind n with
  | case1 n ih =>
    rw [← items.eq_def, operands_of_joined h, items_eq, List.flatMap_assoc]
    apply List.flatMap_congr
    intro part hpart
    by_cases hnested : part.kind = kind
    · rw [if_pos hnested]
      exact ih part hpart hnested
    · rw [if_neg hnested, List.flatMap_singleton]

variable {kind : String} {n : Node}

/-- An operand is found, or it stands in a joined type that is buried. -/
theorem flatMap_operands {α : Type} (hkind : kind ≠ "parenthesized_type")
    (hjoined : n.unwrapped.kind = kind) (f : Node → List α) :
    (n.operands kind).flatMap f = (n.unwrapped.items kind).flatMap fun item =>
      if item.unwrapped.kind = kind then (item.operands kind).flatMap f else f item.unwrapped := by
  rw [← operands_unwrapped hkind, operands_eq_flatMap_items hjoined, List.flatMap_assoc]
  apply List.flatMap_congr
  intro item _
  by_cases hburied : item.unwrapped.kind = kind
  · rw [if_pos hburied]
  · rw [if_neg hburied, operands_of_single hburied hkind, List.flatMap_singleton]

theorem flatMap_found {α : Type} (f : Node → List α) :
    (n.found kind).flatMap f = (n.unwrapped.items kind).flatMap fun item =>
      if item.unwrapped.kind = kind then [] else f item.unwrapped := by
  unfold found
  generalize n.unwrapped.items kind = items
  induction items with
  | nil => rfl
  | cons item items ih =>
    by_cases hburied : item.unwrapped.kind = kind
    · simpa [hburied] using ih
    · simpa [hburied] using ih

/-- What is found makes up everything exactly if the buried types add nothing. -/
theorem flatMap_found_eq_iff {α : Type} (hkind : kind ≠ "parenthesized_type")
    (hjoined : n.unwrapped.kind = kind) (f : Node → List α) :
    (n.found kind).flatMap f = (n.operands kind).flatMap f ↔
      ∀ b ∈ n.buried kind, ∀ m ∈ b.operands kind, f m = [] := by
  rw [flatMap_found, flatMap_operands hkind hjoined, flatMap_ite_eq_iff]
  simp only [buried, List.mem_filter, decide_eq_true_eq, List.flatMap_eq_nil_iff, and_imp]

end Tsx.Node

/-! ## Reading -/

/-- A type is read without the parentheses around it. -/
theorem readType_unwrapped (src : Source) (n : Node) :
    readType src n.unwrapped = readType src n := by
  fun_induction Node.unwrapped n with
  | case1 n hparens inside rest hparts ih =>
    rw [ih, readType.eq_def src n]
    simp only [hparens]
    split
    next inside' rest' hparts' =>
      cases hparts.symm.trans hparts'
      rfl
    next hnone => cases hparts.symm.trans hnone
  | case2 n hparens hparts => rfl
  | case3 n hparens => rfl

/-- The operands of a joined type are its items, read one by one. -/
theorem flattenType_eq (src : Source) (kind : String) (n : Node) :
    flattenType src kind n = (n.items kind).map (readType src) := by
  fun_induction Node.items kind n with
  | case1 n ih =>
    have hparts : flattenType src kind n = n.parts.flatMap fun part =>
        if part.kind = kind then flattenType src kind part else [readType src part] := by
      rw [flattenType]
      simp
    rw [hparts, ← Node.items.eq_def, Node.items_eq, List.map_flatMap]
    apply List.flatMap_congr
    intro part hpart
    by_cases hnested : part.kind = kind
    · rw [if_pos hnested, if_pos hnested]
      exact ih part hpart
    · rw [if_neg hnested, if_neg hnested, List.map_singleton]

theorem readType_union (src : Source) {n : Node} (h : n.unwrapped.kind = "union_type") :
    ∃ text, readType src n = .union text ((n.unwrapped.items "union_type").map (readType src)) := by
  rw [← readType_unwrapped, ← flattenType_eq, readType, h]
  exact ⟨_, rfl⟩

theorem readType_intersection (src : Source) {n : Node}
    (h : n.unwrapped.kind = "intersection_type") :
    ∃ text, readType src n =
      .intersection text ((n.unwrapped.items "intersection_type").map (readType src)) := by
  rw [← readType_unwrapped, ← flattenType_eq, readType, h]
  exact ⟨_, rfl⟩

/-! ## Values of unions -/

/-- The texts of the types that say that a prop may be left out. -/
def saysNothing (text : String) : Bool :=
  text == "null" || text == "undefined"

def TypeExpr.isLiteral : TypeExpr → Bool
  | literal _ => true
  | _ => false

/-- The value that a member of a closed union adds. -/
def TypeExpr.value? : TypeExpr → Option String
  | literal text => if saysNothing text then none else some (literalText text)
  | _ => none

/-- A union is closed if every member says nothing or is a literal. -/
theorem literalMembers?_eq (types : List TypeExpr) :
    literalMembers? types =
      if types.all fun type => saysNothing type.text || type.isLiteral then
        some (types.filterMap TypeExpr.value?)
      else none := by
  induction types with
  | nil => rfl
  | cons type rest ih =>
    rw [literalMembers?.eq_def, List.all_cons, List.filterMap_cons]
    change (if saysNothing type.text then _ else _) = _
    -- A member that says nothing is passed over before it is looked at, literal or not.
    cases hsays : saysNothing type.text with
    | true =>
      have hvalue : type.value? = none := by
        cases type with
        | literal text => exact if_pos hsays
        | _ => rfl
      simpa [hvalue] using ih
    | false =>
      cases type with
      | literal text =>
        have hvalue : (TypeExpr.literal text).value? = some (literalText text) :=
          if_neg (Bool.eq_false_iff.1 hsays)
        have hliteral : (TypeExpr.literal text).isLiteral = true := rfl
        rw [hvalue, hliteral, if_neg Bool.false_ne_true, Bool.false_or, Bool.true_and, ih]
        cases rest.all fun type => saysNothing type.text || type.isLiteral with
        | true => rfl
        | false => rfl
      | _ => rfl

theorem unionValues?_union (o : Outline) (text : String) (types : List TypeExpr) :
    unionValues? o (.union text types) =
      match literalMembers? types with
      | some [] => none
      | found => found := by
  unfold unionValues?
  cases h : literalUnion? (.union text types) with
  | none => exact h.symm
  | some values => exact h.symm

/-- A literal other than `null` and `undefined`. -/
def IsLiteral (src : Source) (n : Node) : Prop :=
  n.kind = "literal_type" ∧ saysNothing (String.ofList (Text.squeeze (src.text n))) = false

instance (src : Source) (n : Node) : Decidable (IsLiteral src n) :=
  inferInstanceAs (Decidable (_ ∧ _))

/-- The value of a literal. -/
def literalValue (src : Source) (n : Node) : String :=
  literalText (String.ofList (Text.squeeze (src.text n)))

theorem readType_literal {src : Source} {n : Node} (h : n.kind = "literal_type") :
    readType src n = .literal (String.ofList (Text.squeeze (src.text n))) := by
  simp only [readType.eq_def src n, h]

/-- A type put together of operands by joined types of one kind and by parentheses, one joined type
at least. -/
structure Grouped (kind : String) (Operand : Node → Prop) (n : Node) : Prop where
  joined : n.unwrapped.kind = kind
  operand : ∀ m ∈ n.operands kind, Operand m
  /-- No joined type is empty. -/
  filled : ∀ m ∈ n :: n.buried kind, m.operands kind ≠ []

variable {src : Source} {kind : String} {Operand : Node → Prop} {n : Node}

/-- An item of a grouped type that is not buried is one of its operands, in parentheses at most. -/
theorem Grouped.item (h : Grouped kind Operand n) (hkind : kind ≠ "parenthesized_type")
    {item : Node} (hitem : item ∈ n.unwrapped.items kind) (hfound : item.unwrapped.kind ≠ kind) :
    Operand item.unwrapped := by
  apply h.operand
  rw [← Node.operands_unwrapped hkind, Node.operands_eq_flatMap_items h.joined]
  refine List.mem_flatMap.2 ⟨item, hitem, ?_⟩
  rw [Node.operands_of_single hfound hkind]
  exact List.mem_singleton_self _

/-- The members of a union add the values of the literals that are found. -/
theorem Grouped.filterMap_value? (h : Grouped "union_type" (IsLiteral src) n) :
    ((n.unwrapped.items "union_type").map (readType src)).filterMap TypeExpr.value? =
      (n.found "union_type").map (literalValue src) := by
  rw [List.filterMap_map, List.filterMap_eq_flatMap_toList, List.map_eq_flatMap, Node.flatMap_found]
  apply List.flatMap_congr
  intro item hitem
  by_cases hburied : item.unwrapped.kind = "union_type"
  · obtain ⟨text, hread⟩ := readType_union src hburied
    rw [if_pos hburied, Function.comp_apply, hread]
    rfl
  · rcases h.item (by decide) hitem hburied with ⟨hkind, hsays⟩
    rw [if_neg hburied, Function.comp_apply, ← readType_unwrapped, readType_literal hkind,
      TypeExpr.value?, hsays]
    rfl

theorem Grouped.all_closed (h : Grouped "union_type" (IsLiteral src) n) :
    (((n.unwrapped.items "union_type").map (readType src)).all fun type =>
        saysNothing type.text || type.isLiteral) = true ↔
      ∀ b ∈ n.buried "union_type", saysNothing (readType src b).text = true := by
  simp only [List.all_eq_true, List.forall_mem_map, Bool.or_eq_true, Node.buried, List.mem_filter,
    decide_eq_true_eq, and_imp]
  refine forall₂_congr fun item hitem => ?_
  by_cases hburied : item.unwrapped.kind = "union_type"
  · obtain ⟨text, hread⟩ := readType_union src hburied
    simp [hread, hburied, TypeExpr.isLiteral]
  · have hkind := (h.item (by decide) hitem hburied).1
    simp [← readType_unwrapped src item, readType_literal hkind, hburied, TypeExpr.isLiteral]

/-- A union of literals has values if what is buried in it says nothing, and they are those of the
literals that are found. -/
theorem Grouped.unionValues?_eq (h : Grouped "union_type" (IsLiteral src) n) (o : Outline) :
    unionValues? o (readType src n) =
      match if (∀ b ∈ n.buried "union_type", saysNothing (readType src b).text = true) then
          some ((n.found "union_type").map (literalValue src)) else none with
      | some [] => none
      | found => found := by
  obtain ⟨text, hread⟩ := readType_union src h.joined
  rw [hread, unionValues?_union, literalMembers?_eq, h.filterMap_value?]
  by_cases hall : ∀ b ∈ n.buried "union_type", saysNothing (readType src b).text = true
  · rw [if_pos hall, if_pos (h.all_closed.2 hall)]
  · rw [if_neg hall, if_neg (mt h.all_closed.1 hall)]

theorem Grouped.unionValues?_eq_none (h : Grouped "union_type" (IsLiteral src) n) (o : Outline)
    (hburied : ∃ b ∈ n.buried "union_type", saysNothing (readType src b).text = false) :
    unionValues? o (readType src n) = none := by
  rcases hburied with ⟨b, hb, hsays⟩
  rw [h.unionValues?_eq, if_neg]
  intro hall
  rw [hall b hb] at hsays
  cases hsays

theorem Grouped.unionValues?_eq_some_iff (h : Grouped "union_type" (IsLiteral src) n)
    (o : Outline) :
    unionValues? o (readType src n) = some ((n.operands "union_type").map (literalValue src)) ↔
      n.buried "union_type" = [] := by
  have hfound := Node.flatMap_found_eq_iff (by decide) h.joined fun m => [literalValue src m]
  rw [← List.map_eq_flatMap, ← List.map_eq_flatMap] at hfound
  rw [h.unionValues?_eq]
  constructor
  · intro hvalues
    split at hvalues
    · cases hvalues
    · rcases Option.ite_none_right_eq_some.1 hvalues with ⟨-, hmap⟩
      -- Every buried union takes the value of an operand away.
      apply List.eq_nil_iff_forall_not_mem.2
      intro b hb
      obtain ⟨m, hm⟩ := List.exists_mem_of_ne_nil _ (h.filled b (List.mem_cons_of_mem n hb))
      exact List.cons_ne_nil _ _ (hfound.1 (Option.some.inj hmap) b hb m hm)
  · intro hnone
    have hmap := hfound.2 (by simp [hnone])
    rw [hmap, if_pos (by simp [hnone])]
    -- There is a literal, and so the values are not those of an empty union.
    obtain ⟨m, others, hm⟩ := List.exists_cons_of_ne_nil (h.filled n List.mem_cons_self)
    rw [hm]
    rfl

/-! ## Declarations from intersections -/

def objectKinds : List String := ["object_type", "interface_body"]

def referenceKinds : List String :=
  ["type_identifier", "nested_type_identifier", "identifier", "generic_type"]

/-- An object type or a reference. -/
def IsPart (n : Node) : Prop :=
  n.kind ∈ objectKinds ∨ n.kind ∈ referenceKinds

instance (n : Node) : Decidable (IsPart n) :=
  inferInstanceAs (Decidable (_ ∨ _))

/-- The members that an object type adds to a declaration. -/
def ownMembers (src : Source) (n : Node) : List Member :=
  if n.kind ∈ objectKinds then readMembers src n else []

/-- The base that a reference adds to a declaration. -/
def ownBases (src : Source) (n : Node) : List TypeExpr :=
  if n.kind ∈ referenceKinds then [readType src n] else []

/-- The declaration with the members of object types and with references as its bases. -/
def declOf (src : Source) (name : String) (parts : List Node) : PropsDecl where
  name := name
  members := parts.flatMap (ownMembers src)
  bases := parts.flatMap (ownBases src)

theorem readType_object {n : Node} (h : n.kind ∈ objectKinds) :
    ∃ text, readType src n = .object text (readMembers src n) := by
  rw [readType.eq_def src n]
  rcases List.mem_pair.1 h with hkind | hkind
  · exact ⟨_, by simp only [hkind]; rfl⟩
  · exact ⟨_, by simp only [hkind]; rfl⟩

theorem readType_reference {n : Node} (h : n.kind ∈ referenceKinds) :
    ∃ text name arguments, readType src n = .reference text name arguments := by
  rw [readType.eq_def src n]
  simp only [referenceKinds, List.mem_cons, List.not_mem_nil, or_false] at h
  rcases h with hkind | hkind | hkind | hkind
  all_goals exact ⟨_, _, _, by simp only [hkind]; rfl⟩

theorem not_mem_referenceKinds : ∀ kind ∈ objectKinds, kind ∉ referenceKinds := by
  decide

/-- What an item of an intersection is read as: an intersection if it is buried, an object type or a
reference otherwise. -/
theorem Grouped.read_item (h : Grouped "intersection_type" IsPart n) (src : Source) {item : Node}
    (hitem : item ∈ n.unwrapped.items "intersection_type") :
    (item.unwrapped.kind = "intersection_type" ∧
        ∃ text parts, readType src item = .intersection text parts) ∨
      (item.unwrapped.kind ≠ "intersection_type" ∧ item.unwrapped.kind ∈ objectKinds ∧
        ∃ text, readType src item = .object text (readMembers src item.unwrapped)) ∨
      (item.unwrapped.kind ≠ "intersection_type" ∧ item.unwrapped.kind ∈ referenceKinds ∧
        ∃ text name arguments, readType src item = .reference text name arguments) := by
  by_cases hburied : item.unwrapped.kind = "intersection_type"
  · obtain ⟨text, hread⟩ := readType_intersection src hburied
    exact .inl ⟨hburied, text, _, hread⟩
  · rw [← readType_unwrapped src item]
    rcases h.item (by decide) hitem hburied with hobject | hreference
    · exact .inr (.inl ⟨hburied, hobject, readType_object hobject⟩)
    · exact .inr (.inr ⟨hburied, hreference, readType_reference hreference⟩)

/-- An intersection declares what is found in it. -/
theorem Grouped.aliasDecl?_eq (h : Grouped "intersection_type" IsPart n) (name : String) :
    aliasDecl? name (readType src n) =
      some (declOf src name (n.found "intersection_type")) := by
  obtain ⟨text, hread⟩ := readType_intersection src h.joined
  rw [hread, aliasDecl?, declOf, Node.flatMap_found, Node.flatMap_found, List.flatMap_map,
    ← List.filterMap_eq_filter, List.filterMap_map, List.filterMap_eq_flatMap_toList]
  congr 2
  · apply List.flatMap_congr
    intro item hitem
    rcases h.read_item src hitem with ⟨hkind, text, parts, hread⟩ |
      ⟨hkind, hobject, text, hread⟩ | ⟨hkind, hreference, text, other, arguments, hread⟩
    · simp [hread, hkind]
    · simp [hread, hkind, ownMembers, hobject]
    · have hobject : item.unwrapped.kind ∉ objectKinds :=
        fun hobject => not_mem_referenceKinds _ hobject hreference
      simp [hread, hkind, ownMembers, hobject]
  · apply List.flatMap_congr
    intro item hitem
    rcases h.read_item src hitem with ⟨hkind, text, parts, hread⟩ |
      ⟨hkind, hobject, text, hread⟩ | ⟨hkind, hreference, text, other, arguments, hread⟩
    · simp [hread, hkind, Option.guard]
    · have hreference := not_mem_referenceKinds _ hobject
      simp [hread, hkind, ownBases, hreference, Option.guard]
    · simp [hread, hkind, ownBases, hreference, readType_unwrapped, Option.guard]

theorem Grouped.declOf_found_eq_iff (h : Grouped "intersection_type" IsPart n) (name : String) :
    declOf src name (n.found "intersection_type") =
        declOf src name (n.operands "intersection_type") ↔
      ∀ b ∈ n.buried "intersection_type", ∀ m ∈ b.operands "intersection_type",
        ownMembers src m = [] ∧ ownBases src m = [] := by
  have hmembers := Node.flatMap_found_eq_iff (by decide) h.joined (ownMembers src)
  have hbases := Node.flatMap_found_eq_iff (by decide) h.joined (ownBases src)
  rw [declOf, declOf, PropsDecl.mk.injEq, hmembers, hbases, eq_self, true_and]
  constructor
  · rintro ⟨hm, hb⟩ b hburied m hmem
    exact ⟨hm b hburied m hmem, hb b hburied m hmem⟩
  · intro hall
    exact ⟨fun b hburied m hmem => (hall b hburied m hmem).1,
      fun b hburied m hmem => (hall b hburied m hmem).2⟩

/-! ## Grouping -/

/-- What is read from a type whose operands are grouped in any way. A union of literals has the
values of all its literals exactly if no union is buried in it, and none at all if one is that says
anything. An alias of an intersection declares what is found in it, and so the members of all its
object types and all its references as bases exactly if the buried ones have nothing to add. -/
theorem grouped_types_read (src : Source) (o : Outline) (n : Node) :
    (Grouped "union_type" (IsLiteral src) n →
      (unionValues? o (readType src n) =
          some ((n.operands "union_type").map (literalValue src)) ↔
        n.buried "union_type" = []) ∧
      ((∃ b ∈ n.buried "union_type", saysNothing (readType src b).text = false) →
        unionValues? o (readType src n) = none)) ∧
    (Grouped "intersection_type" IsPart n → ∀ name, o.interface? name = none →
      (o.alias? name).bind (·.value) = some (readType src n) →
      o.decl? name = some (declOf src name (n.found "intersection_type")) ∧
      (o.decl? name = some (declOf src name (n.operands "intersection_type")) ↔
        ∀ b ∈ n.buried "intersection_type", ∀ m ∈ b.operands "intersection_type",
          ownMembers src m = [] ∧ ownBases src m = [])) := by
  constructor
  · intro hgrouped
    exact ⟨hgrouped.unionValues?_eq_some_iff o, hgrouped.unionValues?_eq_none o⟩
  · intro hgrouped name hinterface halias
    have hdecl : o.decl? name = some (declOf src name (n.found "intersection_type")) := by
      rw [Outline.decl?, hinterface, halias]
      exact hgrouped.aliasDecl?_eq name
    refine ⟨hdecl, ?_⟩
    rw [hdecl, Option.some.injEq]
    exact hgrouped.declOf_found_eq_iff name

/-- A union and an intersection with parentheses in them. -/
def boxSource : Source :=
  Source.ofString "'a' | ('b' | 'c')\nA & (B & C)"

def leafAt (kind : String) (start stop : Nat) : Node :=
  .node { kind, start, stop } []

/-- Three operands, the last two of them in parentheses. -/
def joinedTwice (kind : String) (first second third : Node) : Node :=
  .node { kind, start := first.start, stop := third.stop + 1 } [first,
    .node { kind := "parenthesized_type", start := second.start - 1, stop := third.stop + 1 } [
      .node { kind, start := second.start, stop := third.stop } [second, third]]]

def boxUnion : Node :=
  joinedTwice "union_type" (leafAt "literal_type" 0 3) (leafAt "literal_type" 7 10)
    (leafAt "literal_type" 13 16)

def boxIntersection : Node :=
  joinedTwice "intersection_type" (leafAt "type_identifier" 18 19) (leafAt "type_identifier" 23 24)
    (leafAt "type_identifier" 27 28)

def boxModule : Outline where
  path := "Box.tsx"
  aliases := [{ name := "BoxProps", value := some (readType boxSource boxIntersection) }]

/-- With parentheses around its last two operands, a union loses its values and an intersection two
of its bases. -/
theorem grouped_types_read_box :
    (Grouped "union_type" (IsLiteral boxSource) boxUnion ∧
      (boxUnion.operands "union_type").map (literalValue boxSource) = ["a", "b", "c"] ∧
      unionValues? boxModule (readType boxSource boxUnion) = none) ∧
    Grouped "intersection_type" IsPart boxIntersection ∧
      (boxIntersection.operands "intersection_type").map (fun m => (readType boxSource m).text) =
        ["A", "B", "C"] ∧
      ∃ decl, boxModule.decl? "BoxProps" = some decl ∧ decl.bases.map TypeExpr.text = ["A"] ∧
        some decl ≠
          some (declOf boxSource "BoxProps" (boxIntersection.operands "intersection_type")) := by
  have hunion : Grouped "union_type" (IsLiteral boxSource) boxUnion :=
    ⟨by decide +kernel, by decide +kernel, by decide +kernel⟩
  have hintersection : Grouped "intersection_type" IsPart boxIntersection :=
    ⟨by decide +kernel, by decide +kernel, by decide +kernel⟩
  have hnone := ((grouped_types_read boxSource boxModule boxUnion).1 hunion).2 (by decide +kernel)
  rcases (grouped_types_read boxSource boxModule boxIntersection).2 hintersection "BoxProps" rfl rfl
    with ⟨hdecl, hiff⟩
  refine ⟨⟨hunion, by decide +kernel, hnone⟩, hintersection, by decide +kernel, _, hdecl,
    by decide +kernel, ?_⟩
  rw [← hdecl]
  intro hall
  exact absurd (hiff.1 hall) (by decide +kernel)

end PropCatalog
