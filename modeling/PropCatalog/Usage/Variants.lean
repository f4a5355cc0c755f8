import PropCatalog.Usage.Literal
import PropCatalog.Usage.Snippet

/-!
# Examples of a component

- `axes`          : the props that are varied
- `singles`       : one example for every value of every axis
- `permutations`  : examples that vary two or three axes at once, leaving out axes that exclude each
  other, up to a fixed number
- `variants`      : the examples of a component, cut to a given number
-/

namespace PropCatalog

/-- One example of a component's use. -/
structure Usage where
  props : List (String × Value)
  code : String
  title : String
  isPermutation : Bool := false
  combinedProps : List String := []
  deriving Repr

def Usage.toValue (u : Usage) : Value :=
  .map [
    ("props", .map u.props),
    ("code", .text u.code),
    ("title", .text u.title),
    ("isPermutation", .bool u.isPermutation),
    ("combinedProps", textList u.combinedProps)]

structure VariantOptions where
  maxPermutations : Int := 20
  fallbacks : Fallbacks := defaultFallbacks

/-- At most so many examples vary several axes. -/
def permutationCeiling : Nat := 10

/-- So many values of each axis are combined. -/
def valuesPerAxis : Nat := 2

/-- At most so many axes are varied at once. -/
def maxAxesTogether : Nat := 3

/-! ## Axes -/

def PropSpec.isAxis (p : PropSpec) : Bool :=
  p.renderVariants && !(p.values.getD []).isEmpty && !p.hidden

/-- The varied props, in order. -/
def axes (props : List (String × PropSpec)) : List String :=
  (props.filter (·.2.isAxis)).map (·.1)

def axisValues (props : List (String × PropSpec)) (axis : String) : List String :=
  ((Assoc.get? props axis).bind (·.values)).getD []

/-! ## Single examples -/

/-- An example from its props; `varied` are the axes its title names. -/
def makeUsage (c : Component) (props : List (String × Value)) (varied : List String)
    (isPermutation : Bool) : Usage :=
  { props
    code := snippet c.name props
    title := title c.props props varied
    isPermutation
    combinedProps := if isPermutation then varied else [] }

/-- An example whose values are written; the code and the record of any other fail. -/
def writeUsage (c : Component) (props : List (String × Value)) (varied : List String)
    (isPermutation : Bool) : Except LiteralError Usage :=
  if Value.entriesWritable props then .ok (makeUsage c props varied isPermutation)
  else .error .tooManyDigits

def addInferred (fallbacks : Fallbacks) (acc : List (String × Value)) (name : String)
    (prop : PropSpec) : Except LiteralError (List (String × Value)) := do
  match ← inferValue fallbacks name prop with
  -- A prop whose value would be null is left out.
  | .null => return acc
  | value => return acc ++ [(name, value)]

/-- The example that assigns the required props only. -/
def defaultUsage (options : VariantOptions) (c : Component) : Except LiteralError Usage := do
  let props ← c.props.foldlM (fun acc (name, prop) =>
    if prop.hidden || prop.optional then pure acc
    else addInferred options.fallbacks acc name prop) []
  writeUsage c props [] false

/-- Completes assigned props by those that are required or have a default. -/
def fillProps (options : VariantOptions) (c : Component) (assigned : List (String × Value)) :
    Except LiteralError (List (String × Value)) :=
  -- Axes are props like the others here: whether they exclude an assigned one is not asked.
  c.props.foldlM (fun acc (name, prop) =>
    if Assoc.has acc name || prop.hidden then pure acc
    else if !prop.optional || (given? prop.default).isSome then
      addInferred options.fallbacks acc name prop
    else pure acc) assigned

def singleUsage (options : VariantOptions) (c : Component) (axis value : String) :
    Except LiteralError Usage := do
  let props ← fillProps options c [(axis, .text value)]
  writeUsage c props [axis] false

/-- One example for each value of each axis. -/
def singles (options : VariantOptions) (c : Component) (axes : List String) :
    Except LiteralError (List Usage) :=
  (axes.flatMap fun axis => (axisValues c.props axis).map (axis, ·)).mapM fun (axis, value) =>
    singleUsage options c axis value

/-! ## Permutations -/

/-- The sublists of a given length, in lexicographic order of positions. -/
def combinations {α : Type} : Nat → List α → List (List α)
  | 0, _ => [[]]
  | _ + 1, [] => []
  | k + 1, x :: xs => (combinations k xs).map (x :: ·) ++ combinations (k + 1) xs

/-- All choices of one element from each list, the last list varying fastest. -/
def choices {α : Type} : List (List α) → List (List α)
  | [] => [[]]
  | xs :: rest => xs.flatMap fun x => (choices rest).map (x :: ·)

def conflict (props : List (String × PropSpec)) (a b : String) : Bool :=
  -- It is enough that one of the two lists the other.
  let excludes (x y : String) : Bool :=
    ((Assoc.get? props x).map fun p => p.excludedWith.contains y).getD false
  excludes a b || excludes b a

def hasConflict (props : List (String × PropSpec)) : List String → Bool
  | [] => false
  | a :: rest => rest.any (conflict props a) || hasConflict props rest

/-- The assignments that vary the given axes together. -/
def assignments (props : List (String × PropSpec)) (subset : List String) :
    List (List (String × Value)) :=
  (choices (subset.map fun axis => (axisValues props axis).take valuesPerAxis)).map fun values =>
    subset.zip (values.map .text)

def generatorChannel : Channel := ⟨"generator"⟩

/-- Goes through sets of axes until `room` assignments are found. -/
def chooseAssignments (props : List (String × PropSpec)) :
    Nat → List (List String) → List (List String × List (String × Value)) × List LogRecord
  | _, [] => ([], [])
  | room, subset :: rest =>
    -- Once the room is used up, later sets are neither tried nor noted.
    if room == 0 then ([], [])
    else if hasConflict props subset then
      let (found, notes) := chooseAssignments props room rest
      (found, {
        level := .debug
        channel := generatorChannel
        message := "Skipping excluded combination " ++ ", ".intercalate subset } :: notes)
    else
      let here := (assignments props subset).take room
      let (found, notes) := chooseAssignments props (room - here.length) rest
      (here.map (subset, ·) ++ found, notes)

/-- The sets of axes that are varied together, pairs first. -/
def axisSets (axes : List String) : List (List String) :=
  (List.range (min axes.length maxAxesTogether + 1)).flatMap fun size =>
    if size < 2 then [] else combinations size axes

def permutationUsage (options : VariantOptions) (c : Component)
    (choice : List String × List (String × Value)) : Except LiteralError Usage := do
  let props ← fillProps options c choice.2
  writeUsage c props choice.1 true

def permutations (options : VariantOptions) (c : Component) (axes : List String) :
    Except LiteralError (List Usage × List LogRecord) := do
  let (chosen, notes) := chooseAssignments c.props permutationCeiling (axisSets axes)
  return (← chosen.mapM (permutationUsage options c), notes)

/-! ## All examples -/

def cut {α : Type} (n : Int) (items : List α) : List α :=
  -- A negative number leaves out so many items at the end.
  if 0 ≤ n then items.take n.toNat else items.take (items.length - n.natAbs)

/-- The examples of a component, with what is reported on the way. -/
def variants (options : VariantOptions) (c : Component) :
    Except LiteralError (List Usage × List LogRecord) := do
  -- Without props there is nothing to show, not even a default example.
  if c.props.isEmpty then return ([], [])
  let axes := axes c.props
  if axes.isEmpty then return ([← defaultUsage options c], [])
  let single ← singles options c axes
  let (permuted, notes) ← permutations options c axes
  let all := single ++ permuted
  let note : LogRecord := {
    level := .debug
    channel := generatorChannel
    message := "Truncating " ++ Text.number all.length ++ " variants of " ++ c.name ++ " to " ++
      String.ofList (Value.intText options.maxPermutations) }
  return (cut options.maxPermutations all,
    if options.maxPermutations < all.length then notes ++ [note] else notes)

end PropCatalog
