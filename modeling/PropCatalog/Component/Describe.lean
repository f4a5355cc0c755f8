import PropCatalog.Docs

/-!
# Descriptions of components

The description of a component is looked for at its function, at its variable, and at the default
export, following re-assignments and wrapper calls to the declaration that is documented. If nothing
is found, the documented variables that look like components are scored and the best one is taken.
-/

namespace PropCatalog

/-! ## Following declarations -/

/-- How many steps a declaration is followed. -/
def describeLimit : Nat := 9

/-- What a description is looked for at. -/
inductive Target where
  | variable (v : Variable)
  | name (n : String)
  | expression (e : Expr)

/-- The description in the comments on a variable: those on its statement, else those on itself. -/
def Variable.ownDescription (v : Variable) : String :=
  let outer := description v.statementComments
  if outer == "" then description v.declaratorComments else outer

/-- The description of a target. A name that was visited before leads nowhere. -/
def describe (o : Outline) : Nat → Target → List String → String
  | 0, _, _ => ""
  | limit + 1, target, visited =>
    let atVariable (v : Variable) : String :=
      if visited.contains v.name then ""
      else if v.ownDescription != "" then v.ownDescription
      else
        match v.initializer with
        | some value => describe o limit (.expression value) (v.name :: visited)
        | none => ""
    match target with
    | .variable v => atVariable v
    | .name n =>
      if visited.contains n then ""
      else
        match o.function? n with
        | some function => description function.comments
        | none =>
          match o.variableNamed? n with
          | some v => atVariable v
          | none => ""
    | .expression (.identifier _ n) => describe o limit (.name n) visited
    | .expression (.call _ _ (.function _ function :: _) statementComments) =>
      let own := (function.map fun f => description f.comments).getD ""
      if own == "" then description statementComments else own
    | .expression (.call _ _ (first :: _) _) => describe o limit (.expression first) visited
    | .expression (.function _ (some function)) => description function.comments
    | .expression _ => ""

/-! ## Scoring -/

/-- An ASCII capital followed by ASCII letters and digits; one line feed may end the name. -/
def isPascalCase (name : String) : Bool :=
  match name.toList with
  | c :: rest =>
    let rest := if rest.getLast? == some '\n' then rest.dropLast else rest
    c.isUpper && rest.all Char.isAlphanum
  | [] => false

/-- The types that variables holding components are annotated with. -/
def wrapperTypes : List String :=
  ["FC", "SFC", "VFC", "FunctionComponent", "VoidFunctionComponent", "ComponentType",
    "ExoticComponent", "NamedExoticComponent", "ForwardRefExoticComponent", "MemoExoticComponent"]

/-- Whether one of the wrapper types occurs as a whole word. -/
def isWrapperType (declaredType : String) : Bool :=
  (Text.runsOutside (!Text.isWordChar ·) declaredType.toList).any fun word =>
    wrapperTypes.contains (String.ofList word)

structure Candidate where
  name : String
  description : String
  score : Nat
  deriving DecidableEq, Repr

/-- Longer descriptions score higher, and there is a bonus for a capitalised name, for a wrapper
type, and for a name that contains the component's. -/
def candidateScore (v : Variable) (text componentName : String) : Nat :=
  text.length + (if isPascalCase v.name then 10 else 0) +
    (if isWrapperType (v.declaredType.getD "") then 25 else 0) +
    (if componentName != "" && Text.contains componentName.toList v.name.toList then 100 else 0)

/-- Whether a variable may hold a component. -/
def looksLikeComponent (v : Variable) : Bool :=
  isPascalCase v.name || isWrapperType (v.declaredType.getD "")

/-- The candidate a variable makes, if it looks like a component and is documented. -/
def candidate? (componentName : String) (v : Variable) : Option Candidate :=
  if looksLikeComponent v && v.ownDescription != "" then
    some {
      name := v.name
      description := v.ownDescription
      score := candidateScore v v.ownDescription componentName }
  else none

/-- The better of two candidates, the earlier one on a tie. -/
def better (best : Option Candidate) (next : Candidate) : Option Candidate :=
  match best with
  | none => some next
  | some b => if b.score < next.score then some next else some b

def bestCandidate (o : Outline) (componentName : String) : Option Candidate :=
  (o.vars.filterMap (candidate? componentName)).foldl better none

/-! ## The description of a component -/

def describeFunction (o : Outline) (name : String) : String :=
  ((o.function? name).map fun function => description function.comments).getD ""

def describeVariable (o : Outline) (name : String) : String :=
  ((o.variableNamed? name).map fun v => describe o describeLimit (.variable v) []).getD ""

def describeDefaultExport (o : Outline) : String :=
  match o.defaultExport with
  | none => ""
  | some (.declaration function) => description function.comments
  | some (.expression (.identifier _ n)) => describe o describeLimit (.name n) []
  | some (.expression value) => describe o describeLimit (.expression value) []

def componentDescription (o : Outline) (name : String) : String :=
  let seeds := [describeFunction o name, describeVariable o name, describeDefaultExport o]
  match seeds.find? (· != "") with
  | some text => text
  | none => ((bestCandidate o name).map Candidate.description).getD ""

end PropCatalog
