import PropCatalog.Component.Basic
import PropCatalog.Component.Defaults
import PropCatalog.Component.Describe
import PropCatalog.Log

/-!
# Components from outlines

A module holds a component if it declares the component's props. Their members are the declaration's
own ones and those it inherits through the types it extends:

- `PropsDecl`  : members and bases of a declaration
- `inherited`  : the members reached through a base, with notes about bases that lead nowhere
- `flatten`    : all members of a declaration, the first one of a name being kept
- `extract`    : the component of a module
-/

namespace PropCatalog

/-! ## Declarations of props -/

structure PropsDecl where
  name : String
  members : List Member := []
  bases : List TypeExpr := []

def aliasDecl? (name : String) : TypeExpr → Option PropsDecl
  | .object _ members => some { name, members }
  | .intersection _ parts =>
    -- The object types among the parts give the members, the references are the bases.
    some {
      name
      members := parts.flatMap fun
        | .object _ members => members
        | _ => []
      bases := parts.filter fun
        | .reference .. => true
        | _ => false }
  | _ => none

def Outline.decl? (o : Outline) (name : String) : Option PropsDecl :=
  -- An interface comes before an alias of the same name.
  match o.interface? name with
  | some i => some { name, members := i.members, bases := i.extends_ }
  | none => ((o.alias? name).bind (·.value)).bind (aliasDecl? name)

/-- The declaration that describes the props of a component. -/
def Outline.propsDecl? (o : Outline) (componentName : String) : Option PropsDecl :=
  o.decl? (componentName ++ "Props")

/-! ## Names of attribute bags -/

/-- Names that stand for attribute bags of the host, as they are. -/
def carrierNames : List String :=
  ["SVGProps", "SVGAttributes", "DOMAttributes", "AriaAttributes", "IntrinsicElements",
    "PropsWithChildren", "PropsWithRef", "RefAttributes"]

/-- A text that begins with `pre` and ends with `suf`, without overlap. -/
def isBetween (pre suf : String) (cs : List Char) : Bool :=
  Text.startsWith pre.toList cs && Text.endsWith suf.toList (cs.drop pre.length)

/-- Whether a name is that of an attribute bag or element type of the host. -/
def isHostCarrier (name : String) : Bool :=
  let simple := Text.afterLast '.' name.toList
  -- One line feed may end the name.
  let simple := if simple.getLast? == some '\n' then simple.dropLast else simple
  simple.all Text.isWordChar &&
    (isBetween "ComponentProps" "" simple || isBetween "" "HTMLAttributes" simple ||
      isBetween "" "HTMLProps" simple || carrierNames.contains (String.ofList simple) ||
      isBetween "HTML" "Element" simple || isBetween "SVG" "Element" simple)

/-! ## Inheritance -/

def isQuote (c : Char) : Bool :=
  c == '\'' || c == '"' || c.toNat == 96

def literalText (text : String) : String :=
  String.ofList (Text.dropEnds isQuote text.toList)

mutual

/-- The literal keys in a type argument. -/
def keyNames : TypeExpr → List String
  | .literal text => [literalText text]
  | .union _ members => keyNamesOf members
  | _ => []

def keyNamesOf : List TypeExpr → List String
  | [] => []
  | type :: rest => keyNames type ++ keyNamesOf rest

end

/-- Type operators that pass on the members of their first argument. -/
def utilityTypes : List String := ["Omit", "Pick", "Partial", "Readonly"]

/-- What a utility type makes of a member. -/
def applyUtility (name : String) (keys : List String) (m : Member) : Option Member :=
  if name == "Omit" then if keys.contains m.name then none else some m
  else if name == "Pick" then if keys.contains m.name then some m else none
  else if name == "Partial" then some { m with optional := true }
  else some m

/-- What a walk through bases comes upon. -/
inductive Step where
  | member (m : Member)
  | note (r : LogRecord)

def parserChannel : Channel := ⟨"parser"⟩

/-- A note about a base that is not declared in the module. -/
def unresolvedNote (o : Outline) (name : String) : LogRecord :=
  { level := .debug
    channel := parserChannel
    message :=
      if isHostCarrier name then "Ignoring host attribute carrier " ++ name
      else "Cannot resolve extended declaration " ++ name ++ " in " ++ o.path }

/-- How many declarations and utility types a path through bases may have. -/
def inheritanceLimit : Nat := 10

/-- The walk through a base, with the declarations on the way to it. -/
def inherited (o : Outline) : Nat → List String → TypeExpr → List Step
  | 0, _, _ => []
  | limit + 1, ancestors, .reference _ name arguments =>
    match utilityTypes.contains name, arguments with
    | true, base :: keys =>
      -- A utility type takes one of the limit, just as a declaration does.
      (inherited o limit ancestors base).filterMap fun
        | .member m => (applyUtility name (keyNamesOf keys) m).map .member
        | .note r => some (.note r)
    | _, _ =>
      -- Only the way to here counts: a declaration may be reached again on another way.
      if ancestors.contains name then []
      else
        match o.decl? name with
        | none => [.note (unresolvedNote o name)]
        | some decl =>
          decl.members.map .member ++
            decl.bases.flatMap (inherited o limit (name :: ancestors))
  | _ + 1, _, _ => []

def inheritedBy (o : Outline) (decl : PropsDecl) : List Step :=
  decl.bases.flatMap (inherited o inheritanceLimit [decl.name])

/-- The members of a declaration: its own, then the inherited ones. -/
def flatten (o : Outline) (decl : PropsDecl) : List Member :=
  let inherited := (inheritedBy o decl).filterMap fun
    | .member m => some m
    | .note _ => none
  -- The first member of a name is kept, so an own one wins over an inherited one.
  ((decl.members ++ inherited).foldl (fun acc m => Assoc.insertNew acc (m.name, m)) []).map (·.2)

def flattenNotes (o : Outline) (decl : PropsDecl) : List LogRecord :=
  (inheritedBy o decl).filterMap fun
    | .note r => some r
    | .member _ => none

/-! ## Props -/

/-- The literals of a union; nothing if another type is among them. -/
def literalMembers? : List TypeExpr → Option (List String)
  | [] => some []
  | type :: rest =>
    -- The empty types say that the prop may be left out, not what it may be.
    if type.text == "null" || type.text == "undefined" then literalMembers? rest
    else
      match type with
      | .literal text => (literalMembers? rest).map (literalText text :: ·)
      | _ => none

/-- The values of a closed union of literals, if there are any. -/
def literalUnion? : TypeExpr → Option (List String)
  | .union _ members =>
    match literalMembers? members with
    | some [] => none
    | found => found
  | _ => none

/-- The values of a closed union, written out or named by an alias. -/
def unionValues? (o : Outline) (type : TypeExpr) : Option (List String) :=
  match literalUnion? type with
  | some values => some values
  | none =>
    match type with
    | .reference _ name [] => ((o.alias? name).bind (·.value)).bind literalUnion?
    | _ => none

def lower (cs : List Char) : List Char :=
  -- Letters beyond ASCII never become letters of the words this is compared with.
  cs.map Char.toLower

def isTrue (text : Option String) : Bool :=
  (text.map fun s => lower (Text.trim s.toList) == "true".toList).getD false

/-- The names in a list separated by blanks and commas, each once. -/
def splitNames (text : String) : List String :=
  let runs := Text.runsOutside (fun c => Text.isBlank c || c == ',') text.toList
  ((runs.map String.ofList).filter (· != "true")).foldl
    (fun acc name => if acc.contains name then acc else acc ++ [name]) []

def buildProp (o : Outline) (defaults : List (String × String)) (m : Member) : PropSpec :=
  let docs := memberDocs m.comments
  let tag (name : String) : Option String := Assoc.get? docs.tags name
  { type := m.typeText
    optional := m.optional
    values := m.type.bind (unionValues? o)
    default := Assoc.get? defaults m.name
    description := docs.description
    renderVariants := isTrue (tag "renderVariants")
    displayTemplate := tag "displayTemplate"
    hidden := isTrue (tag "hideInDocs")
    sample := (tag "example").or (tag "exampleValue")
    excludedWith := splitNames ((tag "excludedWith").getD "") }

/-! ## Components -/

/-- Extensions of stylesheets if none are given. -/
def defaultStyleExtensions : List String :=
  [".css", ".scss", ".sass", ".module.css", ".module.scss"]

def withDot (extension : String) : String :=
  if Text.startsWith ['.'] extension.toList then extension else "." ++ extension

def styleImports (o : Outline) (extensions : List String) : List String :=
  o.imports.filter fun path =>
    extensions.any fun extension => Text.endsWith (withDot extension).toList path.toList

/-- The component of a module, with what is reported on the way. -/
def extract (o : Outline) (name : String) (extensions : List String) :
    Option Component × List LogRecord :=
  match o.propsDecl? name with
  | none =>
    (none, [{
      level := .info
      channel := parserChannel
      message := "Skipping " ++ o.path ++ ": no " ++ name ++ "Props declaration found" }])
  | some decl =>
    let defaults := propDefaults o name decl.name
    let component : Component := {
      name
      description := componentDescription o name
      filePath := o.path
      props := (flatten o decl).map fun m => (m.name, buildProp o defaults m)
      styleFiles := styleImports o extensions }
    (some component, flattenNotes o decl)

end PropCatalog
