import PropCatalog.Assoc
import PropCatalog.Outline.Basic
import PropCatalog.Text.Search
import PropCatalog.Tsx.Module

/-!
# Reading the outline of a module from its tree

- `Site`             : a node together with the siblings before it
- `Site.comments`    : the comments that document a node
- `readType`         : types, with nested unions and intersections flattened
- `readExpr`         : values, with parentheses and annotations taken off
- `Outline.ofTree`   : the declarations of a module, the first one of a name being kept
- `Outline.ofText`   : the outline of a source text, or where the text is malformed
-/

namespace PropCatalog

open Tsx (Node Source)

/-! ## Sites and their comments -/

/-- A node with the siblings before it, the nearest one first. -/
structure Site where
  before : List Node
  node : Node

/-- The sites of a list of siblings. -/
def sitesFrom (before : List Node) : List Node → List Site
  | [] => []
  | n :: rest => ⟨before, n⟩ :: sitesFrom (n :: before) rest

def Tsx.Node.sites (n : Node) : List Site :=
  sitesFrom [] n.children

/-- The site of the first child in a field. -/
def Tsx.Node.site? (n : Node) (field : String) : Option Site :=
  n.sites.find? (·.node.label.field == some field)

/-- The sites of the named children that are no comments. -/
def Tsx.Node.partSites (n : Node) : List Site :=
  n.sites.filter fun site => site.node.label.named && !site.node.isComment

theorem mem_of_mem_sitesFrom {site : Site} {siblings : List Node} :
    ∀ {before : List Node}, site ∈ sitesFrom before siblings → site.node ∈ siblings := by
  induction siblings with
  | nil => intro before h; simp [sitesFrom] at h
  | cons n rest ih =>
    intro before h
    rcases List.mem_cons.1 h with rfl | h
    · simp
    · exact List.mem_cons_of_mem _ (ih h)

theorem Tsx.Node.mem_children_of_mem_sites {site : Site} {n : Node} (h : site ∈ n.sites) :
    site.node ∈ n.children :=
  mem_of_mem_sitesFrom h

/-- The tokens that open a list; a comment after one of them documents what follows. -/
def openingTokens : List String := ["\x7b", "(", "["]

/-- The comments right before a node, in source order. A first comment that begins on the row on
which the sibling before it ends belongs to that sibling. -/
def Site.comments (src : Source) (site : Site) : List Comment :=
  let run := site.before.takeWhile (·.isComment)
  let kept :=
    match run.getLast?, (site.before.dropWhile (·.isComment)).head? with
    | some first, some sibling =>
      if !openingTokens.contains sibling.kind && src.row first.start == src.row sibling.stop then
        run.dropLast
      else run
    | _, _ => run
  kept.reverse.map fun n => ⟨String.ofList (src.text n)⟩

/-! ## Texts of nodes -/

def stringKinds : List String := ["string", "template_string"]

/-- The text of a node without its quotes, if it is a string. -/
def unquoted (src : Source) (n : Node) : String :=
  let text := src.text n
  if stringKinds.contains n.kind && 2 ≤ text.length then String.ofList text.tail.dropLast
  else String.ofList text

def plainText (src : Source) (n : Node) : String :=
  String.ofList (src.text n)

/-! ## Types -/

/-- The text of a joined type without the separators in front. -/
def joinedText (text : List Char) : String :=
  String.ofList (Text.trimLeft (Text.dropLeft (fun c => c == '|' || c == '&') text))

mutual

def readType (src : Source) (n : Node) : TypeExpr :=
  let text := Text.squeeze (src.text n)
  match n.kind with
  | "union_type" => .union (joinedText text) (flattenType src "union_type" n)
  | "intersection_type" => .intersection (joinedText text) (flattenType src "intersection_type" n)
  | "literal_type" => .literal (String.ofList text)
  | "type_identifier" | "nested_type_identifier" | "identifier" =>
    .reference (String.ofList text) (String.ofList text) []
  | "generic_type" =>
    let arguments :=
      match _h : n.child? "type_arguments" with
      | some list => list.parts.attach.map fun ⟨argument, _⟩ => readType src argument
      | none => []
    let name := ((n.child? "name").map (plainText src)).getD (String.ofList (Text.before '<' text))
    .reference (String.ofList text) name arguments
  | "object_type" | "interface_body" => .object (String.ofList text) (readMembers src n)
  | "parenthesized_type" =>
    match _h : n.parts with
    | inside :: _ => readType src inside
    | [] => .other (String.ofList text)
  | _ => .other (String.ofList text)
termination_by 4 * sizeOf n + 2
decreasing_by
  · omega
  · omega
  · have h₁ := Node.sizeOf_lt_of_mem (Node.mem_children_of_child? _h)
    have h₂ := Node.sizeOf_lt_of_mem (Node.mem_children_of_mem_parts ‹_›)
    omega
  · omega
  · have h₁ : sizeOf inside < sizeOf n :=
      Node.sizeOf_lt_of_mem (Node.mem_children_of_mem_parts (by simp [_h]))
    omega

/-- The operands of nested joined types of one kind, from left to right. -/
def flattenType (src : Source) (kind : String) (n : Node) : List TypeExpr :=
  n.parts.attach.flatMap fun ⟨part, _⟩ =>
    if part.kind == kind then flattenType src kind part else [readType src part]
termination_by 4 * sizeOf n + 1
decreasing_by
  all_goals
    have h₁ : sizeOf part < sizeOf n :=
      Node.sizeOf_lt_of_mem (Node.mem_children_of_mem_parts ‹_›)
    omega

/-- The type an annotation gives, if it gives one. -/
def readTypeMark (src : Source) (n : Node) : Option TypeExpr :=
  if n.kind == "type_annotation" then
    match _h : n.parts with
    | inside :: _ => some (readType src inside)
    | [] => none
  else some (readType src n)
termination_by 4 * sizeOf n + 3
decreasing_by
  · have h₁ : sizeOf inside < sizeOf n :=
      Node.sizeOf_lt_of_mem (Node.mem_children_of_mem_parts (by simp [_h]))
    omega
  · omega

/-- The properties and methods among the members of an object type. -/
def readMembers (src : Source) (body : Node) : List Member :=
  body.sites.attach.filterMap fun ⟨⟨before, n⟩, _⟩ =>
    if !n.label.named || (n.kind != "property_signature" && n.kind != "method_signature") then none
    else
      match n.child? "name" with
      | none => none
      | some name =>
        let type :=
          if n.kind == "property_signature" then
            match _h : n.child? "type" with
            | some declaredType => readTypeMark src declaredType
            | none => none
          else
            let result :=
              match _h : n.child? "return_type" with
              | some declaredType => readTypeMark src declaredType
              | none => none
            let params := ((n.child? "parameters").map (plainText src)).getD "()"
            some (.other (params ++ " => " ++ (result.map TypeExpr.text).getD "void"))
        some {
          name := unquoted src name
          type
          optional := n.hasChild "?"
          comments := Site.comments src ⟨before, n⟩ }
termination_by 4 * sizeOf body
decreasing_by
  all_goals
    have h₁ : sizeOf n < sizeOf body :=
      Node.sizeOf_lt_of_mem (Tsx.Node.mem_children_of_mem_sites ‹_›)
    have h₂ := Node.sizeOf_lt_of_mem (Node.mem_children_of_child? _h)
    omega

end

/-- The text of the type an annotation gives. -/
def typeMarkText (src : Source) (declaredType : Option Node) : Option String :=
  (declaredType.bind (readTypeMark src)).map TypeExpr.text

/-- The type in an `extends` list: whatever is no known form of type is a name with arguments. -/
def readHeritage (src : Source) (n : Node) : TypeExpr :=
  match readType src n with
  | .other text =>
    .reference text (String.ofList (Text.trim (Text.before '<' text.toList))) []
  | type => type

/-! ## Functions -/

/-- The text of a default: the inside of a string without substitutions, the source otherwise. -/
def defaultText (src : Source) (n : Node) : String :=
  if stringKinds.contains n.kind && !n.namedChildren.any (·.kind == "template_substitution") then
    unquoted src n
  else plainText src n

/-- What one element of an object pattern takes out of the object. -/
def readBinding (src : Source) (element : Node) : Option (String × Option String) :=
  match element.kind with
  | "shorthand_property_identifier_pattern" => some (plainText src element, none)
  | "object_assignment_pattern" =>
    (element.child? "left").map fun left =>
      (plainText src left, (element.child? "right").map (defaultText src))
  | "pair_pattern" =>
    (element.child? "key").map fun key =>
      let default :=
        match element.child? "value" with
        | some value =>
          if value.kind == "assignment_pattern" then (value.child? "right").map (defaultText src)
          else none
        | none => none
      (unquoted src key, default)
  | _ => none

def readParam (src : Source) (n : Node) : Param :=
  let declaredType := typeMarkText src (n.child? "type")
  match n.child? "pattern" with
  | some pattern =>
    if pattern.kind == "object_pattern" then
      { bindings := some ((pattern.namedChildren.filterMap (readBinding src)).foldl
        Assoc.insertNew [])
        declaredType }
    else { declaredType }
  | none => { declaredType }

def readCallable (src : Source) (n : Node) (comments : List Comment) : Callable :=
  let params :=
    match n.child? "parameters" with
    | some list =>
      (list.namedChildren.filter fun p =>
        p.kind == "required_parameter" || p.kind == "optional_parameter").map (readParam src)
    | none => if (n.child? "parameter").isSome then [{}] else []
  { name := (n.child? "name").map (plainText src), params, comments }

/-! ## Values -/

def functionKinds : List String := ["arrow_function", "function_expression", "function"]

/-- The kinds of node that only wrap a value. -/
def wrapperKinds : List String :=
  ["parenthesized_expression", "as_expression", "satisfies_expression", "non_null_expression"]

theorem Tsx.Node.mem_sites_of_mem_partSites {site : Site} {n : Node} (h : site ∈ n.partSites) :
    site ∈ n.sites :=
  (List.mem_filter.1 h).1

/-- The value at a site; `statementComments` are those of the statement it stands in. -/
def readExpr (src : Source) (statementComments : List Comment) : Site → Expr
  | ⟨before, n⟩ =>
    let text := plainText src n
    if wrapperKinds.contains n.kind then
      match _h : n.partSites with
      | inside :: _ => readExpr src statementComments inside
      | [] => .other text
    else if n.kind == "call_expression" then
      let arguments :=
        match _h : n.child? "arguments" with
        | some list =>
          list.partSites.attach.map fun ⟨argument, _⟩ => readExpr src statementComments argument
        | none => []
      .call text (((n.child? "function").map (plainText src)).getD "") arguments statementComments
    else if n.kind == "identifier" then .identifier text text
    else if functionKinds.contains n.kind then
      let own := Site.comments src ⟨before, n⟩
      .function text (some (readCallable src n (if own.isEmpty then statementComments else own)))
    else .other text
termination_by site => sizeOf site.node
decreasing_by
  · exact Node.sizeOf_lt_of_mem (Tsx.Node.mem_children_of_mem_sites
      (Tsx.Node.mem_sites_of_mem_partSites (by simp [_h])))
  · have h₁ := Node.sizeOf_lt_of_mem (Node.mem_children_of_child? _h)
    have h₂ := Node.sizeOf_lt_of_mem (Tsx.Node.mem_children_of_mem_sites
      (Tsx.Node.mem_sites_of_mem_partSites ‹_›))
    omega

/-! ## Declarations -/

def readInterface (src : Source) (n : Node) (name : String) : Interface :=
  let clauses := n.namedChildren.filter fun child =>
    child.kind == "extends_type_clause" || child.kind == "extends_clause"
  { name
    members := ((n.child? "body").map (readMembers src)).getD []
    extends_ := clauses.flatMap fun clause => clause.parts.map (readHeritage src) }

/-- A variable, if the declarator binds a plain name. -/
def readVariable? (src : Source) (comments : List Comment) (site : Site) : Option Variable :=
  match site.node.child? "name" with
  | some name =>
    if name.kind == "identifier" then
      some {
        name := plainText src name
        declaredType := typeMarkText src (site.node.child? "type")
        initializer := (site.node.site? "value").map (readExpr src comments)
        statementComments := comments
        declaratorComments := site.comments src }
    else none
  | none => none

/-- The text of a named field, empty if there is none. -/
def fieldText (src : Source) (n : Node) (field : String) : String :=
  ((n.child? field).map (plainText src)).getD ""

namespace Outline

/-- Adds a declaration; the function it declares, if any, is given back. -/
def addDeclaration (src : Source) (o : Outline) (n : Node) (comments : List Comment) :
    Outline × Option Callable :=
  match n.kind with
  | "interface_declaration" =>
    let name := fieldText src n "name"
    if name == "" || (o.interface? name).isSome then (o, none)
    else ({ o with interfaces := o.interfaces ++ [readInterface src n name] }, none)
  | "type_alias_declaration" =>
    let name := fieldText src n "name"
    if name == "" || (o.alias? name).isSome then (o, none)
    else
      let value := (n.child? "value").map (readType src)
      ({ o with aliases := o.aliases ++ [{ name, value }] }, none)
  | "function_declaration" =>
    let function := readCallable src n comments
    ({ o with functions := o.functions ++ [function] }, some function)
  | "lexical_declaration" | "variable_declaration" =>
    let declarators := n.sites.filter fun site =>
      site.node.label.named && site.node.kind == "variable_declarator"
    ({ o with
        vars := o.vars ++ declarators.filterMap (readVariable? src comments) }, none)
  | "import_statement" =>
    match n.child? "source" with
    | some path => ({ o with imports := o.imports ++ [unquoted src path] }, none)
    | none => (o, none)
  | _ => (o, none)

def addExport (src : Source) (o : Outline) (n : Node) (comments : List Comment) : Outline :=
  let isDefault := n.hasChild "default"
  match n.child? "declaration" with
  | some declaration =>
    let (o, function) := o.addDeclaration src declaration comments
    match function with
    | some f => if isDefault then { o with defaultExport := some (.declaration f) } else o
    | none => o
  | none =>
    match n.site? "value" with
    | some value =>
      if !isDefault then o
      else if functionKinds.contains value.node.kind then
        let function := readCallable src value.node comments
        let functions :=
          if function.name.getD "" == "" then o.functions else o.functions ++ [function]
        { o with functions, defaultExport := some (.declaration function) }
      else { o with defaultExport := some (.expression (readExpr src comments value)) }
    | none => o

/-- The outline of a module from its tree. -/
def ofTree (src : Source) (path : String) (root : Node) : Outline :=
  root.partSites.foldl (fun o site =>
    let comments := site.comments src
    if site.node.kind == "export_statement" then o.addExport src site.node comments
    else (o.addDeclaration src site.node comments).1) { path }

end Outline

/-! ## Texts -/

/-- Why a module has no outline. -/
inductive SourceError where
  | unreadable (path : String) (cause : String)
  | malformed (path : String) (location : String)
  deriving DecidableEq, Repr

def SourceError.message : SourceError → String
  | unreadable path cause => "Unable to read " ++ path ++ ": " ++ cause
  | malformed path location => "Syntax error in " ++ path ++ " near " ++ location

/-- The outline of a source text. -/
def Outline.ofText (text path : String) : Except SourceError Outline :=
  let src := Source.ofString text
  let root := Tsx.parse text
  match Tsx.firstFault? [root] with
  | some _ => .error (.malformed path (Tsx.faultLocation src root))
  | none => .ok (Outline.ofTree src path root)

end PropCatalog
