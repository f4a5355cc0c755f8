/-!
# Outlines of modules

The outline of a module lists its top-level declarations as far as they can describe a component:

- `TypeExpr`, `Member`  : types and the members of object types
- `Callable`, `Param`   : functions and the names they take out of their parameters
- `Expr`, `Variable`    : values and the variables that hold them
- `Outline`             : the declarations of one module, with its imports and default export

Types and expressions that describe nothing of a component are kept as their text only.
-/

namespace PropCatalog

/-! ## Comments -/

/-- A comment as written, delimiters included. -/
structure Comment where
  text : String
  deriving DecidableEq, Repr

/-- Documentation comments open with exactly two stars that do not close the comment at once. -/
def Comment.isDoc (c : Comment) : Bool :=
  "/**".toList.isPrefixOf c.text.toList && !"/**/".toList.isPrefixOf c.text.toList

/-! ## Types -/

/-- A member of an object type over types `τ`. -/
structure MemberOf (τ : Type) where
  name : String
  type : Option τ := none
  optional : Bool := false
  comments : List Comment := []
  deriving Repr, Inhabited

inductive TypeExpr where
  | literal (text : String)
  | union (text : String) (members : List TypeExpr)
  | intersection (text : String) (parts : List TypeExpr)
  | reference (text name : String) (arguments : List TypeExpr)
  | object (text : String) (members : List (MemberOf TypeExpr))
  | other (text : String)
  deriving Repr, Inhabited

abbrev Member := MemberOf TypeExpr

/-- The text of a type, on one line. -/
def TypeExpr.text : TypeExpr → String
  | literal text => text
  | union text _ => text
  | intersection text _ => text
  | reference text _ _ => text
  | object text _ => text
  | other text => text

/-- The type of a member as text; without an annotation it may be anything. -/
def Member.typeText (m : Member) : String :=
  (m.type.map TypeExpr.text).getD "any"

/-! ## Functions and values -/

/-- A parameter; `bindings` lists the names taken out of an object, each with the text of its
default. -/
structure Param where
  bindings : Option (List (String × Option String)) := none
  declaredType : Option String := none
  deriving DecidableEq, Repr

structure Callable where
  name : Option String := none
  params : List Param := []
  comments : List Comment := []
  deriving DecidableEq, Repr

/-- The names taken out of the first parameter that is an object pattern. -/
def Callable.bindings? (f : Callable) : Option (List (String × Option String)) :=
  f.params.findSome? (·.bindings)

inductive Expr where
  | identifier (text name : String)
  | call (text callee : String) (arguments : List Expr) (statementComments : List Comment)
  | function (text : String) (function : Option Callable)
  | other (text : String)
  deriving Repr, Inhabited

structure Variable where
  name : String
  declaredType : Option String := none
  initializer : Option Expr := none
  statementComments : List Comment := []
  declaratorComments : List Comment := []
  deriving Repr

/-! ## Modules -/

structure Interface where
  name : String
  members : List Member := []
  extends_ : List TypeExpr := []
  deriving Repr

structure Alias where
  name : String
  value : Option TypeExpr := none
  deriving Repr

inductive DefaultExport where
  | declaration (function : Callable)
  | expression (value : Expr)
  deriving Repr

structure Outline where
  path : String
  interfaces : List Interface := []
  aliases : List Alias := []
  functions : List Callable := []
  vars : List Variable := []
  imports : List String := []
  defaultExport : Option DefaultExport := none
  deriving Repr

namespace Outline

def interface? (o : Outline) (name : String) : Option Interface :=
  o.interfaces.find? (·.name == name)

def alias? (o : Outline) (name : String) : Option Alias :=
  o.aliases.find? (·.name == name)

def function? (o : Outline) (name : String) : Option Callable :=
  o.functions.find? (·.name == some name)

def variableNamed? (o : Outline) (name : String) : Option Variable :=
  o.vars.find? (·.name == name)

end Outline
end PropCatalog
