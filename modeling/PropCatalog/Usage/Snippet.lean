import PropCatalog.Component.Basic
import PropCatalog.Text.Search
import PropCatalog.Text.UpperCase
import PropCatalog.Value.Json

/-!
# Snippets and titles

The code of an example is one element: props become attributes, and `children` its content. The
title of an example names the values of the varied props, by a template if one of them has one.
-/

namespace PropCatalog

/-! ## Code -/

/-- A prop as an attribute: texts in quotes, true as the bare name, false not at all, and anything
else in braces. -/
def attributeCode (name : String) (value : Value) : Option String :=
  match value with
  | .text s => some (name ++ "=\"" ++ s ++ "\"")
  | .bool b => if b && name != "" then some name else none
  | value => some (name ++ "=\x7b" ++ value.compact ++ "\x7d")

/-- The content of an element: texts bare, other values as JSON. -/
def contentCode : Value → String
  | .text s => s
  | value => value.compact

/-- The code of an element with the given props. -/
def snippet (name : String) (props : List (String × Value)) : String :=
  let attributes := (props.filter (·.1 != "children")).filterMap fun (key, value) =>
    attributeCode key value
  let opening := "<" ++ name ++ String.join (attributes.map (" " ++ ·))
  match (Assoc.get? props "children").filter Value.isTruthy with
  | some content => opening ++ ">\n  " ++ contentCode content ++ "\n</" ++ name ++ ">"
  | none => opening ++ " />"

/-! ## Titles -/

def defaultTitle : String := "Default"

/-- The value of a prop, nothing if it is null. -/
def assigned? (props : List (String × Value)) (name : String) : Option Value :=
  match Assoc.get? props name with
  | some .null => none
  | found => found

/-- Replaces the placeholder of one axis, where it first occurs, by the axis's value with a capital
first letter. -/
def fillPlaceholder (props : List (String × Value)) (template : List Char) (axis : String) :
    List Char :=
  match assigned? props axis with
  | none => template
  | some value =>
    Text.replaceFirst ('\x7b' :: axis.toList ++ ['\x7d']) (Text.upperFirst value.display.toList)
      template

/-- A template with the placeholders of the axes replaced one after another. -/
def fillTemplate (template : String) (props : List (String × Value)) (axes : List String) :
    String :=
  String.ofList (axes.foldl (fillPlaceholder props) template.toList)

/-- The axes with their values. -/
def axesTitle (props : List (String × Value)) (axes : List String) : String :=
  " ".intercalate (axes.map fun axis =>
    axis ++ "=\"" ++ ((Assoc.get? props axis).getD .null).display ++ "\"")

def title (specs : List (String × PropSpec)) (props : List (String × Value)) (axes : List String) :
    String :=
  if axes.isEmpty then defaultTitle
  else
    let template? := axes.findSome? fun axis =>
      ((Assoc.get? specs axis).bind (·.displayTemplate)).filter (· != "")
    match template? with
    | some template => fillTemplate template props axes
    | none => axesTitle props axes

end PropCatalog
