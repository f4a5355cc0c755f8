import PropCatalog.Component.Basic
import PropCatalog.Component.Extract
import PropCatalog.Number.Read

/-!
# Values for props

- `readLiteral`  : the value that the text of a tag or default denotes
- `inferValue`   : a value for a prop, by the first rule that applies: example, default, the name
  `children`, the type, the first of a closed set of values
-/

namespace PropCatalog

/-! ## Literals -/

/-- A text without a pair of equal quotes around it. -/
def unquote (cs : List Char) : List Char :=
  match cs with
  | first :: rest =>
    if isQuote first && rest.getLast? == some first then rest.dropLast else cs
  | [] => cs

/-- The numeral a text consists of; one line feed may end it. -/
def numeralLine? (cs : List Char) : Option Number.Numeral :=
  Number.numeral? (if cs.getLast? == some '\n' then cs.dropLast else cs)

/-- The value of a numeral, which is an integer if it has neither point nor exponent. -/
def numeralValue (n : Number.Numeral) : Except LiteralError Value :=
  if n.isInteger then
    if n.whole.length ≤ Number.digitLimit then
      .ok (.int (Number.signed n.negative (Number.valueOf n.whole)))
    else .error .tooManyDigits
  else .ok (.float n.toDouble)

/-- Whether a text is markup: it begins and ends with angle brackets. -/
def isMarkup (cs : List Char) : Bool :=
  Text.startsWith ['<'] cs && Text.endsWith ['>'] cs

/-- The value a text denotes: markup as it is, a truth value or a number, quoted or not, and any
other text without its quotes. -/
def readLiteral (text : String) : Except LiteralError Value :=
  let trimmed := Text.trim text.toList
  if isMarkup trimmed then .ok (.text (String.ofList trimmed))
  else
    let inner := unquote trimmed
    if inner == "true".toList then .ok (.bool true)
    else if inner == "false".toList then .ok (.bool false)
    else
      match numeralLine? inner with
      | some n => numeralValue n
      | none => .ok (.text (String.ofList inner))

/-! ## Inference -/

/-- Values used where nothing better is known, by kind. -/
abbrev Fallbacks := List (String × Value)

def defaultFallbacks : Fallbacks :=
  [("string", .text "Example text"), ("number", .int 42), ("children", .text "Button Text")]

def stringItems : Value := textList ["Option 1", "Option 2", "Option 3"]

def numberItems : Value := .list [.int 1, .int 2, .int 3]

/-- Whether the lower-case text of a type is that of an array. -/
def isArrayText (type : List Char) : Bool :=
  Text.endsWith "[]".toList type || Text.startsWith "array<".toList type ||
    Text.startsWith "readonlyarray<".toList type || Text.startsWith "readonly ".toList type

/-- What marks the type of renderable content. -/
def contentMarkers : List String := ["reactnode", "reactelement", "jsx.element", "children"]

/-- The value for a type, by its lower-case text. -/
def valueOfType (fallbacks : Fallbacks) (values : Option (List String)) (type : List Char) :
    Value :=
  let mentions (word : String) : Bool := Text.contains word.toList type
  let fallback (key : String) : Value := (Assoc.get? fallbacks key).getD .null
  if isArrayText type then
    if mentions "string" then stringItems
    else if mentions "number" then numberItems
    else .list []
  else if mentions "string" then fallback "string"
  else if mentions "number" then fallback "number"
  else if mentions "boolean" then .bool false
  else if contentMarkers.any mentions then fallback "children"
  else
    match values with
    | some (first :: _) => .text first
    | _ => .null

/-- A text that is there and not empty. -/
def given? (text : Option String) : Option String :=
  text.filter (· != "")

/-- A value for a prop. -/
def inferValue (fallbacks : Fallbacks) (name : String) (prop : PropSpec) :
    Except LiteralError Value :=
  match given? prop.sample, given? prop.default with
  | some text, _ => readLiteral text
  | none, some text => readLiteral text
  | none, none =>
    if name == "children" then .ok ((Assoc.get? fallbacks "children").getD .null)
    else .ok (valueOfType fallbacks prop.values (lower prop.type.toList))

end PropCatalog
