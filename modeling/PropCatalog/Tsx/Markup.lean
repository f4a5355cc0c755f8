import PropCatalog.Tsx.Expressions

/-!
# Grammar of markup

Elements written inside expressions: opening and closing tags, attributes, nested elements, text and
embedded expressions. The names of an opening and its closing tag are not compared. Elements are
sealed.
-/

namespace PropCatalog
namespace Tsx
namespace Grammar

open Parse

variable (rules : Rules)

/-- The position after a tag or attribute name, which may hold hyphens. -/
def tagWordEnd (code : Code) (i : Nat) : Nat :=
  let j := code.wordEnd i
  if i < j then code.skipWhile (fun c => Code.isWordPart c || c == '-') j else i

def tagWord : Parse Node :=
  scanned "identifier" fun code i =>
    if i < tagWordEnd code i then some (tagWordEnd code i) else none

/-- A name with colons or dots. -/
def tagName : Parse Node := do
  let first ← tagWord
  let rest ← many do
    let mark ← firstOf [symbol ".", symbol ":"]
    return [mark, ← tagWord]
  return sealed "name" (first :: rest.flatten)

/-- The position after a character reference that begins at `i`. -/
def referenceEnd? (code : Code) (i : Nat) : Option Nat :=
  let finish (from_ stop most : Nat) : Option Nat :=
    if from_ < stop && stop - from_ ≤ most && code.char stop == ';' then some (stop + 1) else none
  if code.char (i + 1) == '#' then
    if code.char (i + 2) == 'x' || code.char (i + 2) == 'X' then
      finish (i + 3) (code.skipWhile Code.isHexDigit (i + 3)) 6
    else finish (i + 2) (code.skipWhile Char.isDigit (i + 2)) 5
  else finish (i + 1) (code.skipWhile Char.isAlpha (i + 1)) 30

/-- The position after a quoted attribute value, read from `i` on. An ampersand before a letter or a
number sign must begin a character reference. -/
def attributeTextEnd? (code : Code) (quote : Char) (i : Nat) : Option Nat :=
  if i < code.size then
    let c := code.char i
    if c == quote then some (i + 1)
    else if c == '&' && ((code.char (i + 1)).isAlpha || code.char (i + 1) == '#') then
      match referenceEnd? code i with
      | some k => if i < k then attributeTextEnd? code quote k else none
      | none => none
    else attributeTextEnd? code quote (i + 1)
  else none
termination_by code.size - i

def attributeText : Parse Node :=
  scanned "string" fun code i =>
    let c := code.char i
    if c == '"' || c == '\'' then attributeTextEnd? code c (i + 1) else none

/-- Braces with an expression, a spread, or nothing inside. -/
def embedded : Parse Node := do
  let opening ← symbol "\x7b"
  let inside ← optional (firstOf [spread rules, sequence rules {}])
  return sealed "jsx_expression" ([opening] ++ inside ++ [← symbol "\x7d"])

def tagAttribute : Parse Node :=
  firstOf [embedded rules,
    do
      let first ← tagWord
      let rest ← optional do
        let colon ← symbol ":"
        return sealed "name" [colon, ← tagWord]
      let value ← optional do
        let equals ← symbol "="
        let value ← firstOf [attributeText, embedded rules, rules .markup]
        return sealed "value" [equals, value]
      return sealed "jsx_attribute" (first :: rest ++ value)]

/-- The end of a run of text between tags, read from `i` on: the position of the next tag, brace or
stray mark. Character references belong to the text. -/
def markupTextEnd (code : Code) (i : Nat) : Nat :=
  if i < code.size then
    let c := code.char i
    if c == '<' || c == '>' || c == '\x7b' || c == '\x7d' then i
    else if c == '&' then
      match referenceEnd? code i with
      | some k => if i < k then markupTextEnd code k else i
      | none => i
    else markupTextEnd code (i + 1)
  else i
termination_by code.size - i

/-- Children of an element, up to the closing tag. -/
def markupChildren : Parse (List Node) := do
  gather (do
      let code ← read
      let i ← position
      let j := markupTextEnd code i
      if i < j then return some (← lexeme "jsx_text" true i j)
      if code.char i == '\x7b' then return some (← embedded rules)
      if code.char i == '<' && code.char (code.skipTrivia (i + 1)) != '/' then
        return some (← rules .markup)
      return none)
    ((← read).size + 1)

def closingTag : Parse Node := do
  let opening ← mark "<"
  let slash ← mark "/"
  let name ← optional tagName
  return sealed "jsx_closing_element" ([opening, slash] ++ name ++ [← mark ">"])

/-- An element with its children, an element closed by its own tag, or a fragment. -/
def markup : Parse Node := do
  let opening ← mark "<"
  let name ← optional tagName
  let generics ← optional (typeArguments rules)
  let attributes ← if name.isEmpty then pure [] else many (tagAttribute rules)
  match ← attempt (mark "/") with
  | some slash =>
    check !name.isEmpty
    return sealed "jsx_self_closing_element"
      ([opening] ++ name ++ generics ++ attributes ++ [slash, ← mark ">"])
  | none =>
    let closing ← mark ">"
    let children ← markupChildren rules
    return sealed "jsx_element" ([opening, closing] ++ children ++ [← closingTag])

end Grammar
end Tsx
end PropCatalog
