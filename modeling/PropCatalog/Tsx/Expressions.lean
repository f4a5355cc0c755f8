import PropCatalog.Tsx.Types

/-!
# Grammar of expressions

Calls, functions, parenthesised and annotated expressions keep their parts, because the outline of
a module looks into them. All other expressions are sealed: only their extent matters, so operators
need no ranking among themselves. A type annotation by `as` or `satisfies` covers every operator
before it.
-/

namespace PropCatalog
namespace Tsx
namespace Grammar

open Parse

variable (rules : Rules)

/-! ## Functions -/

def functionBody : Parse Node :=
  return (← rules .block).inField "body"

/-- `function` with an optional name; a star makes it a generator. -/
def functionExpression : Parse Node := do
  let async? ← optional (keyword "async")
  let opening ← keyword "function"
  let star ← optional (symbol "*")
  let name ← optional (word "identifier")
  let parts ← callSignature rules {}
  let body ← functionBody rules
  let kind := if star.isEmpty then "function_expression" else "generator_function"
  return cover kind
    (async? ++ [opening] ++ star ++ name.map (·.inField "name") ++ parts ++ [body])

/-- The arrow of a function and what follows it. -/
def arrowBody (place : Place) : Parse (List Node) := do
  let arrow ← symbol "=>"
  let body ← if ← nextIs ["\x7b"] then rules .block else rules (.expression place)
  return [arrow, body.inField "body"]

/-- An arrow function whose parameters are in parentheses. Parentheses that open no parameter list
are remembered, so that no text is tried twice as one. -/
def parenthesizedArrow (place : Place) : Parse Node := do
  let here ← start
  check !((← get).notParameters.contains here)
  let head ← attempt do
    let async? ← optional (keyword "async")
    let generics ← optional (typeParameters rules)
    let parameters ← formalParameters rules
    let result ← if place.beforeColon then pure [] else optional (returnMark rules {})
    check (← nextIs ["=>"])
    return async? ++ generics ++ [parameters] ++ result
  match head with
  | some parts => return cover "arrow_function" (parts ++ (← arrowBody rules place))
  | none =>
    modify fun cursor => { cursor with notParameters := here :: cursor.notParameters }
    fail

/-- An arrow function with a single bare parameter. -/
def bareArrow (place : Place) : Parse Node := do
  let async? ← optional do
    let opening ← keyword "async"
    check ((← nextWord) != "")
    return opening
  let name ← word "identifier"
  return cover "arrow_function"
    (async? ++ [name.inField "parameter"] ++ (← arrowBody rules place))

/-! ## Literals with parts -/

def spread : Parse Node := do
  let dots ← symbol "..."
  return sealed "spread_element" [dots, ← innerExpression rules]

def arrayLiteral : Parse Node := do
  let opening ← symbol "["
  let _ ← sparseItems "]" (firstOf [spread rules, innerExpression rules])
  return sealed "array" [opening, ← symbol "]"]

/-- A method of an object or class: its signature and body. -/
def methodRest : Parse (List Node) := do
  let parts ← callSignature rules { mayEnd := true }
  return parts ++ [← rules .block]

def objectMember : Parse Node :=
  firstOf [spread rules,
    do
      let name ← propertyName rules
      let colon ← symbol ":"
      return sealed "pair" [name, colon, ← innerExpression rules],
    do
      let modifiers ← many (memberModifier ["async", "get", "set", "static"])
      let star ← optional (symbol "*")
      let name ← propertyName rules
      let mark? ← optional (symbol "?")
      return sealed "method_definition"
        (modifiers ++ star ++ [name] ++ mark? ++ (← methodRest rules)),
    do
      let name ← word "shorthand_property_identifier"
      let value ← optional do
        let equals ← symbol "="
        return sealed "default" [equals, ← innerExpression rules]
      return sealed "shorthand" (name :: value)]

def objectLiteral : Parse Node := do
  let opening ← symbol "\x7b"
  let _ ← sparseItems "\x7d" (objectMember rules)
  return sealed "object" [opening, ← symbol "\x7d"]

/-- Template text: runs of characters, escapes and substitutions between backquotes. -/
def templateString : Parse Node := do
  let opening ← mark (String.singleton (Char.ofNat 96))
  let pieces ← gather (do
      let code ← read
      let i ← position
      let j := code.templateRun i
      if i < j then return some (← lexeme "string_fragment" true i j)
      let c := code.char j
      if c == '$' then
        let dollar ← lexeme "$\x7b" false j (j + 2)
        let inside ← commaSeparated1 (innerExpression rules)
        return some (sealed "template_substitution" (dollar :: inside ++ [← symbol "\x7d"]))
      else if c == '\\' then
        match code.escapeEnd? j with
        | some k => return some (← lexeme "escape_sequence" true j k)
        | none => fail
      else return none)
    ((← read).size + 1)
  let stop ← position
  check (((← read).char stop).toNat == 96)
  let closing ← lexeme (String.singleton (Char.ofNat 96)) false stop (stop + 1)
  return cover "template_string" (opening :: pieces ++ [closing])

def regex : Parse Node := scanned "regex" Code.regexEnd?

/-! ## Classes -/

/-- One member of a class body. -/
def classMember : Parse Node := do
  let place : Place := { mayEnd := true }
  let _ ← many (decorator rules)
  let initializer : Parse Node := do
    let opening ← keyword "static"
    return sealed "class_static_block" [opening, ← rules .block]
  let indexed : Parse Node := do
    let _ ← many (memberModifier memberModifiers)
    let member ← indexSignature rules place
    return sealed "index_signature" [member, ← semicolon false]
  let named : Parse Node := do
    let modifiers ← many (memberModifier memberModifiers)
    let star ← optional (symbol "*")
    let name ← propertyName rules
    let mark? ← optional (firstOf [symbol "?", symbol "!"])
    let before := modifiers ++ star ++ [name] ++ mark?
    if ← nextIs ["(", "<"] then
      let parts ← callSignature rules place
      let rest ← firstOf [rules .block, symbol ",", semicolon true]
      return sealed "method_definition" (before ++ parts ++ [rest])
    else
      let declared ← optional (typeMark rules place)
      let value ← optional do
        let equals ← symbol "="
        return sealed "value" [equals, ← rules (.expression place)]
      return sealed "public_field_definition" (before ++ declared ++ value ++ [← semicolon false])
  firstOf [symbol ";", initializer, indexed, named]

def classBody : Parse Node := do
  let opening ← symbol "\x7b"
  let _ ← gather (do
      if ← nextIs ["\x7d"] then return none
      return some (← classMember rules))
    ((← read).size + 1)
  return sealed "class_body" [opening, ← symbol "\x7d"]

/-- What stands between the name and the body of a class. -/
def classHeritage : Parse (List Node) := do
  let base ← optional do
    let opening ← keyword "extends"
    let base ← rules (.unary {})
    let arguments ← optional (typeArguments rules)
    return sealed "extends_clause" ([opening, base] ++ arguments)
  let interfaces ← optional do
    let opening ← keyword "implements"
    return sealed "implements_clause" (opening :: (← commaSeparated1 (innerType rules)))
  return base ++ interfaces

/-- The part of a class after its name. -/
def classRest : Parse (List Node) := do
  let generics ← optional (typeParameters rules)
  let heritage ← classHeritage rules
  let body ← classBody rules
  return generics ++ heritage ++ [body]

/-- A word that names a class, as opposed to what may follow a missing name. -/
def className : Parse Node := do
  check !(["extends", "implements"].contains (← nextWord))
  word "type_identifier"

def classExpression : Parse Node := do
  let decorators ← many (decorator rules)
  let opening ← keyword "class"
  let name ← optional className
  return sealed "class" (decorators ++ [opening] ++ name ++ (← classRest rules))

/-! ## Primary expressions and their suffixes -/

def arguments : Parse Node := do
  let opening ← symbol "("
  let items ← commaSeparated (firstOf [spread rules, innerExpression rules])
  return (cover "arguments" (opening :: items ++ [← symbol ")"])).inField "arguments"

/-- Expressions separated by commas. -/
def sequence (place : Place) : Parse Node := do
  let first ← rules (.expression place)
  let rest ← many do
    let comma ← symbol ","
    return [comma, ← rules (.expression place)]
  return if rest.isEmpty then first else sealed "sequence_expression" (first :: rest.flatten)

def parenthesized : Parse Node := do
  let opening ← symbol "("
  let inside ← sequence rules {}
  let declared ← optional (typeMark rules {})
  return cover "parenthesized_expression" ([opening, inside] ++ declared ++ [← symbol ")"])

/-- `new` with the constructor it calls. -/
def newExpression : Parse Node := do
  let opening ← keyword "new"
  match ← attempt (symbol ".") with
  | some dot => return sealed "meta_property" [opening, dot, ← keyword "target"]
  | none =>
    let constructor ← firstOf [
      do
        check ((← nextWord) == "new")
        rules (.unary {}),
      do
        check ((← nextWord) == "class")
        classExpression rules,
      do
        check ((← nextWord) == "function")
        functionExpression rules,
      word "identifier", parenthesized rules]
    let path ← many <| firstOf [
      do
        let dot ← symbol "."
        return [dot, ← word "property_identifier"],
      do
        let opening ← symbol "["
        let index ← sequence rules {}
        return [opening, index, ← symbol "]"]]
    let generics ← optional (typeArguments rules)
    let arguments ← optional (arguments rules)
    return sealed "new_expression"
      ([opening, constructor] ++ path.flatten ++ generics ++ arguments)

/-- Words that begin an expression of their own and name no variable. -/
def expressionWords : List String :=
  ["this", "super", "true", "false", "null", "undefined"]

def wordExpression : Parse Node := do
  let name ← nextWord
  if expressionWords.contains name then word name
  else if name == "function" then functionExpression rules
  else if name == "class" then classExpression rules
  else if name == "new" then newExpression rules
  else if name == "import" then
    let opening ← keyword "import"
    match ← attempt (symbol ".") with
    | some dot => return sealed "meta_property" [opening, dot, ← word "property_identifier"]
    | none =>
      check (← nextIs ["("])
      return sealed "import" [opening]
  else if name == "async" then firstOf [functionExpression rules, word "identifier"]
  else word "identifier"

def primary : Parse Node := do
  match ← nextOperator with
  | "(" => parenthesized rules
  | "[" => arrayLiteral rules
  | "\x7b" => objectLiteral rules
  | "\"" => string
  | "'" => string
  | "." => number
  | "..." => fail
  | "/" => regex
  | "/=" => regex
  | "<" => rules .markup
  | "@" => classExpression rules
  | "#" =>
    let hash ← mark "#"
    return sealed "private_property_identifier" [hash, ← word "identifier"]
  | op =>
    if op == String.singleton (Char.ofNat 96) then templateString rules
    else if op != "" && op != "\\" then fail
    else if (← nextWord) != "" then wordExpression rules
    else number

/-- Whether an expression may begin with the next lexeme. -/
def expressionFollows : Parse Bool := do
  if ← atEnd then return false
  if (← nextWord) != "" then
    let word ← nextWord
    return !(["as", "satisfies", "in", "instanceof"].contains word)
  return !(← nextIs [")", "]", "\x7d", ",", ";", ":", "?", "?.", ".", "=", "==", "===", "!=",
    "!==", "=>", "||", "&&", "??", "|", "&", "^", "*", "%", ">", ">=", ">>", "<", "<="])

/-- Type arguments with the call they belong to, or on their own. -/
def instantiation (callee : Node) : Parse Node := do
  let generics := (← typeArguments rules).inField "type_arguments"
  let callee := callee.inField "function"
  if ← nextIs ["("] then return cover "call_expression" [callee, generics, ← arguments rules]
  else if ← nextIs [String.singleton (Char.ofNat 96)] then
    let text ← templateString rules
    return cover "call_expression" [callee, generics, text.inField "arguments"]
  else
    check !(← expressionFollows)
    return sealed "instantiation_expression" [callee, generics]

/-- One suffix of a primary expression: a member, an index, a call, a template or a mark. -/
def suffix (place : Place) (head : Node) : Parse (Option Node) := do
  let callee := head.inField "function"
  match ← nextOperator with
  | "." =>
    let dot ← symbol "."
    return some (sealed "member_expression" [head, dot, ← firstOf [word "property_identifier", do
      let hash ← mark "#"
      return sealed "private_property_identifier" [hash, ← word "identifier"]]])
  | "?." =>
    let dot ← symbol "?."
    if ← nextIs ["("] then return some (cover "call_expression" [callee, dot, ← arguments rules])
    else if ← nextIs ["<"] then
      let generics ← typeArguments rules
      return some (cover "call_expression" [callee, dot, generics.inField "type_arguments",
        ← arguments rules])
    else if ← nextIs ["["] then
      let opening ← symbol "["
      let index ← sequence rules {}
      return some (sealed "subscript_expression" [head, dot, opening, index, ← symbol "]"])
    else
      return some (sealed "member_expression" [head, dot, ← firstOf [word "property_identifier", do
        let hash ← mark "#"
        return sealed "private_property_identifier" [hash, ← word "identifier"]]])
  | "[" =>
    let opening ← symbol "["
    let index ← sequence rules {}
    return some (sealed "subscript_expression" [head, opening, index, ← symbol "]"])
  | "(" => return some (cover "call_expression" [callee, ← arguments rules])
  | "<" => attempt (instantiation rules head)
  | "<<" => attempt (instantiation rules head)
  | "!" =>
    if ← endsHere place.mayEnd false then return none
    return some (cover "non_null_expression" [head, ← symbol "!"])
  | op =>
    if op == String.singleton (Char.ofNat 96) then
      let text ← templateString rules
      return some (cover "call_expression" [callee, text.inField "arguments"])
    else return none

def suffixes (place : Place) : Nat → Node → Parse Node
  | 0, head => return head
  | bound + 1, head => do
    match ← suffix rules place head with
    | some longer => suffixes place bound longer
    | none => return head

/-! ## Operators -/

def prefixWords : List String := ["typeof", "void", "delete", "await"]

def prefixMarks : List String := ["!", "~", "-", "+", "++", "--"]

/-- An expression without operators between operands. -/
def unary (place : Place) : Parse Node := do
  if ← nextIs prefixMarks then
    let sign ← symbol (← nextOperator)
    return sealed "unary_expression" [sign, ← rules (.unary place)]
  let name ← nextWord
  let plain : Parse Node := do
    let head ← primary rules
    let operand ← suffixes rules place ((← read).size + 1) head
    if (← nextIs ["++", "--"]) && !(← endsHere place.mayEnd false) then
      return sealed "update_expression" [operand, ← symbol (← nextOperator)]
    else return operand
  if prefixWords.contains name then
    firstOf [
      do
        let sign ← keyword name
        return sealed "unary_expression" [sign, ← rules (.unary place)],
      do
        check (name == "await")
        plain]
  else plain

def binaryOperators : List String :=
  ["&&", "||", "??", ">>", ">>>", "<<", "&", "^", "|", "+", "-", "*", "/", "%", "**", "<", "<=",
    "==", "===", "!=", "!==", ">=", ">"]

/-- Operands and annotations joined from left to right. -/
def operatorChain (place : Place) : Nat → Node → Parse Node
  | 0, left => return left
  | bound + 1, left => do
    let op ← nextOperator
    if binaryOperators.contains op then
      let sign ← symbol op
      let right ← rules (.unary place)
      operatorChain place bound (sealed "binary_expression" [left, sign, right])
    else
      let name ← nextWord
      if name == "instanceof" || (name == "in" && !place.loopHead) then
        let sign ← keyword name
        let right ← rules (.unary place)
        operatorChain place bound (sealed "binary_expression" [left, sign, right])
      else if (name == "as" || name == "satisfies") && !(← endsHere place.mayEnd false) then
        let sign ← keyword name
        let type ← firstOf [
          do
            check (name == "as")
            keyword "const",
          rules (.type place)]
        operatorChain place bound (cover (name ++ "_expression") [left, sign, type])
      else return left

def assignmentOperators : List String :=
  ["=", "+=", "-=", "*=", "/=", "%=", "^=", "&=", "|=", ">>=", ">>>=", "<<=", "**=", "&&=", "||=",
    "??="]

/-- The kinds of expression that may be assigned to. -/
def assignable : List String :=
  ["identifier", "member_expression", "subscript_expression", "object", "array", "undefined",
    "parenthesized_expression", "non_null_expression"]

/-- A conditional, an assignment, or an expression built with operators. -/
def operatorExpression (place : Place) : Parse Node := do
  let first ← rules (.unary place)
  let left ← operatorChain rules place ((← read).size + 1) first
  let op ← nextOperator
  if op == "?" then
    let question ← symbol "?"
    let branch (beforeColon : Bool) : Parse (List Node) := do
      let positive ← rules (.expression { place with mayEnd := false, beforeColon })
      return [positive, ← symbol ":"]
    let middle ← firstOf [branch false, branch true]
    let negative ← rules (.expression place)
    return sealed "ternary_expression" ([left, question] ++ middle ++ [negative])
  else if assignmentOperators.contains op && assignable.contains left.kind then
    let equals ← symbol op
    return sealed "assignment_expression" [left, equals, ← rules (.expression place)]
  else return left

def yieldExpression (place : Place) : Parse Node := do
  let opening ← keyword "yield"
  let star ← optional (symbol "*")
  let value ← optional do
    check !(← endsHere place.mayEnd false)
    rules (.expression place)
  return sealed "yield_expression" ([opening] ++ star ++ value)

def expression (place : Place) : Parse Node := do
  let op ← nextOperator
  let name ← nextWord
  if op == "(" || op == "<" then
    firstOf [parenthesizedArrow rules place, operatorExpression rules place]
  else if name == "async" then
    firstOf [parenthesizedArrow rules place, bareArrow rules place, operatorExpression rules place]
  else if name == "yield" then
    firstOf [yieldExpression rules place, operatorExpression rules place]
  else if name != "" && (← looksAt (word "identifier" *> symbol "=>")) then
    bareArrow rules place
  else operatorExpression rules place

/-! ## Patterns -/

/-- The word that stands for a binding of its own name. -/
def shorthandBinding : Parse Node := word "shorthand_property_identifier_pattern"

/-- A pattern with an optional default. -/
def patternWithDefault : Parse Node := do
  let left ← rules .pattern
  match ← attempt (symbol "=") with
  | some equals =>
    return cover "assignment_pattern"
      [left.inField "left", equals, (← innerExpression rules).inField "right"]
  | none => return left

def restPattern : Parse Node := do
  let dots ← symbol "..."
  return sealed "rest_pattern" [dots, ← rules .pattern]

def objectPatternMember : Parse Node :=
  firstOf [restPattern rules,
    do
      let name ← propertyName rules
      let colon ← symbol ":"
      return cover "pair_pattern"
        [name.inField "key", colon, (← patternWithDefault rules).inField "value"],
    do
      let name ← shorthandBinding
      match ← attempt (symbol "=") with
      | some equals =>
        return cover "object_assignment_pattern"
          [name.inField "left", equals, (← innerExpression rules).inField "right"]
      | none => return name]

def pattern : Parse Node := do
  match ← nextOperator with
  | "\x7b" =>
    let opening ← symbol "\x7b"
    let items ← commaSeparated (objectPatternMember rules)
    return cover "object_pattern" (opening :: items ++ [← symbol "\x7d"])
  | "[" =>
    let opening ← symbol "["
    let _ ← sparseItems "]" (patternWithDefault rules)
    return sealed "array_pattern" [opening, ← symbol "]"]
  | "..." => restPattern rules
  | _ =>
    let name ← nextWord
    if name == "this" then word "this" else word "identifier"

end Grammar
end Tsx
end PropCatalog
