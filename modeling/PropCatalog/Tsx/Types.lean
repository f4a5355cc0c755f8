import PropCatalog.Tsx.Parse

/-!
# Grammar of types

Types, object types with their members, type parameters and arguments, annotations, and the
parameter lists that function types share with functions. Unions and intersections are left-nested
and may begin with their separator.
-/

namespace PropCatalog
namespace Tsx
namespace Grammar

open Parse

variable (rules : Rules)

/-- A type inside brackets of any sort, where no statement can end. -/
def innerType : Parse Node := rules (.type {})

/-- An expression inside brackets of any sort. -/
def innerExpression : Parse Node := rules (.expression {})

/-! ## Names, arguments and annotations -/

def typeArguments : Parse Node := do
  let opening ← mark "<"
  let items ← commaSeparated1 (innerType rules)
  return cover "type_arguments" (opening :: items ++ [← mark ">"])

def typeParameter : Parse Node := do
  let modifiers ← many do
    let modifier ← firstOf [keyword "const", keyword "in", keyword "out"]
    check ((← nextWord) != "" && (← nextWord) != "extends")
    return modifier
  let name ← word "type_identifier"
  let bound ← optional do
    let opening ← keyword "extends"
    return cover "constraint" [opening, ← innerType rules]
  let default ← optional do
    let opening ← symbol "="
    return cover "default_type" [opening, ← innerType rules]
  return cover "type_parameter" (modifiers ++ [name] ++ bound ++ default)

def typeParameters : Parse Node := do
  let opening ← mark "<"
  let items ← commaSeparated1 (typeParameter rules)
  return (cover "type_parameters" (opening :: items ++ [← mark ">"])).inField "type_parameters"

def typeMark (place : Place) : Parse Node := do
  let colon ← symbol ":"
  return (cover "type_annotation" [colon, ← rules (.type place)]).inField "type"

/-- A result annotation: a type, an assertion, or a statement about the type of a parameter. -/
def returnMark (place : Place) : Parse Node := do
  let colon ← symbol ":"
  let subject := word "identifier"
  let asserts : Parse Node := do
    let opening ← keyword "asserts"
    check ((← nextWord) != "is")
    let name ← subject
    let narrowed ← optional do
      let verb ← keyword "is"
      return cover "type_predicate" [verb, ← rules (.type place)]
    return cover "asserts_annotation" ([colon, opening, name] ++ narrowed)
  let predicate : Parse Node := do
    let name ← subject
    let verb ← keyword "is"
    return cover "type_predicate_annotation" [colon, name, verb, ← rules (.type place)]
  let plain : Parse Node := return cover "type_annotation" [colon, ← rules (.type place)]
  return (← firstOf [asserts, predicate, plain]).inField "return_type"

/-- A property name; brackets hold a computed one. -/
def propertyName : Parse Node :=
  firstOf [word "property_identifier", string, number,
    do
      let opening ← symbol "["
      let name ← innerExpression rules
      return cover "computed_property_name" [opening, name, ← symbol "]"],
    do
      let hash ← mark "#"
      return sealed "private_property_identifier" [hash, ← word "identifier"]]

/-! ## Parameters -/

def decorator : Parse Node := do
  let sign ← mark "@"
  return sealed "decorator" [sign, ← rules (.unary {})]

/-- Whether the next lexeme may begin a binding. -/
def bindingFollows : Parse Bool := do
  return (← nextWord) != "" || (← nextIs ["\x7b", "[", "..."])

/-- The words that may stand before the binding of a parameter. -/
def parameterModifiers : List String :=
  ["public", "private", "protected", "override", "readonly"]

def parameterModifier : Parse Node := do
  let name ← nextWord
  check (parameterModifiers.contains name)
  let modifier ← keyword name
  check (← bindingFollows)
  return modifier

def parameter : Parse Node := do
  let decorators ← many (decorator rules)
  let modifiers ← many parameterModifier
  let pattern ← rules .pattern
  let mark? ← optional (symbol "?")
  let declared ← optional (typeMark rules {})
  let value ← (do
    match ← attempt (symbol "=") with
    | some equals => return [equals, (← innerExpression rules).inField "value"]
    | none => return [])
  let kind := if mark?.isEmpty then "required_parameter" else "optional_parameter"
  return cover kind
    (decorators ++ modifiers ++ [pattern.inField "pattern"] ++ mark? ++ declared ++ value)

def formalParameters : Parse Node := do
  let opening ← symbol "("
  let items ← commaSeparated (parameter rules)
  return (cover "formal_parameters" (opening :: items ++ [← symbol ")"])).inField "parameters"

/-- Type parameters, parameters and result annotation, each as a field of the function. -/
def callSignature (place : Place) : Parse (List Node) := do
  let generics ← optional (typeParameters rules)
  let parameters ← formalParameters rules
  let result ← optional (returnMark rules place)
  return generics ++ [parameters] ++ result

/-! ## Members of object types -/

/-- The words that may stand before a member name. -/
def memberModifiers : List String :=
  ["public", "private", "protected", "static", "override", "readonly", "async", "get", "set",
    "abstract", "declare", "accessor"]

/-- A modifier: one of the given words with the rest of a member after it. -/
def memberModifier (modifiers : List String) : Parse Node := do
  let name ← nextWord
  check (modifiers.contains name)
  let modifier ← keyword name
  check !(← nextIs ["(", "<", "?", ":", ",", ";", "\x7d", "=", "!"])
  check !(← atEnd)
  return modifier

/-- The end of a mapped or indexed member: an optionality mark and an annotation. -/
def indexMark (place : Place) : Parse (List Node) := do
  let sign ← optional (firstOf [symbol "-", symbol "+"])
  let mark? ← optional (symbol "?")
  let declared ← optional (typeMark rules place)
  return sign ++ mark? ++ declared

/-- `[key: type]` or `[name in type]`, with its annotation. -/
def indexSignature (place : Place) : Parse Node := do
  let sign ← optional (firstOf [symbol "-", symbol "+"])
  let modifier ← optional (keyword "readonly")
  let opening ← symbol "["
  let name ← word "identifier"
  let inside ← firstOf [
    do
      let colon ← symbol ":"
      return [colon, ← innerType rules],
    do
      let among ← keyword "in"
      let domain ← innerType rules
      let renamed ← optional do
        let rename ← keyword "as"
        return cover "as_clause" [rename, ← innerType rules]
      return [among, domain] ++ renamed]
  let closing ← symbol "]"
  let declared ← indexMark rules place
  return sealed "index_signature"
    (sign ++ modifier ++ [opening, name] ++ inside ++ [closing] ++ declared)

def signature (place : Place) : Parse Node := do
  if ← nextIs ["(", "<"] then
    return sealed "call_signature" (← callSignature rules place)
  let construct : Parse Node := do
    let opening ← keyword "new"
    return sealed "construct_signature" (opening :: (← callSignature rules place))
  let named : Parse Node := do
    let modifiers ← many (memberModifier memberModifiers)
    let star ← optional (symbol "*")
    let name := (← propertyName rules).inField "name"
    let mark? ← optional (symbol "?")
    let before := modifiers ++ star ++ [name] ++ mark?
    if (← nextIsHere place.mayEnd ["(", "<"]) then
      return cover "method_signature" (before ++ (← callSignature rules place))
    let declared ← optional (typeMark rules place)
    return cover "property_signature" (before ++ declared)
  firstOf [indexSignature rules place, construct, named]

def objectType : Parse Node := do
  let opening ← symbol "\x7b"
  let leading ← optional (firstOf [symbol ",", symbol ";"])
  let members ← gather (do
      if ← nextIs ["\x7d"] then return none
      let member ← signature rules { mayEnd := true }
      let separator ← firstOf [symbol ",", semicolon true]
      return some [member, separator])
    ((← read).size + 1)
  let closing ← symbol "\x7d"
  return cover "object_type" ([opening] ++ leading ++ members.flatten ++ [closing])

/-! ## Operands -/

def predefinedTypes : List String :=
  ["any", "number", "boolean", "string", "symbol", "void", "unknown", "never", "object"]

def literalWords : List String := ["true", "false", "null", "undefined"]

/-- A name with dots, and type arguments if any follow. -/
def typeName : Parse Node := do
  let first ← word "type_identifier"
  let rest ← many do
    let dot ← symbol "."
    return [dot, ← word "type_identifier"]
  let name :=
    if rest.isEmpty then first else sealed "nested_type_identifier" (first :: rest.flatten)
  match ← attempt (typeArguments rules) with
  | some arguments =>
    return cover "generic_type" [name.inField "name", arguments.inField "type_arguments"]
  | none => return name

/-- Template text in types: pieces between backquotes with types in the substitutions. -/
def templateType : Parse Node := do
  let opening ← mark (String.singleton (Char.ofNat 96))
  let _ ← gather (do
      let code ← read
      let i ← position
      let j := code.templateRun i
      let c := code.char j
      modify fun cursor => { cursor with pos := j }
      if c == '$' then
        modify fun cursor => { cursor with pos := j + 2 }
        let _ ← innerType rules
        let _ ← symbol "\x7d"
        return some ()
      else if c == '\\' then
        match code.escapeEnd? j with
        | some k =>
          modify fun cursor => { cursor with pos := k }
          return some ()
        | none => fail
      else return none)
    ((← read).size + 1)
  let stop ← position
  check (((← read).char stop).toNat == 96)
  let closing ← lexeme "" false stop (stop + 1)
  return sealed "template_literal_type" [opening, closing]

def tupleMember : Parse Node :=
  firstOf [
    do
      let spread ← optional (symbol "...")
      let name ← word "identifier"
      let mark? ← optional (symbol "?")
      let colon ← symbol ":"
      return sealed "tuple_parameter" (spread ++ [name] ++ mark? ++ [colon, ← innerType rules]),
    do
      let spread ← optional (symbol "...")
      let type ← innerType rules
      let mark? ← optional (symbol "?")
      return sealed "tuple_member" (spread ++ [type] ++ mark?)]

/-- `typeof` with the name, import or member it asks about. -/
def typeQuery : Parse Node := do
  let opening ← keyword "typeof"
  let head ← word "identifier"
  let call ← optional do
    let paren ← symbol "("
    let inside ← commaSeparated (innerExpression rules)
    return sealed "arguments" (paren :: inside ++ [← symbol ")"])
  let rest ← many do
    let dot ← firstOf [symbol ".", symbol "?."]
    return sealed "member" [dot, ← firstOf [word "property_identifier", do
      let hash ← mark "#"
      return sealed "private_property_identifier" [hash, ← word "identifier"]]]
  let arguments ← optional (typeArguments rules)
  return sealed "type_query" ([opening, head] ++ call ++ rest ++ arguments)

/-- `import(...)` used as a type, with the members picked from it. -/
def importType : Parse Node := do
  let opening ← keyword "import"
  let paren ← symbol "("
  let inside ← commaSeparated1 (innerExpression rules)
  let closing ← symbol ")"
  let call := sealed "call_expression" ([opening, paren] ++ inside ++ [closing])
  let rest ← many do
    let dot ← symbol "."
    return sealed "member" [dot, ← word "property_identifier"]
  let arguments ← optional (typeArguments rules)
  if rest.isEmpty && arguments.isEmpty then return call
  else return sealed "member_expression" (call :: rest ++ arguments)

/-- Types that begin with a word of their own meaning, or are named. -/
def wordType (place : Place) : Parse Node := do
  let name ← nextWord
  if name == "keyof" then
    firstOf [
      do
        let opening ← keyword "keyof"
        return sealed "index_type_query" [opening, ← rules (.operandType place)],
      typeName rules]
  else if name == "readonly" then
    firstOf [
      do
        let opening ← keyword "readonly"
        return sealed "readonly_type" [opening, ← rules (.type place)],
      typeName rules]
  else if name == "infer" then
    firstOf [
      do
        let opening ← keyword "infer"
        let parameter ← word "type_identifier"
        let bound ← optional do
          let below ← keyword "extends"
          let type ← rules (.operandType place)
          check !(← nextIs ["?"])
          return sealed "constraint" [below, type]
        return sealed "infer_type" ([opening, parameter] ++ bound),
      typeName rules]
  else if name == "unique" then
    firstOf [
      do
        let opening ← keyword "unique"
        return sealed "predefined_type" [opening, ← keyword "symbol"],
      typeName rules]
  else if name == "typeof" then typeQuery rules
  else if name == "import" then importType rules
  else if name == "this" then word "this_type"
  else if literalWords.contains name then word "literal_type"
  else
    let type ← typeName rules
    if predefinedTypes.contains name && type.kind == "type_identifier" then
      return sealed "predefined_type" [type]
    else return type

/-- A type that no operator joins to its neighbours, before any brackets after it. -/
def primaryType (place : Place) : Parse Node := do
  match ← nextOperator with
  | "\x7b" => objectType rules
  | "[" =>
    let opening ← symbol "["
    let items ← commaSeparated (tupleMember rules)
    return sealed "tuple_type" (opening :: items ++ [← symbol "]"])
  | "(" =>
    let opening ← symbol "("
    let inside ← innerType rules
    return cover "parenthesized_type" [opening, inside, ← symbol ")"]
  | "\"" => return sealed "literal_type" [← string]
  | "'" => return sealed "literal_type" [← string]
  | "-" =>
    let sign ← symbol "-"
    return sealed "literal_type" [sign, ← number]
  | "+" =>
    let sign ← symbol "+"
    return sealed "literal_type" [sign, ← number]
  | "?" =>
    let sign ← symbol "?"
    return sealed "flow_maybe_type" [sign, ← rules (.operandType place)]
  | "*" => return sealed "existential_type" [← symbol "*"]
  | "." => return sealed "literal_type" [← number]
  | op =>
    if op == String.singleton (Char.ofNat 96) then templateType rules
    else if op != "" && op != "\\" then fail
    else if (← nextWord) != "" then wordType rules place
    else return sealed "literal_type" [← number]

/-- The brackets that may follow a type: array marks and indexed access. -/
def typeSuffixes (place : Place) : Nat → Node → Parse Node
  | 0, type => return type
  | bound + 1, type => do
    if ← endsHere place.mayEnd true then return type
    match ← attempt (symbol "[") with
    | none => return type
    | some opening =>
      match ← attempt (symbol "]") with
      | some closing => typeSuffixes place bound (sealed "array_type" [type, opening, closing])
      | none =>
        let index ← innerType rules
        typeSuffixes place bound (sealed "lookup_type" [type, opening, index, ← symbol "]"])

/-- A function or constructor type. -/
def functionType (place : Place) : Parse Node := do
  let abstract? ← optional (keyword "abstract")
  let new? ← optional (keyword "new")
  check (abstract?.isEmpty || !new?.isEmpty)
  let generics ← optional (typeParameters rules)
  let parameters ← formalParameters rules
  let arrow ← symbol "=>"
  let asserts : Parse Node := do
    let opening ← keyword "asserts"
    check ((← nextWord) != "is")
    let name ← word "identifier"
    let narrowed ← optional do
      let verb ← keyword "is"
      return cover "type_predicate" [verb, ← rules (.type place)]
    return cover "asserts" ([opening, name] ++ narrowed)
  let predicate : Parse Node := do
    let name ← word "identifier"
    let verb ← keyword "is"
    return cover "type_predicate" [name, verb, ← rules (.type place)]
  let result ← firstOf [asserts, predicate, rules (.type place)]
  let kind := if new?.isEmpty then "function_type" else "constructor_type"
  return sealed kind (abstract? ++ new? ++ generics ++ [parameters, arrow, result])

/-- Whether a function or constructor type may begin here. -/
def functionTypeFollows : Parse Bool := do
  if ← nextIs ["(", "<"] then return true
  let name ← nextWord
  return name == "new" || name == "abstract"

/-- An operand of a union or intersection. -/
def operandType (place : Place) : Parse Node := do
  let plain : Parse Node := do
    let type ← primaryType rules place
    typeSuffixes rules place ((← read).size + 1) type
  if ← functionTypeFollows then firstOf [functionType rules place, plain] else plain

/-! ## Unions, intersections and conditions -/

/-- Operands joined by `separator`, left-nested; the first one may have the separator before it. -/
def joinedType (kind separator : String) (operand : Parse Node) : Parse Node := do
  let leading ← optional (symbol separator)
  let first ← operand
  let head := if leading.isEmpty then first else cover kind (leading ++ [first])
  let rest ← many do
    let bar ← symbol separator
    return (bar, ← operand)
  return rest.foldl (fun left (bar, right) => cover kind [left, bar, right]) head

def unionType (place : Place) : Parse Node :=
  joinedType "union_type" "|" (joinedType "intersection_type" "&" (rules (.operandType place)))

def type (place : Place) : Parse Node := do
  let left ← unionType rules place
  if ← endsHere place.mayEnd true then return left
  let condition ← attempt do
    let below ← keyword "extends"
    let right ← unionType rules place
    let question ← symbol "?"
    let positive ← rules (.type place)
    let colon ← symbol ":"
    return sealed "conditional_type" [left, below, right, question, positive, colon,
      ← rules (.type place)]
  return condition.getD left

end Grammar
end Tsx
end PropCatalog
