import PropCatalog.Tsx.Markup

/-!
# Grammar of statements and declarations

Declarations of a module keep the parts that its outline reads: names, types, values, heritage and
members. Control flow, classes, enumerations and namespaces are sealed.
-/

namespace PropCatalog
namespace Tsx
namespace Grammar

open Parse

variable (rules : Rules)

/-- Statements may end at a line end. -/
def free : Place := { mayEnd := true }

/-! ## Variables and functions -/

def declarator (place : Place) : Parse Node := do
  let name ← rules .pattern
  let definite ← optional (symbol "!")
  let declared ← optional (typeMark rules place)
  let value ← (do
    match ← attempt (symbol "=") with
    | some equals => return [equals, (← rules (.expression place)).inField "value"]
    | none => return [])
  return cover "variable_declarator" ([name.inField "name"] ++ definite ++ declared ++ value)

/-- Declarators with commas between them. -/
def declarators (place : Place) : Parse (List Node) := do
  let first ← declarator rules place
  let rest ← many do
    let comma ← symbol ","
    return [comma, ← declarator rules place]
  return first :: rest.flatten

/-- The keyword of a variable declaration, where a binding follows it. -/
def variableKeyword : Parse Node := do
  let opening ← firstOf [keyword "const", keyword "let", keyword "var"]
  check (← bindingFollows)
  return opening

def variableDeclaration : Parse Node := do
  let name ← nextWord
  let opening ← variableKeyword
  let items ← declarators rules free
  let kind := if name == "var" then "variable_declaration" else "lexical_declaration"
  return cover kind ([opening.inField "kind"] ++ items ++ [← semicolon false])

/-- A function with a body, or the signature of one. -/
def functionDeclaration : Parse Node := do
  let async? ← optional (keyword "async")
  let opening ← keyword "function"
  let star ← optional (symbol "*")
  let name ← word "identifier"
  let parts ← callSignature rules free
  let head := async? ++ [opening] ++ star ++ [name.inField "name"] ++ parts
  if ← nextIs ["\x7b"] then
    let body ← functionBody rules
    let ending ← optional (autoSemicolon false)
    let kind := if star.isEmpty then "function_declaration" else "generator_function_declaration"
    return cover kind (head ++ [body] ++ ending)
  else
    return cover "function_signature" (head ++ [← semicolon true])

/-! ## Types -/

def typeAlias : Parse Node := do
  let opening ← keyword "type"
  let name ← word "type_identifier"
  let generics ← optional (typeParameters rules)
  let equals ← symbol "="
  let value ← rules (.type free)
  return cover "type_alias_declaration"
    ([opening, name.inField "name"] ++ generics ++
      [equals, value.inField "value", ← semicolon true])

/-- The declarations an interface extends, which are named types only. -/
def interfaceHeritage : Parse Node := do
  let opening ← keyword "extends"
  let item : Parse Node := return (← typeName rules).inField "type"
  let first ← item
  let rest ← many do
    let comma ← symbol ","
    return [comma, ← item]
  return cover "extends_type_clause" (opening :: first :: rest.flatten)

def interface : Parse Node := do
  let opening ← keyword "interface"
  let name ← word "type_identifier"
  let generics ← optional (typeParameters rules)
  let heritage ← optional (interfaceHeritage rules)
  let body ← objectType rules
  let body := cover "interface_body" body.children
  return cover "interface_declaration"
    ([opening, name.inField "name"] ++ generics ++ heritage ++ [body.inField "body"])

def enumeration : Parse Node := do
  let const? ← optional (keyword "const")
  let opening ← keyword "enum"
  let name ← word "identifier"
  let brace ← symbol "\x7b"
  let _ ← commaSeparated do
    let member ← propertyName rules
    let value ← optional do
      let equals ← symbol "="
      return sealed "value" [equals, ← innerExpression rules]
    return sealed "member" (member :: value)
  return sealed "enum_declaration" (const? ++ [opening, name, brace, ← symbol "\x7d"])

/-! ## Classes and namespaces -/

def classDeclaration : Parse Node := do
  let decorators ← many (decorator rules)
  let abstract? ← optional (keyword "abstract")
  let opening ← keyword "class"
  let name ← className
  let rest ← classRest rules
  let ending ← optional (autoSemicolon false)
  return sealed "class_declaration" (decorators ++ abstract? ++ [opening, name] ++ rest ++ ending)

/-- `namespace` or `module` with a dotted or quoted name. -/
def namespaceDeclaration : Parse Node := do
  let opening ← firstOf [keyword "namespace", keyword "module"]
  let name ← firstOf [string, tagName]
  let body ← optional (rules .block)
  return cover "internal_module" ([opening, name] ++ body)

/-- A declaration of any sort. -/
def declaration : Parse Node :=
  firstOf [functionDeclaration rules, enumeration rules, variableDeclaration rules,
    classDeclaration rules, interface rules, typeAlias rules, namespaceDeclaration rules]

def ambient : Parse Node := do
  let opening ← keyword "declare"
  let body ← firstOf [
    do
      let name ← keyword "global"
      return sealed "global" [name, ← rules .block],
    declaration rules]
  return sealed "ambient_declaration" [opening, body]

/-! ## Imports and exports -/

/-- A name in braces, possibly renamed. -/
def specifier : Parse Node := do
  let name := firstOf [word "identifier", string]
  let type? ← optional do
    let opening ← keyword "type"
    check ((← nextWord) != "" && (← nextWord) != "as" || (← nextIs ["\"", "'"]))
    return opening
  let first ← name
  let renamed ← optional do
    let rename ← keyword "as"
    return sealed "rename" [rename, ← name]
  return sealed "specifier" (type? ++ [first] ++ renamed)

def specifiers : Parse Node := do
  let opening ← symbol "\x7b"
  let items ← commaSeparated specifier
  return sealed "specifiers" (opening :: items ++ [← symbol "\x7d"])

def fromClause : Parse (List Node) := do
  let opening ← keyword "from"
  return [opening, (← string).inField "source"]

/-- Attributes of an import, after its source. -/
def importAttributes : Parse Node := do
  let opening ← firstOf [keyword "with", keyword "assert"]
  return sealed "import_attribute" [opening, ← objectLiteral rules]

def importClause : Parse Node := do
  let star : Parse Node := do
    let star ← symbol "*"
    let rename ← keyword "as"
    return sealed "namespace_import" [star, rename, ← word "identifier"]
  let named := firstOf [star, specifiers]
  firstOf [named,
    do
      let name ← word "identifier"
      let rest ← optional do
        let comma ← symbol ","
        return sealed "rest" [comma, ← named]
      return sealed "import_clause" (name :: rest)]

/-- An import by path. -/
def importStatement : Parse Node := do
  let opening ← keyword "import"
  let ending (parts : List Node) : Parse Node := do
    let attributes ← optional (importAttributes rules)
    return cover "import_statement" ([opening] ++ parts ++ attributes ++ [← semicolon false])
  firstOf [
    do
      let path ← string
      ending [path.inField "source"],
    do
      let type? ← optional (firstOf [keyword "type", keyword "typeof"])
      let clause ← importClause
      ending (type? ++ [clause] ++ (← fromClause)),
    do
      let clause ← importClause
      ending ([clause] ++ (← fromClause)),
    do
      let type? ← optional (keyword "type")
      let name ← word "identifier"
      let equals ← symbol "="
      let require ← keyword "require"
      let paren ← symbol "("
      let path ← string
      let clause := sealed "import_require_clause"
        [name, equals, require, paren, path, ← symbol ")"]
      ending (type? ++ [clause])]

/-- A short name for a member of a namespace. -/
def importAlias : Parse Node := do
  let opening ← keyword "import"
  let name ← word "identifier"
  let equals ← symbol "="
  let target ← tagName
  return sealed "import_alias" [opening, name, equals, target, ← semicolon false]

/-- What `export default` exports: a named declaration, or the value of an expression. -/
def defaultExport : Parse (List Node) :=
  firstOf [
    do
      let item ← firstOf [functionDeclaration rules, classDeclaration rules, interface rules,
        enumeration rules]
      return [item.inField "declaration"],
    do
      let value ← rules (.expression free)
      return [value.inField "value", ← semicolon false]]

def exportStatement : Parse Node := do
  let decorators ← many (decorator rules)
  let opening ← keyword "export"
  let attributes := optional (importAttributes rules)
  let parts ← firstOf [
    do
      let default ← keyword "default"
      return default :: (← defaultExport rules),
    do
      let star ← symbol "*"
      let renamed ← optional do
        let rename ← keyword "as"
        return sealed "namespace_export" [rename, ← firstOf [word "identifier", string]]
      let source ← fromClause
      return [star] ++ renamed ++ source ++ (← attributes) ++ [← semicolon false],
    do
      let type? ← optional (keyword "type")
      let clause ← specifiers
      let source ← (do return (← attempt fromClause).getD [])
      return type? ++ [clause] ++ source ++ (← attributes) ++ [← semicolon false],
    do
      let equals ← symbol "="
      let value ← sequence rules free
      return [equals, value, ← semicolon false],
    do
      let rename ← keyword "as"
      let scope ← keyword "namespace"
      let name ← word "identifier"
      return [rename, scope, name, ← semicolon false],
    do
      let item ← firstOf [ambient rules, importAlias, declaration rules]
      return [item.inField "declaration"]]
  return cover "export_statement" (decorators ++ [opening] ++ parts)

/-! ## Control flow -/

/-- An expression in parentheses. -/
def condition : Parse Node := do
  let opening ← symbol "("
  let inside ← sequence rules {}
  return sealed "parenthesized_expression" [opening, inside, ← symbol ")"]

def ifStatement : Parse Node := do
  let opening ← keyword "if"
  let test ← condition rules
  let positive ← rules .statement
  let negative ← optional do
    let else_ ← keyword "else"
    return sealed "else_clause" [else_, ← rules .statement]
  return sealed "if_statement" ([opening, test, positive] ++ negative)

/-- The head of a loop over values, keys, or a counter. -/
def loopHead : Parse Node := do
  let opening ← symbol "("
  let iterated : Parse Unit := do
    let _ ← firstOf [keyword "of", keyword "in"]
    let _ ← sequence rules {}
  let each : Parse Unit := do
    let _ ← optional variableKeyword
    let _ ← firstOf [rules .pattern, rules (.unary { loopHead := true })]
    let _ ← optional do
      let equals ← symbol "="
      return sealed "value" [equals, ← rules (.expression { loopHead := true })]
    iterated
  let eachOther : Parse Unit := do
    let _ ← rules (.unary { loopHead := true })
    iterated
  let counted : Parse Unit := do
    let _ ← optional (firstOf [
      do
        let opening ← variableKeyword
        return sealed "declaration" (opening :: (← declarators rules { loopHead := true })),
      sequence rules { loopHead := true }])
    let _ ← symbol ";"
    let _ ← optional (sequence rules {})
    let _ ← symbol ";"
    let _ ← optional (sequence rules {})
  firstOf [each, eachOther, counted]
  return sealed "head" [opening, ← symbol ")"]

def forStatement : Parse Node := do
  let opening ← keyword "for"
  let await? ← optional (keyword "await")
  let head ← loopHead rules
  return sealed "for_statement" ([opening] ++ await? ++ [head, ← rules .statement])

def whileStatement : Parse Node := do
  let opening ← keyword "while"
  let test ← condition rules
  return sealed "while_statement" [opening, test, ← rules .statement]

def doStatement : Parse Node := do
  let opening ← keyword "do"
  let body ← rules .statement
  let while_ ← keyword "while"
  let test ← condition rules
  let ending ← optional (semicolon false)
  return sealed "do_statement" ([opening, body, while_, test] ++ ending)

def tryStatement : Parse Node := do
  let opening ← keyword "try"
  let body ← rules .block
  let handler ← optional do
    let catch_ ← keyword "catch"
    let binding ← optional do
      let paren ← symbol "("
      let name ← rules .pattern
      let declared ← optional (typeMark rules {})
      return sealed "binding" ([paren, name] ++ declared ++ [← symbol ")"])
    return sealed "catch_clause" ([catch_] ++ binding ++ [← rules .block])
  let finalizer ← optional do
    let finally_ ← keyword "finally"
    return sealed "finally_clause" [finally_, ← rules .block]
  return sealed "try_statement" ([opening, body] ++ handler ++ finalizer)

def switchStatement : Parse Node := do
  let opening ← keyword "switch"
  let subject ← condition rules
  let brace ← symbol "\x7b"
  let _ ← gather (do
      if ← nextIs ["\x7d"] then return none
      let _ ← firstOf [
        do
          let case ← keyword "case"
          return sealed "case" [case, ← sequence rules {}],
        keyword "default"]
      let _ ← symbol ":"
      let _ ← gather (do
          if ← nextIs ["\x7d"] then return none
          if ← looksAt (keyword "case") then return none
          if ← looksAt (keyword "default" *> symbol ":") then return none
          return some (← rules .statement))
        ((← read).size + 1)
      return some ())
    ((← read).size + 1)
  return sealed "switch_statement" [opening, subject, brace, ← symbol "\x7d"]

/-- A keyword with an optional expression on the same line. -/
def jumpStatement (name : String) : Parse Node := do
  let opening ← keyword name
  let value ← optional do
    check !(← endsHere true false)
    sequence rules free
  return sealed (name ++ "_statement") ([opening] ++ value ++ [← semicolon false])

def labeledStatement : Parse Node := do
  let name ← word "statement_identifier"
  let colon ← symbol ":"
  return sealed "labeled_statement" [name, colon, ← rules .statement]

def expressionStatement : Parse Node := do
  let value ← sequence rules free
  return cover "expression_statement" [value, ← semicolon false]

/-- Statements that begin with a word of their own. -/
def wordStatement (name : String) : Parse Node :=
  match name with
  | "import" => firstOf [importStatement rules, importAlias, expressionStatement rules]
  | "export" => exportStatement rules
  | "if" => ifStatement rules
  | "for" => forStatement rules
  | "while" => whileStatement rules
  | "do" => doStatement rules
  | "try" => tryStatement rules
  | "switch" => switchStatement rules
  | "return" => jumpStatement rules name
  | "throw" => jumpStatement rules name
  | "break" => jumpStatement rules name
  | "continue" => jumpStatement rules name
  | "debugger" => jumpStatement rules name
  | "with" => do
    let opening ← keyword "with"
    let subject ← condition rules
    return sealed "with_statement" [opening, subject, ← rules .statement]
  | "function" => functionDeclaration rules
  | "async" => firstOf [functionDeclaration rules, expressionStatement rules]
  | "const" => firstOf [enumeration rules, variableDeclaration rules]
  | "var" => variableDeclaration rules
  | "let" => firstOf [variableDeclaration rules, expressionStatement rules]
  | "class" => classDeclaration rules
  | "abstract" => firstOf [classDeclaration rules, expressionStatement rules]
  | "interface" => firstOf [interface rules, expressionStatement rules]
  | "type" => firstOf [typeAlias rules, expressionStatement rules]
  | "enum" => firstOf [enumeration rules, expressionStatement rules]
  | "declare" => firstOf [ambient rules, expressionStatement rules]
  | "namespace" => firstOf [namespaceStatement, expressionStatement rules]
  | "module" => firstOf [namespaceStatement, expressionStatement rules]
  | _ => expressionStatement rules
where
  namespaceStatement : Parse Node := do
    let body ← namespaceDeclaration rules
    return sealed "expression_statement" (body :: (← optional (semicolon false)))

def block : Parse Node := do
  let opening ← symbol "\x7b"
  let _ ← gather (do
      if ← nextIs ["\x7d"] then return none
      return some (← rules .statement))
    ((← read).size + 1)
  return sealed "statement_block" [opening, ← symbol "\x7d"]

def statement : Parse Node := do
  match ← nextOperator with
  | "\x7b" => rules .block
  | ";" => return sealed "empty_statement" [← symbol ";"]
  | "@" => firstOf [exportStatement rules, classDeclaration rules, expressionStatement rules]
  | _ =>
    if ← looksAt (word "label" *> symbol ":") then labeledStatement rules
    else wordStatement rules (← nextWord)

end Grammar
end Tsx
end PropCatalog
