import PropCatalog.Yaml.Tag
import PropCatalog.Yaml.Token

/-!
# Nodes

The tree of a document. A node may carry an anchor, and an alias stands for the node with its
anchor; a collection may contain an alias for itself.

- `Node`           : scalars, lists and mappings with their tags, and aliases
- `Document`       : the root of the tree and the nodes that have anchors
- `Document.ofChars` : the only document of a text, if there is one
-/

namespace PropCatalog
namespace Yaml

inductive Node where
  | scalar (tag : Tag) (text : String)
  | list (tag : Tag) (items : List Node)
  | map (tag : Tag) (entries : List (Node × Node))
  | alias (name : String)
  deriving Repr, Inhabited

/-- The scalar that stands where nothing is written. -/
def Node.empty : Node := .scalar .null ""

structure Document where
  root : Node
  anchors : List (String × Node)
  deriving Repr

/-! ## Reading tokens -/

/-- What is known while tokens are read. -/
structure Reader where
  tokens : List Token
  /-- Tag handles and what they stand for. -/
  handles : List (String × String) := []
  /-- The anchors met so far; the node of the last one may not be complete. -/
  names : List String := []
  anchors : List (String × Node) := []
  deriving Repr

abbrev ReadM := EStateM Error Reader

namespace ReadM

def fail {α : Type} (p : Problem) : ReadM α := throw (.malformed p)

/-- The next token. -/
def peek : ReadM Token := do
  match (← get).tokens with
  | .broken e :: _ => throw e
  | t :: _ => return t
  | [] => return .streamEnd

def advance : ReadM Unit :=
  modify fun r => { r with tokens := r.tokens.tail }

/-- Skips the next token if it is `t`; tells whether it was. -/
def accept (t : Token) : ReadM Bool := do
  if (← peek) == t then
    advance
    return true
  return false

/-- Whether the next token is one of the given ones. -/
def isAt (ts : List Token) : ReadM Bool := do
  return ts.contains (← peek)

/-! ## Properties of nodes -/

/-- An anchor and a tag, in either order. -/
structure Properties where
  anchor : Option String := none
  tag : Option (Option String × String) := none

def properties : ReadM Properties := do
  match ← peek with
  | .anchor name =>
    advance
    match ← peek with
    | .tag handle suffix =>
      advance
      return { anchor := some name, tag := some (handle, suffix) }
    | _ => return { anchor := some name }
  | .tag handle suffix =>
    advance
    match ← peek with
    | .anchor name =>
      advance
      return { anchor := some name, tag := some (handle, suffix) }
    | _ => return { tag := some (handle, suffix) }
  | _ => return {}

/-- The full name of a tag; nothing for no tag and for a single exclamation mark. -/
def tagUri (tag : Option (Option String × String)) : ReadM (Option String) := do
  let uri ←
    match tag with
    | none => pure none
    | some (none, suffix) => pure (some suffix)
    | some (some handle, suffix) =>
      match (← get).handles.find? (·.1 == handle) with
      | some (_, start) => pure (some (start ++ suffix))
      | none => fail .undefinedHandle
  return uri.filter (· != "!")

/-- Notes a new anchor, before its node is read. -/
def openAnchor (anchor : Option String) : ReadM Unit := do
  match anchor with
  | none => return
  | some name =>
    if (← get).names.contains name then fail .duplicateAnchor
    modify fun r => { r with names := name :: r.names }

/-- Gives an anchor its node. -/
def closeAnchor (anchor : Option String) (node : Node) : ReadM Node := do
  match anchor with
  | none => return node
  | some name =>
    modify fun r => { r with anchors := (name, node) :: r.anchors }
    return node

def collectionTag (uri : Option String) (standard : Tag) : Tag :=
  (uri.map Tag.ofUri).getD standard

/-! ## Nodes -/

/-- Where a node stands: in a flow collection, in a block, or as a key or value of a block mapping,
where the items of a list need not be indented. -/
inductive Context where
  | flow
  | block
  | entry
  deriving DecidableEq, Repr

mutual

/-- A node. -/
def node : Nat → Context → ReadM Node
  | 0, _ => fail .unexpectedToken
  | fuel + 1, context => do
    match ← peek with
    | .alias name =>
      advance
      if !(← get).names.contains name then fail .undefinedAlias
      return .alias name
    | _ =>
      let found ← properties
      let uri ← tagUri found.tag
      let next ← peek
      let collection (standard : Tag) (items : ReadM (List Node)) : ReadM Node := do
        openAnchor found.anchor
        let items ← items
        closeAnchor found.anchor (.list (collectionTag uri standard) items)
      let mapping (entries : ReadM (List (Node × Node))) : ReadM Node := do
        openAnchor found.anchor
        let entries ← entries
        closeAnchor found.anchor (.map (collectionTag uri .map) entries)
      match next, context with
      | .item, .entry => collection .seq (looseItems fuel)
      | .scalar text isPlain, _ =>
        advance
        openAnchor found.anchor
        let tag :=
          match uri with
          | some uri => Tag.ofUri uri
          | none => if isPlain || found.tag.isSome then Tag.ofPlain text.toList else .str
        closeAnchor found.anchor (.scalar tag text)
      | .flowListStart, _ =>
        advance
        collection .seq (flowItems fuel true)
      | .flowMapStart, _ =>
        advance
        mapping (flowEntries fuel true)
      | .listStart, .block =>
        advance
        collection .seq (blockItems fuel)
      | .listStart, .entry =>
        advance
        collection .seq (blockItems fuel)
      | .mapStart, .block =>
        advance
        mapping (blockEntries fuel)
      | .mapStart, .entry =>
        advance
        mapping (blockEntries fuel)
      | _, _ =>
        if found.anchor.isNone && found.tag.isNone then fail .unexpectedToken
        openAnchor found.anchor
        closeAnchor found.anchor (.scalar (collectionTag uri .null) "")

/-- The items of a block list, up to its end. -/
def blockItems : Nat → ReadM (List Node)
  | 0 => fail .unexpectedToken
  | fuel + 1 => do
    if ← accept .item then
      let first ← if ← isAt [.item, .blockEnd] then pure Node.empty else node fuel .block
      return first :: (← blockItems fuel)
    else if ← accept .blockEnd then return []
    else fail .unexpectedToken

/-- The items of a block list that is not indented; whatever comes after them ends it. -/
def looseItems : Nat → ReadM (List Node)
  | 0 => fail .unexpectedToken
  | fuel + 1 => do
    if ← accept .item then
      let first ←
        if ← isAt [.item, .key, .value, .blockEnd] then pure Node.empty else node fuel .block
      return first :: (← looseItems fuel)
    else return []

/-- The entries of a block mapping, up to its end. -/
def blockEntries : Nat → ReadM (List (Node × Node))
  | 0 => fail .unexpectedToken
  | fuel + 1 => do
    if ← accept .key then
      let key ← blockEntryPart fuel
      let value ← if ← accept .value then blockEntryPart fuel else pure Node.empty
      return (key, value) :: (← blockEntries fuel)
    else if ← accept .blockEnd then return []
    else fail .unexpectedToken

/-- A key or value of a block mapping. -/
def blockEntryPart : Nat → ReadM Node
  | 0 => fail .unexpectedToken
  | fuel + 1 => do
    if ← isAt [.key, .value, .blockEnd] then return Node.empty
    node fuel .entry

/-- The items of a flow list. A key makes a mapping with one entry. -/
def flowItems : Nat → Bool → ReadM (List Node)
  | 0, _ => fail .unexpectedToken
  | fuel + 1, isFirst => do
    if ← accept .flowListEnd then return []
    if !isFirst then
      if !(← accept .comma) then fail .unexpectedToken
    if ← accept .key then
      let key ←
        if ← isAt [.value, .comma, .flowListEnd] then pure Node.empty else node fuel .flow
      let value ←
        if ← accept .value then
          if ← isAt [.comma, .flowListEnd] then pure Node.empty else node fuel .flow
        else pure Node.empty
      return .map .map [(key, value)] :: (← flowItems fuel false)
    else if ← accept .flowListEnd then return []
    else
      let item ← node fuel .flow
      return item :: (← flowItems fuel false)

/-- The entries of a flow mapping. -/
def flowEntries : Nat → Bool → ReadM (List (Node × Node))
  | 0, _ => fail .unexpectedToken
  | fuel + 1, isFirst => do
    if ← accept .flowMapEnd then return []
    if !isFirst then
      if !(← accept .comma) then fail .unexpectedToken
    if ← accept .key then
      let key ←
        if ← isAt [.value, .comma, .flowMapEnd] then pure Node.empty else node fuel .flow
      let value ←
        if ← accept .value then
          if ← isAt [.comma, .flowMapEnd] then pure Node.empty else node fuel .flow
        else pure Node.empty
      return (key, value) :: (← flowEntries fuel false)
    else if ← accept .flowMapEnd then return []
    else
      let key ← node fuel .flow
      return (key, Node.empty) :: (← flowEntries fuel false)

end

/-! ## Documents -/

/-- The tag handles that every document has. -/
def standardHandles : List (String × String) := [("!", "!"), ("!!", standardTags)]

/-- Reads directives: one version at most, of the first generation, and each handle once. -/
def directives : Nat → Bool → List (String × String) → ReadM (List (String × String))
  | 0, _, handles => return handles
  | fuel + 1, hasVersion, handles => do
    match ← peek with
    | .version major _ =>
      if hasVersion then fail .duplicateDirective
      if major != 1 then fail .unsupportedVersion
      advance
      directives fuel true handles
    | .handle name uri =>
      if handles.any (·.1 == name) then fail .duplicateDirective
      advance
      directives fuel hasVersion (handles ++ [(name, uri)])
    | .directive =>
      advance
      directives fuel hasVersion handles
    | _ => return handles

/-- Skips document ends; tells whether the text ends there. -/
def skipDocumentEnds : Nat → ReadM Bool
  | 0 => return true
  | fuel + 1 => do
    if ← accept .documentEnd then skipDocumentEnds fuel
    else return (← peek) == .streamEnd

/-- A document that begins with directives or its mark. -/
def explicitDocument (fuel : Nat) : ReadM Node := do
  let own ← directives fuel false []
  modify fun r => { r with handles := own ++ standardHandles }
  if !(← accept .documentStart) then fail .unexpectedToken
  match ← peek with
  | .version _ _ => return Node.empty
  | .handle _ _ => return Node.empty
  | .directive => return Node.empty
  | .documentStart => return Node.empty
  | .documentEnd => return Node.empty
  | .streamEnd => return Node.empty
  | _ => node fuel .block

/-- The only document of a text, or nothing for an empty text. -/
def document (fuel : Nat) : ReadM (Option Node) := do
  let isExplicit ←
    match ← peek with
    | .streamEnd => return none
    | .version _ _ => pure true
    | .handle _ _ => pure true
    | .directive => pure true
    | .documentStart => pure true
    | _ => pure false
  let root ←
    if isExplicit then explicitDocument fuel
    else do
      modify fun r => { r with handles := standardHandles }
      node fuel .block
  if !(← skipDocumentEnds fuel) then fail .severalDocuments
  return some root

end ReadM

/-- The only document of a text; nothing if the text is empty apart from comments. -/
def Document.ofChars (text : List Char) : Except Error (Option Document) :=
  let tokens := Token.ofChars text
  match (ReadM.document (4 * tokens.length + 8)).run { tokens } with
  | .ok root reader => .ok (root.map fun root => { root, anchors := reader.anchors })
  | .error e _ => .error e

end Yaml
end PropCatalog
