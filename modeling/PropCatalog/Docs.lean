import PropCatalog.Assoc
import PropCatalog.Outline.Basic
import PropCatalog.Text.Search
import PropCatalog.Text.WordChar

/-!
# Documentation in comments

A documentation block holds a description followed by tags. A tag begins on a line `@name text` and
runs up to the next such line; a tag without text has the text `true`. Comments that are not
documentation may still hold tags, as lines `@name text` or `key: value`.

- `commentLines`  : the lines of a comment without its delimiters
- `Docs.ofBlock`  : reads a documentation block
- `Docs.ofPlain`  : reads any other comment
- `memberDocs`    : what the comments on a member say
- `description`   : what the nearest documentation block before a declaration says
-/

namespace PropCatalog

structure Docs where
  description : String := ""
  tags : List (String × String) := []
  deriving DecidableEq, Repr

namespace Docs

/-! ## Lines -/

/-- A line of a block comment without the star in front of it and one space after that star. A star
that closes a comment is kept. -/
def dropStar (line : List Char) : List Char :=
  match Text.trimLeft line with
  | '*' :: '/' :: _ => line
  | '*' :: ' ' :: rest => rest
  | '*' :: rest => rest
  | _ => line

/-- A block comment after its opening `/*`: a second star and the closing delimiter are dropped. -/
def blockInside (cs : List Char) : List Char :=
  let cs := if Text.startsWith ['*'] cs then cs.drop 1 else cs
  if Text.endsWith ['*', '/'] cs then cs.dropLast.dropLast else cs

/-- A line without its leading slashes, if there are two or more, and one space after them. -/
def dropSlashes (line : List Char) : List Char :=
  let line := Text.trim line
  if Text.startsWith ['/', '/'] line then
    match Text.dropLeft (· == '/') line with
    | ' ' :: rest => rest
    | rest => rest
  else line

/-- The lines of a comment without its delimiters. -/
def commentLines (text : List Char) : List (List Char) :=
  let text := Text.trim text
  if Text.startsWith ['/', '*'] text then
    (Text.lines (blockInside (text.drop 2))).map dropStar
  else (Text.lines text).map dropSlashes

/-! ## Tags -/

/-- The word at the start of a text and what follows it. -/
def splitWord (cs : List Char) : List Char × List Char :=
  (cs.takeWhile Text.isWordChar, cs.dropWhile Text.isWordChar)

/-- The name and text of a line `@name text`. -/
def tagLine? (line : List Char) : Option (List Char × List Char) :=
  match Text.trim line with
  | '@' :: rest =>
    let (name, rest) := splitWord rest
    if name.isEmpty then none else some (name, Text.trimLeft rest)
  | _ => none

/-- The key and text of a line `key: text`. -/
def keyLine? (line : List Char) : Option (List Char × List Char) :=
  let (name, rest) := splitWord (Text.trim line)
  match Text.trimLeft rest with
  | ':' :: value =>
    let value := Text.trimLeft value
    if name.isEmpty || value.isEmpty then none else some (name, value)
  | _ => none

/-- The text of a tag, which is `true` if nothing was written. -/
def tagText (cs : List Char) : String :=
  let text := Text.trim cs
  if text.isEmpty then "true" else String.ofList text

/-- Lines joined with line feeds. -/
def joinLines (lines : List (List Char)) : List Char :=
  Text.joinWith ['\n'] lines

/-! ## Blocks -/

/-- The lines before the first tag, and the lines of every tag, the first being the text after its
name. -/
def sections : List (List Char) → List (List Char) × List (List Char × List (List Char))
  | [] => ([], [])
  | line :: rest =>
    let (leading, tags) := sections rest
    match tagLine? line with
    | some (name, first) => ([], (name, first :: leading) :: tags)
    | none => (line :: leading, tags)

/-- Reads a documentation block. -/
def ofBlock (text : String) : Docs :=
  let (leading, tags) := sections (commentLines text.toList)
  { description := String.ofList (Text.trim (joinLines leading))
    tags := Assoc.ofList (tags.map fun (name, lines) =>
      (String.ofList name, tagText (joinLines lines))) }

/-- What one line of a plain comment is. -/
inductive PlainLine where
  | tag (name text : String)
  | prose (line : List Char)

def plainLine (line : List Char) : PlainLine :=
  match tagLine? line with
  | some (name, text) => .tag (String.ofList name) (tagText text)
  | none =>
    match keyLine? line with
    | some (name, text) => .tag (String.ofList name) (String.ofList text)
    | none => .prose (Text.trim line)

/-- Reads the lines of a comment that is no documentation block. -/
def ofPlainLines (lines : List (List Char)) : Docs :=
  let lines := lines.map plainLine
  let tags := Assoc.ofList (lines.filterMap fun
    | .tag name text => some (name, text)
    | .prose _ => none)
  let prose := lines.filterMap fun
    | .prose line => some line
    | .tag _ _ => none
  let described := (Assoc.get? tags "description").getD ""
  { description :=
      if described == "" then String.ofList (Text.trim (joinLines prose)) else described
    tags }

/-- Reads a comment that is no documentation block. -/
def ofPlain (text : String) : Docs :=
  ofPlainLines (commentLines text.toList)

/-! ## Comments on a declaration -/

/-- The description of a block, or else what its `description` tag says. -/
def summary (docs : Docs) : String :=
  if docs.description == "" then (Assoc.get? docs.tags "description").getD "" else docs.description

/-- Several blocks read as one: later tags win, and the first description counts. -/
def combine (blocks : List Docs) : Docs :=
  let merged := blocks.foldl (fun (acc : Docs) block =>
    { tags := Assoc.merge acc.tags block.tags
      description := if acc.description == "" then block.description else acc.description }) {}
  { merged with description := merged.summary }

end Docs

/-- What the comments on a member say. Plain comments count only if no documentation block is among
them, and are read as one text. -/
def memberDocs (comments : List Comment) : Docs :=
  let blocks := comments.filter (·.isDoc)
  if !blocks.isEmpty then Docs.combine (blocks.map fun c => Docs.ofBlock c.text)
  else if comments.isEmpty then {}
  else Docs.ofPlain (String.ofList (Docs.joinLines (comments.map (·.text.toList))))

/-- The description in the last documentation block of a list of comments. -/
def description (comments : List Comment) : String :=
  match comments.reverse.find? (·.isDoc) with
  | some c => (Docs.ofBlock c.text).summary
  | none => ""

end PropCatalog
