import PropCatalog.Text.Search

/-!
# File paths

A path is absolute or not and has parts. Empty parts and single dots are dropped when a path is
read; double dots are kept. Exactly two leading slashes are kept as such.

- `Path.ofString`, `Path.toString` : reading and writing
- `Path.join`, `Path.relativeTo?`  : going down and coming back
- `Path.resolve`                   : the absolute path, with double dots taken back part by part
-/

namespace PropCatalog

structure Path where
  /-- What stands before the first part: nothing, one slash or two. -/
  root : String := ""
  parts : List String := []
  deriving DecidableEq, Repr, Inhabited

namespace Path

/-- The slashes that make a path absolute. -/
def rootOf (cs : List Char) : String :=
  if Text.startsWith ['/', '/', '/'] cs then "/"
  else if Text.startsWith ['/', '/'] cs then "//"
  else if Text.startsWith ['/'] cs then "/"
  else ""

def ofString (text : String) : Path :=
  let cs := text.toList
  let parts := (Text.splitAt '/' cs).filter fun part => !part.isEmpty && part != ['.']
  { root := rootOf cs, parts := parts.map String.ofList }

def isAbsolute (p : Path) : Bool := p.root != ""

def toString (p : Path) : String :=
  let text := p.root ++ "/".intercalate p.parts
  if text == "" then "." else text

def name (p : Path) : String := p.parts.getLast?.getD ""

/-- The last part cut at its last dot. -/
def splitName (p : Path) : String × String :=
  let cs := p.name.toList
  let suffix := Text.afterLast '.' cs
  -- A dot counts only with something on both sides of it.
  if cs.contains '.' && suffix.length + 1 < cs.length && !suffix.isEmpty then
    (String.ofList (cs.take (cs.length - suffix.length - 1)), String.ofList ('.' :: suffix))
  else (p.name, "")

def stem (p : Path) : String := p.splitName.1

/-- The extension with its dot. -/
def suffix (p : Path) : String := p.splitName.2

def parent (p : Path) : Path := { p with parts := p.parts.dropLast }

/-- A path seen from another one. -/
def join (base p : Path) : Path :=
  -- An absolute path stands for itself.
  if p.isAbsolute then p else { base with parts := base.parts ++ p.parts }

def child (p : Path) (name : String) : Path := { p with parts := p.parts ++ [name] }

/-- The path with these names below a directory. -/
def below (p : Path) (names : List String) : Path := { p with parts := p.parts ++ names }

/-- The path below `base`, if it is below it. -/
def relativeTo? (p base : Path) : Option Path :=
  if p.root == base.root && base.parts.isPrefixOf p.parts then
    some { parts := p.parts.drop base.parts.length }
  else none

/-- The parts seen from `here`, without double dots. -/
def normalParts (here : List String) (parts : List String) : List String :=
  -- A double dot takes one part back, and above the root there is nothing.
  parts.foldl (fun acc part => if part == ".." then acc.dropLast else acc ++ [part]) here

/-- The absolute path without double dots that a path has in the directory `cwd`. -/
def resolve (cwd : List String) (p : Path) : Path :=
  { root := "/", parts := normalParts (if p.isAbsolute then [] else cwd) p.parts }

/-- Where a stylesheet is that a component imports. -/
def ofImport (cwd : List String) (component : Path) (styleImport : String) : Path :=
  (component.parent.join (ofString styleImport)).resolve cwd

/-- The order of paths: part by part, each part by its characters. -/
def le (p q : Path) : Bool :=
  partsLe p.parts q.parts
where
  partsLe : List String → List String → Bool
    | [], _ => true
    | _ :: _, [] => false
    | a :: as, b :: bs => if a == b then partsLe as bs else decide (a < b)

end Path
end PropCatalog
