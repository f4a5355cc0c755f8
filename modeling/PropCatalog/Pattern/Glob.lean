import PropCatalog.Disk
import PropCatalog.Pattern.Wildcard

/-!
# File patterns

A file pattern is a relative path whose parts may hold wildcards. The part `**` stands for any
number of directories, hidden ones too, and can only stand alone.

- `Glob.ofString` : reads a pattern, or says why it is none
- `Glob.select`   : the paths that fit, below a directory; what is denied is passed over
-/

namespace PropCatalog

/-- Why a text is no file pattern. -/
inductive GlobError where
  | empty
  | absolute
  /-- Nothing but single dots. -/
  | noParts
  /-- Nothing but single dots and slashes, ending in a slash. -/
  | onlySlash
  /-- A part has two stars in a row and more than these. -/
  | mixedStars
  deriving DecidableEq, Repr

/-- One part of a file pattern. -/
inductive GlobPart where
  /-- Any number of directories. -/
  | directories
  | wildcard (pieces : List Pattern.Piece)
  | name (text : String)
  deriving DecidableEq, Repr

def GlobPart.ofString (part : String) : Except GlobError GlobPart :=
  let cs := part.toList
  if part == "**" then .ok .directories
  else if Text.contains ['*', '*'] cs then .error .mixedStars
  else if cs.any fun c => c == '*' || c == '?' || c == '[' then
    .ok (.wildcard (Pattern.Piece.ofChars cs))
  else .ok (.name part)

structure Glob where
  parts : List GlobPart
  /-- The pattern ends in a slash, so only directories fit. -/
  directoriesOnly : Bool
  deriving DecidableEq, Repr

namespace Glob

def ofString (pattern : String) : Except GlobError Glob :=
  let path := Path.ofString pattern
  let slash := pattern.toList.getLast? == some '/'
  if pattern == "" then .error .empty
  else if path.isAbsolute then .error .absolute
  else if path.parts.isEmpty then .error (if slash then .onlySlash else .noParts)
  else (path.parts.mapM GlobPart.ofString).map fun parts => { parts, directoriesOnly := slash }

/-- What is found where looking may be denied: nothing then. -/
def unlessDenied {α : Type} (nothing : α) (found : Except DiskError α) : Except DiskError α :=
  match found with
  | .ok a => .ok a
  | .error e => if e.fault == .denied then .ok nothing else .error e

/-- The names in a directory, and whether they are those of directories. -/
def namesIn (d : Disk) (here : Path) : Except DiskError (List (String × Bool)) :=
  unlessDenied [] ((d.openDirectory [] here).map d.children)

/-- The ways from a directory to itself and to all directories below it. -/
def waysBelow (d : Disk) (here : Path) : List (List String) :=
  match d.locate [] here with
  | .ok loc => d.directoriesBelow loc
  | .error _ => [[]]

/-- Whether a way down can be found: the names in all directories before its end can be read. -/
def isFound (d : Disk) (here : Path) : List String → Except DiskError Bool
  | [] => .ok true
  | name :: rest => do
    if ← unlessDenied false ((d.openDirectory [] here).map fun _ => true) then
      isFound d (here.child name) rest
    else return false

/-- What is found at each of several places. -/
def findAll {α : Type} (places : List α) (find : α → Except DiskError (List Path)) :
    Except DiskError (List Path) := do
  return (← places.mapM find).flatten

/-- What is found at the end of a way down. -/
def atEnd (d : Disk) (here : Path) (find : Path → Except DiskError (List Path))
    (way : List String) : Except DiskError (List Path) := do
  if ← isFound d here way then
    let found ← find (here.below way)
    -- The search goes on below, so the names in this directory are read in any case.
    let _ ← namesIn d (here.below way)
    return found
  else return []

/-- The paths below the directory `here` that fit the parts. All but the last part have to be
directories, and the last one too if `directoriesOnly` says so. -/
def selectParts (d : Disk) (directoriesOnly : Bool) (here : Path) :
    List GlobPart → Except DiskError (List Path)
  | [] => .ok [here]
  | part :: rest => do
    let onlyDirectories := directoriesOnly || !rest.isEmpty
    match part with
    | .directories =>
      findAll (waysBelow d here)
        (atEnd d here fun there => selectParts d directoriesOnly there rest)
    | .wildcard pieces =>
      findAll (← namesIn d here) fun (name, isDirectory) =>
        if Pattern.matchesPieces pieces name.toList && (!onlyDirectories || isDirectory) then
          selectParts d directoriesOnly (here.child name) rest
        else return []
    | .name name =>
      let next := here.child name
      let isThere := if onlyDirectories then d.isDirectory [] next else d.has [] next
      if ← unlessDenied false isThere then selectParts d directoriesOnly next rest
      else return []

/-- The paths below the absolute directory `root` that fit the pattern. -/
def select (g : Glob) (d : Disk) (root : Path) : Except DiskError (List Path) := do
  if ← d.isDirectory [] root then selectParts d g.directoriesOnly root g.parts
  else return []

end Glob
end PropCatalog
