import PropCatalog.Path
import PropCatalog.Text.Quoted
import PropCatalog.Text.Utf8

/-!
# Directories and files

A disk is what lies below the root directory: directories and files, each at its location, the parts
of its absolute path without double dots. It also says what is denied, and where.

- `locate`  : the location a path leads to; every directory on the way has to be there, and open
- `has`, `isDirectory`, `isFile` : what is at a path, unless that cannot be told
- `read`, `write`, `append` : the bytes of a file
- `makePath` : a directory together with the missing directories above it
-/

namespace PropCatalog

/-- Why an operation on a disk fails. -/
inductive DiskFault where
  | missing
  | denied
  | taken
  | notDirectory
  | isDirectory
  | nameTooLong
  deriving DecidableEq, Repr

namespace DiskFault

/-- The number under which a fault is reported. -/
def code : DiskFault → Nat
  | missing => 2
  | denied => 13
  | taken => 17
  | notDirectory => 20
  | isDirectory => 21
  | nameTooLong => 36

def text : DiskFault → String
  | missing => "No such file or directory"
  | denied => "Permission denied"
  | taken => "File exists"
  | notDirectory => "Not a directory"
  | isDirectory => "Is a directory"
  | nameTooLong => "File name too long"

/-- Whether a fault on the way to a path means that nothing is there. -/
def isAbsence : DiskFault → Bool
  | missing => true
  | notDirectory => true
  | _ => false

end DiskFault

/-- A fault at a path. -/
structure DiskError where
  fault : DiskFault
  path : Path
  deriving DecidableEq, Repr

def DiskError.message (e : DiskError) : String :=
  "[Errno " ++ String.ofList (Text.decimal e.fault.code) ++ "] " ++ e.fault.text ++ ": " ++
    String.ofList (Text.quoted e.path.toString.toList)

/-- The parts of an absolute path without double dots. -/
abbrev Location := List String

inductive DiskEntry where
  | directory
  | file (bytes : List UInt8)
  deriving DecidableEq, Repr

/-- What can be denied at a location. -/
inductive Permission where
  /-- Reading a file, or the names in a directory. -/
  | read
  /-- Writing to a file, or making something in a directory. -/
  | write
  /-- Going through a directory. -/
  | search
  deriving DecidableEq, Repr

/-- The entries below the root, each at its location. -/
structure Disk where
  entries : List (Location × DiskEntry) := []
  /-- What is denied; everything else is allowed. -/
  denials : List (Location × Permission) := []
  deriving DecidableEq, Repr

namespace Disk

/-! ## Entries -/

def entryAt? (d : Disk) (loc : Location) : Option DiskEntry :=
  -- The root is always a directory.
  if loc == [] then some .directory else (d.entries.find? (·.1 == loc)).map (·.2)

def allows (d : Disk) (loc : Location) (permission : Permission) : Bool :=
  !d.denials.contains (loc, permission)

def put (d : Disk) (loc : Location) (entry : DiskEntry) : Disk :=
  { d with entries := (loc, entry) :: d.entries.filter (·.1 != loc) }

/-- Puts a new entry somewhere. What is new is not denied. -/
def create (d : Disk) (loc : Location) (entry : DiskEntry) : Disk :=
  { d.put loc entry with denials := d.denials.filter (·.1 != loc) }

/-- Gives a file its bytes, creating it if need be. -/
def putFile (d : Disk) (loc : Location) (bytes : List UInt8) : Disk :=
  match d.entryAt? loc with
  | none => d.create loc (.file bytes)
  | some _ => d.put loc (.file bytes)

/-- The names directly in a directory, and whether they are those of directories. -/
def children (d : Disk) (loc : Location) : List (String × Bool) :=
  d.entries.filterMap fun (at_, entry) =>
    match loc.isPrefixOf at_, at_.drop loc.length with
    | true, [name] => some (name, entry == .directory)
    | _, _ => none

/-- The ways from a directory to itself and to all directories below it. -/
def directoriesBelow (d : Disk) (loc : Location) : List (List String) :=
  [] :: d.entries.filterMap fun (at_, entry) =>
    match entry, loc.isPrefixOf at_, at_.drop loc.length with
    | .directory, true, name :: names => some (name :: names)
    | _, _, _ => none

/-! ## Paths -/

/-- The longest part of a path, in bytes. -/
def partLimit : Nat := 255

/-- The longest path, in bytes. -/
def pathLimit : Nat := 4095

def byteLength (text : String) : Nat :=
  (Text.encode text.toList).length

/-- One step along a path. -/
def enter (d : Disk) (here : Location) (part : String) : Except DiskFault Location :=
  match d.entryAt? here with
  | none => .error .missing
  | some (.file _) => .error .notDirectory
  | some .directory =>
    -- The right to go through a directory is asked for before the name is looked at.
    if !d.allows here .search then .error .denied
    else if part == ".." then .ok here.dropLast
    else if partLimit < byteLength part then .error .nameTooLong
    else .ok (here ++ [part])

/-- Where a path leads from the directory `cwd`. -/
def locate (d : Disk) (cwd : Location) (p : Path) : Except DiskFault Location :=
  if pathLimit < byteLength p.toString then .error .nameTooLong
  -- Nothing has to be at the location itself, but every directory on the way has to be there.
  else p.parts.foldlM d.enter (if p.isAbsolute then [] else cwd)

/-- What is at a path. Without the directories on the way nothing is there; any other fault is one
of asking. -/
def lookup (d : Disk) (cwd : Location) (p : Path) : Except DiskError (Option DiskEntry) :=
  match d.locate cwd p with
  | .ok loc => .ok (d.entryAt? loc)
  | .error fault => if fault.isAbsence then .ok none else .error ⟨fault, p⟩

def has (d : Disk) (cwd : Location) (p : Path) : Except DiskError Bool :=
  (d.lookup cwd p).map (·.isSome)

def isDirectory (d : Disk) (cwd : Location) (p : Path) : Except DiskError Bool :=
  (d.lookup cwd p).map (· == some .directory)

def isFile (d : Disk) (cwd : Location) (p : Path) : Except DiskError Bool :=
  (d.lookup cwd p).map fun entry =>
    match entry with
    | some (.file _) => true
    | _ => false

/-! ## Files -/

def read (d : Disk) (cwd : Location) (p : Path) : Except DiskError (List UInt8) :=
  match d.locate cwd p with
  | .error fault => .error ⟨fault, p⟩
  | .ok loc =>
    match d.entryAt? loc with
    | none => .error ⟨.missing, p⟩
    | some entry =>
      -- A directory can be opened for reading, and only then has no bytes.
      if !d.allows loc .read then .error ⟨.denied, p⟩
      else
        match entry with
        | .directory => .error ⟨.isDirectory, p⟩
        | .file bytes => .ok bytes

/-- Gives a file the bytes that `f` makes of those it has, creating it if need be. -/
def modify (d : Disk) (cwd : Location) (p : Path) (f : List UInt8 → List UInt8) :
    Except DiskError Disk :=
  match d.locate cwd p with
  | .error fault => .error ⟨fault, p⟩
  | .ok loc =>
    match d.entryAt? loc with
    | none =>
      if d.allows loc.dropLast .write then .ok (d.putFile loc (f [])) else .error ⟨.denied, p⟩
    -- A directory cannot be opened for writing, whatever the rights in it.
    | some .directory => .error ⟨.isDirectory, p⟩
    | some (.file bytes) =>
      if d.allows loc .write then .ok (d.putFile loc (f bytes)) else .error ⟨.denied, p⟩

def write (d : Disk) (cwd : Location) (p : Path) (bytes : List UInt8) : Except DiskError Disk :=
  d.modify cwd p fun _ => bytes

def append (d : Disk) (cwd : Location) (p : Path) (bytes : List UInt8) : Except DiskError Disk :=
  d.modify cwd p (· ++ bytes)

/-! ## Directories -/

/-- The location of a directory whose names can be read. -/
def openDirectory (d : Disk) (cwd : Location) (p : Path) : Except DiskError Location :=
  match d.locate cwd p with
  | .error fault => .error ⟨fault, p⟩
  | .ok loc =>
    match d.entryAt? loc with
    | none => .error ⟨.missing, p⟩
    | some (.file _) => .error ⟨.notDirectory, p⟩
    | some .directory => if d.allows loc .read then .ok loc else .error ⟨.denied, p⟩

def makeDirectory (d : Disk) (cwd : Location) (p : Path) : Except DiskError Disk :=
  match d.locate cwd p with
  | .error fault => .error ⟨fault, p⟩
  | .ok loc =>
    match d.entryAt? loc with
    | none =>
      if d.allows loc.dropLast .write then .ok (d.create loc .directory)
      else .error ⟨.denied, p⟩
    | some _ => .error ⟨.taken, p⟩

/-- A failed attempt to make a directory is no fault if the directory is there. -/
def settle (d : Disk) (cwd : Location) (p : Path) (e : DiskError) : Disk × Option DiskError :=
  match d.isDirectory cwd p with
  | .ok isThere => (d, if isThere then none else some e)
  | .error e => (d, some e)

/-- Makes the directory with the given reversed parts and those above it. -/
def makeReversed (d : Disk) (cwd : Location) (root : String) :
    List String → Disk × Option DiskError
  | [] =>
    let p : Path := { root }
    match d.makeDirectory cwd p with
    | .ok d => (d, none)
    | .error e => if e.fault == .missing then (d, some e) else d.settle cwd p e
  | name :: above =>
    let p : Path := { root, parts := (name :: above).reverse }
    match d.makeDirectory cwd p with
    | .ok d => (d, none)
    | .error e =>
      if e.fault == .missing then
        match makeReversed d cwd root above with
        -- What was made above stays also when a later step fails.
        | (d, some e) => (d, some e)
        | (d, none) =>
          match d.makeDirectory cwd p with
          | .ok d => (d, none)
          | .error e => if e.fault == .missing then (d, some e) else d.settle cwd p e
      else d.settle cwd p e

/-- Makes a directory and the directories above it, unless they are there. -/
def makePath (d : Disk) (cwd : Location) (p : Path) : Disk × Option DiskError :=
  d.makeReversed cwd p.root p.parts.reverse

/-! ## Texts -/

/-- Why a file has no text. -/
inductive TextError where
  | disk (e : DiskError)
  /-- The bytes are no UTF-8. -/
  | undecodable
  deriving DecidableEq, Repr

def TextError.message : TextError → String
  | disk e => e.message
  | undecodable => "'utf-8' codec can't decode the file"

/-- A text in which every line ends in a line feed alone. -/
def withLineFeeds : List Char → List Char
  | [] => []
  | '\r' :: '\n' :: rest => '\n' :: withLineFeeds rest
  | c :: rest => (if c == '\r' then '\n' else c) :: withLineFeeds rest

/-- The text of a file, with line feeds for all line ends. -/
def readText (d : Disk) (cwd : Location) (p : Path) : Except TextError String :=
  match d.read cwd p with
  | .error e => .error (.disk e)
  | .ok bytes =>
    match Text.decodeStrict? bytes with
    | none => .error .undecodable
    | some cs => .ok (String.ofList (withLineFeeds cs))

end Disk
end PropCatalog
