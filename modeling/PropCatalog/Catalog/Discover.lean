import PropCatalog.Pattern.Braces
import PropCatalog.Settings.Load

/-!
# Component files

The files of a catalog are those that fit an include pattern and no exclude pattern, each once. They
come in the order of the patterns they fit first, and for one pattern in the order of paths.

- `candidates` : the files that the include patterns find, in order
- `chooseFiles`, `discover` : the files that remain
-/

namespace PropCatalog

/-- The include patterns without braces and without a leading `./`. -/
def includePatterns (includes : List String) : List String :=
  (includes.flatMap Pattern.expandBraces).map fun pattern =>
    match Text.stripPrefix? ['.', '/'] pattern.toList with
    | some rest => String.ofList rest
    | none => pattern

/-- A path as seen from the directory `root`. -/
def relativePath (root p : Path) : String :=
  ((p.relativeTo? root).getD p).toString

/-- The files among the paths. -/
def filesAmong {ε : Type} (isFile : Path → Except ε Bool) : List Path → Except ε (List Path)
  | [] => .ok []
  | p :: rest => do
    let isFirst ← isFile p
    let files ← filesAmong isFile rest
    return if isFirst then p :: files else files

/-- The files that the patterns find, one pattern after the other. -/
def candidates {ε : Type} (find : String → Except ε (List Path)) (isFile : Path → Except ε Bool)
    (patterns : List String) : Except ε (List Path) := do
  let found ← patterns.mapM fun pattern => do
    let paths ← find pattern
    filesAmong isFile (paths.mergeSort Path.le)
  return found.flatten

/-- The files that no pattern excludes, each once. -/
def chooseFiles (root : Path) (excludes : List String) (files : List Path) : List Path :=
  let chosen := files.filter fun p => !Pattern.isExcluded (relativePath root p) excludes
  -- Two paths are the same file if they are the same as seen from `root`.
  chosen.eraseDupsBy fun p q => relativePath root p == relativePath root q

/-- The component files of a project, for any way of finding the paths of a pattern and of telling
files from directories. -/
def discoverWith {ε : Type} (find : String → Except ε (List Path)) (isFile : Path → Except ε Bool)
    (s : Settings) : Except ε (List Path) := do
  let files ← candidates find isFile (includePatterns s.includes)
  return chooseFiles s.root (s.excludes.flatMap Pattern.expandBraces) files

/-- The paths that a pattern finds on a disk. -/
def findOn (d : Disk) (root : Path) (pattern : String) : Except Failure (List Path) :=
  match Glob.ofString pattern with
  | .error e => .error (.glob e)
  | .ok g => (g.select d root).mapError .disk

/-- The component files of a project on a disk. -/
def discover (d : Disk) (s : Settings) : Except Failure (List Path) :=
  discoverWith (findOn d s.root) (fun p => (d.isFile [] p).mapError .disk) s

end PropCatalog
