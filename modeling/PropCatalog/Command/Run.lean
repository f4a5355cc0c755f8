import PropCatalog.Catalog.Build
import PropCatalog.Command.Invocation
import PropCatalog.Value.Json

/-!
# Carrying out a command line

- `Outcome`  : what a run prints and its exit code
- `runTask`  : a task in a session
- `execute`  : a command line on a disk; what was written stays, whatever the outcome

Mistakes in the settings, failures of the disk while a catalog is built, and files without a
component end a run with code one and a message. Other failures are passed on.
-/

namespace PropCatalog

structure Outcome where
  exit : Nat := 0
  stdout : String := ""
  stderr : String := ""
  deriving DecidableEq, Repr

namespace Command

open Run

/-- A path as seen from the working directory, if it is below it. -/
def shownPath (env : Environment) (p : Path) : String :=
  ((p.relativeTo? { root := "/", parts := env.cwd }).getD p).toString

/-- The text of an error message on its own. -/
def failed (message : String) : Outcome :=
  { exit := 1, stderr := message ++ "\n" }

/-! ## Tasks -/

def buildTask (env : Environment) (path : String) (output : Option String) : Run Outcome := do
  match Settings.load env (← get).disk (Path.ofString path) with
  | .error (.settings e) => return failed ("Invalid configuration: " ++ e.message)
  | .error e => throw e
  | .ok settings =>
    let settings :=
      match output.filter (· != "") with
      | some directory => { settings with directory }
      | none => settings
    try
      let result ← build env settings
      let directory ← ofExcept (settings.outputDirectory env)
      return { stdout := result.totals.summary ++ " in " ++ shownPath env directory ++ "\n" }
    catch
      | .disk e =>
        return failed ("docspark build failed: " ++ e.message ++
          "\nRun with --verbose for more details.")
      | e => throw e

def inspectTask (file : String) (maxPermutations : Int) : Run Outcome := do
  let path := Path.ofString file
  let s ← get
  if !(← ofExcept ((s.disk.isFile s.cwd path).mapError Failure.disk)) then
    return failed (path.toString ++ " does not exist")
  match ← readComponent path defaultStyleExtensions with
  | none => return failed ("No component found in " ++ path.toString)
  | some component =>
    match variants { maxPermutations } component with
    | .error e => throw (.literal e)
    | .ok (usages, notes) =>
      reportAll notes
      let shown := Value.map [
        ("component", component.toValue), ("variants", .list (usages.map Usage.toValue))]
      match shown.prettyText with
      | .error e => throw (.literal e)
      | .ok text => return { stdout := text ++ "\n" }

def runTask (env : Environment) : Task → Run Outcome
  | .build path output => buildTask env path output
  | .inspect file maxPermutations => inspectTask file maxPermutations

/-! ## Sessions -/

/-- The log file of an invocation. -/
def logFileOf (env : Environment) (i : Invocation) : Option LogFile :=
  (i.logFile.filter (· != "")).map fun path =>
    { path := (Path.ofString path).resolve env.cwd
      level := Level.shown i.verbose
      stamp := env.stamp }

/-- Opens the log file, which is created if need be. -/
def openLog (env : Environment) (i : Invocation) : Run Unit := do
  match logFileOf env i with
  | none => return
  | some file =>
    let s ← get
    match s.disk.append s.cwd file.path [] with
    | .error e => throw (.disk e)
    | .ok disk => set { s with disk, logFile := some file }

def runInvocation (env : Environment) (i : Invocation) : Run Outcome := do
  openLog env i
  let outcome ← runTask env i.task
  let console := LogRecord.console (Level.shown i.verbose) (← get).log
  return { outcome with stderr := console ++ outcome.stderr }

def usage : String :=
  "usage: docspark [-h] [-v] [--log-file FILE] build [-o DIRECTORY] [path]\n" ++
    "       docspark [-h] [-v] [--log-file FILE] inspect [--max-permutations N] file\n"

/-- Carries out a command line on a disk. -/
def execute (env : Environment) (arguments : List String) (disk : Disk) :
    Except Failure Outcome × Disk :=
  match Invocation.ofArguments arguments with
  | .error .help => (.ok { stdout := usage }, disk)
  | .error .misuse => (.ok { exit := 2, stderr := usage }, disk)
  | .ok invocation =>
    match (runInvocation env invocation).run { disk, cwd := env.cwd } with
    | .ok outcome s => (.ok outcome, s.disk)
    | .error e s => (.error e, s.disk)

end Command
end PropCatalog
