import LicenseHeader.CommandLine.Parse
import LicenseHeader.Report.Summary
import LicenseHeader.Scan.Inputs

/-!
# Carrying out a command line

A run collects the exclude patterns, builds the action, counts what there is, does
the action on every file, prints the findings and, if asked to, writes a report.
It comes in two parts, so that the time between them can be taken:
`Invocation.scan` does the work and `Invocation.report` tells about it.
-/

namespace LicenseHeader

/-- Why a run failed as a whole. -/
inductive RunError where
  | input (cause : InputError)
  | action (cause : ActionError)
  /-- The directory to work on cannot be read. -/
  | unreadableRoot (dir : Path) (cause : FileError)
  | scan (cause : FileError)
  /-- The report cannot be written. -/
  | noReport (path : Path) (cause : FileError)
deriving DecidableEq, Repr

namespace RunError

/-- The wording of an error. -/
def message : RunError → String
  | input cause => cause.message
  | action cause => cause.message
  | unreadableRoot dir cause => s!"Could not read {String.ofList dir}: {cause.message}"
  | scan cause => cause.message
  | noReport path cause =>
    s!"Could not create output file {String.ofList path}: {cause.message}"

end RunError

/-- **What a run prints**, and its exit code. -/
structure RunResult where
  exitCode : Nat := 0
  output : List String := []
  /-- The lines printed as errors. -/
  errors : List String := []
  /-- The lines that go to the log as warnings. -/
  warnings : List String := []
deriving DecidableEq, Repr

/-- What the work of a run leaves to tell about. -/
structure Scanned where
  action : Action
  /-- How many directories there are. -/
  directories : Nat
  scan : Scan

namespace Invocation

/-- The exclude patterns of a run, as they are written: the built-in ones, those
given, and those in a file, which is found from the directory to work on. -/
def excludeSources (i : Invocation) : FileProgram (Except RunError (List Text)) := do
  match i.excludesFile with
  | none => return .ok (Exclude.defaults ++ i.exclude)
  | some file =>
    match ← FileProgram.loadExcludes (Path.join i.dir file) with
    | .error e => return .error (.input e)
    | .ok more => return .ok (Exclude.defaults ++ i.exclude ++ more)

/-- The action of a run. The license file is found from the directory to work on. -/
def toAction (i : Invocation) : FileProgram (Except RunError Action) := do
  match i.command with
  | .describe => return .ok .describe
  | .list => return .ok .list
  | .check file type =>
    match ← FileProgram.loadLicense (Path.join i.dir file) type with
    | .error e => return .error (.input e)
    | .ok reference => return .ok (.check reference)
  | .relicense file type existingOnly newOnly =>
    match ← FileProgram.loadLicense (Path.join i.dir file) type with
    | .error e => return .error (.input e)
    | .ok reference =>
      match RelicenseMode.ofFlags existingOnly newOnly with
      | .error e => return .error (.action e)
      | .ok mode => return .ok (.relicense reference mode)
  | .reformat => return .ok .reformat
  | .stripBlank => return .ok .stripBlank
  | .javaTop licenseOnTop => return .ok (.javaTop licenseOnTop)
  | .xmlTop => return .ok .xmlTop

/-- The action on every file, after counting. -/
def scanWith (i : Invocation) (patterns : List Pattern) (action : Action) :
    FileProgram (Except RunError Scanned) := do
  match ← FileProgram.count patterns i.maxDepth i.dir with
  | .error e => return .error (.unreadableRoot i.dir e)
  | .ok tally =>
    match ← FileProgram.scan patterns action i.maxDepth i.dir with
    | .error e => return .error (.scan e)
    | .ok scan => return .ok ⟨action, tally.directories, scan⟩

/-- **The work of a run**, with the warnings that come up before the scan. -/
def scan (i : Invocation) : FileProgram (Except RunError Scanned × List String) := do
  match ← i.excludeSources with
  | .error e => return (.error e, [])
  | .ok sources =>
    let warnings := Exclude.warnings sources
    match ← i.toAction with
    | .error e => return (.error e, warnings)
    | .ok action => return (← i.scanWith (Exclude.compile sources) action, warnings)

/-- The findings of a file that are printed, each with its path. -/
def findingLines (i : Invocation) (r : FileReport) : List String :=
  (r.findings.filter fun f => 0 < i.verbose || !f.isVerboseOnly).map fun f =>
    s!"{String.ofList r.path}: {f.message}"

/-- The result of a run that failed with an error, after what was printed before. -/
def failed (before : RunResult) (e : RunError) : RunResult :=
  { before with exitCode := 1, errors := before.errors ++ [s!"Error: {e.message}"] }

/-- **What a run tells** about its work. -/
def report (i : Invocation) (times : RunTimes) (work : Except RunError Scanned × List String) :
    FileProgram RunResult := do
  match work with
  | (.error e, warnings) => return failed { warnings } e
  | (.ok done, warnings) =>
    let printed : RunResult := {
      output := done.scan.reports.flatMap i.findingLines
      errors := done.scan.reports.flatMap Report.errorLines
      warnings := warnings ++ done.scan.warnings }
    match i.output with
    | none => return printed
    | some path =>
      let json := Report.ofScan done.action times done.directories done.scan
      match ← FileProgram.write path (Utf8.encode (json.render 0).toList) with
      | .ok () => return printed
      | .error e => return failed printed (.noReport path e)

/-- **A whole run.** -/
def run (i : Invocation) (times : RunTimes) : FileProgram RunResult := do
  i.report times (← i.scan)

end Invocation

/-- The line that tells the version. -/
def versionLine : String := s!"headnote {Report.toolVersion}"

end LicenseHeader
