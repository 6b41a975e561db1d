import LicenseHeader.CommandLine.Run
import Std.Time

/-!
# The program

The outer layer: it takes the arguments, runs the file program they ask for on the
disk, step by step, and prints what comes of it. Nothing is decided here.
-/

namespace LicenseHeader.Disk

/-- The text of a path for the system. -/
def name (p : Path) : String := String.ofList p

/-- The error for a cause that the system gives by number. -/
def errorOfCode (code : UInt32) (details : String) : FileError :=
  match code.toNat with
  | 2 => .notFound
  | 16 => .busy
  | 20 => .notDirectory
  | 21 => .isDirectory
  | 22 => .invalidMove
  | 36 => .nameTooLong
  | 39 => .notEmpty
  | 40 => .tooManyLinks
  | n => .other s!"{details} (os error {n})"

/-- The error behind a failed step. -/
def fileError : IO.Error → FileError
  | .noFileOrDirectory _ code details => errorOfCode code details
  | .invalidArgument _ code details => errorOfCode code details
  | .permissionDenied _ code details => errorOfCode code details
  | .resourceExhausted _ code details => errorOfCode code details
  | .inappropriateType _ code details => errorOfCode code details
  | .noSuchThing _ code details => errorOfCode code details
  | .alreadyExists _ code details => errorOfCode code details
  | .otherError code details => errorOfCode code details
  | .resourceBusy code details => errorOfCode code details
  | .unsatisfiedConstraints code details => errorOfCode code details
  | .illegalOperation code details => errorOfCode code details
  | e => .other (toString e)

/-- A step that may fail. -/
def attempt {α : Type} (step : IO α) : IO (Except FileError α) := do
  match ← step.toBaseIO with
  | .ok a => return .ok a
  | .error e => return .error (fileError e)

/-- The kind that the system gives. -/
def kind : IO.FS.FileType → FileKind
  | .dir => .directory
  | .symlink => .link
  | _ => .file

/-- The entries of a directory with their own kinds. -/
def entries (p : Path) : IO (List (Text × FileKind)) := do
  let found ← (System.mkFilePath [name p]).readDir
  found.toList.mapM fun entry => do
    return (entry.fileName.toList, kind (← entry.path.symlinkMetadata).type)

/-- One step on the disk. -/
def perform : (op : FileOp) → IO op.Reply
  | .kindOf p => attempt do return kind (← (System.mkFilePath [name p]).metadata).type
  | .list p => attempt (entries p)
  | .read p => attempt do return (← IO.FS.readBinFile (name p)).toList
  | .remove p => attempt (IO.FS.removeFile (name p))
  | .rename p q => attempt (IO.FS.rename (name p) (name q))
  | .write p content => attempt (IO.FS.writeBinFile (name p) ⟨content.toArray⟩)

/-- A file program run on the disk. -/
def run {α : Type} : FileProgram α → IO α
  | .done a => return a
  | .step op next => do run (next (← perform op))

end LicenseHeader.Disk

namespace LicenseHeader

/-- The help text. -/
def helpText : String :=
  "Usage: headnote [OPTIONS] <COMMAND>\n\nCommands: " ++
    ", ".intercalate (CommandName.all.map CommandName.word) ++ "\nOptions: " ++
    ", ".intercalate (OptionName.shared.map fun option => "--" ++ option.word)

/-- What is printed for a command line that is not carried out. -/
def stopText : Stop → String
  | .showHelp | .nothingGiven => helpText
  | .showVersion => versionLine
  | .noCommand => "error: a command is required"
  | .unknownCommand word => s!"error: unrecognized command '{String.ofList word}'"
  | .unknownArgument arg => s!"error: unexpected argument '{String.ofList arg}'"
  | .missingValue option => s!"error: a value is required for '--{option.word}'"
  | .badNumber option value =>
    s!"error: invalid value '{String.ofList value}' for '--{option.word}'"
  | .unwantedValue option value =>
    s!"error: unexpected value '{String.ofList value}' for '--{option.word}'"
  | .repeated option => s!"error: '--{option.word}' cannot be used multiple times"
  | .missingOption option => s!"error: '--{option.word}' is required"

/-- The present time as a timestamp. -/
def now : IO String := do
  return (Std.Time.DateTime.ofTimestamp (← Std.Time.Timestamp.now) .UTC).toISO8601String

/-- Carrying out a command line on the disk. -/
def carryOut (i : Invocation) : IO UInt32 := do
  let start ← now
  let started ← IO.monoNanosNow
  let work ← Disk.run i.scan
  let times : RunTimes := ⟨start, ← now, (← IO.monoNanosNow) - started⟩
  let result ← Disk.run (i.report times work)
  for warning in result.warnings do IO.eprintln s!"[WARN  headnote] {warning}"
  for line in result.output do IO.println line
  for line in result.errors do IO.eprintln line
  return result.exitCode.toUInt32

end LicenseHeader

/-- The program. -/
def main (args : List String) : IO UInt32 := do
  match LicenseHeader.Invocation.ofArguments (args.map String.toList) with
  | .ok i => LicenseHeader.carryOut i
  | .error stop =>
    if stop.exitCode = 0 then IO.println (LicenseHeader.stopText stop)
    else IO.eprintln (LicenseHeader.stopText stop)
    return stop.exitCode.toUInt32
