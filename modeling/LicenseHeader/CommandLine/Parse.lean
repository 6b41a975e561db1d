import LicenseHeader.CommandLine.Options

/-!
# Reading the command line

An option is written with its word, `--dir x` or `--dir=x`, or with its letter,
`-d x`, `-dx` or `-d=x`; letters without a value may be grouped, and what follows a
letter with a value is that value. A separate value never looks like an option.
After `--` nothing is an option any more.

A separate value is checked only when the next option is met or the arguments end,
which decides which of two mistakes is reported. So the reader keeps the last
option that waits for its value, or has just got it, as *pending*, and
`Reader.settle` checks it. What stands after the command is read and checked
completely before the last option in front of the command is.
-/

namespace LicenseHeader

/-- Where the reader of one side of the command stands. -/
structure Reader where
  /-- The options read and checked. -/
  settings : Settings := {}
  /-- An option not checked yet, with its value or still waiting for it. -/
  pending : Option (OptionName × Option Text) := none
deriving DecidableEq, Repr

namespace Settings

/-- The bound that numbers stay below: two to the power of 64. -/
def numberBound : Nat := 18446744073709551616

/-- The number that a value writes: digits, with a plus sign before them or not. -/
def number? (value : Text) : Option Nat :=
  let digits := (Text.after? ['+'] value).getD value
  if digits.isEmpty || !digits.all Char.isDigit then none
  else
    let n := digits.foldl (fun n c => 10 * n + (c.toNat - '0'.toNat)) 0
    if n < numberBound then some n else none

/-- The parts of a list written with commas. -/
def commaSeparated : Text → List Text
  | [] => [[]]
  | c :: rest =>
    if c = ',' then [] :: commaSeparated rest
    else
      match commaSeparated rest with
      | [] => [[c]]
      | part :: more => (c :: part) :: more

/-- An option that may be given once. -/
def once {α : Type} (option : OptionName) (old : Option α) (new : Except Stop α) :
    Except Stop (Option α) :=
  if old.isSome then .error (.repeated option) else new.map some

/-- A flag that may be given once. -/
def flagOnce (option : OptionName) (old : Bool) : Except Stop Bool :=
  if old then .error (.repeated option) else .ok true

/-- A value that names a file or directory. -/
def pathValue (option : OptionName) (value : Text) : Except Stop Path :=
  if value.isEmpty then .error (.missingValue option) else .ok value

/-- The settings with an option added that takes a value. -/
def giveValue (s : Settings) (option : OptionName) (value : Text) : Except Stop Settings := do
  match option with
  | .dir => return { s with dir := ← once option s.dir (pathValue option value) }
  | .maxDepth =>
    let n := (number? value).elim (.error (.badNumber option value)) .ok
    return { s with maxDepth := ← once option s.maxDepth n }
  | .exclude => return { s with exclude := some (s.exclude.getD [] ++ commaSeparated value) }
  | .excludesFile =>
    return { s with excludesFile := ← once option s.excludesFile (pathValue option value) }
  | .output => return { s with output := ← once option s.output (.ok value) }
  | .licenseFile =>
    return { s with licenseFile := ← once option s.licenseFile (pathValue option value) }
  | .licenseType => return { s with licenseType := ← once option s.licenseType (.ok value) }
  | _ => throw (.unwantedValue option value)

/-- The settings with an option added that takes no value. The count of requests
for more output goes up to 255. -/
def giveFlag (s : Settings) (option : OptionName) : Except Stop Settings := do
  match option with
  | .verbose => return { s with verbose := some (min 255 (s.verbose.getD 0 + 1)) }
  | .quiet => return { s with quiet := ← flagOnce option s.quiet }
  | .existingOnly => return { s with existingOnly := ← flagOnce option s.existingOnly }
  | .newOnly => return { s with newOnly := ← flagOnce option s.newOnly }
  | .licenseOnTop => return { s with licenseOnTop := ← flagOnce option s.licenseOnTop }
  | .help => throw .showHelp
  | .version => throw .showVersion
  | _ => throw (.missingValue option)

/-- The command with the options given after it. -/
def toCommand (s : Settings) (c : CommandName) : Except Stop Command := do
  let type := s.licenseType.elim "text" String.ofList
  match c, s.licenseFile with
  | .describe, _ => return .describe
  | .list, _ => return .list
  | .check, some file => return .check file type
  | .relicense, some file => return .relicense file type s.existingOnly s.newOnly
  | .check, none | .relicense, none => throw (.missingOption .licenseFile)
  | .reformat, _ => return .reformat
  | .stripBlank, _ => return .stripBlank
  | .javaTop, _ => return .javaTop s.licenseOnTop
  | .xmlTop, _ => return .xmlTop

end Settings

namespace Reader

/-- Whether the next argument can only be a value. -/
def awaitsValue (r : Reader) : Bool := r.pending.any fun (_, value) => value.isNone

/-- The settings once the pending option is checked. -/
def settle (r : Reader) : Except Stop Settings :=
  match r.pending with
  | none => .ok r.settings
  | some (option, none) => .error (.missingValue option)
  | some (option, some value) => r.settings.giveValue option value

/-- An option that takes no value. -/
def flag (r : Reader) (option : OptionName) : Except Stop Reader := do
  return { settings := ← (← r.settle).giveFlag option }

/-- An option with its value attached. -/
def attached (r : Reader) (option : OptionName) (value : Text) : Except Stop Reader := do
  return { settings := ← (← r.settle).giveValue option value }

/-- An option whose value is to come. -/
def await (r : Reader) (option : OptionName) : Except Stop Reader := do
  return { settings := ← r.settle, pending := some (option, none) }

/-- An argument that starts with two hyphens, given without them. -/
def long (side : Option CommandName) (r : Reader) (body : Text) : Except Stop Reader := do
  let (word, value) := match Text.cut? ['='] body with
    | some (word, value) => (word, some value)
    | none => (body, none)
  match (OptionName.allowed side).find? fun option => option.word.toList == word with
  | none => throw (.unknownArgument ('-' :: '-' :: body))
  | some option =>
    match option.takesValue, value with
    | true, some value => r.attached option value
    | true, none => r.await option
    | false, some value => throw (.unwantedValue option value)
    | false, none => r.flag option

/-- An argument that starts with one hyphen, given without it: letters, of which
the first that takes a value has the rest as its value. -/
def short (side : Option CommandName) : Reader → Text → Except Stop Reader
  | r, [] => .ok r
  | r, c :: rest => do
    match (OptionName.allowed side).find? fun option => option.letter? == some c with
    | none => throw (.unknownArgument ['-', c])
    | some option =>
      if option.takesValue then
        if rest.isEmpty then r.await option
        else r.attached option ((Text.after? ['='] rest).getD rest)
      else short side (← r.flag option) rest

/-- The mistake in an argument that is neither an option nor a value. Before the
command only a command may stand there, though not after `--`. -/
def stray (side : Option CommandName) (trailing : Bool) (arg : Text) : Stop :=
  let isCommand := (CommandName.ofWord? arg).isSome || arg == "help".toList
  if side.isNone && !(trailing && isCommand) then .unknownCommand arg else .unknownArgument arg

/-- What the word help with more words after it asks for: at most one command can
be asked about. -/
def helpOn : List Text → Stop
  | [] => .showHelp
  | word :: rest =>
    if (CommandName.ofWord? word).isSome || word == "help".toList then
      match rest with
      | [] => .showHelp
      | extra :: _ => .unknownCommand extra
    else .unknownCommand word

/-- **Reading the arguments on one side of the command.** Before the command the
reading ends with it, and gives what stands after it. -/
def read (side : Option CommandName) : (trailing : Bool) → Reader → List Text →
    Except Stop (Reader × Option (CommandName × List Text))
  | _, r, [] => .ok (r, none)
  | true, _, arg :: _ => .error (stray side true arg)
  | false, r, arg :: rest => do
    if side.isNone && !r.awaitsValue && arg == "help".toList then throw (helpOn rest)
    match if side.isNone && !r.awaitsValue then CommandName.ofWord? arg else none with
    | some c => return (r, some (c, rest))
    | none =>
      match arg with
      | ['-', '-'] => read side true r rest
      | '-' :: '-' :: body => read side false (← r.long side body) rest
      | '-' :: c :: body => read side false (← short side r (c :: body)) rest
      | _ =>
        match r.pending with
        | some (option, none) =>
          read side false { r with pending := some (option, some arg) } rest
        | _ => throw (stray side false arg)

end Reader

namespace Invocation

/-- A command with the options from both sides of it: those after it count more. -/
def ofSettings (command : Command) (before behind : Settings) : Invocation where
  command
  dir := (behind.dir <|> before.dir).getD ['.']
  maxDepth := (behind.maxDepth <|> before.maxDepth).getD 50
  exclude := (behind.exclude <|> before.exclude).getD []
  excludesFile := behind.excludesFile <|> before.excludesFile
  output := behind.output <|> before.output
  verbose := (behind.verbose <|> before.verbose).getD 0
  quiet := behind.quiet || before.quiet

/-- **The invocation that arguments spell out.** -/
def ofArguments (args : List Text) : Except Stop Invocation := do
  let (front, command) ← Reader.read none false {} args
  match command with
  | none =>
    let settings ← front.settle
    throw (if settings = {} then .nothingGiven else .noCommand)
  | some (name, rest) =>
    let (back, _) ← Reader.read (some name) false {} rest
    let behind ← back.settle
    let command ← behind.toCommand name
    let before ← front.settle
    return ofSettings command before behind

end Invocation

end LicenseHeader
