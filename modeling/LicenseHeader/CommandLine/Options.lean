import LicenseHeader.Path.Basic

/-!
# Commands and options

The command line names a command, and gives options before and after it. This
module says which there are, how they are spelled and which command takes which;
`LicenseHeader.CommandLine.Parse` reads them.

Most options apply to every command and may stand on either side of it. `Settings`
holds what was given on one side, and `Invocation` what the two sides make
together: where both give an option, the one after the command counts.
-/

namespace LicenseHeader

/-- The commands, one for each action. -/
inductive CommandName where
  | describe | list | check | relicense | reformat | stripBlank | javaTop | xmlTop
deriving DecidableEq, Repr

namespace CommandName

/-- Every command. -/
def all : List CommandName :=
  [describe, list, check, relicense, reformat, stripBlank, javaTop, xmlTop]

/-- The word for a command. -/
def word : CommandName → String
  | describe => "describe"
  | list => "list"
  | check => "check"
  | relicense => "relicense"
  | reformat => "reformat"
  | stripBlank => "strip-blank"
  | javaTop => "java-top"
  | xmlTop => "xml-top"

/-- The command with a given word. -/
def ofWord? (word : Text) : Option CommandName := all.find? fun c => c.word.toList == word

end CommandName

/-- The options. -/
inductive OptionName where
  | dir | maxDepth | exclude | excludesFile | output | verbose | quiet
  | licenseFile | licenseType | existingOnly | newOnly | licenseOnTop
  | help | version
deriving DecidableEq, Repr

namespace OptionName

/-- The word for an option, written after two hyphens. -/
def word : OptionName → String
  | dir => "dir"
  | maxDepth => "max-depth"
  | exclude => "exclude"
  | excludesFile => "excludes-file"
  | output => "output"
  | verbose => "verbose"
  | quiet => "quiet"
  | licenseFile => "license-file"
  | licenseType => "license-type"
  | existingOnly => "existing-only"
  | newOnly => "new-only"
  | licenseOnTop => "license-on-top"
  | help => "help"
  | version => "version"

/-- The letter for an option, written after one hyphen. -/
def letter? : OptionName → Option Char
  | dir => some 'd'
  | exclude => some 'x'
  | output => some 'o'
  | verbose => some 'v'
  | quiet => some 'q'
  | licenseFile => some 'f'
  | licenseType => some 't'
  | existingOnly => some 'e'
  | newOnly => some 'n'
  | licenseOnTop => some 'l'
  | help => some 'h'
  | version => some 'V'
  | maxDepth | excludesFile => none

/-- Whether an option comes with a value. -/
def takesValue : OptionName → Bool
  | dir | maxDepth | exclude | excludesFile | output | licenseFile | licenseType => true
  | _ => false

/-- The options that apply to every command. -/
def shared : List OptionName :=
  [dir, maxDepth, exclude, excludesFile, output, verbose, quiet, help]

/-- The options of one command alone. -/
def ofCommand : CommandName → List OptionName
  | .check => [licenseFile, licenseType]
  | .relicense => [licenseFile, licenseType, existingOnly, newOnly]
  | .javaTop => [licenseOnTop]
  | _ => []

/-- The options that may stand after a command, or before any. -/
def allowed : Option CommandName → List OptionName
  | none => version :: shared
  | some c => ofCommand c ++ shared

end OptionName

/-- **What to do**: a command with its own options. -/
inductive Command where
  | describe
  | list
  | check (licenseFile : Path) (licenseType : String)
  | relicense (licenseFile : Path) (licenseType : String) (existingOnly newOnly : Bool)
  | reformat
  | stripBlank
  | javaTop (licenseOnTop : Bool)
  | xmlTop
deriving DecidableEq, Repr

/-- The options given on one side of the command. -/
structure Settings where
  dir : Option Path := none
  maxDepth : Option Nat := none
  exclude : Option (List Text) := none
  excludesFile : Option Path := none
  output : Option Path := none
  /-- How many times more output was asked for. -/
  verbose : Option Nat := none
  quiet : Bool := false
  licenseFile : Option Path := none
  licenseType : Option Text := none
  existingOnly : Bool := false
  newOnly : Bool := false
  licenseOnTop : Bool := false
deriving DecidableEq, Repr

/-- **All that a command line says.** -/
structure Invocation where
  command : Command
  /-- The directory or file to work on. -/
  dir : Path := ['.']
  /-- How deep to go into directories. -/
  maxDepth : Nat := 50
  /-- Further exclude patterns. -/
  exclude : List Text := []
  /-- A file with further exclude patterns. -/
  excludesFile : Option Path := none
  /-- Where to write a report. -/
  output : Option Path := none
  verbose : Nat := 0
  quiet : Bool := false
deriving DecidableEq, Repr

/-- **Why a command line is not carried out.** -/
inductive Stop where
  /-- Help was asked for. -/
  | showHelp
  /-- The version was asked for. -/
  | showVersion
  /-- There are no arguments, or none that say anything. -/
  | nothingGiven
  /-- There are options but no command. -/
  | noCommand
  | unknownCommand (word : Text)
  | unknownArgument (arg : Text)
  /-- An option has no value, or an empty one where that makes no sense. -/
  | missingValue (option : OptionName)
  /-- A value is not a number. -/
  | badNumber (option : OptionName) (value : Text)
  /-- An option has a value and takes none. -/
  | unwantedValue (option : OptionName) (value : Text)
  /-- An option is given twice. -/
  | repeated (option : OptionName)
  /-- The command needs an option that is not given. -/
  | missingOption (option : OptionName)
deriving DecidableEq, Repr

namespace Stop

/-- The exit code of a run that goes no further: asking for help or for the version
is no mistake. -/
def exitCode : Stop → Nat
  | showHelp | showVersion => 0
  | _ => 2

end Stop

end LicenseHeader
