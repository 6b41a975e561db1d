import LicenseHeader.Action.Basic
import LicenseHeader.Language.FileName
import LicenseHeader.Scan.Save

/-!
# An action on one file

`FileProgram.processFile` does an action on the file at a path and reports on it.
The language comes from the file name. A file that is not for the action, because
its language has no comments, gets no report. A file that does not look like text
gets one without findings. Whatever fails ends up in the report, which then has no
findings.
-/

namespace LicenseHeader

/-- Why a file could not be dealt with. -/
inductive ScanError where
  | unreadable (cause : FileError)
  /-- Its bytes are not a text. -/
  | notText (cause : Utf8Error)
  /-- The action cannot be done on it. -/
  | refused (cause : ActionError)
  | unsaved (cause : SaveError)
deriving DecidableEq, Repr

namespace ScanError

/-- The wording of an error. -/
def message : ScanError → String
  | unreadable cause => cause.message
  | notText cause => cause.message
  | refused cause => cause.message
  | unsaved cause => cause.message

end ScanError

/-- **What came of an action on one file.** -/
structure FileReport where
  path : Path
  language : Option Language
  findings : List Finding := []
  /-- Whether the file has a new text. -/
  modified : Bool := false
  /-- What went wrong. -/
  errors : List ScanError := []
deriving DecidableEq, Repr

/-! ## Which bytes look like text -/

/-- The marks at the start of files that are not plain UTF-8: byte-order marks of
all kinds, and the signatures of two binary formats. -/
def foreignMarks : List Bytes := [
  [0xEF, 0xBB, 0xBF], [0x00, 0x00, 0xFE, 0xFF], [0xFF, 0xFE, 0x00, 0x00], [0xFE, 0xFF],
  [0xFF, 0xFE], [0x25, 0x50, 0x44, 0x46], [0x89, 0x50, 0x4E, 0x47]]

/-- **Whether bytes look like plain UTF-8 text**: no foreign mark, and no zero
among the first 1024 bytes. -/
def looksLikeText (content : Bytes) : Bool :=
  !(foreignMarks.any fun mark => mark.isPrefixOf content) && !(content.take 1024).contains 0

namespace FileProgram

/-- The text an action gets to see: none for an action that does not read, and
`none` for a file that is not looked at. -/
def textFor (action : Action) (p : Path) : FileProgram (Except ScanError (Option Text)) := do
  if action.readsContent then
    match ← read p with
    | .error e => return .error (.unreadable e)
    | .ok content =>
      if looksLikeText content then
        match Utf8.decode content with
        | .ok text => return .ok (some text)
        | .error e => return .error (.notText e)
      else return .ok none
  else return .ok (some [])

/-- What an outcome does to the file at a path: a new text is saved. The answer is
whether there was one. -/
def carryOut (p : Path) (outcome : Outcome) : FileProgram (Except ScanError Bool) := do
  match outcome.newText with
  | none => return .ok false
  | some content =>
    match ← save p content with
    | .ok () => return .ok true
    | .error e => return .error (.unsaved e)

/-- The report on a file that is for the action. -/
def reportOn (action : Action) (p : Path) (language : Option Language) :
    FileProgram FileReport := do
  let report : FileReport := { path := p, language }
  match ← textFor action p with
  | .error e => return { report with errors := [e] }
  | .ok none => return report
  | .ok (some text) =>
    match action.apply ⟨language, grammarOf language, text⟩ with
    | .error e => return { report with errors := [.refused e] }
    | .ok outcome =>
      match ← carryOut p outcome with
      | .error e => return { report with errors := [e] }
      | .ok modified => return { report with findings := outcome.findings, modified }

/-- **An action on the file at a path.** -/
def processFile (action : Action) (p : Path) : FileProgram (Option FileReport) := do
  let language := Language.ofFileName? ((Path.fileName? p).getD [])
  if action.requiresComments && !(grammarOf language).hasComments then return none
  else return some (← reportOn action p language)

end FileProgram

end LicenseHeader
