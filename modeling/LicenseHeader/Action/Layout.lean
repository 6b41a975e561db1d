import LicenseHeader.Action.Outcome
import LicenseHeader.License.Verdict

/-!
# Changing the layout of a file

Four rearrangements of a text:

* `Layout.stripBlank` removes blank lines at the top and blanks at the end of
  every line;
* re-rendering a document (`Document.render`) brings its comments into the
  canonical layout;
* `Layout.javaHead` puts the head of a Java file in the order package line,
  license, imports, or with the license above the package line;
* `Layout.xmlHead` puts the XML declaration on the first line.
-/

namespace LicenseHeader.Layout

/-! ## Blank lines -/

/-- **A text without blank lines at the top and without blanks at the end of its
lines.** Each line that is left ends with a newline. -/
def stripBlank (text : Text) : Text :=
  Text.unlines (((Text.lines text).map Text.trimEnd).dropWhile List.isEmpty)

/-! ## The head of a Java file -/

/-- Whether a line starts with a keyword and a blank. -/
def startsWithKeyword (keyword : String) (line : Text) : Bool :=
  match Text.after? keyword.toList line with
  | some (c :: _) => isSpace c
  | _ => false

/-- Whether a line is a package declaration. -/
def isPackage (line : Text) : Bool := startsWithKeyword "package" line

/-- Whether a line is an import. -/
def isImport (line : Text) : Bool := startsWithKeyword "import" line

/-- Whether a line is a line comment. -/
def isLineComment (line : Text) : Bool := (Text.after? "//".toList (Text.trimStart line)).isSome

/-- How far the reader of a Java file has come. -/
inductive JavaStage where
  /-- No import yet. -/
  | seeking
  /-- Among the imports. -/
  | importing
  /-- Behind the imports. -/
  | body
deriving DecidableEq, Repr

namespace JavaStage

/-- The stage after a line that is not a package declaration, and whether the line
is kept: blank lines before the first import are not. -/
def next : JavaStage → Text → Except ActionError (JavaStage × Bool)
  | seeking, line =>
    if Text.isBlank line then .ok (seeking, false)
    else if isImport line then .ok (importing, true)
    else if isLineComment line then .error (.strangeLine line)
    else .ok (body, true)
  | importing, line =>
    if Text.isBlank line || isLineComment line || isImport line then .ok (importing, true)
    else .ok (body, true)
  | body, _ => .ok (body, true)

/-- The lines of a code run that are kept, and the stage after them. Package
declarations are not kept. -/
def keep : JavaStage → List Text → Except ActionError (JavaStage × List Text)
  | stage, [] => .ok (stage, [])
  | stage, line :: rest =>
    if isPackage line then keep stage rest
    else do
      let (stage, kept) ← stage.next line
      let (stage, more) ← keep stage rest
      return (stage, if kept then line :: more else more)

end JavaStage

/-- The segments below the head: code lines are gathered in `pending` until a
comment, the end of the imports or the end of the file sets them down. What comes
after the code run in which the imports end is left as it is. -/
def belowHead : JavaStage → (pending : List Text) → List Segment →
    Except ActionError (List Segment)
  | _, pending, [] => .ok (Segment.code { lines := pending }).settle
  | stage, pending, .comment b :: rest => do
    let more ← belowHead stage [] rest
    return (Segment.code { lines := pending }).settle ++ (Segment.comment b).settle ++ more
  | stage, pending, .code r :: rest => do
    let (stage, kept) ← stage.keep r.lines
    if stage = .body then
      return (Segment.code { lines := pending ++ kept }).settle ++ rest.flatMap Segment.settle
    else belowHead stage (pending ++ kept) rest

/-- The package declaration with an empty line behind it, if there is one. -/
def packageLines (d : Document) : List Text :=
  match d.codeLines.find? isPackage with
  | some line => [line, []]
  | none => []

/-- **A Java file with its head in order**: package line, license, imports; or
license, package line, imports. The license is the first comment block, which
must look like one. -/
def javaHead (licenseOnTop : Bool) (d : Document) : Except ActionError Document := do
  match Document.aroundComment? d.segments with
  | none => throw .noCommentBlock
  | some (before, block, behind) =>
    let v := Verdict.ofComment block
    if !v.isLicense && !v.isCopyright then throw .notLicenseBlock
    let license := (Segment.comment block).settle
    let head :=
      if licenseOnTop then
        license ++ (Segment.code { lines := [] :: packageLines d }).settle
      else (Segment.code { lines := packageLines d }).settle ++ license
    let below ← belowHead .seeking (if licenseOnTop then [] else [[]]) (before ++ behind)
    return { d with segments := head ++ below }

/-! ## The head of an XML file -/

/-- Whether a line is an XML declaration. -/
def isXmlDeclaration (line : Text) : Bool := startsWithKeyword "<?xml" (Text.trimStart line)

/-- The declaration a file gets that has none. -/
def defaultXmlDeclaration : Text := "<?xml version=\"1.0\" encoding=\"UTF-8\"?>".toList

/-- The declaration of a file. Only the first code run that is not all blank is
searched. -/
def xmlDeclaration (d : Document) : Text :=
  let runs := d.segments.filterMap Segment.code?
  let first? := runs.find? fun r : CodeRun => !r.lines.all Text.isBlank
  (first?.bind fun r => r.lines.find? isXmlDeclaration).getD defaultXmlDeclaration

/-- A segment without the declarations in it. -/
def withoutXmlDeclarations : Segment → Segment
  | .comment b => .comment b
  | .code r => .code { lines := r.lines.filter fun line => !isXmlDeclaration line }

/-- **An XML file with its declaration, and no other, on top.** -/
def xmlHead (d : Document) : Document :=
  { d with
    segments := (Segment.code { lines := [xmlDeclaration d] }).settle ++
      d.segments.flatMap fun s => (withoutXmlDeclarations s).settle }

end LicenseHeader.Layout
