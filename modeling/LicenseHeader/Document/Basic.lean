import LicenseHeader.Segment.Basic

/-!
# Documents

A document is a file in segments. It remembers whether the file lacked a final
newline, so that an unedited document can be written back as it was.
-/

namespace LicenseHeader

/-- **A file in segments.** -/
structure Document where
  /-- The segments in order. -/
  segments : List Segment := []
  /-- Whether the text ended without a newline. -/
  missingFinalNewline : Bool := false
deriving DecidableEq

namespace Document

/-- The document with one more segment, unless that holds nothing. -/
def push (d : Document) (s : Segment) : Document :=
  { d with segments := d.segments ++ s.settle }

/-- The document with a segment put in at `index`, which may be the end. A segment
that holds nothing is ignored at any index; otherwise there must be such a place. -/
def insert? (d : Document) (index : Nat) (s : Segment) : Option Document :=
  if s.settle.isEmpty then some d
  else if index ≤ d.segments.length then
    some { d with segments := d.segments.take index ++ s.settle ++ d.segments.drop index }
  else none

/-- The segment at `index` and the document with another one in its place. The new
one is taken as it is. -/
def replace? (d : Document) (index : Nat) (s : Segment) : Option (Segment × Document) :=
  d.segments[index]?.map fun old => (old, { d with segments := d.segments.set index s })

/-- The index of the first comment block. -/
def firstCommentIndex? (d : Document) : Option Nat :=
  d.segments.findIdx? fun s => s.comment?.isSome

/-- The first comment block. -/
def firstComment? (d : Document) : Option CommentBlock := d.segments.findSome? Segment.comment?

/-- The segments before the first comment block, the block, and those after it. -/
def aroundComment? : List Segment → Option (List Segment × CommentBlock × List Segment)
  | [] => none
  | .comment b :: rest => some ([], b, rest)
  | .code r :: rest =>
    (aroundComment? rest).map fun (before, b, behind) => (.code r :: before, b, behind)

/-- The lines of all code runs in order. -/
def codeLines (d : Document) : List Text :=
  (d.segments.filterMap Segment.code?).flatMap CodeRun.lines

/-- **The document as text**: its segments one after the other, without the last
newline if the file had none. -/
def render (d : Document) : Text :=
  let text := d.segments.flatMap Segment.render
  if d.missingFinalNewline then Text.dropFinal '\n' text else text

end Document

end LicenseHeader
