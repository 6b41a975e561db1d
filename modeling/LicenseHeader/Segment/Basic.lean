import LicenseHeader.Segment.Comment

/-!
# Code runs and segments

What is not comment is code: a run of lines kept as they stand. A run can be
asked to ignore blank lines at its two ends; the leading ones are then skipped as
they come in, the trailing ones dropped when the run is complete. A segment is a
comment block or a code run.
-/

namespace LicenseHeader

/-- **A run of code lines**, without their terminators. -/
structure CodeRun where
  /-- The lines in order. -/
  lines : List Text := []
  /-- Whether blank lines at the two ends are left out. -/
  ignoresBlankEnds : Bool := false
deriving DecidableEq, Repr

namespace CodeRun

/-- One more line; a blank one is skipped at the start of a run that ignores
blank ends. -/
def push (r : CodeRun) (line : Text) : CodeRun :=
  if r.ignoresBlankEnds && r.lines.isEmpty && Text.isBlank line then r
  else { r with lines := r.lines ++ [line] }

/-- The run once it is complete. -/
def finish (r : CodeRun) : CodeRun :=
  if r.ignoresBlankEnds then
    { r with lines := (r.lines.reverse.dropWhile Text.isBlank).reverse }
  else r

/-- The run as text, each line with its newline. -/
def render (r : CodeRun) : Text := Text.unlines r.lines

end CodeRun

/-- **A piece of a file**: a comment block or a run of code. -/
inductive Segment where
  | comment (block : CommentBlock)
  | code (run : CodeRun)
deriving DecidableEq

namespace Segment

/-- The segment once it is complete. -/
def finish : Segment → Segment
  | comment b => comment b
  | code r => code r.finish

/-- Whether the segment holds nothing. -/
def isEmpty : Segment → Bool
  | comment b => b.isEmpty
  | code r => r.lines.isEmpty

/-- The comment block, where the segment is one. -/
def comment? : Segment → Option CommentBlock
  | comment b => some b
  | code _ => none

/-- The code run, where the segment is one. -/
def code? : Segment → Option CodeRun
  | comment _ => none
  | code r => some r

/-- The lines of the segment. -/
def lines : Segment → List Text
  | comment b => b.lines
  | code r => r.lines

/-- The segment as text. -/
def render : Segment → Text
  | comment b => b.render
  | code r => r.render

/-- The segment as a part of a document: complete, and nothing at all if it holds
nothing. -/
def settle (s : Segment) : List Segment := if s.finish.isEmpty then [] else [s.finish]

end Segment

end LicenseHeader
