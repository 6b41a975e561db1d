import LicenseHeader.Document.Basic

/-!
# Cutting a file into segments

`Document.ofLines` reads the raw lines of a file under a grammar. The reader is in
one of three places: between segments, in a run of code, or in a comment block. A
line that opens a block ends the code before it. A block ends with its closer
line, or, where the grammar has no closer, before the first line without the
leader, which is then code. What is open at the end of the file stays as it is.

`Document.segmentsFrom` is that reader as a recursion over the lines, with the
segments coming out as they are completed.
-/

namespace LicenseHeader

/-- Where a reader stands. -/
inductive Place where
  /-- Between segments. -/
  | between
  /-- In a run of code. -/
  | inCode (run : CodeRun)
  /-- In a comment block. -/
  | inComment (block : CommentBlock)

namespace Place

/-- The segment that ends where the reader stands. -/
def leave : Place → List Segment
  | between => []
  | inCode r => (Segment.code r).settle
  | inComment b => (Segment.comment b).settle

end Place

namespace Document

/-- The segments of `lines`, read under a grammar from a place on. -/
def segmentsFrom (g : Grammar) (ignoreBlankEnds : Bool) : Place → List Text → List Segment
  | place, [] => place.leave
  | .inComment b, line :: rest =>
    if g.closer.isNone then
      if g.leads line then segmentsFrom g ignoreBlankEnds (.inComment (b.push line)) rest
      else
        (Segment.comment b).settle ++
          segmentsFrom g ignoreBlankEnds
            (.inCode (CodeRun.push { ignoresBlankEnds := ignoreBlankEnds } line)) rest
    else if g.closes line then
      (Segment.comment (b.push line)).settle ++ segmentsFrom g ignoreBlankEnds .between rest
    else segmentsFrom g ignoreBlankEnds (.inComment (b.push line)) rest
  | .inCode r, line :: rest =>
    if g.opens line then
      (Segment.code r).settle ++
        segmentsFrom g ignoreBlankEnds (.inComment (CommentBlock.push { grammar := g } line)) rest
    else segmentsFrom g ignoreBlankEnds (.inCode (r.push line)) rest
  | .between, line :: rest =>
    if g.opens line then
      segmentsFrom g ignoreBlankEnds (.inComment (CommentBlock.push { grammar := g } line)) rest
    else
      segmentsFrom g ignoreBlankEnds
        (.inCode (CodeRun.push { ignoresBlankEnds := ignoreBlankEnds } line)) rest

/-- Whether raw lines end without a newline. -/
def lacksFinalNewline (raws : List Text) : Bool :=
  raws.getLast?.any fun raw => !raw.isEmpty && !Text.endsWithChar '\n' raw

/-- **The document of raw lines**, each with or without its newline. With
`ignoreBlankEnds`, blank lines at the ends of code runs are left out. -/
def ofLines (g : Grammar) (ignoreBlankEnds : Bool) (raws : List Text) : Document where
  segments := segmentsFrom g ignoreBlankEnds .between (raws.map Text.stripTerminator)
  missingFinalNewline := lacksFinalNewline raws

/-- **The document of a text.** -/
def ofText (g : Grammar) (text : Text) : Document := ofLines g false (Text.rawLines text)

end Document

end LicenseHeader
