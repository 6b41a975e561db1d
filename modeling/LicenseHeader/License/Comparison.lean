import LicenseHeader.Document.Split

/-!
# Comparing with a reference license

A reference license is a comment block with content, usually read from a plain
text. A candidate is compared with it line by line: each line of the reference
must occur in the candidate's line at the same position, with nothing but blanks
around it. Every deviation is reported; if already the numbers of lines differ,
that alone is, since positions no longer correspond.
-/

namespace LicenseHeader

/-- **A way in which a block differs from the reference.** Lines count from one. -/
inductive Deviation where
  /-- The numbers of lines differ. -/
  | lineCount (found expected : Nat)
  /-- The reference line does not occur. -/
  | mismatch (line : Nat)
  /-- There is text before the reference line. -/
  | leadingText (line : Nat) (text : Text)
  /-- There is text after the reference line. -/
  | trailingText (line : Nat) (text : Text)
deriving DecidableEq, Repr

namespace Deviation

/-- The wording of a deviation. -/
def message : Deviation → String
  | lineCount found expected => s!"line numbers don't match: {found} vs. {expected} lines"
  | mismatch line => s!"line {line} does not match"
  | leadingText line text => s!"line {line} has leading text: {String.ofList text}"
  | trailingText line text => s!"line {line} has trailing text: {String.ofList text}"

/-- The deviations of one line, judged at the first occurrence of the expected
text. -/
def ofLine (line : Nat) (expected found : Text) : List Deviation :=
  match Text.cut? expected found with
  | none => [mismatch line]
  | some (before, behind) =>
    (if Text.isBlank before then [] else [leadingText line before]) ++
      (if Text.isBlank behind then [] else [trailingText line behind])

/-- The deviations of lines in step, the first of them being number `line`. -/
def ofLines : (line : Nat) → (expected found : List Text) → List Deviation
  | line, e :: expected, f :: found => ofLine line e f ++ ofLines (line + 1) expected found
  | _, _, _ => []

/-- **All deviations of a candidate from a reference.** -/
def between (reference candidate : List Text) : List Deviation :=
  if reference.length = candidate.length then ofLines 1 reference candidate
  else [lineCount candidate.length reference.length]

end Deviation

/-- **A reference license**: a comment block that has content. -/
structure ReferenceLicense where
  /-- The block as it was read. -/
  comment : CommentBlock
  /-- It has content. -/
  nonempty : comment.lines ≠ []

/-- Why a text is no reference license. -/
inductive ReferenceError where
  /-- It has no comment block, or one without content. -/
  | empty
deriving DecidableEq, Repr

namespace ReferenceError

/-- The wording of the error. -/
def message : ReferenceError → String
  | empty => "License file is empty"

end ReferenceError

namespace ReferenceLicense

/-- The reference license in a text, read under a grammar. -/
def ofText (g : Grammar) (text : Text) : Except ReferenceError ReferenceLicense :=
  let block := CommentBlock.ofLines g (Text.rawLines text)
  if h : block.lines = [] then .error .empty else .ok ⟨block, h⟩

/-- The deviations of a comment block from the reference. -/
def deviations (r : ReferenceLicense) (candidate : CommentBlock) : List Deviation :=
  Deviation.between r.comment.lines candidate.lines

end ReferenceLicense

end LicenseHeader
