import LicenseHeader.Action.Outcome
import LicenseHeader.License.Verdict

/-!
# Listing, checking and replacing the license of a file

Three actions look at the first comment block of a file: one says what license it
carries, one compares it with a reference, and one puts the reference in its
place. The last writes the reference in the comment syntax of the file. It
replaces a first block that speaks of a license and adds the reference on top of a
file whose first block does not, each only if the mode allows it.
-/

namespace LicenseHeader

/-- Which files relicensing may touch: those with a license, those without, or
both. -/
inductive RelicenseMode where
  | existing | new | both
deriving DecidableEq, Repr

namespace RelicenseMode

/-- The mode for two requests, of which there must be one. -/
def ofFlags (existing new : Bool) : Except ActionError RelicenseMode :=
  match existing, new with
  | true, true => .ok .both
  | true, false => .ok .existing
  | false, true => .ok .new
  | false, false => .error .nothingSelected

/-- Whether a license block may be replaced. -/
def replaces : RelicenseMode → Bool
  | existing | both => true
  | new => false

/-- Whether a license block may be added. -/
def adds : RelicenseMode → Bool
  | new | both => true
  | existing => false

end RelicenseMode

namespace SourceFile

/-- What the first comment block says about the license. -/
def licenseFindings (f : SourceFile) : List Finding :=
  match f.document.firstComment? with
  | none => [.noCommentBlock]
  | some block =>
    let v := Verdict.ofComment block
    (if v.isCopyright then [] else [.noCopyright]) ++
      [if v.isLicense then v.licenseId.elim .unknownLicense .licensed else .noLicense]

/-- How the first comment block deviates from a reference. -/
def deviationFindings (f : SourceFile) (reference : ReferenceLicense) : List Finding :=
  match f.document.firstComment? with
  | none => [.noCommentBlock]
  | some block => (reference.deviations block).map .deviation

/-- The first comment block with its neighbors, if it speaks of a license. -/
def licenseBlock? (f : SourceFile) : Option (List Segment × CommentBlock × List Segment) :=
  (Document.aroundComment? f.document.segments).filter fun (_, block, _) =>
    (Verdict.ofComment block).isLicense

/-- **The file with the reference as its license.** A license block that would be
written the same way is left alone. -/
def relicensed (f : SourceFile) (reference : ReferenceLicense) (mode : RelicenseMode) : Outcome :=
  let replacement := reference.comment.retarget f.grammar
  match f.licenseBlock? with
  | some (before, block, behind) =>
    if mode.replaces && block.render != replacement.render then
      let d := { f.document with segments := before ++ Segment.comment replacement :: behind }
      ⟨[.licenseReplaced], some d.render⟩
    else .nothing
  | none =>
    if mode.adds then
      let d := { f.document with
        segments := (Segment.comment replacement).settle ++ f.document.segments }
      ⟨[.licenseAdded], some d.render⟩
    else .nothing

end SourceFile

end LicenseHeader
