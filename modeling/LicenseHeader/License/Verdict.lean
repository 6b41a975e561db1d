import LicenseHeader.License.Signature
import LicenseHeader.Segment.Comment

/-!
# What a comment says about its license

`Verdict.ofText` reads a text for two words, whether it claims a copyright and
whether it speaks of a license at all, and, only if it does the latter, for the
signature of a known license. A comment block is read as its lines joined by
single spaces.
-/

namespace LicenseHeader

/-- **What was found in a text.** -/
structure Verdict where
  /-- Whether it claims a copyright. -/
  isCopyright : Bool
  /-- Whether it speaks of a license. -/
  isLicense : Bool
  /-- The license, if it is a known one. -/
  licenseId : Option String := none
  /-- The family of that license. -/
  family : LicenseFamily := .unknown
  /-- The version and the later-versions mark. -/
  flags : List LicenseFlag := []
deriving DecidableEq, Repr

namespace Verdict

/-- The word copyright. -/
def copyrightWord : Phrase := [.wordEdge, .anyCase "copyright".toList, .wordEdge]

/-- The copyright sign in letters, standing apart. -/
def copyrightSign : Phrase := [.afterBlank, .anyCase "(c)".toList, .beforeBlank]

/-- A word that starts with license, in either of its spellings. -/
def licenseWords : List Phrase :=
  [[.wordEdge, .anyCase "licence".toList], [.wordEdge, .anyCase "license".toList]]

/-- Whether a text claims a copyright. -/
def claimsCopyright (text : Text) : Bool :=
  copyrightWord.occursIn text || copyrightSign.occursIn text

/-- Whether a text speaks of a license. -/
def speaksOfLicense (text : Text) : Bool := licenseWords.any fun phrase => phrase.occursIn text

/-- The verdict with what a signature says added to it. The later-versions clause
counts only for licenses that come in such a variant. -/
def recognized (v : Verdict) (text : Text) : Recognition → Verdict
  | .unnamed => v
  | .named id none family version =>
    { v with licenseId := some id, family, flags := version.toList }
  | .named id (some laterId) family version =>
    if Signature.orLater.occursIn text then
      { v with licenseId := some laterId, family, flags := version.toList ++ [.orLater] }
    else { v with licenseId := some id, family, flags := version.toList }

/-- **The verdict on a text.** -/
def ofText (text : Text) : Verdict :=
  let v : Verdict := { isCopyright := claimsCopyright text, isLicense := speaksOfLicense text }
  if v.isLicense then
    match Signature.table.find? fun s => s.fits text with
    | some s => v.recognized text s.recognition
    | none => v
  else v

/-- **The verdict on a comment block.** -/
def ofComment (b : CommentBlock) : Verdict := ofText b.prose

/-- The verdict in words. -/
def summary (v : Verdict) : String :=
  match v.licenseId with
  | some id => id
  | none => if v.isLicense then "unknown license" else "no license"

end Verdict

end LicenseHeader
