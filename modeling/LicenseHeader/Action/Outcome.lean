import LicenseHeader.Language.Basic
import LicenseHeader.License.Comparison

/-!
# What an action gets and gives

An action is handed one file and gives back what it noticed and, if the file is to
change, its new text. Reading and saving are not its business.
-/

namespace LicenseHeader

/-- **Something an action noticed about a file, or did to it.** -/
inductive Finding where
  /-- The language of the file. -/
  | fileType (language : Option Language)
  | noCommentBlock
  | noCopyright
  | noLicense
  /-- It speaks of a license that is not a known one. -/
  | unknownLicense
  | licensed (id : String)
  | deviation (d : Deviation)
  | licenseAdded
  | licenseReplaced
  | reformatted
deriving DecidableEq, Repr

namespace Finding

/-- The wording of a finding. -/
def message : Finding → String
  | fileType (some language) => s!"is a {language.tag} file"
  | fileType none => "unknown type"
  | noCommentBlock => "No comment block found! (No copyright notice either!)"
  | noCopyright => "Has no copyright"
  | noLicense => "Has no license"
  | unknownLicense => "License Type is unknown"
  | licensed id => s!"Licensed under {id}"
  | deviation d => d.message
  | licenseAdded => "Added License"
  | licenseReplaced => "Replaced License"
  | reformatted => "File reformatted"

/-- Whether a finding is worth printing only when more output is asked for. -/
def isVerboseOnly : Finding → Bool
  | fileType (some _) => true
  | _ => false

end Finding

/-- Why an action cannot be done. -/
inductive ActionError where
  /-- The file has no comment block. -/
  | noCommentBlock
  /-- Its first comment block claims no copyright and speaks of no license. -/
  | notLicenseBlock
  /-- A line comment stands before the first import. -/
  | strangeLine (line : Text)
  /-- Relicensing was asked for neither existing nor new license blocks. -/
  | nothingSelected
deriving DecidableEq, Repr

namespace ActionError

/-- The wording of an error. -/
def message : ActionError → String
  | noCommentBlock => "No comment block found"
  | notLicenseBlock => "First comment block is not the license/copyright block"
  | strangeLine line => s!"Strange line found between imports: {String.ofList line}"
  | nothingSelected => "No action has been selected: choose existing and/or new files"

end ActionError

/-- **A file as an action sees it.** -/
structure SourceFile where
  /-- Its language, if known. -/
  language : Option Language
  /-- The syntax of its comments. -/
  grammar : Grammar
  /-- Its text; empty for an action that does not read it. -/
  text : Text

namespace SourceFile

/-- The file in segments. -/
def document (f : SourceFile) : Document := .ofText f.grammar f.text

end SourceFile

/-- **What an action gives back.** -/
structure Outcome where
  /-- What it noticed. -/
  findings : List Finding := []
  /-- The new text; the file stays as it is without one. -/
  newText : Option Text := none
deriving DecidableEq, Repr

namespace Outcome

/-- Nothing noticed, nothing to change. -/
def nothing : Outcome := {}

/-- A file in a new layout, if that differs from the old one. -/
def relaid (old new : Text) : Outcome :=
  if new = old then nothing else ⟨[.reformatted], some new⟩

/-- There is nothing to do for a file that is in its new layout, and only for that. -/
theorem relaid_eq_nothing_iff {old new : Text} : relaid old new = nothing ↔ new = old := by
  unfold relaid
  split
  · exact iff_of_true rfl ‹_›
  · exact iff_of_false (fun h => by cases h) ‹_›

end Outcome

end LicenseHeader
