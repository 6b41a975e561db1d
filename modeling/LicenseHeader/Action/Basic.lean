import LicenseHeader.Action.Layout
import LicenseHeader.Action.Relicense

/-!
# The actions

Eight things can be done with each file. Three only report, the others may give
the file a new text. `Action.apply` is the whole of it: a function of the file,
with nothing read or written.
-/

namespace LicenseHeader

/-- **What to do with each file.** -/
inductive Action where
  /-- Say which language it is. -/
  | describe
  /-- Say which license it has. -/
  | list
  /-- Compare its license with a reference. -/
  | check (reference : ReferenceLicense)
  /-- Give it the reference as its license. -/
  | relicense (reference : ReferenceLicense) (mode : RelicenseMode)
  /-- Bring its comments into the canonical layout. -/
  | reformat
  /-- Remove blank lines at the top and blanks at the ends of lines. -/
  | stripBlank
  /-- Put the head of a Java file in order. -/
  | javaTop (licenseOnTop : Bool)
  /-- Put the XML declaration on the first line. -/
  | xmlTop

namespace Action

/-- The name of an action. -/
def name : Action → String
  | describe => "describe"
  | list => "list"
  | check _ => "check"
  | relicense _ _ => "relicense"
  | reformat => "reformat"
  | stripBlank => "strip-blank"
  | javaTop _ => "java-top"
  | xmlTop => "xml-top"

/-- Whether the action is only for files whose language has comments. -/
def requiresComments : Action → Bool
  | describe => false
  | _ => true

/-- Whether the action looks at the text of a file. -/
def readsContent : Action → Bool
  | describe => false
  | _ => true

/-- **What the action makes of a file.** The two that are about the head of a file
leave other languages alone. -/
def apply : Action → SourceFile → Except ActionError Outcome
  | describe, f => .ok { findings := [.fileType f.language] }
  | list, f => .ok { findings := f.licenseFindings }
  | check reference, f => .ok { findings := f.deviationFindings reference }
  | relicense reference mode, f => .ok (f.relicensed reference mode)
  | reformat, f => .ok (.relaid f.text f.document.render)
  | stripBlank, f => .ok (.relaid f.text (Layout.stripBlank f.text))
  | javaTop licenseOnTop, f =>
    if f.language = some .java then
      (Layout.javaHead licenseOnTop f.document).map fun d => .relaid f.text d.render
    else .ok .nothing
  | xmlTop, f =>
    if f.language = some .xml ∨ f.language = some .jelly then
      .ok (.relaid f.text (Layout.xmlHead f.document).render)
    else .ok .nothing

end Action

end LicenseHeader
