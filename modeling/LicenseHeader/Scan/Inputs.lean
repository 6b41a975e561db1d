import LicenseHeader.License.Comparison
import LicenseHeader.Language.Basic
import LicenseHeader.FileTree.Program
import LicenseHeader.Path.Exclude

/-!
# Files that a run reads beforehand

Two files steer a run and are not part of what is scanned: the reference license
and the list of exclude patterns.
-/

namespace LicenseHeader

/-- Why such a file cannot be used. -/
inductive InputError where
  | unreadableLicense (path : Path) (cause : FileError)
  /-- The license file holds no license. -/
  | invalidLicense (path : Path) (cause : ReferenceError)
  | unreadableExcludes (path : Path) (cause : FileError)
deriving DecidableEq, Repr

namespace InputError

/-- The wording of an error. -/
def message : InputError → String
  | unreadableLicense path cause =>
    s!"Could not read license file {String.ofList path}: {cause.message}"
  | invalidLicense path cause => s!"Invalid license file {String.ofList path}: {cause.message}"
  | unreadableExcludes path cause =>
    s!"Could not read excludes file {String.ofList path}: {cause.message}"

end InputError

namespace FileProgram

/-- **The reference license in a file**, read under the grammar that a tag names. -/
def loadLicense (p : Path) (tag : String) :
    FileProgram (Except InputError ReferenceLicense) := do
  match ← readText p with
  | .error e => return .error (.unreadableLicense p e)
  | .ok text =>
    match ReferenceLicense.ofText (grammarOfTag tag) text with
    | .error e => return .error (.invalidLicense p e)
    | .ok reference => return .ok reference

/-- The exclude patterns listed in a file. -/
def loadExcludes (p : Path) : FileProgram (Except InputError (List Text)) := do
  match ← readText p with
  | .error e => return .error (.unreadableExcludes p e)
  | .ok text => return .ok (Exclude.ofFile text)

end FileProgram

end LicenseHeader
