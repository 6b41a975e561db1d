import LicenseHeader.FileTree.Program

/-!
# Saving a file behind a backup

A file is replaced in four steps: a backup left over from earlier is removed, the
file is renamed to its backup, the new content is written, and the backup is
removed. If writing fails, what was written is removed and the backup renamed
back.
-/

namespace LicenseHeader

/-- Why a file was not saved. -/
inductive SaveError where
  /-- An old backup is in the way. -/
  | staleBackup (backup : Path) (cause : FileError)
  /-- The file could not be renamed to its backup. -/
  | noBackup (backup : Path) (cause : FileError)
  /-- The content could not be written; the file is back in place. -/
  | restored (cause : FileError)
  /-- The content could not be written, and the file is still under its backup. -/
  | notRestored (backup : Path) (cause : FileError)
  /-- The content is written, but the backup is still there. -/
  | backupLeft (backup : Path) (cause : FileError)
deriving DecidableEq, Repr

namespace SaveError

/-- The wording of an error. -/
def message : SaveError → String
  | staleBackup backup cause =>
    s!"Could not remove old backup {String.ofList backup}: {cause.message}"
  | noBackup backup cause => s!"Could not create backup {String.ofList backup}: {cause.message}"
  | restored cause => s!"Could not write file, restored backup: {cause.message}"
  | notRestored backup cause =>
    s!"Could not write file and could not restore backup {String.ofList backup}: {cause.message}"
  | backupLeft backup cause => s!"Could not remove backup {String.ofList backup}: {cause.message}"

end SaveError

namespace FileProgram

/-- Making room for a backup: one that is there already is removed. -/
def clearBackup (p : Path) : FileProgram (Except SaveError Unit) := do
  match ← remove (Path.backup p) with
  | .ok () | .error .notFound => return .ok ()
  | .error e => return .error (.staleBackup (Path.backup p) e)

/-- Taking back a failed write: the backup is put in the place of the file. -/
def restore (p : Path) (cause : FileError) : FileProgram SaveError := do
  let _ ← remove p
  match ← rename (Path.backup p) p with
  | .ok () => return .restored cause
  | .error e => return .notRestored (Path.backup p) e

/-- Writing new content while the old one is in the backup. -/
def writeOver (p : Path) (content : Text) : FileProgram (Except SaveError Unit) := do
  match ← write p (Utf8.encode content) with
  | .error e => return .error (← restore p e)
  | .ok () =>
    match ← remove (Path.backup p) with
    | .ok () => return .ok ()
    | .error e => return .error (.backupLeft (Path.backup p) e)

/-- **Replacing the content of a file.** -/
def save (p : Path) (content : Text) : FileProgram (Except SaveError Unit) := do
  match ← clearBackup p with
  | .error e => return .error e
  | .ok () =>
    match ← rename p (Path.backup p) with
    | .error e => return .error (.noBackup (Path.backup p) e)
    | .ok () => writeOver p content

end FileProgram

end LicenseHeader
