import LicenseHeader.FileTree.Change

/-!
# Programs on files

A program on files is a tree of steps: it is done, or it asks for one step and
goes on with the answer. What is indivisible is the step, so an interleaving of
several programs is an interleaving of their steps.

`FileProgram.run` runs a program on a `FileTree`. Nothing in a program depends on
that: the same program can be run step by step on a disk.
-/

namespace LicenseHeader

/-- A step on files. -/
inductive FileOp where
  /-- Look at the kind of what a path leads to. -/
  | kindOf (p : Path)
  /-- List a directory. -/
  | list (p : Path)
  /-- Read a file. -/
  | read (p : Path)
  /-- Remove a file or a link. -/
  | remove (p : Path)
  /-- Rename the first path to the second. -/
  | rename (p q : Path)
  /-- Write a file. -/
  | write (p : Path) (content : Bytes)
deriving DecidableEq, Repr

namespace FileOp

/-- What a step answers. -/
def Reply : FileOp → Type
  | kindOf _ => Except FileError FileKind
  | list _ => Except FileError (List (Text × FileKind))
  | read _ => Except FileError Bytes
  | remove _ | rename _ _ | write _ _ => Except FileError Unit

/-- The answer of a change, and the tree after it: a failed change leaves the tree
as it is. -/
def change (t : FileTree) : Except FileError FileTree → Except FileError Unit × FileTree
  | .ok t' => (.ok (), t')
  | .error e => (.error e, t)

/-- **One step on a file tree.** -/
def perform : (op : FileOp) → FileTree → op.Reply × FileTree
  | kindOf p, t => (t.kindOf p, t)
  | list p, t => (t.list p, t)
  | read p, t => (t.read p, t)
  | remove p, t => change t (t.remove p)
  | rename p q, t => change t (t.rename p q)
  | write p content, t => change t (t.write p content)

end FileOp

/-- **A program on files.** -/
inductive FileProgram (α : Type) where
  /-- The program is done. -/
  | done (a : α)
  /-- A step, and how to go on with its answer. -/
  | step (op : FileOp) (next : op.Reply → FileProgram α)

namespace FileProgram

variable {α β : Type}

/-- One program, and then another that depends on its result. -/
def bind : FileProgram α → (α → FileProgram β) → FileProgram β
  | done a, f => f a
  | step op next, f => step op fun reply => (next reply).bind f

instance : Monad FileProgram where
  pure := done
  bind := bind

/-- **A program run on a file tree**: its result and the tree after it. -/
def run : FileProgram α → FileTree → α × FileTree
  | done a, t => (a, t)
  | step op next, t => (next (op.perform t).1).run (op.perform t).2

@[simp] theorem run_pure (a : α) (t : FileTree) : (pure a : FileProgram α).run t = (a, t) := rfl

/-- **Running one program after another** runs the second on the tree that the
first leaves. -/
@[simp] theorem run_bind (p : FileProgram α) (f : α → FileProgram β) (t : FileTree) :
    (p >>= f).run t = (f (p.run t).1).run (p.run t).2 := by
  induction p generalizing t with
  | done a => rfl
  | step op next ih => exact ih _ _

/-- The program of a single step. -/
def ask (op : FileOp) : FileProgram op.Reply := step op done

@[simp] theorem run_ask (op : FileOp) (t : FileTree) : (ask op).run t = op.perform t := rfl

/-- The kind of what a path leads to. -/
def kindOf (p : Path) : FileProgram (Except FileError FileKind) := ask (.kindOf p)

/-- The entries of a directory. -/
def list (p : Path) : FileProgram (Except FileError (List (Text × FileKind))) := ask (.list p)

/-- The content of a file. -/
def read (p : Path) : FileProgram (Except FileError Bytes) := ask (.read p)

/-- Removing a file or a link. -/
def remove (p : Path) : FileProgram (Except FileError Unit) := ask (.remove p)

/-- Renaming. -/
def rename (p q : Path) : FileProgram (Except FileError Unit) := ask (.rename p q)

/-- Writing a file. -/
def write (p : Path) (content : Bytes) : FileProgram (Except FileError Unit) :=
  ask (.write p content)

/-- Whether a path leads to a file; one that leads nowhere does not. -/
def isFile (p : Path) : FileProgram Bool := do
  match ← kindOf p with
  | .ok kind => return kind == .file
  | .error _ => return false

/-- The content of a file as text. -/
def readText (p : Path) : FileProgram (Except FileError Text) := do
  match ← read p with
  | .error e => return .error e
  | .ok bytes =>
    match Utf8.decode bytes with
    | .ok text => return .ok text
    | .error _ => return .error .notText

end FileProgram

end LicenseHeader
