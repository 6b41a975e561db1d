import LicenseHeader.Scan.Report
import LicenseHeader.Proofs.Spots

/-!
# All or nothing

A file is saved in four steps on two names of one directory. When they all succeed, the
file has its new content, the backup is gone and the rest of the tree is as it was
(`FileTree.SavedAs`). When one fails, the tree should be as it was before the first.

Once the file is in its backup no step fails: writing and removing find the two names as
the steps before left them, provided the path still leads to their directory. It does
(`FileTree.Leads.erase_file`), since a walk to the directory cannot go over the file that
stands at the end of the path.

It can go over the backup, though, if that is a link. An old backup is removed before
anything else is tried, and a path that went over it leads nowhere from then on: saving
fails and the old backup is lost. `FileProgram.allOrNothing_iff` says that this is the
only exception.
-/

namespace LicenseHeader

namespace FileTree

variable {t t' : FileTree} {p : Path} {d : Location} {n : Text} {x : Node}

/-- **A tree in which a file has been saved**: the file has the content, its backup is
gone, everything else is as in the tree before. -/
structure SavedAs (t t' : FileTree) (d : Location) (n : Text) (content : Bytes) : Prop where
  node?_eq : ∀ l, t'.node? l =
    if l = d ++ [n] then some (.file content)
    else if l = d ++ [Path.backup n] then none
    else t.node? l
  workingDir_eq : t'.workingDir = t.workingDir

/-- **A path that goes over its own backup**: once that is removed, it leads nowhere. -/
def GoesOverBackup (t : FileTree) (p : Path) : Prop :=
  ∃ t', t.remove (Path.backup p) = .ok t' ∧ t'.spot p = .error .notFound

/-! ## The path to a file while it is saved -/

/-- **The way to a file does not go over the file**: a walk to its directory arrives also
when the file is taken away. It may do so in a tree that has lost something else
already. -/
theorem Leads.erase_file (ht : t.Rooted) (hdir : t.node? d = some .directory) {k : Nat}
    {l : Location} {content : Bytes} (hlast : Leads t k d [.name n] l)
    (hfile : t.node? l = some (.file content))
    (hsub : ∀ {m : Location} {x : Node}, t'.node? m = some x → t.node? m = some x)
    (hdir' : t'.node? d = some .directory) {j : Nat} {s : Location} {hs : List Hop}
    (h : Leads t' j s hs d) : Leads (t'.erase (d ++ [n])) j s hs d := by
  have hnode : t'.node? (d ++ [n]) ≠ some .directory := by
    intro h
    have hdirectory := hsub h
    have hself : Leads t k d [.name n] (d ++ [n]) := by
      cases hlast with
      | enter h next => exact .enter h .arrived
      | file h => exact .file h
      | follow h next =>
        rw [(nodeIn_eq_ok_iff.1 h).2] at hdirectory
        cases hdirectory
    rw [hlast.unique hself, hdirectory] at hfile
    cases hfile
  rcases h.erase_cases hdir' (concat_ne_nil d n) hnode with
    harrives | ⟨-, target, k', tail, hlink, hover⟩
  · exact harrives
  · -- the walk follows the link at the end of the path, so it comes by the file
    have hlink := hsub hlink
    have hover := hover.of_subtree hsub
    rw [List.dropLast_concat] at hover
    cases hlast with
    | enter h next =>
      rw [(nodeIn_eq_ok_iff.1 h).2] at hlink
      cases hlink
    | file h =>
      rw [(nodeIn_eq_ok_iff.1 h).2] at hlink
      cases hlink
    | follow h next =>
      rw [(nodeIn_eq_ok_iff.1 h).2, Option.some.injEq, Node.link.injEq] at hlink
      subst hlink
      rw [List.append_nil] at next
      by_cases htail : tail = []
      · rw [htail, List.append_nil] at hover
        rw [next.unique hover, hdir] at hfile
        cases hfile
      · obtain ⟨d', -, -, hfirst, hd', -⟩ :=
          hover.exists_cut ht (directory_startOf hdir _) htail
        rw [next.unique hfirst, hd'] at hfile
        cases hfile

end FileTree

namespace FileProgram

open FileTree

variable {t t' : FileTree} {p : Path} {d : Location} {n : Text} {x : Node}

@[simp] theorem run_read (p : Path) (t : FileTree) : (read p).run t = (t.read p, t) := rfl

@[simp] theorem run_remove (p : Path) (t : FileTree) :
    (remove p).run t = FileOp.change t (t.remove p) := rfl

@[simp] theorem run_rename (p q : Path) (t : FileTree) :
    (rename p q).run t = FileOp.change t (t.rename p q) := rfl

@[simp] theorem run_write (p : Path) (content : Bytes) (t : FileTree) :
    (write p content).run t = FileOp.change t (t.write p content) := rfl

/-- The path of a backup may be too long, but is never missing. -/
theorem checkPath_backup_ne (p : Path) : checkPath (Path.backup p) ≠ .error .notFound := by
  unfold checkPath
  have hne : Path.backup p ≠ [] := by simp [Path.backup]
  rw [if_neg hne]
  split
  · simp
  · split <;> simp

/-- **Making room for a backup** either fails and changes nothing, or leaves a tree
without the backup. -/
theorem clearBackup_cases (hp : t.Names p d n) :
    (∃ e, (clearBackup p).run t = (.error (.staleBackup (Path.backup p) e), t) ∧
        t.remove (Path.backup p) = .error e) ∨
      ∃ t₁, (clearBackup p).run t = (.ok (), t₁) ∧
        checkPath (Path.backup p) = .ok () ∧
        Path.byteLength (Path.backup n) ≤ maxNameBytes ∧
        t.node? (d ++ [Path.backup n]) ≠ some .directory ∧
        (t₁ = t ∧ t.remove (Path.backup p) = .error .notFound ∧
            t.node? (d ++ [Path.backup n]) = none ∨
          t₁ = t.erase (d ++ [Path.backup n]) ∧ t.remove (Path.backup p) = .ok t₁) := by
  have hcleared : ∀ t₁, t.remove (Path.backup p) = .ok t₁ →
      (clearBackup p).run t = (.ok (), t₁) := by
    intro t₁ h
    simp only [clearBackup, run_bind, run_remove, h]
    rfl
  have hmissing : t.remove (Path.backup p) = .error .notFound →
      (clearBackup p).run t = (.ok (), t) := by
    intro h
    simp only [clearBackup, run_bind, run_remove, h]
    rfl
  have hstale : ∀ e, e ≠ .notFound → t.remove (Path.backup p) = .error e →
      (clearBackup p).run t = (.error (.staleBackup (Path.backup p) e), t) := by
    intro e hne h
    simp only [clearBackup, run_bind, run_remove, h]
    cases e <;> first | rfl | contradiction
  cases hcheck : checkPath (Path.backup p) with
  | error e =>
    have hremove := remove_of_checkPath hcheck t
    refine .inl ⟨e, hstale e ?_ hremove, hremove⟩
    rintro rfl
    exact checkPath_backup_ne p hcheck
  | ok u =>
    have hremove := (hp.backup hcheck).remove_eq
    rcases hnode : t.nodeIn d (Path.backup n) with e | _ | y
    · rw [hnode] at hremove
      have he : e = .nameTooLong := by
        unfold nodeIn at hnode
        split at hnode
        · exact (Except.error.inj hnode).symm
        · cases hnode
      exact .inl ⟨e, hstale e (by rw [he]; decide) hremove, hremove⟩
    · rw [hnode] at hremove
      obtain ⟨hlength, hnone⟩ := nodeIn_eq_ok_iff.1 hnode
      refine .inr ⟨t, hmissing hremove, rfl, hlength, by simp [hnone], .inl ⟨rfl, hremove, hnone⟩⟩
    · obtain ⟨hlength, hsome⟩ := nodeIn_eq_ok_iff.1 hnode
      by_cases hy : y = .directory
      · rw [hnode, hy] at hremove
        exact .inl ⟨.isDirectory, hstale _ (by decide) hremove, hremove⟩
      · have hremove : t.remove (Path.backup p) = .ok (t.erase (d ++ [Path.backup n])) := by
          rw [hremove, hnode]
          cases y <;> first | rfl | contradiction
        refine .inr ⟨_, hcleared _ hremove, rfl, hlength, ?_, .inr ⟨rfl, hremove⟩⟩
        rw [hsome]
        simpa using hy

end FileProgram

namespace FileTree

variable {t : FileTree} {p : Path} {d : Location} {n : Text}

/-- **A tree in which a file can be saved**: there is room for its backup, and the way to
the file does not go over the file. -/
structure Ready (t : FileTree) (p : Path) (d : Location) (n : Text) (x : Node) : Prop where
  rooted : t.Rooted
  names : t.Names p d n
  node : t.nodeIn d n = .ok (some x)
  not_directory : x ≠ .directory
  check_backup : checkPath (Path.backup p) = .ok ()
  backup : t.nodeIn d (Path.backup n) = .ok none
  leads : ∀ {s : Location} {hs : List Hop}, Leads t maxLinks s hs d →
    Leads (t.erase (d ++ [n])) maxLinks s hs d

namespace Ready

variable {x : Node}

/-- The path names the file in every tree that differs in the file and its backup alone. -/
theorem names_of_rest (h : t.Ready p d n x) {u : FileTree} (hwork : u.workingDir = t.workingDir)
    (hrest : ∀ l, l ≠ d ++ [n] → l ≠ d ++ [Path.backup n] → u.node? l = t.node? l) :
    u.Names p d n := by
  have hd : u.node? d = some .directory := by
    rw [hrest d (by simp) (by simp)]
    exact h.names.directory
  refine h.names.of_leads hd hwork fun hs => (h.leads hs).of_subtree fun {m y} hm => ?_
  rw [node?_erase t (concat_ne_nil d n)] at hm
  split at hm
  · cases hm
  · have hbackup : m ≠ d ++ [Path.backup n] := by
      rintro rfl
      rw [(nodeIn_eq_ok_iff.1 h.backup).2] at hm
      cases hm
    rwa [hrest m ‹_› hbackup]

/-- The tree with the file in its backup. -/
theorem node?_moved (h : t.Ready p d n x) (l : Location) :
    (t.move (d ++ [n]) (d ++ [Path.backup n])).node? l =
      if l = d ++ [Path.backup n] then some x else if l = d ++ [n] then none else t.node? l :=
  h.rooted.node?_move (nodeIn_eq_ok_iff.1 h.node).2 h.not_directory (Path.backup_ne_self n).symm l

theorem workingDir_moved (h : t.Ready p d n x) :
    (t.move (d ++ [n]) (d ++ [Path.backup n])).workingDir = t.workingDir :=
  h.rooted.workingDir_move (nodeIn_eq_ok_iff.1 h.node).2 h.not_directory _

theorem rename_eq (h : t.Ready p d n x) :
    t.rename p (Path.backup p) = .ok (t.move (d ++ [n]) (d ++ [Path.backup n])) := by
  rw [h.names.rename_eq (h.names.backup h.check_backup) (Path.backup_ne_self n).symm, h.node,
    h.backup]
  cases x <;> rfl

/-- **The new content is written and the backup removed.** -/
theorem run_writeOver (h : t.Ready p d n x) (content : Text) :
    ∃ t', (FileProgram.writeOver p content).run (t.move (d ++ [n]) (d ++ [Path.backup n]))
        = (.ok (), t') ∧
      SavedAs t t' d n (Utf8.encode content) ∧ t'.read p = .ok (Utf8.encode content) ∧
      t'.kindOf (Path.backup p) = .error .notFound := by
  have hnil := concat_ne_nil d n
  have hnil' := concat_ne_nil d (Path.backup n)
  have hne := concat_backup_ne d n
  have hlength := (nodeIn_eq_ok_iff.1 h.node).1
  have hlength' := (nodeIn_eq_ok_iff.1 h.backup).1
  set t₂ := t.move (d ++ [n]) (d ++ [Path.backup n]) with ht₂
  have hnames₂ : t₂.Names p d n := h.names_of_rest h.workingDir_moved fun l hl hl' => by
    rw [h.node?_moved, if_neg hl', if_neg hl]
  have hnone : t₂.node? (d ++ [n]) = none := by rw [h.node?_moved, if_neg hne.symm, if_pos rfl]
  have hwrite : t₂.write p (Utf8.encode content)
      = .ok (t₂.put (d ++ [n]) (.file (Utf8.encode content))) := by
    rw [hnames₂.write_eq (by simp [hnone]), nodeIn_eq_ok_iff.2 ⟨hlength, hnone⟩]
  set t₃ := t₂.put (d ++ [n]) (.file (Utf8.encode content)) with ht₃
  have hnode₃ : ∀ l, t₃.node? l =
      if l = d ++ [n] then some (.file (Utf8.encode content))
      else if l = d ++ [Path.backup n] then some x else t.node? l := by
    intro l
    rw [ht₃, node?_put t₂ hnil, h.node?_moved]
    split
    · rfl
    · split <;> rfl
  have hnames₃ : t₃.Names p d n := h.names_of_rest h.workingDir_moved fun l hl hl' => by
    rw [hnode₃, if_neg hl, if_neg hl']
  have hremove : t₃.remove (Path.backup p) = .ok (t₃.erase (d ++ [Path.backup n])) := by
    have hbackup : t₃.nodeIn d (Path.backup n) = .ok (some x) :=
      nodeIn_eq_ok_iff.2 ⟨hlength', by rw [hnode₃, if_neg hne, if_pos rfl]⟩
    rw [(hnames₃.backup h.check_backup).remove_eq, hbackup]
    have hx := h.not_directory
    cases x <;> first | rfl | contradiction
  have hsaved : SavedAs t (t₃.erase (d ++ [Path.backup n])) d n (Utf8.encode content) := by
    refine ⟨fun l => ?_, h.workingDir_moved⟩
    rw [node?_erase t₃ hnil', hnode₃]
    by_cases hl : l = d ++ [Path.backup n]
    · rw [if_pos hl, if_neg (hl ▸ hne), if_pos hl]
    · simp only [if_neg hl]
  have hnames := h.names_of_rest hsaved.workingDir_eq fun l hl hl' => by
    rw [hsaved.node?_eq, if_neg hl, if_neg hl']
  refine ⟨_, ?_, hsaved, ?_, ?_⟩
  · simp only [FileProgram.writeOver, FileProgram.run_bind, FileProgram.run_write, hwrite,
      FileOp.change, FileProgram.run_remove, hremove, FileProgram.run_pure]
  · exact hnames.read_of_file
      (nodeIn_eq_ok_iff.2 ⟨hlength, by rw [hsaved.node?_eq, if_pos rfl]⟩)
  · exact (hnames.backup h.check_backup).kindOf_of_none
      (nodeIn_eq_ok_iff.2 ⟨hlength', by rw [hsaved.node?_eq, if_neg hne, if_pos rfl]⟩)

end Ready

variable {t₁ : FileTree} {x : Node} {k : Nat} {l : Location} {content : Bytes}

/-- **A file that can be read can be saved once its backup is gone**, if the path still
names it then. -/
theorem Rooted.ready (ht : t.Rooted) (hnode : t.nodeIn d n = .ok (some x)) (hx : x ≠ .directory)
    (hlast : Leads t k d [.name n] l) (hfile : t.node? l = some (.file content))
    (hcheck : checkPath (Path.backup p) = .ok ())
    (hlength : Path.byteLength (Path.backup n) ≤ maxNameBytes)
    (hbackup : t.node? (d ++ [Path.backup n]) ≠ some .directory)
    (hnode₁ : ∀ l, t₁.node? l = if l = d ++ [Path.backup n] then none else t.node? l)
    (hwork₁ : t₁.workingDir = t.workingDir) (hp : t₁.Names p d n) : t₁.Ready p d n x where
  rooted := by
    have hdirectory : ∀ {l}, t.node? l = some .directory → t₁.node? l = some .directory := by
      intro l hl
      have hne : l ≠ d ++ [Path.backup n] := by
        rintro rfl
        exact hbackup hl
      rw [hnode₁, if_neg hne, hl]
    constructor
    · intro l m y hy
      rw [hnode₁] at hy
      split at hy
      · cases hy
      · exact hdirectory (ht.parent hy)
    · rw [hwork₁]
      exact hdirectory ht.workingDir
  names := hp
  node := by
    rw [← hnode]
    exact nodeIn_congr (by rw [hnode₁, if_neg (concat_backup_ne d n).symm])
  not_directory := hx
  check_backup := hcheck
  backup := nodeIn_eq_ok_iff.2 ⟨hlength, by rw [hnode₁, if_pos rfl]⟩
  leads h := by
    have hsub : ∀ {m : Location} {y : Node}, t₁.node? m = some y → t.node? m = some y := by
      intro m y hm
      rw [hnode₁] at hm
      split at hm
      · cases hm
      · exact hm
    exact Leads.erase_file ht (hsub hp.directory) hlast hfile hsub hp.directory h

/-- Without its backup, which is no directory, a path names what it did before or leads
nowhere. -/
theorem Names.erase_backup (hp : t.Names p d n)
    (hbackup : t.node? (d ++ [Path.backup n]) ≠ some .directory) :
    (t.erase (d ++ [Path.backup n])).Names p d n ∨
      (t.erase (d ++ [Path.backup n])).spot p = .error .notFound ∧
        ∃ target, t.node? (d ++ [Path.backup n]) = some (.link target) := by
  have hnil := concat_ne_nil d (Path.backup n)
  obtain ⟨hcheck, hslash, hdir, hs, hhops, hleads⟩ := names_iff.1 hp
  rcases hleads.erase_cases hdir hnil hbackup with
    harrives | ⟨hends, target, -, -, hlink, -⟩
  · refine .inl (names_iff.2 ⟨hcheck, hslash, ?_, hs, hhops, harrives⟩)
    rw [node?_erase t hnil, if_neg (by simp)]
    exact hdir
  · refine .inr ⟨?_, target, hlink⟩
    have hwork : (t.erase (d ++ [Path.backup n])).workingDir = t.workingDir := rfl
    simp [spot, spotFrom, hcheck, hhops, hwork, hends, bind, Except.bind]

end FileTree

namespace FileProgram

open FileTree

variable {t t' : FileTree} {p : Path}

/-- With room for the backup, the file is renamed to it and written anew. -/
theorem run_save_of_cleared {t₁ : FileTree} (hclear : (clearBackup p).run t = (.ok (), t₁))
    (content : Text) :
    (save p content).run t =
      match t₁.rename p (Path.backup p) with
      | .error e => (.error (.noBackup (Path.backup p) e), t₁)
      | .ok t₂ => (writeOver p content).run t₂ := by
  simp only [save, run_bind, hclear, run_rename]
  cases t₁.rename p (Path.backup p) <;> rfl

/-- **What saving can come to.** An old backup that cannot be removed leaves the tree as it
is. One that can be removed may have been on the way to the file. Otherwise the file is
saved. -/
theorem save_cases (ht : t.Rooted) (hslash : Path.endsInSlash p = false) {bytes : Bytes}
    (hread : t.read p = .ok bytes) (content : Text) :
    (∃ e, (save p content).run t = (.error (.staleBackup (Path.backup p) e), t) ∧
        ¬ t.GoesOverBackup p) ∨
      (∃ d n target, (save p content).run t =
          (.error (.noBackup (Path.backup p) .notFound), t.erase (d ++ [Path.backup n])) ∧
        t.Names p d n ∧ t.node? (d ++ [Path.backup n]) = some (.link target) ∧
        t.GoesOverBackup p) ∨
      ∃ t' d n, (save p content).run t = (.ok (), t') ∧ t.Names p d n ∧
        SavedAs t t' d n (Utf8.encode content) ∧ t'.read p = .ok (Utf8.encode content) ∧
        t'.kindOf (Path.backup p) = .error .notFound ∧ ¬ t.GoesOverBackup p := by
  obtain ⟨d, n, x, k, l, hp, hnode, hx, hlast, hfile⟩ := ht.exists_names_of_read hslash hread
  have hnil' := concat_ne_nil d (Path.backup n)
  rcases clearBackup_cases hp with
    ⟨e, hclear, hremove⟩ | ⟨t₁, hclear, hcheck, hlength, hdirectory, ht₁⟩
  · refine .inl ⟨e, ?_, ?_⟩
    · simp only [save, run_bind, hclear, run_pure]
    · rintro ⟨t', hok, -⟩
      rw [hremove] at hok
      cases hok
  · have hrun := run_save_of_cleared hclear content
    have hnode₁ : ∀ l, t₁.node? l = if l = d ++ [Path.backup n] then none else t.node? l := by
      intro l
      rcases ht₁ with ⟨rfl, -, hnone⟩ | ⟨rfl, -⟩
      · split
        · rename_i hl
          rw [hl, hnone]
        · rfl
      · exact node?_erase t hnil' l
    have hwork₁ : t₁.workingDir = t.workingDir := by
      rcases ht₁ with ⟨rfl, -⟩ | ⟨rfl, -⟩ <;> rfl
    have hsaved : t₁.Names p d n → ∃ t', (save p content).run t = (.ok (), t') ∧
        SavedAs t t' d n (Utf8.encode content) ∧ t'.read p = .ok (Utf8.encode content) ∧
        t'.kindOf (Path.backup p) = .error .notFound := by
      intro hp₁
      have hready := ht.ready hnode hx hlast hfile hcheck hlength hdirectory hnode₁ hwork₁ hp₁
      obtain ⟨t', hwrite, hsaved, hread', hgone⟩ := hready.run_writeOver content
      refine ⟨t', ?_, ⟨fun l => ?_, ?_⟩, hread', hgone⟩
      · rw [hrun, hready.rename_eq]
        exact hwrite
      · rw [hsaved.node?_eq, hnode₁]
        split
        · rfl
        · split <;> rfl
      · exact hsaved.workingDir_eq.trans hwork₁
    rcases ht₁ with ⟨rfl, hremove, -⟩ | ⟨rfl, hremove⟩
    · obtain ⟨t', hsave, hsaved, hread', hgone⟩ := hsaved hp
      refine .inr (.inr ⟨t', d, n, hsave, hp, hsaved, hread', hgone, ?_⟩)
      rintro ⟨t', hok, -⟩
      rw [hremove] at hok
      cases hok
    · rcases hp.erase_backup hdirectory with hp₁ | ⟨hspot, target, hlink⟩
      · obtain ⟨t', hsave, hsaved, hread', hgone⟩ := hsaved hp₁
        refine .inr (.inr ⟨t', d, n, hsave, hp, hsaved, hread', hgone, ?_⟩)
        rintro ⟨t', hok, hspot⟩
        obtain rfl := Except.ok.inj (hremove.symm.trans hok)
        rw [show _ = _ from hp₁] at hspot
        cases hspot
      · refine .inr (.inl ⟨d, n, target, ?_, hp, hlink, _, hremove, hspot⟩)
        have hrename : (t.erase (d ++ [Path.backup n])).rename p (Path.backup p)
            = .error .notFound := by
          unfold FileTree.rename
          rw [hspot]
          rfl
        rw [hrun, hrename]

end FileProgram

/-! ## An action on a file -/

/-- An action that has a new text has read the old one. -/
theorem Action.readsContent_of_apply {action : Action} {f : SourceFile} {findings : List Finding}
    {new : Text} (h : action.apply f = .ok ⟨findings, some new⟩) : action.readsContent = true := by
  cases action with
  | describe => cases h
  | _ => rfl

/-- **An action that has a new text for the file at a path**, with what it noticed in the
old one. -/
def Action.Rewrites (action : Action) (t : FileTree) (p : Path) (findings : List Finding)
    (new : Text) : Prop :=
  ∃ bytes old, t.read p = .ok bytes ∧ looksLikeText bytes = true ∧ Utf8.decode bytes = .ok old ∧
    let language := Language.ofFileName? ((Path.fileName? p).getD [])
    action.apply ⟨language, grammarOf language, old⟩ = .ok ⟨findings, some new⟩

/-- **A file that has been given a new text**: the report is that it is modified and
nothing went wrong, the path holds a file with the text that the action made of the old
one, there is no backup, and everything else is as it was. -/
structure FileReport.Rewritten (report : FileReport) (action : Action) (p : Path)
    (t t' : FileTree) : Prop where
  modified : report.modified = true
  errors : report.errors = []
  saved : ∃ new d n, action.Rewrites t p report.findings new ∧ t.Names p d n ∧
    t.SavedAs t' d n (Utf8.encode new) ∧ t'.read p = .ok (Utf8.encode new) ∧
    t'.kindOf (Path.backup p) = .error .notFound

namespace FileProgram

open FileTree

variable {t t' : FileTree} {p : Path} {action : Action} {report : FileReport}

/-- The text for an action is found without a change, and it is that of the file if the
action reads it. -/
theorem textFor_cases (action : Action) (p : Path) (t : FileTree) :
    ∃ r, (textFor action p).run t = (r, t) ∧ ∀ old, r = .ok (some old) ↔
      if action.readsContent then
        ∃ bytes, t.read p = .ok bytes ∧ looksLikeText bytes = true ∧ Utf8.decode bytes = .ok old
      else old = [] := by
  unfold textFor
  by_cases hreads : action.readsContent = true
  · simp only [hreads, if_true, run_bind, run_read]
    rcases t.read p with e | bytes
    · exact ⟨_, rfl, by simp⟩
    · by_cases hlooks : looksLikeText bytes = true
      · simp only [hlooks, if_true]
        rcases hdecode : Utf8.decode bytes with e | text
        · exact ⟨_, rfl, by simp [hdecode]⟩
        · exact ⟨_, rfl, by simp [hdecode, hlooks]⟩
      · simp only [hlooks]
        exact ⟨_, rfl, by simp [hlooks]⟩
  · simp only [hreads]
    exact ⟨_, rfl, by simp [eq_comm]⟩

/-- **A report is made by saving a new text, or without touching the tree.** -/
theorem reportOn_cases (action : Action) (p : Path) (t : FileTree) :
    let language := Language.ofFileName? ((Path.fileName? p).getD [])
    (∃ findings new, action.Rewrites t p findings new ∧
        (reportOn action p language).run t =
          match (save p new).run t with
          | (.ok (), t') => ({ path := p, language, findings, modified := true }, t')
          | (.error e, t') => ({ path := p, language, errors := [.unsaved e] }, t')) ∨
      (∀ findings new, ¬ action.Rewrites t p findings new) ∧
        ∃ report, (reportOn action p language).run t = (report, t) ∧ report.modified = false ∧
          (report.errors ≠ [] → report.findings = []) := by
  intro language
  obtain ⟨r, hrun, hr⟩ := textFor_cases action p t
  have hrewrites : ∀ findings new, action.Rewrites t p findings new ↔
      ∃ old, r = .ok (some old) ∧
        action.apply ⟨language, grammarOf language, old⟩ = .ok ⟨findings, some new⟩ := by
    intro findings new
    by_cases hreads : action.readsContent = true
    · simp only [hr, hreads, if_true]
      constructor
      · rintro ⟨bytes, old, hread, hlooks, hdecode, happly⟩
        exact ⟨old, ⟨bytes, hread, hlooks, hdecode⟩, happly⟩
      · rintro ⟨old, ⟨bytes, hread, hlooks, hdecode⟩, happly⟩
        exact ⟨bytes, old, hread, hlooks, hdecode, happly⟩
    · exact iff_of_false (fun ⟨_, _, _, _, _, h⟩ => hreads (Action.readsContent_of_apply h))
        (fun ⟨_, _, h⟩ => hreads (Action.readsContent_of_apply h))
  simp only [hrewrites, reportOn, run_bind, hrun]
  rcases r with e | _ | old
  · exact .inr ⟨by simp, _, rfl, rfl, fun _ => rfl⟩
  · exact .inr ⟨by simp, _, rfl, rfl, fun _ => rfl⟩
  · rcases happly : action.apply ⟨language, grammarOf language, old⟩ with e | ⟨findings, _ | new⟩
    · refine .inr ⟨by simp [happly], { path := p, language, errors := [.refused e] }, ?_, rfl,
        fun _ => rfl⟩
      simp only [happly, run_pure]
    · refine .inr ⟨by simp [happly], { path := p, language, findings }, ?_, rfl,
        fun h => absurd rfl h⟩
      simp only [happly, carryOut, run_bind, run_pure]
    · refine .inl ⟨findings, new, ⟨old, rfl, happly⟩, ?_⟩
      simp only [happly, carryOut, run_bind]
      rcases (save p new).run t with ⟨_ | _, t'⟩ <;> rfl

/-- A file whose language has no comments gets no report from an action that is about
comments. -/
theorem run_processFile (action : Action) (p : Path) (t : FileTree) :
    (processFile action p).run t =
      if action.requiresComments &&
          !(grammarOf (Language.ofFileName? ((Path.fileName? p).getD []))).hasComments then (none, t)
      else
        (some ((reportOn action p (Language.ofFileName? ((Path.fileName? p).getD []))).run t).1,
          ((reportOn action p (Language.ofFileName? ((Path.fileName? p).getD []))).run t).2) := by
  unfold processFile
  simp only
  split
  · rfl
  · rw [run_bind, run_pure]

/-- **An action on a file is done in full or not at all**, with one exception: the file
was to have a new text and the path to it goes over its backup. The backup, which is
then a link, is removed and the file is not saved. Findings come only with reports in
which nothing went wrong. -/
theorem allOrNothing_iff (ht : t.Rooted) (hslash : Path.endsInSlash p = false)
    (hrun : (processFile action p).run t = (some report, t')) :
    (report.errors ≠ [] → report.modified = false ∧ report.findings = []) ∧
      ((report.Rewritten action p t t' ∨ report.modified = false ∧ t' = t) ↔
        ¬ ((∃ findings new, action.Rewrites t p findings new) ∧ t.GoesOverBackup p)) ∧
      ((∃ findings new, action.Rewrites t p findings new) → t.GoesOverBackup p →
        report.errors = [.unsaved (.noBackup (Path.backup p) .notFound)] ∧
          ∃ d n target, t.Names p d n ∧ t.node? (d ++ [Path.backup n]) = some (.link target) ∧
            t' = t.erase (d ++ [Path.backup n])) := by
  have hreport : (reportOn action p (Language.ofFileName? ((Path.fileName? p).getD []))).run t
      = (report, t') := by
    rw [run_processFile] at hrun
    split at hrun
    · cases hrun
    · obtain ⟨hsome, hrest⟩ := Prod.mk.inj hrun
      exact Prod.ext (Option.some.inj hsome) hrest
  rcases reportOn_cases action p t with
    ⟨findings, new, hrewrites, hcase⟩ | ⟨hno, report', hcase, hmodified, herrors⟩
  · have hnew : ∃ findings new, action.Rewrites t p findings new := ⟨findings, new, hrewrites⟩
    obtain ⟨bytes, -, hread, -⟩ := id hrewrites
    rw [hcase] at hreport
    rcases save_cases ht hslash hread new with ⟨e, hsave, hover⟩ |
      ⟨d, n, target, hsave, hnames, hlink, hover⟩ |
      ⟨t'', d, n, hsave, hnames, hsaved, hread', hgone, hover⟩
    · rw [hsave] at hreport
      obtain ⟨rfl, rfl⟩ := Prod.mk.inj hreport
      exact ⟨fun _ => ⟨rfl, rfl⟩, iff_of_true (.inr ⟨rfl, rfl⟩) fun h => hover h.2,
        fun _ h => absurd h hover⟩
    · rw [hsave] at hreport
      obtain ⟨rfl, rfl⟩ := Prod.mk.inj hreport
      have hchanged : t.erase (d ++ [Path.backup n]) ≠ t := by
        intro h
        have hgone := node?_erase t (concat_ne_nil d (Path.backup n)) (d ++ [Path.backup n])
        rw [h, if_pos rfl, hlink] at hgone
        cases hgone
      refine ⟨fun _ => ⟨rfl, rfl⟩, iff_of_false ?_ fun h => h ⟨hnew, hover⟩,
        fun _ _ => ⟨rfl, d, n, target, hnames, hlink, rfl⟩⟩
      rintro (h | h)
      · exact Bool.false_ne_true h.modified
      · exact hchanged h.2
    · rw [hsave] at hreport
      obtain ⟨rfl, rfl⟩ := Prod.mk.inj hreport
      exact ⟨fun h => absurd rfl h,
        iff_of_true (.inl ⟨rfl, rfl, new, d, n, hrewrites, hnames, hsaved, hread', hgone⟩)
          fun h => hover h.2,
        fun _ h => absurd h hover⟩
  · rw [hcase] at hreport
    obtain ⟨rfl, rfl⟩ := Prod.mk.inj hreport
    have hnew : ¬ ∃ findings new, action.Rewrites t p findings new :=
      fun ⟨findings, new, h⟩ => hno findings new h
    exact ⟨fun h => ⟨hmodified, herrors h⟩, iff_of_true (.inr ⟨hmodified, rfl⟩) fun h => hnew h.1,
      fun h => absurd h hnew⟩

/-- A script whose old backup is a link to a directory. -/
def linkedBackup : FileTree where
  entries := [(["sub".toList], .directory), (["x.sh".toList], .file (Utf8.encode "#a b\n".toList)),
    (["x.sh.bak".toList], .link "sub".toList)]

/-- The script is to be `# a b`. Reached over the link, it is not saved, and the link is
gone. -/
theorem allOrNothing_linkedBackup :
    let p := "x.sh.bak/../x.sh".toList
    ∃ report t', (processFile .reformat p).run linkedBackup = (some report, t') ∧
      report.errors = [.unsaved (.noBackup (Path.backup p) .notFound)] ∧
      ¬ (report.Rewritten .reformat p linkedBackup t' ∨
        report.modified = false ∧ t' = linkedBackup) := by
  intro p
  have ht : linkedBackup.Rooted := .of_entries (by decide) rfl
  have hrun : (processFile .reformat p).run linkedBackup =
    (some { path := p, language := some .sh,
            errors := [.unsaved (.noBackup (Path.backup p) .notFound)] },
      linkedBackup.erase ["x.sh.bak".toList]) := by decide +kernel
  have hrewrites : ∃ findings new, Action.Rewrites .reformat linkedBackup p findings new :=
    ⟨[.reformatted], "# a b\n".toList, Utf8.encode "#a b\n".toList, "#a b\n".toList,
      by decide +kernel⟩
  have hover : linkedBackup.GoesOverBackup p :=
    ⟨linkedBackup.erase ["x.sh.bak".toList], by decide +kernel⟩
  obtain ⟨-, hiff, hexception⟩ := allOrNothing_iff ht rfl hrun
  exact ⟨_, _, hrun, (hexception hrewrites hover).1, fun h => hiff.1 h ⟨hrewrites, hover⟩⟩

end FileProgram

end LicenseHeader
