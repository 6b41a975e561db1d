import LicenseHeader.Scan.Traverse
import LicenseHeader.Proofs.FileNames
import LicenseHeader.Proofs.Saving
import LicenseHeader.Proofs.Interleaving
import Mathlib.Data.List.Nodup

/-!
# An action on many files at once

The files of a directory are dealt with at the same time. An action on one of them looks
at two names, that of the file and that of its backup, and the backup of one file may be
another of the files. That this does no harm rests on the file-name table: no name that
ends like a backup belongs to a language (`Language.ofFileName?_backup`), so a file with
such a name is not even looked at. The names that two actions look at are then different,
and `FileProgram.Interleaves.unique` applies.

What is left to see is that each step looks at the two names only. Other actions change
files and never directories, so what can happen meanwhile are trees with the same
directories (`FileTree.SameDirectories`), in which all paths lead where they led.
-/

namespace LicenseHeader

namespace FileTree

variable {t u u' v v' : FileTree} {p q : Path} {d l : Location} {n m : Text} {k : Nat}
  {hs : List Hop}

/-- **A tree with the same directories** as another, and without links. -/
structure SameDirectories (t u : FileTree) : Prop where
  rooted : u.Rooted
  linkless : u.Linkless
  directory_iff : ∀ l, u.node? l = some .directory ↔ t.node? l = some .directory
  workingDir_eq : u.workingDir = t.workingDir

/-- Without links a walk to a directory goes over directories only. -/
theorem Leads.of_directories (hlinks : t.Linkless)
    (hdirs : ∀ l, t.node? l = some .directory → u.node? l = some .directory)
    (h : Leads t k l hs d) (hd : t.node? d = some .directory) : Leads u k l hs d := by
  induction h with
  | arrived => exact .arrived
  | here next ih => exact .here (ih hd)
  | up next ih => exact .up (ih hd)
  | enter h next ih =>
    obtain ⟨hlength, hnode⟩ := nodeIn_eq_ok_iff.1 h
    exact .enter (nodeIn_eq_ok_iff.2 ⟨hlength, hdirs _ hnode⟩) (ih hd)
  | file h =>
    rw [(nodeIn_eq_ok_iff.1 h).2] at hd
    cases hd
  | follow h next ih => exact absurd (nodeIn_eq_ok_iff.1 h).2 (hlinks _ _)

namespace SameDirectories

theorem names (h : t.SameDirectories u) (hlinks : t.Linkless) (hp : t.Names p d n) :
    u.Names p d n :=
  hp.of_leads ((h.directory_iff d).2 hp.directory) h.workingDir_eq fun hs =>
    hs.of_directories hlinks (fun l => (h.directory_iff l).2) hp.directory

/-- **Files come and go without a change to the directories.** -/
theorem of_change (h : t.SameDirectories u) (hwork : u'.workingDir = u.workingDir)
    (hd : u.node? d = some .directory)
    (hnode : ∀ l, u'.node? l = u.node? l ∨
      (∃ m, l = d ++ [m]) ∧ u.node? l ≠ some .directory ∧
        (u'.node? l = none ∨ ∃ content, u'.node? l = some (.file content))) :
    t.SameDirectories u' where
  rooted := {
    parent := by
      intro l m x hx
      have hl : u.node? l = some .directory := by
        rcases hnode (l ++ [m]) with hsame | ⟨⟨m', heq⟩, -⟩
        · exact h.rooted.parent (hsame ▸ hx)
        · rwa [(List.append_inj' heq rfl).1]
      rcases hnode l with hsame | ⟨-, hno, -⟩
      · rw [hsame, hl]
      · exact absurd hl hno
    workingDir := by
      rcases hnode u'.workingDir with hsame | ⟨-, hno, -⟩
      · rw [hsame, hwork]
        exact h.rooted.workingDir
      · rw [hwork] at hno
        exact absurd h.rooted.workingDir hno }
  linkless := by
    intro l target hlink
    rcases hnode l with hsame | ⟨-, -, hnone | ⟨content, hfile⟩⟩
    · exact h.linkless l target (hsame ▸ hlink)
    · rw [hnone] at hlink
      cases hlink
    · rw [hfile] at hlink
      cases hlink
  directory_iff := by
    intro l
    rw [← h.directory_iff l]
    rcases hnode l with hsame | ⟨-, hno, hnone | ⟨content, hfile⟩⟩
    · rw [hsame]
    · exact iff_of_false (by simp [hnone]) hno
    · exact iff_of_false (by simp [hfile]) hno
  workingDir_eq := hwork.trans h.workingDir_eq

end SameDirectories

/-! ## Steps on a file and its backup -/

/-- The locations of a file and its backup. -/
def twoNames (d : Location) (n : Text) : Set Location := {d ++ [n], d ++ [Path.backup n]}

theorem mem_twoNames : l ∈ twoNames d n ↔ l = d ++ [n] ∨ l = d ++ [Path.backup n] := Iff.rfl

/-- **A change to some locations**, seen on two trees that agree there: it fails on both
for the same reason, or changes both alike and nothing else. -/
def Changes (W : FileTree → Prop) (F : Set Location) (f : FileTree → Except FileError FileTree) :
    Prop :=
  ∀ u v, W u → W v → AgreeOn F u v → (∃ e, f u = .error e ∧ f v = .error e) ∨
    ∃ u' v', f u = .ok u' ∧ f v = .ok v' ∧ W u' ∧ (∀ l ∉ F, u'.node? l = u.node? l) ∧
      AgreeOn F u' v'

namespace Changes

variable {W : FileTree → Prop} {F : Set Location} {f : FileTree → Except FileError FileTree}

theorem world (h : Changes W F f) (hu : W u) : W (FileOp.change u (f u)).2 := by
  rcases h u u hu hu fun _ _ => rfl with ⟨e, he, -⟩ | ⟨u', -, hok, -, hW, -⟩
  · rw [he]
    exact hu
  · rw [hok]
    exact hW

theorem frame (h : Changes W F f) (hu : W u) (l : Location) (hl : l ∉ F) :
    (FileOp.change u (f u)).2.node? l = u.node? l := by
  rcases h u u hu hu fun _ _ => rfl with ⟨e, he, -⟩ | ⟨u', -, hok, -, -, hframe, -⟩
  · rw [he]
    rfl
  · rw [hok]
    exact hframe l hl

theorem reply (h : Changes W F f) (hu : W u) (hv : W v) (hagree : AgreeOn F u v) :
    (FileOp.change v (f v)).1 = (FileOp.change u (f u)).1 := by
  rcases h u v hu hv hagree with ⟨e, hu', hv'⟩ | ⟨u', v', hu', hv', -⟩ <;>
  · rw [hu', hv']
    rfl

theorem effect (h : Changes W F f) (hu : W u) (hv : W v) (hagree : AgreeOn F u v) :
    AgreeOn F (FileOp.change u (f u)).2 (FileOp.change v (f v)).2 := by
  rcases h u v hu hv hagree with ⟨e, hu', hv'⟩ | ⟨u', v', hu', hv', -, -, hagree'⟩
  · rw [hu', hv']
    exact hagree
  · rw [hu', hv']
    exact hagree'

end Changes

/-- **A path to a file of a tree without links.** -/
structure IsFileAt (t : FileTree) (p : Path) (d : Location) (n : Text) : Prop where
  linkless : t.Linkless
  names : t.Names p d n
  file : ∃ content, t.node? (d ++ [n]) = some (.file content)

namespace IsFileAt

variable (h : t.IsFileAt p d n)

include h

theorem names_of (hu : t.SameDirectories u) : u.Names p d n := hu.names h.linkless h.names

/-- In the place of the file there is a file, or nothing. -/
theorem node?_of (hu : t.SameDirectories u) {x : Node} (hx : u.node? (d ++ [n]) = some x) :
    ∃ content, x = .file content := by
  cases x with
  | file content => exact ⟨content, rfl⟩
  | directory =>
    obtain ⟨content, hfile⟩ := h.file
    rw [hu.directory_iff, hfile] at hx
    cases hx
  | link target => exact absurd hx (hu.linkless _ _)

theorem local_read : (FileOp.read p).Local t.SameDirectories (twoNames d n) where
  world hu := hu
  frame _ _ _ := rfl
  reply {u v} hu hv hagree := by
    show v.read p = u.read p
    rw [(h.names_of hu).read_eq (hu.linkless _), (h.names_of hv).read_eq (hv.linkless _),
      nodeIn_congr (hagree (d ++ [n]) (.inl rfl))]
  effect _ _ hagree := hagree

/-- **Two trees in which a file and its backup were changed alike.** The backup may also be
a directory, which stays. -/
theorem changed (hu : t.SameDirectories u) {x y : Option Node}
    (hx : ∀ z, x = some z → ∃ content, z = .file content)
    (hy : u.node? (d ++ [Path.backup n]) = y ∨ u.node? (d ++ [Path.backup n]) ≠ some .directory ∧
      ∀ z, y = some z → ∃ content, z = .file content)
    (hu' : ∀ l, u'.node? l =
      if l = d ++ [n] then x else if l = d ++ [Path.backup n] then y else u.node? l)
    (hv' : ∀ l, v'.node? l =
      if l = d ++ [n] then x else if l = d ++ [Path.backup n] then y else v.node? l)
    (hwork : u'.workingDir = u.workingDir) :
    t.SameDirectories u' ∧ (∀ l ∉ twoNames d n, u'.node? l = u.node? l) ∧
      AgreeOn (twoNames d n) u' v' := by
  have hplain : ∀ {o : Option Node}, (∀ z, o = some z → ∃ content, z = .file content) →
      o = none ∨ ∃ content, o = some (.file content) := by
    intro o ho
    rcases o with _ | z
    · exact .inl rfl
    · obtain ⟨content, rfl⟩ := ho z rfl
      exact .inr ⟨content, rfl⟩
  refine ⟨hu.of_change hwork (h.names_of hu).directory fun l => ?_, fun l hl => ?_, fun l hl => ?_⟩
  · rw [hu' l]
    by_cases hl : l = d ++ [n]
    · rw [if_pos hl]
      refine .inr ⟨⟨n, hl⟩, fun hdirectory => ?_, hplain hx⟩
      rw [hl] at hdirectory
      obtain ⟨content, hcontent⟩ := h.node?_of hu hdirectory
      cases hcontent
    · rw [if_neg hl]
      by_cases hl' : l = d ++ [Path.backup n]
      · rw [if_pos hl']
        rcases hy with hsame | ⟨hno, hy⟩
        · exact .inl (hl' ▸ hsame.symm)
        · exact .inr ⟨⟨_, hl'⟩, hl' ▸ hno, hplain hy⟩
      · exact .inl (if_neg hl')
  · rw [mem_twoNames, not_or] at hl
    rw [hu' l, if_neg hl.1, if_neg hl.2]
  · rw [hu' l, hv' l]
    rcases mem_twoNames.1 hl with rfl | rfl
    · rw [if_pos rfl, if_pos rfl]
    · rw [if_neg (concat_backup_ne d n), if_pos rfl, if_neg (concat_backup_ne d n), if_pos rfl]

theorem changes_remove : Changes t.SameDirectories (twoNames d n) (·.remove (Path.backup p)) := by
  intro u v hu hv hagree
  cases hcheck : checkPath (Path.backup p) with
  | error e => exact .inl ⟨e, remove_of_checkPath hcheck u, remove_of_checkPath hcheck v⟩
  | ok =>
    have hbackup := hagree (d ++ [Path.backup n]) (.inr rfl)
    simp only [((h.names_of hu).backup hcheck).remove_eq,
      ((h.names_of hv).backup hcheck).remove_eq, ← nodeIn_congr hbackup]
    rcases hnode : u.nodeIn d (Path.backup n) with e | _ | c | _ | target
    · exact .inl ⟨e, rfl, rfl⟩
    · exact .inl ⟨_, rfl, rfl⟩
    · have herase : ∀ w : FileTree, w.node? (d ++ [n]) = u.node? (d ++ [n]) → ∀ l,
          (w.erase (d ++ [Path.backup n])).node? l = if l = d ++ [n] then u.node? (d ++ [n])
            else if l = d ++ [Path.backup n] then none else w.node? l := by
        intro w hw l
        rw [node?_erase w (concat_ne_nil d _), ← hw]
        by_cases hl : l = d ++ [n]
        · rw [if_pos hl, hl, if_neg (concat_backup_ne d n).symm]
        · rw [if_neg hl]
      refine .inr ⟨_, _, rfl, rfl, h.changed hu (fun z => h.node?_of hu) (.inr ⟨?_, by simp⟩)
        (herase u rfl) (herase v (hagree _ (.inl rfl)).symm) rfl⟩
      simp [(nodeIn_eq_ok_iff.1 hnode).2]
    · exact .inl ⟨_, rfl, rfl⟩
    · exact absurd (nodeIn_eq_ok_iff.1 hnode).2 (hu.linkless _ _)

theorem changes_write (content : Bytes) :
    Changes t.SameDirectories (twoNames d n) (·.write p content) := by
  intro u v hu hv hagree
  simp only [(h.names_of hu).write_eq (hu.linkless _), (h.names_of hv).write_eq (hv.linkless _),
    ← nodeIn_congr (hagree (d ++ [n]) (.inl rfl))]
  have hput : ∀ w : FileTree,
      w.node? (d ++ [Path.backup n]) = u.node? (d ++ [Path.backup n]) → ∀ l,
      (w.put (d ++ [n]) (.file content)).node? l = if l = d ++ [n] then some (.file content)
        else if l = d ++ [Path.backup n] then u.node? (d ++ [Path.backup n]) else w.node? l := by
    intro w hw l
    rw [node?_put w (concat_ne_nil d n)]
    by_cases hl : l = d ++ [Path.backup n]
    · rw [if_pos hl, hl, hw]
    · rw [if_neg hl]
  have hchanged := h.changed hu (by simp) (.inl rfl) (hput u rfl)
    (hput v (hagree _ (.inr rfl)).symm) rfl
  rcases hnode : u.nodeIn d n with e | _ | c | _ | target
  · exact .inl ⟨e, rfl, rfl⟩
  · exact .inr ⟨_, _, rfl, rfl, hchanged⟩
  · exact .inr ⟨_, _, rfl, rfl, hchanged⟩
  · exact .inl ⟨_, rfl, rfl⟩
  · exact absurd (nodeIn_eq_ok_iff.1 hnode).2 (hu.linkless _ _)

theorem changes_rename :
    Changes t.SameDirectories (twoNames d n) (·.rename p (Path.backup p)) := by
  intro u v hu hv hagree
  have hfile := hagree (d ++ [n]) (.inl rfl)
  have hbackup := hagree (d ++ [Path.backup n]) (.inr rfl)
  cases hcheck : checkPath (Path.backup p) with
  | error e =>
    have hrename : ∀ {w}, t.SameDirectories w → w.rename p (Path.backup p) = .error e := by
      intro w hw
      unfold rename
      rw [show w.spot p = _ from h.names_of hw, spot_of_checkPath hcheck]
      rfl
    exact .inl ⟨e, hrename hu, hrename hv⟩
  | ok =>
    have hmove : ∀ {w : FileTree}, t.SameDirectories w → ∀ {content : Bytes},
        w.node? (d ++ [n]) = some (.file content) → ∀ l,
          (w.move (d ++ [n]) (d ++ [Path.backup n])).node? l = if l = d ++ [n] then none
            else if l = d ++ [Path.backup n] then some (.file content) else w.node? l := by
      intro w hw content hcontent l
      rw [hw.rooted.node?_move hcontent (by simp) (Path.backup_ne_self n).symm]
      by_cases hl : l = d ++ [n]
      · rw [if_pos hl, if_pos hl, hl, if_neg (concat_backup_ne d n).symm]
      · rw [if_neg hl, if_neg hl]
    simp only [
      (h.names_of hu).rename_eq ((h.names_of hu).backup hcheck) (Path.backup_ne_self n).symm,
      (h.names_of hv).rename_eq ((h.names_of hv).backup hcheck) (Path.backup_ne_self n).symm,
      ← nodeIn_congr hfile, ← nodeIn_congr hbackup]
    rcases hnode : u.nodeIn d n with e | _ | x
    · exact .inl ⟨e, rfl, rfl⟩
    · exact .inl ⟨_, rfl, rfl⟩
    · have hsource := (nodeIn_eq_ok_iff.1 hnode).2
      obtain ⟨c, rfl⟩ := h.node?_of hu hsource
      have hmoved := fun hno : u.node? (d ++ [Path.backup n]) ≠ some .directory =>
        h.changed hu (by simp) (.inr ⟨hno, by simp⟩) (hmove hu hsource)
          (hmove hv (hfile ▸ hsource)) (hu.rooted.workingDir_move hsource (by simp) _)
      rcases hold : u.nodeIn d (Path.backup n) with e | _ | c' | _ | target
      · exact .inl ⟨e, rfl, rfl⟩
      · exact .inr ⟨_, _, rfl, rfl, hmoved (by simp [(nodeIn_eq_ok_iff.1 hold).2])⟩
      · exact .inr ⟨_, _, rfl, rfl, hmoved (by simp [(nodeIn_eq_ok_iff.1 hold).2])⟩
      · exact .inl ⟨_, rfl, rfl⟩
      · exact absurd (nodeIn_eq_ok_iff.1 hold).2 (hu.linkless _ _)

theorem local_remove :
    (FileOp.remove (Path.backup p)).Local t.SameDirectories (twoNames d n) where
  world := h.changes_remove.world
  frame := h.changes_remove.frame
  reply := h.changes_remove.reply
  effect := h.changes_remove.effect

theorem local_rename :
    (FileOp.rename p (Path.backup p)).Local t.SameDirectories (twoNames d n) where
  world := h.changes_rename.world
  frame := h.changes_rename.frame
  reply := h.changes_rename.reply
  effect := h.changes_rename.effect

theorem local_write (content : Bytes) :
    (FileOp.write p content).Local t.SameDirectories (twoNames d n) where
  world := (h.changes_write content).world
  frame := (h.changes_write content).frame
  reply := (h.changes_write content).reply
  effect := (h.changes_write content).effect

/-- A file whose name is not too long can be written. -/
theorem exists_write_eq (hlength : Path.byteLength n ≤ maxNameBytes) (hu : t.SameDirectories u)
    (content : Bytes) : ∃ u', u.write p content = .ok u' := by
  rw [(h.names_of hu).write_eq (hu.linkless _), nodeIn_eq_ok_iff.2 ⟨hlength, rfl⟩]
  cases hnode : u.node? (d ++ [n]) with
  | none => exact ⟨_, rfl⟩
  | some x =>
    obtain ⟨c, rfl⟩ := h.node?_of hu hnode
    exact ⟨_, rfl⟩

/-- The name of a file that can be read is not too long. -/
theorem byteLength_le_of_read (hu : t.SameDirectories u) {content : Bytes}
    (hread : u.read p = .ok content) : Path.byteLength n ≤ maxNameBytes := by
  rw [(h.names_of hu).read_eq (hu.linkless _)] at hread
  cases hnode : u.nodeIn d n with
  | error e =>
    rw [hnode] at hread
    cases hread
  | ok o => exact (nodeIn_eq_ok_iff.1 hnode).1

end IsFileAt

end FileTree

namespace FileProgram

open FileTree

variable {t : FileTree} {p : Path} {d : Location} {n : Text}

/-! ## An action on a file -/

theorem confined_clearBackup (h : t.IsFileAt p d n) :
    (clearBackup p).Confined t.SameDirectories (twoNames d n) fun _ => True := by
  refine (Confined.ask h.local_remove).bind fun r _ => ?_
  split <;> trivial

/-- While a file is saved, nothing has to be taken back. -/
theorem confined_writeOver (h : t.IsFileAt p d n) (hlength : Path.byteLength n ≤ maxNameBytes)
    (content : Text) :
    (writeOver p content).Confined t.SameDirectories (twoNames d n) fun _ => True := by
  refine (Confined.ask (h.local_write _)).bind ?_
  rintro _ ⟨u, hu, rfl⟩
  obtain ⟨u', hwrite⟩ := h.exists_write_eq hlength hu (Utf8.encode content)
  have hreply : ((FileOp.write p (Utf8.encode content)).perform u).1 = Except.ok () := by
    show (FileOp.change u (u.write p (Utf8.encode content))).1 = _
    rw [hwrite]
    rfl
  rw [hreply]
  refine (Confined.ask h.local_remove).bind fun r _ => ?_
  split <;> trivial

theorem confined_save (h : t.IsFileAt p d n) (hlength : Path.byteLength n ≤ maxNameBytes)
    (content : Text) :
    (save p content).Confined t.SameDirectories (twoNames d n) fun _ => True := by
  refine (confined_clearBackup h).bind fun r _ => ?_
  split
  · trivial
  · refine (Confined.ask h.local_rename).bind fun r _ => ?_
    split
    · trivial
    · exact confined_writeOver h hlength content

theorem confined_textFor (h : t.IsFileAt p d n) (action : Action) :
    (textFor action p).Confined t.SameDirectories (twoNames d n) fun r =>
      action.readsContent = true → ∀ text, r = .ok (some text) →
        Path.byteLength n ≤ maxNameBytes := by
  unfold textFor
  split
  · refine (Confined.ask h.local_read).bind ?_
    rintro _ ⟨u, hu, rfl⟩
    cases hread : ((FileOp.read p).perform u).1 with
    | error e =>
      intro _ _ htext
      cases htext
    | ok content =>
      have hlength := h.byteLength_le_of_read hu hread
      simp only
      split
      · split <;> exact fun _ _ _ => hlength
      · exact fun _ _ _ => hlength
  · exact fun hreads => absurd hreads ‹_›

theorem confined_reportOn (h : t.IsFileAt p d n) (action : Action) (language : Option Language) :
    (reportOn action p language).Confined t.SameDirectories (twoNames d n) fun _ => True := by
  refine (confined_textFor h action).bind fun r hr => ?_
  split
  · trivial
  · trivial
  · rename_i text
    split
    · trivial
    · rename_i outcome happly
      have hcarry : (carryOut p outcome).Confined t.SameDirectories (twoNames d n)
          fun _ => True := by
        unfold carryOut
        split
        · trivial
        · rename_i content hnew
          have happly' : action.apply ⟨language, grammarOf language, text⟩
              = .ok ⟨outcome.findings, some content⟩ := by
            rw [happly, ← hnew]
          have hreads := Action.readsContent_of_apply happly'
          refine (confined_save h (hr hreads text rfl) content).bind fun r _ => ?_
          split <;> trivial
      refine hcarry.bind fun r _ => ?_
      split <;> trivial

/-- **An action on a file looks at the file and its backup only.** -/
theorem confined_processFile (h : t.IsFileAt p d n) (action : Action) :
    (processFile action p).Confined t.SameDirectories (twoNames d n) fun _ => True := by
  unfold processFile
  simp only
  split
  · trivial
  · exact (confined_reportOn h action _).bind fun _ _ => trivial

/-- **A file of no language is not looked at.** -/
theorem processFile_of_no_language (action : Action)
    (h : Language.ofFileName? ((Path.fileName? p).getD []) = none) :
    ∃ r, processFile action p = .done r := by
  unfold processFile
  rw [h]
  cases action <;> exact ⟨_, rfl⟩

/-! ## Many files -/

/-- **An action on some files at once**: a program for each of the paths, and nothing to do
for others. -/
def together (action : Action) (ps : List Path) (p : Path) : FileProgram (Option FileReport) :=
  if p ∈ ps then processFile action p else .done none

/-- One file after another is a way of dealing with them at once. -/
theorem exists_interleaves_processAll (action : Action) {qs : List Path} (hqs : qs.Nodup)
    {tasks : Path → FileProgram (Option FileReport)}
    (htasks : ∀ p ∈ qs, tasks p = processFile action p)
    (hdone : ∀ p ∉ qs, ∃ r, tasks p = .done r) (t : FileTree) :
    ∃ results, Interleaves tasks t results ((processAll action qs).run t).2 ∧
      ((processAll action qs).run t).1 = qs.flatMap fun p => (results p).toList := by
  induction qs generalizing tasks t with
  | nil =>
    choose results hresults using fun p => hdone p List.not_mem_nil
    exact ⟨results, .done t hresults, rfl⟩
  | cons p qs ih =>
    obtain ⟨hp, hqs⟩ := List.nodup_cons.1 hqs
    set r := (processFile action p).run t with hr
    have hrun : (processAll action (p :: qs)).run t =
        (r.1.toList ++ ((processAll action qs).run r.2).1, ((processAll action qs).run r.2).2) := by
      simp only [processAll, run_bind, run_pure, hr]
    have htasks' : ∀ q ∈ qs, Function.update tasks p (.done r.1) q = processFile action q := by
      intro q hq
      rw [Function.update_of_ne (ne_of_mem_of_not_mem hq hp)]
      exact htasks q (List.mem_cons_of_mem p hq)
    have hdone' : ∀ q ∉ qs, ∃ r', Function.update tasks p (.done r.1) q = .done r' := by
      intro q hq
      by_cases hqp : q = p
      · exact ⟨r.1, by rw [hqp, Function.update_self]⟩
      · rw [Function.update_of_ne hqp]
        exact hdone q (by simp [hqp, hq])
    obtain ⟨results, hinterleaves, hreports⟩ := ih hqs htasks' hdone' r.2
    have hresult : results p = r.1 :=
      hinterleaves.result_of_done (Function.update_self p _ tasks)
    refine ⟨results, .of_run p (r := r) (by rw [htasks p List.mem_cons_self]) ?_, ?_⟩
    · rwa [hrun]
    · rw [hrun, List.flatMap_cons, hresult, hreports]

/-- The locations that an action on one of some files looks at. -/
def lookedAt (ps : List Path) (d : Location) (p : Path) : Set Location :=
  {l | p ∈ ps ∧ ∃ n, Path.fileName? p = some n ∧ Language.ofFileName? n ≠ none ∧ l ∈ twoNames d n}

/-- **No location is looked at for two files.** -/
theorem disjoint_lookedAt {ps : List Path} (hdistinct : (ps.map Path.fileName?).Nodup)
    (d : Location) : Pairwise fun p q => Disjoint (lookedAt ps d p) (lookedAt ps d q) := by
  intro p q hpq
  rw [Set.disjoint_left]
  rintro l ⟨hp, n, hn, hlanguage, hl⟩ ⟨hq, m, hm, hlanguage', hl'⟩
  have hne : n ≠ m := by
    rintro rfl
    exact hpq (List.inj_on_of_nodup_map hdistinct hp hq (hn.trans hm.symm))
  -- the name of a backup, on either side, belongs to no language
  have hbackup : ∀ {a b : Text}, Language.ofFileName? a ≠ none →
      d ++ [a] ≠ d ++ [Path.backup b] := by
    intro a b ha h
    rw [(List.cons.inj (List.append_cancel_left h)).1] at ha
    exact ha (Language.ofFileName?_backup b)
  rcases mem_twoNames.1 hl with rfl | rfl <;> rcases mem_twoNames.1 hl' with h | h
  · exact hne (by simpa using h)
  · exact hbackup hlanguage h
  · exact hbackup hlanguage' h.symm
  · exact hne (Path.backup_inj (by simpa using h))

/-- **An action on the files of a directory does not depend on the order in which they are
dealt with**, nor on how their steps are mixed: in the end each file has the report that
it would have alone, and the tree is the same. Files that are named like the backup of
another one are no exception. -/
theorem processAll_unordered {ps : List Path} (ht : t.Rooted) (hlinks : t.Linkless)
    (hfiles : ∀ p ∈ ps, ∃ n content, t.Names p d n ∧ t.node? (d ++ [n]) = some (.file content))
    (hdistinct : (ps.map Path.fileName?).Nodup) (action : Action) :
    (∃ results t', Interleaves (together action ps) t results t') ∧
      ∀ results t', Interleaves (together action ps) t results t' →
        (∀ p ∈ ps, results p = ((processFile action p).run t).1) ∧
        ∀ qs : List Path, qs.Perm ps →
          ((processAll action qs).run t).1 = qs.flatMap (fun p => (results p).toList) ∧
          (∀ l, ((processAll action qs).run t).2.node? l = t'.node? l) ∧
          ((processAll action qs).run t).2.workingDir = t'.workingDir := by
  have hworld : t.SameDirectories t := ⟨ht, hlinks, fun _ => Iff.rfl, rfl⟩
  have hconfined : ∀ p, (together action ps p).Confined t.SameDirectories (lookedAt ps d p)
      fun _ => True := by
    intro p
    unfold together
    split
    · rename_i hp
      obtain ⟨n, content, hnames, hfile⟩ := hfiles p hp
      have hname := hnames.fileName?_eq
      cases hlanguage : Language.ofFileName? n with
      | none =>
        obtain ⟨r, hr⟩ :=
          processFile_of_no_language action (p := p) (by rw [hname]; exact hlanguage)
        rw [hr]
        trivial
      | some language =>
        have hlooked : lookedAt ps d p = twoNames d n := by
          ext l
          simp [lookedAt, hp, hname, hlanguage]
        rw [hlooked]
        exact confined_processFile ⟨hlinks, hnames, content, hfile⟩ action
    · trivial
  have hdisjoint := disjoint_lookedAt hdistinct d
  have hordered : ∀ {qs : List Path}, qs.Perm ps →
      ∃ results, Interleaves (together action ps) t results ((processAll action qs).run t).2 ∧
        ((processAll action qs).run t).1 = qs.flatMap fun p => (results p).toList := by
    intro qs hqs
    refine exists_interleaves_processAll action (hqs.nodup_iff.2 (List.Nodup.of_map _ hdistinct))
      (fun p hp => if_pos (hqs.mem_iff.1 hp)) (fun p hp => ⟨none, if_neg ?_⟩) t
    rwa [← hqs.mem_iff]
  refine ⟨?_, fun results t' hrun => ⟨fun p hp => ?_, fun qs hqs => ?_⟩⟩
  · obtain ⟨results, hrun, -⟩ := hordered (List.Perm.refl ps)
    exact ⟨results, _, hrun⟩
  · obtain ⟨-, heach, -⟩ := hrun.separate hdisjoint hconfined hworld
    have hresult := (heach p).1
    rwa [together, if_pos hp] at hresult
  · obtain ⟨results', hrun', hreports⟩ := hordered hqs
    obtain ⟨rfl, hnodes⟩ := hrun'.unique hdisjoint hrun hconfined hworld
    have hwork' := (hrun'.separate hdisjoint hconfined hworld).1.workingDir_eq
    have hwork := (hrun.separate hdisjoint hconfined hworld).1.workingDir_eq
    exact ⟨hreports, hnodes, hwork'.trans hwork.symm⟩

/-- A script, and another file in the place of its backup. -/
def scriptAndBackup : FileTree where
  entries := [(["a.sh".toList], .file (Utf8.encode "#a b\n".toList)),
    (["a.sh.bak".toList], .file (Utf8.encode "#y\n".toList))]

/-- The script gets its new text, and the other file makes way for the backup, without a
report, whenever its turn comes. -/
theorem processAll_unordered_scriptAndBackup :
    let ps := ["a.sh".toList, "a.sh.bak".toList]
    ∃ results t', Interleaves (together .reformat ps) scriptAndBackup results t' ∧
      results "a.sh".toList
        = some ⟨"a.sh".toList, some .sh, [.reformatted], true, []⟩ ∧
      results "a.sh.bak".toList = none ∧
      t'.node? ["a.sh".toList] = some (.file (Utf8.encode "# a b\n".toList)) ∧
      t'.node? ["a.sh.bak".toList] = none := by
  intro ps
  have hfiles : ∀ p ∈ ps, ∃ n content, scriptAndBackup.Names p [] n ∧
      scriptAndBackup.node? ([] ++ [n]) = some (.file content) := by
    intro p hp
    simp only [ps, List.mem_cons, List.not_mem_nil, or_false] at hp
    rcases hp with rfl | rfl
    · exact ⟨"a.sh".toList, Utf8.encode "#a b\n".toList,
        show scriptAndBackup.spot _ = _ by decide +kernel, by decide +kernel⟩
    · exact ⟨"a.sh.bak".toList, Utf8.encode "#y\n".toList,
        show scriptAndBackup.spot _ = _ by decide +kernel, by decide +kernel⟩
  obtain ⟨⟨results, t', hrun⟩, hall⟩ := processAll_unordered
    (.of_entries (by decide) rfl) (.of_entries (by decide)) hfiles (by decide) .reformat
  obtain ⟨halone, hordered⟩ := hall results t' hrun
  obtain ⟨-, hnodes, -⟩ := hordered ps (List.Perm.refl ps)
  refine ⟨results, t', hrun, ?_, ?_, ?_, ?_⟩
  · rw [halone _ (by simp [ps])]
    decide +kernel
  · rw [halone _ (by simp [ps])]
    decide +kernel
  · rw [← hnodes]
    decide +kernel
  · rw [← hnodes]
    decide +kernel

end FileProgram

end LicenseHeader
