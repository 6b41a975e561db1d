import LicenseHeader.Proofs.Moves
import LicenseHeader.Proofs.Saving

/-!
# What a failed save leaves

Saving a file takes four steps, and each can fail after the ones before it have changed
the tree. Nothing is assumed here about what the path leads to: it may be missing, a
directory or a link, end in a slash or lead over itself.

The steps are followed one by one. An old backup is removed, or there is none
(`FileTree.Cleared`). Then renaming succeeds exactly if the path finds something
(`FileTree.finds_of_rename`), and if it does not, the tree without the old backup is what is
left. Once something is renamed, the path leads to the old name or nowhere
(`FileTree.Names.moved`). If it leads nowhere, the content is not written and the backup
cannot be brought back either, as its path leads nowhere too. If it leads to the old name,
the content is written, and all that can fail is to remove the backup, which it does if
that is a directory.

So a failed save leaves the tree as it was in two cases only: the old backup cannot be
removed, or there is none and the path finds nothing
(`FileProgram.failedSave_unchanged_iff`). In all others something is lost or stands under
another name.
-/

namespace LicenseHeader

namespace FileTree

variable {t t₁ t₂ : FileTree} {p q : Path} {d l : Location} {n : Text} {x : Node} {e : FileError}

/-- **A path that finds something**: it names a node that is there. -/
def Finds (t : FileTree) (p : Path) : Prop :=
  ∃ d n x, t.Names p d n ∧ t.nodeIn d n = .ok (some x)

/-- **A tree with room for the backup of a file**: an old one has been removed, or there is
none. -/
def Cleared (t : FileTree) (p : Path) (t₁ : FileTree) : Prop :=
  t.remove (Path.backup p) = .ok t₁ ∨ t.remove (Path.backup p) = .error .notFound ∧ t₁ = t

/-! ## Paths that lead nowhere -/

/-- Where a path leads nowhere, nothing is removed, renamed or written. -/
theorem remove_of_spot (h : t.spot p = .error e) : t.remove p = .error e := by
  unfold remove
  rw [h]
  rfl

theorem rename_of_spot (h : t.spot p = .error e) (q : Path) : t.rename p q = .error e := by
  unfold rename
  rw [h]
  rfl

theorem write_of_spot (h : t.spot p = .error e) (content : Bytes) :
    t.write p content = .error e := by
  unfold spot at h
  unfold write
  cases hcheck : checkPath p with
  | error e' =>
    rw [hcheck] at h
    rw [← Except.error.inj h]
    rfl
  | ok u =>
    rw [hcheck] at h
    have hfrom : t.spotFrom t.workingDir p = .error e := h
    unfold writeTarget
    simp only [bind, Except.bind, hfrom]

/-! ## Paths that lead somewhere -/

/-- What the place of a last hop tells about the path. -/
theorem spot_eq_ok {s : Spot} (h : t.spot p = .ok s) :
    checkPath p = .ok () ∧ Leads t maxLinks (startOf t.workingDir p) (Path.hops p).dropLast s.dir ∧
      t.node? s.dir = some .directory ∧ (Path.hops p).getLast?.getD .here = s.last ∧
      Path.endsInSlash p = s.slash := by
  unfold spot spotFrom at h
  cases hcheck : checkPath p with
  | error e => rw [hcheck] at h; cases h
  | ok u =>
    cases hres : t.resolveHops maxLinks (startOf t.workingDir p) (Path.hops p).dropLast with
    | error e => simp [hcheck, hres, bind, Except.bind] at h
    | ok dir =>
      simp only [hcheck, hres, bind, Except.bind] at h
      split at h
      · rename_i hdir
        obtain rfl := Except.ok.inj h
        exact ⟨rfl, leads_of_resolveHops hres, by simpa [isDirectory] using hdir, rfl, rfl⟩
      · cases h

/-- **What is removed** is named by the path, and it is no directory. -/
theorem remove_eq_ok (h : t.remove p = .ok t₁) :
    ∃ d n x, t.Names p d n ∧ t.nodeIn d n = .ok (some x) ∧ x ≠ .directory ∧
      t₁ = t.erase (d ++ [n]) := by
  have hspots := h
  unfold remove at hspots
  cases hspot : t.spot p with
  | error e => rw [hspot] at hspots; cases hspots
  | ok s =>
    obtain ⟨d, last, slash⟩ := s
    simp only [hspot, bind, Except.bind] at hspots
    cases last with
    | here => cases hspots
    | up => cases hspots
    | name n =>
      rcases hnode : t.nodeIn d n with e | _ | x
      · simp [hnode] at hspots
      · simp [hnode] at hspots
      · cases slash with
        | true => cases x <;> simp [hnode] at hspots
        | false =>
          have hremove := Names.remove_eq hspot
          rw [h, hnode] at hremove
          cases x with
          | directory => cases hremove
          | file content => exact ⟨d, n, _, hspot, hnode, by simp, Except.ok.inj hremove⟩
          | link target => exact ⟨d, n, _, hspot, hnode, by simp, Except.ok.inj hremove⟩

theorem remove_ne_self (h : t.remove p = .ok t₁) : t₁ ≠ t := by
  obtain ⟨d, n, x, -, hnode, -, rfl⟩ := remove_eq_ok h
  intro hsame
  have hgone := node?_erase t (concat_ne_nil d n) (d ++ [n])
  rw [hsame, if_pos rfl, (nodeIn_eq_ok_iff.1 hnode).2] at hgone
  cases hgone

/-- A tree goes on hanging together without something that is no directory. -/
theorem Rooted.erase (ht : t.Rooted) (hl : l ≠ []) (hx : t.node? l ≠ some .directory) :
    (t.erase l).Rooted := by
  have hdirectory : ∀ {k : Location}, t.node? k = some .directory →
      (t.erase l).node? k = some .directory := by
    intro k hk
    have hne : k ≠ l := by
      rintro rfl
      exact hx hk
    rw [node?_erase t hl, if_neg hne, hk]
  constructor
  · intro k c y hy
    rw [node?_erase t hl] at hy
    split at hy
    · cases hy
    · exact hdirectory (ht.parent hy)
  · exact hdirectory ht.workingDir

/-- A path that ends in a slash has its backup inside the directory that it means. -/
theorem dir_spot_backup {s : Spot} (h : t.spot p = .ok ⟨d, .name n, true⟩)
    (hdir : t.nodeIn d n = .ok (some .directory)) (h' : t.spot (Path.backup p) = .ok s) :
    s.dir = d ++ [n] := by
  obtain ⟨hcheck, hleads, hd, hlast, hslash⟩ := spot_eq_ok h
  obtain ⟨-, hleads', -⟩ := spot_eq_ok h'
  rw [startOf_backup hcheck] at hleads'
  obtain ⟨q, rfl⟩ := Path.exists_of_endsInSlash hslash
  have hhops : Path.hops (q ++ ['/']) = Path.hops q := by
    rw [Path.hops_append_slash]
    exact List.append_nil _
  have hbackup : Path.hops (Path.backup (q ++ ['/'])) = Path.hops q ++ [.name ".bak".toList] := by
    rw [Path.backup, List.append_assoc]
    exact Path.hops_append_slash q ".bak".toList
  -- the last hop to the path is one more hop on the way to the backup
  have hconcat : (Path.hops q).dropLast ++ [.name n] = Path.hops q := by
    rw [hhops] at hlast
    cases hgetLast : (Path.hops q).getLast? with
    | none => rw [hgetLast] at hlast; cases hlast
    | some last =>
      rw [hgetLast] at hlast
      obtain rfl : last = .name n := hlast
      exact List.dropLast_append_getLast? _ hgetLast
  rw [hbackup, List.dropLast_concat, ← hconcat] at hleads'
  rw [hhops] at hleads
  have harrives : t.resolveHops maxLinks (startOf t.workingDir (q ++ ['/']))
      ((Path.hops q).dropLast ++ [.name n]) = .ok (d ++ [n]) := by
    refine hleads.resolveHops_append hd fun j => ?_
    rw [resolveHops_name, hdir]
    exact resolveHops_nil _ _ _
  exact Except.ok.inj (hleads'.resolveHops_eq.symm.trans harrives)

/-- **What is renamed** is named by the path, but for a slash that only a directory allows,
and it does not go into itself. -/
theorem rename_eq_ok (h : t.rename p q = .ok t₂) :
    ∃ d n slash s x, t.spot p = .ok ⟨d, .name n, slash⟩ ∧ t.spot q = .ok s ∧
      t.nodeIn d n = .ok (some x) ∧ (slash = true → x = .directory) ∧ ¬ d ++ [n] <+: s.dir := by
  unfold rename at h
  cases hspot : t.spot p with
  | error e => rw [hspot] at h; cases h
  | ok source =>
    cases hspot' : t.spot q with
    | error e => rw [hspot, hspot'] at h; cases h
    | ok target =>
      obtain ⟨d, last, slash⟩ := source
      obtain ⟨d', last', slash'⟩ := target
      simp only [hspot, hspot', bind, Except.bind] at h
      split at h
      · rename_i n n'
        rcases hnode : t.nodeIn d n with e | _ | x
        · simp [hnode] at h
        · simp [hnode] at h
        · rcases hnode' : t.nodeIn d' n' with e | old
          · simp [hnode, hnode'] at h
          · refine ⟨d, n, slash, _, x, rfl, rfl, hnode, fun hslash => ?_, fun hprefix => ?_⟩
            · by_contra hx
              simp [hnode, hnode', hslash, hx] at h
            · have hinto := List.isPrefixOf_iff_prefix.2 hprefix
              simp only [hnode, hnode', hinto, if_true] at h
              split at h <;> cases h
      · cases h

/-- **What is renamed to its backup is found by the path**: if that ended in a slash, it would
have to go into itself. -/
theorem finds_of_rename (h : t.rename p (Path.backup p) = .ok t₂) : t.Finds p := by
  obtain ⟨d, n, slash, s, x, hspot, hspot', hnode, hslash, hinto⟩ := rename_eq_ok h
  cases slash with
  | false => exact ⟨d, n, x, hspot, hnode⟩
  | true =>
    rw [hslash rfl] at hnode
    rw [dir_spot_backup hspot hnode hspot'] at hinto
    exact absurd List.prefix_rfl hinto

end FileTree

namespace FileProgram

open FileTree

variable {t t₁ t₂ : FileTree} {p : Path} {d : Location} {n : Text} {x : Node} {e : FileError}

/-! ## The steps one by one -/

theorem run_clearBackup_of_cleared (h : t.Cleared p t₁) :
    (clearBackup p).run t = (.ok (), t₁) := by
  rcases h with hremove | ⟨hremove, rfl⟩
  · simp only [clearBackup, run_bind, run_remove, hremove]
    rfl
  · simp only [clearBackup, run_bind, run_remove, hremove]
    rfl

/-- **Making room for a backup** fails and changes nothing, or leaves a tree with room. -/
theorem run_clearBackup_or_cleared (p : Path) (t : FileTree) :
    (∃ e, e ≠ .notFound ∧ t.remove (Path.backup p) = .error e ∧
        (clearBackup p).run t = (.error (.staleBackup (Path.backup p) e), t)) ∨
      ∃ t₁, t.Cleared p t₁ := by
  cases hremove : t.remove (Path.backup p) with
  | ok t₁ => exact .inr ⟨t₁, .inl hremove⟩
  | error e =>
    by_cases he : e = .notFound
    · exact .inr ⟨t, .inr ⟨he ▸ hremove, rfl⟩⟩
    · refine .inl ⟨e, he, rfl, ?_⟩
      simp only [clearBackup, run_bind, run_remove, hremove]
      cases e <;> first | rfl | contradiction

/-- Where neither the path nor that of the backup leads anywhere, nothing is written and
nothing brought back. -/
theorem run_writeOver_of_spot (h : t.spot p = .error e)
    (h' : t.spot (Path.backup p) = .error e) (content : Text) :
    (writeOver p content).run t = (.error (.notRestored (Path.backup p) e), t) := by
  simp only [writeOver, restore, run_bind, run_write, write_of_spot h, run_remove,
    remove_of_spot h, run_rename, rename_of_spot h', FileOp.change, run_pure]

/-- **Where the path leads to a name under which nothing stands**, the content is written
there. What is left of the backup is what is not removed. -/
theorem run_writeOver_of_names (hp : t.Names p d n)
    (hnone : t.nodeIn d n = .ok none) (content : Text) :
    (writeOver p content).run t =
      match (t.put (d ++ [n]) (.file (Utf8.encode content))).remove (Path.backup p) with
      | .error e => (.error (.backupLeft (Path.backup p) e),
          t.put (d ++ [n]) (.file (Utf8.encode content)))
      | .ok t' => (.ok (), t') := by
  have hwrite : t.write p (Utf8.encode content)
      = .ok (t.put (d ++ [n]) (.file (Utf8.encode content))) := by
    rw [hp.write_eq (by simp [(nodeIn_eq_ok_iff.1 hnone).2]), hnone]
  simp only [writeOver, run_bind, run_write, hwrite, FileOp.change, run_remove]
  cases (t.put (d ++ [n]) (.file (Utf8.encode content))).remove (Path.backup p) <;> rfl

end FileProgram

namespace FileTree

variable {t t₁ : FileTree} {p : Path} {d : Location} {n : Text} {x : Node}

/-- **A backup that is a directory** is not removed, anything else is. -/
theorem Names.remove_backup (hp : t.Names p d n) (hcheck : checkPath (Path.backup p) = .ok ())
    (hx : t.nodeIn d (Path.backup n) = .ok (some x)) :
    t.remove (Path.backup p) =
      if x = .directory then .error .isDirectory else .ok (t.erase (d ++ [Path.backup n])) := by
  rw [(hp.backup hcheck).remove_eq, hx]
  cases x <;> simp

/-- A path names the same when something is put under a free name. -/
theorem Names.put (hp : t.Names p d n) {l : Location} (hl : l ≠ []) (hnone : t.node? l = none)
    (x : Node) : (t.put l x).Names p d n := by
  have hsub : ∀ {m : Location} {y : Node}, t.node? m = some y → (t.put l x).node? m = some y := by
    intro m y hm
    have hne : m ≠ l := by
      rintro rfl
      rw [hnone] at hm
      cases hm
    rw [node?_put t hl, if_neg hne, hm]
  exact hp.of_leads (hsub hp.directory) rfl fun hleads => hleads.of_subtree hsub

namespace Cleared

theorem rooted (h : t.Cleared p t₁) (ht : t.Rooted) : t₁.Rooted := by
  rcases h with hremove | ⟨-, rfl⟩
  · obtain ⟨d, n, x, -, hnode, hx, rfl⟩ := remove_eq_ok hremove
    refine ht.erase (concat_ne_nil d n) ?_
    rw [(nodeIn_eq_ok_iff.1 hnode).2]
    simpa using hx
  · exact ht

/-- What a path names is named by it also while an old backup is there. -/
theorem names (h : t.Cleared p t₁) (hp : t₁.Names p d n) : t.Names p d n := by
  rcases h with hremove | ⟨-, rfl⟩
  · obtain ⟨d', n', x, -, hnode, hx, rfl⟩ := remove_eq_ok hremove
    have hsub : ∀ {m : Location} {y : Node}, (t.erase (d' ++ [n'])).node? m = some y →
        t.node? m = some y := by
      intro m y hm
      rw [node?_erase t (concat_ne_nil d' n')] at hm
      split at hm
      · cases hm
      · exact hm
    exact hp.of_leads (hsub hp.directory) rfl fun hleads => hleads.of_subtree hsub
  · exact hp

/-- **There is room for the backup**, and nothing but an old one was taken away. -/
theorem nodeIn_backup (h : t.Cleared p t₁) (hp : t₁.Names p d n) :
    checkPath (Path.backup p) = .ok () ∧ t₁.nodeIn d (Path.backup n) = .ok none ∧
      t₁.node? (d ++ [n]) = t.node? (d ++ [n]) := by
  have hrun := FileProgram.run_clearBackup_of_cleared h
  rcases FileProgram.clearBackup_cases (h.names hp) with
    ⟨e, hstale, -⟩ | ⟨t', hclear, hcheck, hlength, -, hcases⟩
  · rw [hrun] at hstale
    cases hstale
  · obtain rfl : t₁ = t' := (Prod.mk.inj (hrun.symm.trans hclear)).2
    rcases hcases with ⟨rfl, -, hnone⟩ | ⟨rfl, -⟩
    · exact ⟨hcheck, nodeIn_eq_ok_iff.2 ⟨hlength, hnone⟩, rfl⟩
    · have hnode := node?_erase t (concat_ne_nil d (Path.backup n))
      refine ⟨hcheck, nodeIn_eq_ok_iff.2 ⟨hlength, ?_⟩, ?_⟩
      · rw [hnode, if_pos rfl]
      · rw [hnode, if_neg (concat_backup_ne d n).symm]

theorem sibling (h : t.Cleared p t₁) (ht : t.Rooted) (hp : t₁.Names p d n) :
    t₁.Sibling d n (Path.backup n) :=
  (h.rooted ht).sibling (Path.backup_ne_self n).symm (nodeIn_eq_ok_iff.1 (h.nodeIn_backup hp).2.1).2

end Cleared

end FileTree

namespace FileProgram

open FileTree

variable {t t₁ t' : FileTree} {p : Path} {d : Location} {n : Text} {x : Node} {e : SaveError}

/-! ## What is left -/

/-- **Where the path finds nothing**, nothing is renamed. -/
theorem run_save_of_not_finds (h : t.Cleared p t₁) (hfinds : ¬ t₁.Finds p) (content : Text) :
    ∃ cause, (save p content).run t = (.error (.noBackup (Path.backup p) cause), t₁) := by
  rw [run_save_of_cleared (run_clearBackup_of_cleared h)]
  cases hrename : t₁.rename p (Path.backup p) with
  | error cause => exact ⟨cause, rfl⟩
  | ok t₂ => exact absurd (finds_of_rename hrename) hfinds

/-- **Where the path finds something**, that is renamed, and then the path leads to its old
name or nowhere. -/
theorem run_save_of_finds (ht : t.Rooted) (h : t.Cleared p t₁) (hp : t₁.Names p d n)
    (hx : t₁.nodeIn d n = .ok (some x)) (content : Text) :
    let t₂ := t₁.move (d ++ [n]) (d ++ [Path.backup n])
    let t₃ := t₂.put (d ++ [n]) (.file (Utf8.encode content))
    (save p content).run t = (.error (.notRestored (Path.backup p) .notFound), t₂) ∧
        x.kind ≠ .file ∨
      (save p content).run t =
        if x = .directory then (.error (.backupLeft (Path.backup p) .isDirectory), t₃)
        else (.ok (), t₃.erase (d ++ [Path.backup n])) := by
  intro t₂ t₃
  obtain ⟨hcheck, hfree, -⟩ := h.nodeIn_backup hp
  have hsibling := h.sibling ht hp
  have hrename : t₁.rename p (Path.backup p) = .ok t₂ := by
    rw [hp.rename_eq (hp.backup hcheck) hsibling.ne, hx, hfree]
    cases x <;> rfl
  have hrun : (save p content).run t = (writeOver p content).run t₂ := by
    rw [run_save_of_cleared (run_clearBackup_of_cleared h), hrename]
  rcases hp.moved hsibling with hp₂ | ⟨hspot, hspot', y, hy, hkind⟩
  · refine .inr ?_
    have hnone : t₂.nodeIn d n = .ok none :=
      hsibling.nodeIn_move_source (nodeIn_eq_ok_iff.1 hx).1
    have hp₃ : t₃.Names p d n :=
      hp₂.put (concat_ne_nil d n) (nodeIn_eq_ok_iff.1 hnone).2 _
    have hbackup : t₃.nodeIn d (Path.backup n) = .ok (some x) := by
      refine nodeIn_eq_ok_iff.2 ⟨(nodeIn_eq_ok_iff.1 hfree).1, ?_⟩
      rw [node?_put t₂ (concat_ne_nil d n), if_neg (concat_backup_ne d n)]
      exact hsibling.node?_move_target (nodeIn_eq_ok_iff.1 hx).2
    rw [hrun, run_writeOver_of_names hp₂ hnone, hp₃.remove_backup hcheck hbackup]
    by_cases hdir : x = .directory
    · rw [if_pos hdir, if_pos hdir]
    · rw [if_neg hdir, if_neg hdir]
  · refine .inl ⟨?_, ?_⟩
    · rw [hrun, run_writeOver_of_spot hspot (hspot' hcheck)]
    · rw [(nodeIn_eq_ok_iff.1 hx).2] at hy
      rwa [Option.some.inj hy]

/-- **What a failed save leaves of something that the path found**: it stands under the name
of the backup, and it was no file. A directory has the new file in its place; otherwise the
path went over what was renamed, and nothing stands there. -/
theorem node?_of_failedSave (ht : t.Rooted) {content : Text}
    (hrun : (save p content).run t = (.error e, t')) (h : t.Cleared p t₁) (hp : t₁.Names p d n)
    (hx : t₁.nodeIn d n = .ok (some x)) :
    t'.node? (d ++ [Path.backup n]) = some x ∧
      (x = .directory ∧ e = .backupLeft (Path.backup p) .isDirectory ∧
          t'.node? (d ++ [n]) = some (.file (Utf8.encode content)) ∨
        x.kind ≠ .file ∧ e = .notRestored (Path.backup p) .notFound ∧
          t'.node? (d ++ [n]) = none) := by
  have hsibling := h.sibling ht hp
  have hmoved := hsibling.node?_move_target (nodeIn_eq_ok_iff.1 hx).2
  rcases run_save_of_finds ht h hp hx content with ⟨hsave, hkind⟩ | hsave
  · obtain ⟨he, rfl⟩ := Prod.mk.inj (hrun.symm.trans hsave)
    exact ⟨hmoved, .inr ⟨hkind, Except.error.inj he, hsibling.node?_move_name⟩⟩
  · by_cases hdir : x = .directory
    · rw [if_pos hdir] at hsave
      obtain ⟨he, rfl⟩ := Prod.mk.inj (hrun.symm.trans hsave)
      have hput := node?_put (t₁.move (d ++ [n]) (d ++ [Path.backup n])) (concat_ne_nil d n)
        (.file (Utf8.encode content))
      refine ⟨?_, .inl ⟨hdir, Except.error.inj he, ?_⟩⟩
      · rw [hput, if_neg (concat_backup_ne d n), hmoved]
      · rw [hput, if_pos rfl]
    · rw [if_neg hdir] at hsave
      cases (Prod.mk.inj (hrun.symm.trans hsave)).1

/-- **When a failed save leaves the tree as it was**: exactly if no old backup was removed
and nothing was renamed, that is, if the old backup could not be removed or if there is none
and the path finds nothing. Otherwise an old backup is lost, or what the path found stands
under the name of the backup. -/
theorem failedSave_unchanged_iff (ht : t.Rooted) {content : Text}
    (hrun : (save p content).run t = (.error e, t')) :
    (t' = t ↔ ∃ cause, t.remove (Path.backup p) = .error cause ∧
      (cause = .notFound → ¬ t.Finds p)) ∧
    (∀ t₁, t.Cleared p t₁ → ¬ t₁.Finds p →
      t' = t₁ ∧ ∃ cause, e = .noBackup (Path.backup p) cause) ∧
    ∀ t₁ d n x, t.Cleared p t₁ → t₁.Names p d n → t₁.nodeIn d n = .ok (some x) →
      t'.node? (d ++ [Path.backup n]) = some x ∧
        (x = .directory ∧ e = .backupLeft (Path.backup p) .isDirectory ∧
            t'.node? (d ++ [n]) = some (.file (Utf8.encode content)) ∨
          x.kind ≠ .file ∧ e = .notRestored (Path.backup p) .notFound ∧
            t'.node? (d ++ [n]) = none) := by
  have hmissed : ∀ t₁, t.Cleared p t₁ → ¬ t₁.Finds p →
      t' = t₁ ∧ ∃ cause, e = .noBackup (Path.backup p) cause := by
    intro t₁ h hfinds
    obtain ⟨cause, hsave⟩ := run_save_of_not_finds h hfinds content
    obtain ⟨he, rfl⟩ := Prod.mk.inj (hrun.symm.trans hsave)
    exact ⟨rfl, cause, Except.error.inj he⟩
  refine ⟨?_, hmissed, fun t₁ d n x h hp hx => node?_of_failedSave ht hrun h hp hx⟩
  rcases run_clearBackup_or_cleared p t with ⟨cause, hne, hremove, hclear⟩ | ⟨t₁, h⟩
  · -- the old backup is in the way
    have hsave : (save p content).run t = (.error (.staleBackup (Path.backup p) cause), t) := by
      simp only [save, run_bind, hclear, run_pure]
    obtain ⟨-, rfl⟩ := Prod.mk.inj (hrun.symm.trans hsave)
    exact iff_of_true rfl ⟨cause, hremove, fun heq => absurd heq hne⟩
  · by_cases hfinds : t₁.Finds p
    · -- what the path found is not where it was
      obtain ⟨d, n, x, hp, hx⟩ := hfinds
      have hchanged : t' ≠ t := by
        rintro rfl
        obtain ⟨-, -, hsame⟩ := h.nodeIn_backup hp
        rw [(nodeIn_eq_ok_iff.1 hx).2] at hsame
        obtain ⟨-, ⟨rfl, -, hfile⟩ | ⟨-, -, hnone⟩⟩ := node?_of_failedSave ht hrun h hp hx
        · rw [hfile] at hsame
          cases hsame
        · rw [hnone] at hsame
          cases hsame
      refine iff_of_false hchanged ?_
      rintro ⟨cause, hremove, hnot⟩
      rcases h with hok | ⟨hmissing, rfl⟩
      · rw [hremove] at hok
        cases hok
      · rw [hremove] at hmissing
        exact hnot (Except.error.inj hmissing) ⟨d, n, x, hp, hx⟩
    · obtain ⟨rfl, -⟩ := hmissed t₁ h hfinds
      rcases h with hok | ⟨hmissing, rfl⟩
      · -- the old backup is lost
        refine iff_of_false (remove_ne_self hok) ?_
        rintro ⟨cause, hremove, -⟩
        rw [hremove] at hok
        cases hok
      · exact iff_of_true rfl ⟨.notFound, hmissing, fun _ => hfinds⟩

/-- A tree with nothing in it but a backup, the last copy of its file, and a directory. -/
def lastCopy : FileTree where
  entries := [(["a.sh.bak".toList], .file (Utf8.encode "old\n".toList)),
    (["d".toList], .directory)]

/-- The file of the backup is missing: it is not saved, and its last copy is gone. The
directory is no file: the content is written in its place. -/
theorem failedSave_unchanged_iff_lastCopy :
    (∃ t', (save "a.sh".toList "new\n".toList).run lastCopy
        = (.error (.noBackup "a.sh.bak".toList .notFound), t') ∧
      t' ≠ lastCopy ∧ t'.node? ["a.sh.bak".toList] = none) ∧
    ∃ t', (save "d".toList "new\n".toList).run lastCopy
        = (.error (.backupLeft "d.bak".toList .isDirectory), t') ∧
      t' ≠ lastCopy ∧ t'.node? ["d.bak".toList] = some .directory := by
  have ht : lastCopy.Rooted := .of_entries (by decide) rfl
  have hrun : (save "a.sh".toList "new\n".toList).run lastCopy
      = (.error (.noBackup "a.sh.bak".toList .notFound), lastCopy.erase ["a.sh.bak".toList]) := by
    decide +kernel
  have hrun' : (save "d".toList "new\n".toList).run lastCopy
      = (.error (.backupLeft "d.bak".toList .isDirectory),
        (lastCopy.move ["d".toList] ["d.bak".toList]).put ["d".toList]
          (.file (Utf8.encode "new\n".toList))) := by
    decide +kernel
  obtain ⟨hiff, -, -⟩ := failedSave_unchanged_iff ht hrun
  obtain ⟨hiff', -, hfound⟩ := failedSave_unchanged_iff ht hrun'
  have hremove : lastCopy.remove (Path.backup "a.sh".toList)
      = .ok (lastCopy.erase ["a.sh.bak".toList]) := by decide +kernel
  have hmissing : lastCopy.remove (Path.backup "d".toList) = .error .notFound := by decide +kernel
  have hnames : lastCopy.Names "d".toList [] "d".toList := by
    show lastCopy.spot "d".toList = .ok ⟨[], .name "d".toList, false⟩
    decide +kernel
  have hnode : lastCopy.nodeIn [] "d".toList = .ok (some .directory) := by decide +kernel
  refine ⟨⟨_, hrun, fun hsame => ?_, by decide +kernel⟩, _, hrun', fun hsame => ?_,
    (hfound _ [] _ _ (.inr ⟨hmissing, rfl⟩) hnames hnode).1⟩
  · obtain ⟨cause, herror, -⟩ := hiff.1 hsame
    rw [hremove] at herror
    cases herror
  · obtain ⟨cause, herror, hnot⟩ := hiff'.1 hsame
    rw [hmissing] at herror
    exact hnot (Except.error.inj herror).symm ⟨_, _, _, hnames, hnode⟩

end FileProgram

end LicenseHeader
