import LicenseHeader.Proofs.Hops
import LicenseHeader.Proofs.Walks
import Mathlib.Data.List.Infix

/-!
# Steps on a name in a directory

Removing, renaming and writing act on the last name of a path, in the directory that
the hops before it lead to. `FileTree.Names` says which directory and which name that
is, and each step is then described by the node under the name alone
(`FileTree.Names.remove_eq`, `FileTree.Names.rename_eq`, `FileTree.Names.write_eq`).
The path is looked at no further.

A path that can be read names something that is no directory
(`FileTree.Rooted.exists_names_of_read`), and the path of its backup names the backup in
the same directory (`FileTree.Names.backup`).
-/

namespace LicenseHeader

namespace FileTree

variable {t t' : FileTree} {p q : Path} {d l : Location} {n m : Text}

theorem concat_ne_nil (d : Location) (n : Text) : d ++ [n] ≠ [] := by simp

theorem concat_backup_ne (d : Location) (n : Text) : d ++ [Path.backup n] ≠ d ++ [n] := by
  simpa using Path.backup_ne_self n

/-- **A path that names something in a directory**, with no slash behind the name. -/
def Names (t : FileTree) (p : Path) (d : Location) (n : Text) : Prop :=
  t.spot p = .ok ⟨d, .name n, false⟩

/-- What it takes to name something: the hops before the name lead to a directory. -/
theorem names_iff :
    t.Names p d n ↔ checkPath p = .ok () ∧ Path.endsInSlash p = false ∧
      t.node? d = some .directory ∧ ∃ hs, Path.hops p = hs ++ [.name n] ∧
        Leads t maxLinks (startOf t.workingDir p) hs d := by
  unfold Names spot spotFrom
  constructor
  · intro h
    cases hcheck : checkPath p with
    | error e => rw [hcheck] at h; cases h
    | ok u =>
      cases hres : t.resolveHops maxLinks (startOf t.workingDir p) (Path.hops p).dropLast with
      | error e => simp [hcheck, hres, bind, Except.bind] at h
      | ok d' =>
        simp only [hcheck, hres, bind, Except.bind] at h
        split at h
        · rename_i hdir
          obtain ⟨rfl, hlast, hslash⟩ := Spot.mk.inj (Except.ok.inj h)
          refine ⟨rfl, hslash, by simpa [isDirectory] using hdir, (Path.hops p).dropLast, ?_,
            leads_of_resolveHops hres⟩
          rcases List.eq_nil_or_concat (Path.hops p) with hnil | ⟨init, last, hconcat⟩
          · rw [hnil] at hlast; cases hlast
          · rw [hconcat, List.concat_eq_append, List.getLast?_concat] at hlast
            rw [hconcat, List.concat_eq_append, List.dropLast_concat, ← hlast]
            rfl
        · cases h
  · rintro ⟨hcheck, hslash, hdir, hs, hhops, hleads⟩
    simp [hcheck, hhops, hleads.resolveHops_eq, isDirectory, hdir, hslash, bind, Except.bind, pure,
      Except.pure]

/-! ## One step at a time -/

/-- Nothing is at a path that no call takes. -/
theorem spot_of_checkPath {e : FileError} (h : checkPath p = .error e) (t : FileTree) :
    t.spot p = .error e := by
  unfold spot
  rw [h]
  rfl

theorem remove_of_checkPath {e : FileError} (h : checkPath p = .error e) (t : FileTree) :
    t.remove p = .error e := by
  unfold remove
  rw [spot_of_checkPath h]
  rfl

namespace Names

/-- A path that names something in a tree names it in every tree where the hops before it
lead to that directory. -/
theorem of_leads (h : t.Names p d n) (hdir : t'.node? d = some .directory)
    (hwork : t'.workingDir = t.workingDir)
    (hleads : ∀ {s : Location} {hs : List Hop}, Leads t maxLinks s hs d →
      Leads t' maxLinks s hs d) : t'.Names p d n := by
  obtain ⟨hcheck, hslash, -, hs, hhops, hhs⟩ := names_iff.1 h
  exact names_iff.2 ⟨hcheck, hslash, hdir, hs, hhops, by rw [hwork]; exact hleads hhs⟩

theorem directory (h : t.Names p d n) : t.node? d = some .directory := (names_iff.1 h).2.2.1

theorem fileName?_eq (h : t.Names p d n) : Path.fileName? p = some n := by
  obtain ⟨-, -, -, hs, hhops, -⟩ := names_iff.1 h
  exact Path.fileName?_of_hops hhops

/-- **The backup of a file stands beside it.** -/
theorem backup (h : t.Names p d n) (hcheck : checkPath (Path.backup p) = .ok ()) :
    t.Names (Path.backup p) d (Path.backup n) := by
  obtain ⟨hcheck', hslash, hdir, hs, hhops, hleads⟩ := names_iff.1 h
  have hne : p ≠ [] := by
    rintro rfl
    cases hcheck'
  refine names_iff.2
    ⟨hcheck, Path.endsInSlash_backup p, hdir, hs, Path.hops_backup hslash hhops, ?_⟩
  unfold startOf at hleads ⊢
  rwa [Path.isAbsolute_backup hne]

/-- **Removing** goes by the node under the name. -/
theorem remove_eq (h : t.Names p d n) :
    t.remove p =
      match t.nodeIn d n with
      | .error e => .error e
      | .ok none => .error .notFound
      | .ok (some .directory) => .error .isDirectory
      | .ok (some _) => .ok (t.erase (d ++ [n])) := by
  unfold remove
  rw [show t.spot p = _ from h]
  simp only [bind, Except.bind]
  rcases t.nodeIn d n with e | _ | _ | _ | _ <;> rfl

/-- **Renaming in a directory** goes by the nodes under the two names. -/
theorem rename_eq (hp : t.Names p d n) (hq : t.Names q d m) (hne : n ≠ m) :
    t.rename p q =
      match t.nodeIn d n with
      | .error e => .error e
      | .ok none => .error .notFound
      | .ok (some x) =>
        match t.nodeIn d m with
        | .error e => .error e
        | .ok old =>
          match t.checkReplace x (d ++ [m]) old with
          | .error e => .error e
          | .ok () => .ok (t.move (d ++ [n]) (d ++ [m])) := by
  have hprefix : ∀ k : Text, (d ++ [k]).isPrefixOf d = false := by
    intro k
    rw [Bool.eq_false_iff]
    intro h
    have hlength := (List.isPrefixOf_iff_prefix.1 h).length_le
    rw [List.length_append] at hlength
    exact absurd hlength (by simp)
  have hlocation : d ++ [n] ≠ d ++ [m] := by simpa using hne
  unfold rename
  rw [show t.spot p = _ from hp, show t.spot q = _ from hq]
  simp only [bind, Except.bind]
  rcases t.nodeIn d n with e | _ | x
  · rfl
  · rfl
  · rcases t.nodeIn d m with e | old
    · rfl
    · simp only [Bool.or_false, Bool.false_eq_true, and_false, hprefix, hlocation, if_false]
      rcases t.checkReplace x (d ++ [m]) old with e | _ <;> rfl

/-- **Writing** goes by the node under the name, where that is no link. -/
theorem write_eq (h : t.Names p d n) (hlink : ∀ target, t.node? (d ++ [n]) ≠ some (.link target))
    (content : Bytes) :
    t.write p content =
      match t.nodeIn d n with
      | .error e => .error e
      | .ok (some .directory) => .error .isDirectory
      | .ok _ => .ok (t.put (d ++ [n]) (.file content)) := by
  have hcheck := (names_iff.1 h).1
  have hfrom : t.spotFrom t.workingDir p = .ok ⟨d, .name n, false⟩ := by
    have hspot : t.spot p = _ := h
    unfold spot at hspot
    rwa [hcheck] at hspot
  unfold write writeTarget
  rw [hcheck, hfrom]
  simp only [bind, Except.bind]
  rcases hn : t.nodeIn d n with e | _ | _ | _ | target
  · rfl
  · rfl
  · rfl
  · rfl
  · exact absurd (nodeIn_eq_ok_iff.1 hn).2 (hlink target)

/-- The path resolves as the hop to the name does. -/
theorem resolve_eq (h : t.Names p d n) {r : Except FileError Location}
    (hr : ∀ k, t.resolveHops k d [.name n] = r) : t.resolve p = r := by
  obtain ⟨hcheck, hslash, hdir, hs, hhops, hleads⟩ := names_iff.1 h
  unfold resolve
  rw [hcheck, Path.allHops, hslash, if_neg Bool.false_ne_true, hhops]
  exact hleads.resolveHops_append hdir hr

/-- **Reading** goes by the node under the name, where that is no link. -/
theorem read_eq (h : t.Names p d n) (hlink : ∀ target, t.node? (d ++ [n]) ≠ some (.link target)) :
    t.read p =
      match t.nodeIn d n with
      | .error e => .error e
      | .ok (some (.file content)) => .ok content
      | .ok (some .directory) => .error .isDirectory
      | .ok _ => .error .notFound := by
  have hresolve := fun r => h.resolve_eq (r := r)
  unfold read
  rcases hn : t.nodeIn d n with e | _ | content | _ | target
  · rw [hresolve (.error e) fun k => by rw [resolveHops_name, hn]]
    rfl
  · rw [hresolve (.error .notFound) fun k => by rw [resolveHops_name, hn]]
    rfl
  · rw [hresolve (.ok (d ++ [n])) fun k => by rw [resolveHops_name, hn]; rfl]
    simp only [bind, Except.bind, (nodeIn_eq_ok_iff.1 hn).2]
    rfl
  · rw [hresolve (.ok (d ++ [n])) fun k => by
      rw [resolveHops_name, hn]; exact resolveHops_nil _ _ _]
    simp only [bind, Except.bind, (nodeIn_eq_ok_iff.1 hn).2]
    rfl
  · exact absurd (nodeIn_eq_ok_iff.1 hn).2 (hlink target)

theorem read_of_file (h : t.Names p d n) {content : Bytes}
    (hfile : t.nodeIn d n = .ok (some (.file content))) : t.read p = .ok content := by
  rw [h.read_eq (by simp [(nodeIn_eq_ok_iff.1 hfile).2]), hfile]

theorem kindOf_of_none (h : t.Names p d n) (hnone : t.nodeIn d n = .ok none) :
    t.kindOf p = .error .notFound := by
  have hresolve : t.resolve p = .error .notFound := by
    refine h.resolve_eq fun k => ?_
    rw [resolveHops_name, hnone]
  unfold kindOf
  rw [hresolve]
  rfl

end Names

/-- **A path that can be read names something that is no directory**: from there a last
hop leads to the file. -/
theorem Rooted.exists_names_of_read (ht : t.Rooted) (hslash : Path.endsInSlash p = false)
    {content : Bytes} (h : t.read p = .ok content) :
    ∃ d n x k l, t.Names p d n ∧ t.nodeIn d n = .ok (some x) ∧ x ≠ .directory ∧
      Leads t k d [.name n] l ∧ t.node? l = some (.file content) := by
  obtain ⟨l, hresolve, hfile⟩ := read_eq_ok_iff.1 h
  obtain ⟨hcheck, hleads⟩ := resolve_eq_ok_iff.1 hresolve
  rw [Path.allHops, hslash, if_neg Bool.false_ne_true] at hleads
  have hstart : t.node? (startOf t.workingDir p) = some .directory :=
    directory_startOf ht.workingDir p
  rcases List.eq_nil_or_concat (Path.hops p) with hnil | ⟨hs, last, hconcat⟩
  · -- without a hop it would lead to a directory
    rw [hnil] at hleads
    cases hleads
    rw [hstart] at hfile
    cases hfile
  · rw [List.concat_eq_append] at hconcat
    rw [hconcat] at hleads
    obtain ⟨d, k, -, hfirst, hdir, hlast⟩ := hleads.exists_cut ht hstart (List.cons_ne_nil _ _)
    have hnames : ∀ {n : Text} {x : Node}, last = .name n → t.nodeIn d n = .ok (some x) →
        x ≠ .directory → ∃ d n x k l, t.Names p d n ∧ t.nodeIn d n = .ok (some x) ∧
          x ≠ .directory ∧ Leads t k d [.name n] l ∧ t.node? l = some (.file content) := by
      rintro n x rfl hnode hx
      exact ⟨d, n, x, k, l, names_iff.2 ⟨hcheck, hslash, hdir, hs, hconcat, hfirst⟩, hnode, hx,
        hlast, hfile⟩
    -- the last hop is not to a directory, since it leads to a file
    cases hlast with
    | here next =>
      cases next
      rw [hdir] at hfile
      cases hfile
    | up next =>
      cases next
      rw [ht.directory_dropLast hdir] at hfile
      cases hfile
    | enter h next =>
      cases next
      rw [(nodeIn_eq_ok_iff.1 h).2] at hfile
      cases hfile
    | file h => exact hnames rfl h (by simp)
    | follow h next => exact hnames rfl h (by simp)

/-! ## Moving a file -/

/-- What has nothing below it is all that moves. -/
theorem relocate_eq {source target : Location}
    (hbelow : ∀ r, r ≠ [] → l ≠ source ++ r) :
    relocate source target l = if l = source then target else l := by
  unfold relocate
  cases hprefix : source.isPrefixOf? l with
  | none =>
    have hne : l ≠ source := by
      rintro rfl
      have hself : l.isPrefixOf? l = some [] :=
        List.isPrefixOf?_eq_some_iff_append_eq.2 (List.append_nil l)
      rw [hself] at hprefix
      cases hprefix
    rw [if_neg hne]
  | some rest =>
    have hl : source ++ rest = l := List.isPrefixOf?_eq_some_iff_append_eq.1 hprefix
    by_cases hrest : rest = []
    · rw [hrest, List.append_nil] at hl
      rw [if_pos hl.symm, hrest]
      exact List.append_nil target
    · exact absurd hl.symm (hbelow rest hrest)

/-- **Moving what has nothing below it** changes two locations and leaves the others. -/
theorem node?_move {source target : Location} (hsource : source ≠ []) (htarget : target ≠ [])
    (hne : source ≠ target) (hbelow : ∀ r, r ≠ [] → t.node? (source ++ r) = none) (k : Location) :
    (t.move source target).node? k =
      if k = target then t.node? source else if k = source then none else t.node? k := by
  have hrelocate : ∀ entry ∈ t.entries,
      relocate source target entry.1 = if entry.1 = source then target else entry.1 := by
    intro entry hentry
    refine relocate_eq fun r hr heq => node?_ne_none_of_mem hentry ?_
    rw [heq]
    exact hbelow r hr
  -- what is found at a location was found before where it came from
  have hfind : (t.move source target).entries.find? (fun entry => entry.1 = k)
      = (t.entries.find? fun entry => entry.1 ≠ target ∧
          (if entry.1 = source then target else entry.1) = k).map fun entry =>
            (relocate source target entry.1, entry.2) := by
    unfold move erase
    rw [List.find?_map, List.find?_filter, ← List.head?_filter, ← List.head?_filter]
    refine congrArg (fun found : List (Location × Node) => found.head?.map _) ?_
    refine List.filter_congr fun entry hentry => ?_
    simp [hrelocate entry hentry]
  unfold node?
  by_cases hk : k = []
  · simp [hk, Ne.symm htarget, Ne.symm hsource]
  rw [if_neg hk, if_neg hsource, if_neg hk, hfind, Option.map_map]
  by_cases hkt : k = target
  · have hpred : (fun entry : Location × Node => decide (entry.1 ≠ target ∧
        (if entry.1 = source then target else entry.1) = k))
          = fun entry => decide (entry.1 = source) := by
      funext entry
      by_cases he : entry.1 = source <;> simp [he, hkt, hne]
    rw [if_pos hkt, hpred]
    rfl
  · rw [if_neg hkt]
    by_cases hks : k = source
    · rw [if_pos hks, Option.map_eq_none_iff, List.find?_eq_none]
      intro entry _
      by_cases he : entry.1 = source <;> simp [he, hks, Ne.symm hne]
    · have hpred : (fun entry : Location × Node => decide (entry.1 ≠ target ∧
          (if entry.1 = source then target else entry.1) = k))
            = fun entry => decide (entry.1 = k) := by
        funext entry
        by_cases he : entry.1 = source
        · simp [he, Ne.symm hkt, Ne.symm hks]
        · by_cases hek : entry.1 = k <;> simp [he, hek, hks, hkt]
      rw [if_neg hks, hpred]
      rfl

namespace Rooted

variable {x : Node}

/-- **Giving another name to something that is no directory** takes it from one location to
another. -/
theorem node?_move (ht : t.Rooted) (hx : t.node? (d ++ [n]) = some x) (hdir : x ≠ .directory)
    (hne : n ≠ m) (k : Location) :
    (t.move (d ++ [n]) (d ++ [m])).node? k =
      if k = d ++ [m] then some x else if k = d ++ [n] then none else t.node? k := by
  have hbelow : ∀ r, r ≠ [] → t.node? (d ++ [n] ++ r) = none := fun r hr =>
    ht.node?_append_eq_none hr (by simpa [hx] using hdir)
  rw [FileTree.node?_move (concat_ne_nil d n) (concat_ne_nil d m) (by simpa using hne) hbelow, hx]

/-- Moving something that is no directory moves nobody who works in the tree. -/
theorem workingDir_move (ht : t.Rooted) (hx : t.node? l = some x) (hdir : x ≠ .directory)
    (target : Location) : (t.move l target).workingDir = t.workingDir := by
  have hne : t.workingDir ≠ l := by
    intro h
    have hwork := ht.workingDir
    rw [h, hx] at hwork
    exact hdir (Option.some.inj hwork)
  show relocate l target t.workingDir = t.workingDir
  rw [relocate_eq fun r hr h => ?_, if_neg hne]
  have hwork := ht.workingDir
  rw [h, ht.node?_append_eq_none hr (by simpa [hx] using hdir)] at hwork
  cases hwork

end Rooted

end FileTree

end LicenseHeader
