import LicenseHeader.Scan.Traverse
import LicenseHeader.Proofs.Hops
import LicenseHeader.Proofs.Walks
import Mathlib.Algebra.BigOperators.Group.List.Basic
import Mathlib.Algebra.GroupWithZero.Nat
import Mathlib.Data.List.Nodup

/-!
# Which files a traversal sees

Scanning and counting are two recursions over directories. One sorts the entries and sees
to the files first, the other takes the entries as they come. Both are compared here with
a third, which is no program but a list: `FileTree.filesBelow` are the locations of the
files below a root, and `FileTree.excludedBelow` is the number of excluded entries.

The list has a description without recursion (`FileTree.mem_filesBelow`): the files that
are not too deep and on whose way nothing is excluded. Scanning reports the list, counting
gives its length.

A tree that can be explored (`FileTree.Explorable`) has no links, every entry once and
proper names. All its paths are short enough to be looked up.
-/

namespace LicenseHeader

/-- The path to something below a root. -/
def Path.below (root : Path) (r : Location) : Path := r.foldl Path.join root

namespace FileTree

variable {t : FileTree} {root : Path} {l : Location} {n : Text} {x : Node}

/-- **A tree that can be explored from a root**, which leads to the directory at a
location. -/
structure Explorable (t : FileTree) (root : Path) (l : Location) : Prop where
  rooted : t.Rooted
  linkless : t.Linkless
  /-- There is one entry for a location. -/
  distinct : (t.entries.map Prod.fst).Nodup
  /-- Names are names. -/
  isName : ∀ {k : Location} {n : Text} {x : Node}, t.node? (k ++ [n]) = some x →
    Path.IsName n ∧ Path.byteLength n ≤ maxNameBytes
  resolve_eq : t.resolve root = .ok l
  directory : t.node? l = some .directory
  /-- No path is too long. -/
  readable : ∀ {r : Location} {x : Node}, t.node? (l ++ r) = some x →
    checkPath (Path.below root r) = .ok ()

/-! ## The entries of a directory -/

/-- With one entry for a location, the entries are the nodes. -/
theorem node?_eq_some_iff (hdistinct : (t.entries.map Prod.fst).Nodup) (hl : l ≠ []) :
    t.node? l = some x ↔ (l, x) ∈ t.entries := by
  refine ⟨mem_of_node? hl, fun hmem => ?_⟩
  obtain ⟨y, hy⟩ := Option.ne_none_iff_exists'.1 (node?_ne_none_of_mem hmem)
  have hentry := List.inj_on_of_nodup_map hdistinct (mem_of_node? hl hy) hmem rfl
  rw [hy, (Prod.mk.inj hentry).2]

/-- How an entry is listed at a location. -/
def listedAt (l : Location) : Location × Node → Option (Text × FileKind)
  | (k, x) =>
    match k.getLast? with
    | some name => if k.dropLast = l then some (name, x.kind) else none
    | none => none

theorem children_eq (t : FileTree) (l : Location) :
    t.children l = t.entries.filterMap (listedAt l) := rfl

/-- An entry that is listed stands directly below the location. -/
theorem listedAt_eq_some_iff {entry : Location × Node} {listed : Text × FileKind} :
    listedAt l entry = some listed ↔ entry.1 = l ++ [listed.1] ∧ entry.2.kind = listed.2 := by
  obtain ⟨k, x⟩ := entry
  obtain ⟨n, kind⟩ := listed
  unfold listedAt
  rcases List.eq_nil_or_concat k with rfl | ⟨init, last, rfl⟩
  · simp
  · simp only [List.concat_eq_append, List.getLast?_concat, List.dropLast_concat]
    constructor
    · intro h
      split at h
      · rename_i hinit
        obtain ⟨rfl, rfl⟩ := Prod.mk.inj (Option.some.inj h)
        exact ⟨by rw [hinit], rfl⟩
      · cases h
    · rintro ⟨hk, rfl⟩
      obtain ⟨rfl, hlast⟩ := List.append_inj' hk rfl
      rw [if_pos rfl, (List.cons.inj hlast).1]

/-- **What stands in a directory** is listed with its kind. -/
theorem mem_children (hdistinct : (t.entries.map Prod.fst).Nodup) {kind : FileKind} :
    (n, kind) ∈ t.children l ↔ ∃ x, t.node? (l ++ [n]) = some x ∧ x.kind = kind := by
  rw [children_eq, List.mem_filterMap]
  constructor
  · rintro ⟨⟨k, x⟩, hmem, h⟩
    obtain ⟨hk, hkind⟩ := listedAt_eq_some_iff.1 h
    simp only at hk hkind
    subst hk
    exact ⟨x, (node?_eq_some_iff hdistinct (by simp)).2 hmem, hkind⟩
  · rintro ⟨x, hnode, hkind⟩
    exact ⟨(l ++ [n], x), mem_of_node? (by simp) hnode, listedAt_eq_some_iff.2 ⟨rfl, hkind⟩⟩

theorem nodup_children (hdistinct : (t.entries.map Prod.fst).Nodup) (l : Location) :
    ((t.children l).map Prod.fst).Nodup := by
  rw [children_eq, List.Nodup, List.pairwise_map, List.pairwise_filterMap]
  rw [List.Nodup, List.pairwise_map] at hdistinct
  refine hdistinct.imp fun {a b} hne c hc d hd heq => hne ?_
  rw [(listedAt_eq_some_iff.1 hc).1, (listedAt_eq_some_iff.1 hd).1, heq]

/-! ## The paths of a traversal -/

theorem kindOf_of_resolve (hl : t.resolve root = .ok l) (hx : t.node? l = some x) :
    t.kindOf root = .ok x.kind := by
  unfold kindOf
  rw [hl]
  simp only [bind, Except.bind, hx]
  rfl

namespace Explorable

/-- Whether a tree can be explored can be seen from its entries. -/
theorem of_entries (hrooted : t.Rooted) (hlinks : t.Linkless)
    (hdistinct : (t.entries.map Prod.fst).Nodup)
    (hnames : ∀ entry ∈ t.entries, ∀ n ∈ entry.1.getLast?,
      Path.IsName n ∧ Path.byteLength n ≤ maxNameBytes)
    (hresolve : t.resolve root = .ok l) (hdir : t.node? l = some .directory)
    (hpaths : ∀ entry ∈ t.entries, l <+: entry.1 →
      checkPath (Path.below root (entry.1.drop l.length)) = .ok ()) : t.Explorable root l where
  rooted := hrooted
  linkless := hlinks
  distinct := hdistinct
  isName {k n x} hx := hnames _ (mem_of_node? (by simp) hx) n (by simp)
  resolve_eq := hresolve
  directory := hdir
  readable {r x} hx := by
    by_cases hr : r = []
    · rw [hr]
      exact (resolve_eq_ok_iff.1 hresolve).1
    · have hentry := hpaths _ (mem_of_node? (by simp [hr]) hx) (List.prefix_append l r)
      rwa [List.drop_left] at hentry

theorem root_ne_nil (h : t.Explorable root l) : root ≠ [] := by
  rintro rfl
  cases h.resolve_eq

/-- **The path to an entry leads to it.** -/
theorem resolve_join (h : t.Explorable root l) (hx : t.node? (l ++ [n]) = some x) :
    t.resolve (Path.join root n) = .ok (l ++ [n]) := by
  obtain ⟨hname, hlength⟩ := h.isName hx
  have hroot := h.root_ne_nil
  have hcheck : checkPath (Path.join root n) = .ok () := h.readable hx
  -- a slash at the end of the root makes no difference
  have hleads : Leads t maxLinks (startOf t.workingDir root) (Path.hops root) l := by
    have hall := (resolve_eq_ok_iff.1 h.resolve_eq).2
    unfold Path.allHops at hall
    split at hall
    · obtain ⟨d, k, -, hfirst, -, hlast⟩ := hall.exists_cut h.rooted
        (directory_startOf h.rooted.workingDir root) (List.cons_ne_nil _ _)
      cases hlast with
      | here next =>
        cases next
        exact hfirst
    · exact hall
  have hstep : ∀ k, t.resolveHops k l [.name n] = .ok (l ++ [n]) := by
    intro k
    rw [resolveHops_name, nodeIn_eq_ok_iff.2 ⟨hlength, hx⟩]
    cases x with
    | file content => rfl
    | directory => exact resolveHops_nil _ _ _
    | link target => exact absurd hx (h.linkless _ _)
  unfold resolve
  rw [hcheck, Path.allHops, Path.endsInSlash_join hname hroot, if_neg Bool.false_ne_true,
    Path.hops_join hname hroot]
  unfold startOf at hleads ⊢
  rw [Path.isAbsolute_join hname hroot]
  exact hleads.resolveHops_append h.directory hstep

theorem kindOf_join (h : t.Explorable root l) (hx : t.node? (l ++ [n]) = some x) :
    t.kindOf (Path.join root n) = .ok x.kind :=
  kindOf_of_resolve (h.resolve_join hx) hx

/-- **A directory in the tree is a root as good as any.** -/
theorem join (h : t.Explorable root l) (hn : t.node? (l ++ [n]) = some .directory) :
    t.Explorable (Path.join root n) (l ++ [n]) where
  rooted := h.rooted
  linkless := h.linkless
  distinct := h.distinct
  isName := h.isName
  resolve_eq := h.resolve_join hn
  directory := hn
  readable {r x} hx := by
    rw [List.append_assoc] at hx
    exact h.readable hx

theorem kindOf_root (h : t.Explorable root l) : t.kindOf root = .ok .directory :=
  kindOf_of_resolve h.resolve_eq h.directory

theorem list_root (h : t.Explorable root l) : t.list root = .ok (t.children l) := by
  unfold list
  rw [h.resolve_eq]
  show (if t.isDirectory l then _ else _) = _
  rw [if_pos (by simp [isDirectory, h.directory])]
  rfl

end Explorable

/-! ## The files below a root -/

variable {patterns : List Pattern}

/-- The names in a directory in the order in which they are gone through. -/
def namesIn (t : FileTree) (l : Location) : List Text :=
  FileProgram.sortNames ((t.children l).map Prod.fst)

/-- **Whether a traversal goes on with an entry**, as with one of a kind. -/
def goesOn (t : FileTree) (patterns : List Pattern) (root : Path) (l : Location) (kind : FileKind)
    (n : Text) : Bool :=
  !Exclude.isExcluded patterns (Path.join root n) && (t.node? (l ++ [n])).map Node.kind == some kind

/-- **The files below a root** that a traversal sees down to a depth, by the names that lead
to them. -/
def filesBelow (t : FileTree) (patterns : List Pattern) :
    (depth : Nat) → Path → Location → List Location
  | 0, root, l => ((t.namesIn l).filter (t.goesOn patterns root l .file)).map fun n => [n]
  | depth + 1, root, l =>
    ((t.namesIn l).filter (t.goesOn patterns root l .file)).map (fun n => [n]) ++
      ((t.namesIn l).filter (t.goesOn patterns root l .directory)).flatMap fun n =>
        (t.filesBelow patterns depth (Path.join root n) (l ++ [n])).map (n :: ·)

/-- The number of excluded entries that a traversal meets. -/
def excludedBelow (t : FileTree) (patterns : List Pattern) : (depth : Nat) → Path → Location → Nat
  | 0, root, l => (t.namesIn l).countP fun n => Exclude.isExcluded patterns (Path.join root n)
  | depth + 1, root, l =>
    (t.namesIn l).countP (fun n => Exclude.isExcluded patterns (Path.join root n)) +
      (((t.namesIn l).filter (t.goesOn patterns root l .directory)).map fun n =>
        t.excludedBelow patterns depth (Path.join root n) (l ++ [n])).sum

theorem perm_namesIn (t : FileTree) (l : Location) :
    (t.namesIn l).Perm ((t.children l).map Prod.fst) := List.mergeSort_perm _ _

/-- The names in a directory are those under which something stands. -/
theorem mem_namesIn (hdistinct : (t.entries.map Prod.fst).Nodup) :
    n ∈ t.namesIn l ↔ ∃ x, t.node? (l ++ [n]) = some x := by
  rw [(t.perm_namesIn l).mem_iff, List.mem_map]
  constructor
  · rintro ⟨⟨n, kind⟩, hmem, rfl⟩
    obtain ⟨x, hx, -⟩ := (mem_children hdistinct).1 hmem
    exact ⟨x, hx⟩
  · rintro ⟨x, hx⟩
    exact ⟨(n, x.kind), (mem_children hdistinct).2 ⟨x, hx, rfl⟩, rfl⟩

theorem goesOn_eq_true_iff {kind : FileKind} :
    t.goesOn patterns root l kind n = true ↔
      Exclude.isExcluded patterns (Path.join root n) = false ∧
        ∃ x, t.node? (l ++ [n]) = some x ∧ x.kind = kind := by
  unfold goesOn
  rw [Bool.and_eq_true, Bool.not_eq_true', beq_iff_eq, Option.map_eq_some_iff]

/-- A directory with which a traversal goes on is a root again. -/
theorem Explorable.join_of_goesOn (h : t.Explorable root l)
    (hn : t.goesOn patterns root l .directory n = true) :
    t.Explorable (Path.join root n) (l ++ [n]) := by
  obtain ⟨-, x, hx, hkind⟩ := goesOn_eq_true_iff.1 hn
  cases x <;> cases hkind
  exact h.join hx

/-- **What it takes for a file to be seen**: it is not too deep, and nothing on the way to
it is excluded. -/
structure Seen (t : FileTree) (patterns : List Pattern) (depth : Nat) (root : Path)
    (l r : Location) : Prop where
  ne_nil : r ≠ []
  file : ∃ content, t.node? (l ++ r) = some (.file content)
  /-- The directories between the root and the file are not more than the depth. -/
  depth : r.dropLast.length ≤ depth
  /-- Neither the file nor one of these directories is excluded. -/
  notExcluded : ∀ q, q ≠ [] → q <+: r → Exclude.isExcluded patterns (Path.below root q) = false

variable {depth : Nat} {r : Location}

/-- The way from a root goes over a first name. -/
theorem forall_prefix_cons_iff {P : Location → Prop} :
    (∀ q, q ≠ [] → q <+: n :: r → P q) ↔ P [n] ∧ ∀ q, q ≠ [] → q <+: r → P (n :: q) := by
  constructor
  · intro h
    refine ⟨h [n] (List.cons_ne_nil _ _) (by simp), fun q _ hq => ?_⟩
    exact h (n :: q) (List.cons_ne_nil _ _) (List.cons_prefix_cons.2 ⟨rfl, hq⟩)
  · rintro ⟨hn, hrest⟩ q hne hq
    rcases List.prefix_cons_iff.1 hq with rfl | ⟨q', rfl, hq'⟩
    · exact absurd rfl hne
    · by_cases hq'' : q' = []
      · rwa [hq'']
      · exact hrest q' hq'' hq'

/-- A file in the root itself. -/
theorem seen_singleton_iff :
    t.Seen patterns depth root l [n] ↔ t.goesOn patterns root l .file n = true := by
  rw [goesOn_eq_true_iff]
  constructor
  · intro h
    obtain ⟨content, hfile⟩ := h.file
    exact ⟨h.notExcluded [n] (List.cons_ne_nil _ _) (List.prefix_refl _), _, hfile, rfl⟩
  · rintro ⟨hexcluded, x, hx, hkind⟩
    cases x <;> cases hkind
    exact ⟨List.cons_ne_nil _ _, ⟨_, hx⟩, Nat.zero_le _,
      forall_prefix_cons_iff.2 ⟨hexcluded, fun q hne hq => absurd (List.prefix_nil.1 hq) hne⟩⟩

/-- **A file further down** is seen from the first directory on the way to it. -/
theorem seen_cons_iff (ht : t.Rooted) (hr : r ≠ []) :
    t.Seen patterns (depth + 1) root l (n :: r) ↔
      t.goesOn patterns root l .directory n = true ∧
        t.Seen patterns depth (Path.join root n) (l ++ [n]) r := by
  have hlocation : l ++ n :: r = l ++ [n] ++ r := by simp
  have hlength : (n :: r).dropLast.length = r.dropLast.length + 1 := by
    rw [List.dropLast_cons_of_ne_nil hr, List.length_cons]
  rw [goesOn_eq_true_iff]
  constructor
  · rintro ⟨-, ⟨content, hfile⟩, hdepth, hexcluded⟩
    rw [hlocation] at hfile
    obtain ⟨hn, hrest⟩ := forall_prefix_cons_iff.1 hexcluded
    exact ⟨⟨hn, _, ht.directory_of_append hr hfile, rfl⟩, hr, ⟨content, hfile⟩, by omega, hrest⟩
  · rintro ⟨⟨hn, -⟩, -, ⟨content, hfile⟩, hdepth, hrest⟩
    refine ⟨List.cons_ne_nil _ _, ⟨content, hlocation ▸ hfile⟩, by omega, ?_⟩
    exact forall_prefix_cons_iff.2 ⟨hn, hrest⟩

/-- At depth zero there is nothing further down. -/
theorem not_seen_cons_zero (hr : r ≠ []) : ¬ t.Seen patterns 0 root l (n :: r) := by
  intro h
  have hdepth := h.depth
  rw [List.dropLast_cons_of_ne_nil hr, List.length_cons] at hdepth
  omega

/-- The names of the files in a root. -/
theorem mem_files_iff (hdistinct : (t.entries.map Prod.fst).Nodup) :
    r ∈ ((t.namesIn l).filter (t.goesOn patterns root l .file)).map (fun n => [n]) ↔
      ∃ n, r = [n] ∧ t.Seen patterns depth root l r := by
  rw [List.mem_map]
  constructor
  · rintro ⟨n, hn, rfl⟩
    exact ⟨n, rfl, seen_singleton_iff.2 (List.mem_filter.1 hn).2⟩
  · rintro ⟨n, rfl, hseen⟩
    have hgoes := seen_singleton_iff.1 hseen
    obtain ⟨-, x, hx, -⟩ := goesOn_eq_true_iff.1 hgoes
    exact ⟨n, List.mem_filter.2 ⟨(mem_namesIn hdistinct).2 ⟨x, hx⟩, hgoes⟩, rfl⟩

/-- **The files below a root are those that are seen.** -/
theorem mem_filesBelow (h : t.Explorable root l) :
    r ∈ t.filesBelow patterns depth root l ↔ t.Seen patterns depth root l r := by
  induction depth generalizing root l r with
  | zero =>
    rw [filesBelow, mem_files_iff h.distinct]
    refine ⟨fun ⟨n, _, hseen⟩ => hseen, fun hseen => ?_⟩
    obtain ⟨n, rest, rfl⟩ := List.exists_cons_of_ne_nil hseen.ne_nil
    by_cases hrest : rest = []
    · exact ⟨n, by rw [hrest], hseen⟩
    · exact absurd hseen (not_seen_cons_zero hrest)
  | succ depth ih =>
    rw [filesBelow, List.mem_append, mem_files_iff h.distinct, List.mem_flatMap]
    constructor
    · rintro (⟨n, -, hseen⟩ | ⟨n, hn, hr⟩)
      · exact hseen
      · obtain ⟨rest, hrest, rfl⟩ := List.mem_map.1 hr
        have hgoes := (List.mem_filter.1 hn).2
        have hseen := (ih (h.join_of_goesOn hgoes)).1 hrest
        exact (seen_cons_iff h.rooted hseen.ne_nil).2 ⟨hgoes, hseen⟩
    · intro hseen
      obtain ⟨n, rest, rfl⟩ := List.exists_cons_of_ne_nil hseen.ne_nil
      by_cases hrest : rest = []
      · exact .inl ⟨n, by rw [hrest], hseen⟩
      · obtain ⟨hgoes, hseen⟩ := (seen_cons_iff h.rooted hrest).1 hseen
        obtain ⟨-, x, hx, -⟩ := goesOn_eq_true_iff.1 hgoes
        refine .inr ⟨n, List.mem_filter.2 ⟨(mem_namesIn h.distinct).2 ⟨x, hx⟩, hgoes⟩, ?_⟩
        exact List.mem_map.2 ⟨rest, (ih (h.join_of_goesOn hgoes)).2 hseen, rfl⟩

/-- **No file is listed twice.** -/
theorem nodup_filesBelow (h : t.Explorable root l) (patterns : List Pattern) (depth : Nat) :
    (t.filesBelow patterns depth root l).Nodup := by
  have hfiles : ∀ root l, (((t.namesIn l).filter (t.goesOn patterns root l .file)).map
      fun n => [n]).Nodup := by
    intro root l
    have hnames := (t.perm_namesIn l).nodup_iff.2 (nodup_children h.distinct l)
    exact (hnames.filter _).map fun _ _ heq => (List.cons.inj heq).1
  induction depth generalizing root l with
  | zero => exact hfiles root l
  | succ depth ih =>
    have hnames := (t.perm_namesIn l).nodup_iff.2 (nodup_children h.distinct l)
    rw [filesBelow]
    refine (hfiles root l).append (List.nodup_flatMap.2 ⟨fun n hn => ?_, ?_⟩) ?_
    · exact (ih (h.join_of_goesOn (List.mem_filter.1 hn).2)).map
        fun _ _ heq => (List.cons.inj heq).2
    · -- locations below different directories begin with different names
      refine (hnames.filter _).imp fun {n m} hne r hn hm => ?_
      obtain ⟨rn, -, rfl⟩ := List.mem_map.1 hn
      obtain ⟨rm, -, heq⟩ := List.mem_map.1 hm
      exact hne (List.cons.inj heq).1.symm
    · intro r hfile hdirectory
      obtain ⟨n, -, rfl⟩ := List.mem_map.1 hfile
      obtain ⟨m, hm, hr⟩ := List.mem_flatMap.1 hdirectory
      obtain ⟨rest, hrest, heq⟩ := List.mem_map.1 hr
      rw [mem_filesBelow (h.join_of_goesOn (List.mem_filter.1 hm).2)] at hrest
      exact hrest.ne_nil (List.cons.inj heq).2

/-- Everything on the way to a node has a name. -/
theorem Explorable.isName_of_mem (h : t.Explorable root l) (hx : t.node? (l ++ r) = some x)
    (hn : n ∈ r) : Path.IsName n := by
  obtain ⟨init, tail, rfl⟩ := List.append_of_mem hn
  have hsplit : l ++ (init ++ n :: tail) = l ++ init ++ [n] ++ tail := by simp
  rw [hsplit] at hx
  by_cases htail : tail = []
  · rw [htail, List.append_nil] at hx
    exact (h.isName hx).1
  · exact (h.isName (h.rooted.directory_of_append htail hx)).1

end FileTree

namespace Path

variable {root : Path}

/-- The hops to something below a root are the names on the way to it. -/
theorem hops_below (hroot : root ≠ []) {r : Location} (hr : ∀ n ∈ r, IsName n) :
    hops (below root r) = hops root ++ r.map .name := by
  induction r generalizing root with
  | nil => exact (List.append_nil _).symm
  | cons n r ih =>
    have hn := hr n List.mem_cons_self
    have hjoin : join root n ≠ [] := by
      obtain ⟨q, -, hq⟩ := exists_join_eq hn hroot
      rw [hq]
      simp
    show hops (below (join root n) r) = _
    rw [ih hjoin fun m hm => hr m (List.mem_cons_of_mem n hm), hops_join hn hroot,
      List.append_assoc]
    rfl

/-- **Different files have different paths.** -/
theorem below_inj (hroot : root ≠ []) {r r' : Location} (hr : ∀ n ∈ r, IsName n)
    (hr' : ∀ n ∈ r', IsName n) (h : below root r = below root r') : r = r' := by
  have hhops := congrArg hops h
  rw [hops_below hroot hr, hops_below hroot hr', List.append_cancel_left_eq] at hhops
  exact List.map_injective_iff.2 (fun _ _ heq => Hop.name.inj heq) hhops

end Path

theorem Tally.mk_add (a b c a' b' c' : Nat) :
    (⟨a, b, c⟩ + ⟨a', b', c'⟩ : Tally) = ⟨a + a', b + b', c + c'⟩ := rfl

namespace FileProgram

open FileTree

variable {t : FileTree} {root : Path} {l : Location} {patterns : List Pattern}

/-- The report on a file that is only described. -/
def described (p : Path) : FileReport where
  path := p
  language := Language.ofFileName? ((Path.fileName? p).getD [])
  findings := [.fileType (Language.ofFileName? ((Path.fileName? p).getD []))]

/-- A description looks at nothing but the name. -/
theorem processFile_describe (p : Path) :
    processFile .describe p = .done (some (described p)) := rfl

theorem run_processAll_describe (ps : List Path) (t : FileTree) :
    (processAll .describe ps).run t = (ps.map described, t) := by
  induction ps with
  | nil => rfl
  | cons p ps ih =>
    simp only [processAll, processFile_describe, run_bind, ih, run_pure, run]
    rfl

/-- **Sifting** puts the names of files and of directories apart. -/
theorem run_sift (h : t.Explorable root l) {ns : List Text}
    (hns : ∀ n ∈ ns, ∃ x, t.node? (l ++ [n]) = some x) :
    (sift patterns (ns.map (Path.join root))).run t =
      ({ files := (ns.filter (t.goesOn patterns root l .file)).map (Path.join root),
         directories := (ns.filter (t.goesOn patterns root l .directory)).map (Path.join root),
         excluded := ns.countP fun n => Exclude.isExcluded patterns (Path.join root n) }, t) := by
  induction ns with
  | nil => rfl
  | cons n ns ih =>
    obtain ⟨x, hx⟩ := hns n List.mem_cons_self
    have hrest := ih fun m hm => hns m (List.mem_cons_of_mem n hm)
    have hgoes : ∀ kind, t.goesOn patterns root l kind n
        = (!Exclude.isExcluded patterns (Path.join root n) && x.kind == kind) := by
      intro kind
      simp [goesOn, hx]
    rw [List.map_cons, sift]
    cases hexcluded : Exclude.isExcluded patterns (Path.join root n) with
    | true =>
      simp only [if_true, run_bind, hrest, run_pure]
      simp [hgoes, hexcluded]
    | false =>
      have hkind : (kindOf (Path.join root n)).run t = (.ok x.kind, t) := by
        show (t.kindOf (Path.join root n), t) = _
        rw [h.kindOf_join hx]
      simp only [Bool.false_eq_true, if_false, run_bind, hkind, hrest]
      cases x with
      | file content => simp [hgoes, hexcluded, Node.kind]
      | directory => simp [hgoes, hexcluded, Node.kind]
      | link target => exact absurd hx (h.linkless _ _)

theorem run_isFile_root (h : t.Explorable root l) : (isFile root).run t = (false, t) := by
  have hkind : (kindOf root).run t = (.ok .directory, t) := by
    show (t.kindOf root, t) = _
    rw [h.kindOf_root]
  simp only [isFile, run_bind, hkind, run_pure]
  rfl

theorem run_list_root (h : t.Explorable root l) :
    (list root).run t = (.ok (t.children l), t) := by
  show (t.list root, t) = _
  rw [h.list_root]

/-- Scanning a root: its files, and then what is below its directories. -/
theorem run_scanRoot (h : t.Explorable root l) {below : List Path → FileProgram Scan} {s : Scan}
    (hbelow : (below (((t.namesIn l).filter (t.goesOn patterns root l .directory)).map
      (Path.join root))).run t = (s, t)) :
    (scanRoot patterns .describe below root).run t =
      (.ok ({ reports := ((t.namesIn l).filter (t.goesOn patterns root l .file)).map fun n =>
                described (Path.join root n),
              excluded := (t.namesIn l).countP fun n =>
                Exclude.isExcluded patterns (Path.join root n) } ++ s), t) := by
  have hsift : (sift patterns ((t.namesIn l).map (Path.join root))).run t = _ :=
    run_sift h fun n hn => (mem_namesIn h.distinct).1 hn
  simp only [scanRoot, run_bind, run_isFile_root h, run_list_root h, Bool.false_eq_true, if_false]
  rw [show sortNames ((t.children l).map Prod.fst) = t.namesIn l from rfl, hsift]
  simp only [run_processAll_describe, hbelow, run_pure, List.map_map]
  rfl

/-- Scanning directories that can all be entered. -/
theorem run_scanAll {scan : Path → FileProgram (Except FileError Scan)} {ns : List Text}
    {f : Text → Scan} (hscan : ∀ n ∈ ns, (scan (Path.join root n)).run t = (.ok (f n), t)) :
    (scanAll scan (ns.map (Path.join root))).run t =
      ({ reports := ns.flatMap fun n => (f n).reports,
         excluded := (ns.map fun n => (f n).excluded).sum,
         warnings := ns.flatMap fun n => (f n).warnings }, t) := by
  induction ns with
  | nil => rfl
  | cons n ns ih =>
    simp only [List.map_cons, scanAll, run_bind, hscan n List.mem_cons_self,
      ih fun m hm => hscan m (List.mem_cons_of_mem n hm), run_pure]
    rfl

/-- **Scanning reports the files below the root**, one by one. -/
theorem run_scan (h : t.Explorable root l) (patterns : List Pattern) (depth : Nat) :
    (scan patterns .describe depth root).run t =
      (.ok { reports := (t.filesBelow patterns depth root l).map fun r =>
               described (Path.below root r),
             excluded := t.excludedBelow patterns depth root l }, t) := by
  induction depth generalizing root l with
  | zero =>
    rw [scan, run_scanRoot h (s := {}) rfl, filesBelow, excludedBelow, List.map_map]
    show (Except.ok (Scan.append _ _), t) = _
    simp only [Scan.append, List.append_nil, Nat.add_zero]
    rfl
  | succ depth ih =>
    have hdirectory : ∀ n ∈ (t.namesIn l).filter (t.goesOn patterns root l .directory),
        t.Explorable (Path.join root n) (l ++ [n]) := fun n hn =>
      h.join_of_goesOn (List.mem_filter.1 hn).2
    rw [scan, run_scanRoot h (run_scanAll fun n hn => ih (hdirectory n hn)), filesBelow,
      excludedBelow]
    show (Except.ok (Scan.append _ _), t) = _
    have hwarnings : ∀ ns : List Text, ns.flatMap (fun _ => ([] : List String)) = [] := by simp
    simp only [Scan.append, List.nil_append, List.map_append, List.map_map, List.map_flatMap,
      hwarnings]
    rfl

/-- Counting the entries of a directory, given the numbers for its directories. -/
theorem exists_run_countEntries (h : t.Explorable root l)
    {below : Path → FileProgram (Except FileError Tally)} {files excluded : Text → Nat}
    {entries : List (Text × FileKind)} (hentries : ∀ entry ∈ entries, entry ∈ t.children l)
    (hbelow : ∀ n, t.goesOn patterns root l .directory n = true →
      ∃ k, (below (Path.join root n)).run t = (.ok ⟨files n, k, excluded n⟩, t)) :
    let ns := entries.map Prod.fst
    let directories := ns.filter (t.goesOn patterns root l .directory)
    ∃ k, (countEntries patterns root below entries).run t =
      (.ok ⟨ns.countP (t.goesOn patterns root l .file) + (directories.map files).sum, k,
        ns.countP (fun n => Exclude.isExcluded patterns (Path.join root n)) +
          (directories.map excluded).sum⟩, t) := by
  induction entries with
  | nil => exact ⟨0, rfl⟩
  | cons entry entries ih =>
    obtain ⟨n, kind⟩ := entry
    obtain ⟨k, hrest⟩ := ih fun entry hentry => hentries entry (List.mem_cons_of_mem _ hentry)
    obtain ⟨x, hx, rfl⟩ := (mem_children h.distinct).1 (hentries _ List.mem_cons_self)
    have hgoes : ∀ kind, t.goesOn patterns root l kind n
        = (!Exclude.isExcluded patterns (Path.join root n) && x.kind == kind) := by
      intro kind
      simp [goesOn, hx]
    simp only [countEntries, List.map_cons]
    cases hexcluded : Exclude.isExcluded patterns (Path.join root n) with
    | true =>
      refine ⟨k, ?_⟩
      simp only [if_true, run_bind, run_pure, hrest, Tally.mk_add]
      simp [hgoes, hexcluded]
      omega
    | false =>
      simp only [Bool.false_eq_true, if_false]
      cases x with
      | file content =>
        refine ⟨k, ?_⟩
        simp only [Node.kind, run_bind, run_pure, hrest, Tally.mk_add]
        simp [hgoes, hexcluded, Node.kind]
        omega
      | directory =>
        obtain ⟨k', hhere⟩ := hbelow n (by simp [hgoes, hexcluded, Node.kind])
        refine ⟨k' + k, ?_⟩
        simp only [Node.kind, run_bind, hhere, hrest, run_pure, Tally.mk_add]
        simp [hgoes, hexcluded, Node.kind]
        omega
      | link target => exact absurd hx (h.linkless _ _)

/-- Counting from a root, given the numbers for its directories. -/
theorem exists_run_countRoot (h : t.Explorable root l) (patterns : List Pattern)
    (below : Path → FileProgram (Except FileError Tally)) (files excluded : Text → Nat)
    (hbelow : ∀ n, t.goesOn patterns root l .directory n = true →
      ∃ k, (below (Path.join root n)).run t = (.ok ⟨files n, k, excluded n⟩, t)) :
    let directories := (t.namesIn l).filter (t.goesOn patterns root l .directory)
    ∃ k, (countRoot patterns below root).run t =
      (.ok ⟨(t.namesIn l).countP (t.goesOn patterns root l .file) + (directories.map files).sum, k,
        (t.namesIn l).countP (fun n => Exclude.isExcluded patterns (Path.join root n)) +
          (directories.map excluded).sum⟩, t) := by
  obtain ⟨k, hentries⟩ := exists_run_countEntries h (fun _ hentry => hentry) hbelow
  -- the order of the entries makes no difference to the numbers
  have hperm := t.perm_namesIn l
  have hdirectories := hperm.filter (t.goesOn patterns root l .directory)
  refine ⟨1 + k, ?_⟩
  simp only [countRoot, run_bind, run_isFile_root h, run_list_root h, hentries, Bool.false_eq_true,
    if_false, run_pure, Tally.mk_add, Nat.zero_add, hperm.countP_eq, (hdirectories.map _).sum_eq]

/-- **Counting counts the files below the root.** -/
theorem exists_run_count (h : t.Explorable root l) (patterns : List Pattern) (depth : Nat) :
    ∃ k, (count patterns depth root).run t =
      (.ok ⟨(t.filesBelow patterns depth root l).length, k,
        t.excludedBelow patterns depth root l⟩, t) := by
  induction depth generalizing root l with
  | zero =>
    obtain ⟨k, hrun⟩ := exists_run_countRoot h patterns (fun _ => return .ok { directories := 1 })
      (fun _ => 0) (fun _ => 0) fun n _ => ⟨1, rfl⟩
    refine ⟨k, ?_⟩
    rw [count, hrun, filesBelow, excludedBelow]
    simp [List.countP_eq_length_filter]
  | succ depth ih =>
    obtain ⟨k, hrun⟩ := exists_run_countRoot h patterns _ _ _ fun n hn => ih (h.join_of_goesOn hn)
    refine ⟨k, ?_⟩
    rw [count, hrun, filesBelow, excludedBelow]
    simp [List.countP_eq_length_filter, List.length_flatMap]

/-- **A traversal is exact, and counting agrees with it.** Describing every file below a
root reports those files, and each once, that are not too deep and on whose way nothing is
excluded. Counting finds as many files, and as many excluded entries. -/
theorem scan_exact (h : t.Explorable root l) (patterns : List Pattern) (depth : Nat) :
    ∃ s tally, (scan patterns .describe depth root).run t = (.ok s, t) ∧
      (count patterns depth root).run t = (.ok tally, t) ∧
      (s.reports.map FileReport.path).Nodup ∧
      (∀ p, p ∈ s.reports.map FileReport.path ↔
        ∃ r, t.Seen patterns depth root l r ∧ p = Path.below root r) ∧
      (∀ report ∈ s.reports, processFile .describe report.path = .done (some report)) ∧
      s.warnings = [] ∧
      tally.files = s.reports.length ∧ tally.excluded = s.excluded := by
  obtain ⟨k, hcount⟩ := exists_run_count h patterns depth
  have hpaths : ((t.filesBelow patterns depth root l).map fun r =>
      described (Path.below root r)).map FileReport.path
        = (t.filesBelow patterns depth root l).map (Path.below root) := by
    rw [List.map_map]
    rfl
  refine ⟨_, _, run_scan h patterns depth, hcount, ?_, fun p => ?_, fun report hreport => ?_, rfl,
    (List.length_map _).symm, rfl⟩
  · rw [hpaths]
    refine (nodup_filesBelow h patterns depth).map_on fun r hr r' hr' heq => ?_
    obtain ⟨content, hfile⟩ := ((mem_filesBelow h).1 hr).file
    obtain ⟨content', hfile'⟩ := ((mem_filesBelow h).1 hr').file
    exact Path.below_inj h.root_ne_nil (fun n => h.isName_of_mem hfile)
      (fun n => h.isName_of_mem hfile') heq
  · rw [hpaths, List.mem_map]
    constructor
    · rintro ⟨r, hr, rfl⟩
      exact ⟨r, (mem_filesBelow h).1 hr, rfl⟩
    · rintro ⟨r, hseen, rfl⟩
      exact ⟨r, (mem_filesBelow h).2 hseen, rfl⟩
  · obtain ⟨r, -, rfl⟩ := List.mem_map.1 hreport
    exact processFile_describe _

/-- Sources in three directories, beside what is not for reading. -/
def sources : FileTree where
  entries := [([".git".toList], .directory), (["a.sh".toList], .file []),
    (["src".toList], .directory), (["src".toList, "A.java".toList], .file []),
    (["src".toList, "A.java~".toList], .file []), (["src".toList, "deep".toList], .directory),
    (["src".toList, "deep".toList, "b.py".toList], .file [])]

/-- Two of the sources are not too deep. -/
theorem scan_exact_sources :
    ∃ s, (scan (Exclude.compile Exclude.defaults) .describe 1 ".".toList).run sources
        = (.ok s, sources) ∧
      s.reports.length = 2 ∧ s.excluded = 2 ∧
      "./a.sh".toList ∈ s.reports.map FileReport.path ∧
      "./src/A.java".toList ∈ s.reports.map FileReport.path := by
  have hrooted : sources.Rooted := .of_entries (by decide) rfl
  have hsources : sources.Explorable ".".toList [] :=
    .of_entries hrooted (.of_entries (by decide)) (by decide) (by decide) (by decide +kernel) rfl
      (by decide +kernel)
  have hcounted : (count (Exclude.compile Exclude.defaults) 1 ".".toList).run sources
      = (.ok ⟨2, 3, 2⟩, sources) := by decide +kernel
  obtain ⟨s, tally, hscan, hcount, -, hpaths, -, -, hfiles, hexcluded⟩ :=
    scan_exact hsources (Exclude.compile Exclude.defaults) 1
  rw [hcounted] at hcount
  obtain rfl := Except.ok.inj (Prod.mk.inj hcount).1
  refine ⟨s, hscan, hfiles.symm, hexcluded.symm, (hpaths _).2 ⟨["a.sh".toList], ?_, rfl⟩,
    (hpaths _).2 ⟨["src".toList, "A.java".toList], ?_, rfl⟩⟩
  · exact seen_singleton_iff.2 (by decide +kernel)
  · exact (seen_cons_iff hrooted (List.cons_ne_nil _ _)).2
      ⟨by decide +kernel, seen_singleton_iff.2 (by decide +kernel)⟩

end FileProgram

end LicenseHeader
