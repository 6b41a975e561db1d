import LicenseHeader.FileTree.Change
import Mathlib.Data.List.Induction

/-!
# Walks that arrive

A path is resolved by recursion over its hops and, inside that, over the links that
may still be followed. What proofs need of it is when a walk arrives, and that is a
relation: `FileTree.Leads` has one constructor for each way to make a hop, and
`FileTree.resolveHops_eq_ok_iff` says that the walk arrives exactly where the relation
leads.

From the relation come, each by one induction over the hops, the facts that statements
on files rest on. A walk keeps arriving when nodes are added
(`FileTree.Leads.of_subtree`) and when more links may be followed. It passes through
directories only, so it can be cut at each of them (`FileTree.Leads.exists_cut`). And
when something other than a directory is taken away, it arrives as before unless it
went over exactly that thing, which is then a link (`FileTree.Leads.erase_cases`).

All of this is about trees that hang together (`FileTree.Rooted`): what stands
somewhere stands in a directory. File systems keep that without being asked to.
-/

namespace LicenseHeader

namespace FileTree

/-- **A tree that hangs together**: everything stands in a directory, and so does
whoever works in it. -/
structure Rooted (t : FileTree) : Prop where
  /-- What holds a node is a directory. -/
  parent : ∀ {l : Location} {n : Text} {x : Node},
    t.node? (l ++ [n]) = some x → t.node? l = some .directory
  /-- Relative paths start in a directory. -/
  workingDir : t.node? t.workingDir = some .directory

/-- A tree without links. -/
def Linkless (t : FileTree) : Prop := ∀ l target, t.node? l ≠ some (.link target)

variable {t t' : FileTree} {d l : Location} {n : Text} {x : Node} {hs rest : List Hop} {k : Nat}

@[simp] theorem node?_nil (t : FileTree) : t.node? [] = some .directory := rfl

theorem mem_of_node? (hl : l ≠ []) (h : t.node? l = some x) : (l, x) ∈ t.entries := by
  unfold node? at h
  rw [if_neg hl, Option.map_eq_some_iff] at h
  obtain ⟨⟨l', x'⟩, hfind, rfl⟩ := h
  have hl' : l' = l := by simpa using List.find?_some hfind
  exact hl' ▸ List.mem_of_find?_eq_some hfind

theorem node?_ne_none_of_mem {entry : Location × Node} (h : entry ∈ t.entries) :
    t.node? entry.1 ≠ none := by
  unfold node?
  split
  · exact Option.some_ne_none _
  · rw [ne_eq, Option.map_eq_none_iff, List.find?_eq_none]
    exact fun hall => hall entry h (by simp)

/-- Whether there are links can be seen from the entries. -/
theorem Linkless.of_entries (h : ∀ entry ∈ t.entries, entry.2.kind ≠ .link) : t.Linkless := by
  intro l target hlink
  by_cases hl : l = []
  · rw [hl, node?_nil] at hlink
    cases hlink
  · exact h _ (mem_of_node? hl hlink) rfl

namespace Rooted

/-- Whether a tree hangs together can be seen from its entries. -/
theorem of_entries (h : ∀ entry ∈ t.entries, t.node? entry.1.dropLast = some .directory)
    (hwork : t.node? t.workingDir = some .directory) : t.Rooted where
  parent {l n x} hnode := by
    have hentry := h _ (mem_of_node? (by simp) hnode)
    rwa [List.dropLast_concat] at hentry
  workingDir := hwork

/-- Everything above a node is a directory. -/
theorem directory_of_append (ht : t.Rooted) {r : Location} (hr : r ≠ [])
    (h : t.node? (l ++ r) = some x) : t.node? l = some .directory := by
  induction r using List.reverseRecOn generalizing x with
  | nil => exact absurd rfl hr
  | append_singleton r n ih =>
    rw [← List.append_assoc] at h
    have hparent := ht.parent h
    by_cases hnil : r = []
    · rwa [hnil, List.append_nil] at hparent
    · exact ih hnil hparent

theorem directory_dropLast (ht : t.Rooted) (h : t.node? d = some .directory) :
    t.node? d.dropLast = some .directory := by
  rcases List.eq_nil_or_concat d with rfl | ⟨d, n, rfl⟩
  · exact h
  · rw [List.concat_eq_append] at h ⊢
    rw [List.dropLast_concat]
    exact ht.parent h

/-- Nothing stands below what is no directory. -/
theorem node?_append_eq_none (ht : t.Rooted) {r : Location} (hr : r ≠ [])
    (h : t.node? l ≠ some .directory) : t.node? (l ++ r) = none := by
  cases hnode : t.node? (l ++ r) with
  | none => rfl
  | some x => exact absurd (ht.directory_of_append hr hnode) h

end Rooted

/-- A path that is met in a directory starts in one. -/
theorem directory_startOf (h : t.node? d = some .directory) (p : Path) :
    t.node? (startOf d p) = some .directory := by
  unfold startOf
  split
  · rfl
  · exact h

/-! ## The node under a name -/

/-- A name that is not too long is looked up. -/
theorem nodeIn_eq_ok_iff {o : Option Node} :
    t.nodeIn d n = .ok o ↔ Path.byteLength n ≤ maxNameBytes ∧ t.node? (d ++ [n]) = o := by
  unfold nodeIn
  split
  · exact iff_of_false (by simp) (by omega)
  · simp only [Except.ok.injEq]
    exact ⟨fun h => ⟨by omega, h⟩, And.right⟩

/-- What is found under a name depends on the node there alone. -/
theorem nodeIn_congr (h : t.node? (d ++ [n]) = t'.node? (d ++ [n])) :
    t.nodeIn d n = t'.nodeIn d n := by
  unfold nodeIn
  rw [h]

/-! ## Walking -/

@[simp] theorem resolveHops_nil (t : FileTree) (k : Nat) (d : Location) :
    t.resolveHops k d [] = .ok d := by
  cases k <;> rfl

@[simp] theorem resolveHops_here (t : FileTree) (k : Nat) (d : Location) (rest : List Hop) :
    t.resolveHops k d (.here :: rest) = t.resolveHops k d rest := by
  cases k <;> rfl

@[simp] theorem resolveHops_up (t : FileTree) (k : Nat) (d : Location) (rest : List Hop) :
    t.resolveHops k d (.up :: rest) = t.resolveHops k d.dropLast rest := by
  cases k <;> rfl

/-- **A hop to a name** goes by what stands there. -/
theorem resolveHops_name (t : FileTree) (k : Nat) (d : Location) (n : Text) (rest : List Hop) :
    t.resolveHops k d (.name n :: rest) =
      match t.nodeIn d n with
      | .error e => .error e
      | .ok none => .error .notFound
      | .ok (some .directory) => t.resolveHops k (d ++ [n]) rest
      | .ok (some (.file _)) => if rest = [] then .ok (d ++ [n]) else .error .notDirectory
      | .ok (some (.link target)) =>
        match k with
        | 0 => .error .tooManyLinks
        | k + 1 => t.resolveHops k (startOf d target) (Path.allHops target ++ rest) := by
  cases k <;>
  · rw [resolveHops, resolveWith]
    rcases t.nodeIn d n with e | _ | _ | _ | _ <;> rfl

/-- **Where hops from a directory lead**, at most `k` links being followed. -/
inductive Leads (t : FileTree) : (k : Nat) → Location → List Hop → Location → Prop
  /-- Without a hop, to where it starts. -/
  | arrived {k : Nat} {d : Location} : Leads t k d [] d
  /-- A hop that goes nowhere. -/
  | here {k : Nat} {d l : Location} {rest : List Hop} (next : Leads t k d rest l) :
      Leads t k d (.here :: rest) l
  /-- A hop to the directory above. -/
  | up {k : Nat} {d l : Location} {rest : List Hop} (next : Leads t k d.dropLast rest l) :
      Leads t k d (.up :: rest) l
  /-- A hop into a directory. -/
  | enter {k : Nat} {d l : Location} {n : Text} {rest : List Hop}
      (h : t.nodeIn d n = .ok (some .directory)) (next : Leads t k (d ++ [n]) rest l) :
      Leads t k d (.name n :: rest) l
  /-- A last hop to a file. -/
  | file {k : Nat} {d : Location} {n : Text} {content : Bytes}
      (h : t.nodeIn d n = .ok (some (.file content))) : Leads t k d [.name n] (d ++ [n])
  /-- A hop to a link, on which the hops of the link come first. -/
  | follow {k : Nat} {d l : Location} {n : Text} {target : Path} {rest : List Hop}
      (h : t.nodeIn d n = .ok (some (.link target)))
      (next : Leads t k (startOf d target) (Path.allHops target ++ rest) l) :
      Leads t (k + 1) d (.name n :: rest) l

namespace Leads

theorem resolveHops_eq (h : Leads t k d hs l) : t.resolveHops k d hs = .ok l := by
  induction h with
  | arrived => exact resolveHops_nil _ _ _
  | here next ih => rwa [resolveHops_here]
  | up next ih => rwa [resolveHops_up]
  | enter h next ih => rwa [resolveHops_name, h]
  | file h => rw [resolveHops_name, h]; rfl
  | follow h next ih => rwa [resolveHops_name, h]

end Leads

theorem leads_of_resolveHops (h : t.resolveHops k d hs = .ok l) : Leads t k d hs l := by
  -- behind a link fewer links are left to follow, behind any other hop fewer hops
  induction k using Nat.strongRecOn generalizing d hs with
  | ind k ihk =>
    induction hs generalizing d with
    | nil =>
      rw [resolveHops_nil] at h
      exact Except.ok.inj h ▸ .arrived
    | cons hop rest ih =>
      cases hop with
      | here => exact .here (ih (by rwa [resolveHops_here] at h))
      | up => exact .up (ih (by rwa [resolveHops_up] at h))
      | name n =>
        rw [resolveHops_name] at h
        split at h
        · cases h
        · cases h
        · exact .enter ‹_› (ih h)
        · split at h
          · rw [‹rest = []›, ← Except.ok.inj h]
            exact .file ‹_›
          · cases h
        · cases k with
          | zero => cases h
          | succ k => exact .follow ‹_› (ihk k (Nat.lt_succ_self k) h)

/-- **A walk arrives exactly where its hops lead.** -/
theorem resolveHops_eq_ok_iff : t.resolveHops k d hs = .ok l ↔ Leads t k d hs l :=
  ⟨leads_of_resolveHops, Leads.resolveHops_eq⟩

namespace Leads

/-- A walk that arrives goes on arriving when more links may be followed. -/
theorem of_le (h : Leads t k d hs l) {k' : Nat} (hk : k ≤ k') : Leads t k' d hs l := by
  induction h generalizing k' with
  | arrived => exact .arrived
  | here next ih => exact .here (ih hk)
  | up next ih => exact .up (ih hk)
  | enter h next ih => exact .enter h (ih hk)
  | file h => exact .file h
  | follow h next ih =>
    obtain ⟨j, rfl⟩ := Nat.exists_eq_add_one_of_ne_zero (show k' ≠ 0 by omega)
    exact .follow h (ih (by omega))

/-- The same hops lead to one place, whatever the number of links. -/
theorem unique {k' : Nat} {l' : Location} (h : Leads t k d hs l) (h' : Leads t k' d hs l') :
    l = l' := by
  have hl := (h.of_le (Nat.le_max_left k k')).resolveHops_eq
  have hl' := (h'.of_le (Nat.le_max_right k k')).resolveHops_eq
  exact Except.ok.inj (hl.symm.trans hl')

/-- **A walk keeps arriving when nodes are added.** -/
theorem of_subtree (h : Leads t k d hs l)
    (hsub : ∀ {m : Location} {x : Node}, t.node? m = some x → t'.node? m = some x) :
    Leads t' k d hs l := by
  have hnode : ∀ {d : Location} {n : Text} {x : Node}, t.nodeIn d n = .ok (some x) →
      t'.nodeIn d n = .ok (some x) := fun h =>
    nodeIn_eq_ok_iff.2 ⟨(nodeIn_eq_ok_iff.1 h).1, hsub (nodeIn_eq_ok_iff.1 h).2⟩
  induction h with
  | arrived => exact .arrived
  | here next ih => exact .here ih
  | up next ih => exact .up ih
  | enter h next ih => exact .enter (hnode h) ih
  | file h => exact .file (hnode h)
  | follow h next ih => exact .follow (hnode h) ih

/-- **A walk can be cut where more hops follow**, and there is a directory there. -/
theorem exists_cut (ht : t.Rooted) (hd : t.node? d = some .directory) (hrest : rest ≠ [])
    (h : Leads t k d (hs ++ rest) l) :
    ∃ d' k', k' ≤ k ∧ Leads t k d hs d' ∧ t.node? d' = some .directory ∧
      Leads t k' d' rest l := by
  induction k using Nat.strongRecOn generalizing d hs with
  | ind k ihk =>
    induction hs generalizing d with
    | nil => exact ⟨d, k, Nat.le_refl k, .arrived, hd, h⟩
    | cons hop hs ih =>
      rw [List.cons_append] at h
      generalize hall : hs ++ rest = tail at h
      cases h with
      | here next =>
        subst hall
        obtain ⟨d', k', hle, hfirst, hdir, hlast⟩ := ih hd next
        exact ⟨d', k', hle, .here hfirst, hdir, hlast⟩
      | up next =>
        subst hall
        obtain ⟨d', k', hle, hfirst, hdir, hlast⟩ := ih (ht.directory_dropLast hd) next
        exact ⟨d', k', hle, .up hfirst, hdir, hlast⟩
      | enter h next =>
        subst hall
        obtain ⟨d', k', hle, hfirst, hdir, hlast⟩ := ih (nodeIn_eq_ok_iff.1 h).2 next
        exact ⟨d', k', hle, .enter h hfirst, hdir, hlast⟩
      | file h => exact absurd (List.append_eq_nil_iff.1 hall).2 hrest
      | @follow j _ _ _ target _ h next =>
        rw [← hall, ← List.append_assoc] at next
        obtain ⟨d', k', hle, hfirst, hdir, hlast⟩ :=
          ihk j (Nat.lt_succ_self j) (directory_startOf hd target) next
        exact ⟨d', k', Nat.le_succ_of_le hle, .follow h hfirst, hdir, hlast⟩

/-- **Hops behind a walk that arrives at a directory** are made from there, if they end
alike however many links are left. -/
theorem resolveHops_append (h : Leads t k d hs l) (hl : t.node? l = some .directory)
    {r : Except FileError Location} (hr : ∀ j, t.resolveHops j l rest = r) :
    t.resolveHops k d (hs ++ rest) = r := by
  induction h with
  | @arrived k d => exact hr k
  | here next ih => rw [List.cons_append, resolveHops_here, ih hl hr]
  | up next ih => rw [List.cons_append, resolveHops_up, ih hl hr]
  | enter h next ih =>
    rw [List.cons_append, resolveHops_name, h]
    exact ih hl hr
  | file h =>
    rw [(nodeIn_eq_ok_iff.1 h).2] at hl
    cases hl
  | follow h next ih =>
    have hmore := ih hl hr
    rw [List.append_assoc] at hmore
    rw [List.cons_append, resolveHops_name, h]
    exact hmore

/-- **Taking away something that is no directory** lets a walk to a directory arrive as
before, unless the walk went over exactly that. It is then a link, and the walk ends
there. -/
theorem erase_cases (h : Leads t k d hs l) (hl : t.node? l = some .directory) {m : Location}
    (hm : m ≠ []) (hnode : t.node? m ≠ some .directory) :
    Leads (t.erase m) k d hs l ∨
      (t.erase m).resolveHops k d hs = .error .notFound ∧
        ∃ (target : Path) (k' : Nat) (tail : List Hop), t.node? m = some (.link target) ∧
          Leads t k' (startOf m.dropLast target) (Path.allHops target ++ tail) l := by
  -- a hop to another place finds there what it found before
  have hother : ∀ {d : Location} {n : Text}, d ++ [n] ≠ m →
      (t.erase m).nodeIn d n = t.nodeIn d n := by
    intro d n hne
    exact nodeIn_congr (by rw [node?_erase t hm, if_neg hne])
  induction h with
  | arrived => exact .inl .arrived
  | here next ih =>
    rcases ih hl with harrives | ⟨hends, hlink⟩
    · exact .inl (.here harrives)
    · exact .inr ⟨by rwa [resolveHops_here], hlink⟩
  | up next ih =>
    rcases ih hl with harrives | ⟨hends, hlink⟩
    · exact .inl (.up harrives)
    · exact .inr ⟨by rwa [resolveHops_up], hlink⟩
  | @enter k d l n tail h next ih =>
    have hne : d ++ [n] ≠ m := by
      rintro rfl
      exact hnode (nodeIn_eq_ok_iff.1 h).2
    have h' := (hother hne).trans h
    rcases ih hl with harrives | ⟨hends, hlink⟩
    · exact .inl (.enter h' harrives)
    · exact .inr ⟨by rwa [resolveHops_name, h'], hlink⟩
  | file h =>
    rw [(nodeIn_eq_ok_iff.1 h).2] at hl
    cases hl
  | @follow k d l n target tail h next ih =>
    by_cases heq : d ++ [n] = m
    · refine .inr ⟨?_, target, k, tail, ?_, ?_⟩
      · have hgone : (t.erase m).nodeIn d n = .ok none :=
          nodeIn_eq_ok_iff.2 ⟨(nodeIn_eq_ok_iff.1 h).1, by rw [node?_erase t hm, if_pos heq]⟩
        rw [resolveHops_name, hgone]
      · rw [← heq]
        exact (nodeIn_eq_ok_iff.1 h).2
      · rw [← heq, List.dropLast_concat]
        exact next
    · have h' := (hother heq).trans h
      rcases ih hl with harrives | ⟨hends, hlink⟩
      · exact .inl (.follow h' harrives)
      · exact .inr ⟨by rwa [resolveHops_name, h'], hlink⟩

end Leads

/-- A path leads somewhere if it is no fault by itself and its hops lead there. -/
theorem resolve_eq_ok_iff {p : Path} :
    t.resolve p = .ok l ↔
      checkPath p = .ok () ∧ Leads t maxLinks (startOf t.workingDir p) (Path.allHops p) l := by
  unfold resolve
  rw [← resolveHops_eq_ok_iff]
  cases checkPath p with
  | error e => exact iff_of_false nofun (fun h => nomatch h.1)
  | ok u => exact ⟨fun h => ⟨rfl, h⟩, And.right⟩

/-- What is read is the content of the file that the path leads to. -/
theorem read_eq_ok_iff {p : Path} {content : Bytes} :
    t.read p = .ok content ↔ ∃ l, t.resolve p = .ok l ∧ t.node? l = some (.file content) := by
  unfold read
  cases t.resolve p with
  | error e => exact iff_of_false nofun (fun ⟨_, h, _⟩ => nomatch h)
  | ok l =>
    simp only [bind, Except.bind]
    constructor
    · intro h
      refine ⟨l, rfl, ?_⟩
      split at h
      · rename_i hnode
        rw [hnode, Except.ok.inj h]
      · cases h
      · cases h
    · rintro ⟨l', hl, hnode⟩
      rw [← Except.ok.inj hl] at hnode
      rw [hnode]
      rfl

end FileTree

end LicenseHeader
