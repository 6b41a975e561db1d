import LicenseHeader.Proofs.Spots

/-!
# Walks in a tree where something has been renamed

Renaming takes everything at and below a location to another one. Here the two are names
in one directory, and the new name is free. Whoever stood below the old name is moved
along, the working directory included, so a walk has to be compared with the walk that
starts where its start has come to and ends where its end has come to
(`FileTree.relocate`).

Every hop of it is a hop of the moved walk, with one exception: the hop to the old name,
which is not there any more. A walk to a directory therefore either arrives at the place
its end was moved to, or comes to nothing at the old name
(`FileTree.Leads.moved`). In the second case the old name was that of a directory or of a
link, since files are not walked over.
-/

namespace LicenseHeader.FileTree

variable {t : FileTree} {d l : Location} {n m c : Text} {x : Node}

/-! ## Locations that move -/

theorem relocate_append (source target r : Location) :
    relocate source target (source ++ r) = target ++ r := by
  unfold relocate
  rw [List.isPrefixOf?_eq_some_iff_append_eq.2 rfl]

theorem relocate_self (source target : Location) : relocate source target source = target := by
  have hself := relocate_append source target []
  rwa [List.append_nil, List.append_nil] at hself

/-- What is not below the source stays. -/
theorem relocate_of_outside {source : Location} (h : ¬ source <+: l) (target : Location) :
    relocate source target l = l := by
  unfold relocate
  cases hprefix : source.isPrefixOf? l with
  | none => rfl
  | some rest => exact absurd ⟨rest, List.isPrefixOf?_eq_some_iff_append_eq.1 hprefix⟩ h

theorem not_isPrefix_concat (d : Location) (n : Text) : ¬ d ++ [n] <+: d := by
  intro h
  have hlength := h.length_le
  rw [List.length_append] at hlength
  exact absurd hlength (by simp)

theorem relocate_directory (d target : Location) (n : Text) :
    relocate (d ++ [n]) target d = d :=
  relocate_of_outside (not_isPrefix_concat d n) target

/-- **A hop to a name** moves along, unless it is the hop to the source. -/
theorem relocate_concat {source : Location} (h : l ++ [c] ≠ source) (target : Location) :
    relocate source target (l ++ [c]) = relocate source target l ++ [c] := by
  by_cases hprefix : source <+: l
  · obtain ⟨r, rfl⟩ := hprefix
    rw [List.append_assoc, relocate_append, relocate_append, List.append_assoc]
  · have hconcat : ¬ source <+: l ++ [c] := by
      rw [List.prefix_concat_iff, not_or]
      exact ⟨Ne.symm h, hprefix⟩
    rw [relocate_of_outside hprefix, relocate_of_outside hconcat]

/-- **A hop to the directory above** moves along. -/
theorem relocate_dropLast (d : Location) (n m : Text) (l : Location) :
    relocate (d ++ [n]) (d ++ [m]) l.dropLast = (relocate (d ++ [n]) (d ++ [m]) l).dropLast := by
  by_cases hprefix : d ++ [n] <+: l
  · obtain ⟨r, rfl⟩ := hprefix
    rw [relocate_append]
    by_cases hr : r = []
    · rw [hr, List.append_nil, List.append_nil, List.dropLast_concat, List.dropLast_concat,
        relocate_directory]
    · rw [List.dropLast_append_of_ne_nil hr, List.dropLast_append_of_ne_nil hr, relocate_append]
  · have habove : ¬ d ++ [n] <+: l.dropLast := fun h => hprefix (h.trans (List.dropLast_prefix l))
    rw [relocate_of_outside hprefix, relocate_of_outside habove]

theorem relocate_startOf (d target : Location) (n : Text) (l : Location) (p : Path) :
    relocate (d ++ [n]) target (startOf l p) = startOf (relocate (d ++ [n]) target l) p := by
  unfold startOf
  split
  · exact relocate_of_outside (by simp) target
  · rfl

/-- Locations that are not below the target stay apart. -/
theorem relocate_inj {source target l' : Location} (h : ¬ target <+: l) (h' : ¬ target <+: l')
    (heq : relocate source target l' = relocate source target l) : l' = l := by
  by_cases hl : source <+: l
  · obtain ⟨r, rfl⟩ := hl
    rw [relocate_append] at heq
    by_cases hl' : source <+: l'
    · obtain ⟨r', rfl⟩ := hl'
      rw [relocate_append] at heq
      rw [List.append_cancel_left heq]
    · rw [relocate_of_outside hl'] at heq
      exact absurd ⟨r, heq.symm⟩ h'
  · rw [relocate_of_outside hl] at heq
    by_cases hl' : source <+: l'
    · obtain ⟨r', rfl⟩ := hl'
      rw [relocate_append] at heq
      exact absurd ⟨r', heq⟩ h
    · rwa [relocate_of_outside hl'] at heq

/-! ## Nodes that move -/

/-- **Two names in a directory of which the second is free.** -/
structure Sibling (t : FileTree) (d : Location) (n m : Text) : Prop where
  ne : n ≠ m
  free : ∀ r, t.node? (d ++ [m] ++ r) = none

/-- In a tree that hangs together it is enough to look at the name. -/
theorem Rooted.sibling (ht : t.Rooted) (hne : n ≠ m) (hfree : t.node? (d ++ [m]) = none) :
    t.Sibling d n m where
  ne := hne
  free r := by
    by_cases hr : r = []
    · rwa [hr, List.append_nil]
    · exact ht.node?_append_eq_none hr (by simp [hfree])

namespace Sibling

/-- Nothing stands at or below a free name. -/
theorem not_below (h : t.Sibling d n m) (hx : t.node? l = some x) : ¬ d ++ [m] <+: l := by
  rintro ⟨r, rfl⟩
  rw [h.free] at hx
  cases hx

/-- **A node moves to where its location comes to.** -/
theorem node?_move (h : t.Sibling d n m) (hx : t.node? l = some x) :
    (t.move (d ++ [n]) (d ++ [m])).node? (relocate (d ++ [n]) (d ++ [m]) l) = some x := by
  have hl := h.not_below hx
  by_cases hnil : l = []
  · have hroot : relocate (d ++ [n]) (d ++ [m]) l = [] := by
      rw [hnil]
      exact relocate_of_outside (by simp) _
    rw [hroot, node?_nil, ← hx, hnil, node?_nil]
  have hroot : relocate (d ++ [n]) (d ++ [m]) l ≠ [] := by
    by_cases hprefix : d ++ [n] <+: l
    · obtain ⟨r, rfl⟩ := hprefix
      rw [relocate_append]
      simp
    · rwa [relocate_of_outside hprefix]
  -- an entry comes to the place of the node exactly if it was at its place before
  have hpred : ∀ entry ∈ t.entries, (entry.1 ≠ d ++ [m] ∧
      relocate (d ++ [n]) (d ++ [m]) entry.1 = relocate (d ++ [n]) (d ++ [m]) l) ↔ entry.1 = l := by
    intro entry hentry
    obtain ⟨y, hy⟩ := Option.ne_none_iff_exists'.1 (node?_ne_none_of_mem hentry)
    have hentry' := h.not_below hy
    constructor
    · exact fun heq => relocate_inj hl hentry' heq.2
    · exact fun heq => ⟨fun heq' => hentry' (heq' ▸ List.prefix_rfl), by rw [heq]⟩
  have hfind : (t.move (d ++ [n]) (d ++ [m])).entries.find?
      (fun entry => entry.1 = relocate (d ++ [n]) (d ++ [m]) l)
        = (t.entries.find? fun entry => entry.1 = l).map fun entry =>
          (relocate (d ++ [n]) (d ++ [m]) entry.1, entry.2) := by
    unfold move erase
    rw [List.find?_map, List.find?_filter, ← List.head?_filter, ← List.head?_filter]
    refine congrArg (fun found : List (Location × Node) => found.head?.map _) ?_
    refine List.filter_congr fun entry hentry => ?_
    exact decide_eq_decide.2 (by simpa using hpred entry hentry)
  unfold node? at hx ⊢
  rw [if_neg hnil] at hx
  rw [if_neg hroot, hfind, Option.map_map, ← hx]
  rfl

theorem node?_move_source (h : t.Sibling d n m) (r : Location) :
    (t.move (d ++ [n]) (d ++ [m])).node? (d ++ [n] ++ r) = none := by
  unfold node?
  rw [if_neg (by simp), Option.map_eq_none_iff, List.find?_eq_none]
  unfold move
  intro entry hentry
  obtain ⟨⟨l, x⟩, -, rfl⟩ := List.mem_map.1 hentry
  simp only [decide_eq_true_eq]
  intro heq
  by_cases hprefix : d ++ [n] <+: l
  · obtain ⟨r', rfl⟩ := hprefix
    rw [relocate_append, List.append_assoc, List.append_assoc] at heq
    exact h.ne (List.head_eq_of_cons_eq (List.append_cancel_left heq)).symm
  · rw [relocate_of_outside hprefix] at heq
    exact hprefix ⟨r, heq.symm⟩

theorem node?_move_name (h : t.Sibling d n m) :
    (t.move (d ++ [n]) (d ++ [m])).node? (d ++ [n]) = none := by
  have hgone := h.node?_move_source []
  rwa [List.append_nil] at hgone

theorem node?_move_target (h : t.Sibling d n m) (hx : t.node? (d ++ [n]) = some x) :
    (t.move (d ++ [n]) (d ++ [m])).node? (d ++ [m]) = some x := by
  have hmoved := h.node?_move hx
  rwa [relocate_self] at hmoved

/-- A name is looked up where its directory has come to, unless it is the old name. -/
theorem nodeIn_move (h : t.Sibling d n m) (hx : t.nodeIn l c = .ok (some x))
    (hne : l ++ [c] ≠ d ++ [n]) :
    (t.move (d ++ [n]) (d ++ [m])).nodeIn (relocate (d ++ [n]) (d ++ [m]) l) c
      = .ok (some x) := by
  obtain ⟨hlength, hnode⟩ := nodeIn_eq_ok_iff.1 hx
  refine nodeIn_eq_ok_iff.2 ⟨hlength, ?_⟩
  rw [← relocate_concat hne]
  exact h.node?_move hnode

theorem nodeIn_move_source (h : t.Sibling d n m) (hlength : Path.byteLength n ≤ maxNameBytes) :
    (t.move (d ++ [n]) (d ++ [m])).nodeIn d n = .ok none :=
  nodeIn_eq_ok_iff.2 ⟨hlength, h.node?_move_name⟩

end Sibling

/-! ## Walks that move -/

/-- **A walk to a directory moves along, or it ends at the old name**, which was then that
of a directory or of a link. -/
theorem Leads.moved {k : Nat} {a : Location} {hs : List Hop} (hleads : Leads t k a hs l)
    (h : t.Sibling d n m) (hl : t.node? l = some .directory) :
    Leads (t.move (d ++ [n]) (d ++ [m])) k (relocate (d ++ [n]) (d ++ [m]) a) hs
        (relocate (d ++ [n]) (d ++ [m]) l) ∨
      (t.move (d ++ [n]) (d ++ [m])).resolveHops k (relocate (d ++ [n]) (d ++ [m]) a) hs
          = .error .notFound ∧
        ∃ x, t.node? (d ++ [n]) = some x ∧ x.kind ≠ .file := by
  -- at the old name the walk finds nothing, wherever it would have gone from there
  have hends : ∀ {k : Nat} {a : Location} {c : Text} {rest : List Hop} {x : Node},
      a ++ [c] = d ++ [n] → t.nodeIn a c = .ok (some x) →
        (t.move (d ++ [n]) (d ++ [m])).resolveHops k (relocate (d ++ [n]) (d ++ [m]) a)
          (.name c :: rest) = .error .notFound := by
    intro k a c rest x heq hx
    obtain ⟨rfl, hc⟩ := List.append_inj' heq rfl
    obtain rfl := List.head_eq_of_cons_eq hc
    rw [relocate_directory, resolveHops_name, h.nodeIn_move_source (nodeIn_eq_ok_iff.1 hx).1]
  induction hleads with
  | arrived => exact .inl .arrived
  | here next ih =>
    rcases ih hl with harrives | ⟨hgone, hkind⟩
    · exact .inl (.here harrives)
    · exact .inr ⟨by rwa [resolveHops_here], hkind⟩
  | up next ih =>
    rw [relocate_dropLast] at ih
    rcases ih hl with harrives | ⟨hgone, hkind⟩
    · exact .inl (.up harrives)
    · exact .inr ⟨by rwa [resolveHops_up], hkind⟩
  | @enter k a l c rest hx next ih =>
    by_cases heq : a ++ [c] = d ++ [n]
    · exact .inr ⟨hends heq hx, .directory, heq ▸ (nodeIn_eq_ok_iff.1 hx).2, by decide⟩
    · have hx' := h.nodeIn_move hx heq
      rw [relocate_concat heq] at ih
      rcases ih hl with harrives | ⟨hgone, hkind⟩
      · exact .inl (.enter hx' harrives)
      · exact .inr ⟨by rwa [resolveHops_name, hx'], hkind⟩
  | file hx =>
    rw [(nodeIn_eq_ok_iff.1 hx).2] at hl
    cases hl
  | @follow k a l c target rest hx next ih =>
    by_cases heq : a ++ [c] = d ++ [n]
    · exact .inr ⟨hends heq hx, .link target, heq ▸ (nodeIn_eq_ok_iff.1 hx).2, by simp [Node.kind]⟩
    · have hx' := h.nodeIn_move hx heq
      rw [relocate_startOf] at ih
      rcases ih hl with harrives | ⟨hgone, hkind⟩
      · exact .inl (.follow hx' harrives)
      · exact .inr ⟨by rwa [resolveHops_name, hx'], hkind⟩

/-- A file and its backup are met in one directory. -/
theorem startOf_backup {p : Path} (hcheck : checkPath p = .ok ()) (l : Location) :
    startOf l (Path.backup p) = startOf l p := by
  have hne : p ≠ [] := by
    rintro rfl
    cases hcheck
  unfold startOf
  rw [Path.isAbsolute_backup hne]

/-- **A path to what is renamed** still leads to the old name, or leads nowhere any more, and
then the path of the backup does not either. -/
theorem Names.moved {p : Path} (hp : t.Names p d n) (h : t.Sibling d n m) :
    (t.move (d ++ [n]) (d ++ [m])).Names p d n ∨
      (t.move (d ++ [n]) (d ++ [m])).spot p = .error .notFound ∧
      (checkPath (Path.backup p) = .ok () →
        (t.move (d ++ [n]) (d ++ [m])).spot (Path.backup p) = .error .notFound) ∧
      ∃ x, t.node? (d ++ [n]) = some x ∧ x.kind ≠ .file := by
  obtain ⟨hcheck, hslash, hdir, hs, hhops, hleads⟩ := names_iff.1 hp
  have hstart : relocate (d ++ [n]) (d ++ [m]) (startOf t.workingDir p)
      = startOf (t.move (d ++ [n]) (d ++ [m])).workingDir p := relocate_startOf ..
  rcases hleads.moved h hdir with harrives | ⟨hgone, hkind⟩
  · rw [hstart, relocate_directory] at harrives
    have hdir' := h.node?_move hdir
    rw [relocate_directory] at hdir'
    exact .inl (names_iff.2 ⟨hcheck, hslash, hdir', hs, hhops, harrives⟩)
  · rw [hstart] at hgone
    have hstart' := startOf_backup hcheck (t.move (d ++ [n]) (d ++ [m])).workingDir
    refine .inr ⟨?_, fun hcheck' => ?_, hkind⟩
    · simp [spot, spotFrom, hcheck, hhops, hgone, bind, Except.bind]
    · simp [spot, spotFrom, hcheck', Path.hops_backup hslash hhops, hstart', hgone, bind,
        Except.bind]

end LicenseHeader.FileTree
