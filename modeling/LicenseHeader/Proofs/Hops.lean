import LicenseHeader.FileTree.Walk

/-!
# The hops of a path

Paths are put together in two ways: a name is put below a directory, and an ending is
put to a name to get the name of its backup. Both act on the last hop of the path and
leave the others as they are (`Path.hops_join`, `Path.hops_backup`). That is why a file
and its backup stand in one directory, whatever the path to it looks like.
-/

namespace LicenseHeader.Path

/-- The hop to a part of a path. -/
def hopTo (part : Text) : Hop :=
  if part = ['.'] then .here else if part = ['.', '.'] then .up else .name part

theorem hops_eq (p : Path) : hops p = ((parts p).filter fun part => part != []).map hopTo := rfl

/-- Only the part that is a name is a hop to that name. -/
theorem hopTo_eq_name_iff {part n : Text} :
    hopTo part = .name n ↔ part = n ∧ n ≠ ['.'] ∧ n ≠ ['.', '.'] := by
  unfold hopTo
  constructor
  · intro h
    split at h
    · cases h
    · split at h
      · cases h
      · obtain rfl := Hop.name.inj h
        exact ⟨rfl, ‹_›, ‹_›⟩
  · rintro ⟨rfl, hdot, hdots⟩
    rw [if_neg hdot, if_neg hdots]

/-! ## Parts -/

theorem parts_ne_nil (p : Path) : parts p ≠ [] := by
  fun_induction parts p with
  | case1 => exact List.cons_ne_nil _ _
  | case2 rest ih => exact List.cons_ne_nil _ _
  | case3 c rest hc hparts ih => exact List.cons_ne_nil _ _
  | case4 c rest hc part more hparts ih => exact List.cons_ne_nil _ _

theorem parts_cons_of_ne {c : Char} (hc : c ≠ '/') (rest : Path) :
    ∃ part more, parts rest = part :: more ∧ parts (c :: rest) = (c :: part) :: more := by
  obtain ⟨part, more, hparts⟩ := List.exists_cons_of_ne_nil (parts_ne_nil rest)
  exact ⟨part, more, hparts, by rw [parts, if_neg hc, hparts]⟩

theorem parts_of_notMem {s : Text} (hs : '/' ∉ s) : parts s = [s] := by
  induction s with
  | nil => rfl
  | cons c s ih =>
    rw [List.mem_cons, not_or] at hs
    rw [parts, if_neg (Ne.symm hs.1), ih hs.2]

/-- **A slash separates parts.** -/
theorem parts_append_slash (p s : Path) : parts (p ++ '/' :: s) = parts p ++ parts s := by
  induction p with
  | nil => rfl
  | cons c p ih =>
    by_cases hc : c = '/'
    · subst hc
      show [] :: parts (p ++ '/' :: s) = ([] :: parts p) ++ parts s
      rw [ih]
      rfl
    · obtain ⟨part, more, hparts, hcons⟩ := parts_cons_of_ne hc p
      rw [hcons, List.cons_append, parts, if_neg hc, ih, hparts]
      rfl

theorem exists_last_slash {p : Path} (hp : '/' ∈ p) : ∃ q s, p = q ++ '/' :: s ∧ '/' ∉ s := by
  induction p with
  | nil => cases hp
  | cons c p ih =>
    by_cases hmem : '/' ∈ p
    · obtain ⟨q, s, rfl, hs⟩ := ih hmem
      exact ⟨c :: q, s, rfl, hs⟩
    · obtain rfl := (List.mem_cons.1 hp).resolve_right hmem
      exact ⟨[], p, rfl, hmem⟩

/-- **The last part of a path.** What holds no slash and is put to the path is put to
that part. In a path that does not end in a slash it is not empty. -/
theorem exists_last_part {p : Path} (hne : p ≠ []) (hslash : endsInSlash p = false) :
    ∃ init last, last ≠ [] ∧ parts p = init ++ [last] ∧
      ∀ s, '/' ∉ s → parts (p ++ s) = init ++ [last ++ s] := by
  by_cases hmem : '/' ∈ p
  · obtain ⟨q, last, rfl, hlast⟩ := exists_last_slash hmem
    refine ⟨parts q, last, ?_, ?_, fun s hs => ?_⟩
    · rintro rfl
      unfold endsInSlash Text.endsWithChar at hslash
      rw [List.getLast?_concat] at hslash
      cases hslash
    · rw [parts_append_slash, parts_of_notMem hlast]
    · have hboth : '/' ∉ last ++ s := fun h => (List.mem_append.1 h).elim hlast hs
      rw [List.append_assoc, List.cons_append, parts_append_slash, parts_of_notMem hboth]
  · refine ⟨[], p, hne, parts_of_notMem hmem, fun s hs => ?_⟩
    exact parts_of_notMem fun h => (List.mem_append.1 h).elim hmem hs

/-! ## Hops -/

theorem hops_append_slash (p s : Path) : hops (p ++ '/' :: s) = hops p ++ hops s := by
  rw [hops_eq, hops_eq, hops_eq, parts_append_slash, List.filter_append, List.map_append]

/-- A path that does not end in a slash ends with the hop to its last part. -/
theorem exists_last_hop {p : Path} (hne : p ≠ []) (hslash : endsInSlash p = false) :
    ∃ hs last, hops p = hs ++ [hopTo last] ∧
      ∀ s, '/' ∉ s → hops (p ++ s) = hs ++ [hopTo (last ++ s)] := by
  obtain ⟨init, last, hlast, hparts, happend⟩ := exists_last_part hne hslash
  have hhops : ∀ {q part : Text}, part ≠ [] → parts q = init ++ [part] →
      hops q = (init.filter fun part => part != []).map hopTo ++ [hopTo part] := by
    intro q part hpart hq
    rw [hops_eq, hq, List.filter_append, List.map_append, List.filter_cons_of_pos (by simpa)]
    rfl
  exact ⟨_, last, hhops hlast hparts, fun s hs => hhops (by simp [hlast]) (happend s hs)⟩

/-- An ending that is put to a name makes another name. -/
theorem hopTo_backup (n : Text) : hopTo (backup n) = .name (backup n) := by
  have hlast : (backup n).getLast? = some 'k' := by
    unfold backup
    rw [List.getLast?_append]
    rfl
  refine hopTo_eq_name_iff.2 ⟨rfl, ?_, ?_⟩ <;>
  · intro h
    rw [h] at hlast
    cases hlast

theorem backup_ne_self (n : Text) : backup n ≠ n := by
  intro h
  have hlength := congrArg List.length h
  simp [backup] at hlength

theorem backup_inj {m n : Text} (h : backup m = backup n) : m = n :=
  List.append_cancel_right h

/-- **A file and its backup are reached by the same hops**, up to the last. -/
theorem hops_backup {p : Path} {hs : List Hop} {n : Text} (hslash : endsInSlash p = false)
    (h : hops p = hs ++ [.name n]) : hops (backup p) = hs ++ [.name (backup n)] := by
  have hne : p ≠ [] := by
    rintro rfl
    exact absurd h (by simp [hops, parts])
  obtain ⟨init, last, hhops, happend⟩ := exists_last_hop hne hslash
  rw [hhops] at h
  obtain ⟨rfl, hlast⟩ := List.append_inj' h rfl
  obtain ⟨rfl, -, -⟩ := hopTo_eq_name_iff.1 (List.cons.inj hlast).1
  rw [backup, happend _ (by decide)]
  exact congrArg (fun hop => init ++ [hop]) (hopTo_backup last)

theorem endsInSlash_backup (p : Path) : endsInSlash (backup p) = false := by
  unfold endsInSlash Text.endsWithChar backup
  rw [List.getLast?_append]
  rfl

theorem isAbsolute_backup {p : Path} (hne : p ≠ []) : isAbsolute (backup p) = isAbsolute p := by
  obtain ⟨c, rest, rfl⟩ := List.exists_cons_of_ne_nil hne
  rfl

/-- **The last hop to a name tells the file name.** -/
theorem fileName?_of_hops {p : Path} {hs : List Hop} {n : Text} (h : hops p = hs ++ [.name n]) :
    fileName? p = some n := by
  rw [hops_eq, List.map_eq_append_iff] at h
  obtain ⟨init, tail, hfilter, -, htail⟩ := h
  obtain ⟨last, rfl, hlast⟩ := List.map_eq_singleton_iff.1 htail
  obtain ⟨rfl, hdot, hdots⟩ := hopTo_eq_name_iff.1 hlast
  have hnames : names p = (init ++ [last]).filter fun part => part != ['.'] := by
    rw [← hfilter, List.filter_filter]
    exact List.filter_congr fun part _ => Bool.and_comm _ _
  rw [fileName?, hnames, List.filter_append, List.filter_cons_of_pos (by simpa using hdot),
    List.filter_nil, List.getLast?_concat]
  simpa using hdots

/-! ## Names below a directory -/

/-- **A name that a file can have**: some characters without a slash, not one of the two
that mean a directory and the one above. -/
structure IsName (n : Text) : Prop where
  ne_nil : n ≠ []
  noSlash : '/' ∉ n
  ne_dot : n ≠ ['.']
  ne_dots : n ≠ ['.', '.']

instance : DecidablePred IsName := fun n =>
  decidable_of_iff (n ≠ [] ∧ '/' ∉ n ∧ n ≠ ['.'] ∧ n ≠ ['.', '.'])
    ⟨fun h => ⟨h.1, h.2.1, h.2.2.1, h.2.2.2⟩, fun h => ⟨h.1, h.2, h.3, h.4⟩⟩

theorem IsName.hops_eq {n : Text} (h : IsName n) : hops n = [.name n] := by
  rw [Path.hops_eq, parts_of_notMem h.noSlash, List.filter_cons_of_pos (by simpa using h.ne_nil)]
  exact congrArg (fun hop => [hop]) (hopTo_eq_name_iff.2 ⟨rfl, h.ne_dot, h.ne_dots⟩)

theorem IsName.isAbsolute_eq {n : Text} (h : IsName n) : isAbsolute n = false := by
  obtain ⟨c, rest, rfl⟩ := List.exists_cons_of_ne_nil h.ne_nil
  have hc : c ≠ '/' := by
    rintro rfl
    exact h.noSlash List.mem_cons_self
  simpa [isAbsolute] using hc

theorem exists_of_endsInSlash {p : Path} (h : endsInSlash p = true) : ∃ q, p = q ++ ['/'] := by
  have hlast : p.getLast? = some '/' := by simpa [endsInSlash, Text.endsWithChar] using h
  obtain ⟨q, hq⟩ := List.getLast?_eq_some_iff.1 hlast
  exact ⟨q, hq⟩

/-- A name below a directory: behind one slash. -/
theorem exists_join_eq {root : Path} {n : Text} (hn : IsName n) (hroot : root ≠ []) :
    ∃ q, hops q = hops root ∧ join root n = q ++ '/' :: n := by
  unfold join
  rw [hn.isAbsolute_eq, if_neg Bool.false_ne_true, List.isEmpty_eq_false_iff.2 hroot, Bool.false_or]
  by_cases hslash : endsInSlash root = true
  · obtain ⟨q, rfl⟩ := exists_of_endsInSlash hslash
    refine ⟨q, ?_, ?_⟩
    · rw [show q ++ ['/'] = q ++ '/' :: [] from rfl, hops_append_slash]
      exact (List.append_nil _).symm
    · rw [if_pos (show Text.endsWithChar '/' (q ++ ['/']) = true from hslash), List.append_assoc]
      rfl
  · exact ⟨root, rfl, if_neg hslash⟩

/-- **A name is put below a directory by one more hop.** -/
theorem hops_join {root : Path} {n : Text} (hn : IsName n) (hroot : root ≠ []) :
    hops (join root n) = hops root ++ [.name n] := by
  obtain ⟨q, hq, hjoin⟩ := exists_join_eq hn hroot
  rw [hjoin, hops_append_slash, hq, hn.hops_eq]

theorem endsInSlash_join {root : Path} {n : Text} (hn : IsName n) (hroot : root ≠ []) :
    endsInSlash (join root n) = false := by
  obtain ⟨q, -, hjoin⟩ := exists_join_eq hn hroot
  obtain ⟨init, last, rfl⟩ := List.eq_nil_or_concat n |>.resolve_left hn.ne_nil
  have hlast : last ≠ '/' := by
    rintro rfl
    exact hn.noSlash (by simp)
  unfold endsInSlash Text.endsWithChar
  rw [hjoin, List.concat_eq_append, ← List.cons_append, ← List.append_assoc, List.getLast?_concat]
  simpa using hlast

theorem isAbsolute_join {root : Path} {n : Text} (hn : IsName n) (hroot : root ≠ []) :
    isAbsolute (join root n) = isAbsolute root := by
  obtain ⟨c, rest, rfl⟩ := List.exists_cons_of_ne_nil hroot
  unfold join
  rw [hn.isAbsolute_eq, if_neg Bool.false_ne_true]
  split <;> rfl

end LicenseHeader.Path
