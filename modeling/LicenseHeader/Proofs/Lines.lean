import LicenseHeader.Document.Split

/-!
# A text is its lines and one bit

The reader of a document works on *bare* lines, with their newlines taken off
(`Text.bareLines`), and remembers whether the last line had one
(`Text.lacksNewline`). The writer turns a list of lines and that bit into a text
again (`Text.ofLines`).

The two are inverse to each other. A text is recovered from its bare lines and
its bit (`Text.ofLines_bareLines`). Lines that hold no newline are recovered
from the text they make (`Text.bareLines_ofLines`), and with them the bit
(`Text.lacksNewline_ofLines`), as long as a last line without newline is not
empty: an empty line without a newline leaves no trace in a text. So statements
about what is read from what was written can be made about lists of lines.
-/

namespace LicenseHeader.Text

/-- The lines of a text without their newlines; carriage returns stay. -/
def bareLines (t : Text) : List Text := (rawLines t).map stripTerminator

/-- Whether the last line of a text has no newline. -/
def lacksNewline (t : Text) : Bool := Document.lacksFinalNewline (rawLines t)

/-- The text of lines, whose last one may lack its newline. -/
def ofLines (ls : List Text) (lacks : Bool) : Text :=
  if lacks then dropFinal '\n' (unlines ls) else unlines ls

/-! ## Lines one under another -/

@[simp] theorem unlines_nil : unlines [] = [] := rfl

@[simp] theorem unlines_cons (l : Text) (ls : List Text) :
    unlines (l :: ls) = l ++ '\n' :: unlines ls := by
  show (l ++ ['\n']) ++ unlines ls = l ++ '\n' :: unlines ls
  rw [List.append_assoc]
  rfl

@[simp] theorem unlines_append (ls ls' : List Text) :
    unlines (ls ++ ls') = unlines ls ++ unlines ls' := by
  unfold unlines
  rw [List.map_append, List.flatten_append]

theorem unlines_flatMap {α : Type} (f : α → List Text) (xs : List α) :
    unlines (xs.flatMap f) = xs.flatMap fun x => unlines (f x) := by
  induction xs with
  | nil => rfl
  | cons x xs ih => rw [List.flatMap_cons, unlines_append, ih, List.flatMap_cons]

theorem dropFinal_append_singleton (c : Char) (t : Text) : dropFinal c (t ++ [c]) = t := by
  unfold dropFinal endsWithChar
  rw [List.getLast?_concat, if_pos (beq_self_eq_true _), List.dropLast_concat]

theorem dropFinal_of_notMem {c : Char} {t : Text} (h : c ∉ t) : dropFinal c t = t := by
  unfold dropFinal endsWithChar
  rw [if_neg]
  intro hlast
  exact h (List.mem_of_getLast? (eq_of_beq hlast))

/-- Without its newline, the last of the lines is written as it stands. -/
theorem ofLines_concat_true (ls : List Text) (tail : Text) :
    ofLines (ls ++ [tail]) true = unlines ls ++ tail := by
  have hend : unlines (ls ++ [tail]) = (unlines ls ++ tail) ++ ['\n'] := by
    rw [unlines_append, unlines_cons, unlines_nil, List.append_assoc]
  show dropFinal '\n' (unlines (ls ++ [tail])) = unlines ls ++ tail
  rw [hend, dropFinal_append_singleton]

/-! ## Cutting what was written -/

/-- A raw line ends with the first newline. -/
theorem rawLines_append_newline {line : Text} (h : '\n' ∉ line) (rest : Text) :
    rawLines (line ++ '\n' :: rest) = (line ++ ['\n']) :: rawLines rest := by
  induction line with
  | nil => rw [List.nil_append, rawLines, if_pos rfl]; rfl
  | cons c line ih =>
    have hc : c ≠ '\n' := fun e => h (e ▸ List.mem_cons_self)
    have hline : '\n' ∉ line := fun m => h (List.mem_cons_of_mem _ m)
    rw [List.cons_append, rawLines, if_neg hc, ih hline]
    rfl

theorem rawLines_of_notMem {line : Text} (h : '\n' ∉ line) (hne : line ≠ []) :
    rawLines line = [line] := by
  induction line with
  | nil => exact absurd rfl hne
  | cons c line ih =>
    have hc : c ≠ '\n' := fun e => h (e ▸ List.mem_cons_self)
    have hline : '\n' ∉ line := fun m => h (List.mem_cons_of_mem _ m)
    rw [rawLines, if_neg hc]
    cases line with
    | nil => rfl
    | cons d line => rw [ih hline (List.cons_ne_nil _ _)]

/-- Written lines are cut where they were joined. -/
theorem rawLines_unlines_append {ls : List Text} (h : ∀ l ∈ ls, '\n' ∉ l) (tail : Text) :
    rawLines (unlines ls ++ tail) = ls.map (· ++ ['\n']) ++ rawLines tail := by
  induction ls with
  | nil => rfl
  | cons l ls ih =>
    have hl : '\n' ∉ l := h l List.mem_cons_self
    rw [unlines_cons, List.append_assoc, List.cons_append, rawLines_append_newline hl,
      ih (fun l' m => h l' (List.mem_cons_of_mem _ m))]
    rfl

theorem map_stripTerminator_map (ls : List Text) :
    (ls.map (· ++ ['\n'])).map stripTerminator = ls := by
  rw [List.map_map]
  refine List.map_id'' (fun l => ?_) ls
  exact dropFinal_append_singleton '\n' l

/-- The bare lines of a text that ends with a newline. -/
theorem bareLines_unlines {ls : List Text} (h : ∀ l ∈ ls, '\n' ∉ l) :
    bareLines (unlines ls) = ls := by
  have hraw := rawLines_unlines_append h []
  rw [List.append_nil] at hraw
  rw [bareLines, hraw, List.map_append, map_stripTerminator_map]
  exact List.append_nil ls

/-- The bare lines of a text that does not end with a newline. -/
theorem bareLines_unlines_append {ls : List Text} {tail : Text} (h : ∀ l ∈ ls, '\n' ∉ l)
    (htail : '\n' ∉ tail) (hne : tail ≠ []) :
    bareLines (unlines ls ++ tail) = ls ++ [tail] := by
  rw [bareLines, rawLines_unlines_append h, rawLines_of_notMem htail hne, List.map_append,
    map_stripTerminator_map, List.map_singleton]
  exact congrArg (fun x => ls ++ [x]) (dropFinal_of_notMem htail)

theorem lacksNewline_unlines {ls : List Text} (h : ∀ l ∈ ls, '\n' ∉ l) :
    lacksNewline (unlines ls) = false := by
  have hraw := rawLines_unlines_append h []
  rw [List.append_nil] at hraw
  rw [lacksNewline, Document.lacksFinalNewline, hraw]
  rcases List.eq_nil_or_concat ls with rfl | ⟨init, last, rfl⟩
  · rfl
  · simp [rawLines, endsWithChar]

theorem lacksNewline_unlines_append {ls : List Text} {tail : Text} (h : ∀ l ∈ ls, '\n' ∉ l)
    (htail : '\n' ∉ tail) (hne : tail ≠ []) : lacksNewline (unlines ls ++ tail) = true := by
  have hlast : tail.getLast? ≠ some '\n' := fun e => htail (List.mem_of_getLast? e)
  rw [lacksNewline, Document.lacksFinalNewline, rawLines_unlines_append h,
    rawLines_of_notMem htail hne, List.getLast?_concat]
  simp [endsWithChar, hne, hlast]

/-! ## Every text is written lines -/

/-- Every text is lines with newlines and a rest without. -/
theorem exists_eq_unlines_append (t : Text) :
    ∃ (ls : List Text) (tail : Text),
      t = unlines ls ++ tail ∧ (∀ l ∈ ls, '\n' ∉ l) ∧ '\n' ∉ tail := by
  induction t with
  | nil => exact ⟨[], [], rfl, by simp, by simp⟩
  | cons c t ih =>
    obtain ⟨ls, tail, rfl, hls, htail⟩ := ih
    by_cases hc : c = '\n'
    · refine ⟨[] :: ls, tail, by rw [hc]; rfl, ?_, htail⟩
      exact List.forall_mem_cons.2 ⟨by simp, hls⟩
    · -- the character joins the first line, or the rest if there is no line yet
      cases ls with
      | nil => exact ⟨[], c :: tail, rfl, hls, by simp [Ne.symm hc, htail]⟩
      | cons l ls =>
        obtain ⟨hl, hls⟩ := List.forall_mem_cons.1 hls
        refine ⟨(c :: l) :: ls, tail, by simp, ?_, htail⟩
        exact List.forall_mem_cons.2 ⟨by simp [Ne.symm hc, hl], hls⟩

theorem notMem_of_mem_bareLines {t line : Text} (h : line ∈ bareLines t) : '\n' ∉ line := by
  obtain ⟨ls, tail, rfl, hls, htail⟩ := exists_eq_unlines_append t
  by_cases hne : tail = []
  · rw [hne, List.append_nil, bareLines_unlines hls] at h
    exact hls line h
  · rw [bareLines_unlines_append hls htail hne] at h
    rcases List.mem_append.1 h with h | h
    · exact hls line h
    · rwa [List.mem_singleton.1 h]

/-- **A text is its bare lines and its bit.** -/
theorem ofLines_bareLines (t : Text) : ofLines (bareLines t) (lacksNewline t) = t := by
  obtain ⟨ls, tail, rfl, hls, htail⟩ := exists_eq_unlines_append t
  by_cases hne : tail = []
  · rw [hne, List.append_nil, bareLines_unlines hls, lacksNewline_unlines hls]
    rfl
  · rw [bareLines_unlines_append hls htail hne, lacksNewline_unlines_append hls htail hne,
      ofLines_concat_true]

/-- A last line without newline is not empty. -/
theorem getLast?_bareLines_ne_nil {t : Text} (h : lacksNewline t = true) :
    ∃ last, (bareLines t).getLast? = some last ∧ last ≠ [] := by
  obtain ⟨ls, tail, rfl, hls, htail⟩ := exists_eq_unlines_append t
  by_cases hne : tail = []
  · rw [hne, List.append_nil, lacksNewline_unlines hls] at h
    cases h
  · exact ⟨tail, by rw [bareLines_unlines_append hls htail hne, List.getLast?_concat], hne⟩

/-- Lines that can be told from the text they make: none holds a newline, and the
last one is not empty where its newline is missing. -/
structure Legible (ls : List Text) (lacks : Bool) : Prop where
  /-- No line holds a newline. -/
  bare : ∀ l ∈ ls, '\n' ∉ l
  /-- There is something after the last newline where that is missing. -/
  tail : lacks = true → ∃ last, ls.getLast? = some last ∧ last ≠ []

theorem legible_bareLines (t : Text) : Legible (bareLines t) (lacksNewline t) :=
  ⟨fun _ => notMem_of_mem_bareLines, getLast?_bareLines_ne_nil⟩

/-- Legible lines are read back from the text they make, and so is the bit. -/
theorem bareLines_ofLines_and_lacksNewline {ls : List Text} {lacks : Bool}
    (h : Legible ls lacks) :
    bareLines (ofLines ls lacks) = ls ∧ lacksNewline (ofLines ls lacks) = lacks := by
  cases lacks with
  | false => exact ⟨bareLines_unlines h.bare, lacksNewline_unlines h.bare⟩
  | true =>
    obtain ⟨tail, hlast, hne⟩ := h.tail rfl
    obtain ⟨init, rfl⟩ := List.getLast?_eq_some_iff.1 hlast
    have hinit : ∀ l ∈ init, '\n' ∉ l := fun l m => h.bare l (List.mem_append_left _ m)
    have htail : '\n' ∉ tail := h.bare tail (by simp)
    rw [ofLines_concat_true]
    exact ⟨bareLines_unlines_append hinit htail hne,
      lacksNewline_unlines_append hinit htail hne⟩

/-- **Legible lines are read back from the text they make.** -/
theorem bareLines_ofLines {ls : List Text} {lacks : Bool} (h : Legible ls lacks) :
    bareLines (ofLines ls lacks) = ls :=
  (bareLines_ofLines_and_lacksNewline h).1

theorem lacksNewline_ofLines {ls : List Text} {lacks : Bool} (h : Legible ls lacks) :
    lacksNewline (ofLines ls lacks) = lacks :=
  (bareLines_ofLines_and_lacksNewline h).2

end LicenseHeader.Text
