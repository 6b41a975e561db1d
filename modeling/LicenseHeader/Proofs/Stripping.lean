import LicenseHeader.Action.Basic
import LicenseHeader.Proofs.Lines
import LicenseHeader.Proofs.Tokens
import Mathlib.Data.List.DropRight

/-!
# Texts without blanks to strip

Stripping a text works on its lines. The reader of `Text.lines` takes a carriage
return off with the newline, the reader of `Text.bareLines` leaves it, but a
carriage return is a blank and goes in either case (`Text.trimEnd_visibleLine`).
So stripping is `Text.stripLines` of the bare lines: trim every line at its end
and drop the empty ones at the top (`Layout.stripBlank_eq`).

The lines that come out are *stripped* (`Text.Stripped`), and stripped lines are
left alone. Hence a text is left alone exactly if its lines are stripped and its
last line has a newline (`Layout.stripBlank_eq_self_iff`). For the action that makes
a normal form that can be told from the characters of a text
(`Action.stripBlank_normalizes`).
-/

namespace LicenseHeader

namespace Text

/-! ## Blanks at the end of a line -/

/-- A text is what is left of it when it is trimmed, and blanks. -/
theorem exists_eq_trimEnd_append (t : Text) :
    ∃ behind, t = trimEnd t ++ behind ∧ isBlank behind = true := by
  refine ⟨t.rtakeWhile isSpace, List.rdropWhile_append_rtakeWhile.symm, ?_⟩
  exact List.all_eq_true.2 fun c hc => List.mem_rtakeWhile_imp hc

theorem trimEnd_trimEnd (t : Text) : trimEnd (trimEnd t) = trimEnd t :=
  List.rdropWhile_idempotent isSpace t

/-- Nothing is left of blanks, and of nothing else. -/
theorem trimEnd_eq_nil_iff {t : Text} : trimEnd t = [] ↔ isBlank t = true :=
  List.rdropWhile_eq_nil_iff.trans List.all_eq_true.symm

theorem trimEnd_append_of_blank (s : Text) {behind : Text} (h : isBlank behind = true) :
    trimEnd (s ++ behind) = trimEnd s := by
  have hblank : ∀ c ∈ behind.reverse, isSpace c = true := fun c hc =>
    List.all_eq_true.1 h c (List.mem_reverse.1 hc)
  unfold trimEnd
  rw [List.reverse_append, List.dropWhile_append_of_pos hblank]

/-- What stands before a visible character stays. -/
theorem trimEnd_append_of_ne_nil (s : Text) {t : Text} (h : trimEnd t ≠ []) :
    trimEnd (s ++ t) = s ++ trimEnd t := by
  have hne : ¬ (t.reverse.dropWhile isSpace).isEmpty = true := by
    rw [List.isEmpty_iff]
    exact fun hnil => h (List.reverse_eq_nil_iff.2 hnil)
  unfold trimEnd
  rw [List.reverse_append, List.dropWhile_append, if_neg hne, List.reverse_append,
    List.reverse_reverse]

/-- **Only what stands behind a solid token is trimmed.** -/
theorem Solid.trimEnd_append {token : Text} (h : token.Solid) (s rest : Text) :
    trimEnd (s ++ token ++ rest) = s ++ token ++ trimEnd rest := by
  by_cases hrest : trimEnd rest = []
  · obtain ⟨init, c, rfl, hc⟩ := h.exists_concat
    rw [trimEnd_append_of_blank _ (trimEnd_eq_nil_iff.1 hrest), hrest, List.append_nil,
      ← List.append_assoc]
    exact List.rdropWhile_concat_neg isSpace (s ++ init) c (by rw [hc]; exact Bool.false_ne_true)
  · exact trimEnd_append_of_ne_nil _ hrest

/-- **A line that has only blanks behind a solid token has it trimmed too.** -/
theorem Solid.ends_trimEnd_iff {token : Text} (h : token.Solid) (before line : Text) :
    (∃ behind, trimEnd line = before ++ token ++ behind ∧ isBlank behind = true) ↔
      ∃ behind, line = before ++ token ++ behind ∧ isBlank behind = true := by
  constructor
  · rintro ⟨behind, hline, hblank⟩
    obtain ⟨rest, heq, hrest⟩ := exists_eq_trimEnd_append line
    refine ⟨behind ++ rest, ?_, by rw [isBlank_append, hblank, hrest]; rfl⟩
    rw [← List.append_assoc, ← hline]
    exact heq
  · rintro ⟨behind, rfl, hblank⟩
    exact ⟨[], by rw [h.trimEnd_append, trimEnd_eq_nil_iff.2 hblank], rfl⟩

/-- A trimmed text is one that does not end in a blank. -/
theorem trimEnd_eq_self_iff {t : Text} :
    trimEnd t = t ↔ ∀ c, t.getLast? = some c → isSpace c = false := by
  refine List.rdropWhile_eq_self_iff.trans ⟨fun h c hc => ?_, fun h hne => ?_⟩
  · obtain ⟨init, rfl⟩ := List.getLast?_eq_some_iff.1 hc
    have hlast := h (by simp)
    rw [List.getLast_append_singleton] at hlast
    exact Bool.eq_false_iff.2 hlast
  · exact Bool.eq_false_iff.1 (h _ (List.getLast?_eq_some_getLast hne))

/-- A trimmed line does not end in a carriage return. -/
theorem endsWithChar_of_trimmed {t : Text} (h : trimEnd t = t) : endsWithChar '\r' t = false := by
  rw [Bool.eq_false_iff]
  intro hreturn
  exact absurd (trimEnd_eq_self_iff.1 h '\r' (eq_of_beq hreturn)) (by decide)

theorem notMem_trimEnd {c : Char} {t : Text} (h : c ∉ t) : c ∉ trimEnd t := fun hmem =>
  h ((List.rdropWhile_prefix isSpace t).subset hmem)

/-! ## Stripped lines -/

/-- Lines trimmed at their ends, from the first one on that holds something. -/
def stripLines (ls : List Text) : List Text := (ls.map trimEnd).dropWhile List.isEmpty

/-- **Lines that leave nothing to strip.** -/
structure Stripped (ls : List Text) : Prop where
  /-- No line ends in a blank. -/
  trimmed : ∀ l ∈ ls, trimEnd l = l
  /-- The first line is not empty. -/
  top : ls.head? ≠ some []

/-- Whether lines are stripped is seen from the first line and from the last characters. -/
theorem stripped_iff {ls : List Text} :
    Stripped ls ↔ ls.head? ≠ some [] ∧ ∀ l ∈ ls, ∀ c, l.getLast? = some c → isSpace c = false := by
  constructor
  · exact fun h => ⟨h.top, fun l hl => trimEnd_eq_self_iff.1 (h.trimmed l hl)⟩
  · exact fun h => ⟨fun l hl => trimEnd_eq_self_iff.2 (h.2 l hl), h.1⟩

theorem stripped_stripLines (ls : List Text) : Stripped (stripLines ls) where
  trimmed := fun l hl => by
    obtain ⟨l', -, rfl⟩ := List.mem_map.1 ((List.dropWhile_suffix _).subset hl)
    exact trimEnd_trimEnd l'
  top := fun hnil => by
    have hhead := List.head?_dropWhile_not List.isEmpty (ls.map trimEnd)
    rw [show (ls.map trimEnd).dropWhile List.isEmpty = stripLines ls from rfl, hnil] at hhead
    exact Bool.false_ne_true hhead.symm

/-- **Stripped lines are left alone.** -/
theorem Stripped.stripLines_eq {ls : List Text} (h : Stripped ls) : stripLines ls = ls := by
  unfold stripLines
  rw [List.map_congr_left h.trimmed, List.map_id']
  cases ls with
  | nil => rfl
  | cons l ls =>
    refine List.dropWhile_cons_of_neg fun hempty => h.top ?_
    rw [List.isEmpty_iff.1 hempty]
    rfl

theorem bare_of_mem_stripLines {ls : List Text} (hbare : ∀ l ∈ ls, '\n' ∉ l) {l : Text}
    (hl : l ∈ stripLines ls) : '\n' ∉ l := by
  obtain ⟨l', hl', rfl⟩ := List.mem_map.1 ((List.dropWhile_suffix _).subset hl)
  exact notMem_trimEnd (hbare l' hl')

/-- **Which lines are trimmed and written**: those from the first on that is not
blank. -/
theorem exists_stripLines_eq (ls : List Text) :
    ∃ top rest, ls = top ++ rest ∧ (∀ l ∈ top, trimEnd l = []) ∧
      (∀ l, rest.head? = some l → trimEnd l ≠ []) ∧ stripLines ls = rest.map trimEnd := by
  refine ⟨ls.takeWhile (List.isEmpty ∘ trimEnd), ls.dropWhile (List.isEmpty ∘ trimEnd),
    List.takeWhile_append_dropWhile.symm, fun l hl => ?_, fun l hl hempty => ?_, ?_⟩
  · have hempty : (List.isEmpty ∘ trimEnd) l = true := List.mem_takeWhile_imp hl
    exact List.isEmpty_iff.1 hempty
  · have hhead := List.head?_dropWhile_not (List.isEmpty ∘ trimEnd) ls
    rw [hl] at hhead
    exact absurd hhead (by simp [hempty])
  · exact List.dropWhile_map

/-- A carriage return before the newline makes no difference to a trimmed line. -/
theorem trimEnd_visibleLine (raw : Text) :
    trimEnd (visibleLine raw) = trimEnd (stripTerminator raw) := by
  have hreturn : ∀ line : Text, trimEnd (dropFinal '\r' line) = trimEnd line := by
    intro line
    unfold dropFinal
    split
    · rename_i hlast
      obtain ⟨init, rfl⟩ := List.getLast?_eq_some_iff.1 (eq_of_beq hlast)
      rw [List.dropLast_concat, trimEnd_append_of_blank init (by decide)]
    · rfl
  show trimEnd (if endsWithChar '\n' raw then dropFinal '\r' raw.dropLast else raw)
    = trimEnd (if endsWithChar '\n' raw then raw.dropLast else raw)
  split
  · exact hreturn raw.dropLast
  · rfl

end Text

/-! ## Stripping a text -/

namespace Layout

/-- **Stripping a text is stripping its lines.** -/
theorem stripBlank_eq (t : Text) :
    stripBlank t = Text.unlines (Text.stripLines (Text.bareLines t)) := by
  have hlines : (Text.lines t).map Text.trimEnd = (Text.bareLines t).map Text.trimEnd := by
    unfold Text.lines Text.bareLines
    rw [List.map_map, List.map_map]
    exact List.map_congr_left fun raw _ => Text.trimEnd_visibleLine raw
  unfold stripBlank Text.stripLines
  rw [hlines]

/-- The lines of a stripped text. -/
theorem bareLines_stripBlank (t : Text) :
    Text.bareLines (stripBlank t) = Text.stripLines (Text.bareLines t) := by
  rw [stripBlank_eq]
  exact Text.bareLines_unlines fun _ =>
    Text.bare_of_mem_stripLines fun _ => Text.notMem_of_mem_bareLines

theorem lacksNewline_stripBlank (t : Text) : Text.lacksNewline (stripBlank t) = false := by
  rw [stripBlank_eq]
  exact Text.lacksNewline_unlines fun _ =>
    Text.bare_of_mem_stripLines fun _ => Text.notMem_of_mem_bareLines

theorem stripBlank_stripBlank (t : Text) : stripBlank (stripBlank t) = stripBlank t := by
  rw [stripBlank_eq (stripBlank t), bareLines_stripBlank,
    (Text.stripped_stripLines _).stripLines_eq, ← stripBlank_eq]

/-- **Which texts stripping leaves alone.** -/
theorem stripBlank_eq_self_iff (t : Text) :
    stripBlank t = t ↔ Text.lacksNewline t = false ∧ Text.Stripped (Text.bareLines t) := by
  constructor
  · intro h
    rw [← h, bareLines_stripBlank]
    exact ⟨lacksNewline_stripBlank t, Text.stripped_stripLines _⟩
  · rintro ⟨hends, hstripped⟩
    rw [stripBlank_eq, hstripped.stripLines_eq]
    have htext := Text.ofLines_bareLines t
    rw [hends] at htext
    exact htext

/-! ## One pass over the lines

A writer that takes the lines one by one need not remember whether it is still at
the top: a line that is written leaves at least its newline, so it is at the top as
long as nothing is written. -/

/-- One line more behind what is written. -/
def stripOnto (written line : Text) : Text :=
  if written = [] ∧ Text.trimEnd line = [] then written
  else written ++ Text.trimEnd line ++ ['\n']

/-- Below the top every line is written. -/
theorem foldl_stripOnto_of_ne_nil {written : Text} (h : written ≠ []) (ls : List Text) :
    ls.foldl stripOnto written = written ++ Text.unlines (ls.map Text.trimEnd) := by
  induction ls generalizing written with
  | nil => exact (List.append_nil written).symm
  | cons l ls ih =>
    have hstep : stripOnto written l = written ++ Text.trimEnd l ++ ['\n'] :=
      if_neg fun hnil => h hnil.1
    rw [List.foldl_cons, hstep, ih (by simp), List.map_cons, Text.unlines_cons]
    simp

/-- **One pass strips the lines.** -/
theorem foldl_stripOnto (ls : List Text) :
    ls.foldl stripOnto [] = Text.unlines (Text.stripLines ls) := by
  unfold Text.stripLines
  induction ls with
  | nil => rfl
  | cons l ls ih =>
    by_cases hempty : Text.trimEnd l = []
    · have hstep : stripOnto [] l = [] := if_pos ⟨rfl, hempty⟩
      rw [List.foldl_cons, hstep, ih, List.map_cons, hempty]
      rfl
    · have hstep : stripOnto [] l = Text.trimEnd l ++ ['\n'] := if_neg fun hnil => hempty hnil.2
      rw [List.foldl_cons, hstep, foldl_stripOnto_of_ne_nil (by simp), List.map_cons,
        List.dropWhile_cons_of_neg (by simpa using hempty), Text.unlines_cons]
      simp

end Layout

/-! ## Texts that are left alone -/

/-- A text does not lack a newline if it is empty or ends with one. -/
theorem Text.lacksNewline_eq_false_iff (t : Text) :
    lacksNewline t = false ↔ t = [] ∨ endsWithChar '\n' t = true := by
  obtain ⟨ls, tail, rfl, hls, htail⟩ := exists_eq_unlines_append t
  by_cases hne : tail = []
  · rw [hne, List.append_nil]
    refine iff_of_true (lacksNewline_unlines hls) ?_
    rcases List.eq_nil_or_concat ls with rfl | ⟨init, last, rfl⟩
    · exact .inl rfl
    · exact .inr (by simp [endsWithChar])
  · rw [lacksNewline_unlines_append hls htail hne]
    have hlast : (unlines ls ++ tail).getLast? = tail.getLast? :=
      List.getLast?_append_of_ne_nil _ hne
    refine iff_of_false Bool.noConfusion ?_
    rintro (hnil | hends)
    · exact hne (List.append_eq_nil_iff.1 hnil).2
    · rw [endsWithChar, hlast] at hends
      exact htail (List.mem_of_getLast? (eq_of_beq hends))

namespace Action

/-- **Stripping reaches a normal form and recognises it.** Each line is trimmed at its end
and written with a newline, from the first one on that is not blank; a writer that goes
over the lines once does the same. What comes out is not changed again. And the action
has nothing to do exactly for the empty text and for texts that end with a newline, do
not start with an empty line and have no line that ends in a blank, where a carriage
return before a newline is part of the line. -/
theorem stripBlank_normalizes (f : SourceFile) :
    (∃ top rest, Text.bareLines f.text = top ++ rest ∧ (∀ l ∈ top, Text.trimEnd l = []) ∧
        (∀ l, rest.head? = some l → Text.trimEnd l ≠ []) ∧
        Layout.stripBlank f.text = Text.unlines (rest.map Text.trimEnd)) ∧
      Layout.stripBlank f.text = (Text.lines f.text).foldl Layout.stripOnto [] ∧
      Layout.stripBlank (Layout.stripBlank f.text) = Layout.stripBlank f.text ∧
      (Action.stripBlank.apply f = .ok .nothing ↔
        f.text = [] ∨
          Text.endsWithChar '\n' f.text = true ∧ (Text.bareLines f.text).head? ≠ some [] ∧
            ∀ l ∈ Text.bareLines f.text, ∀ c, l.getLast? = some c → isSpace c = false) := by
  obtain ⟨top, rest, hlines, htop, hrest, hstrip⟩ :=
    Text.exists_stripLines_eq (Text.bareLines f.text)
  have hpass : Layout.stripBlank f.text = (Text.lines f.text).foldl Layout.stripOnto [] :=
    (Layout.foldl_stripOnto (Text.lines f.text)).symm
  refine ⟨⟨top, rest, hlines, htop, hrest, ?_⟩, hpass, Layout.stripBlank_stripBlank f.text, ?_⟩
  · rw [Layout.stripBlank_eq, hstrip]
  show Except.ok (Outcome.relaid f.text (Layout.stripBlank f.text)) = .ok .nothing ↔ _
  rw [Except.ok.injEq, Outcome.relaid_eq_nothing_iff, Layout.stripBlank_eq_self_iff,
    Text.stripped_iff, Text.lacksNewline_eq_false_iff]
  constructor
  · rintro ⟨hempty | hends, htop, hlast⟩
    · exact .inl hempty
    · exact .inr ⟨hends, htop, hlast⟩
  · rintro (hempty | ⟨hends, htop, hlast⟩)
    · -- an empty text has no lines
      rw [hempty]
      exact ⟨.inl rfl, by decide, fun l hl => absurd hl List.not_mem_nil⟩
    · exact ⟨.inr hends, htop, hlast⟩

end Action

end LicenseHeader
