import LicenseHeader.Proofs.LicenseWord
import Mathlib.Data.List.Nodup

/-!
# Phrases and spaces

A text gets *looser* when spaces are added behind its spaces, or at its start
(`Loosened`). What that does to a phrase depends on how the phrase writes its own
spaces. `Phrase.matchesAt` runs through all ways of reading a phrase; what it looks for
is said by `PhrasePart.Takes`, part by part (`Phrase.matchesAt_cons_iff`), and the two
directions are then about one part at a time.

* From the loose text to the tight one, nothing is lost
  (`Loosened.occursIn_of_isSteady`): a wording has no two spaces in a row, so where it
  is read in the loose text none of its spaces was added.
* From the tight text to the loose one, a phrase is kept if no wording of it has a space
  (`Loosened.occursIn_of_isSolid`). A wording with a space in it may be gone.

The words copyright and license and the later-versions clause are phrases of the second
kind, the signatures are not. So loosening a text can change its verdict in one way
only: the signature that decides it is torn (`Loosened.ofText_eq_iff`).
-/

namespace LicenseHeader

/-! ## What a phrase looks for -/

/-- **What a part takes of a text** where it stands behind `before` and `rest` follows. -/
def PhrasePart.Takes (before : Char) (taken rest : Text) : PhrasePart → Prop
  | .exact wording => taken = wording
  | .anyCase wording => taken.map Phrase.lowerCase = wording
  | .blanks => taken ≠ [] ∧ Text.isBlank taken = true
  | .restOfLine => '\n' ∉ taken
  | .wordEdge => taken = [] ∧ Text.isWordEdge (some before) rest.head? = true
  | .afterBlank => taken = [] ∧ isSpace before = true
  | .beforeBlank => taken = [] ∧ rest.head?.all isSpace = true

namespace Phrase

variable {phrase : Phrase} {next : Option Char → Text → Bool}

theorem getLast?_or_some (taken : Text) (before : Char) :
    taken.getLast?.or (some before) = some (taken.getLastD before) := by
  rw [List.getLastD_eq_getLast?]
  cases taken.getLast? <;> rfl

/-- A wording in any letter case is found exactly where it stands. -/
theorem afterAnyCase?_eq_some_iff {wording text rest : Text} :
    afterAnyCase? wording text = some rest ↔
      text = text.take wording.length ++ rest ∧
        (text.take wording.length).map lowerCase = wording := by
  fun_induction afterAnyCase? wording text with
  | case1 text => simp [eq_comm]
  | case2 => simp
  | case3 wording c text ih => simp [ih]
  | case4 a wording c text hne => simp [Ne.symm hne]

/-- Behind blanks: there is a run of them, and then what is looked for. -/
theorem afterBlanks_iff (before : Char) (text : Text) :
    afterBlanks next text = true ↔
      ∃ taken rest, text = taken ++ rest ∧ (taken ≠ [] ∧ Text.isBlank taken = true) ∧
        next (some (taken.getLastD before)) rest = true := by
  induction text generalizing before with
  | nil =>
    refine iff_of_false Bool.false_ne_true ?_
    rintro ⟨taken, rest, htext, ⟨hne, -⟩, -⟩
    exact hne (List.append_eq_nil_iff.1 htext.symm).1
  | cons c text ih =>
    rw [afterBlanks, Bool.and_eq_true, Bool.or_eq_true, ih c]
    constructor
    · rintro ⟨hc, hnext | ⟨taken, rest, rfl, ⟨-, hblank⟩, hnext⟩⟩
      · exact ⟨[c], text, rfl, ⟨List.cons_ne_nil c [], by simp [Text.isBlank, hc]⟩, hnext⟩
      · refine ⟨c :: taken, rest, rfl, ⟨List.cons_ne_nil c taken, ?_⟩, ?_⟩
        · exact Bool.and_eq_true_iff.2 ⟨hc, hblank⟩
        · rwa [List.getLastD_cons]
    · rintro ⟨taken, rest, htext, ⟨hne, hblank⟩, hnext⟩
      obtain ⟨d, taken, rfl⟩ := List.exists_cons_of_ne_nil hne
      obtain ⟨rfl, rfl⟩ := List.cons.inj htext
      rw [List.getLastD_cons] at hnext
      obtain ⟨hc, hblank⟩ := Bool.and_eq_true_iff.1 hblank
      refine ⟨hc, ?_⟩
      by_cases htaken : taken = []
      · subst htaken
        exact .inl hnext
      · exact .inr ⟨taken, rest, rfl, ⟨htaken, hblank⟩, hnext⟩

/-- Further on in the line: what is skipped holds no newline. -/
theorem furtherOn_iff (before : Char) (text : Text) :
    furtherOn next (some before) text = true ↔
      ∃ taken rest, text = taken ++ rest ∧ '\n' ∉ taken ∧
        next (some (taken.getLastD before)) rest = true := by
  induction text generalizing before with
  | nil =>
    constructor
    · intro hnext
      exact ⟨[], [], rfl, List.not_mem_nil, hnext⟩
    · rintro ⟨taken, rest, htext, -, hnext⟩
      obtain ⟨rfl, rfl⟩ := List.append_eq_nil_iff.1 htext.symm
      exact hnext
  | cons c text ih =>
    rw [furtherOn, Bool.or_eq_true, Bool.and_eq_true, ih c, bne_iff_ne]
    constructor
    · rintro (hnext | ⟨hc, taken, rest, rfl, htaken, hnext⟩)
      · exact ⟨[], c :: text, rfl, List.not_mem_nil, hnext⟩
      · refine ⟨c :: taken, rest, rfl, ?_, ?_⟩
        · rw [List.mem_cons, not_or]
          exact ⟨hc.symm, htaken⟩
        · rwa [List.getLastD_cons]
    · rintro ⟨taken, rest, htext, htaken, hnext⟩
      cases taken with
      | nil =>
        rw [List.nil_append] at htext
        rw [htext]
        exact .inl hnext
      | cons d taken =>
        obtain ⟨rfl, rfl⟩ := List.cons.inj htext
        rw [List.mem_cons, not_or] at htaken
        rw [List.getLastD_cons] at hnext
        exact .inr ⟨Ne.symm htaken.1, taken, rest, rfl, htaken.2, hnext⟩

/-- A condition on an edge takes nothing. -/
theorem edge_iff (condition : Text → Prop) {before : Char} {text : Text} :
    condition text ∧ phrase.matchesAt (some before) text = true ↔
      ∃ taken rest, text = taken ++ rest ∧ (taken = [] ∧ condition rest) ∧
        phrase.matchesAt (some (taken.getLastD before)) rest = true := by
  constructor
  · rintro ⟨hcondition, hmatches⟩
    exact ⟨[], text, rfl, ⟨rfl, hcondition⟩, hmatches⟩
  · rintro ⟨taken, rest, rfl, ⟨rfl, hcondition⟩, hmatches⟩
    exact ⟨hcondition, hmatches⟩

/-- **A phrase is read part by part**: the first part takes some of the text, the
others are read behind it. -/
theorem matchesAt_cons_iff (part : PhrasePart) (before : Char) (text : Text) :
    matchesAt (part :: phrase) (some before) text = true ↔
      ∃ taken rest, text = taken ++ rest ∧ part.Takes before taken rest ∧
        phrase.matchesAt (some (taken.getLastD before)) rest = true := by
  cases part with
  | exact wording =>
    rw [matchesAt, getLast?_or_some]
    constructor
    · intro h
      split at h
      · exact ⟨wording, _, Text.after?_eq_some_iff.1 ‹_›, rfl, h⟩
      · cases h
    · rintro ⟨taken, rest, rfl, rfl, h⟩
      rw [Text.after?_eq_some_iff.2 rfl]
      exact h
  | anyCase wording =>
    rw [matchesAt, getLast?_or_some]
    constructor
    · intro h
      split at h
      · obtain ⟨htext, hwording⟩ := afterAnyCase?_eq_some_iff.1 ‹_›
        exact ⟨_, _, htext, hwording, h⟩
      · cases h
    · rintro ⟨taken, rest, rfl, rfl, h⟩
      have htake : (taken ++ rest).take (taken.map lowerCase).length = taken := by
        rw [List.length_map, List.take_left]
      have hafter : afterAnyCase? (taken.map lowerCase) (taken ++ rest) = some rest :=
        afterAnyCase?_eq_some_iff.2 (by rw [htake]; exact ⟨rfl, rfl⟩)
      rw [hafter, htake]
      exact h
  | blanks => exact afterBlanks_iff before text
  | restOfLine => exact furtherOn_iff before text
  | wordEdge =>
    rw [matchesAt, Bool.and_eq_true]
    exact edge_iff fun rest => Text.isWordEdge (some before) rest.head? = true
  | afterBlank =>
    rw [matchesAt, Bool.and_eq_true]
    exact edge_iff fun _ => isSpace before = true
  | beforeBlank =>
    rw [matchesAt, Bool.and_eq_true]
    exact edge_iff fun rest => rest.head?.all isSpace = true

/-- To a phrase the start of a text is like a space. -/
theorem matchesAt_none (phrase : Phrase) (text : Text) :
    phrase.matchesAt none text = phrase.matchesAt (some ' ') text := by
  induction phrase generalizing text with
  | nil => rfl
  | cons part phrase ih =>
    have hor : ∀ taken rest : Text, matchesAt phrase (taken.getLast?.or none) rest
        = matchesAt phrase (taken.getLast?.or (some ' ')) rest := by
      intro taken rest
      cases taken.getLast? with
      | none => exact ih rest
      | some c => rfl
    cases part with
    | exact wording => simp only [matchesAt, hor]
    | anyCase wording => simp only [matchesAt, hor]
    | blanks => rfl
    | restOfLine =>
      rw [matchesAt, matchesAt]
      cases text with
      | nil => exact ih []
      | cons c text => rw [furtherOn, furtherOn, ih]
    | wordEdge =>
      rw [matchesAt, matchesAt, ih]
      rfl
    | afterBlank =>
      rw [matchesAt, matchesAt, ih]
      rfl
    | beforeBlank => rw [matchesAt, matchesAt, ih]

theorem occursFrom_iff (phrase : Phrase) (before : Char) (text : Text) :
    phrase.occursFrom (some before) text = true ↔
      ∃ skipped rest, text = skipped ++ rest ∧
        phrase.matchesAt (some (skipped.getLastD before)) rest = true := by
  induction text generalizing before with
  | nil =>
    constructor
    · intro h
      exact ⟨[], [], rfl, h⟩
    · rintro ⟨skipped, rest, htext, h⟩
      obtain ⟨rfl, rfl⟩ := List.append_eq_nil_iff.1 htext.symm
      exact h
  | cons c text ih =>
    rw [occursFrom, Bool.or_eq_true, ih c]
    constructor
    · rintro (h | ⟨skipped, rest, rfl, h⟩)
      · exact ⟨[], c :: text, rfl, h⟩
      · exact ⟨c :: skipped, rest, rfl, by rwa [List.getLastD_cons]⟩
    · rintro ⟨skipped, rest, htext, h⟩
      cases skipped with
      | nil =>
        rw [List.nil_append] at htext
        rw [htext]
        exact .inl h
      | cons d skipped =>
        obtain ⟨rfl, rfl⟩ := List.cons.inj htext
        exact .inr ⟨skipped, rest, rfl, by rwa [List.getLastD_cons] at h⟩

/-- **A phrase occurs in a text** if it is read behind some start of it. -/
theorem occursIn_iff (phrase : Phrase) (text : Text) :
    phrase.occursIn text = true ↔
      ∃ skipped rest, text = skipped ++ rest ∧
        phrase.matchesAt (some (skipped.getLastD ' ')) rest = true := by
  have hstart : phrase.occursIn text = phrase.occursFrom (some ' ') text := by
    unfold occursIn
    cases text with
    | nil => exact matchesAt_none phrase []
    | cons c text => rw [occursFrom, occursFrom, matchesAt_none]
  rw [hstart, occursFrom_iff]

end Phrase

/-! ## More spaces -/

/-- **`Loosened before text loose`**: `loose` is `text` with spaces added behind its
spaces, `before` being the character before both. -/
inductive Loosened : (before : Char) → (text loose : Text) → Prop
  /-- Nothing is left. -/
  | nil (before : Char) : Loosened before [] []
  /-- The same character comes next. -/
  | cons {before c : Char} {text loose : Text} (h : Loosened c text loose) :
      Loosened before (c :: text) (c :: loose)
  /-- A space is added behind a space. -/
  | space {text loose : Text} (h : Loosened ' ' text loose) : Loosened ' ' text (' ' :: loose)

namespace Loosened

variable {before : Char} {text loose taken rest : Text}

theorem refl (before : Char) (text : Text) : Loosened before text text := by
  induction text generalizing before with
  | nil => exact .nil before
  | cons c text ih => exact .cons (ih c)

/-- The same text may stand before both. -/
theorem append_left (start : Text) (h : Loosened (start.getLastD before) text loose) :
    Loosened before (start ++ text) (start ++ loose) := by
  induction start generalizing before with
  | nil => exact h
  | cons c start ih =>
    rw [List.getLastD_cons] at h
    exact .cons (ih h)

/-- Any number of spaces may be added behind a space. -/
theorem spaces_append (n : Nat) (h : Loosened ' ' text loose) :
    Loosened ' ' text (Text.spaces n ++ loose) := by
  induction n with
  | zero => exact h
  | succ n ih => exact .space ih

/-- **Joined lines get looser when spaces are put before the lines.** -/
theorem intercalate (gap : Text → Nat) (ls : List Text) :
    Loosened ' ' ([' '].intercalate ls)
      ([' '].intercalate (ls.map fun line => Text.spaces (gap line) ++ line)) := by
  induction ls with
  | nil => exact .nil ' '
  | cons line ls ih =>
    cases ls with
    | nil =>
      rw [List.map_singleton, List.intercalate_singleton, List.intercalate_singleton]
      exact spaces_append (gap line) (.refl ' ' line)
    | cons next ls =>
      rw [List.map_cons, List.map_cons, List.intercalate_cons_cons, List.intercalate_cons_cons,
        List.append_assoc (Text.spaces _), List.append_assoc (Text.spaces _)]
      refine spaces_append (gap line) (append_left (line ++ [' ']) ?_)
      rw [List.getLastD_concat]
      exact ih

/-- Only spaces are added. -/
theorem mem_iff (h : Loosened before text loose) {c : Char} (hc : c ≠ ' ') :
    c ∈ loose ↔ c ∈ text := by
  induction h with
  | nil => exact Iff.rfl
  | cons _ ih => rw [List.mem_cons, List.mem_cons, ih]
  | space _ ih => rw [List.mem_cons, ih, or_iff_right hc]

theorem isBlank_eq (h : Loosened before text loose) : Text.isBlank loose = Text.isBlank text := by
  induction h with
  | nil => rfl
  | @cons _ c _ _ _ ih => exact congrArg (isSpace c && ·) ih
  | space _ ih => exact ih

theorem getLastD_eq (h : Loosened before text loose) :
    loose.getLastD before = text.getLastD before := by
  induction h with
  | nil => rfl
  | cons _ ih => rw [List.getLastD_cons, List.getLastD_cons, ih]
  | space _ ih => rw [List.getLastD_cons, ih]

/-- Behind a visible character there is no space to add. -/
theorem head?_eq (h : Loosened before text loose) (hbefore : before ≠ ' ') :
    loose.head? = text.head? := by
  cases h with
  | nil => rfl
  | cons _ => rfl
  | space _ => exact absurd rfl hbefore

theorem head?_eq_of_ne (h : Loosened before text loose) (hhead : loose.head? ≠ some ' ') :
    loose.head? = text.head? := by
  cases h with
  | nil => rfl
  | cons _ => rfl
  | space _ => exact absurd rfl hhead

end Loosened

/-! ## From the loose text to the tight one -/

/-- Whether a text behind `before` has no two spaces in a row. -/
def Text.isTight : (before : Char) → Text → Bool
  | _, [] => true
  | before, c :: text => !(before == ' ' && c == ' ') && isTight c text

namespace PhrasePart

/-- A wording that neither starts nor ends with a space and has no two in a row. -/
def isNeat (wording : Text) : Bool := wording.getLastD ' ' != ' ' && Text.isTight ' ' wording

/-- Whether a part that is read in a loose text is read in the tight one. Where `visible`
holds, there is a character other than a space before. -/
def isSteady (visible : Bool) : PhrasePart → Bool
  | .exact wording | .anyCase wording => isNeat wording
  | .blanks | .beforeBlank => visible
  | .restOfLine | .wordEdge | .afterBlank => true

/-- Whether a character other than a space is sure to stand before what follows the
part. -/
def endsVisibly (visible : Bool) : PhrasePart → Bool
  | .exact _ | .anyCase _ => true
  | .blanks | .restOfLine => false
  | .wordEdge | .afterBlank | .beforeBlank => visible

end PhrasePart

/-- Whether every part of a phrase is steady where it stands. -/
def Phrase.isSteady : (visible : Bool) → Phrase → Bool
  | _, [] => true
  | visible, part :: phrase =>
    part.isSteady visible && isSteady (part.endsVisibly visible) phrase

namespace Text

variable {before : Char} {text : Text}

/-- What is tight behind a space is tight anywhere. -/
theorem isTight_of_space (h : isTight ' ' text = true) (before : Char) :
    isTight before text = true := by
  cases text with
  | nil => rfl
  | cons c text =>
    obtain ⟨hc, htext⟩ := Bool.and_eq_true_iff.1 h
    have hc : (c == ' ') = false := by simpa using hc
    rw [isTight, hc, Bool.and_false]
    exact htext

/-- The letter case makes no spaces. -/
theorem isTight_of_map_lowerCase
    (h : isTight (Phrase.lowerCase before) (text.map Phrase.lowerCase) = true) :
    isTight before text = true := by
  have hspace : ∀ c : Char, (c == ' ') = true → (Phrase.lowerCase c == ' ') = true := by
    intro c hc
    rw [eq_of_beq hc]
    rfl
  induction text generalizing before with
  | nil => rfl
  | cons c text ih =>
    obtain ⟨hc, htext⟩ := Bool.and_eq_true_iff.1 h
    refine Bool.and_eq_true_iff.2 ⟨?_, ih htext⟩
    rw [Bool.not_eq_true', Bool.eq_false_iff] at hc ⊢
    intro hboth
    obtain ⟨hb, hc'⟩ := Bool.and_eq_true_iff.1 hboth
    exact hc (Bool.and_eq_true_iff.2 ⟨hspace before hb, hspace c hc'⟩)

end Text

namespace PhrasePart

variable {wording : Text}

theorem getLastD_ne_space_of_isNeat (h : isNeat wording = true) (before : Char) :
    wording.getLastD before ≠ ' ' := by
  have hlast : wording.getLastD ' ' ≠ ' ' := by
    simpa using (Bool.and_eq_true_iff.1 h).1
  cases wording with
  | nil => exact absurd rfl hlast
  | cons c wording => rwa [List.getLastD_cons] at hlast ⊢

theorem isNeat_of_map_lowerCase (h : isNeat (wording.map Phrase.lowerCase) = true) :
    isNeat wording = true := by
  obtain ⟨hlast, htight⟩ := Bool.and_eq_true_iff.1 h
  refine Bool.and_eq_true_iff.2 ⟨?_, Text.isTight_of_map_lowerCase htight⟩
  rw [bne_iff_ne] at hlast ⊢
  intro hspace
  have hmap : (wording.map Phrase.lowerCase).getLastD (Phrase.lowerCase ' ')
      = Phrase.lowerCase (wording.getLastD ' ') := by
    rw [List.getLastD_eq_getLast?, List.getLastD_eq_getLast?, List.getLast?_map, Option.getD_map]
  exact hlast (hmap.trans (congrArg Phrase.lowerCase hspace))

end PhrasePart

namespace Loosened

variable {before : Char} {text loose taken rest taken' rest' : Text} {part : PhrasePart}
  {phrase : Phrase} {visible : Bool}

/-- No space was added to a text that is tight. -/
theorem eq_of_isTight (h : Loosened before text loose)
    (htight : Text.isTight before loose = true) : text = loose := by
  induction h with
  | nil => rfl
  | @cons _ c _ _ _ ih => rw [ih (Bool.and_eq_true_iff.1 htight).2]
  | space _ => cases (Bool.and_eq_true_iff.1 htight).1

theorem eq_of_isNeat (h : Loosened before text loose) (hneat : PhrasePart.isNeat loose = true) :
    text = loose :=
  h.eq_of_isTight (Text.isTight_of_space (Bool.and_eq_true_iff.1 hneat).2 before)

/-- A cut of the loose text is a cut of the tight one. -/
theorem exists_cut (h : Loosened before text (taken ++ rest)) :
    ∃ taken' rest', text = taken' ++ rest' ∧ Loosened before taken' taken ∧
      Loosened (taken.getLastD before) rest' rest := by
  induction taken generalizing before text with
  | nil => exact ⟨[], text, rfl, .nil before, h⟩
  | cons c taken ih =>
    rw [List.getLastD_cons]
    cases h with
    | cons h =>
      obtain ⟨taken', rest', rfl, htaken, hrest⟩ := ih h
      exact ⟨c :: taken', rest', rfl, .cons htaken, hrest⟩
    | space h =>
      obtain ⟨taken', rest', rfl, htaken, hrest⟩ := ih h
      exact ⟨taken', rest', rfl, .space htaken, hrest⟩

theorem eq_nil (h : Loosened before text []) : text = [] := by
  cases h
  rfl

/-- **A steady part takes of the tight text what it takes of the loose one**, less the
spaces added to it. -/
theorem takes (hpart : part.isSteady visible = true) (hvisible : visible = true → before ≠ ' ')
    (htaken : Loosened before taken' taken) (hrest : Loosened (taken.getLastD before) rest' rest)
    (h : part.Takes before taken rest) : part.Takes before taken' rest' := by
  cases part with
  | exact wording =>
    obtain rfl : taken = wording := h
    exact htaken.eq_of_isNeat hpart
  | anyCase wording =>
    obtain rfl : taken.map Phrase.lowerCase = wording := h
    rw [htaken.eq_of_isNeat (PhrasePart.isNeat_of_map_lowerCase hpart)]
    rfl
  | blanks =>
    refine ⟨?_, htaken.isBlank_eq.symm.trans h.2⟩
    rintro rfl
    -- all blanks would be added, behind a character that is visible
    have hhead := htaken.head?_eq (hvisible hpart)
    exact h.1 (List.head?_eq_none_iff.1 hhead)
  | restOfLine => exact fun hmem => h ((htaken.mem_iff (by decide)).2 hmem)
  | wordEdge =>
    obtain ⟨rfl, hedge⟩ := h
    refine ⟨htaken.eq_nil, ?_⟩
    by_cases hbefore : before = ' '
    · -- behind a space an edge is the start of a word
      subst hbefore
      have hhead : rest.head? ≠ some ' ' := by
        intro hspace
        rw [hspace] at hedge
        cases hedge
      rwa [← hrest.head?_eq_of_ne hhead]
    · rwa [← hrest.head?_eq hbefore]
  | afterBlank => exact ⟨(h.1 ▸ htaken).eq_nil, h.2⟩
  | beforeBlank =>
    obtain ⟨rfl, hblank⟩ := h
    refine ⟨htaken.eq_nil, ?_⟩
    rwa [← hrest.head?_eq (hvisible hpart)]

/-- What a steady part takes ends as `PhrasePart.endsVisibly` says. -/
theorem getLastD_ne_space (hpart : part.isSteady visible = true)
    (hvisible : visible = true → before ≠ ' ') (h : part.Takes before taken rest)
    (hends : part.endsVisibly visible = true) : taken.getLastD before ≠ ' ' := by
  cases part with
  | exact wording =>
    obtain rfl : taken = wording := h
    exact PhrasePart.getLastD_ne_space_of_isNeat hpart before
  | anyCase wording =>
    obtain rfl : taken.map Phrase.lowerCase = wording := h
    exact PhrasePart.getLastD_ne_space_of_isNeat (PhrasePart.isNeat_of_map_lowerCase hpart) before
  | blanks => cases hends
  | restOfLine => cases hends
  | wordEdge | afterBlank | beforeBlank =>
    rw [h.1]
    exact hvisible hends

theorem matchesAt_of_isSteady (hphrase : Phrase.isSteady visible phrase = true)
    (hvisible : visible = true → before ≠ ' ') (h : Loosened before text loose)
    (hmatches : phrase.matchesAt (some before) loose = true) :
    phrase.matchesAt (some before) text = true := by
  induction phrase generalizing visible before text loose with
  | nil => rfl
  | cons part phrase ih =>
    obtain ⟨hpart, hphrase⟩ := Bool.and_eq_true_iff.1 hphrase
    obtain ⟨taken, rest, rfl, htakes, hmatches⟩ := (Phrase.matchesAt_cons_iff ..).1 hmatches
    obtain ⟨taken', rest', rfl, htaken, hrest⟩ := h.exists_cut
    refine (Phrase.matchesAt_cons_iff ..).2
      ⟨taken', rest', rfl, takes hpart hvisible htaken hrest htakes, ?_⟩
    rw [← htaken.getLastD_eq]
    exact ih hphrase (getLastD_ne_space hpart hvisible htakes) hrest hmatches

/-- **A steady phrase of a loose text is one of the tight text.** -/
theorem occursIn_of_isSteady (h : Loosened ' ' text loose)
    (hphrase : Phrase.isSteady false phrase = true) (hoccurs : phrase.occursIn loose = true) :
    phrase.occursIn text = true := by
  obtain ⟨skipped, rest, rfl, hmatches⟩ := (Phrase.occursIn_iff ..).1 hoccurs
  obtain ⟨skipped', rest', rfl, hskipped, hrest⟩ := h.exists_cut
  refine (Phrase.occursIn_iff ..).2 ⟨skipped', rest', rfl, ?_⟩
  rw [← hskipped.getLastD_eq]
  exact matchesAt_of_isSteady hphrase (fun hfalse => by cases hfalse) hrest hmatches

end Loosened

/-! ## From the tight text to the loose one -/

/-- Whether a part has no wording with a space in it. -/
def PhrasePart.isSolid : PhrasePart → Bool
  | .exact wording | .anyCase wording => !wording.contains ' '
  | _ => true

/-- Whether no wording of a phrase has a space in it. -/
def Phrase.isSolid (phrase : Phrase) : Bool := phrase.all PhrasePart.isSolid

namespace Loosened

variable {before : Char} {text loose taken rest : Text} {part : PhrasePart} {phrase : Phrase}

/-- A cut of the tight text is a cut of the loose one, the spaces added at the cut being
before it. -/
theorem exists_cut_of_append {whole : Text} (h : Loosened before whole loose)
    (hwhole : whole = taken ++ rest) :
    ∃ taken' rest', loose = taken' ++ rest' ∧ Loosened before taken taken' ∧
      Loosened (taken.getLastD before) rest rest' ∧ rest'.head? = rest.head? := by
  induction h generalizing taken with
  | nil before =>
    obtain ⟨rfl, rfl⟩ := List.append_eq_nil_iff.1 hwhole.symm
    exact ⟨[], [], rfl, .nil before, .nil before, rfl⟩
  | @cons before c text loose h ih =>
    cases taken with
    | nil =>
      rw [List.nil_append] at hwhole
      subst hwhole
      exact ⟨[], c :: loose, rfl, .nil before, .cons h, rfl⟩
    | cons d taken =>
      obtain ⟨rfl, rfl⟩ := List.cons.inj hwhole
      obtain ⟨taken', rest', rfl, htaken, hrest, hhead⟩ := ih rfl
      rw [List.getLastD_cons]
      exact ⟨c :: taken', rest', rfl, .cons htaken, hrest, hhead⟩
  | space _ ih =>
    obtain ⟨taken', rest', rfl, htaken, hrest, hhead⟩ := ih hwhole
    exact ⟨' ' :: taken', rest', rfl, .space htaken, hrest, hhead⟩

/-- A wording without spaces is read where it was, if no space was added right
before it. -/
theorem exists_append_eq (hsolid : ' ' ∉ taken) (h : Loosened before (taken ++ rest) loose)
    (hhead : loose.head? = (taken ++ rest).head?) :
    ∃ rest', loose = taken ++ rest' ∧ Loosened (taken.getLastD before) rest rest' ∧
      rest'.head? = rest.head? := by
  induction taken generalizing before loose with
  | nil => exact ⟨loose, rfl, h, hhead⟩
  | cons c taken ih =>
    rw [List.mem_cons, not_or] at hsolid
    rw [List.getLastD_cons]
    cases h with
    | cons h =>
      obtain ⟨rest', rfl, hrest⟩ := ih hsolid.2 h (h.head?_eq (Ne.symm hsolid.1))
      exact ⟨rest', rfl, hrest⟩
    | space _ => exact absurd (Option.some.inj hhead) hsolid.1

/-- **A solid part takes of the loose text what it takes of the tight one**, with the
spaces added to it. -/
theorem exists_takes (hpart : part.isSolid = true) (h : Loosened before (taken ++ rest) loose)
    (hhead : loose.head? = (taken ++ rest).head?) (htakes : part.Takes before taken rest) :
    ∃ taken' rest', loose = taken' ++ rest' ∧ part.Takes before taken' rest' ∧
      taken'.getLastD before = taken.getLastD before ∧
      Loosened (taken.getLastD before) rest rest' ∧ rest'.head? = rest.head? := by
  cases part with
  | exact wording =>
    obtain rfl : taken = wording := htakes
    have hsolid : ' ' ∉ taken := by simpa [PhrasePart.isSolid] using hpart
    obtain ⟨rest', rfl, hrest⟩ := exists_append_eq hsolid h hhead
    exact ⟨taken, rest', rfl, rfl, rfl, hrest⟩
  | anyCase wording =>
    obtain rfl : taken.map Phrase.lowerCase = wording := htakes
    have hsolid : ' ' ∉ taken := by
      intro hmem
      have hspace : ' ' ∈ taken.map Phrase.lowerCase := List.mem_map.2 ⟨' ', hmem, rfl⟩
      simp [PhrasePart.isSolid, hspace] at hpart
    obtain ⟨rest', rfl, hrest⟩ := exists_append_eq hsolid h hhead
    exact ⟨taken, rest', rfl, rfl, rfl, hrest⟩
  | blanks =>
    obtain ⟨taken', rest', rfl, htaken, hrest⟩ := h.exists_cut_of_append rfl
    refine ⟨taken', rest', rfl, ⟨?_, htaken.isBlank_eq.trans htakes.2⟩, htaken.getLastD_eq, hrest⟩
    rintro rfl
    exact htakes.1 htaken.eq_nil
  | restOfLine =>
    obtain ⟨taken', rest', rfl, htaken, hrest⟩ := h.exists_cut_of_append rfl
    refine ⟨taken', rest', rfl, ?_, htaken.getLastD_eq, hrest⟩
    exact fun hmem => htakes ((htaken.mem_iff (by decide)).1 hmem)
  | wordEdge =>
    obtain ⟨rfl, hedge⟩ := htakes
    exact ⟨[], loose, rfl, ⟨rfl, by rwa [hhead]⟩, rfl, h, hhead⟩
  | afterBlank =>
    obtain ⟨rfl, hblank⟩ := htakes
    exact ⟨[], loose, rfl, ⟨rfl, hblank⟩, rfl, h, hhead⟩
  | beforeBlank =>
    obtain ⟨rfl, hblank⟩ := htakes
    exact ⟨[], loose, rfl, ⟨rfl, by rwa [hhead]⟩, rfl, h, hhead⟩

theorem matchesAt_of_isSolid (hphrase : phrase.isSolid = true) (h : Loosened before text loose)
    (hhead : loose.head? = text.head?) (hmatches : phrase.matchesAt (some before) text = true) :
    phrase.matchesAt (some before) loose = true := by
  induction phrase generalizing before text loose with
  | nil => rfl
  | cons part phrase ih =>
    obtain ⟨hpart, hphrase⟩ := Bool.and_eq_true_iff.1 hphrase
    obtain ⟨taken, rest, rfl, htakes, hmatches⟩ := (Phrase.matchesAt_cons_iff ..).1 hmatches
    obtain ⟨taken', rest', rfl, htakes', hlast, hrest, hhead'⟩ :=
      exists_takes hpart h hhead htakes
    refine (Phrase.matchesAt_cons_iff ..).2 ⟨taken', rest', rfl, htakes', ?_⟩
    rw [hlast]
    exact ih hphrase hrest hhead' hmatches

/-- **A solid phrase of a tight text is one of the loose text.** -/
theorem occursIn_of_isSolid (h : Loosened ' ' text loose) (hphrase : phrase.isSolid = true)
    (hoccurs : phrase.occursIn text = true) : phrase.occursIn loose = true := by
  obtain ⟨skipped, rest, rfl, hmatches⟩ := (Phrase.occursIn_iff ..).1 hoccurs
  obtain ⟨skipped', rest', rfl, hskipped, hrest, hhead⟩ := h.exists_cut_of_append rfl
  refine (Phrase.occursIn_iff ..).2 ⟨skipped', rest', rfl, ?_⟩
  rw [hskipped.getLastD_eq]
  exact matchesAt_of_isSolid hphrase hrest hhead hmatches

theorem occursIn_eq (h : Loosened ' ' text loose) (phrase : Phrase)
    (hsteady : phrase.isSteady false = true) (hsolid : phrase.isSolid = true) :
    phrase.occursIn loose = phrase.occursIn text :=
  Bool.eq_iff_iff.2 ⟨h.occursIn_of_isSteady hsteady, h.occursIn_of_isSolid hsolid⟩

end Loosened

/-! ## The verdict on a loose text -/

/-- The name under which a license is reported, if it has one. -/
def Recognition.id? (later : Bool) : Recognition → Option String
  | .unnamed => none
  | .named id laterId _ _ => if later then laterId.or (some id) else some id

/-- Every phrase of the table is steady. -/
theorem Signature.isSteady_of_mem_table {s : Signature} (hs : s ∈ table) {phrase : Phrase}
    (hphrase : phrase ∈ s.requires) : phrase.isSteady false = true := by
  have hall : ∀ s ∈ table, ∀ phrase ∈ s.requires, phrase.isSteady false = true := by decide
  exact hall s hs phrase hphrase

/-- **Signatures are told apart by what they report.** -/
theorem Signature.eq_of_id?_eq {s s' : Signature} (hs : s ∈ table) (hs' : s' ∈ table)
    {later : Bool} (h : s.recognition.id? later = s'.recognition.id? later) : s = s' := by
  have hnodup : (table.map fun s => s.recognition.id? later).Nodup := by
    cases later <;> decide
  exact List.inj_on_of_nodup_map hnodup hs hs' h

theorem Recognition.id?_eq_none_iff {r : Recognition} {later : Bool} :
    r.id? later = none ↔ r = .unnamed := by
  cases r with
  | unnamed => exact iff_of_true rfl rfl
  | named id laterId family version =>
    refine iff_of_false ?_ Recognition.noConfusion
    cases later <;> cases laterId <;> exact Option.some_ne_none _

namespace Verdict

/-- The verdict as far as single words go. -/
def ofWords (text : Text) : Verdict :=
  { isCopyright := claimsCopyright text, isLicense := speaksOfLicense text }

/-- The signature that decides the verdict. -/
def signature? (text : Text) : Option Signature :=
  if speaksOfLicense text then Signature.table.find? fun s => s.fits text else none

theorem signature?_eq_some_iff {text : Text} {s : Signature} :
    signature? text = some s ↔
      speaksOfLicense text = true ∧ (Signature.table.find? fun s => s.fits text) = some s := by
  unfold signature?
  split <;> simp_all

theorem mem_table_and_fits {text : Text} {s : Signature} (h : signature? text = some s) :
    s ∈ Signature.table ∧ s.fits text = true := by
  obtain ⟨-, hfind⟩ := signature?_eq_some_iff.1 h
  exact ⟨List.mem_of_find?_eq_some hfind, List.find?_some (p := (Signature.fits · text)) hfind⟩

/-- A verdict is given by words and by the signature that decides. -/
theorem ofText_eq (text : Text) :
    ofText text = match signature? text with
      | some s => (ofWords text).recognized text s.recognition
      | none => ofWords text := by
  unfold ofText signature?
  cases hspeaks : speaksOfLicense text with
  | false => simp [ofWords, hspeaks]
  | true =>
    rw [if_pos rfl]
    cases Signature.table.find? fun s => s.fits text <;> simp [ofWords, hspeaks]

theorem isCopyright_ofText (text : Text) : (ofText text).isCopyright = claimsCopyright text := by
  rw [ofText_eq]
  split
  · unfold recognized
    split
    · rfl
    · rfl
    · split <;> rfl
  · rfl

theorem licenseId_recognized (v : Verdict) (hv : v.licenseId = none) (text : Text)
    (r : Recognition) :
    (v.recognized text r).licenseId = r.id? (Signature.orLater.occursIn text) := by
  unfold recognized Recognition.id?
  split
  · exact hv
  · cases Signature.orLater.occursIn text <;> rfl
  · cases Signature.orLater.occursIn text <;> rfl

end Verdict

namespace Loosened

variable {text loose : Text}

theorem claimsCopyright_eq (h : Loosened ' ' text loose) :
    Verdict.claimsCopyright loose = Verdict.claimsCopyright text := by
  unfold Verdict.claimsCopyright
  rw [h.occursIn_eq Verdict.copyrightWord (by decide) (by decide),
    h.occursIn_eq Verdict.copyrightSign (by decide) (by decide)]

theorem speaksOfLicense_eq (h : Loosened ' ' text loose) :
    Verdict.speaksOfLicense loose = Verdict.speaksOfLicense text := by
  rw [Verdict.speaksOfLicense_eq, Verdict.speaksOfLicense_eq,
    h.occursIn_eq _ (by decide) (by decide), h.occursIn_eq _ (by decide) (by decide)]

theorem ofWords_eq (h : Loosened ' ' text loose) :
    Verdict.ofWords loose = Verdict.ofWords text := by
  unfold Verdict.ofWords
  rw [h.claimsCopyright_eq, h.speaksOfLicense_eq]

theorem orLater_eq (h : Loosened ' ' text loose) :
    Signature.orLater.occursIn loose = Signature.orLater.occursIn text :=
  h.occursIn_eq Signature.orLater (by decide) (by decide)

theorem recognized_eq (h : Loosened ' ' text loose) (v : Verdict) (r : Recognition) :
    v.recognized loose r = v.recognized text r := by
  unfold Verdict.recognized
  rw [h.orLater_eq]

/-- No signature comes into a text with spaces. -/
theorem fits_of_fits (h : Loosened ' ' text loose) {s : Signature} (hs : s ∈ Signature.table)
    (hfits : s.fits loose = true) : s.fits text = true := by
  refine List.all_eq_true.2 fun phrase hphrase => ?_
  exact h.occursIn_of_isSteady (Signature.isSteady_of_mem_table hs hphrase)
    (List.all_eq_true.1 hfits phrase hphrase)

theorem signature?_eq_none (h : Loosened ' ' text loose) (hnone : Verdict.signature? text = none) :
    Verdict.signature? loose = none := by
  refine Option.eq_none_iff_forall_ne_some.2 fun s hs => ?_
  obtain ⟨hmem, hfits⟩ := Verdict.mem_table_and_fits hs
  have hspeaks := (Verdict.signature?_eq_some_iff.1 hs).1
  rw [Verdict.signature?, ← h.speaksOfLicense_eq, if_pos hspeaks, List.find?_eq_none] at hnone
  exact hnone s hmem (h.fits_of_fits hmem hfits)

/-- **A signature goes on deciding as long as it is not torn**: those before it are still
not there. -/
theorem signature?_eq_some (h : Loosened ' ' text loose) {s : Signature}
    (hs : Verdict.signature? text = some s) (hfits : s.fits loose = true) :
    Verdict.signature? loose = some s := by
  obtain ⟨hspeaks, hfind⟩ := Verdict.signature?_eq_some_iff.1 hs
  refine Verdict.signature?_eq_some_iff.2 ⟨h.speaksOfLicense_eq.trans hspeaks, ?_⟩
  obtain ⟨-, earlier, later, htable, hearlier⟩ := List.find?_eq_some_iff_append.1 hfind
  refine List.find?_eq_some_iff_append.2 ⟨hfits, earlier, later, htable, fun s' hs' => ?_⟩
  have hmem : s' ∈ Signature.table := htable ▸ List.mem_append_left _ hs'
  have hnot := hearlier s' hs'
  rw [Bool.not_eq_true', Bool.eq_false_iff] at hnot ⊢
  exact fun hfits' => hnot (h.fits_of_fits hmem hfits')

/-- **Spaces change a verdict exactly by tearing the signature that decides it.** A
signature that names no license may also be torn without another in its place. -/
theorem ofText_eq_iff (h : Loosened ' ' text loose) :
    Verdict.ofText loose = Verdict.ofText text ↔
      ∀ s, Verdict.signature? text = some s → s.fits loose = true ∨
        s.recognition = .unnamed ∧ Verdict.signature? loose = none := by
  rw [Verdict.ofText_eq, Verdict.ofText_eq, h.ofWords_eq]
  cases htext : Verdict.signature? text with
  | none =>
    rw [h.signature?_eq_none htext]
    exact iff_of_true rfl (fun s hs => by cases hs)
  | some s =>
    have hid := Verdict.licenseId_recognized (.ofWords text) rfl
    by_cases hfits : s.fits loose = true
    · rw [h.signature?_eq_some htext hfits]
      refine iff_of_true (h.recognized_eq _ _) ?_
      rintro s' ⟨⟩
      exact .inl hfits
    · cases hloose : Verdict.signature? loose with
      | none =>
        constructor
        · rintro heq s' ⟨⟩
          have hnone := (hid text s.recognition).symm.trans (congrArg Verdict.licenseId heq).symm
          exact .inr ⟨Recognition.id?_eq_none_iff.1 hnone, rfl⟩
        · intro hkept
          obtain hfits' | ⟨hunnamed, -⟩ := hkept s rfl
          · exact absurd hfits' hfits
          · show Verdict.ofWords text = (Verdict.ofWords text).recognized text s.recognition
            rw [hunnamed]
            rfl
      | some s' =>
        -- another signature decides, and it reports something else
        obtain ⟨hmem, -⟩ := Verdict.mem_table_and_fits htext
        obtain ⟨hmem', hfits'⟩ := Verdict.mem_table_and_fits hloose
        refine iff_of_false ?_ ?_
        · intro heq
          have hids := congrArg Verdict.licenseId ((h.recognized_eq _ _).symm.trans heq)
          rw [hid, hid] at hids
          exact hfits (Signature.eq_of_id?_eq hmem' hmem hids ▸ hfits')
        · intro hkept
          obtain hkept | ⟨-, hnone⟩ := hkept s rfl
          · exact hfits hkept
          · cases hnone

end Loosened

end LicenseHeader
