import LicenseHeader.License.Verdict

/-!
# A word stands on one line

A comment block is judged by its lines joined by spaces. Whether it speaks of a
license is a matter of single words, and a word holds no space, so it stands on one
of the lines: joined lines have the word exactly if one of them has it
(`Phrase.occursIn_intercalate`). Spaces put before a line, as the gap behind a leader,
are no matter either (`Phrase.occursIn_spaces_append`).

So a block goes on speaking of a license when its lines are written behind a leader
and others are added to them (`Verdict.isLicense_of_lines`).
-/

namespace LicenseHeader

namespace Phrase

/-- The phrase of a word, from its first letter on, in any letter case. -/
def startOfWord (word : Text) : Phrase := [.wordEdge, .anyCase word]

/-- A word of letters, given in lower case. -/
structure IsWord (word : Text) : Prop where
  /-- It has a letter. -/
  ne_nil : word ≠ []
  /-- It holds no space. -/
  solid : ' ' ∉ word

variable {word : Text}

/-- A wording without spaces ends before a space. -/
theorem isSome_afterAnyCase?_append (hword : ' ' ∉ word) (s t : Text) :
    (afterAnyCase? word (s ++ ' ' :: t)).isSome = (afterAnyCase? word s).isSome := by
  induction word generalizing s with
  | nil => cases s <;> rfl
  | cons a word ih =>
    have hword' : ' ' ∉ word := fun h => hword (List.mem_cons_of_mem _ h)
    cases s with
    | nil =>
      have hne : a ≠ lowerCase ' ' := by
        rintro rfl
        exact hword List.mem_cons_self
      show (if a = lowerCase ' ' then afterAnyCase? word t else none).isSome = false
      rw [if_neg hne]
      rfl
    | cons c s =>
      rw [List.cons_append, afterAnyCase?, afterAnyCase?]
      split
      · exact ih hword' s
      · rfl

theorem matchesAt_startOfWord (before : Option Char) (text : Text) :
    (startOfWord word).matchesAt before text
      = (Text.isWordEdge before text.head? && (afterAnyCase? word text).isSome) := by
  unfold startOfWord
  rw [matchesAt, matchesAt]
  congr 1
  cases afterAnyCase? word text <;> rfl

/-- The start of a text and a space are the same to a word behind them. -/
theorem occursFrom_space (text : Text) :
    (startOfWord word).occursFrom (some ' ') text = (startOfWord word).occursFrom none text := by
  have hedge : ∀ after, Text.isWordEdge (some ' ') after = Text.isWordEdge none after := by
    intro after
    cases after <;> rfl
  cases text with
  | nil => rw [occursFrom, occursFrom, matchesAt_startOfWord, matchesAt_startOfWord, hedge]
  | cons c text =>
    rw [occursFrom, occursFrom, matchesAt_startOfWord, matchesAt_startOfWord, hedge]

/-- **A word stands on one side of a space.** -/
theorem occursFrom_append_space (hword : IsWord word) (before : Option Char) (s t : Text) :
    (startOfWord word).occursFrom before (s ++ ' ' :: t)
      = ((startOfWord word).occursFrom before s || (startOfWord word).occursFrom none t) := by
  obtain ⟨a, rest, rfl⟩ := List.exists_cons_of_ne_nil hword.ne_nil
  induction s generalizing before with
  | nil =>
    have hhere := isSome_afterAnyCase?_append hword.solid [] t
    rw [List.nil_append] at hhere ⊢
    rw [occursFrom, occursFrom, matchesAt_startOfWord, matchesAt_startOfWord, hhere,
      occursFrom_space]
    show (_ && false || _) = (_ && false || _)
    rw [Bool.and_false, Bool.and_false]
  | cons c s ih =>
    have hhere := isSome_afterAnyCase?_append hword.solid (c :: s) t
    rw [List.cons_append] at hhere ⊢
    rw [occursFrom, occursFrom, matchesAt_startOfWord, matchesAt_startOfWord, hhere, ih,
      List.head?_cons, List.head?_cons, Bool.or_assoc]

theorem occursIn_nil (hword : IsWord word) : (startOfWord word).occursIn [] = false := by
  obtain ⟨a, rest, rfl⟩ := List.exists_cons_of_ne_nil hword.ne_nil
  show (startOfWord (a :: rest)).matchesAt none [] = false
  rw [matchesAt_startOfWord]
  exact Bool.and_false _

/-- **Joined lines have a word if one of them has it.** -/
theorem occursIn_intercalate (hword : IsWord word) (ls : List Text) :
    (startOfWord word).occursIn ([' '].intercalate ls) = ls.any (startOfWord word).occursIn := by
  induction ls with
  | nil => exact occursIn_nil hword
  | cons line ls ih =>
    cases ls with
    | nil => simp [List.intercalate]
    | cons next ls =>
      have hjoin : [' '].intercalate (line :: next :: ls)
          = line ++ ' ' :: [' '].intercalate (next :: ls) := by
        simp [List.intercalate]
      rw [hjoin, occursIn, occursFrom_append_space hword, List.any_cons, ← ih]
      rfl

/-- Spaces before a line are no matter to a word on it. -/
theorem occursIn_spaces_append (hword : IsWord word) (n : Nat) (line : Text) :
    (startOfWord word).occursIn (Text.spaces n ++ line) = (startOfWord word).occursIn line := by
  induction n with
  | zero => rfl
  | succ n ih =>
    have hspace := occursFrom_append_space hword none [] (Text.spaces n ++ line)
    show (startOfWord word).occursFrom none ([] ++ ' ' :: (Text.spaces n ++ line)) = _
    rw [hspace, ← ih]
    show ((startOfWord word).occursIn [] || _) = _
    rw [occursIn_nil hword, Bool.false_or]
    rfl

end Phrase

namespace Verdict

theorem isWord_licence_license : Phrase.IsWord "licence".toList ∧ Phrase.IsWord "license".toList :=
  ⟨⟨by decide, by decide⟩, ⟨by decide, by decide⟩⟩

/-- A text speaks of a license in one of the two spellings. -/
theorem speaksOfLicense_eq (text : Text) :
    speaksOfLicense text = ((Phrase.startOfWord "licence".toList).occursIn text
      || (Phrase.startOfWord "license".toList).occursIn text) := by
  unfold speaksOfLicense licenseWords
  rw [List.any_cons, List.any_cons, List.any_nil, Bool.or_false]
  rfl

/-- Joined lines speak of a license if one of them does. -/
theorem speaksOfLicense_intercalate (ls : List Text) :
    speaksOfLicense ([' '].intercalate ls) = true ↔ ∃ line ∈ ls, speaksOfLicense line = true := by
  obtain ⟨hlicence, hlicense⟩ := isWord_licence_license
  simp only [speaksOfLicense_eq, Phrase.occursIn_intercalate hlicence,
    Phrase.occursIn_intercalate hlicense, Bool.or_eq_true, List.any_eq_true]
  constructor
  · rintro (⟨line, hmem, h⟩ | ⟨line, hmem, h⟩)
    · exact ⟨line, hmem, .inl h⟩
    · exact ⟨line, hmem, .inr h⟩
  · rintro ⟨line, hmem, h | h⟩
    · exact .inl ⟨line, hmem, h⟩
    · exact .inr ⟨line, hmem, h⟩

theorem speaksOfLicense_spaces_append (n : Nat) (line : Text) :
    speaksOfLicense (Text.spaces n ++ line) = speaksOfLicense line := by
  obtain ⟨hlicence, hlicense⟩ := isWord_licence_license
  rw [speaksOfLicense_eq, speaksOfLicense_eq, Phrase.occursIn_spaces_append hlicence,
    Phrase.occursIn_spaces_append hlicense]

/-- A signature adds nothing to whether a text speaks of a license. -/
theorem isLicense_recognized (v : Verdict) (text : Text) (r : Recognition) :
    (v.recognized text r).isLicense = v.isLicense := by
  unfold recognized
  split
  · rfl
  · rfl
  · split <;> rfl

theorem isLicense_ofText (text : Text) : (ofText text).isLicense = speaksOfLicense text := by
  unfold ofText
  dsimp only
  split
  · split
    · exact isLicense_recognized _ _ _
    · rfl
  · rfl

/-- **A block goes on speaking of a license** when gaps are put before its lines and
lines are added to it. -/
theorem isLicense_of_lines {b b' : CommentBlock} (h : (ofComment b).isLicense = true)
    (hlines : ∀ line ∈ b.lines, ∃ n, Text.spaces n ++ line ∈ b'.lines) :
    (ofComment b').isLicense = true := by
  rw [ofComment, isLicense_ofText, CommentBlock.prose, speaksOfLicense_intercalate] at h ⊢
  obtain ⟨line, hmem, hspeaks⟩ := h
  obtain ⟨n, hmem'⟩ := hlines line hmem
  exact ⟨_, hmem', (speaksOfLicense_spaces_append n line).trans hspeaks⟩

end Verdict

end LicenseHeader
