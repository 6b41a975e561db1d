import LicenseHeader.License.Comparison
import LicenseHeader.Proofs.Kept
import Mathlib.Data.List.Forall2

/-!
# Comparison sees past padding

A candidate has no deviation from a reference exactly if it is the reference with
blanks around its lines (`Deviation.between_eq_nil_iff`).

A line is judged at the first occurrence of the expected text in it, which need not
be the one that the padding stands around. It does not matter which occurrence is
taken: all visible characters of a padded line are in the padded text, so around
any occurrence of it there are only blanks (`Text.Padded.isBlank_of_eq`).

Where there are deviations, they come line by line in the order of the lines. What is
reported of one line is what that line alone would give (`Deviation.filter_ofLines`), so
`Deviation.between_padding` can say for each line of the candidate which deviations are
reported of it.
-/

namespace LicenseHeader

namespace Text

theorem isSome_cut? (before token behind : Text) :
    (cut? token (before ++ token ++ behind)).isSome = true := by
  induction before with
  | nil =>
    have hafter : after? token (token ++ behind) = some behind := after?_eq_some_iff.2 rfl
    rw [List.nil_append]
    cases htext : token ++ behind with
    | nil => rw [htext] at hafter; rw [cut?, hafter]; rfl
    | cons c rest => rw [htext] at hafter; rw [cut?, hafter]; rfl
  | cons c before ih =>
    rw [List.cons_append, List.cons_append, cut?]
    split
    · rfl
    · rw [Option.isSome_map]
      exact ih

/-- **A token is not found exactly if it does not occur.** -/
theorem cut?_eq_none_iff {token text : Text} : cut? token text = none ↔ ¬ token <:+: text := by
  constructor
  · rintro hcut ⟨before, behind, rfl⟩
    have hfound := isSome_cut? before token behind
    rw [hcut] at hfound
    cases hfound
  · intro hnot
    refine Option.eq_none_iff_forall_ne_some.2 fun ⟨before, behind⟩ hcut => hnot ?_
    exact ⟨before, behind, (append_of_cut? hcut).symm⟩

/-- **A line that is another one with blanks around it.** -/
def Padded (expected found : Text) : Prop :=
  ∃ before behind, isBlank before = true ∧ isBlank behind = true ∧
    found = before ++ expected ++ behind

/-- **Around any occurrence of the padded text there are only blanks.** -/
theorem Padded.isBlank_of_eq {expected found before behind : Text} (h : Padded expected found)
    (hfound : found = before ++ expected ++ behind) :
    isBlank before = true ∧ isBlank behind = true := by
  obtain ⟨u, v, hu, hv, hpadded⟩ := h
  have hvisible : visible before ++ visible expected ++ visible behind = visible expected := by
    rw [← visible_append, ← visible_append, ← hfound, hpadded, visible_append, visible_append,
      visible_eq_nil_iff.2 hu, visible_eq_nil_iff.2 hv, List.nil_append, List.append_nil]
  have hlength := congrArg List.length hvisible
  rw [List.length_append, List.length_append] at hlength
  rw [← visible_eq_nil_iff, ← visible_eq_nil_iff, ← List.length_eq_zero_iff,
    ← List.length_eq_zero_iff]
  omega

end Text

namespace Deviation

/-- A line has no deviation if it is the expected one, padded. -/
theorem ofLine_eq_nil_iff (n : Nat) (expected found : Text) :
    ofLine n expected found = [] ↔ Text.Padded expected found := by
  constructor
  · intro h
    unfold ofLine at h
    split at h
    · cases h
    · rename_i before behind hcut
      rw [List.append_eq_nil_iff, ite_eq_left_iff, ite_eq_left_iff] at h
      refine ⟨before, behind, ?_, ?_, Text.append_of_cut? hcut⟩
      · by_contra hnot
        exact absurd (h.1 hnot) (List.cons_ne_nil _ _)
      · by_contra hnot
        exact absurd (h.2 hnot) (List.cons_ne_nil _ _)
  · intro h
    have hfound : (Text.cut? expected found).isSome = true := by
      obtain ⟨before, behind, -, -, rfl⟩ := h
      exact Text.isSome_cut? before expected behind
    obtain ⟨⟨before, behind⟩, hcut⟩ := Option.isSome_iff_exists.1 hfound
    obtain ⟨hbefore, hbehind⟩ := h.isBlank_of_eq (Text.append_of_cut? hcut)
    rw [ofLine, hcut]
    show (if Text.isBlank before = true then _ else _)
      ++ (if Text.isBlank behind = true then _ else _) = _
    rw [if_pos hbefore, if_pos hbehind]
    rfl

/-- Lines in step have no deviation if each is the expected one, padded. -/
theorem ofLines_eq_nil_iff (n : Nat) {expected found : List Text}
    (hlength : expected.length = found.length) :
    ofLines n expected found = [] ↔ List.Forall₂ Text.Padded expected found := by
  induction expected generalizing n found with
  | nil =>
    obtain rfl := List.length_eq_zero_iff.1 hlength.symm
    exact iff_of_true rfl .nil
  | cons e expected ih =>
    cases found with
    | nil => cases hlength
    | cons f found =>
      rw [ofLines, List.append_eq_nil_iff, ofLine_eq_nil_iff, ih (n + 1) (Nat.succ.inj hlength),
        List.forall₂_cons]

/-- **There is no deviation exactly if the candidate is the reference, padded.** -/
theorem between_eq_nil_iff (reference candidate : List Text) :
    between reference candidate = [] ↔ List.Forall₂ Text.Padded reference candidate := by
  unfold between
  split
  · exact ofLines_eq_nil_iff 1 ‹_›
  · refine iff_of_false (List.cons_ne_nil _ _) fun h => ?_
    exact absurd h.length_eq ‹_›

/-! ## The report, line by line -/

/-- The number of the line that a deviation is about, zero for one that is about no line. -/
def lineNumber : Deviation → Nat
  | lineCount _ _ => 0
  | mismatch line | leadingText line _ | trailingText line _ => line

/-- What is reported of one line: that the expected text is not there, or else what
visibly stands before and behind it. -/
theorem ofLine_cases (n : Nat) (expected found : Text) :
    ¬ expected <:+: found ∧ ofLine n expected found = [mismatch n] ∨
      ∃ before behind, found = before ++ expected ++ behind ∧
        ofLine n expected found =
          (if Text.isBlank before then [] else [leadingText n before]) ++
            (if Text.isBlank behind then [] else [trailingText n behind]) := by
  unfold ofLine
  split
  · exact .inl ⟨Text.cut?_eq_none_iff.1 ‹_›, rfl⟩
  · exact .inr ⟨_, _, Text.append_of_cut? ‹_›, rfl⟩

/-- A mismatch is reported of a line in which the expected text does not occur. -/
theorem mismatch_mem_ofLine_iff {n : Nat} {expected found : Text} :
    mismatch n ∈ ofLine n expected found ↔ ¬ expected <:+: found := by
  obtain ⟨hnot, hreport⟩ | ⟨before, behind, hfound, hreport⟩ := ofLine_cases n expected found
  · rw [hreport]
    exact iff_of_true List.mem_cons_self hnot
  · refine iff_of_false ?_ (not_not_intro ⟨before, behind, hfound.symm⟩)
    rw [hreport]
    split <;> split <;> simp

theorem lineNumber_of_mem_ofLine {n : Nat} {expected found : Text} {d : Deviation}
    (h : d ∈ ofLine n expected found) : d.lineNumber = n := by
  obtain ⟨-, hreport⟩ | ⟨before, behind, -, hreport⟩ := ofLine_cases n expected found
  · rw [hreport, List.mem_singleton] at h
    rw [h]
    rfl
  · rw [hreport] at h
    have hmem : d = leadingText n before ∨ d = trailingText n behind := by
      rcases List.mem_append.1 h with h | h
      · split at h
        · cases h
        · exact .inl (List.mem_singleton.1 h)
      · split at h
        · cases h
        · exact .inr (List.mem_singleton.1 h)
    rcases hmem with rfl | rfl <;> rfl

theorem exists_lineNumber_of_mem_ofLines {n : Nat} {expected found : List Text} {d : Deviation}
    (h : d ∈ ofLines n expected found) : ∃ i < expected.length, d.lineNumber = n + i := by
  induction expected generalizing n found with
  | nil => cases h
  | cons e expected ih =>
    cases found with
    | nil => cases h
    | cons f found =>
      rcases List.mem_append.1 h with h | h
      · exact ⟨0, Nat.succ_pos _, lineNumber_of_mem_ofLine h⟩
      · obtain ⟨i, hi, hline⟩ := ih h
        exact ⟨i + 1, Nat.succ_lt_succ hi, by omega⟩

/-- **Lines are reported on in order.** -/
theorem pairwise_ofLines (n : Nat) (expected found : List Text) :
    (ofLines n expected found).Pairwise fun d d' => d.lineNumber ≤ d'.lineNumber := by
  induction expected generalizing n found with
  | nil => exact .nil
  | cons e expected ih =>
    cases found with
    | nil => exact .nil
    | cons f found =>
      refine List.pairwise_append.2 ⟨?_, ih (n + 1) found, fun d hd d' hd' => ?_⟩
      · refine List.pairwise_of_forall_mem_list fun d hd d' hd' => ?_
        exact Nat.le_of_eq ((lineNumber_of_mem_ofLine hd).trans (lineNumber_of_mem_ofLine hd').symm)
      · obtain ⟨i, -, hline⟩ := exists_lineNumber_of_mem_ofLines hd'
        rw [lineNumber_of_mem_ofLine hd]
        omega

/-- **The report on one of the lines** is what is reported of that line alone. -/
theorem filter_ofLines {n i : Nat} {expected found : List Text} {e f : Text}
    (he : expected[i]? = some e) (hf : found[i]? = some f) :
    (ofLines n expected found).filter (fun d => d.lineNumber = n + i) = ofLine (n + i) e f := by
  induction expected generalizing n i found with
  | nil => cases he
  | cons e' expected ih =>
    cases found with
    | nil => cases hf
    | cons f' found =>
      rw [ofLines, List.filter_append]
      cases i with
      | zero =>
        obtain rfl := Option.some.inj he
        obtain rfl := Option.some.inj hf
        rw [List.filter_eq_self.2 fun d hd => by simp [lineNumber_of_mem_ofLine hd],
          List.filter_eq_nil_iff.2 fun d hd => ?_, List.append_nil]
        · rfl
        · obtain ⟨i, -, hline⟩ := exists_lineNumber_of_mem_ofLines hd
          rw [decide_eq_true_eq, hline]
          omega
      | succ i =>
        have hrest := ih (n := n + 1) (i := i) he hf
        rw [Nat.succ_add_eq_add_succ] at hrest
        rw [hrest, List.filter_eq_nil_iff.2 fun d hd => ?_, List.nil_append]
        rw [decide_eq_true_eq, lineNumber_of_mem_ofLine hd]
        omega

/-- **Comparison finds padding exactly.** There is no deviation if and only if the
candidate has as many lines as the reference, each one the line of the reference with
blanks around it. Where the numbers of lines agree, the report goes through the lines in
order. A mismatch is reported of a line if and only if the line of the reference does not
occur in it, and is then all that is reported of it; of any other line it is said what
visibly stands before an occurrence, and then what visibly stands behind it. -/
theorem between_padding (reference candidate : List Text) :
    (between reference candidate = [] ↔
      reference.length = candidate.length ∧
        ∀ (i : Nat) (e f : Text), reference[i]? = some e → candidate[i]? = some f →
          ∃ u v, Text.isBlank u = true ∧ Text.isBlank v = true ∧ f = u ++ e ++ v) ∧
    (reference.length = candidate.length →
      (between reference candidate).Pairwise (fun d d' => d.lineNumber ≤ d'.lineNumber) ∧
      (∀ d ∈ between reference candidate, ∃ i < reference.length, d.lineNumber = i + 1) ∧
      ∀ (i : Nat) (e f : Text), reference[i]? = some e → candidate[i]? = some f →
        (mismatch (i + 1) ∈ between reference candidate ↔ ¬ e <:+: f) ∧
        ((between reference candidate).filter (fun d => d.lineNumber = i + 1)
            = [mismatch (i + 1)] ∨
          ∃ before behind, f = before ++ e ++ behind ∧
            (between reference candidate).filter (fun d => d.lineNumber = i + 1)
              = (if Text.isBlank before then [] else [leadingText (i + 1) before]) ++
                (if Text.isBlank behind then [] else [trailingText (i + 1) behind]))) := by
  constructor
  · rw [between_eq_nil_iff, List.forall₂_iff_get]
    refine and_congr_right fun hlength => ⟨fun h i e f he hf => ?_, fun h i he hf => ?_⟩
    · obtain ⟨hi, rfl⟩ := List.getElem?_eq_some_iff.1 he
      obtain ⟨hi', rfl⟩ := List.getElem?_eq_some_iff.1 hf
      exact h i hi hi'
    · exact h i _ _ (List.getElem?_eq_getElem he) (List.getElem?_eq_getElem hf)
  · intro hlength
    have hbetween : between reference candidate = ofLines 1 reference candidate := if_pos hlength
    rw [hbetween]
    refine ⟨pairwise_ofLines 1 reference candidate, fun d hd => ?_, fun i e f he hf => ?_⟩
    · obtain ⟨i, hi, hline⟩ := exists_lineNumber_of_mem_ofLines hd
      exact ⟨i, hi, by omega⟩
    · have hreport := filter_ofLines (n := 1) he hf
      rw [Nat.add_comm 1 i] at hreport
      constructor
      · rw [← mismatch_mem_ofLine_iff (n := i + 1), ← hreport, List.mem_filter]
        exact (and_iff_left (decide_eq_true rfl)).symm
      · rw [hreport]
        exact (ofLine_cases (i + 1) e f).imp And.right id

/-- Of occurrences that overlap the first one is taken. -/
example :
    between ["aa".toList, "".toList] ["b aaa".toList, " \t".toList]
      = [leadingText 1 "b ".toList, trailingText 1 "a".toList] := by decide

end Deviation

end LicenseHeader
