import LicenseHeader.Proofs.Reread

/-!
# The width of the gap behind a leader

A content line is written with a gap that makes up for the blanks it does not start with.
How wide the gap is can be said in one formula (`CommentBlock.leaderGap_eq`): it is what
the leading blanks leave of the width, unless they leave at most one character of the
content, which then gets no gap at all.

The same number is found by counting down from the width, one space for each position,
until a visible character stops the count (`CommentBlock.countDown`). The count goes on
behind the end of a short content, and it does not look at the last character. That it
never takes a space where none is left is not seen from the loop alone: it makes as many
steps as it has spaces to give (`CommentBlock.countDown_eq`).
-/

namespace LicenseHeader

/-- The number of blanks at the start of a text. -/
def Text.leadingBlanks (t : Text) : Nat := (t.takeWhile isSpace).length

theorem Text.leadingBlanks_cons_of_blank {c : Char} (hc : isSpace c = true) (t : Text) :
    leadingBlanks (c :: t) = leadingBlanks t + 1 := by
  unfold leadingBlanks
  rw [List.takeWhile_cons_of_pos hc, List.length_cons]

theorem Text.leadingBlanks_cons_of_visible {c : Char} (hc : ¬ isSpace c = true)
    (t : Text) : leadingBlanks (c :: t) = 0 := by
  unfold leadingBlanks
  rw [List.takeWhile_cons_of_neg hc, List.length_nil]

namespace CommentBlock

open Text (leadingBlanks spaces trimUpTo)

/-- **The gap in one formula.** -/
theorem leaderGap_eq (content : Text) (width : Nat) :
    leaderGap content width
      = if leadingBlanks content < width ∧ leadingBlanks content + 1 < content.length then
          width - leadingBlanks content
        else 0 := by
  fun_induction leaderGap content width with
  | case1 width => rw [if_neg (by simp)]
  | case2 width c => rw [if_neg (by simp)]
  | case3 content => rw [if_neg (by simp)]
  | case4 c d rest width hc ih =>
    -- the blank counts on both sides of each comparison
    rw [ih, Text.leadingBlanks_cons_of_blank hc]
    simp only [List.length_cons, Nat.succ_eq_add_one, Nat.add_lt_add_iff_right,
      Nat.add_sub_add_right]
  | case5 c d rest width hc =>
    rw [Text.leadingBlanks_cons_of_visible hc, if_pos (by simp), Nat.sub_zero]

/-! ## Counting down -/

/-- **The gap counted down** for a content of some length: the steps to go, the position
in the content, the spaces left, and the characters from the position on. A visible
character stops the count, unless it is the last one. There is no result if a space is
taken where none is left. -/
def countDown (length : Nat) : (steps position left : Nat) → Text → Option Nat
  | 0, _, left, _ => some left
  | steps + 1, position, left, chars =>
    if position < length ∧ chars.head?.any (fun c => !isSpace c) then some left
    else
      match left with
      | 0 => none
      | left + 1 => countDown length steps (position + 1) left chars.tail

/-- A step that nothing stops takes one space. -/
theorem countDown_of_goesOn {length steps position left : Nat} {chars : Text}
    (h : ¬ (position < length ∧ chars.head?.any (fun c => !isSpace c) = true)) :
    countDown length (steps + 1) position (left + 1) chars
      = countDown length steps (position + 1) left chars.tail := by
  rw [countDown, if_neg h]

/-- **From any position on, the count comes to the gap of what is left of the content.** -/
theorem countDown_eq {length position : Nat} {chars : Text}
    (h : chars.length = length + 1 - position) (width : Nat) :
    countDown length width position width chars = some (leaderGap chars width) := by
  induction width generalizing position chars with
  | zero => rw [countDown, leaderGap_zero]
  | succ width ih =>
    have htail : chars.tail.length = length + 1 - (position + 1) := by
      rw [List.length_tail, h]
      omega
    match chars with
    | [] =>
      rw [countDown_of_goesOn (by simp), ih htail]
      rfl
    | [c] =>
      -- the last character does not stop the count
      have hlast : ¬ position < length := by
        rw [List.length_singleton] at h
        omega
      rw [countDown_of_goesOn fun hstop => hlast hstop.1, ih htail]
      rfl
    | c :: d :: rest =>
      by_cases hc : isSpace c = true
      · rw [countDown_of_goesOn (by simp [hc]), ih htail, leaderGap_cons_of_blank hc]
        rfl
      · have hposition : position < length := by
          rw [List.length_cons, List.length_cons] at h
          omega
        rw [countDown, if_pos ⟨hposition, by simpa using hc⟩, leaderGap, if_neg hc]

/-- **The gap is exact and stable.** Counting down from the width gives it and never falls
below zero; it is what the leading blanks leave of the width, or nothing if they leave
neither width nor a second character. A content with its gap before it needs no other, and
its body is that of the content. -/
theorem leaderGap_exact (content : Text) (width : Nat) :
    countDown content.length width 1 width content = some (leaderGap content width) ∧
      (leaderGap content width
        = if leadingBlanks content < width ∧ leadingBlanks content + 1 < content.length then
            width - leadingBlanks content
          else 0) ∧
      leaderGap (spaces (leaderGap content width) ++ content) width = 0 ∧
      trimUpTo width (spaces (leaderGap content width) ++ content) = trimUpTo width content :=
  ⟨countDown_eq (Nat.add_sub_cancel content.length 1).symm width, leaderGap_eq content width,
    leaderGap_gapped content width, trimUpTo_gapped content width⟩

end CommentBlock

end LicenseHeader
