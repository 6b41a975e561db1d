import LicenseHeader.Proofs.Reread

/-!
# Content that closes the block it is written in

A content line is not written as it was read: margin, leader and gap are put
before the content anew. Only one grammar of the languages has both a leader and
a closer, `Language.starred`, and there the two can meet: behind the leader `*`
the content `/` makes the closer. Since a content of a single character gets no
gap, that is what happens, and it is the only way a written content line can
close its block (`Language.closes_writeContent_contentOn_iff`). The line is then
the very line that the closer is written on (`Language.writeContent_slash`).

What follows such a line in the block is read as code from then on: no line
written inside a block opens one (`Language.opens_writeContent`,
`Language.opens_writeCloser`).
-/

namespace LicenseHeader

/-- The first visible character behind a margin. -/
theorem Text.eq_of_margin_append_cons {m m' rest rest' : Text} {c d : Char}
    (hm : Text.isBlank m = true) (hm' : Text.isBlank m' = true) (hc : isSpace c = false)
    (hd : isSpace d = false) (h : m ++ c :: rest = m' ++ d :: rest') : c = d := by
  have hcut : ∀ (n : Text) (e : Char) (tail : Text), Text.isBlank n = true → isSpace e = false →
      (n ++ e :: tail).dropWhile isSpace = e :: tail := by
    intro n e tail hn he
    rw [List.dropWhile_append_of_pos (List.all_eq_true.1 hn), List.dropWhile_cons_of_neg]
    rw [he]
    exact Bool.false_ne_true
  have hrests : c :: rest = d :: rest' := by
    rw [← hcut m c rest hm hc, h, hcut m' d rest' hm' hd]
  exact (List.cons.inj hrests).1

namespace Grammar

variable {g : Grammar} {line : Text}

/-- The content of a line that does not close a block does not close it either. -/
theorem Tidy.closes_contentOn (hg : g.Tidy) (hstays : g.closes line = false) :
    g.closes (g.contentOn line) = false := by
  rcases hrest : g.leaderRest? line with _ | ⟨m, rest⟩
  · rw [contentOn, hrest]; exact hstays
  · obtain ⟨token, hleader⟩ := exists_leader_of_leads (by rw [leads, hrest]; rfl)
    obtain ⟨-, hline, -⟩ := (hg.leaderRest?_eq_some_iff hleader).1 hrest
    rw [hg.contentOn_eq hrest, Bool.eq_false_iff]
    intro hcloses
    rw [hline, closes_append hcloses] at hstays
    cases hstays

end Grammar

namespace Language

/-! ## The grammar with leader and closer -/

/-- **There is one grammar with both a leader and a closer.** -/
theorem eq_starred (l : Language) (hleader : l.grammar.leader.isSome = true)
    (hcloser : l.grammar.closer.isSome = true) : l.grammar = starred := by
  revert hleader hcloser
  cases l <;> first | exact fun _ _ => rfl | decide

theorem tidy_starred : starred.Tidy := java.tidy

variable {m content : Text}

theorem starred_writeContent (m content : Text) :
    starred.writeContent m content
      = (m ++ [' ']) ++ '*' :: (Text.spaces (CommentBlock.leaderGap content 1) ++ content) := by
  rw [tidy_starred.writeContent_eq (show starred.leader = some ['*'] from rfl)]
  exact List.append_assoc _ ['*'] _

theorem starred_writeCloser (m : Text) (carriageReturn : Bool) :
    starred.writeCloser m carriageReturn
      = (m ++ [' ']) ++ '*' :: '/' :: CommentBlock.returnMark carriageReturn :=
  List.append_assoc _ ['*', '/'] _

/-- A line closes a block from its first character on or behind it. -/
theorem starred_closes_cons_iff {c : Char} {rest : Text} :
    starred.closes (c :: rest) = true ↔
      starred.closes rest = true ∨
        c = '*' ∧ ∃ behind, rest = '/' :: behind ∧ Text.isBlank behind = true := by
  have hclose : ∀ line, starred.closes line = Grammar.endsWithToken ['*', '/'] line := fun _ => rfl
  rw [hclose, hclose, Grammar.endsWithToken, Bool.or_eq_true, or_comm, Option.isSome_iff_exists]
  refine or_congr_right ⟨?_, ?_⟩
  · rintro ⟨behind, h⟩
    obtain ⟨hline, hblank⟩ := Grammar.afterThenBlank?_eq_some_iff.1 h
    obtain ⟨hc, hrest⟩ := List.cons.inj hline
    exact ⟨hc, behind, hrest, hblank⟩
  · rintro ⟨rfl, behind, rfl, hblank⟩
    exact ⟨behind, Grammar.afterThenBlank?_eq_some_iff.2 ⟨rfl, hblank⟩⟩

/-- Blanks at the start have no part in closing a block. -/
theorem starred_closes_append_iff (hm : Text.isBlank m = true) (rest : Text) :
    starred.closes (m ++ rest) = true ↔ starred.closes rest = true := by
  induction m with
  | nil => exact Iff.rfl
  | cons c m ih =>
    obtain ⟨hc, hm⟩ := Bool.and_eq_true_iff.1 ((Text.isBlank_cons c m).symm.trans hm)
    have hstar : c ≠ '*' := by
      rintro rfl
      revert hc
      decide
    rw [List.cons_append, starred_closes_cons_iff, ih hm]
    exact or_iff_left fun h => hstar h.1

/-- **Written behind a star, only `/` closes its block.** -/
theorem closes_writeContent_iff (hm : m.IsMargin) (hstays : starred.closes content = false) :
    starred.closes (starred.writeContent m content) = true ↔ content = ['/'] := by
  have hmargin : Text.isBlank (m ++ [' ']) = true := by rw [Text.isBlank_append, hm.blank]; rfl
  rw [starred_writeContent, starred_closes_append_iff hmargin, starred_closes_cons_iff,
    starred_closes_append_iff (Text.isBlank_spaces _), hstays]
  constructor
  · rintro (h | ⟨-, behind, h, hblank⟩)
    · cases h
    · match content, h with
      | [], h => cases h
      | [x], h => rw [← (List.cons.inj h).1]
      | x :: y :: rest, h =>
        -- either the content starts with a blank or a space is put before it
        by_cases hx : isSpace x = true
        · rw [CommentBlock.leaderGap_cons_of_blank hx, CommentBlock.leaderGap_zero] at h
          rw [(List.cons.inj h).1] at hx
          exact absurd hx (by decide)
        · rw [CommentBlock.leaderGap, if_neg hx] at h
          have hspace : ' ' = '/' := (List.cons.inj h).1
          exact absurd hspace (by decide)
  · rintro rfl
    exact .inr ⟨rfl, [], rfl, rfl⟩

/-- **Which content closes the block it is written in**, whatever the language: `/`
behind a star, and no other. -/
theorem closes_writeContent_contentOn_iff (l : Language) {line : Text} (hm : m.IsMargin)
    (hstays : l.grammar.closes line = false) :
    l.grammar.closes (l.grammar.writeContent m (l.grammar.contentOn line)) = true ↔
      l.grammar = starred ∧ l.grammar.contentOn line = ['/'] := by
  have hg := l.tidy
  cases hcloser : l.grammar.closer with
  | none =>
    rw [Grammar.closes_eq_false_of_closer hcloser]
    refine iff_of_false Bool.false_ne_true fun ⟨hstarred, _⟩ => ?_
    rw [hstarred] at hcloser
    cases hcloser
  | some closer =>
    cases hleader : l.grammar.leader with
    | none =>
      rw [Grammar.Tidy.contentOn_of_leader_eq_none hleader,
        hg.writeContent_of_leader_eq_none hleader, hstays]
      refine iff_of_false Bool.false_ne_true fun ⟨hstarred, _⟩ => ?_
      rw [hstarred] at hleader
      cases hleader
    | some leader =>
      have hstarred := l.eq_starred (by rw [hleader]; rfl) (by rw [hcloser]; rfl)
      have hcontent := hg.closes_contentOn hstays
      rw [hstarred] at hcontent ⊢
      rw [closes_writeContent_iff hm hcontent, eq_self_iff_true, true_and]

/-- **The content `/` is written as the closer.** -/
theorem writeContent_slash (m : Text) :
    starred.writeContent m ['/'] = starred.writeCloser m false := by
  rw [starred_writeContent, starred_writeCloser]
  rfl

/-! ## No line inside a block opens one -/

/-- A line whose first visible character is a star opens no block. -/
theorem starred_opens_eq_false (hm : Text.isBlank m = true) (rest : Text) :
    starred.opens (m ++ '*' :: rest) = false := by
  rw [Grammar.opens, Option.isSome_eq_false_iff, Option.isNone_iff_eq_none,
    Option.eq_none_iff_forall_not_mem]
  intro m' hmargin
  obtain ⟨hm', behind, hline, -⟩ :=
    (tidy_starred.openerMargin?_eq_some_iff (show starred.opener = some ['/', '*'] from rfl) rfl).1
      hmargin
  rw [List.append_assoc] at hline
  have hchar : '*' = '/' := Text.eq_of_margin_append_cons hm hm' (by decide) (by decide) hline
  revert hchar
  decide

theorem opens_writeContent (hm : m.IsMargin) (content : Text) :
    starred.opens (starred.writeContent m content) = false := by
  rw [starred_writeContent]
  exact starred_opens_eq_false (by rw [Text.isBlank_append, hm.blank]; rfl) _

theorem opens_writeCloser (hm : m.IsMargin) (carriageReturn : Bool) :
    starred.opens (starred.writeCloser m carriageReturn) = false := by
  rw [starred_writeCloser]
  exact starred_opens_eq_false (by rw [Text.isBlank_append, hm.blank]; rfl) _

end Language

end LicenseHeader
