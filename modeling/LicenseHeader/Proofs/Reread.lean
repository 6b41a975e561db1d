import LicenseHeader.Proofs.Written

/-!
# Written lines read again

In a tidy grammar a written line is taken for what it is. A written opener opens a
block with the margin it was written with (`Grammar.Tidy.opens_writeFirst`), a
written closer closes it (`Grammar.Tidy.closes_writeCloser`), and the content of
a written content line is the content that was written, behind the gap that was
put before it (`Grammar.Tidy.contentOn_writeContent`). The gap is not widened by
writing twice (`CommentBlock.leaderGap_gapped`) and does not count for the body
of a block (`CommentBlock.trimUpTo_gapped`). So each of the three kinds of lines
is written the second time as it was the first time.

The lines of a rendered document can therefore be read off its text:
`Document.bareLines_render` is the bridge between statements on texts and
statements on the pass over lines.
-/

namespace LicenseHeader

/-! ## The gap behind the leader -/

namespace CommentBlock

theorem leaderGap_le (content : Text) (width : Nat) : leaderGap content width ≤ width := by
  fun_induction leaderGap content width with
  | case1 => exact Nat.zero_le _
  | case2 => exact Nat.zero_le _
  | case3 => exact Nat.zero_le _
  | case4 c d rest width h ih => exact Nat.le_succ_of_le ih
  | case5 c d rest width h => exact Nat.le_refl _

/-- A leading blank takes one from the gap. -/
theorem leaderGap_cons_of_blank {c : Char} (hc : isSpace c = true) (content : Text) (width : Nat) :
    leaderGap (c :: content) (width + 1) = leaderGap content width := by
  cases content with
  | nil => rw [leaderGap, leaderGap]
  | cons d rest => rw [leaderGap, if_pos hc]

theorem leaderGap_zero (content : Text) : leaderGap content 0 = 0 :=
  Nat.le_zero.1 (leaderGap_le content 0)

/-- Leading spaces take their number from the gap. -/
theorem leaderGap_spaces_append (n : Nat) (content : Text) (width : Nat) :
    leaderGap (Text.spaces n ++ content) width = leaderGap content (width - n) := by
  induction n generalizing width with
  | zero => rfl
  | succ n ih =>
    cases width with
    | zero => rw [leaderGap_zero, Nat.zero_sub, leaderGap_zero]
    | succ width =>
      show leaderGap (' ' :: (Text.spaces n ++ content)) (width + 1) = _
      rw [leaderGap_cons_of_blank (by decide), ih, Nat.succ_sub_succ]

/-- Once the gap is taken from the width, no gap is left to make. -/
theorem leaderGap_sub_leaderGap (content : Text) (width : Nat) :
    leaderGap content (width - leaderGap content width) = 0 := by
  fun_induction leaderGap content width with
  | case1 => rw [leaderGap]
  | case2 => rw [leaderGap]
  | case3 content => exact leaderGap_zero content
  | case4 c d rest width h ih =>
    rw [Nat.succ_sub (leaderGap_le (d :: rest) width), leaderGap_cons_of_blank h]
    exact ih
  | case5 c d rest width h => rw [Nat.sub_self, leaderGap_zero]

/-- **A gap is made once.** -/
theorem leaderGap_gapped (content : Text) (width : Nat) :
    leaderGap (Text.spaces (leaderGap content width) ++ content) width = 0 := by
  rw [leaderGap_spaces_append, leaderGap_sub_leaderGap]

theorem trimUpTo_spaces_append {n width : Nat} (h : n ≤ width) (content : Text) :
    Text.trimUpTo width (Text.spaces n ++ content) = Text.trimUpTo (width - n) content := by
  induction n generalizing width with
  | zero => rfl
  | succ n ih =>
    cases width with
    | zero => exact absurd h (Nat.not_succ_le_zero n)
    | succ width =>
      show Text.trimUpTo (width + 1) (' ' :: (Text.spaces n ++ content)) = _
      rw [Text.trimUpTo, if_pos (by decide), ih (Nat.le_of_succ_le_succ h), Nat.succ_sub_succ]

/-- **The gap is no part of the body.** -/
theorem trimUpTo_gapped (content : Text) (width : Nat) :
    Text.trimUpTo width (Text.spaces (leaderGap content width) ++ content)
      = Text.trimUpTo width content := by
  rw [trimUpTo_spaces_append (leaderGap_le content width)]
  fun_induction leaderGap content width with
  | case1 => rfl
  | case2 => rfl
  | case3 => rfl
  | case4 c d rest width h ih =>
    rw [Nat.succ_sub (leaderGap_le (d :: rest) width), Text.trimUpTo, if_pos h, ih, Text.trimUpTo,
      if_pos h]
  | case5 c d rest width h => rw [Nat.sub_self, Text.trimUpTo, Text.trimUpTo, if_neg h]

end CommentBlock

/-! ## Margins and carriage returns -/

/-- **A margin**: blanks on one line. -/
structure Text.IsMargin (m : Text) : Prop where
  /-- It is blank. -/
  blank : Text.isBlank m = true
  /-- It holds no newline. -/
  bare : '\n' ∉ m

theorem Text.notMem_spaces (n : Nat) : '\n' ∉ Text.spaces n := by
  intro h
  have hspace := List.eq_of_mem_replicate h
  revert hspace
  decide

/-- The return mark behind a solid token is found again. -/
theorem Text.Solid.endsWithChar_returnMark {token : Text} (h : token.Solid) (start : Text)
    (carriageReturn : Bool) :
    Text.endsWithChar '\r' (start ++ token ++ CommentBlock.returnMark carriageReturn)
      = carriageReturn := by
  obtain ⟨init, c, rfl, hc⟩ := h.exists_concat
  unfold Text.endsWithChar
  cases carriageReturn with
  | true =>
    show (start ++ (init ++ [c]) ++ ['\r']).getLast? == some '\r'
    rw [List.getLast?_concat]
    rfl
  | false =>
    have hne : c ≠ '\r' := by
      rintro rfl
      revert hc
      decide
    show ((start ++ (init ++ [c]) ++ []).getLast? == some '\r') = false
    rw [List.append_nil, ← List.append_assoc, List.getLast?_concat]
    simpa using hne

namespace Grammar

theorem isBlank_returnMark (carriageReturn : Bool) :
    Text.isBlank (CommentBlock.returnMark carriageReturn) = true := by
  cases carriageReturn <;> decide

variable {g : Grammar} {m line content : Text}

theorem exists_opener_of_openerAlone (h : g.openerAlone = true) :
    ∃ token, g.opener = some token := by
  cases hopener : g.opener with
  | none => rw [openerAlone, hopener] at h; cases h
  | some token => exact ⟨token, rfl⟩

theorem exists_leader_of_leads (h : g.leads line = true) :
    ∃ token, g.leader = some token := by
  cases hleader : g.leader with
  | none => rw [leads, leaderRest?, hleader] at h; cases h
  | some token => exact ⟨token, rfl⟩

/-- Where a block may begin without a lone opener, there is a leader. -/
theorem Tidy.exists_leader (hg : g.Tidy) (hopens : g.opens line = true)
    (halone : g.openerAlone = false) : ∃ token, g.leader = some token := by
  obtain ⟨token, hopener⟩ := exists_opener_of_opens hopens
  exact ⟨token, (hg.opener_eq halone).symm.trans hopener⟩

namespace Tidy

/-! ## Opener lines -/

theorem isMargin_blockMargin (hg : g.Tidy) (hopens : g.opens line = true) (hbare : '\n' ∉ line) :
    (g.blockMargin line).IsMargin := by
  obtain ⟨x, hx⟩ := Option.isSome_iff_exists.1 hopens
  cases halone : g.openerAlone with
  | true =>
    obtain ⟨token, hopener⟩ := exists_opener_of_openerAlone halone
    obtain ⟨hblank, behind, rfl, -⟩ := (hg.openerMargin?_eq_some_iff hopener halone).1 hx
    rw [blockMargin, halone, if_pos rfl, hx]
    exact ⟨hblank, fun hmem => hbare (by simp [Option.getD_some ▸ hmem])⟩
  | false =>
    obtain ⟨token, hleader⟩ := hg.exists_leader hopens halone
    rw [hg.openerMargin?_eq_leaderRest? halone hbare] at hx
    obtain ⟨⟨m, rest⟩, hrest, rfl⟩ := Option.map_eq_some_iff.1 hx
    obtain ⟨hblank, rfl, -⟩ := (hg.leaderRest?_eq_some_iff hleader).1 hrest
    rw [blockMargin, halone, if_neg Bool.false_ne_true, hrest]
    exact ⟨hblank, fun hmem => hbare (by simp [Option.getD_some ▸ hmem])⟩

theorem writeOpener_eq (hg : g.Tidy) {token : Text} (hopener : g.opener = some token) (m : Text)
    (carriageReturn : Bool) :
    g.writeOpener m carriageReturn = m ++ token ++ CommentBlock.returnMark carriageReturn := by
  rw [writeOpener, hg.beforeOpener_eq, hopener, Text.spaces_zero, List.append_nil]
  rfl

theorem openerMargin?_writeOpener (hg : g.Tidy) (halone : g.openerAlone = true) (hm : m.IsMargin)
    (carriageReturn : Bool) : g.openerMargin? (g.writeOpener m carriageReturn) = some m := by
  obtain ⟨token, hopener⟩ := exists_opener_of_openerAlone halone
  rw [hg.openerMargin?_eq_some_iff hopener halone, hg.writeOpener_eq hopener]
  exact ⟨hm.blank, _, rfl, isBlank_returnMark carriageReturn⟩

theorem endsWithChar_writeOpener (hg : g.Tidy) (halone : g.openerAlone = true) (m : Text)
    (carriageReturn : Bool) :
    Text.endsWithChar '\r' (g.writeOpener m carriageReturn) = carriageReturn := by
  obtain ⟨token, hopener⟩ := exists_opener_of_openerAlone halone
  rw [hg.writeOpener_eq hopener]
  exact (hg.opener_solid token hopener).endsWithChar_returnMark m carriageReturn

/-! ## Content lines -/

theorem writeContent_of_leader_eq_none (hg : g.Tidy) (hleader : g.leader = none)
    (m content : Text) : g.writeContent m content = content := by
  unfold writeContent CommentBlock.renderLeader CommentBlock.renderTrailer
  dsimp only
  rw [hleader, hg.trailer_eq]
  exact List.append_nil content

/-- A content with leader stands behind margin, leader and gap. -/
theorem writeContent_eq (hg : g.Tidy) {token : Text} (hleader : g.leader = some token)
    (m content : Text) :
    g.writeContent m content
      = m ++ Text.spaces g.indent.beforeLeader ++ token
        ++ (Text.spaces (CommentBlock.leaderGap content g.indent.afterLeader) ++ content) := by
  unfold writeContent CommentBlock.renderLeader CommentBlock.renderTrailer
  dsimp only
  rw [hleader, hg.trailer_eq]
  simp

theorem contentOn_of_leader_eq_none (hleader : g.leader = none) (line : Text) :
    g.contentOn line = line := by
  rw [contentOn, leaderRest?, hleader]
  rfl

theorem contentOn_eq (hg : g.Tidy) {rest : Text} (h : g.leaderRest? line = some (m, rest)) :
    g.contentOn line = rest := by
  rw [contentOn, h]
  show (g.beforeTrailer? rest).getD rest = rest
  rw [beforeTrailer?, hg.trailer_eq]
  rfl

theorem leaderRest?_writeContent (hg : g.Tidy) {token : Text} (hleader : g.leader = some token)
    (hm : m.IsMargin) (hcontent : '\n' ∉ content) :
    g.leaderRest? (g.writeContent m content)
      = some (m ++ Text.spaces g.indent.beforeLeader,
          Text.spaces (CommentBlock.leaderGap content g.indent.afterLeader) ++ content) := by
  rw [hg.leaderRest?_eq_some_iff hleader, hg.writeContent_eq hleader]
  refine ⟨by rw [Text.isBlank_append, hm.blank, Text.isBlank_spaces]; rfl, rfl, ?_⟩
  intro hmem
  rcases List.mem_append.1 hmem with hmem | hmem
  · exact Text.notMem_spaces _ hmem
  · exact hcontent hmem

/-- The content of a written content line is the content behind its gap. -/
theorem contentOn_writeContent (hg : g.Tidy) {token : Text} (hleader : g.leader = some token)
    (hm : m.IsMargin) (hcontent : '\n' ∉ content) :
    g.contentOn (g.writeContent m content)
      = Text.spaces (CommentBlock.leaderGap content g.indent.afterLeader) ++ content :=
  hg.contentOn_eq (hg.leaderRest?_writeContent hleader hm hcontent)

/-- **A content line is written the second time as it was the first time.** -/
theorem writeContent_contentOn_writeContent (hg : g.Tidy) (hm : m.IsMargin)
    (hcontent : '\n' ∉ content) :
    g.writeContent m (g.contentOn (g.writeContent m content)) = g.writeContent m content := by
  cases hleader : g.leader with
  | none => rw [contentOn_of_leader_eq_none hleader, hg.writeContent_of_leader_eq_none hleader]
  | some token =>
    rw [hg.contentOn_writeContent hleader hm hcontent, hg.writeContent_eq hleader,
      hg.writeContent_eq hleader, CommentBlock.leaderGap_gapped, Text.spaces_zero, List.nil_append]

theorem leads_writeContent (hg : g.Tidy) {token : Text} (hleader : g.leader = some token)
    (hm : m.IsMargin) (hcontent : '\n' ∉ content) :
    g.leads (g.writeContent m content) = true := by
  rw [leads, hg.leaderRest?_writeContent hleader hm hcontent]
  rfl

theorem notMem_contentOn (hg : g.Tidy) (hbare : '\n' ∉ line) : '\n' ∉ g.contentOn line := by
  cases hleader : g.leader with
  | none => rwa [contentOn_of_leader_eq_none hleader]
  | some token =>
    rcases hrest : g.leaderRest? line with _ | ⟨m, rest⟩
    · rw [contentOn, hrest]; exact hbare
    · rw [hg.contentOn_eq hrest]
      exact ((hg.leaderRest?_eq_some_iff hleader).1 hrest).2.2

/-! ## First lines and closer lines -/

theorem openerMargin?_writeFirst (hg : g.Tidy) (hopens : g.opens line = true)
    (hbare : '\n' ∉ line) : g.openerMargin? (g.writeFirst line) = some (g.blockMargin line) := by
  have hm := hg.isMargin_blockMargin hopens hbare
  unfold writeFirst
  cases halone : g.openerAlone with
  | true => exact hg.openerMargin?_writeOpener halone hm _
  | false =>
    obtain ⟨token, hleader⟩ := hg.exists_leader hopens halone
    have hcontent := hg.notMem_contentOn hbare
    rw [if_neg Bool.false_ne_true]
    have hwritten : '\n' ∉ g.writeContent (g.blockMargin line) (g.contentOn line) := by
      rw [hg.writeContent_eq hleader]
      simp [hm.bare, Text.notMem_spaces, (hg.leader_solid token hleader).bare, hcontent]
    rw [hg.openerMargin?_eq_leaderRest? halone hwritten,
      hg.leaderRest?_writeContent hleader hm hcontent, hg.beforeLeader_eq halone, Text.spaces_zero,
      List.append_nil]
    rfl

/-- **The first line of a block, written, opens one.** -/
theorem opens_writeFirst (hg : g.Tidy) (hopens : g.opens line = true) (hbare : '\n' ∉ line) :
    g.opens (g.writeFirst line) = true := by
  rw [opens, hg.openerMargin?_writeFirst hopens hbare]
  rfl

theorem blockMargin_writeFirst (hg : g.Tidy) (hopens : g.opens line = true) (hbare : '\n' ∉ line) :
    g.blockMargin (g.writeFirst line) = g.blockMargin line := by
  have hm := hg.isMargin_blockMargin hopens hbare
  cases halone : g.openerAlone with
  | true =>
    rw [blockMargin, if_pos halone, hg.openerMargin?_writeFirst hopens hbare]
    rfl
  | false =>
    obtain ⟨token, hleader⟩ := hg.exists_leader hopens halone
    rw [writeFirst, halone, if_neg Bool.false_ne_true, blockMargin, halone,
      if_neg Bool.false_ne_true,
      hg.leaderRest?_writeContent hleader hm (hg.notMem_contentOn hbare), hg.beforeLeader_eq halone,
      Text.spaces_zero, List.append_nil]
    rfl

/-- **The first line of a block is written the second time as it was the first
time.** -/
theorem writeFirst_writeFirst (hg : g.Tidy) (hopens : g.opens line = true) (hbare : '\n' ∉ line) :
    g.writeFirst (g.writeFirst line) = g.writeFirst line := by
  have hm := hg.isMargin_blockMargin hopens hbare
  have hmargin := hg.blockMargin_writeFirst hopens hbare
  cases halone : g.openerAlone with
  | true =>
    rw [writeFirst, if_pos halone, hmargin]
    have hfirst : g.writeFirst line
        = g.writeOpener (g.blockMargin line) (Text.endsWithChar '\r' line) := if_pos halone
    rw [hfirst, hg.endsWithChar_writeOpener halone]
  | false =>
    have hfirst : g.writeFirst line = g.writeContent (g.blockMargin line) (g.contentOn line) := by
      rw [writeFirst, halone, if_neg Bool.false_ne_true]
    rw [writeFirst, halone, if_neg Bool.false_ne_true, hmargin, hfirst,
      hg.writeContent_contentOn_writeContent hm (hg.notMem_contentOn hbare)]

theorem writeCloser_eq {token : Text} (hcloser : g.closer = some token) (m : Text)
    (carriageReturn : Bool) :
    g.writeCloser m carriageReturn
      = m ++ Text.spaces g.indent.beforeCloser ++ token
        ++ CommentBlock.returnMark carriageReturn := by
  rw [writeCloser, hcloser]
  rfl

/-- **A written closer closes a block.** -/
theorem closes_writeCloser {token : Text} (hcloser : g.closer = some token) (m : Text)
    (carriageReturn : Bool) : g.closes (g.writeCloser m carriageReturn) = true := by
  rw [closes_eq_true_iff, writeCloser_eq hcloser]
  exact ⟨token, hcloser, _, _, rfl, isBlank_returnMark carriageReturn⟩

theorem endsWithChar_writeCloser (hg : g.Tidy) {token : Text} (hcloser : g.closer = some token)
    (m : Text) (carriageReturn : Bool) :
    Text.endsWithChar '\r' (g.writeCloser m carriageReturn) = carriageReturn := by
  rw [writeCloser_eq hcloser]
  exact (hg.closer_solid token hcloser).endsWithChar_returnMark _ carriageReturn

end Tidy

/-! ## Written lines are lines -/

namespace Tidy

theorem notMem_writeContent (hg : g.Tidy) (hm : m.IsMargin) (hcontent : '\n' ∉ content) :
    '\n' ∉ g.writeContent m content := by
  cases hleader : g.leader with
  | none => rwa [hg.writeContent_of_leader_eq_none hleader]
  | some token =>
    rw [hg.writeContent_eq hleader]
    simp [hm.bare, Text.notMem_spaces, (hg.leader_solid token hleader).bare, hcontent]

theorem writeCloser_bare_and_ne_nil (hg : g.Tidy) {token : Text} (hcloser : g.closer = some token)
    (hm : m.IsMargin) (carriageReturn : Bool) :
    '\n' ∉ g.writeCloser m carriageReturn ∧ g.writeCloser m carriageReturn ≠ [] := by
  have hsolid := hg.closer_solid token hcloser
  have hmark : '\n' ∉ CommentBlock.returnMark carriageReturn := by cases carriageReturn <;> decide
  rw [writeCloser_eq hcloser]
  exact ⟨by simp [hm.bare, Text.notMem_spaces, hsolid.bare, hmark], by simp [hsolid.ne_nil]⟩

theorem writeFirst_bare_and_ne_nil (hg : g.Tidy) (hopens : g.opens line = true)
    (hbare : '\n' ∉ line) : '\n' ∉ g.writeFirst line ∧ g.writeFirst line ≠ [] := by
  have hm := hg.isMargin_blockMargin hopens hbare
  unfold writeFirst
  cases halone : g.openerAlone with
  | true =>
    obtain ⟨token, hopener⟩ := exists_opener_of_openerAlone halone
    have hsolid := hg.opener_solid token hopener
    have hmark : '\n' ∉ CommentBlock.returnMark (Text.endsWithChar '\r' line) := by
      cases Text.endsWithChar '\r' line <;> decide
    rw [if_pos rfl, hg.writeOpener_eq hopener]
    exact ⟨by simp [hm.bare, hsolid.bare, hmark], by simp [hsolid.ne_nil]⟩
  | false =>
    obtain ⟨token, hleader⟩ := hg.exists_leader hopens halone
    rw [if_neg Bool.false_ne_true]
    refine ⟨hg.notMem_writeContent hm (hg.notMem_contentOn hbare), ?_⟩
    rw [hg.writeContent_eq hleader]
    simp [(hg.leader_solid token hleader).ne_nil]

/-- A line with something on it is written as one inside a block too. -/
theorem writeContent_contentOn_ne_nil (hg : g.Tidy) (hne : line ≠ []) :
    g.writeContent m (g.contentOn line) ≠ [] := by
  cases hleader : g.leader with
  | none =>
    rwa [hg.writeContent_of_leader_eq_none hleader, contentOn_of_leader_eq_none hleader]
  | some token =>
    rw [hg.writeContent_eq hleader]
    simp [(hg.leader_solid token hleader).ne_nil]

end Tidy

namespace Relaid

variable {m m' : Option Text} {w : Text}

theorem isMargin (h : g.Relaid m line w m') (hg : g.Tidy) (hm : ∀ x ∈ m, x.IsMargin)
    (hbare : '\n' ∉ line) : ∀ x ∈ m', x.IsMargin := by
  cases h with
  | code _ => simp
  | first hopens =>
    intro x hx
    rw [← Option.some.inj hx]
    exact hg.isMargin_blockMargin hopens hbare
  | content _ _ => exact hm
  | ended _ _ => simp
  | closed _ => simp

theorem bare (h : g.Relaid m line w m') (hg : g.Tidy) (hm : ∀ x ∈ m, x.IsMargin)
    (hbare : '\n' ∉ line) : '\n' ∉ w := by
  cases h with
  | code _ => exact hbare
  | first hopens => exact (hg.writeFirst_bare_and_ne_nil hopens hbare).1
  | content _ _ => exact hg.notMem_writeContent (hm _ rfl) (hg.notMem_contentOn hbare)
  | ended _ _ => exact hbare
  | closed hcloses =>
    obtain ⟨token, hcloser, -⟩ := closes_eq_true_iff.1 hcloses
    exact (hg.writeCloser_bare_and_ne_nil hcloser (hm _ rfl) _).1

/-- The pass empties no line. -/
theorem ne_nil (h : g.Relaid m line w m') (hg : g.Tidy) (hm : ∀ x ∈ m, x.IsMargin)
    (hbare : '\n' ∉ line) (hne : line ≠ []) : w ≠ [] := by
  cases h with
  | code _ => exact hne
  | first hopens => exact (hg.writeFirst_bare_and_ne_nil hopens hbare).2
  | content _ _ => exact hg.writeContent_contentOn_ne_nil hne
  | ended _ _ => exact hne
  | closed hcloses =>
    obtain ⟨token, hcloser, -⟩ := closes_eq_true_iff.1 hcloses
    exact (hg.writeCloser_bare_and_ne_nil hcloser (hm _ rfl) _).2

end Relaid

namespace Tidy

theorem addedCloser_bare_and_ne_nil (hg : g.Tidy) (hm : m.IsMargin) {w : Text}
    (hw : w ∈ g.addedCloser m) : '\n' ∉ w ∧ w ≠ [] := by
  unfold addedCloser at hw
  cases hcloser : g.closer with
  | none => rw [hcloser] at hw; cases hw
  | some token =>
    rw [hcloser, if_pos Option.isSome_some, List.mem_singleton] at hw
    rw [hw]
    exact hg.writeCloser_bare_and_ne_nil hcloser hm false

theorem bare_of_mem_relay (hg : g.Tidy) {m : Option Text} {ls : List Text}
    (hm : ∀ x ∈ m, x.IsMargin) (hbare : ∀ line ∈ ls, '\n' ∉ line) {w : Text}
    (hw : w ∈ g.relay m ls) : '\n' ∉ w := by
  induction ls generalizing m with
  | nil =>
    cases m with
    | none => cases hw
    | some m => exact (hg.addedCloser_bare_and_ne_nil (hm m rfl) hw).1
  | cons line ls ih =>
    have hline := hbare line List.mem_cons_self
    have hstep := g.relaid_relayStep m line
    rw [hstep.relay_cons] at hw
    rcases List.mem_cons.1 hw with rfl | hw
    · exact hstep.bare hg hm hline
    · exact ih (hstep.isMargin hg hm hline) (fun l hl => hbare l (List.mem_cons_of_mem _ hl)) hw

/-- The last line written has something on it if the last line read has. -/
theorem getLast?_relay (hg : g.Tidy) {m : Option Text} {ls : List Text}
    (hm : ∀ x ∈ m, x.IsMargin) (hbare : ∀ line ∈ ls, '\n' ∉ line)
    (hlast : ∃ last, ls.getLast? = some last ∧ last ≠ []) :
    ∃ last, (g.relay m ls).getLast? = some last ∧ last ≠ [] := by
  induction ls generalizing m with
  | nil => obtain ⟨last, hnone, -⟩ := hlast; cases hnone
  | cons line ls ih =>
    have hline := hbare line List.mem_cons_self
    have hstep := g.relaid_relayStep m line
    have hm' := hstep.isMargin hg hm hline
    rw [hstep.relay_cons]
    cases ls with
    | nil =>
      obtain ⟨last, hsome, hne⟩ := hlast
      obtain rfl := Option.some.inj hsome
      have hw := hstep.ne_nil hg hm hline hne
      -- what is written last is the line itself, or the closing line added after it
      have hall : ∀ x ∈ (g.relayStep m line).1 :: g.relay (g.relayStep m line).2 [], x ≠ [] := by
        refine List.forall_mem_cons.2 ⟨hw, fun x hx => ?_⟩
        cases hend : (g.relayStep m line).2 with
        | none => rw [hend] at hx; cases hx
        | some m' => rw [hend] at hx; exact (hg.addedCloser_bare_and_ne_nil (hm' m' hend) hx).2
      exact ⟨_, List.getLast?_eq_some_getLast (List.cons_ne_nil _ _),
        hall _ (List.getLast_mem _)⟩
    | cons l ls =>
      rw [List.getLast?_cons_cons] at hlast
      obtain ⟨last, hsome, hne⟩ :=
        ih hm' (fun l hl => hbare l (List.mem_cons_of_mem _ hl)) hlast
      refine ⟨last, ?_, hne⟩
      rw [List.getLast?_cons, hsome]
      rfl

/-- **What the pass writes can be told from its text.** -/
theorem legible_relay (hg : g.Tidy) {ls : List Text} {lacks : Bool} (h : Text.Legible ls lacks) :
    Text.Legible (g.relay none ls) lacks where
  bare := fun _ hw => hg.bare_of_mem_relay (by simp) h.bare hw
  tail := fun hlacks => hg.getLast?_relay (by simp) h.bare (h.tail hlacks)

end Tidy

end Grammar

namespace Document

variable {g : Grammar}

/-- **The lines of a rendered document are those of the pass.** -/
theorem bareLines_render (hg : g.Tidy) (t : Text) :
    Text.bareLines (ofText g t).render = g.relay none (Text.bareLines t) := by
  rw [render_ofText]
  exact Text.bareLines_ofLines (hg.legible_relay (Text.legible_bareLines t))

/-- A rendered document ends with a newline if the text it was read from does. -/
theorem lacksNewline_render (hg : g.Tidy) (t : Text) :
    Text.lacksNewline (ofText g t).render = Text.lacksNewline t := by
  rw [render_ofText]
  exact Text.lacksNewline_ofLines (hg.legible_relay (Text.legible_bareLines t))

/-- **A text is rendered as it is if and only if its lines are.** -/
theorem render_ofText_eq_iff (hg : g.Tidy) (t : Text) :
    (ofText g t).render = t ↔ g.relay none (Text.bareLines t) = Text.bareLines t := by
  constructor
  · intro h
    rw [← bareLines_render hg, h]
  · intro h
    rw [render_ofText, h]
    exact Text.ofLines_bareLines t

end Document

end LicenseHeader
