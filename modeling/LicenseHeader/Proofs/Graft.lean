import LicenseHeader.Proofs.FirstBlock
import LicenseHeader.Proofs.Padding
import LicenseHeader.Proofs.RoundTrip

/-!
# A block written into another text

Relicensing takes a block that was read in one language and writes it into a file of
another. All that is asked of the block is that its margin is blank and that no line
holds a newline (`CommentBlock.Portable`), which every block that was read has.

Set between lines that open no block and any lines below, the block is the first one
of the text (`CommentBlock.exists_opener_written`), and what is read back from it is
what stands between its opener and the line with which a block does not go on. That
is its content, line by line, behind the gaps that writing made, except for two
things: a content line may close the block early, and without a closer the block
goes on into lines below that have the leader. Comparison with the block that was
written sees exactly these two (`CommentBlock.forall₂_padded_iff`).
-/

namespace LicenseHeader

/-! ## Portable blocks -/

/-- **A portable block**: it can be written in any language. -/
structure CommentBlock.Portable (b : CommentBlock) : Prop where
  /-- Its margin is one. -/
  margin : b.margin.IsMargin
  /-- No line holds a newline. -/
  bare : ∀ content ∈ b.lines, '\n' ∉ content

namespace CommentBlock

variable {b : CommentBlock} {line content : Text}

theorem grammar_keep (b : CommentBlock) (content : Text) :
    (b.keep content).grammar = b.grammar := by
  unfold keep
  split <;> rfl

theorem grammar_pushContent (b : CommentBlock) (line : Text) :
    (b.pushContent line).grammar = b.grammar := by
  unfold pushContent
  dsimp only
  split
  · split
    · rw [grammar_keep]; split <;> rfl
    · rw [grammar_keep]; split <;> rfl
  · rw [grammar_keep]; split <;> rfl

theorem grammar_push (b : CommentBlock) (line : Text) : (b.push line).grammar = b.grammar := by
  unfold push
  split
  · rfl
  · split
    · rfl
    · exact b.grammar_pushContent line

namespace Portable

theorem keep (hb : b.Portable) (hcontent : '\n' ∉ content) : (b.keep content).Portable := by
  unfold CommentBlock.keep
  split
  · refine ⟨hb.margin, fun c hc => ?_⟩
    rcases List.mem_append.1 hc with hc | hc
    · exact hb.bare c hc
    · rwa [List.mem_singleton.1 hc]
  · exact hb

theorem isMargin_of_leaderRest? {g : Grammar} (hg : g.Tidy) (hbare : '\n' ∉ line) {m rest : Text}
    (h : g.leaderRest? line = some (m, rest)) : m.IsMargin ∧ '\n' ∉ contentOf g rest := by
  obtain ⟨token, hleader⟩ := Grammar.exists_leader_of_leads (by rw [Grammar.leads, h]; rfl)
  obtain ⟨hblank, rfl, hrest⟩ := (hg.leaderRest?_eq_some_iff hleader).1 h
  refine ⟨⟨hblank, fun hmem => hbare (by simp [hmem])⟩, ?_⟩
  rw [contentOf, Grammar.beforeTrailer?, hg.trailer_eq]
  exact hrest

theorem pushContent (hb : b.Portable) (hg : b.grammar.Tidy) (hbare : '\n' ∉ line) :
    (b.pushContent line).Portable := by
  unfold CommentBlock.pushContent
  dsimp only
  split
  · split
    · rename_i m rest hrest
      obtain ⟨hm, hcontent⟩ := isMargin_of_leaderRest? hg hbare hrest
      refine Portable.keep ?_ hcontent
      split
      · exact ⟨hm, hb.bare⟩
      · exact hb
    · refine Portable.keep ?_ hbare
      split
      · exact ⟨hb.margin, hb.bare⟩
      · exact hb
  · refine Portable.keep ?_ hbare
    split
    · exact ⟨hb.margin, hb.bare⟩
    · exact hb

/-- **A block stays portable with each line.** -/
theorem push (hb : b.Portable) (hg : b.grammar.Tidy) (hbare : '\n' ∉ line) :
    (b.push line).Portable := by
  unfold CommentBlock.push
  split
  · rename_i m hfor
    refine ⟨?_, hb.bare⟩
    unfold openerFor? at hfor
    split at hfor
    · rename_i hwaits
      have halone := (Bool.and_eq_true_iff.1 hwaits).1
      obtain ⟨token, hopener⟩ := Grammar.exists_opener_of_openerAlone halone
      obtain ⟨hblank, behind, rfl, -⟩ := (hg.openerMargin?_eq_some_iff hopener halone).1 hfor
      exact ⟨hblank, fun hmem => hbare (by simp [show '\n' ∈ m from hmem])⟩
    · cases hfor
  · split
    · exact ⟨hb.margin, hb.bare⟩
    · exact hb.pushContent hg hbare

theorem foldl_push (hb : b.Portable) (hg : b.grammar.Tidy) {ls : List Text}
    (hbare : ∀ line ∈ ls, '\n' ∉ line) : (ls.foldl CommentBlock.push b).Portable := by
  induction ls generalizing b with
  | nil => exact hb
  | cons line ls ih =>
    refine ih (hb.push hg (hbare line List.mem_cons_self)) ?_
      fun l hl => hbare l (List.mem_cons_of_mem _ hl)
    rw [grammar_push]
    exact hg

end Portable

end CommentBlock

/-- **A reference license is portable.** -/
theorem ReferenceLicense.portable_of_ofText {g : Grammar} (hg : g.Tidy) {source : Text}
    {r : ReferenceLicense} (h : ofText g source = .ok r) : r.comment.Portable := by
  have hblock : r.comment = (Text.bareLines source).foldl CommentBlock.push { grammar := g } := by
    unfold ofText at h
    dsimp only at h
    split at h
    · cases h
    · rw [← Except.ok.inj h, Text.bareLines, List.foldl_map]
      rfl
  have hfresh : CommentBlock.Portable { grammar := g } := ⟨⟨rfl, by simp⟩, by simp⟩
  rw [hblock]
  exact hfresh.foldl_push hg fun _ => Text.notMem_of_mem_bareLines

/-- **A block that can be written as a comment** and found again. -/
structure CommentBlock.Writable (b : CommentBlock) : Prop extends b.Portable where
  /-- The tokens of its language are told apart. -/
  tidy : b.grammar.Tidy
  /-- Its language has comments. -/
  hasComments : b.grammar.hasComments = true
  /-- It has content. -/
  ne_nil : b.lines ≠ []

/-- A reference license can be written in every language with comments. -/
theorem ReferenceLicense.writable_retarget {r : ReferenceLicense} (hr : r.comment.Portable)
    {l : Language} (hl : l.grammar.hasComments = true) :
    (r.comment.retarget l.grammar).Writable where
  margin := hr.margin
  bare := hr.bare
  tidy := l.tidy
  hasComments := hl
  ne_nil := r.nonempty

/-! ## What is read back -/

namespace Grammar

variable {g : Grammar} {m content : Text}

/-- The content read back from a written line is the content behind a gap. -/
theorem Tidy.exists_spaces_append_eq (hg : g.Tidy) (hm : m.IsMargin) (hcontent : '\n' ∉ content) :
    ∃ n, g.contentOn (g.writeContent m content) = Text.spaces n ++ content := by
  cases hleader : g.leader with
  | none =>
    refine ⟨0, ?_⟩
    rw [Tidy.contentOn_of_leader_eq_none hleader, hg.writeContent_of_leader_eq_none hleader]
    rfl
  | some token => exact ⟨_, hg.contentOn_writeContent hleader hm hcontent⟩

theorem above_append_cons {above : List Text} {first : Text}
    (habove : ∀ line ∈ above, g.opens line = false) (hfirst : g.opens first = true)
    (rest : List Text) :
    g.above (above ++ first :: rest) = above ∧
      g.fromOpener (above ++ first :: rest) = first :: rest := by
  have hskip : ∀ line ∈ above, (!g.opens line) = true := fun line hline => by
    rw [habove line hline]
    rfl
  have hstop : ¬ (!g.opens first) = true := by
    rw [hfirst]
    exact Bool.false_ne_true
  constructor
  · rw [Grammar.above, List.takeWhile_append_of_pos hskip, List.takeWhile_cons, if_neg hstop,
      List.append_nil]
  · rw [fromOpener, List.dropWhile_append_of_pos hskip, List.dropWhile_cons, if_neg hstop]

end Grammar

namespace CommentBlock

variable {b : CommentBlock} {below : List Text}

/-- The content lines that a block is written as. -/
def writtenContent (b : CommentBlock) : List Text := b.lines.map (b.grammar.writeContent b.margin)

/-- The lines behind the lone opener of a block that is written above `below`. -/
def afterOpener (b : CommentBlock) (below : List Text) : List Text :=
  b.writtenContent
    ++ ((if b.grammar.closer.isSome then [b.grammar.writeCloser b.margin b.closerReturn] else [])
      ++ below)

theorem written_append (b : CommentBlock) (below : List Text) :
    b.written ++ below
      = (if b.grammar.openerAlone then [b.grammar.writeOpener b.margin b.openerReturn] else [])
        ++ b.afterOpener below := by
  unfold written afterOpener writtenContent
  rw [List.append_assoc, List.append_assoc]

/-- A block without a lone opener is written with leaders and without a closer. -/
theorem exists_leader_of_openerAlone (hb : b.Writable) (halone : b.grammar.openerAlone = false) :
    ∃ token, b.grammar.leader = some token ∧ b.grammar.closer = none := by
  obtain ⟨token, hopener⟩ := Option.isSome_iff_exists.1 hb.hasComments
  exact ⟨token, (hb.tidy.opener_eq halone).symm.trans hopener,
    Grammar.closer_eq_none hopener halone⟩

/-- A written content line in a block without a lone opener opens a block with the margin
of the one it was written in. -/
theorem leaderRest?_writeContent_self (hb : b.Writable) (halone : b.grammar.openerAlone = false)
    {content : Text} (hcontent : '\n' ∉ content) :
    b.grammar.leaderRest? (b.grammar.writeContent b.margin content)
      = some (b.margin,
        Text.spaces (leaderGap content b.grammar.indent.afterLeader) ++ content) := by
  obtain ⟨token, hleader, -⟩ := exists_leader_of_openerAlone hb halone
  rw [hb.tidy.leaderRest?_writeContent hleader hb.margin hcontent, hb.tidy.beforeLeader_eq halone,
    Text.spaces_zero, List.append_nil]

/-- **A written block opens with its own margin**, and goes on with what is behind its
opener. -/
theorem exists_opener_written (hb : b.Writable) (below : List Text) :
    ∃ first rest, b.written ++ below = first :: rest ∧ b.grammar.opens first = true ∧
      b.grammar.blockMargin first = b.margin ∧
      (b.grammar.blockStart first).content ++ rest.takeWhile b.grammar.goesOn
        = (b.afterOpener below).takeWhile b.grammar.goesOn ∧
      rest.dropWhile b.grammar.goesOn = (b.afterOpener below).dropWhile b.grammar.goesOn := by
  rw [written_append]
  cases halone : b.grammar.openerAlone with
  | true =>
    have hmargin := hb.tidy.openerMargin?_writeOpener halone hb.margin b.openerReturn
    refine ⟨_, b.afterOpener below, rfl, ?_, ?_, ?_, rfl⟩
    · rw [Grammar.opens, hmargin]
      rfl
    · rw [Grammar.blockMargin, halone, if_pos rfl, hmargin]
      rfl
    · rw [Grammar.blockStart, halone, if_pos rfl, List.nil_append]
  | false =>
    obtain ⟨token, hleader, hcloser⟩ := exists_leader_of_openerAlone hb halone
    obtain ⟨content, more, hlines⟩ := List.exists_cons_of_ne_nil hb.ne_nil
    have hcontent : '\n' ∉ content := hb.bare content (by rw [hlines]; exact List.mem_cons_self)
    have hrest := leaderRest?_writeContent_self hb halone hcontent
    have hleads : b.grammar.leads (b.grammar.writeContent b.margin content) = true := by
      rw [Grammar.leads, hrest]
      rfl
    have hgoes := (Grammar.goesOn_of_closer_eq_none hcloser _).trans hleads
    -- the first content line is the opener
    have hafter : b.afterOpener below = b.grammar.writeContent b.margin content
        :: (more.map (b.grammar.writeContent b.margin) ++ below) := by
      rw [afterOpener, writtenContent, hlines, hcloser]
      rfl
    refine ⟨b.grammar.writeContent b.margin content,
      more.map (b.grammar.writeContent b.margin) ++ below, ?_, ?_, ?_, ?_, ?_⟩
    · rw [if_neg Bool.false_ne_true, List.nil_append, hafter]
    · rw [hb.tidy.opens_eq_leads halone (hb.tidy.notMem_writeContent hb.margin hcontent)]
      exact hleads
    · rw [Grammar.blockMargin, halone, if_neg Bool.false_ne_true, hrest]
      rfl
    · rw [hafter, List.takeWhile_cons_of_pos hgoes, Grammar.blockStart, halone,
        if_neg Bool.false_ne_true]
      rfl
    · rw [hafter, List.dropWhile_cons_of_pos hgoes]

/-! ## What comparison sees -/

/-- With a closer, what is read back ends at the latest with the closer. -/
theorem takeWhile_afterOpener_of_closer {token : Text} (hcloser : b.grammar.closer = some token)
    (below : List Text) :
    (b.afterOpener below).takeWhile b.grammar.goesOn
      = b.writtenContent.takeWhile b.grammar.goesOn := by
  have hends : ¬ b.grammar.goesOn (b.grammar.writeCloser b.margin b.closerReturn) = true := by
    rw [Grammar.goesOn_of_closer_eq_some hcloser, Grammar.Tidy.closes_writeCloser hcloser]
    exact Bool.false_ne_true
  have hafter : b.afterOpener below
      = b.writtenContent ++ b.grammar.writeCloser b.margin b.closerReturn :: below := by
    rw [afterOpener, hcloser]
    rfl
  rw [hafter, List.takeWhile_append, List.takeWhile_cons_of_neg hends, List.append_nil]
  split
  · exact ((List.takeWhile_prefix _).eq_of_length ‹_›).symm
  · rfl

theorem goesOn_of_mem_writtenContent (hb : b.Writable) (hcloser : b.grammar.closer = none)
    {line : Text} (hline : line ∈ b.writtenContent) : b.grammar.goesOn line = true := by
  obtain ⟨content, hmem, rfl⟩ := List.mem_map.1 hline
  obtain ⟨token, hleader⟩ :=
    Option.isSome_iff_exists.1 (Grammar.leader_isSome hb.hasComments hcloser)
  rw [Grammar.goesOn_of_closer_eq_none hcloser]
  exact hb.tidy.leads_writeContent hleader hb.margin (hb.bare content hmem)

theorem afterOpener_of_closer_eq_none (hcloser : b.grammar.closer = none) (below : List Text) :
    b.afterOpener below = b.writtenContent ++ below := by
  rw [afterOpener, hcloser]
  rfl

/-- Without a closer, what is read back goes on into the lines below. -/
theorem takeWhile_afterOpener_of_leader (hb : b.Writable) (hcloser : b.grammar.closer = none)
    (below : List Text) :
    (b.afterOpener below).takeWhile b.grammar.goesOn
      = b.writtenContent ++ below.takeWhile b.grammar.goesOn := by
  rw [afterOpener_of_closer_eq_none hcloser, List.takeWhile_append_of_pos
    fun _ => goesOn_of_mem_writtenContent hb hcloser]

/-- What is left are the lines below with which the block does not go on. -/
theorem dropWhile_afterOpener_of_leader (hb : b.Writable) (hcloser : b.grammar.closer = none)
    (below : List Text) :
    (b.afterOpener below).dropWhile b.grammar.goesOn = below.dropWhile b.grammar.goesOn := by
  rw [afterOpener_of_closer_eq_none hcloser, List.dropWhile_append_of_pos
    fun _ => goesOn_of_mem_writtenContent hb hcloser]

/-- The content of a block is read back behind gaps. -/
theorem forall₂_padded_writtenContent (hb : b.Writable) :
    List.Forall₂ Text.Padded b.lines (b.writtenContent.map b.grammar.contentOn) := by
  rw [writtenContent, List.map_map]
  refine List.forall₂_map_right_iff.2 (List.forall₂_same.2 fun content hcontent => ?_)
  obtain ⟨n, hn⟩ := hb.tidy.exists_spaces_append_eq hb.margin (hb.bare content hcontent)
  refine ⟨Text.spaces n, [], Text.isBlank_spaces n, rfl, ?_⟩
  rw [List.append_nil]
  exact hn

/-- **What is read back is the block, padded**, if no content line closes the block and
the block does not go on below. -/
theorem forall₂_padded_iff (hb : b.Writable) (below : List Text) :
    List.Forall₂ Text.Padded b.lines
        (((b.afterOpener below).takeWhile b.grammar.goesOn).map b.grammar.contentOn) ↔
      if b.grammar.closer.isSome then ∀ line ∈ b.writtenContent, b.grammar.closes line = false
      else below.takeWhile b.grammar.goesOn = [] := by
  have hpadded := forall₂_padded_writtenContent hb
  have hlength : b.lines.length = b.writtenContent.length := List.length_map _ |>.symm
  cases hcloser : b.grammar.closer with
  | none =>
    rw [takeWhile_afterOpener_of_leader hb hcloser, if_neg (by simp)]
    constructor
    · intro h
      have hall := h.length_eq
      rw [List.length_map, List.length_append, hlength] at hall
      exact List.length_eq_zero_iff.1 (by omega)
    · intro h
      rw [h, List.append_nil]
      exact hpadded
  | some token =>
    rw [takeWhile_afterOpener_of_closer hcloser, if_pos Option.isSome_some]
    have hgoes : ∀ line, b.grammar.goesOn line = true ↔ b.grammar.closes line = false := by
      intro line
      rw [Grammar.goesOn_of_closer_eq_some hcloser, Bool.not_eq_true']
    constructor
    · -- equally many lines are read back, so all of them are
      intro h line hline
      have hall := h.length_eq
      rw [List.length_map, hlength] at hall
      have hwhole := (List.takeWhile_prefix b.grammar.goesOn).eq_of_length hall.symm
      rw [← hwhole] at hline
      exact (hgoes line).1 (List.mem_takeWhile_imp hline)
    · intro h
      rw [List.takeWhile_eq_self_iff.2 fun line hline => (hgoes line).2 (h line hline)]
      exact hpadded

end CommentBlock

end LicenseHeader
