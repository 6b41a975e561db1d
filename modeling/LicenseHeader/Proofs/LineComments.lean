import LicenseHeader.Proofs.FirstBlock
import LicenseHeader.Proofs.Reread

/-!
# Line comments are read as they were written

A grammar of line comments has a leader that opens its blocks too, no closer and perhaps
a trailer. Its tokens may be anything solid, and its widths anything at all. A block of
such a grammar is written as one line per content line, and nothing but these lines tells
a reader where the block begins and ends and what its content is.

Two things could go wrong, since the content may hold the tokens itself. The leader is
looked for behind the longest margin, and the content begins right behind its first
occurrence; a solid leader does not begin with a blank, so that is the one that was
written (`Grammar.LineComments.leaderRest?_writeContent`). The trailer is looked for from
the left, and the first place that fits ends the content. A trailer inside the content
does not fit, as the trailer at the end of the line stands behind it, and neither does
one that overlaps that (`Grammar.beforeToken?_append`). Only blanks at the end of the content
would be lost.

Hence `CommentBlock.ofText_render_lineComments`: the text of a block is read as that
block alone, with the written indentation in its margin and with the same body.
-/

namespace LicenseHeader

/-! ## The trailer of a line -/

namespace Text

/-- Whether the last character of a text is a blank. -/
def endsBlank (t : Text) : Bool := t.getLast?.any isSpace

/-- Behind a solid token there is no room for blanks if the text ends with the token. -/
theorem Solid.eq_of_append_eq {token : Text} (h : token.Solid) {line start behind : Text}
    (heq : line ++ token = start ++ token ++ behind) (hblank : isBlank behind = true) :
    line = start := by
  obtain ⟨init, c, rfl, hc⟩ := h.exists_concat
  rcases List.eq_nil_or_concat behind with rfl | ⟨more, d, rfl⟩
  · rw [List.append_nil] at heq
    exact List.append_cancel_right heq
  · -- the two last characters would be one, visible on the left and blank on the right
    rw [List.concat_eq_append, ← List.append_assoc, ← List.append_assoc] at heq
    obtain rfl : c = d := List.head_eq_of_cons_eq (List.append_inj' heq rfl).2
    have hd : isSpace c = true := List.all_eq_true.1 hblank c (by simp)
    rw [hc] at hd
    cases hd

/-- A text that is blank and does not end with a blank is empty. -/
theorem eq_nil_of_isBlank {t : Text} (hblank : isBlank t = true) (hend : endsBlank t = false) :
    t = [] := by
  rcases List.eq_nil_or_concat t with rfl | ⟨init, c, rfl⟩
  · rfl
  · have hc : isSpace c = true := List.all_eq_true.1 hblank c (by simp)
    simp [endsBlank, hc] at hend

theorem endsBlank_cons (c : Char) {t : Text} (h : t ≠ []) : endsBlank (c :: t) = endsBlank t := by
  rw [endsBlank, endsBlank, List.getLast?_cons_of_ne_nil h]

end Text

namespace Grammar

/-- A token at the end of a line is matched behind a margin exactly if there is nothing
but a margin before it. -/
theorem isSome_marginThen?_token {token : Text} (h : token.Solid) (line : Text) :
    (marginThen? (afterThenBlank? token) (line ++ token)).isSome = Text.isBlank line := by
  rw [Bool.eq_iff_iff, isSome_marginThen?_iff]
  constructor
  · rintro ⟨m, rest, hline, hblank, haccept⟩
    obtain ⟨behind, hbehind⟩ := Option.isSome_iff_exists.1 haccept
    obtain ⟨rfl, hend⟩ := afterThenBlank?_eq_some_iff.1 hbehind
    rw [← List.append_assoc] at hline
    rw [h.eq_of_append_eq hline hend]
    exact hblank
  · intro hblank
    have htoken : afterThenBlank? token token = some [] :=
      afterThenBlank?_eq_some_iff.2 ⟨(List.append_nil token).symm, rfl⟩
    exact ⟨line, token, rfl, hblank, by rw [htoken]; rfl⟩

/-- Where only blanks and the token are left, nothing stands before the token. -/
theorem beforeToken?_of_isSome {token line : Text}
    (h : (marginThen? (afterThenBlank? token) line).isSome = true) :
    beforeToken? token line = some [] := by
  cases line with
  | nil => rw [beforeToken?, if_pos h]
  | cons c line => rw [beforeToken?, if_pos h]

/-- **The token at the end of a line is found**, with the blanks before it, whatever stands
before them. -/
theorem beforeToken?_append {token start pad : Text} (h : token.Solid) (hbare : '\n' ∉ start)
    (hend : Text.endsBlank start = false) (hpad : Text.isBlank pad = true) :
    beforeToken? token (start ++ pad ++ token) = some start := by
  induction start with
  | nil =>
    refine beforeToken?_of_isSome ?_
    rw [isSome_marginThen?_token h]
    exact hpad
  | cons c start ih =>
    -- the token is not found here, as something visible is still to come
    have hsooner : ¬ (marginThen? (afterThenBlank? token)
        (c :: (start ++ pad ++ token))).isSome = true := by
      rw [show c :: (start ++ pad ++ token) = (c :: start ++ pad) ++ token from rfl,
        isSome_marginThen?_token h, Text.isBlank_append, hpad, Bool.and_true]
      intro hblank
      cases Text.eq_nil_of_isBlank hblank hend
    have htail : Text.endsBlank start = false := by
      cases start with
      | nil => rfl
      | cons d start => rwa [Text.endsBlank_cons c (List.cons_ne_nil d start)] at hend
    have hc : c ≠ '\n' := fun heq => hbare (heq ▸ List.mem_cons_self)
    show beforeToken? token (c :: (start ++ pad ++ token)) = some (c :: start)
    rw [beforeToken?, if_neg hsooner, if_neg hc,
      ih (fun hmem => hbare (List.mem_cons_of_mem c hmem)) htail]
    rfl

/-! ## Written lines -/

/-- **A grammar of line comments**: the leader opens the blocks and no closer ends them. -/
structure LineComments (g : Grammar) (token : Text) : Prop where
  /-- The token is the leader. -/
  leader_eq : g.leader = some token
  /-- It is the opener as well. -/
  opener_eq : g.opener = some token
  /-- There is no closer. -/
  closer_eq : g.closer = none
  /-- The leader is solid. -/
  leader_solid : token.Solid
  /-- So is the trailer, if there is one. -/
  trailer_solid : ∀ trailer ∈ g.trailer, trailer.Solid

/-- **What a line can say in a grammar**: it is one line, and if a trailer is put behind
it, it does not end with a blank. -/
structure Writable (g : Grammar) (content : Text) : Prop where
  /-- It holds no newline. -/
  bare : '\n' ∉ content
  /-- Blanks before a trailer do not count. -/
  ends : g.trailer.isSome = true → Text.endsBlank content = false

/-- What is written behind the leader of a line. -/
def behindLeader (g : Grammar) (content : Text) : Text :=
  Text.spaces (CommentBlock.leaderGap content g.indent.afterLeader) ++ content
    ++ CommentBlock.renderTrailer { grammar := g }

namespace LineComments

variable {g : Grammar} {token m content : Text}

/-- A line is margin, indentation, leader and what is written behind it. -/
theorem writeContent_eq (hg : g.LineComments token) (m content : Text) :
    g.writeContent m content
      = m ++ Text.spaces g.indent.beforeLeader ++ token ++ g.behindLeader content := by
  unfold writeContent CommentBlock.renderLeader behindLeader
  dsimp only
  rw [hg.leader_eq]
  simp [CommentBlock.renderTrailer]

/-- The leader is a line with the leader, so the opener has no line of its own. -/
theorem openerAlone_eq (hg : g.LineComments token) : g.openerAlone = false := by
  have hself : g.leaderRest? token = some ([], []) :=
    (leaderRest?_eq_some_iff_of_solid hg.leader_eq hg.leader_solid).2
      ⟨rfl, (List.append_nil token).symm, List.not_mem_nil⟩
  rw [openerAlone, hg.opener_eq, Option.any_some, hg.closer_eq, leads, hself]
  rfl

theorem notMem_behindLeader (hg : g.LineComments token) (hcontent : '\n' ∉ content) :
    '\n' ∉ g.behindLeader content := by
  have htrailer : '\n' ∉ CommentBlock.renderTrailer { grammar := g } := by
    unfold CommentBlock.renderTrailer
    cases htrailer : g.trailer with
    | none => exact List.not_mem_nil
    | some trailer =>
      simp [Text.notMem_spaces, (hg.trailer_solid trailer htrailer).bare]
  simp [behindLeader, Text.notMem_spaces, hcontent, htrailer]

/-- **The leader of a written line is found again**, behind the margin and the
indentation. -/
theorem leaderRest?_writeContent (hg : g.LineComments token) (hm : m.IsMargin)
    (hcontent : '\n' ∉ content) :
    g.leaderRest? (g.writeContent m content)
      = some (m ++ Text.spaces g.indent.beforeLeader, g.behindLeader content) := by
  rw [leaderRest?_eq_some_iff_of_solid hg.leader_eq hg.leader_solid, hg.writeContent_eq]
  exact ⟨by rw [Text.isBlank_append, hm.blank, Text.isBlank_spaces]; rfl, rfl,
    hg.notMem_behindLeader hcontent⟩

theorem goesOn_writeContent (hg : g.LineComments token) (hm : m.IsMargin)
    (hcontent : '\n' ∉ content) : g.goesOn (g.writeContent m content) = true := by
  rw [goesOn_of_closer_eq_none hg.closer_eq, leads, hg.leaderRest?_writeContent hm hcontent]
  rfl

theorem opens_writeContent (hg : g.LineComments token) (hm : m.IsMargin) (content : Text) :
    g.opens (g.writeContent m content) = true := by
  have htoken : (Text.after? token (token ++ g.behindLeader content)).isSome = true := by
    rw [Text.after?_eq_some_iff.2 rfl]
    rfl
  have hblank : Text.isBlank (m ++ Text.spaces g.indent.beforeLeader) = true := by
    rw [Text.isBlank_append, hm.blank, Text.isBlank_spaces]
    rfl
  rw [opens, openerMargin?, hg.opener_eq, Option.bind_some, hg.openerAlone_eq,
    if_neg Bool.false_ne_true, Option.isSome_map, hg.writeContent_eq, List.append_assoc]
  exact isSome_marginThen? hblank htoken

theorem notMem_writeContent (hg : g.LineComments token) (hm : m.IsMargin)
    (hcontent : '\n' ∉ content) : '\n' ∉ g.writeContent m content := by
  rw [hg.writeContent_eq]
  simp [hm.bare, Text.notMem_spaces, hg.leader_solid.bare, hg.notMem_behindLeader hcontent]

/-- The gap ends with a blank only if the content does: before an empty content there is
none. -/
theorem endsBlank_gapped (content : Text) (width : Nat) :
    Text.endsBlank (Text.spaces (CommentBlock.leaderGap content width) ++ content)
      = Text.endsBlank content := by
  cases content with
  | nil => rw [CommentBlock.leaderGap]; rfl
  | cons c content =>
    rw [Text.endsBlank, Text.endsBlank, List.getLast?_append, List.getLast?_cons]
    rfl

/-- **The content of a written line is the content that was written**, behind its gap. -/
theorem contentOn_writeContent (hg : g.LineComments token) (hm : m.IsMargin)
    (hcontent : g.Writable content) :
    g.contentOn (g.writeContent m content)
      = Text.spaces (CommentBlock.leaderGap content g.indent.afterLeader) ++ content := by
  rw [contentOn, hg.leaderRest?_writeContent hm hcontent.bare]
  show (g.beforeTrailer? (g.behindLeader content)).getD (g.behindLeader content) = _
  rw [beforeTrailer?, behindLeader, CommentBlock.renderTrailer]
  cases htrailer : g.trailer with
  | none => exact List.append_nil _
  | some trailer =>
    have hends := hcontent.ends (by rw [htrailer]; rfl)
    rw [Option.bind_some, ← List.append_assoc,
      beforeToken?_append (hg.trailer_solid trailer htrailer)]
    · rfl
    · simp [Text.notMem_spaces, hcontent.bare]
    · rw [endsBlank_gapped, hends]
    · exact Text.isBlank_spaces _

/-- A written line gives a block its margin and the indentation. -/
theorem blockMargin_writeContent (hg : g.LineComments token) (hm : m.IsMargin)
    (hcontent : '\n' ∉ content) :
    g.blockMargin (g.writeContent m content) = m ++ Text.spaces g.indent.beforeLeader := by
  rw [blockMargin, hg.openerAlone_eq, if_neg Bool.false_ne_true,
    hg.leaderRest?_writeContent hm hcontent]
  rfl

/-- A block takes in all lines with which it goes on. -/
theorem extend_blockStart (hg : g.LineComments token) (first : Text) {rest : List Text}
    (hgoes : ∀ line ∈ rest, g.goesOn line = true) :
    (g.blockStart first).extend g rest = { content := first :: rest } := by
  have hnone : rest.dropWhile g.goesOn = [] := List.dropWhile_eq_nil_iff.2 hgoes
  have hall : rest.takeWhile g.goesOn = rest := by
    have hcut := List.takeWhile_append_dropWhile (p := g.goesOn) (l := rest)
    rwa [hnone, List.append_nil] at hcut
  rw [blockStart, hg.openerAlone_eq, if_neg Bool.false_ne_true, BlockLines.extend, hall, hnone]
  rfl

end LineComments

end Grammar

/-! ## Written blocks -/

namespace CommentBlock

variable {b : CommentBlock} {token : Text}

theorem written_eq (hg : b.grammar.LineComments token) :
    b.written = b.lines.map (b.grammar.writeContent b.margin) := by
  rw [written, hg.openerAlone_eq, hg.closer_eq]
  exact List.append_nil _

theorem bareLines_render (hg : b.grammar.LineComments token) (hm : b.margin.IsMargin)
    (hlines : ∀ line ∈ b.lines, b.grammar.Writable line) :
    Text.bareLines b.render = b.lines.map (b.grammar.writeContent b.margin) ∧
      Text.lacksNewline b.render = false := by
  have hbare : ∀ l ∈ b.lines.map (b.grammar.writeContent b.margin), '\n' ∉ l := by
    intro l hl
    obtain ⟨line, hline, rfl⟩ := List.mem_map.1 hl
    exact hg.notMem_writeContent hm (hlines line hline).bare
  rw [render_eq_unlines, written_eq hg]
  exact ⟨Text.bareLines_unlines hbare, Text.lacksNewline_unlines hbare⟩

/-- The body of a block is that of the lines it is written in. -/
theorem body_read_written (hg : b.grammar.LineComments token) (hm : b.margin.IsMargin)
    (hlines : ∀ line ∈ b.lines, b.grammar.Writable line) :
    (BlockLines.read b.grammar { content := b.lines.map (b.grammar.writeContent b.margin) }).body
      = b.body := by
  show List.map _ (List.map b.grammar.contentOn (b.lines.map _)) = List.map _ b.lines
  rw [List.map_map, List.map_map]
  refine List.map_congr_left fun line hline => ?_
  show Text.trimUpTo (if b.grammar.leader.isSome then b.grammar.indent.afterLeader else 0)
      (b.grammar.contentOn (b.grammar.writeContent b.margin line)) = _
  rw [hg.contentOn_writeContent hm (hlines line hline), hg.leader_eq,
    if_pos Option.isSome_some, trimUpTo_gapped]

/-- **A block of line comments is read as it was written**: whatever the tokens, the widths
and the content are, its text is that one block, its margin is the one it was written with
and the indentation behind that, and its body is the same. -/
theorem ofText_render_lineComments (b : CommentBlock) (token : Text)
    (hg : b.grammar.LineComments token) (hm : b.margin.IsMargin) (hne : b.lines ≠ [])
    (hlines : ∀ line ∈ b.lines, b.grammar.Writable line) :
    ∃ again : CommentBlock,
      Document.ofText b.grammar b.render
        = { segments := [.comment again], missingFinalNewline := false } ∧
      again.grammar = b.grammar ∧
      again.margin = b.margin ++ Text.spaces b.grammar.indent.beforeLeader ∧
      again.body = b.body := by
  cases hcontents : b.lines with
  | nil => exact absurd hcontents hne
  | cons first others =>
    have hall : ∀ line ∈ first :: others, b.grammar.Writable line := hcontents ▸ hlines
    obtain ⟨hbare, hnewline⟩ := bareLines_render hg hm hlines
    rw [hcontents, List.map_cons] at hbare
    -- the first line opens the block, and it goes on with all the others
    have hgoes : ∀ line ∈ others.map (b.grammar.writeContent b.margin),
        b.grammar.goesOn line = true := by
      intro line hline
      obtain ⟨content, hcontent, rfl⟩ := List.mem_map.1 hline
      exact hg.goesOn_writeContent hm (hall content (List.mem_cons_of_mem first hcontent)).bare
    have hsegments := Document.segments_of_opens hbare (hg.opens_writeContent hm first)
    rw [hg.extend_blockStart _ hgoes, List.dropWhile_eq_nil_iff.2 hgoes] at hsegments
    refine ⟨BlockLines.read b.grammar { content := b.lines.map (b.grammar.writeContent b.margin) },
      ?_, rfl, ?_, body_read_written hg hm hlines⟩
    · rw [hcontents, List.map_cons]
      exact congr (congrArg Document.mk hsegments) hnewline
    · rw [hcontents, List.map_cons]
      exact hg.blockMargin_writeContent hm (hall first List.mem_cons_self).bare

/-- Lines in boxes, with a tab and two spaces before them. -/
def boxed : CommentBlock where
  grammar :=
    { leader := some "(*".toList, trailer := some "*)".toList,
      indent := { beforeLeader := 2, afterLeader := 1, beforeTrailer := 1 } }
  margin := ['\t']
  lines := ["(* a *)".toList, [], "x".toList, " *) y".toList]

/-- Boxes in boxes, an empty line, a line of one character and one that begins with a blank
and the trailer are read back. -/
theorem ofText_render_lineComments_boxed :
    boxed.render = "\t  (* (* a *) *)\n\t  (* *)\n\t  (*x *)\n\t  (* *) y *)\n".toList ∧
    ∃ again : CommentBlock,
      Document.ofText boxed.grammar boxed.render
        = { segments := [.comment again], missingFinalNewline := false } ∧
      again.grammar = boxed.grammar ∧ again.margin = "\t  ".toList ∧
      again.body = ["(* a *)".toList, [], "x".toList, "*) y".toList] := by
  have htokens : boxed.grammar.LineComments "(*".toList := by
    refine ⟨rfl, rfl, rfl, ⟨by decide, by decide, by decide⟩, ?_⟩
    intro trailer htrailer
    rw [← Option.some.inj htrailer]
    exact ⟨by decide, by decide, by decide⟩
  have hbare : ∀ line ∈ boxed.lines, '\n' ∉ line := by decide
  have hends : ∀ line ∈ boxed.lines, Text.endsBlank line = false := by decide
  exact ⟨by decide, ofText_render_lineComments boxed "(*".toList htokens ⟨by decide, by decide⟩
    (by decide) fun line hline => ⟨hbare line hline, fun _ => hends line hline⟩⟩

end CommentBlock

end LicenseHeader
