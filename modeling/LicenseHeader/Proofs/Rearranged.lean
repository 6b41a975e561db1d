import LicenseHeader.Proofs.JavaHead
import LicenseHeader.Proofs.Relicense
import Mathlib.Data.List.Flatten

/-!
# Reading a rearranged document

The actions that put the head of a file in order take a document apart, leave lines of
code out, put others in and set a block in another place. What they write is read again
by the next run, and this module says what is found then, for the languages that close
their blocks.

A document is looked at as a list of pieces (`Layout.Piece`), so it is no matter that runs
of code are one run when nothing stands between them any more. Each piece is read back on
its own (`Layout.pieces_render`), whatever stands above it and below it: a line of code as
itself, and a block as a block. Two things may go missing on the way. An empty line at the
end of a text without final newline leaves no trace (`Layout.traced`). And a block that is
closed by its own content is read back in part, its other lines being code then
(`CommentBlock.readBack`, `CommentBlock.leftOver`). Either way a piece that was read back
is written as the piece was (`Layout.Piece.flatMap_written_readBack`).
-/

namespace LicenseHeader

/-! ## An empty line at the end -/

namespace Text

/-- The lines that are read from the text of lines: an empty one at the end whose newline
is missing leaves no trace. -/
def traced (ls : List Text) (lacks : Bool) : List Text :=
  if lacks = true ∧ ls.getLast? = some [] then ls.dropLast else ls

/-- **The lines read from the text of lines.** -/
theorem bareLines_ofLines_eq {ls : List Text} (hbare : ∀ l ∈ ls, '\n' ∉ l) (lacks : Bool) :
    bareLines (ofLines ls lacks) = traced ls lacks := by
  unfold traced
  split
  · rename_i h
    obtain ⟨rfl, hlast⟩ := h
    obtain ⟨init, rfl⟩ := List.getLast?_eq_some_iff.1 hlast
    rw [ofLines_concat_true, List.append_nil, List.dropLast_concat]
    exact bareLines_unlines fun l hl => hbare l (List.mem_append_left _ hl)
  · rename_i h
    rcases List.eq_nil_or_concat ls with rfl | ⟨init, last, rfl⟩
    · cases lacks <;> rfl
    · refine bareLines_ofLines ⟨hbare, fun hlacks => ⟨last, by simp, fun hnil => h ⟨hlacks, ?_⟩⟩⟩
      simp [hnil]

/-- **A text is told by its lines** among those that agree with it at the end. -/
theorem ofLines_eq_iff {ls : List Text} (hbare : ∀ l ∈ ls, '\n' ∉ l) (t : Text) :
    ofLines ls (lacksNewline t) = t ↔ ls = bareLines t := by
  constructor
  · intro h
    have hread := bareLines_ofLines_eq hbare (lacksNewline t)
    rw [h, traced] at hread
    split at hread
    · rename_i hempty
      -- a text that ends with an empty line ends with a newline
      obtain ⟨init, rfl⟩ := List.getLast?_eq_some_iff.1 hempty.2
      rw [hempty.1, ofLines_concat_true, List.append_nil] at h
      have hlacks := lacksNewline_unlines fun l hl => hbare l (List.mem_append_left _ hl)
      rw [h, hempty.1] at hlacks
      cases hlacks
    · exact hread.symm
  · rintro rfl
    exact ofLines_bareLines t

end Text

/-! ## Blocks read back -/

/-- A block goes on up to the first line with which it does not, whatever stands below. -/
theorem BlockLines.extend_append_cons {g : Grammar} (s : BlockLines) {kept : List Text}
    {closing : Text} (hkept : ∀ w ∈ kept, g.goesOn w = true) (hends : g.goesOn closing = false)
    (below : List Text) :
    s.extend g (kept ++ closing :: below)
      = { s with content := s.content ++ kept, closer := (some closing).filter g.closes } := by
  have hnot : ¬ g.goesOn closing = true := Bool.eq_false_iff.1 hends
  unfold extend
  rw [List.takeWhile_append_of_pos hkept, List.dropWhile_append_of_pos hkept,
    List.takeWhile_cons_of_neg hnot, List.dropWhile_cons_of_neg hnot, List.append_nil,
    List.head?_cons]

namespace CommentBlock

/-- **A block as it stands in a text** of a language that closes its blocks. -/
structure Enclosed (b : CommentBlock) : Prop extends b.Portable where
  /-- Its syntax is that of a language. -/
  language : ∃ l : Language, b.grammar = l.grammar
  /-- The language has comments. -/
  hasComments : b.grammar.hasComments = true
  /-- The language closes its blocks. -/
  closer_isSome : b.grammar.closer.isSome = true
  /-- No content closes a block. -/
  stays : ∀ content ∈ b.lines, b.grammar.closes content = false

/-- The block that is read from what a block is written as. -/
def readBack (b : CommentBlock) : CommentBlock :=
  ((b.grammar.blockStart (b.grammar.writeOpener b.margin b.openerReturn)).extend b.grammar
    (b.afterOpener [])).read b.grammar

/-- The lines of a written block that are read as code, since a line above them has closed
the block. -/
def leftOver (b : CommentBlock) : List Text := ((b.afterOpener []).dropWhile b.grammar.goesOn).tail

namespace Enclosed

variable {b : CommentBlock}

theorem tidy (hb : b.Enclosed) : b.grammar.Tidy := by
  obtain ⟨l, hl⟩ := hb.language
  rw [hl]
  exact l.tidy

theorem openerAlone (hb : b.Enclosed) : b.grammar.openerAlone = true := by
  obtain ⟨token, hopener⟩ := Option.isSome_iff_exists.1 hb.hasComments
  rw [Grammar.openerAlone, hopener, hb.closer_isSome]
  rfl

theorem afterOpener_eq (hb : b.Enclosed) (below : List Text) :
    b.afterOpener below
      = b.writtenContent ++ b.grammar.writeCloser b.margin b.closerReturn :: below := by
  rw [afterOpener, if_pos hb.closer_isSome]
  rfl

theorem written_append_eq (hb : b.Enclosed) (below : List Text) :
    b.written ++ below
      = b.grammar.writeOpener b.margin b.openerReturn :: (b.afterOpener [] ++ below) := by
  rw [written_append, if_pos hb.openerAlone, hb.afterOpener_eq, hb.afterOpener_eq,
    List.append_assoc]
  rfl

theorem goesOn_eq (hb : b.Enclosed) (line : Text) :
    b.grammar.goesOn line = !b.grammar.closes line := by
  obtain ⟨token, hcloser⟩ := Option.isSome_iff_exists.1 hb.closer_isSome
  exact Grammar.goesOn_of_closer_eq_some hcloser line

theorem goesOn_writeCloser (hb : b.Enclosed) (carriageReturn : Bool) :
    b.grammar.goesOn (b.grammar.writeCloser b.margin carriageReturn) = false := by
  obtain ⟨token, hcloser⟩ := Option.isSome_iff_exists.1 hb.closer_isSome
  rw [hb.goesOn_eq, Grammar.Tidy.closes_writeCloser hcloser]
  rfl

/-- **Only a slash behind a star closes the block it is written in.** -/
theorem goesOn_writeContent_iff (hb : b.Enclosed) {content : Text} (hcontent : content ∈ b.lines) :
    b.grammar.goesOn (b.grammar.writeContent b.margin content) = true ↔
      (b.grammar = Language.starred → content ≠ ['/']) := by
  have hstays := hb.stays content hcontent
  rw [hb.goesOn_eq, Bool.not_eq_true']
  cases hleader : b.grammar.leader with
  | none =>
    rw [hb.tidy.writeContent_of_leader_eq_none hleader]
    refine iff_of_true hstays fun hstarred => ?_
    rw [hstarred] at hleader
    cases hleader
  | some leader =>
    obtain ⟨l, hl⟩ := hb.language
    have hstarred : b.grammar = Language.starred := by
      rw [hl]
      exact l.eq_starred (by rw [← hl, hleader]; rfl) (hl ▸ hb.closer_isSome)
    rw [hstarred] at hstays ⊢
    rw [Bool.eq_false_iff, Ne, Language.closes_writeContent_iff hb.margin hstays]
    exact (imp_iff_right rfl).symm

/-- **Which blocks are read back whole**: those without the content `/` behind a star. -/
theorem leftOver_eq_nil_iff (hb : b.Enclosed) :
    b.leftOver = [] ↔ (b.grammar = Language.starred → ['/'] ∉ b.lines) := by
  have hends : ¬ b.grammar.goesOn (b.grammar.writeCloser b.margin b.closerReturn) = true :=
    Bool.eq_false_iff.1 (hb.goesOn_writeCloser _)
  have hall : b.leftOver = [] ↔ ∀ w ∈ b.writtenContent, b.grammar.goesOn w = true := by
    unfold leftOver
    rw [hb.afterOpener_eq, List.dropWhile_append, List.dropWhile_cons_of_neg hends]
    cases hempty : (b.writtenContent.dropWhile b.grammar.goesOn).isEmpty with
    | true =>
      rw [if_pos rfl]
      exact iff_of_true rfl (List.dropWhile_eq_nil_iff.1 (List.isEmpty_iff.1 hempty))
    | false =>
      -- a content line closes the block, and at least the closer is left over
      have hne := List.isEmpty_eq_false_iff.1 hempty
      rw [if_neg Bool.false_ne_true]
      refine iff_of_false ?_ fun hgoes => hne (List.dropWhile_eq_nil_iff.2 hgoes)
      obtain ⟨w, ws, hw⟩ := List.exists_cons_of_ne_nil hne
      rw [hw, List.cons_append, List.tail_cons]
      exact List.append_ne_nil_of_right_ne_nil _ (List.cons_ne_nil _ _)
  rw [hall]
  constructor
  · intro h hstarred hslash
    exact (hb.goesOn_writeContent_iff hslash).1 (h _ (List.mem_map_of_mem hslash)) hstarred rfl
  · intro h w hw
    obtain ⟨content, hcontent, rfl⟩ := List.mem_map.1 hw
    exact (hb.goesOn_writeContent_iff hcontent).2 fun hstarred heq => h hstarred (heq ▸ hcontent)

/-- A line that is left over begins with a star, behind blanks. -/
theorem exists_star_of_mem_leftOver (hb : b.Enclosed) {w : Text} (hw : w ∈ b.leftOver) :
    ∃ rest, w = b.margin ++ ' ' :: '*' :: rest := by
  have hstarred : b.grammar = Language.starred := by
    by_contra hnot
    rw [hb.leftOver_eq_nil_iff.2 fun h => absurd h hnot] at hw
    cases hw
  have hmem := (List.dropWhile_sublist _).subset (List.mem_of_mem_tail hw)
  rw [hb.afterOpener_eq, List.mem_append, List.mem_singleton] at hmem
  rcases hmem with hmem | rfl
  · obtain ⟨content, -, rfl⟩ := List.mem_map.1 hmem
    rw [hstarred, Language.starred_writeContent, List.append_assoc]
    exact ⟨_, rfl⟩
  · rw [hstarred, Language.starred_writeCloser, List.append_assoc]
    exact ⟨_, rfl⟩

/-- A line that is left over opens no block. -/
theorem opens_of_mem_leftOver (hb : b.Enclosed) {w : Text} (hw : w ∈ b.leftOver) :
    b.grammar.opens w = false := by
  have hstarred : b.grammar = Language.starred := by
    by_contra hnot
    rw [hb.leftOver_eq_nil_iff.2 fun h => absurd h hnot] at hw
    cases hw
  obtain ⟨rest, rfl⟩ := hb.exists_star_of_mem_leftOver hw
  have hstar := Language.starred_opens_eq_false (m := b.margin ++ [' '])
    (by rw [Text.isBlank_append, hb.margin.blank]; rfl) rest
  rw [List.append_assoc] at hstar
  rw [hstarred]
  exact hstar

/-- **Where a written block is cut**: it is read up to the first line that closes it. -/
theorem exists_cut (hb : b.Enclosed) :
    ∃ kept closing, b.afterOpener [] = kept ++ closing :: b.leftOver ∧
      (∀ w ∈ kept, b.grammar.goesOn w = true) ∧ b.grammar.goesOn closing = false := by
  have hcut := List.takeWhile_append_dropWhile (p := b.grammar.goesOn) (l := b.afterOpener [])
  have hne : (b.afterOpener []).dropWhile b.grammar.goesOn ≠ [] := by
    intro hnil
    have hlast := List.dropWhile_eq_nil_iff.1 hnil (b.grammar.writeCloser b.margin b.closerReturn)
      (by rw [hb.afterOpener_eq]; simp)
    rw [hb.goesOn_writeCloser] at hlast
    cases hlast
  obtain ⟨closing, rest, hrest⟩ := List.exists_cons_of_ne_nil hne
  refine ⟨(b.afterOpener []).takeWhile b.grammar.goesOn, closing, ?_,
    fun w => List.mem_takeWhile_imp, ?_⟩
  · rw [leftOver, hrest, List.tail_cons, ← hrest]
    exact hcut.symm
  · have hhead := List.head?_dropWhile_not b.grammar.goesOn (b.afterOpener [])
    rw [hrest, List.head?_cons] at hhead
    simpa using hhead

/-- The lines above the cut are content lines, written. -/
theorem exists_content_of_mem (hb : b.Enclosed) {kept rest : List Text}
    (hcut : b.afterOpener [] = kept ++ rest) (hkept : ∀ w ∈ kept, b.grammar.goesOn w = true)
    {w : Text} (hw : w ∈ kept) :
    ∃ content ∈ b.lines, b.grammar.writeContent b.margin content = w := by
  have hmem : w ∈ b.afterOpener [] := by
    rw [hcut]
    exact List.mem_append_left _ hw
  rw [hb.afterOpener_eq, List.mem_append, List.mem_singleton] at hmem
  rcases hmem with hmem | rfl
  · exact List.mem_map.1 hmem
  · have hgoes := hkept _ hw
    rw [hb.goesOn_writeCloser] at hgoes
    cases hgoes

/-- The line at the cut is a closer, written. -/
theorem writeCloser_of_closing (hb : b.Enclosed) {closing : Text}
    (hmem : closing ∈ b.afterOpener []) (hends : b.grammar.goesOn closing = false) :
    b.grammar.writeCloser b.margin (Text.endsWithChar '\r' closing) = closing := by
  obtain ⟨token, hcloser⟩ := Option.isSome_iff_exists.1 hb.closer_isSome
  rw [hb.afterOpener_eq, List.mem_append, List.mem_singleton] at hmem
  rcases hmem with hmem | rfl
  · -- the one content that closes a block is written as the closer
    obtain ⟨content, hcontent, rfl⟩ := List.mem_map.1 hmem
    have hslash := mt (hb.goesOn_writeContent_iff hcontent).2 (Bool.eq_false_iff.1 hends)
    obtain ⟨hstarred, hnot⟩ := Classical.not_imp.1 hslash
    rw [Classical.not_not.1 hnot, hstarred, Language.writeContent_slash,
      Language.tidy_starred.endsWithChar_writeCloser (hstarred ▸ hcloser)]
  · rw [hb.tidy.endsWithChar_writeCloser hcloser]

/-- **The block that is read back**: what stands above the cut, with the line at the cut to
close it. -/
theorem readBack_eq (hb : b.Enclosed) {kept : List Text} {closing : Text}
    (hcut : b.afterOpener [] = kept ++ closing :: b.leftOver)
    (hkept : ∀ w ∈ kept, b.grammar.goesOn w = true) (hends : b.grammar.goesOn closing = false) :
    b.readBack = {
      grammar := b.grammar
      margin := b.margin
      opened := true
      closed := true
      openerReturn := b.openerReturn
      closerReturn := Text.endsWithChar '\r' closing
      lines := kept.map b.grammar.contentOn } := by
  have hstart : b.grammar.blockStart (b.grammar.writeOpener b.margin b.openerReturn)
      = { opener := some (b.grammar.writeOpener b.margin b.openerReturn) } :=
    if_pos hb.openerAlone
  have hmargin : b.grammar.blockMargin (b.grammar.writeOpener b.margin b.openerReturn)
      = b.margin := by
    rw [Grammar.blockMargin, if_pos hb.openerAlone,
      hb.tidy.openerMargin?_writeOpener hb.openerAlone hb.margin]
    rfl
  have hcloses : b.grammar.closes closing = true := by
    rw [hb.goesOn_eq] at hends
    simpa using hends
  unfold readBack BlockLines.read
  rw [BlockLines.margin_extend, hmargin, hstart, hcut,
    BlockLines.extend_append_cons _ hkept hends, Option.filter_some, if_pos hcloses]
  dsimp only
  rw [Option.any_some, Option.any_some, hb.tidy.endsWithChar_writeOpener hb.openerAlone]
  rfl

/-- **A block that is read back is written as the block was**, up to the line that closes
it. -/
theorem written_readBack_append (hb : b.Enclosed) :
    b.readBack.written ++ b.leftOver = b.written := by
  obtain ⟨kept, closing, hcut, hkept, hends⟩ := hb.exists_cut
  have hcontent : (kept.map b.grammar.contentOn).map (b.grammar.writeContent b.margin) = kept := by
    rw [List.map_map]
    refine (List.map_congr_left fun w hw => ?_).trans (List.map_id kept)
    obtain ⟨content, hmem, rfl⟩ := hb.exists_content_of_mem hcut hkept hw
    exact hb.tidy.writeContent_contentOn_writeContent hb.margin (hb.bare content hmem)
  have hclosing := hb.writeCloser_of_closing (by rw [hcut]; simp) hends
  have hwritten := hb.written_append_eq []
  rw [List.append_nil, List.append_nil, hcut] at hwritten
  rw [hwritten, hb.readBack_eq hcut hkept hends, written]
  dsimp only
  rw [if_pos hb.openerAlone, if_pos hb.closer_isSome, hcontent, hclosing, List.append_assoc,
    List.append_assoc]
  rfl

/-- The content that is read back is the content that was written, behind gaps, where none is
left over. -/
theorem lines_readBack (hb : b.Enclosed) (hnone : b.leftOver = []) :
    b.readBack.lines = b.lines.map fun content =>
      b.grammar.contentOn (b.grammar.writeContent b.margin content) := by
  obtain ⟨kept, closing, hcut, hkept, hends⟩ := hb.exists_cut
  rw [hb.readBack_eq hcut hkept hends]
  rw [hb.afterOpener_eq, hnone] at hcut
  obtain ⟨hlines, -⟩ := List.append_inj' hcut rfl
  rw [← hlines, writtenContent, List.map_map]
  rfl

end Enclosed

end CommentBlock

/-! ## Pieces read back -/

namespace Layout

namespace Piece

/-- The lines a piece is written as. -/
def written : Piece → List Text
  | block b => b.written
  | line l => [l]

/-- The pieces that are read from what a piece is written as. -/
def readBack : Piece → List Piece
  | block b => block b.readBack :: b.leftOver.map line
  | line l => [line l]

/-- The line of code, where the piece is one. -/
def line? : Piece → Option Text
  | block _ => none
  | line l => some l

/-- **A piece as it stands in a text** of a language that closes its blocks: a line of code
opens no block. -/
def Fits (g : Grammar) : Piece → Prop
  | block b => b.Enclosed ∧ b.grammar = g
  | line l => g.opens l = false ∧ '\n' ∉ l

theorem flatMap_written_map_line (ls : List Text) : (ls.map line).flatMap written = ls := by
  rw [List.flatMap_map]
  exact List.flatMap_singleton' ls

theorem filterMap_line?_map_line (ls : List Text) : (ls.map line).filterMap line? = ls := by
  rw [List.filterMap_map]
  exact List.filterMap_some

theorem flatMap_readBack_map_line (ls : List Text) :
    (ls.map line).flatMap readBack = ls.map line := by
  rw [List.flatMap_map]
  exact (List.map_eq_flatMap ..).symm

/-- A line that is read back was one, or is left over of a block. -/
theorem mem_flatMap_readBack {ps : List Piece} {l : Text} (h : line l ∈ ps.flatMap readBack) :
    line l ∈ ps ∨ ∃ b, block b ∈ ps ∧ l ∈ b.leftOver := by
  obtain ⟨p, hp, hl⟩ := List.mem_flatMap.1 h
  cases p with
  | line l' => exact .inl (List.mem_singleton.1 hl ▸ hp)
  | block b =>
    refine .inr ⟨b, hp, ?_⟩
    obtain ⟨w, hw, heq⟩ := List.mem_map.1 (List.mem_of_ne_of_mem (by simp) hl)
    rwa [← line.inj heq]

/-- **A piece that was read back is written as the piece was.** -/
theorem Fits.written_readBack {g : Grammar} {p : Piece} (hp : p.Fits g) :
    p.readBack.flatMap written = p.written := by
  cases p with
  | line l => rfl
  | block b =>
    rw [readBack, List.flatMap_cons, flatMap_written_map_line]
    exact hp.1.written_readBack_append

theorem flatMap_written_readBack {g : Grammar} {ps : List Piece} (hps : ∀ p ∈ ps, p.Fits g) :
    (ps.flatMap readBack).flatMap written = ps.flatMap written := by
  rw [List.flatMap_assoc]
  exact List.flatMap_congr fun p hp => (hps p hp).written_readBack

theorem Fits.bare {g : Grammar} {p : Piece} (hp : p.Fits g) {w : Text} (hw : w ∈ p.written) :
    '\n' ∉ w := by
  cases p with
  | line l => rw [List.mem_singleton.1 hw]; exact hp.2
  | block b => exact CommentBlock.bare_of_mem_written hp.1.toPortable hp.1.tidy hw

/-- A piece has a last line, which is empty only for an empty line of code. -/
theorem Fits.getLast?_written {g : Grammar} {p : Piece} (hp : p.Fits g) :
    ∃ last, p.written.getLast? = some last ∧ (last = [] ↔ p = line []) := by
  cases p with
  | line l => exact ⟨l, rfl, by rw [line.injEq]⟩
  | block b =>
    obtain ⟨token, hcloser⟩ := Option.isSome_iff_exists.1 hp.1.closer_isSome
    refine ⟨b.grammar.writeCloser b.margin b.closerReturn, ?_, iff_of_false ?_ (by simp)⟩
    · rw [written, CommentBlock.written, if_pos hp.1.closer_isSome, List.getLast?_concat]
    · exact (hp.1.tidy.writeCloser_bare_and_ne_nil hcloser hp.1.margin _).2

/-- **Pieces are told by their lines** among those of which they are some. -/
theorem eq_of_flatMap_written_eq {g : Grammar} {ps qs : List Piece} (hsub : ps.Sublist qs)
    (hqs : ∀ q ∈ qs, q.Fits g) (h : ps.flatMap written = qs.flatMap written) : ps = qs := by
  induction hsub with
  | slnil => rfl
  | @cons ps qs q hsub _ =>
    -- a piece too few is at least one line too few
    obtain ⟨last, hlast, -⟩ := (hqs q List.mem_cons_self).getLast?_written
    have hle := (hsub.flatMap written).length_le
    have hpos := List.length_pos_of_mem (List.mem_of_getLast? hlast)
    rw [h, List.flatMap_cons, List.length_append] at hle
    omega
  | @cons_cons ps qs q hsub ih =>
    rw [List.flatMap_cons, List.flatMap_cons, List.append_right_inj] at h
    rw [ih (fun p hp => hqs p (List.mem_cons_of_mem _ hp)) h]

end Piece

/-- The lines of code of a document are those among its pieces. -/
theorem codeLines_eq (d : Document) : d.codeLines = (pieces d.segments).filterMap Piece.line? := by
  unfold Document.codeLines
  induction d.segments with
  | nil => rfl
  | cons s segments ih =>
    rw [pieces_cons, List.filterMap_append, ← ih]
    cases s with
    | comment b => rfl
    | code r =>
      show r.lines ++ _ = (r.lines.map Piece.line).filterMap Piece.line? ++ _
      rw [Piece.filterMap_line?_map_line]
      rfl

theorem flatMap_written_pieces (segments : List Segment) :
    (pieces segments).flatMap Piece.written = segments.flatMap Segment.written := by
  rw [pieces, List.flatMap_assoc]
  refine List.flatMap_congr fun s _ => ?_
  cases s with
  | comment b => exact List.append_nil _
  | code r => exact Piece.flatMap_written_map_line r.lines

/-- The pieces that are read from lines. -/
def readPieces (g : Grammar) (ls : List Text) : List Piece :=
  pieces ((Document.stretchesFrom g .between ls).map (Stretch.segment g))

section ReadPieces

variable {g : Grammar}

theorem pieces_ofText (g : Grammar) (t : Text) :
    pieces (Document.ofText g t).segments = readPieces g (Text.bareLines t) := by
  rw [Document.ofText_segments]
  rfl

/-- Code that has begun stands in front of what is read from the other lines, wherever it
ends. -/
theorem pieces_stretchesFrom_inCode (code ls : List Text) :
    pieces ((Document.stretchesFrom g (.inCode code) ls).map (Stretch.segment g))
      = code.map .line ++ readPieces g ls := by
  induction ls generalizing code with
  | nil => rfl
  | cons line ls ih =>
    cases hopens : g.opens line with
    | true =>
      rw [readPieces, (LineReader.Step.openedAfterCode hopens).stretchesFrom_cons,
        (LineReader.Step.opened hopens).stretchesFrom_cons]
      rfl
    | false =>
      rw [readPieces, (LineReader.Step.moreCode hopens).stretchesFrom_cons,
        (LineReader.Step.firstCode hopens).stretchesFrom_cons, List.nil_append, List.nil_append,
        ih, ih, List.map_append, List.append_assoc]

theorem readPieces_append_of_code {code : List Text} (hcode : ∀ l ∈ code, g.opens l = false)
    (ls : List Text) : readPieces g (code ++ ls) = code.map .line ++ readPieces g ls := by
  induction code with
  | nil => rfl
  | cons line code ih =>
    obtain ⟨hline, hcode⟩ := List.forall_mem_cons.1 hcode
    rw [List.cons_append, readPieces, (LineReader.Step.firstCode hline).stretchesFrom_cons,
      List.nil_append, pieces_stretchesFrom_inCode, ih hcode]
    rfl

/-- **A written block is read back**, whatever stands below it. -/
theorem readPieces_append_of_block {b : CommentBlock} (hb : b.Enclosed) (ls : List Text) :
    readPieces b.grammar (b.written ++ ls)
      = (Piece.block b).readBack ++ readPieces b.grammar ls := by
  obtain ⟨kept, closing, hcut, hkept, hends⟩ := hb.exists_cut
  have hopens : b.grammar.opens (b.grammar.writeOpener b.margin b.openerReturn) = true := by
    rw [Grammar.opens, hb.tidy.openerMargin?_writeOpener hb.openerAlone hb.margin]
    rfl
  have hlines : b.afterOpener [] ++ ls = kept ++ closing :: (b.leftOver ++ ls) := by
    rw [hcut, List.append_assoc]
    rfl
  have hextend : ∀ s : BlockLines, s.extend b.grammar (kept ++ closing :: (b.leftOver ++ ls))
      = s.extend b.grammar (b.afterOpener []) := by
    intro s
    rw [hcut, s.extend_append_cons hkept hends, s.extend_append_cons hkept hends]
  have hcloser : ¬ b.grammar.closer.isNone = true := by
    rw [Option.isNone_iff_eq_none, ← Option.not_isSome_iff_eq_none]
    exact not_not_intro hb.closer_isSome
  rw [readPieces, hb.written_append_eq, Document.stretchesFrom_of_opens hopens, hlines, hextend,
    List.dropWhile_append_of_pos hkept, List.dropWhile_cons_of_neg (Bool.eq_false_iff.1 hends),
    Document.behindBlock, if_neg hcloser]
  show Piece.block b.readBack :: readPieces b.grammar (b.leftOver ++ ls) = _
  rw [readPieces_append_of_code fun w => hb.opens_of_mem_leftOver]
  rfl

/-- **Each piece is read back on its own.** -/
theorem readPieces_flatMap_written {ps : List Piece} (hps : ∀ p ∈ ps, p.Fits g) :
    readPieces g (ps.flatMap Piece.written) = ps.flatMap Piece.readBack := by
  induction ps with
  | nil => rfl
  | cons p ps ih =>
    obtain ⟨hp, hps⟩ := List.forall_mem_cons.1 hps
    rw [List.flatMap_cons, List.flatMap_cons, ← ih hps]
    cases p with
    | line l => exact readPieces_append_of_code (List.forall_mem_singleton.2 hp.1) _
    | block b =>
      obtain ⟨hb, rfl⟩ := hp
      exact readPieces_append_of_block hb _

end ReadPieces

/-- **The pieces of a text**, where the language closes its blocks. -/
theorem fits_of_mem_pieces {l : Language} (hcloser : l.grammar.closer.isSome = true) {t : Text}
    {p : Piece} (hp : p ∈ pieces (Document.ofText l.grammar t).segments) : p.Fits l.grammar := by
  obtain ⟨s, hs, hp⟩ := List.mem_flatMap.1 hp
  obtain ⟨before, behind, hcut⟩ := List.append_of_mem hs
  obtain ⟨xs, x, ys, -, -, rfl, -, hfits, hfollows⟩ := Document.exists_follows_of_segments hcut
  cases x with
  | block s =>
    obtain rfl := List.mem_singleton.1 hp
    exact ⟨{
      margin := hfits.isMargin_margin l.tidy
      bare := fun content hcontent => by
        obtain ⟨line, hline, rfl⟩ := List.mem_map.1 hcontent
        exact l.tidy.notMem_contentOn (hfits.bare_of_mem_content hline)
      language := ⟨l, rfl⟩
      hasComments := hfits.hasComments
      closer_isSome := hcloser
      stays := fun content hcontent => by
        obtain ⟨line, hline, rfl⟩ := List.mem_map.1 hcontent
        exact l.tidy.closes_contentOn (hfits.stays line hline) }, rfl⟩
  | code ls =>
    obtain ⟨line, hline, rfl⟩ := List.mem_map.1 hp
    refine ⟨Bool.eq_false_iff.2 fun hopens => ?_, hfits.2 line hline⟩
    obtain ⟨i, hi⟩ := List.mem_iff_getElem?.1 hline
    obtain ⟨-, -, -, hnone⟩ := Document.opens_of_follows hfollows hfits hi hopens
    rw [hnone] at hcloser
    cases hcloser

/-! ## Documents written and read again -/

/-- The pieces that leave a trace in the text of pieces: an empty line at the end whose
newline is missing leaves none. -/
def traced (ps : List Piece) (lacks : Bool) : List Piece :=
  if lacks = true ∧ ps.getLast? = some (.line []) then ps.dropLast else ps

/-- What leaves no trace is an empty line at the end. -/
theorem exists_eq_traced_append (ps : List Piece) (lacks : Bool) :
    ∃ qs, ps = traced ps lacks ++ qs ∧ ∀ q ∈ qs, q = .line [] := by
  unfold traced
  split
  · rename_i h
    obtain ⟨init, rfl⟩ := List.getLast?_eq_some_iff.1 h.2
    exact ⟨[.line []], by rw [List.dropLast_concat], by simp⟩
  · exact ⟨[], (List.append_nil ps).symm, by simp⟩

theorem mem_of_mem_traced {ps : List Piece} {lacks : Bool} {p : Piece} (hp : p ∈ traced ps lacks) :
    p ∈ ps := by
  obtain ⟨qs, hps, -⟩ := exists_eq_traced_append ps lacks
  rw [hps]
  exact List.mem_append_left qs hp

/-- Only the last piece may leave no trace. -/
theorem traced_append {ps qs : List Piece} {lacks : Bool} (h : lacks = true → qs ≠ []) :
    traced (ps ++ qs) lacks = ps ++ traced qs lacks := by
  unfold traced
  by_cases hqs : qs = []
  · have hlacks : ¬ lacks = true := fun hlacks => h hlacks hqs
    rw [if_neg fun hboth => hlacks hboth.1, if_neg fun hboth => hlacks hboth.1]
  · rw [List.getLast?_append_of_ne_nil _ hqs, List.dropLast_append_of_ne_nil hqs]
    split <;> rfl

/-- A piece other than an empty line leaves a trace. -/
theorem traced_cons {p : Piece} (hp : p ≠ .line []) (ps : List Piece) (lacks : Bool) :
    traced (p :: ps) lacks = p :: traced ps lacks := by
  unfold traced
  cases ps with
  | nil => rw [if_neg (by simp [hp]), if_neg (by simp)]
  | cons q ps =>
    rw [List.getLast?_cons_cons, List.dropLast_cons_cons]
    split <;> rfl

/-- **The lines of the pieces that leave a trace** are the lines that do. -/
theorem flatMap_written_traced {g : Grammar} {ps : List Piece} (hps : ∀ p ∈ ps, p.Fits g)
    (lacks : Bool) :
    (traced ps lacks).flatMap Piece.written = Text.traced (ps.flatMap Piece.written) lacks := by
  rcases List.eq_nil_or_concat ps with rfl | ⟨init, last, rfl⟩
  · unfold traced Text.traced
    rw [if_neg (by simp), if_neg (by simp)]
  · rw [List.concat_eq_append] at hps ⊢
    obtain ⟨w, hw, hempty⟩ := (hps last (by simp)).getLast?_written
    have hsame : some w = some [] ↔ some last = some (Piece.line []) := by
      rw [Option.some.injEq, Option.some.injEq, hempty]
    unfold traced Text.traced
    rw [List.flatMap_append, List.flatMap_singleton, List.getLast?_concat, List.getLast?_append, hw,
      Option.some_or]
    by_cases h : lacks = true ∧ some last = some (Piece.line [])
    · rw [if_pos h, if_pos ⟨h.1, hsame.2 h.2⟩, Option.some.inj h.2, List.dropLast_concat]
      exact List.dropLast_concat.symm
    · rw [if_neg h, if_neg fun h' => h ⟨h'.1, hsame.1 h'.2⟩, List.flatMap_append,
        List.flatMap_singleton]

section Rendered

variable {g : Grammar} {d : Document}

theorem render_eq_ofLines_pieces (d : Document) :
    d.render = Text.ofLines ((pieces d.segments).flatMap Piece.written) d.missingFinalNewline := by
  rw [Document.render_eq_ofLines, flatMap_written_pieces]

theorem bare_of_mem_written (hfits : ∀ p ∈ pieces d.segments, p.Fits g) :
    ∀ w ∈ (pieces d.segments).flatMap Piece.written, '\n' ∉ w := by
  intro w hw
  obtain ⟨p, hp, hw⟩ := List.mem_flatMap.1 hw
  exact (hfits p hp).bare hw

/-- **The lines of a document, written.** -/
theorem bareLines_render (hfits : ∀ p ∈ pieces d.segments, p.Fits g) :
    Text.bareLines d.render
      = (traced (pieces d.segments) d.missingFinalNewline).flatMap Piece.written := by
  rw [render_eq_ofLines_pieces, Text.bareLines_ofLines_eq (bare_of_mem_written hfits),
    flatMap_written_traced hfits]

/-- **The pieces of a document, written and read again.** -/
theorem pieces_render (hfits : ∀ p ∈ pieces d.segments, p.Fits g) :
    pieces (Document.ofText g d.render).segments
      = (traced (pieces d.segments) d.missingFinalNewline).flatMap Piece.readBack := by
  rw [pieces_ofText, bareLines_render hfits]
  exact readPieces_flatMap_written fun p hp => hfits p (mem_of_mem_traced hp)

/-- **Which document is written as a given text**: the one whose pieces are written as its
lines. -/
theorem render_eq_iff (hfits : ∀ p ∈ pieces d.segments, p.Fits g) {t : Text}
    (hlacks : d.missingFinalNewline = Text.lacksNewline t) :
    d.render = t ↔ (pieces d.segments).flatMap Piece.written = Text.bareLines t := by
  rw [render_eq_ofLines_pieces, hlacks, Text.ofLines_eq_iff (bare_of_mem_written hfits)]

end Rendered

end Layout

end LicenseHeader
