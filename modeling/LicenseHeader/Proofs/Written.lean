import LicenseHeader.Proofs.Stretches

/-!
# A document is written line by line

Rendering a document that was just read is one pass over the lines of the text.
`Grammar.relay` is that pass: it carries nothing but the margin of the block it
stands in, writes one line for each line it reads, and adds a closing line at the
end if the last block lacks one. What it can do with a line is said once, in
`Grammar.Relaid`.

`Document.render_ofText` says that this is rendering: the text that a document is
written as is the text of the relayed lines, with the final newline that the text
it was read from had. Nothing here depends on the grammar.
-/

namespace LicenseHeader

namespace CommentBlock

/-- The carriage return at the end of an opener or closer line. -/
def returnMark (carriageReturn : Bool) : Text := if carriageReturn then ['\r'] else []

theorem terminator_eq (carriageReturn : Bool) :
    terminator carriageReturn = returnMark carriageReturn ++ ['\n'] := by
  cases carriageReturn <;> rfl

end CommentBlock

namespace Grammar

variable (g : Grammar)

/-- The line with the opener alone. -/
def writeOpener (m : Text) (carriageReturn : Bool) : Text :=
  m ++ Text.spaces g.indent.beforeOpener ++ g.opener.getD []
    ++ CommentBlock.returnMark carriageReturn

/-- The line of a content in a block with margin `m`. -/
def writeContent (m content : Text) : Text :=
  let b : CommentBlock := { grammar := g, margin := m }
  b.renderLeader content ++ content ++ b.renderTrailer

/-- The line with the closer. -/
def writeCloser (m : Text) (carriageReturn : Bool) : Text :=
  m ++ Text.spaces g.indent.beforeCloser ++ g.closer.getD []
    ++ CommentBlock.returnMark carriageReturn

/-- The line that the first line of a block is written as. -/
def writeFirst (line : Text) : Text :=
  if g.openerAlone then g.writeOpener (g.blockMargin line) (Text.endsWithChar '\r' line)
  else g.writeContent (g.blockMargin line) (g.contentOn line)

/-- The line added to a block that was not closed. -/
def addedCloser (m : Text) : List Text := if g.closer.isSome then [g.writeCloser m false] else []

end Grammar

/-! ## The lines a document is written as -/

namespace CommentBlock

/-- The lines a block is written as. -/
def written (b : CommentBlock) : List Text :=
  (if b.grammar.openerAlone then [b.grammar.writeOpener b.margin b.openerReturn] else [])
    ++ b.lines.map (b.grammar.writeContent b.margin)
    ++ (if b.grammar.closer.isSome then [b.grammar.writeCloser b.margin b.closerReturn] else [])

theorem renderOpener_eq (b : CommentBlock) :
    b.renderOpener = Text.unlines
      (if b.grammar.openerAlone then [b.grammar.writeOpener b.margin b.openerReturn] else []) := by
  unfold renderOpener
  cases hopener : b.grammar.opener with
  | none =>
    have halone : b.grammar.openerAlone = false := by rw [Grammar.openerAlone, hopener]; rfl
    rw [halone]
    rfl
  | some token =>
    cases b.grammar.openerAlone with
    | false => rfl
    | true =>
      show b.margin ++ _ ++ token ++ terminator b.openerReturn = Text.unlines [_]
      rw [terminator_eq, Grammar.writeOpener, hopener]
      simp [Text.unlines]

theorem renderCloser_eq (b : CommentBlock) :
    b.renderCloser = Text.unlines
      (if b.grammar.closer.isSome then [b.grammar.writeCloser b.margin b.closerReturn] else []) := by
  unfold renderCloser
  cases hcloser : b.grammar.closer with
  | none => rfl
  | some token =>
    rw [if_pos Option.isSome_some, terminator_eq, Grammar.writeCloser, hcloser]
    simp [Text.unlines]

/-- **A block is written in lines.** -/
theorem render_eq_unlines (b : CommentBlock) : b.render = Text.unlines b.written := by
  have hlines : b.lines.flatMap b.renderLine
      = Text.unlines (b.lines.map (b.grammar.writeContent b.margin)) := by
    unfold Text.unlines
    rw [List.map_map, ← List.flatMap_def]
    rfl
  rw [render, written, Text.unlines_append, Text.unlines_append, renderOpener_eq, hlines,
    renderCloser_eq]

end CommentBlock

namespace Segment

/-- The lines a segment is written as. -/
def written : Segment → List Text
  | comment b => b.written
  | code r => r.lines

theorem render_eq_unlines (s : Segment) : s.render = Text.unlines s.written := by
  cases s with
  | comment b => exact b.render_eq_unlines
  | code r => rfl

end Segment

/-- A document is written in lines. -/
theorem Document.render_eq_ofLines (d : Document) :
    d.render = Text.ofLines (d.segments.flatMap Segment.written) d.missingFinalNewline := by
  have htext : d.segments.flatMap Segment.render
      = Text.unlines (d.segments.flatMap Segment.written) := by
    rw [Text.unlines_flatMap]
    exact congrArg (fun f => d.segments.flatMap f) (funext Segment.render_eq_unlines)
  rw [render, htext]
  rfl

/-! ## One pass over the lines -/

namespace Grammar

variable (g : Grammar)

/-- What a line is written as where the pass stands in a block with the given
margin, or in none, and where it stands afterwards. -/
def relayStep : Option Text → Text → Text × Option Text
  | none, line =>
    if g.opens line then (g.writeFirst line, some (g.blockMargin line)) else (line, none)
  | some m, line =>
    if g.closer.isNone then
      if g.leads line then (g.writeContent m (g.contentOn line), some m) else (line, none)
    else if g.closes line then (g.writeCloser m (Text.endsWithChar '\r' line), none)
    else (g.writeContent m (g.contentOn line), some m)

/-- **The pass over the lines of a text**, from where it stands. -/
def relay : Option Text → List Text → List Text
  | m, [] => m.elim [] g.addedCloser
  | m, line :: rest => (g.relayStep m line).1 :: relay (g.relayStep m line).2 rest

/-- **All that the pass can do with a line.** -/
inductive Relaid : Option Text → Text → Text → Option Text → Prop
  /-- Code is written as it stands. -/
  | code {line : Text} (h : g.opens line = false) : Relaid none line line none
  /-- A block begins. -/
  | first {line : Text} (h : g.opens line = true) :
      Relaid none line (g.writeFirst line) (some (g.blockMargin line))
  /-- A block goes on. -/
  | content {m line : Text} (hleads : g.closer = none → g.leads line = true)
      (hstays : g.closes line = false) :
      Relaid (some m) line (g.writeContent m (g.contentOn line)) (some m)
  /-- A line without leader ends a block that has no closer; it is code. -/
  | ended {m line : Text} (hcloser : g.closer = none) (hleads : g.leads line = false) :
      Relaid (some m) line line none
  /-- A block is closed. -/
  | closed {m line : Text} (h : g.closes line = true) :
      Relaid (some m) line (g.writeCloser m (Text.endsWithChar '\r' line)) none

variable {g}

/-- Each line leaves the pass no choice. -/
theorem Relaid.relayStep_eq {m m' : Option Text} {line w : Text} (h : g.Relaid m line w m') :
    g.relayStep m line = (w, m') := by
  cases h with
  | code h => rw [relayStep, h, if_neg Bool.false_ne_true]
  | first h => rw [relayStep, if_pos h]
  | content hleads hstays =>
    rw [relayStep, hstays, if_neg Bool.false_ne_true]
    cases hcloser : g.closer with
    | none => rw [if_pos Option.isNone_none, if_pos (hleads hcloser)]
    | some token => rw [if_neg (by simp)]
  | ended hcloser hleads =>
    rw [relayStep, hcloser, if_pos Option.isNone_none, hleads, if_neg Bool.false_ne_true]
  | closed h =>
    obtain ⟨token, hcloser, -⟩ := closes_eq_true_iff.1 h
    rw [relayStep, if_pos h, hcloser, if_neg (by simp)]

/-- The pass takes one of these steps. -/
theorem relaid_relayStep (g : Grammar) (m : Option Text) (line : Text) :
    g.Relaid m line (g.relayStep m line).1 (g.relayStep m line).2 := by
  cases m with
  | none =>
    by_cases h : g.opens line = true
    · rw [relayStep, if_pos h]; exact .first h
    · rw [relayStep, if_neg h]; exact .code (Bool.eq_false_iff.2 h)
  | some m =>
    cases hcloser : g.closer with
    | none =>
      rw [relayStep, hcloser, if_pos Option.isNone_none]
      by_cases h : g.leads line = true
      · rw [if_pos h]
        exact .content (fun _ => h) (closes_eq_false_of_closer hcloser line)
      · rw [if_neg h]; exact .ended hcloser (Bool.eq_false_iff.2 h)
    | some token =>
      rw [relayStep, hcloser, if_neg (by simp)]
      by_cases h : g.closes line = true
      · rw [if_pos h]; exact .closed h
      · rw [if_neg h]
        exact .content (fun hnone => by rw [hcloser] at hnone; cases hnone) (Bool.eq_false_iff.2 h)

theorem Relaid.relay_cons {m m' : Option Text} {line w : Text} (h : g.Relaid m line w m')
    (rest : List Text) : g.relay m (line :: rest) = w :: g.relay m' rest := by
  rw [relay, h.relayStep_eq]

end Grammar

/-! ## The pass writes the document -/

namespace BlockLines

/-- The line that the opener line of a block is written as, where there is one. -/
def writtenOpener (g : Grammar) (s : BlockLines) : List Text :=
  if g.openerAlone then
    [g.writeOpener (s.margin g) (s.opener.any (Text.endsWithChar '\r'))] else []

/-- The lines that the content lines of a block are written as. -/
def writtenContent (g : Grammar) (s : BlockLines) : List Text :=
  s.content.map fun line => g.writeContent (s.margin g) (g.contentOn line)

/-- The closing line that a block is written with, where there are such lines. -/
def writtenCloser (g : Grammar) (s : BlockLines) : List Text :=
  if g.closer.isSome then
    [g.writeCloser (s.margin g) (s.closer.any (Text.endsWithChar '\r'))] else []

/-- The lines that a block with nothing to close it yet is written as. -/
def writtenOpen (g : Grammar) (s : BlockLines) : List Text :=
  s.writtenOpener g ++ s.writtenContent g

/-- The lines a block is written as, by the lines it was read from. -/
theorem written_read (g : Grammar) (s : BlockLines) :
    (s.read g).written = s.writtenOpener g ++ s.writtenContent g ++ s.writtenCloser g := by
  have hcontent : (s.content.map g.contentOn).map (g.writeContent (s.margin g))
      = s.writtenContent g := List.map_map
  rw [← hcontent]
  rfl

/-- A block that is not closed gets a closing line. -/
theorem written_read_of_open {g : Grammar} {s : BlockLines} (h : s.closer = none) :
    (s.read g).written = s.writtenOpen g ++ g.addedCloser (s.margin g) := by
  rw [written_read, writtenCloser, h]
  rfl

/-- A block that is closed keeps its closing line. -/
theorem written_read_withCloser {g : Grammar} {s : BlockLines} {line : Text}
    (h : g.closes line = true) :
    ((s.withCloser line).read g).written
      = s.writtenOpen g ++ [g.writeCloser (s.margin g) (Text.endsWithChar '\r' line)] := by
  obtain ⟨token, hcloser, -⟩ := Grammar.closes_eq_true_iff.1 h
  rw [written_read, writtenCloser, hcloser, if_pos Option.isSome_some]
  rfl

theorem margin_blockStart (g : Grammar) (line : Text) :
    (g.blockStart line).margin g = g.blockMargin line := by
  unfold Grammar.blockStart margin
  split <;> rfl

theorem writtenOpen_blockStart (g : Grammar) (line : Text) :
    (g.blockStart line).writtenOpen g = [g.writeFirst line] := by
  unfold writtenOpen writtenOpener writtenContent
  rw [margin_blockStart]
  unfold Grammar.blockStart Grammar.writeFirst
  cases g.openerAlone <;> rfl

/-- A content line is written behind the lines before it. -/
theorem writtenOpen_withContent {g : Grammar} {s : BlockLines} (hs : s.Fits g) (line : Text) :
    (s.withContent line).writtenOpen g
      = s.writtenOpen g ++ [g.writeContent (s.margin g) (g.contentOn line)] := by
  unfold writtenOpen writtenOpener writtenContent
  rw [margin_withContent hs]
  simp [withContent]

end BlockLines

namespace Stretch

/-- The lines that the segment of a stretch is written as. -/
def written (g : Grammar) (x : Stretch) : List Text := (x.segment g).written

end Stretch

namespace LineReader

/-- The margin of the block in which a reader stands. -/
def margin? (g : Grammar) : LineReader → Option Text
  | inBlock s => some (s.margin g)
  | _ => none

theorem margin?_blockStart (g : Grammar) (line : Text) :
    (inBlock (g.blockStart line)).margin? g = some (g.blockMargin line) :=
  congrArg some (BlockLines.margin_blockStart g line)

theorem margin?_withContent {g : Grammar} {s : BlockLines} (hs : s.Fits g) (line : Text) :
    (inBlock (s.withContent line)).margin? g = some (s.margin g) :=
  congrArg some (BlockLines.margin_withContent hs line)

/-- The lines that the stretch begun is written as so far. -/
def written (g : Grammar) : LineReader → List Text
  | between => []
  | inCode ls => ls
  | inBlock s => s.writtenOpen g

variable {g : Grammar} {reader reader' : LineReader} {line : Text} {out : List Stretch}

/-- **The pass makes the steps of the reader**, and writes what the stretches are
written as. -/
theorem Step.relaid (h : Step g reader line out reader') (hfits : reader.Fits g) :
    ∃ w, g.Relaid (reader.margin? g) line w (reader'.margin? g) ∧
      out.flatMap (Stretch.written g) ++ reader'.written g = reader.written g ++ [w] := by
  cases h with
  | firstCode h => exact ⟨line, .code h, rfl⟩
  | moreCode h => exact ⟨line, .code h, rfl⟩
  | opened h =>
    rw [margin?_blockStart]
    exact ⟨g.writeFirst line, .first h, BlockLines.writtenOpen_blockStart g line⟩
  | openedAfterCode h =>
    rw [margin?_blockStart]
    refine ⟨g.writeFirst line, .first h, ?_⟩
    show (_ ++ []) ++ (g.blockStart line).writtenOpen g = _
    rw [BlockLines.writtenOpen_blockStart, List.append_nil]
    rfl
  | content hleads hstays =>
    rw [margin?_withContent hfits.1]
    exact ⟨_, .content hleads hstays, BlockLines.writtenOpen_withContent hfits.1 line⟩
  | ended hcloser hleads =>
    refine ⟨line, .ended hcloser hleads, ?_⟩
    rw [List.flatMap_singleton]
    show (BlockLines.read g _).written ++ [line] = _
    rw [BlockLines.written_read_of_open hfits.2, Grammar.addedCloser, hcloser]
    simp [written]
  | closed h =>
    refine ⟨_, .closed h, ?_⟩
    rw [List.flatMap_singleton]
    show (BlockLines.read g _).written ++ [] = _
    rw [BlockLines.written_read_withCloser h, List.append_nil]
    rfl

end LineReader

namespace Document

variable {g : Grammar}

/-- What the stretches are written as is what the pass writes. -/
theorem flatMap_written_stretchesFrom (reader : LineReader) {ls : List Text} (hfits : reader.Fits g)
    (hbare : ∀ line ∈ ls, '\n' ∉ line) :
    (stretchesFrom g reader ls).flatMap (Stretch.written g)
      = reader.written g ++ g.relay (reader.margin? g) ls := by
  induction ls generalizing reader with
  | nil =>
    cases reader with
    | between => rfl
    | inCode ls => rfl
    | inBlock s =>
      show (s.read g).written ++ [] = _
      rw [BlockLines.written_read_of_open hfits.2, List.append_nil]
      rfl
  | cons line ls ih =>
    -- the line written joins the lines written of the stretch begun, or of the next one
    have hstep := reader.step_spec g line
    obtain ⟨w, hrelaid, hwritten⟩ := hstep.relaid hfits
    have hfits' := (hstep.fits hfits (hbare line List.mem_cons_self)).2
    rw [stretchesFrom, List.flatMap_append,
      ih _ hfits' (fun l m => hbare l (List.mem_cons_of_mem _ m)), ← List.append_assoc, hwritten,
      hrelaid.relay_cons, List.append_assoc]
    rfl

theorem flatMap_written_stretches (g : Grammar) (t : Text) :
    (stretches g t).flatMap (Stretch.written g) = g.relay none (Text.bareLines t) :=
  flatMap_written_stretchesFrom .between trivial fun _ => Text.notMem_of_mem_bareLines

/-- **Rendering what was read is one pass over its lines.** -/
theorem render_ofText (g : Grammar) (t : Text) :
    (ofText g t).render
      = Text.ofLines (g.relay none (Text.bareLines t)) (Text.lacksNewline t) := by
  rw [render_eq_ofLines, ofText_segments, List.flatMap_map, ← flatMap_written_stretches]
  rfl

end Document

end LicenseHeader
