import LicenseHeader.Proofs.EarlyClose
import LicenseHeader.Proofs.RoundTrip

/-!
# The structure of a rendered document

Reading a rendered document should give back its structure: its *outline*
(`Document.outline`), that is segments of the same kinds in the same order, with
the same code and the same comment bodies. The outline leaves out all that
layout decides, such as margins, gaps and carriage returns.

It does, exactly if no content line closes the block it is written in
(`BlockLines.StaysOpen`). If none does, the stretches of the rendered text are
those of the text, each line replaced by the line it is written as
(`Document.stretches_render`). If one does, that line is no content line of the
rendered text, but equal outlines would make it one: equal bodies have equally
many lines, so the two readings would be cut at the same places.

Only the content `/` behind a star does it, and
`Document.outline_render_eq_iff_slash` says so for every language.
-/

namespace LicenseHeader

/-! ## Outlines -/

/-- **What a segment holds**, apart from its layout. -/
inductive Outline where
  /-- A comment block and its body. -/
  | comment (body : List Text)
  /-- A run of code and its lines. -/
  | code (lines : List Text)
deriving DecidableEq, Repr

/-- What a segment holds. -/
def Segment.outline : Segment → Outline
  | comment b => .comment b.body
  | code r => .code r.lines

/-- **The structure of a document**: what its segments hold, in order. -/
def Document.outline (d : Document) : List Outline := d.segments.map Segment.outline

/-- What the segment of a stretch holds. -/
def Stretch.outline (g : Grammar) (x : Stretch) : Outline := (x.segment g).outline

theorem Document.outline_ofText (g : Grammar) (t : Text) :
    (ofText g t).outline = (stretches g t).map (Stretch.outline g) := by
  unfold Document.outline
  rw [ofText_segments, List.map_map]
  rfl

theorem BlockLines.length_content_eq {g : Grammar} {s s' : BlockLines}
    (h : (s.read g).body = (s'.read g).body) : s.content.length = s'.content.length := by
  have hlength := congrArg List.length h
  unfold CommentBlock.body BlockLines.read at hlength
  simpa using hlength

/-! ## Lines replaced by what they are written as -/

namespace BlockLines

variable (g : Grammar) (s : BlockLines)

/-- The lines of a block with nothing to close it yet, as they are written. -/
def relaidOpen : BlockLines where
  opener := s.opener.map fun line => g.writeOpener (s.margin g) (Text.endsWithChar '\r' line)
  content := s.writtenContent g

/-- **The lines of a block as they are written.** -/
def relaid : BlockLines :=
  { s.relaidOpen g with
    closer := if g.closer.isSome then
        some (g.writeCloser (s.margin g) (s.closer.any (Text.endsWithChar '\r'))) else none }

/-- **Written anew, the block goes on as long as it did**: no content line closes it. -/
def StaysOpen : Prop :=
  ∀ line ∈ s.content, g.closes (g.writeContent (s.margin g) (g.contentOn line)) = false

variable {g s}

theorem relaidOpen_blockStart (g : Grammar) (line : Text) :
    (g.blockStart line).relaidOpen g = g.blockStart (g.writeFirst line) := by
  unfold relaidOpen writtenContent
  rw [margin_blockStart]
  unfold Grammar.blockStart Grammar.writeFirst
  cases g.openerAlone <;> rfl

theorem relaidOpen_withContent (hs : s.Fits g) (line : Text) :
    (s.withContent line).relaidOpen g
      = (s.relaidOpen g).withContent (g.writeContent (s.margin g) (g.contentOn line)) := by
  unfold relaidOpen writtenContent
  rw [margin_withContent hs]
  simp [withContent]

theorem relaid_of_closer_eq_none (hcloser : g.closer = none) : s.relaid g = s.relaidOpen g := by
  unfold relaid
  rw [hcloser]
  rfl

theorem relaid_withCloser {line : Text} (hcloses : g.closes line = true) :
    (s.withCloser line).relaid g
      = (s.relaidOpen g).withCloser (g.writeCloser (s.margin g) (Text.endsWithChar '\r' line)) := by
  obtain ⟨token, hcloser, -⟩ := Grammar.closes_eq_true_iff.1 hcloses
  unfold relaid
  rw [hcloser]
  rfl

/-- A block that was not closed is written with a closing line. -/
theorem relaid_of_open {token : Text} (hcloser : g.closer = some token) (hopen : s.closer = none) :
    s.relaid g = (s.relaidOpen g).withCloser (g.writeCloser (s.margin g) false) := by
  unfold relaid
  rw [hcloser, hopen]
  rfl

/-- **Writing keeps the body of a block.** -/
theorem body_read_relaid (hg : g.Tidy) (hs : s.Fits g) :
    ((s.relaid g).read g).body = (s.read g).body := by
  show List.map _ (List.map g.contentOn (s.content.map _)) = List.map _ (s.content.map g.contentOn)
  rw [List.map_map, List.map_map, List.map_map]
  refine List.map_congr_left fun line hline => ?_
  have hcontent := hg.notMem_contentOn (hs.bare_of_mem_content hline)
  show Text.trimUpTo (if g.leader.isSome then g.indent.afterLeader else 0)
      (g.contentOn (g.writeContent (s.margin g) (g.contentOn line)))
    = Text.trimUpTo (if g.leader.isSome then g.indent.afterLeader else 0) (g.contentOn line)
  cases hleader : g.leader with
  | none =>
    rw [Grammar.Tidy.contentOn_of_leader_eq_none hleader,
      Grammar.Tidy.contentOn_of_leader_eq_none hleader, hg.writeContent_of_leader_eq_none hleader]
  | some token =>
    rw [hg.contentOn_writeContent hleader (hs.isMargin_margin hg) hcontent,
      if_pos Option.isSome_some, CommentBlock.trimUpTo_gapped]

end BlockLines

namespace Stretch

/-- The lines of a stretch as they are written. -/
def relaid (g : Grammar) : Stretch → Stretch
  | block s => block (s.relaid g)
  | code ls => code ls

/-- Writing keeps what a segment holds. -/
theorem outline_relaid {g : Grammar} (hg : g.Tidy) {x : Stretch} (hx : x.Fits g) :
    (x.relaid g).outline g = x.outline g := by
  cases x with
  | block s => exact congrArg Outline.comment (BlockLines.body_read_relaid hg hx)
  | code ls => rfl

end Stretch

/-! ## The reader of the written lines -/

namespace LineReader

/-- Where the reader of the written lines stands. -/
def relaid (g : Grammar) : LineReader → LineReader
  | between => between
  | inCode ls => inCode ls
  | inBlock s => inBlock (s.relaidOpen g)

/-- The block that has begun goes on when it is written anew. -/
def StaysOpen (g : Grammar) : LineReader → Prop
  | inBlock s => s.StaysOpen g
  | _ => True

variable {g : Grammar} {reader reader' : LineReader} {line : Text} {out : List Stretch}

/-- **One line**: the reader of the written lines takes the step that the reader of
the lines took. -/
theorem Step.relaid_step (h : Step g reader line out reader') (hg : g.Tidy) (hfits : reader.Fits g)
    (hbare : '\n' ∉ line) (hstays : reader'.StaysOpen g) :
    ∃ w, g.Relaid (reader.margin? g) line w (reader'.margin? g) ∧
      Step g (reader.relaid g) w (out.map (Stretch.relaid g)) (reader'.relaid g) := by
  cases h with
  | firstCode hopens => exact ⟨line, .code hopens, .firstCode hopens⟩
  | moreCode hopens => exact ⟨line, .code hopens, .moreCode hopens⟩
  | opened hopens =>
    rw [margin?_blockStart]
    refine ⟨g.writeFirst line, .first hopens, ?_⟩
    show Step g between _ [] (inBlock ((g.blockStart line).relaidOpen g))
    rw [BlockLines.relaidOpen_blockStart]
    exact .opened (hg.opens_writeFirst hopens hbare)
  | openedAfterCode hopens =>
    rw [margin?_blockStart]
    refine ⟨g.writeFirst line, .first hopens, ?_⟩
    show Step g (inCode _) _ [.code _] (inBlock ((g.blockStart line).relaidOpen g))
    rw [BlockLines.relaidOpen_blockStart]
    exact .openedAfterCode (hg.opens_writeFirst hopens hbare)
  | @content s _ hleads hcloses =>
    have hm := hfits.1.isMargin_margin hg
    rw [margin?_withContent hfits.1]
    refine ⟨_, .content hleads hcloses, ?_⟩
    show Step g (inBlock (s.relaidOpen g)) _ [] (inBlock ((s.withContent line).relaidOpen g))
    rw [BlockLines.relaidOpen_withContent hfits.1]
    refine .content (fun hcloser => ?_) ?_
    · obtain ⟨token, hleader⟩ := Grammar.exists_leader_of_leads (hleads hcloser)
      exact hg.leads_writeContent hleader hm (hg.notMem_contentOn hbare)
    · have hlast := hstays line (List.mem_append_right _ List.mem_cons_self)
      rwa [BlockLines.margin_withContent hfits.1] at hlast
  | @ended s _ hcloser hleads =>
    refine ⟨line, .ended hcloser hleads, ?_⟩
    show Step g (inBlock (s.relaidOpen g)) line [.block (s.relaid g)] (inCode [line])
    rw [BlockLines.relaid_of_closer_eq_none hcloser]
    exact .ended hcloser hleads
  | @closed s _ hcloses =>
    obtain ⟨token, hcloser, -⟩ := Grammar.closes_eq_true_iff.1 hcloses
    refine ⟨_, .closed hcloses, ?_⟩
    show Step g (inBlock (s.relaidOpen g)) _ [.block ((s.withCloser line).relaid g)] between
    rw [BlockLines.relaid_withCloser hcloses]
    exact .closed (Grammar.Tidy.closes_writeCloser hcloser _ _)

end LineReader

namespace Document

variable {g : Grammar}

/-- A block that has begun goes on in one of the stretches. -/
theorem exists_block_mem_stretchesFrom {s : BlockLines} {ls : List Text}
    (hfits : (LineReader.inBlock s).Fits g) (hbare : ∀ line ∈ ls, '\n' ∉ line) :
    ∃ s', Stretch.block s' ∈ stretchesFrom g (.inBlock s) ls ∧ s'.margin g = s.margin g ∧
      ∀ line ∈ s.content, line ∈ s'.content := by
  induction ls generalizing s with
  | nil => exact ⟨s, List.mem_singleton_self _, rfl, fun _ h => h⟩
  | cons line ls ih =>
    have hstep := (LineReader.inBlock s).step_spec g line
    have hfits' := (hstep.fits hfits (hbare line List.mem_cons_self)).2
    rw [stretchesFrom]
    generalize ((LineReader.inBlock s).step g line).1 = out at hstep ⊢
    generalize ((LineReader.inBlock s).step g line).2 = reader' at hstep hfits' ⊢
    cases hstep with
    | content _ _ =>
      obtain ⟨s', hmem, hmargin, hcontent⟩ :=
        ih hfits' (fun l hl => hbare l (List.mem_cons_of_mem _ hl))
      refine ⟨s', hmem, hmargin.trans (BlockLines.margin_withContent hfits.1 line), fun l hl => ?_⟩
      exact hcontent l (List.mem_append_left _ hl)
    | ended _ _ => exact ⟨s, List.mem_cons_self, rfl, fun _ h => h⟩
    | closed _ => exact ⟨s.withCloser line, List.mem_cons_self, rfl, fun _ h => h⟩

/-- Where every block stays open, the one that has begun does. -/
theorem staysOpen_of_stretchesFrom {reader : LineReader} {ls : List Text} (hfits : reader.Fits g)
    (hbare : ∀ line ∈ ls, '\n' ∉ line)
    (hstays : ∀ s, Stretch.block s ∈ stretchesFrom g reader ls → s.StaysOpen g) :
    reader.StaysOpen g := by
  cases reader with
  | between => trivial
  | inCode _ => trivial
  | inBlock s =>
    obtain ⟨s', hmem, hmargin, hcontent⟩ := exists_block_mem_stretchesFrom hfits hbare
    intro line hline
    rw [← hmargin]
    exact hstays s' hmem line (hcontent line hline)

/-- **The stretches of the written lines** are the stretches of the lines, each line
replaced by what it is written as. -/
theorem stretchesFrom_relay (hg : g.Tidy) (reader : LineReader) {ls : List Text}
    (hfits : reader.Fits g) (hbare : ∀ line ∈ ls, '\n' ∉ line)
    (hstays : ∀ s, Stretch.block s ∈ stretchesFrom g reader ls → s.StaysOpen g) :
    stretchesFrom g (reader.relaid g) (g.relay (reader.margin? g) ls)
      = (stretchesFrom g reader ls).map (Stretch.relaid g) := by
  induction ls generalizing reader with
  | nil =>
    cases reader with
    | between => rfl
    | inCode _ => rfl
    | inBlock s =>
      -- a block left open at the end is closed by the line that the pass adds
      show stretchesFrom g (.inBlock (s.relaidOpen g)) (g.addedCloser (s.margin g))
        = [.block (s.relaid g)]
      unfold Grammar.addedCloser
      cases hcloser : g.closer with
      | none =>
        rw [BlockLines.relaid_of_closer_eq_none hcloser]
        rfl
      | some token =>
        have hclosed := LineReader.Step.closed (s := s.relaidOpen g)
          (Grammar.Tidy.closes_writeCloser hcloser (s.margin g) false)
        rw [if_pos Option.isSome_some, hclosed.stretchesFrom_cons,
          BlockLines.relaid_of_open hcloser hfits.2]
        rfl
  | cons line ls ih =>
    have hline := hbare line List.mem_cons_self
    have hrest : ∀ l ∈ ls, '\n' ∉ l := fun l hl => hbare l (List.mem_cons_of_mem _ hl)
    have hstep := reader.step_spec g line
    have hfits' := (hstep.fits hfits hline).2
    rw [stretchesFrom] at hstays ⊢
    have hstays' := fun s hs => hstays s (List.mem_append_right _ hs)
    obtain ⟨w, hrelaid, hwritten⟩ := hstep.relaid_step hg hfits hline
      (staysOpen_of_stretchesFrom hfits' hrest hstays')
    rw [hrelaid.relay_cons, hwritten.stretchesFrom_cons, ih _ hfits' hrest hstays', List.map_append]

/-- **The stretches of a rendered text.** -/
theorem stretches_render (hg : g.Tidy) {t : Text}
    (hstays : ∀ s, Stretch.block s ∈ stretches g t → s.StaysOpen g) :
    stretches g (ofText g t).render = (stretches g t).map (Stretch.relaid g) := by
  unfold stretches
  rw [bareLines_render hg]
  exact stretchesFrom_relay hg .between trivial (fun _ => Text.notMem_of_mem_bareLines) hstays

end Document

/-! ## Equal outlines -/

namespace BlockLines

variable {g : Grammar} {s s' : BlockLines}

/-- **A block stays open where its lines are read as a block with its body.** -/
theorem staysOpen_of_written_eq (hs' : s'.Fits g)
    (hbody : (s.read g).body = (s'.read g).body) (hall : (s.read g).written = s'.all) :
    s.StaysOpen g := by
  obtain ⟨-, hcontent, -⟩ := (written_read_eq_iff hs' (length_content_eq hbody)).1 hall
  intro line hline
  refine hs'.stays _ ?_
  rw [← hcontent]
  exact List.mem_map_of_mem hline

end BlockLines

namespace Stretch

variable {g : Grammar} {x y : Stretch}

/-- A stretch has no more lines than one with its outline is written as. -/
theorem length_lines_le_of_outline_eq (hy : y.Fits g) (h : x.outline g = y.outline g) :
    y.lines.length ≤ (x.written g).length := by
  cases x with
  | block s =>
    cases y with
    | block s' =>
      exact BlockLines.length_all_le hy (BlockLines.length_content_eq (Outline.comment.inj h))
    | code _ => cases h
  | code ls =>
    cases y with
    | block _ => cases h
    | code ls' => exact Nat.le_of_eq (congrArg List.length (Outline.code.inj h)).symm

end Stretch

namespace Document

variable {g : Grammar}

/-- **Reading a rendered document gives back its structure if and only if every block
stays open.** -/
theorem outline_render_eq_iff (hg : g.Tidy) (t : Text) :
    (ofText g (ofText g t).render).outline = (ofText g t).outline ↔
      ∀ s, Stretch.block s ∈ stretches g t → s.StaysOpen g := by
  rw [outline_ofText, outline_ofText]
  constructor
  · intro h s hs
    -- one list of lines, cut once into what the stretches of the text are written as
    -- and once into the stretches of the rendered text
    have hlines : (stretches g t).flatMap (Stretch.written g)
        = (stretches g (ofText g t).render).flatMap Stretch.lines := by
      rw [flatMap_written_stretches, flatMap_lines_stretches, bareLines_render hg]
    have hparts := map_eq_map_of_flatMap_eq h.symm
      (fun x _ y hy houtline =>
        Stretch.length_lines_le_of_outline_eq (fits_of_mem_stretches hy) houtline) hlines
    -- the stretch that the block is read as
    have hmem := List.mem_map_of_mem (f := fun x => (x.outline g, x.written g)) hs
    rw [hparts] at hmem
    obtain ⟨y, hy, heq⟩ := List.mem_map.1 hmem
    obtain ⟨houtline, hwritten⟩ := Prod.mk.inj heq
    cases y with
    | code _ => cases houtline
    | block s' =>
      exact BlockLines.staysOpen_of_written_eq (fits_of_mem_stretches hy)
        (Outline.comment.inj houtline).symm hwritten.symm
  · intro hstays
    rw [stretches_render hg hstays, List.map_map]
    refine List.map_congr_left fun x hx => ?_
    exact Stretch.outline_relaid hg (fits_of_mem_stretches hx)

end Document

/-- The blocks that stay open: those without the content `/` behind a star. -/
theorem Language.staysOpen_iff (l : Language) {s : BlockLines} (hs : s.Fits l.grammar) :
    s.StaysOpen l.grammar ↔ (l.grammar = starred → ['/'] ∉ (s.read l.grammar).lines) := by
  have hm := hs.isMargin_margin l.tidy
  have hline : ∀ line ∈ s.content,
      l.grammar.closes (l.grammar.writeContent (s.margin l.grammar) (l.grammar.contentOn line))
          = false ↔ ¬ (l.grammar = starred ∧ l.grammar.contentOn line = ['/']) := by
    intro line hmem
    rw [Bool.eq_false_iff, Ne, l.closes_writeContent_contentOn_iff hm (hs.stays line hmem)]
  show (∀ line ∈ s.content, _) ↔ (_ → ['/'] ∉ s.content.map l.grammar.contentOn)
  constructor
  · intro h hstarred hslash
    obtain ⟨line, hmem, hcontent⟩ := List.mem_map.1 hslash
    exact (hline line hmem).1 (h line hmem) ⟨hstarred, hcontent⟩
  · intro h line hmem
    refine (hline line hmem).2 fun ⟨hstarred, hcontent⟩ => h hstarred ?_
    exact hcontent ▸ List.mem_map_of_mem hmem

namespace Document

/-- **The structure of a rendered document.** In every language, reading a rendered
document gives back segments of the same kinds in the same order, with the same
code and the same bodies, if and only if its comments are not the starred ones or
no block has a line whose content is a lone slash. -/
theorem outline_render_eq_iff_slash (l : Language) (t : Text) :
    (ofText l.grammar (ofText l.grammar t).render).outline = (ofText l.grammar t).outline ↔
      (l.grammar = Language.starred →
        ∀ b, Segment.comment b ∈ (ofText l.grammar t).segments → ['/'] ∉ b.lines) := by
  rw [outline_render_eq_iff l.tidy, ofText_segments]
  constructor
  · intro h hstarred b hb
    obtain ⟨x, hx, hsegment⟩ := List.mem_map.1 hb
    cases x with
    | code _ => cases hsegment
    | block s =>
      rw [← Segment.comment.inj hsegment]
      exact (l.staysOpen_iff (fits_of_mem_stretches hx)).1 (h s hx) hstarred
  · intro h s hs
    refine (l.staysOpen_iff (fits_of_mem_stretches hs)).2 fun hstarred => ?_
    exact h hstarred _ (List.mem_map_of_mem hs)

/-- A lone slash ends the comment in which it is written. -/
example : (ofText Language.java.grammar "/*\n/\n * foo\n */\n".toList).outline
      = [.comment ["/".toList, "foo".toList]] ∧
    (ofText Language.java.grammar
        (ofText Language.java.grammar "/*\n/\n * foo\n */\n".toList).render).outline
      = [.comment [], .code [" * foo".toList, " */".toList]] := by decide

end Document

end LicenseHeader
