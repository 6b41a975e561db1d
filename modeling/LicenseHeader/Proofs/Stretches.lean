import LicenseHeader.Proofs.Lines
import LicenseHeader.Proofs.Tokens

/-!
# The lines a document was read from

A document keeps of a comment block what is needed to write it, not the lines it
stood on. To compare the two, this module reads a text once more and keeps the
lines: a *stretch* (`Stretch`) is the run of lines that becomes one segment, and
for a comment block it says which of them is the opener, which are content and
which is the closer (`BlockLines`).

Three facts tie the stretches to the document, for every grammar and every text.
Put one after another they are the lines of the text (`flatMap_lines_stretches`).
Each one makes one segment, and these are the segments of the document in order
(`ofText_segments`). And each fits the grammar (`fits_of_mem_stretches`): the
opener opens, the closer closes, no content line closes, and without a closer
every content line has the leader.

What one line can do to a reader is said once, in `LineReader.Step`; every statement
about whole texts is a statement about such a step and an induction.
-/

namespace LicenseHeader

/-- **The lines of a comment block**, by what they are in it. -/
structure BlockLines where
  /-- The line with the lone opener. -/
  opener : Option Text := none
  /-- The content lines, leader and all. -/
  content : List Text := []
  /-- The line that closes the block. -/
  closer : Option Text := none
deriving DecidableEq, Repr

namespace Grammar

/-- The content of a line inside a block: what stands behind the leader, or the
whole line if it has none. -/
def contentOn (g : Grammar) (line : Text) : Text :=
  match g.leaderRest? line with
  | some (_, rest) => CommentBlock.contentOf g rest
  | none => line

/-- The margin that a block takes from its first line. -/
def blockMargin (g : Grammar) (line : Text) : Text :=
  (if g.openerAlone then g.openerMargin? line else (g.leaderRest? line).map Prod.fst).getD []

/-- The lines of a block of which only the first is read. -/
def blockStart (g : Grammar) (line : Text) : BlockLines :=
  if g.openerAlone then { opener := some line } else { content := [line] }

end Grammar

namespace BlockLines

/-- All lines of the block in order. -/
def all (s : BlockLines) : List Text := s.opener.toList ++ s.content ++ s.closer.toList

/-- The margin of the block: the one of its first line. -/
def margin (g : Grammar) (s : BlockLines) : Text :=
  (s.opener.or s.content.head?).elim [] g.blockMargin

/-- **The comment block that the lines make.** -/
def read (g : Grammar) (s : BlockLines) : CommentBlock where
  grammar := g
  margin := s.margin g
  opened := true
  closed := s.closer.isSome
  openerReturn := s.opener.any (Text.endsWithChar '\r')
  closerReturn := s.closer.any (Text.endsWithChar '\r')
  lines := s.content.map g.contentOn

/-- The block with one more content line. -/
def withContent (s : BlockLines) (line : Text) : BlockLines :=
  { s with content := s.content ++ [line] }

/-- The block with its closing line. -/
def withCloser (s : BlockLines) (line : Text) : BlockLines := { s with closer := some line }

/-- **The lines make one block of the grammar.** -/
structure Fits (g : Grammar) (s : BlockLines) : Prop where
  /-- The grammar has comments. -/
  hasComments : g.hasComments = true
  /-- There is an opener line if the grammar has such lines. -/
  opener_isSome : s.opener.isSome = g.openerAlone
  /-- The opener line opens a block. -/
  opens : ∀ line ∈ s.opener, g.opens line = true
  /-- Without an opener line there is content. -/
  content_ne : g.openerAlone = false → s.content ≠ []
  /-- Without a closer every content line has the leader. -/
  leads : g.closer = none → ∀ line ∈ s.content, g.leads line = true
  /-- No content line closes the block. -/
  stays : ∀ line ∈ s.content, g.closes line = false
  /-- The closer line does. -/
  closes : ∀ line ∈ s.closer, g.closes line = true
  /-- No line holds a newline. -/
  bare : ∀ line ∈ s.all, '\n' ∉ line

end BlockLines

/-- **The lines of one segment.** -/
inductive Stretch where
  | block (s : BlockLines)
  | code (lines : List Text)
deriving DecidableEq, Repr

namespace Stretch

/-- The lines in order. -/
def lines : Stretch → List Text
  | block s => s.all
  | code ls => ls

/-- The segment the lines make. -/
def segment (g : Grammar) : Stretch → Segment
  | block s => .comment (s.read g)
  | code ls => .code { lines := ls }

/-- The lines make a segment of the grammar. -/
def Fits (g : Grammar) : Stretch → Prop
  | block s => s.Fits g
  | code ls => ls ≠ [] ∧ ∀ line ∈ ls, '\n' ∉ line

end Stretch

/-! ## Reading -/

/-- A reader that keeps the lines, by where it stands. -/
inductive LineReader where
  /-- Between segments. -/
  | between
  /-- In a run of code. -/
  | inCode (lines : List Text)
  /-- In a comment block. -/
  | inBlock (s : BlockLines)

namespace LineReader

/-- The stretch that ends where the reader stands. -/
def leave : LineReader → List Stretch
  | between => []
  | inCode ls => [.code ls]
  | inBlock s => [.block s]

/-- The lines of the stretch that has begun. -/
def lines : LineReader → List Text
  | between => []
  | inCode ls => ls
  | inBlock s => s.all

/-- The place of a reader that does not keep the lines. -/
def place (g : Grammar) : LineReader → Place
  | between => .between
  | inCode ls => .inCode { lines := ls }
  | inBlock s => .inComment (s.read g)

/-- The stretch that has begun fits the grammar so far. -/
def Fits (g : Grammar) : LineReader → Prop
  | between => True
  | inCode ls => (Stretch.code ls).Fits g
  | inBlock s => s.Fits g ∧ s.closer = none

/-- What a line does to the reader: the stretch that it ends, and where the reader
stands after it. -/
def step (g : Grammar) : LineReader → Text → List Stretch × LineReader
  | between, line =>
    if g.opens line then ([], inBlock (g.blockStart line)) else ([], inCode [line])
  | inCode ls, line =>
    if g.opens line then ([.code ls], inBlock (g.blockStart line))
    else ([], inCode (ls ++ [line]))
  | inBlock s, line =>
    if g.closer.isNone then
      if g.leads line then ([], inBlock (s.withContent line)) else ([.block s], inCode [line])
    else if g.closes line then ([.block (s.withCloser line)], between)
    else ([], inBlock (s.withContent line))

/-- **All that a line can do to a reader.** -/
inductive Step (g : Grammar) : LineReader → Text → List Stretch → LineReader → Prop
  /-- Code begins. -/
  | firstCode {line : Text} (h : g.opens line = false) : Step g between line [] (inCode [line])
  /-- Code goes on. -/
  | moreCode {ls : List Text} {line : Text} (h : g.opens line = false) :
      Step g (inCode ls) line [] (inCode (ls ++ [line]))
  /-- A block begins. -/
  | opened {line : Text} (h : g.opens line = true) :
      Step g between line [] (inBlock (g.blockStart line))
  /-- A block ends the code before it. -/
  | openedAfterCode {ls : List Text} {line : Text} (h : g.opens line = true) :
      Step g (inCode ls) line [.code ls] (inBlock (g.blockStart line))
  /-- A block goes on. -/
  | content {s : BlockLines} {line : Text} (hleads : g.closer = none → g.leads line = true)
      (hstays : g.closes line = false) : Step g (inBlock s) line [] (inBlock (s.withContent line))
  /-- A line without leader ends a block that has no closer. -/
  | ended {s : BlockLines} {line : Text} (hcloser : g.closer = none)
      (hleads : g.leads line = false) : Step g (inBlock s) line [.block s] (inCode [line])
  /-- The closer ends a block. -/
  | closed {s : BlockLines} {line : Text} (h : g.closes line = true) :
      Step g (inBlock s) line [.block (s.withCloser line)] between

/-- The reader takes one of these steps. -/
theorem step_spec (g : Grammar) (reader : LineReader) (line : Text) :
    Step g reader line (reader.step g line).1 (reader.step g line).2 := by
  cases reader with
  | between =>
    by_cases h : g.opens line = true
    · rw [step, if_pos h]; exact .opened h
    · rw [step, if_neg h]; exact .firstCode (Bool.eq_false_iff.2 h)
  | inCode ls =>
    by_cases h : g.opens line = true
    · rw [step, if_pos h]; exact .openedAfterCode h
    · rw [step, if_neg h]; exact .moreCode (Bool.eq_false_iff.2 h)
  | inBlock s =>
    cases hcloser : g.closer with
    | none =>
      rw [step, hcloser, if_pos Option.isNone_none]
      by_cases h : g.leads line = true
      · rw [if_pos h]
        exact .content (fun _ => h) (Grammar.closes_eq_false_of_closer hcloser line)
      · rw [if_neg h]; exact .ended hcloser (Bool.eq_false_iff.2 h)
    | some token =>
      rw [step, hcloser, if_neg (by simp)]
      by_cases h : g.closes line = true
      · rw [if_pos h]; exact .closed h
      · rw [if_neg h]
        exact .content (fun hnone => by rw [hcloser] at hnone; cases hnone) (Bool.eq_false_iff.2 h)

/-- Each line leaves the reader no choice. -/
theorem Step.step_eq {g : Grammar} {reader reader' : LineReader} {line : Text} {out : List Stretch}
    (h : Step g reader line out reader') : reader.step g line = (out, reader') := by
  cases h with
  | firstCode h => rw [step, h, if_neg Bool.false_ne_true]
  | moreCode h => rw [step, h, if_neg Bool.false_ne_true]
  | opened h => rw [step, if_pos h]
  | openedAfterCode h => rw [step, if_pos h]
  | content hleads hstays =>
    rw [step, hstays, if_neg Bool.false_ne_true]
    cases hcloser : g.closer with
    | none => rw [if_pos Option.isNone_none, if_pos (hleads hcloser)]
    | some token => rw [if_neg (by simp)]
  | ended hcloser hleads =>
    rw [step, hcloser, if_pos Option.isNone_none, hleads, if_neg Bool.false_ne_true]
  | closed h =>
    obtain ⟨token, hcloser, -⟩ := Grammar.closes_eq_true_iff.1 h
    rw [step, if_pos h, hcloser, if_neg (by simp)]

end LineReader

namespace Document

/-- The stretches of `ls`, read under a grammar from where a reader stands. -/
def stretchesFrom (g : Grammar) : LineReader → List Text → List Stretch
  | reader, [] => reader.leave
  | reader, line :: rest => (reader.step g line).1 ++ stretchesFrom g (reader.step g line).2 rest

/-- **The stretches of a text**: the lines of its segments in order. -/
def stretches (g : Grammar) (t : Text) : List Stretch :=
  stretchesFrom g .between (Text.bareLines t)

end Document

theorem LineReader.Step.stretchesFrom_cons {g : Grammar} {reader reader' : LineReader}
    {line : Text} {out : List Stretch} (h : Step g reader line out reader') (rest : List Text) :
    Document.stretchesFrom g reader (line :: rest)
      = out ++ Document.stretchesFrom g reader' rest := by
  rw [Document.stretchesFrom, h.step_eq]

/-! ## No line is lost -/

namespace BlockLines

theorem all_withContent {s : BlockLines} (h : s.closer = none) (line : Text) :
    (s.withContent line).all = s.all ++ [line] := by
  unfold withContent all
  rw [h]
  simp

theorem all_withCloser {s : BlockLines} (h : s.closer = none) (line : Text) :
    (s.withCloser line).all = s.all ++ [line] := by
  unfold withCloser all
  rw [h]
  simp

end BlockLines

theorem Grammar.all_blockStart (g : Grammar) (line : Text) : (g.blockStart line).all = [line] := by
  unfold Grammar.blockStart
  split <;> rfl

namespace LineReader

variable {g : Grammar} {reader reader' : LineReader} {line : Text} {out : List Stretch}

/-- A line goes into the stretch that has begun or into the next one. -/
theorem Step.lines_eq (h : Step g reader line out reader') (hfits : reader.Fits g) :
    out.flatMap Stretch.lines ++ reader'.lines = reader.lines ++ [line] := by
  cases h with
  | firstCode _ => rfl
  | moreCode _ => rfl
  | opened _ => exact g.all_blockStart line
  | openedAfterCode _ =>
    show (_ ++ []) ++ (g.blockStart line).all = _
    rw [g.all_blockStart, List.append_nil]
    rfl
  | content _ _ => exact BlockLines.all_withContent hfits.2 line
  | ended _ _ => rw [List.flatMap_singleton]; rfl
  | closed _ =>
    rw [List.flatMap_singleton]
    show (BlockLines.withCloser _ line).all ++ [] = _
    rw [BlockLines.all_withCloser hfits.2, List.append_nil]
    rfl

end LineReader

/-! ## Every stretch fits -/

namespace Grammar

variable {g : Grammar} {line : Text}

theorem exists_opener_of_opens (h : g.opens line = true) : ∃ token, g.opener = some token := by
  unfold opens openerMargin? at h
  cases hopener : g.opener with
  | none => rw [hopener] at h; cases h
  | some token => exact ⟨token, rfl⟩

/-- A grammar in which some line opens a block has comments. -/
theorem hasComments_of_opens (h : g.opens line = true) : g.hasComments = true := by
  obtain ⟨token, hopener⟩ := exists_opener_of_opens h
  rw [hasComments, hopener]
  rfl

/-- **An opener that is not alone on its line stands on a line with the leader.**
The opener is itself a line with the leader, so whatever follows it is behind the
leader too. -/
theorem leads_of_opens (h : g.opens line = true) (halone : g.openerAlone = false)
    (hbare : '\n' ∉ line) : g.leads line = true := by
  obtain ⟨token, hopener⟩ := exists_opener_of_opens h
  -- not alone on its line, the opener is itself a line with the leader
  have htoken : g.leads token = true := by
    unfold openerAlone at halone
    rw [hopener, Option.any_some,
      closer_eq_none hopener (by rw [openerAlone, hopener]; exact halone)] at halone
    simpa using halone
  unfold opens openerMargin? at h
  rw [hopener, Option.bind_some, halone, if_neg Bool.false_ne_true, Option.isSome_map,
    isSome_marginThen?_iff] at h
  obtain ⟨m, rest, rfl, hm, hrest⟩ := h
  obtain ⟨tail, htail⟩ := Option.isSome_iff_exists.1 hrest
  obtain rfl := Text.after?_eq_some_iff.1 htail
  unfold leads leaderRest? at htoken ⊢
  cases hleader : g.leader with
  | none => rw [hleader] at htoken; cases htoken
  | some leader =>
    rw [hleader, Option.bind_some, isSome_marginThen?_iff] at htoken
    rw [Option.bind_some, isSome_marginThen?_iff]
    obtain ⟨m', inner, rfl, hm', hinner⟩ := htoken
    obtain ⟨behind, hbehind⟩ := Option.isSome_iff_exists.1 hinner
    obtain ⟨rfl, -⟩ := afterOnLine?_eq_some_iff.1 hbehind
    have hline : m ++ (m' ++ (leader ++ behind) ++ tail)
        = (m ++ m') ++ (leader ++ (behind ++ tail)) := by
      simp
    rw [hline] at hbare ⊢
    refine ⟨m ++ m', leader ++ (behind ++ tail), rfl, by rw [Text.isBlank_append, hm, hm']; rfl, ?_⟩
    refine Option.isSome_iff_exists.2 ⟨behind ++ tail, afterOnLine?_eq_some_iff.2 ⟨rfl, ?_⟩⟩
    exact fun hmem => hbare (List.mem_append_right _ (List.mem_append_right _ hmem))

theorem fits_blockStart (h : g.opens line = true) (hbare : '\n' ∉ line) :
    (g.blockStart line).Fits g := by
  have hall : ∀ l ∈ (g.blockStart line).all, '\n' ∉ l := by
    rw [g.all_blockStart]
    intro l hl
    rwa [List.mem_singleton.1 hl]
  cases halone : g.openerAlone with
  | true =>
    have hstart : g.blockStart line = { opener := some line } := if_pos halone
    rw [hstart] at hall ⊢
    exact {
      hasComments := hasComments_of_opens h
      opener_isSome := halone.symm
      opens := fun l hl => by rwa [← Option.some.inj hl]
      content_ne := fun hfalse => by rw [halone] at hfalse; cases hfalse
      leads := fun _ => by simp
      stays := by simp
      closes := by simp
      bare := hall }
  | false =>
    obtain ⟨token, hopener⟩ := exists_opener_of_opens h
    have hstart : g.blockStart line = { content := [line] } := by
      rw [blockStart, halone, if_neg Bool.false_ne_true]
    rw [hstart] at hall ⊢
    exact {
      hasComments := hasComments_of_opens h
      opener_isSome := halone.symm
      opens := by simp
      content_ne := fun _ => by simp
      leads := fun _ l hl => by
        rw [List.mem_singleton.1 hl]
        exact leads_of_opens h halone hbare
      stays := fun l _ => closes_eq_false_of_closer (closer_eq_none hopener halone) l
      closes := by simp
      bare := hall }

end Grammar

namespace BlockLines

variable {g : Grammar} {s : BlockLines} {line : Text}

theorem Fits.withContent (hs : s.Fits g) (hopen : s.closer = none)
    (hleads : g.closer = none → g.leads line = true) (hstays : g.closes line = false)
    (hbare : '\n' ∉ line) : (s.withContent line).Fits g where
  hasComments := hs.hasComments
  opener_isSome := hs.opener_isSome
  opens := hs.opens
  content_ne := fun _ => by simp [BlockLines.withContent]
  leads := fun hcloser l hl => by
    rcases List.mem_append.1 hl with hl | hl
    · exact hs.leads hcloser l hl
    · rw [List.mem_singleton.1 hl]; exact hleads hcloser
  stays := fun l hl => by
    rcases List.mem_append.1 hl with hl | hl
    · exact hs.stays l hl
    · rw [List.mem_singleton.1 hl]; exact hstays
  closes := hs.closes
  bare := fun l hl => by
    rw [all_withContent hopen] at hl
    rcases List.mem_append.1 hl with hl | hl
    · exact hs.bare l hl
    · rw [List.mem_singleton.1 hl]; exact hbare

theorem Fits.withCloser (hs : s.Fits g) (hopen : s.closer = none) (hcloses : g.closes line = true)
    (hbare : '\n' ∉ line) : (s.withCloser line).Fits g where
  hasComments := hs.hasComments
  opener_isSome := hs.opener_isSome
  opens := hs.opens
  content_ne := hs.content_ne
  leads := hs.leads
  stays := hs.stays
  closes := fun l hl => by rwa [← Option.some.inj hl]
  bare := fun l hl => by
    rw [all_withCloser hopen] at hl
    rcases List.mem_append.1 hl with hl | hl
    · exact hs.bare l hl
    · rw [List.mem_singleton.1 hl]; exact hbare

end BlockLines

namespace LineReader

variable {g : Grammar} {reader reader' : LineReader} {line : Text} {out : List Stretch}

/-- **What a step gives out fits, and what it leaves begun fits too.** -/
theorem Step.fits (h : Step g reader line out reader') (hfits : reader.Fits g)
    (hbare : '\n' ∉ line) : (∀ x ∈ out, x.Fits g) ∧ reader'.Fits g := by
  -- the two ways a stretch begins
  have hone : (inCode [line]).Fits g :=
    ⟨by simp, fun l hl => by rwa [List.mem_singleton.1 hl]⟩
  have hstart : ∀ h : g.opens line = true, (inBlock (g.blockStart line)).Fits g := by
    refine fun h => ⟨Grammar.fits_blockStart h hbare, ?_⟩
    unfold Grammar.blockStart
    split <;> rfl
  cases h with
  | firstCode _ => exact ⟨by simp, hone⟩
  | moreCode _ =>
    refine ⟨by simp, by simp, fun l hl => ?_⟩
    rcases List.mem_append.1 hl with hl | hl
    · exact hfits.2 l hl
    · rwa [List.mem_singleton.1 hl]
  | opened h => exact ⟨by simp, hstart h⟩
  | openedAfterCode h => exact ⟨List.forall_mem_singleton.2 hfits, hstart h⟩
  | content hleads hstays =>
    exact ⟨by simp, hfits.1.withContent hfits.2 hleads hstays hbare, hfits.2⟩
  | ended _ _ => exact ⟨List.forall_mem_singleton.2 hfits.1, hone⟩
  | closed h =>
    exact ⟨List.forall_mem_singleton.2 (hfits.1.withCloser hfits.2 h hbare), trivial⟩

/-- What has begun fits also where the text ends. -/
theorem fits_of_mem_leave {x : Stretch} (hfits : reader.Fits g) (hx : x ∈ reader.leave) :
    x.Fits g := by
  cases reader with
  | between => simp [leave] at hx
  | inCode ls => rw [List.mem_singleton.1 hx]; exact hfits
  | inBlock s => rw [List.mem_singleton.1 hx]; exact hfits.1

end LineReader

namespace Document

variable {g : Grammar}

/-- The stretches hold the lines that the reader has begun with and those that follow. -/
theorem flatMap_lines_stretchesFrom (reader : LineReader) {ls : List Text} (hfits : reader.Fits g)
    (hbare : ∀ line ∈ ls, '\n' ∉ line) :
    (stretchesFrom g reader ls).flatMap Stretch.lines = reader.lines ++ ls := by
  induction ls generalizing reader with
  | nil => cases reader <;> simp [stretchesFrom, LineReader.leave, LineReader.lines, Stretch.lines]
  | cons line ls ih =>
    have hstep := reader.step_spec g line
    have hfits' := (hstep.fits hfits (hbare line List.mem_cons_self)).2
    rw [stretchesFrom, List.flatMap_append,
      ih _ hfits' (fun l m => hbare l (List.mem_cons_of_mem _ m)), ← List.append_assoc,
      hstep.lines_eq hfits, List.append_assoc]
    rfl

theorem fits_of_mem_stretchesFrom (reader : LineReader) {ls : List Text} (hfits : reader.Fits g)
    (hbare : ∀ line ∈ ls, '\n' ∉ line) {x : Stretch} (hx : x ∈ stretchesFrom g reader ls) :
    x.Fits g := by
  induction ls generalizing reader with
  | nil => exact LineReader.fits_of_mem_leave hfits hx
  | cons line ls ih =>
    have hstep := (reader.step_spec g line).fits hfits (hbare line List.mem_cons_self)
    rw [stretchesFrom] at hx
    rcases List.mem_append.1 hx with hx | hx
    · exact hstep.1 x hx
    · exact ih _ hstep.2 (fun l m => hbare l (List.mem_cons_of_mem _ m)) hx

/-- **No line is lost or used twice.** -/
theorem flatMap_lines_stretches (g : Grammar) (t : Text) :
    (stretches g t).flatMap Stretch.lines = Text.bareLines t :=
  flatMap_lines_stretchesFrom .between trivial fun _ => Text.notMem_of_mem_bareLines

/-- **Every stretch of a text fits the grammar.** -/
theorem fits_of_mem_stretches {t : Text} {x : Stretch} (hx : x ∈ stretches g t) : x.Fits g :=
  fits_of_mem_stretchesFrom .between trivial (fun _ => Text.notMem_of_mem_bareLines) hx

end Document

/-! ## The stretches make the segments -/

namespace CommentBlock

variable {b : CommentBlock} {line : Text}

theorem openerFor?_of_opened (h : b.opened = true) (line : Text) : b.openerFor? line = none := by
  rw [openerFor?, h, Bool.not_true, Bool.and_false, if_neg Bool.false_ne_true]

theorem keep_of_opened (hopened : b.opened = true) (hclosed : b.closed = false) (content : Text) :
    b.keep content = { b with lines := b.lines ++ [content] } := by
  rw [keep, hopened, hclosed]
  rfl

/-- **A line inside an open block adds its content.** -/
theorem push_of_content (hopened : b.opened = true) (hclosed : b.closed = false)
    (hcomments : b.grammar.hasComments = true)
    (hleads : b.grammar.closer = none → b.grammar.leads line = true)
    (hstays : b.grammar.closes line = false) :
    b.push line = { b with lines := b.lines ++ [b.grammar.contentOn line] } := by
  rw [push, openerFor?_of_opened hopened]
  show (if b.grammar.closes line = true then _ else b.pushContent line) = _
  rw [hstays, if_neg Bool.false_ne_true]
  cases hrest : b.grammar.leaderRest? line with
  | some p =>
    have hleader : b.grammar.leader.isSome = true := by
      cases hnone : b.grammar.leader with
      | none => rw [Grammar.leaderRest?, hnone] at hrest; cases hrest
      | some token => rfl
    have hpush : b.pushContent line = b.keep (contentOf b.grammar p.2) := by
      simp [pushContent, hleader, hrest, hopened]
    rw [hpush, keep_of_opened hopened hclosed, Grammar.contentOn, hrest]
  | none =>
    have hcloser : b.grammar.closer.isNone = false := by
      cases hnone : b.grammar.closer with
      | none => have h := hleads hnone; rw [Grammar.leads, hrest] at h; cases h
      | some token => rfl
    have hpush : b.pushContent line = b.keep line := by
      simp [pushContent, hrest, hcloser, hcomments]
    rw [hpush, keep_of_opened hopened hclosed, Grammar.contentOn, hrest]

theorem push_of_closes (hopened : b.opened = true) (hcloses : b.grammar.closes line = true) :
    b.push line = { b with closed := true, closerReturn := Text.endsWithChar '\r' line } := by
  rw [push, openerFor?_of_opened hopened]
  show (if b.grammar.closes line = true then _ else _) = _
  rw [if_pos hcloses]

end CommentBlock

namespace BlockLines

variable {g : Grammar} {s : BlockLines} {line : Text}

/-- A block keeps the margin of its first line. -/
theorem margin_withContent (hs : s.Fits g) (line : Text) :
    (s.withContent line).margin g = s.margin g := by
  unfold margin withContent
  cases hopener : s.opener with
  | some first => rfl
  | none =>
    have halone : g.openerAlone = false := by
      rw [← hs.opener_isSome, hopener]
      rfl
    cases hcontent : s.content with
    | nil => exact absurd hcontent (hs.content_ne halone)
    | cons first rest => rfl

/-- A content line adds its content to the block. -/
theorem push_read_of_content (hs : s.Fits g) (hopen : s.closer = none)
    (hleads : g.closer = none → g.leads line = true) (hstays : g.closes line = false) :
    (s.read g).push line = (s.withContent line).read g := by
  have hclosed : (s.read g).closed = false := by
    show s.closer.isSome = false
    rw [hopen]
    rfl
  rw [CommentBlock.push_of_content rfl hclosed hs.hasComments hleads hstays]
  unfold read
  rw [margin_withContent hs]
  simp [withContent]

theorem push_read_of_closes (hcloses : g.closes line = true) :
    (s.read g).push line = (s.withCloser line).read g :=
  CommentBlock.push_of_closes rfl hcloses

/-- A block that fits is worth keeping. -/
theorem settle_read (hs : s.Fits g) :
    (Segment.comment (s.read g)).settle = [.comment (s.read g)] := by
  have hne : (s.read g).isEmpty = false := by
    unfold CommentBlock.isEmpty
    show ((s.content.map g.contentOn).isEmpty && !(true && g.openerAlone)) = false
    cases halone : g.openerAlone with
    | true => simp
    | false => simpa using hs.content_ne halone
  show (if (s.read g).isEmpty = true then _ else _) = _
  rw [hne, if_neg Bool.false_ne_true]
  rfl

end BlockLines

/-- The first line of a block opens it. -/
theorem Grammar.push_fresh {g : Grammar} {line : Text} (h : g.opens line = true)
    (hbare : '\n' ∉ line) :
    CommentBlock.push { grammar := g } line = (g.blockStart line).read g := by
  cases halone : g.openerAlone with
  | true =>
    obtain ⟨m, hm⟩ := Option.isSome_iff_exists.1 h
    have hfor : CommentBlock.openerFor? { grammar := g } line = some m := by
      rw [CommentBlock.openerFor?, halone]
      exact hm
    have hmargin : g.blockMargin line = m := by
      rw [Grammar.blockMargin, halone, if_pos rfl, hm]
      rfl
    rw [CommentBlock.push, hfor, Grammar.blockStart, halone, if_pos rfl]
    simp [BlockLines.read, BlockLines.margin, hmargin]
  | false =>
    obtain ⟨token, hopener⟩ := Grammar.exists_opener_of_opens h
    have hcloser := Grammar.closer_eq_none hopener halone
    have hleads := Grammar.leads_of_opens h halone hbare
    obtain ⟨⟨m, rest⟩, hrest⟩ := Option.isSome_iff_exists.1 hleads
    have hleader : g.leader.isSome = true := by
      cases hnone : g.leader with
      | none => rw [Grammar.leaderRest?, hnone] at hrest; cases hrest
      | some token => rfl
    have hfor : CommentBlock.openerFor? { grammar := g } line = none := by
      rw [CommentBlock.openerFor?, halone]
      rfl
    have hmargin : g.blockMargin line = m := by
      rw [Grammar.blockMargin, halone, if_neg Bool.false_ne_true, hrest]
      rfl
    rw [CommentBlock.push, hfor, Grammar.blockStart, halone, if_neg Bool.false_ne_true]
    show (if g.closes line = true then _ else CommentBlock.pushContent _ line) = _
    rw [Grammar.closes_eq_false_of_closer hcloser, if_neg Bool.false_ne_true,
      CommentBlock.pushContent]
    simp [hleader, hrest, hcloser, CommentBlock.keep, BlockLines.read, BlockLines.margin, hmargin,
      Grammar.contentOn]

theorem settle_code {ls : List Text} (h : ls ≠ []) :
    (Segment.code { lines := ls }).settle = [.code { lines := ls }] := by
  show (if ls.isEmpty = true then _ else _) = _
  rw [if_neg (by simpa using h)]
  rfl

namespace LineReader

variable {g : Grammar} {reader reader' : LineReader} {line : Text} {out : List Stretch}

/-- **A step of this reader is a step of the reader of documents.** -/
theorem Step.segmentsFrom_eq (h : Step g reader line out reader') (hfits : reader.Fits g)
    (hbare : '\n' ∉ line) (rest : List Text) :
    Document.segmentsFrom g false (reader.place g) (line :: rest)
      = out.map (Stretch.segment g) ++ Document.segmentsFrom g false (reader'.place g) rest := by
  cases h with
  | firstCode h =>
    show Document.segmentsFrom g false .between (line :: rest) = _
    rw [Document.segmentsFrom, h, if_neg Bool.false_ne_true]
    rfl
  | moreCode h =>
    show Document.segmentsFrom g false (.inCode _) (line :: rest) = _
    rw [Document.segmentsFrom, h, if_neg Bool.false_ne_true]
    rfl
  | opened h =>
    show Document.segmentsFrom g false .between (line :: rest) = _
    rw [Document.segmentsFrom, if_pos h, Grammar.push_fresh h hbare]
    rfl
  | openedAfterCode h =>
    show Document.segmentsFrom g false (.inCode _) (line :: rest) = _
    rw [Document.segmentsFrom, if_pos h, Grammar.push_fresh h hbare, settle_code hfits.1]
    rfl
  | content hleads hstays =>
    show Document.segmentsFrom g false (.inComment _) (line :: rest) = _
    rw [Document.segmentsFrom, BlockLines.push_read_of_content hfits.1 hfits.2 hleads hstays,
      hstays, if_neg Bool.false_ne_true]
    cases hcloser : g.closer with
    | none => rw [if_pos Option.isNone_none, if_pos (hleads hcloser)]; rfl
    | some token => rw [if_neg (by simp)]; rfl
  | ended hcloser hleads =>
    show Document.segmentsFrom g false (.inComment _) (line :: rest) = _
    rw [Document.segmentsFrom, hcloser, if_pos Option.isNone_none, hleads,
      if_neg Bool.false_ne_true, BlockLines.settle_read hfits.1]
    rfl
  | closed h =>
    have hcloser : ¬ g.closer.isNone = true := by
      obtain ⟨token, hsome, -⟩ := Grammar.closes_eq_true_iff.1 h
      rw [hsome]
      simp
    show Document.segmentsFrom g false (.inComment _) (line :: rest) = _
    rw [Document.segmentsFrom, if_neg hcloser, if_pos h, BlockLines.push_read_of_closes h,
      BlockLines.settle_read (hfits.1.withCloser hfits.2 h hbare)]
    rfl

theorem leave_place (hfits : reader.Fits g) :
    (reader.place g).leave = reader.leave.map (Stretch.segment g) := by
  cases reader with
  | between => rfl
  | inCode ls => exact settle_code hfits.1
  | inBlock s => exact BlockLines.settle_read hfits.1

end LineReader

namespace Document

variable {g : Grammar}

/-- The segments from the place of a reader on are those of its stretches. -/
theorem segmentsFrom_eq_map (reader : LineReader) {ls : List Text} (hfits : reader.Fits g)
    (hbare : ∀ line ∈ ls, '\n' ∉ line) :
    segmentsFrom g false (reader.place g) ls
      = (stretchesFrom g reader ls).map (Stretch.segment g) := by
  induction ls generalizing reader with
  | nil =>
    rw [segmentsFrom, stretchesFrom]
    exact LineReader.leave_place hfits
  | cons line ls ih =>
    have hstep := reader.step_spec g line
    have hline := hbare line List.mem_cons_self
    rw [hstep.segmentsFrom_eq hfits hline,
      ih _ (hstep.fits hfits hline).2 (fun l m => hbare l (List.mem_cons_of_mem _ m)),
      stretchesFrom, List.map_append]

/-- **The segments of a document are what its stretches make**, one each. -/
theorem ofText_segments (g : Grammar) (t : Text) :
    (ofText g t).segments = (stretches g t).map (Stretch.segment g) :=
  segmentsFrom_eq_map .between trivial fun _ => Text.notMem_of_mem_bareLines

end Document

end LicenseHeader
