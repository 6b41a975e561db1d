import LicenseHeader.Proofs.Stretches
import Mathlib.Data.List.Forall2

/-!
# Every line of a text is in one segment

Cutting a text into segments loses no line and uses none twice. The lines of the
text fall into consecutive *runs*, one for each segment of the document in order
(`Segment.MadeOf`): the run of a code segment is its lines; the run of a comment
block is the line of the lone opener, if the grammar has such lines, then one line
for each content line, then the closing line, if the end of the block was seen.

A document drops a segment that holds nothing. The reader never has one to drop:
`Document.handedFrom` lists the segments as the reader hands them over, and these
are the segments of the document. What keeps the two in step is that the place of
the reader is always the place of the reader that keeps the lines (`LineReader.place`),
line by line (`LineReader.Step.place_step`), so nothing is handed over that no line went
into.

All of it holds for every grammar, whatever its tokens are, and for every text
(`Document.exists_runs_of_segments`).
-/

namespace LicenseHeader

/-! ## What is handed over to the document -/

namespace Place

/-- What a line does to the reader: the segment it completes, as it is handed over
to the document, and where the reader stands after it. -/
def step (g : Grammar) (ignoreBlankEnds : Bool) : Place → Text → List Segment × Place
  | between, line =>
    if g.opens line then ([], inComment (CommentBlock.push { grammar := g } line))
    else ([], inCode (CodeRun.push { ignoresBlankEnds := ignoreBlankEnds } line))
  | inCode r, line =>
    if g.opens line then ([.code r], inComment (CommentBlock.push { grammar := g } line))
    else ([], inCode (r.push line))
  | inComment b, line =>
    if g.closer.isNone then
      if g.leads line then ([], inComment (b.push line))
      else
        ([.comment b], inCode (CodeRun.push { ignoresBlankEnds := ignoreBlankEnds } line))
    else if g.closes line then ([.comment (b.push line)], between)
    else ([], inComment (b.push line))

/-- The segment that is handed over where the text ends. -/
def last : Place → List Segment
  | between => []
  | inCode r => [.code r]
  | inComment b => [.comment b]

end Place

namespace Document

/-- **The segments that the reader hands over**, from a place on, before the document
drops those that hold nothing. -/
def handedFrom (g : Grammar) (ignoreBlankEnds : Bool) : Place → List Text → List Segment
  | place, [] => place.last
  | place, line :: rest =>
    (place.step g ignoreBlankEnds line).1
      ++ handedFrom g ignoreBlankEnds (place.step g ignoreBlankEnds line).2 rest

theorem segmentsFrom_cons (g : Grammar) (ignoreBlankEnds : Bool) (place : Place) (line : Text)
    (rest : List Text) :
    segmentsFrom g ignoreBlankEnds place (line :: rest)
      = (place.step g ignoreBlankEnds line).1.flatMap Segment.settle
        ++ segmentsFrom g ignoreBlankEnds (place.step g ignoreBlankEnds line).2 rest := by
  cases place with
  | between =>
    rw [segmentsFrom, Place.step]
    split <;> rfl
  | inCode r =>
    rw [segmentsFrom, Place.step]
    split
    · rw [List.flatMap_singleton]
    · rfl
  | inComment b =>
    rw [segmentsFrom, Place.step]
    split
    · split
      · rfl
      · rw [List.flatMap_singleton]
    · split
      · rw [List.flatMap_singleton]
      · rfl

/-- **The document settles what is handed over to it.** -/
theorem segmentsFrom_eq_flatMap_settle (g : Grammar) (ignoreBlankEnds : Bool) (place : Place)
    (ls : List Text) :
    segmentsFrom g ignoreBlankEnds place ls
      = (handedFrom g ignoreBlankEnds place ls).flatMap Segment.settle := by
  induction ls generalizing place with
  | nil =>
    rw [segmentsFrom, handedFrom]
    cases place with
    | between => rfl
    | inCode r => exact (List.flatMap_singleton _ _).symm
    | inComment b => exact (List.flatMap_singleton _ _).symm
  | cons line ls ih => rw [segmentsFrom_cons, ih, handedFrom, List.flatMap_append]

end Document

/-! ## The two readers go in step -/

namespace LineReader

variable {g : Grammar} {reader reader' : LineReader} {line : Text} {out : List Stretch}

/-- **One line**: the reader hands over what the stretches completed make, and stands
where the reader that keeps the lines stands. -/
theorem Step.place_step (h : Step g reader line out reader') (hfits : reader.Fits g)
    (hbare : '\n' ∉ line) :
    (reader.place g).step g false line = (out.map (Stretch.segment g), reader'.place g) := by
  cases h with
  | firstCode h =>
    show Place.step g false .between line = _
    rw [Place.step, h, if_neg Bool.false_ne_true]
    rfl
  | moreCode h =>
    show Place.step g false (.inCode _) line = _
    rw [Place.step, h, if_neg Bool.false_ne_true]
    rfl
  | opened h =>
    show Place.step g false .between line = _
    rw [Place.step, if_pos h, Grammar.push_fresh h hbare]
    rfl
  | openedAfterCode h =>
    show Place.step g false (.inCode _) line = _
    rw [Place.step, if_pos h, Grammar.push_fresh h hbare]
    rfl
  | content hleads hstays =>
    show Place.step g false (.inComment _) line = _
    rw [Place.step, BlockLines.push_read_of_content hfits.1 hfits.2 hleads hstays, hstays,
      if_neg Bool.false_ne_true]
    cases hcloser : g.closer with
    | none => rw [if_pos Option.isNone_none, if_pos (hleads hcloser)]; rfl
    | some token => rw [if_neg (by simp)]; rfl
  | ended hcloser hleads =>
    show Place.step g false (.inComment _) line = _
    rw [Place.step, hcloser, if_pos Option.isNone_none, hleads, if_neg Bool.false_ne_true]
    rfl
  | closed h =>
    obtain ⟨token, hcloser, -⟩ := Grammar.closes_eq_true_iff.1 h
    show Place.step g false (.inComment _) line = _
    rw [Place.step, hcloser, if_neg (by simp), if_pos h, BlockLines.push_read_of_closes h]
    rfl

end LineReader

namespace Document

variable {g : Grammar}

/-- What is handed over from the place of a reader on is what its stretches make. -/
theorem handedFrom_eq_map (reader : LineReader) {ls : List Text} (hfits : reader.Fits g)
    (hbare : ∀ line ∈ ls, '\n' ∉ line) :
    handedFrom g false (reader.place g) ls
      = (stretchesFrom g reader ls).map (Stretch.segment g) := by
  induction ls generalizing reader with
  | nil => cases reader <;> rfl
  | cons line ls ih =>
    have hstep := reader.step_spec g line
    have hline := hbare line List.mem_cons_self
    rw [handedFrom, hstep.place_step hfits hline, stretchesFrom, List.map_append,
      ih _ (hstep.fits hfits hline).2 (fun l m => hbare l (List.mem_cons_of_mem _ m))]

/-- **Nothing that is handed over is dropped.** -/
theorem handedFrom_between (g : Grammar) (t : Text) :
    handedFrom g false .between (Text.bareLines t) = (ofText g t).segments := by
  rw [ofText_segments]
  exact handedFrom_eq_map .between trivial fun _ => Text.notMem_of_mem_bareLines

end Document

/-! ## The run of a segment -/

/-- **The content of a line in a block**: what stands behind its leader, without the
trailer, or the line itself if it has no leader. -/
def Grammar.IsContentOf (g : Grammar) (content line : Text) : Prop :=
  (∃ margin rest, g.leaderRest? line = some (margin, rest) ∧
      content = CommentBlock.contentOf g rest) ∨
    g.leads line = false ∧ content = line

theorem Grammar.isContentOf_contentOn (g : Grammar) (line : Text) :
    g.IsContentOf (g.contentOn line) line := by
  rcases hrest : g.leaderRest? line with _ | ⟨margin, rest⟩
  · refine .inr ⟨by rw [leads, hrest]; rfl, ?_⟩
    rw [contentOn, hrest]
  · refine .inl ⟨margin, rest, hrest, ?_⟩
    rw [contentOn, hrest]

/-- **The lines that a comment block is made of**: the lines of its opener, of its
content and of its closer. -/
structure CommentBlock.MadeOf (g : Grammar) (b : CommentBlock) (opener content closer : List Text) :
    Prop where
  /-- There is an opener line if the opener takes a line of its own, and not more
  than one. -/
  opener_length : opener.length = if g.openerAlone then 1 else 0
  /-- The opener line opens a block. -/
  opens : ∀ line ∈ opener, g.opens line = true
  /-- There is one line for each content line, in order. -/
  content : List.Forall₂ g.IsContentOf b.lines content
  /-- There is a closing line if the end of the block was seen, and not more than
  one. -/
  closer_length : closer.length = if b.closed then 1 else 0
  /-- The closing line closes a block. -/
  closes : ∀ line ∈ closer, g.closes line = true

/-- **The run of lines that a segment is made of.** -/
def Segment.MadeOf (g : Grammar) : Segment → List Text → Prop
  | comment b, run => ∃ opener content closer,
      run = opener ++ content ++ closer ∧ b.MadeOf g opener content closer
  | code r, run => run = r.lines

/-- A block is made of the lines it was read from. -/
theorem BlockLines.Fits.madeOf {g : Grammar} {s : BlockLines} (hs : s.Fits g) :
    (s.read g).MadeOf g s.opener.toList s.content s.closer.toList where
  opener_length := by
    rw [Option.length_toList, hs.opener_isSome]
  opens := fun line hline => hs.opens line (Option.mem_toList.1 hline)
  content := by
    refine List.forall₂_map_left_iff.2 (List.forall₂_same.2 fun line _ => ?_)
    exact g.isContentOf_contentOn line
  closer_length := Option.length_toList
  closes := fun line hline => hs.closes line (Option.mem_toList.1 hline)

theorem Stretch.Fits.madeOf {g : Grammar} {x : Stretch} (hx : x.Fits g) :
    (x.segment g).MadeOf g x.lines := by
  cases x with
  | block s => exact ⟨_, _, _, rfl, BlockLines.Fits.madeOf hx⟩
  | code ls => exact Eq.refl ls

namespace Document

/-- **No line is lost or used twice, and no segment is dropped.** For every grammar
and every text, the lines of the text are consecutive runs, one for each segment of
the document in order, of which the segment is made; and the segments handed over to
the document, of which it drops those that hold nothing, are all in it. -/
theorem exists_runs_of_segments (g : Grammar) (t : Text) :
    (∃ runs : List (List Text), runs.flatten = (Text.rawLines t).map Text.stripTerminator ∧
      List.Forall₂ (Segment.MadeOf g) (ofText g t).segments runs) ∧
    (ofText g t).segments
      = (handedFrom g false .between ((Text.rawLines t).map Text.stripTerminator)).flatMap
          Segment.settle ∧
    handedFrom g false .between ((Text.rawLines t).map Text.stripTerminator)
      = (ofText g t).segments := by
  refine ⟨⟨(stretches g t).map Stretch.lines, ?_, ?_⟩, ?_, handedFrom_between g t⟩
  · rw [← List.flatMap_def]
    exact flatMap_lines_stretches g t
  · rw [ofText_segments]
    refine List.forall₂_map_left_iff.2 (List.forall₂_map_right_iff.2 (List.forall₂_same.2 ?_))
    exact fun x hx => (fits_of_mem_stretches hx).madeOf
  · exact segmentsFrom_eq_flatMap_settle g false .between _

/-- Also where the tokens are odd: an empty leader begins every line, so the closer is
all that ends a block, and the lone opener is read as content inside one. -/
example :
    let g : Grammar := { declaredOpener := some "(*".toList, closer := some "*)".toList,
                         leader := some [], bounded := fun _ => .inl rfl }
    (ofText g "(*\n (*\n*)\nlet\n".toList).segments
      = [.comment { grammar := g, opened := true, closed := true, lines := ["(*".toList] },
         .code { lines := ["let".toList] }] := by decide

end Document

end LicenseHeader
