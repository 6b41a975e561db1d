import LicenseHeader.Proofs.Stretches

/-!
# Documents in normal form

A text could be cut into segments in many ways; the reader of documents always
ends up with one of a particular shape, here called *normal form*
(`Document.IsNormal`). Nothing empty is kept, code runs are never neighbours,
comment blocks are neighbours only where a closer tells them apart, a line that
opens a block is not left in the code, and only the last block of a text can be
without its closer.

The one gap in this is real. A block without a closer ends with the first line
that has no leader, and that line becomes code without being looked at again.
Where the opener is not itself a line with the leader, it may be another opener,
which then stands as the first line of the code behind the block.

Each of the five properties is about two neighbours at most, so all of them come
from one statement: what a stretch may be, given the stretch before it
(`Stretch.Follows`). One line keeps it (`LineReader.Step.follows`), and the reading of
a whole text follows by induction (`Document.linked_stretchesFrom`). Nothing is
asked of the tokens of the grammar.
-/

namespace LicenseHeader

/-! ## Segments worth keeping -/

/-- A segment that is kept as it is holds something. -/
theorem Segment.isEmpty_of_settle {s : Segment} (h : s.settle = [s]) : s.isEmpty = false := by
  unfold settle at h
  split at h
  · cases h
  · rename_i hne
    rw [List.cons.inj h |>.1] at hne
    exact Bool.eq_false_iff.2 hne

/-- **The segments of a document that was read are complete**, and settling them again
changes nothing. -/
theorem Document.settle_of_mem {g : Grammar} {t : Text} {s : Segment}
    (h : s ∈ (ofText g t).segments) : s.settle = [s] := by
  rw [ofText_segments] at h
  obtain ⟨x, hx, rfl⟩ := List.mem_map.1 h
  have hfits := fits_of_mem_stretches hx
  cases x with
  | block s => exact BlockLines.settle_read hfits
  | code ls => exact settle_code hfits.1

/-! ## What may follow what -/

namespace Stretch

/-- **What a stretch may be, given the one before it.** Behind a block there is code
of two kinds: below a closer it has been searched for openers from its first line
on, while a line that ended a block by having no leader has not. -/
inductive Follows (g : Grammar) : Option Stretch → Stretch → Prop
  /-- The text begins with code. -/
  | firstCode {ls : List Text} (h : ∀ line ∈ ls, g.opens line = false) :
      Follows g none (code ls)
  /-- Code stands below a closer. -/
  | codeBelowCloser {s : BlockLines} {ls : List Text} (hcloser : g.closer.isSome = true)
      (hs : s.closer.isSome = true) (h : ∀ line ∈ ls, g.opens line = false) :
      Follows g (some (block s)) (code ls)
  /-- Code begins with the line that ended a block. -/
  | codeBehindBlock {s : BlockLines} {line : Text} {ls : List Text} (hcloser : g.closer = none)
      (hleads : g.leads line = false) (h : ∀ line ∈ ls, g.opens line = false) :
      Follows g (some (block s)) (code (line :: ls))
  /-- The text begins with a block. -/
  | firstBlock {s : BlockLines} : Follows g none (block s)
  /-- A block ends the code before it. -/
  | blockBelowCode {ls : List Text} {s : BlockLines} : Follows g (some (code ls)) (block s)
  /-- A block stands right below a closer. -/
  | blockBelowCloser {s s' : BlockLines} (hcloser : g.closer.isSome = true)
      (hs : s.closer.isSome = true) : Follows g (some (block s)) (block s')

/-- Every stretch follows the one before it, the first one what stands before all. -/
def Linked (g : Grammar) : Option Stretch → List Stretch → Prop
  | _, [] => True
  | before?, x :: xs => Follows g before? x ∧ Linked g (some x) xs

variable {g : Grammar} {before? : Option Stretch}

theorem Follows.block {s : BlockLines} (h : Follows g before? (block s)) (s' : BlockLines) :
    Follows g before? (Stretch.block s') := by
  cases h with
  | firstBlock => exact .firstBlock
  | blockBelowCode => exact .blockBelowCode
  | blockBelowCloser hcloser hs => exact .blockBelowCloser hcloser hs

theorem Follows.code_concat {ls : List Text} {line : Text} (h : Follows g before? (code ls))
    (hline : g.opens line = false) : Follows g before? (code (ls ++ [line])) := by
  have hmore : ∀ {ls : List Text}, (∀ l ∈ ls, g.opens l = false) →
      ∀ l ∈ ls ++ [line], g.opens l = false := by
    intro ls hls l hl
    rcases List.mem_append.1 hl with hl | hl
    · exact hls l hl
    · rwa [List.mem_singleton.1 hl]
  cases h with
  | firstCode h => exact .firstCode (hmore h)
  | codeBelowCloser hcloser hs h => exact .codeBelowCloser hcloser hs (hmore h)
  | codeBehindBlock hcloser hleads h => exact .codeBehindBlock hcloser hleads (hmore h)

theorem linked_append {xs ys : List Stretch} (hxs : Linked g before? xs)
    (hys : Linked g (xs.getLast?.or before?) ys) : Linked g before? (xs ++ ys) := by
  induction xs generalizing before? with
  | nil => exact hys
  | cons x xs ih =>
    refine ⟨hxs.1, ih hxs.2 ?_⟩
    rw [List.getLast?_cons] at hys
    cases hlast : xs.getLast? with
    | none => rw [hlast] at hys; exact hys
    | some y => rw [hlast] at hys; exact hys

/-- Among linked stretches each one follows the one before it. -/
theorem Linked.follows {xs ys : List Stretch} {x : Stretch}
    (h : Linked g before? (xs ++ x :: ys)) : Follows g (xs.getLast?.or before?) x := by
  induction xs generalizing before? with
  | nil => exact h.1
  | cons y xs ih =>
    have hx := ih h.2
    rw [List.getLast?_cons]
    cases hlast : xs.getLast? with
    | none => rw [hlast] at hx; exact hx
    | some z => rw [hlast] at hx; exact hx

end Stretch

/-! ## Reading links the stretches -/

namespace LineReader

/-- What has begun where the reader stands follows the stretch before it. Between
segments there is nothing before, or a block with its closer. -/
def Follows (g : Grammar) (before? : Option Stretch) : LineReader → Prop
  | between => ∀ x ∈ before?, ∃ s, x = .block s ∧ g.closer.isSome = true ∧ s.closer.isSome = true
  | inCode ls => Stretch.Follows g before? (.code ls)
  | inBlock s => Stretch.Follows g before? (.block s)

variable {g : Grammar} {before? : Option Stretch} {reader reader' : LineReader} {line : Text}
  {out : List Stretch}

theorem Follows.code_singleton (h : between.Follows g before?) (hline : g.opens line = false) :
    Stretch.Follows g before? (.code [line]) := by
  cases before? with
  | none => exact .firstCode (List.forall_mem_singleton.2 hline)
  | some x =>
    obtain ⟨s, rfl, hcloser, hs⟩ := h x rfl
    exact .codeBelowCloser hcloser hs (List.forall_mem_singleton.2 hline)

theorem Follows.block (h : between.Follows g before?) (s : BlockLines) :
    Stretch.Follows g before? (.block s) := by
  cases before? with
  | none => exact .firstBlock
  | some x =>
    obtain ⟨s', rfl, hcloser, hs'⟩ := h x rfl
    exact .blockBelowCloser hcloser hs'

/-- **One line**: what it completes is linked to what stood before, and what it leaves
begun follows that. -/
theorem Step.follows (h : Step g reader line out reader') (hreader : reader.Follows g before?) :
    Stretch.Linked g before? out ∧ reader'.Follows g (out.getLast?.or before?) := by
  cases h with
  | firstCode hline => exact ⟨trivial, hreader.code_singleton hline⟩
  | moreCode hline => exact ⟨trivial, hreader.code_concat hline⟩
  | opened _ => exact ⟨trivial, hreader.block _⟩
  | openedAfterCode _ => exact ⟨⟨hreader, trivial⟩, .blockBelowCode⟩
  | content _ _ => exact ⟨trivial, Stretch.Follows.block hreader _⟩
  | ended hcloser hleads =>
    exact ⟨⟨hreader, trivial⟩, .codeBehindBlock hcloser hleads (by simp)⟩
  | @closed s _ hcloses =>
    obtain ⟨token, hcloser, -⟩ := Grammar.closes_eq_true_iff.1 hcloses
    refine ⟨⟨Stretch.Follows.block hreader _, trivial⟩, fun x hx => ?_⟩
    refine ⟨s.withCloser line, (Option.some.inj hx).symm, ?_, rfl⟩
    rw [hcloser]
    rfl

/-- Where the text ends, what has begun is linked to what stood before. -/
theorem Follows.leave (h : reader.Follows g before?) : Stretch.Linked g before? reader.leave := by
  cases reader with
  | between => trivial
  | inCode ls => exact ⟨h, trivial⟩
  | inBlock s => exact ⟨h, trivial⟩

end LineReader

namespace Document

variable {g : Grammar}

theorem linked_stretchesFrom {before? : Option Stretch} {reader : LineReader} (ls : List Text)
    (h : reader.Follows g before?) : Stretch.Linked g before? (stretchesFrom g reader ls) := by
  induction ls generalizing before? reader with
  | nil => exact h.leave
  | cons line ls ih =>
    have hstep := (reader.step_spec g line).follows h
    rw [stretchesFrom]
    exact Stretch.linked_append hstep.1 (ih hstep.2)

/-- **Every stretch of a text follows the one before it.** -/
theorem follows_of_stretches {t : Text} {xs ys : List Stretch} {x : Stretch}
    (h : stretches g t = xs ++ x :: ys) : Stretch.Follows g xs.getLast? x := by
  have hstart : LineReader.between.Follows g none := fun x hx => by cases hx
  have hlinked : Stretch.Linked g none (stretches g t) := linked_stretchesFrom _ hstart
  rw [h] at hlinked
  have hfollows := hlinked.follows
  rwa [Option.or_none] at hfollows

/-! ## Normal form -/

/-- **Normal form**: what the document of a text looks like, whatever the text. -/
structure IsNormal (g : Grammar) (d : Document) : Prop where
  /-- No segment is empty. -/
  nonempty : ∀ s ∈ d.segments, s.isEmpty = false
  /-- Code runs are not neighbours. -/
  code_apart : ∀ before r r' behind, d.segments ≠ before ++ .code r :: .code r' :: behind
  /-- Without a closer comment blocks are not neighbours. -/
  comments_apart : g.closer = none →
    ∀ before b b' behind, d.segments ≠ before ++ .comment b :: .comment b' :: behind
  /-- No line of code opens a block, unless it is the first one below a comment block in
  a grammar that has lone openers and no closer. -/
  code_opens : ∀ before r behind, d.segments = before ++ .code r :: behind →
    ∀ i line, r.lines[i]? = some line → g.opens line = true →
      i = 0 ∧ (∃ b, before.getLast? = some (.comment b)) ∧
        g.openerAlone = true ∧ g.closer = none
  /-- Where there is a closer, every comment block but the last segment has it. -/
  closed : g.closer.isSome = true →
    ∀ before b behind, d.segments = before ++ .comment b :: behind → behind ≠ [] →
      b.closed = true

/-- A segment of a document comes from a stretch that follows the one before it. -/
theorem exists_follows_of_segments {t : Text} {before behind : List Segment} {s : Segment}
    (h : (ofText g t).segments = before ++ s :: behind) :
    ∃ xs x ys, stretches g t = xs ++ x :: ys ∧ xs.map (Stretch.segment g) = before ∧
      x.segment g = s ∧ ys.map (Stretch.segment g) = behind ∧ x.Fits g ∧
      Stretch.Follows g xs.getLast? x := by
  rw [ofText_segments] at h
  obtain ⟨xs, zs, hcut, hxs, hzs⟩ := List.map_eq_append_iff.1 h
  obtain ⟨x, ys, rfl, hx, hys⟩ := List.map_eq_cons_iff.1 hzs
  refine ⟨xs, x, ys, hcut, hxs, hx, hys, fits_of_mem_stretches (t := t) ?_,
    follows_of_stretches hcut⟩
  rw [hcut]
  exact List.mem_append_right _ List.mem_cons_self

/-- Of two neighbours the second follows the first. -/
theorem exists_follows_of_neighbours {t : Text} {before behind : List Segment} {s s' : Segment}
    (h : (ofText g t).segments = before ++ s :: s' :: behind) :
    ∃ x x', x.segment g = s ∧ x'.segment g = s' ∧ Stretch.Follows g (some x) x' := by
  have happ : before ++ s :: s' :: behind = (before ++ [s]) ++ s' :: behind := by
    rw [List.append_assoc]
    rfl
  obtain ⟨xs, x', -, -, hxs, hx', -, -, hfollows⟩ :=
    exists_follows_of_segments (h.trans happ)
  obtain ⟨xs, zs, rfl, -, hzs⟩ := List.map_eq_append_iff.1 hxs
  obtain ⟨x, zs, rfl, hx, hnil⟩ := List.map_eq_cons_iff.1 hzs
  obtain rfl := List.map_eq_nil_iff.1 hnil
  rw [List.getLast?_concat] at hfollows
  exact ⟨x, x', hx, hx', hfollows⟩

/-- **A line of code that opens a block is the one that ended the block before it.** -/
theorem opens_of_follows {before? : Option Stretch} {ls : List Text}
    (h : Stretch.Follows g before? (.code ls)) (hfits : (Stretch.code ls).Fits g) {i : Nat}
    {line : Text} (hline : ls[i]? = some line) (hopens : g.opens line = true) :
    i = 0 ∧ (∃ s, before? = some (.block s)) ∧ g.openerAlone = true ∧ g.closer = none := by
  have hmem := List.mem_of_getElem? hline
  cases h with
  | firstCode h => rw [h line hmem] at hopens; cases hopens
  | codeBelowCloser _ _ h => rw [h line hmem] at hopens; cases hopens
  | @codeBehindBlock s first ls hcloser hleads h =>
    cases i with
    | succ i =>
      rw [h line (List.mem_of_getElem? hline)] at hopens
      cases hopens
    | zero =>
      obtain rfl := Option.some.inj hline
      refine ⟨rfl, ⟨s, rfl⟩, ?_, hcloser⟩
      -- an opener that is not alone on its line has the leader, which this line has not
      cases halone : g.openerAlone with
      | true => rfl
      | false =>
        rw [Grammar.leads_of_opens hopens halone (hfits.2 _ hmem)] at hleads
        cases hleads

/-- **The document of a text is in normal form**, for every grammar and every text.
The stretches of the text are the lines of its segments; no line that a block has for
content closes a block. -/
theorem isNormal_ofText (g : Grammar) (t : Text) :
    (ofText g t).IsNormal g ∧
    (ofText g t).segments = (stretches g t).map (Stretch.segment g) ∧
    (stretches g t).flatMap Stretch.lines = Text.bareLines t ∧
    ∀ s, Stretch.block s ∈ stretches g t → ∀ line ∈ s.content, g.closes line = false := by
  refine ⟨?_, ofText_segments g t, flatMap_lines_stretches g t, fun s hs =>
    (fits_of_mem_stretches hs).stays⟩
  exact {
    nonempty := fun s hs => Segment.isEmpty_of_settle (settle_of_mem hs)
    code_apart := fun before r r' behind h => by
      obtain ⟨x, x', hx, hx', hfollows⟩ := exists_follows_of_neighbours h
      cases hfollows with
      | codeBelowCloser => cases hx
      | codeBehindBlock => cases hx
      | blockBelowCode => cases hx'
      | blockBelowCloser => cases hx
    comments_apart := fun hcloser before b b' behind h => by
      obtain ⟨x, x', hx, hx', hfollows⟩ := exists_follows_of_neighbours h
      cases hfollows with
      | codeBelowCloser => cases hx'
      | codeBehindBlock => cases hx'
      | blockBelowCode => cases hx
      | blockBelowCloser hsome => rw [hcloser] at hsome; cases hsome
    code_opens := fun before r behind h i line hline hopens => by
      obtain ⟨xs, x, ys, -, hxs, hx, -, hfits, hfollows⟩ := exists_follows_of_segments h
      cases x with
      | block s => cases hx
      | code ls =>
        cases hx
        obtain ⟨hi, ⟨s, hs⟩, halone⟩ := opens_of_follows hfollows hfits hline hopens
        refine ⟨hi, ⟨s.read g, ?_⟩, halone⟩
        rw [← hxs, List.getLast?_map, hs]
        rfl
    closed := fun hcloser before b behind h hne => by
      obtain ⟨s', behind, rfl⟩ := List.exists_cons_of_ne_nil hne
      obtain ⟨x, x', hx, -, hfollows⟩ := exists_follows_of_neighbours h
      cases hfollows with
      | codeBelowCloser _ hs => cases hx; exact hs
      | codeBehindBlock hnone => rw [hnone] at hcloser; cases hcloser
      | blockBelowCode => cases hx
      | blockBelowCloser _ hs => cases hx; exact hs }

/-- The exception for code behind a block does arise: a second `@echo off` is code. -/
example :
    (ofText Language.dos.grammar "@echo off\n@echo off\nrem x\n".toList).segments
      = [.comment { grammar := Language.dos.grammar, opened := true },
         .code { lines := ["@echo off".toList, "rem x".toList] }] := by decide

end Document

end LicenseHeader
