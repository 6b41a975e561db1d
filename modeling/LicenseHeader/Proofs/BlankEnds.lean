import LicenseHeader.Proofs.Conservation
import Mathlib.Data.List.DropRight

/-!
# Ignoring blank ends is trimming afterwards

A reader can be asked to leave out the blank lines at the two ends of each code run. It
does so while the lines come in: the leading ones are skipped as long as the run is
empty, the trailing ones are dropped when the run is complete. Between the two the run
may hold less than was read, or nothing at all, and the reader must not take that for
another place to stand.

It does not: line by line, such a reader stands where a plain one stands, with the
leading blank lines of the run that has begun taken off (`Place.skipBlankStart`,
`Place.step_skipBlankStart`). So the segments it hands over are those of the plain
reader, and what the document keeps of them are these segments trimmed
(`Document.ofLines_ignoringBlankEnds`). No comment block is touched, whatever the
grammar.
-/

namespace LicenseHeader

/-! ## Trimming -/

namespace Text

/-- Lines without the blank ones at the two ends. -/
def withoutBlankEnds (ls : List Text) : List Text := (ls.dropWhile isBlank).rdropWhile isBlank

/-- **Only blank lines are left out**, and neither end is left blank. -/
theorem exists_withoutBlankEnds (ls : List Text) :
    ∃ above below, ls = above ++ withoutBlankEnds ls ++ below ∧
      (∀ line ∈ above ++ below, isBlank line = true) ∧
      ∀ line, (withoutBlankEnds ls).head? = some line ∨
        (withoutBlankEnds ls).getLast? = some line → isBlank line = false := by
  have hcore : withoutBlankEnds ls ++ (ls.dropWhile isBlank).rtakeWhile isBlank
      = ls.dropWhile isBlank := List.rdropWhile_append_rtakeWhile
  refine ⟨ls.takeWhile isBlank, (ls.dropWhile isBlank).rtakeWhile isBlank, ?_, ?_, ?_⟩
  · rw [List.append_assoc, hcore, List.takeWhile_append_dropWhile]
  · intro line hline
    rcases List.mem_append.1 hline with hline | hline
    · exact List.mem_takeWhile_imp hline
    · exact List.mem_rtakeWhile_imp hline
  · rintro line (hhead | hlast)
    · -- the first line that is kept is the first one that is not blank
      have hfirst : (ls.dropWhile isBlank).head? = some line := by
        rw [← hcore, List.head?_append, hhead]
        rfl
      have hnot := List.head?_dropWhile_not isBlank ls
      rw [hfirst] at hnot
      exact Bool.eq_false_iff.2 (by simpa using hnot)
    · have hne : withoutBlankEnds ls ≠ [] := by
        rintro hnil
        rw [hnil] at hlast
        cases hlast
      have hnot := List.rdropWhile_last_not isBlank (ls.dropWhile isBlank) hne
      rw [List.getLast?_eq_some_getLast hne] at hlast
      rw [← Option.some.inj hlast]
      exact Bool.eq_false_iff.2 hnot

end Text

/-- A segment without the blank lines at its ends: a comment block as it is, a code run
trimmed, and nothing if nothing is left of it. -/
def Segment.withoutBlankEnds : Segment → Option Segment
  | comment b => some (comment b)
  | code r =>
    if Text.withoutBlankEnds r.lines = [] then none
    else some (code { lines := Text.withoutBlankEnds r.lines, ignoresBlankEnds := true })

/-- A document without the blank lines at the ends of its code runs. -/
def Document.withoutBlankEnds (d : Document) : Document :=
  { d with segments := d.segments.filterMap Segment.withoutBlankEnds }

/-! ## Skipping while lines come in -/

/-- The run that has the same lines so far and ignores blank ends. -/
def CodeRun.skipBlankStart (r : CodeRun) : CodeRun :=
  { lines := r.lines.dropWhile Text.isBlank, ignoresBlankEnds := true }

/-- A segment as it is handed over by a reader that ignores blank ends. -/
def Segment.skipBlankStart : Segment → Segment
  | comment b => comment b
  | code r => code r.skipBlankStart

/-- Where a reader stands that ignores blank ends. -/
def Place.skipBlankStart : Place → Place
  | between => between
  | inCode r => inCode r.skipBlankStart
  | inComment b => inComment b

/-- A place in which no run has been asked to ignore blank ends. -/
def Place.IsPlain : Place → Prop
  | inCode r => r.ignoresBlankEnds = false
  | _ => True

theorem CodeRun.push_skipBlankStart {r : CodeRun} (hr : r.ignoresBlankEnds = false) (line : Text) :
    r.skipBlankStart.push line = (r.push line).skipBlankStart := by
  have hpush : r.push line = { r with lines := r.lines ++ [line] } := by
    rw [push, hr]
    rfl
  rw [hpush]
  unfold push skipBlankStart
  dsimp only
  rw [List.dropWhile_append]
  cases hrest : r.lines.dropWhile Text.isBlank with
  | nil =>
    cases hline : Text.isBlank line with
    | true => simp [hline]
    | false => simp [hline]
  | cons first rest => simp

/-- **What a document keeps of a run that ignores blank ends** is what it keeps of the
plain one, trimmed. -/
theorem Segment.settle_skipBlankStart {s : Segment}
    (hs : ∀ r, s = code r → r.ignoresBlankEnds = false) :
    s.skipBlankStart.settle = s.settle.filterMap withoutBlankEnds := by
  cases s with
  | comment b =>
    show (comment b).settle = (comment b).settle.filterMap withoutBlankEnds
    unfold settle
    split
    · rfl
    · rfl
  | code r =>
    have hfinish : (code r).finish = code r := by
      show code r.finish = code r
      rw [CodeRun.finish, hs r rfl, if_neg Bool.false_ne_true]
    have htrimmed : (code r).skipBlankStart.finish
        = code { lines := Text.withoutBlankEnds r.lines, ignoresBlankEnds := true } := rfl
    unfold settle
    rw [hfinish, htrimmed]
    show (if (Text.withoutBlankEnds r.lines).isEmpty = true then _ else _)
      = (if r.lines.isEmpty = true then _ else _ : List Segment).filterMap withoutBlankEnds
    cases hlines : r.lines with
    | nil => rfl
    | cons first rest =>
      by_cases hnil : Text.withoutBlankEnds (first :: rest) = []
      · simp [withoutBlankEnds, hlines, hnil]
      · simp [withoutBlankEnds, hlines, hnil]

namespace Place

variable {place : Place}

/-- **One line**: a reader that ignores blank ends goes where a plain one goes, and hands
over what that hands over. -/
theorem step_skipBlankStart (g : Grammar) (hplain : place.IsPlain) (line : Text) :
    place.skipBlankStart.step g true line
        = ((place.step g false line).1.map Segment.skipBlankStart,
            (place.step g false line).2.skipBlankStart) ∧
      (place.step g false line).2.IsPlain ∧
      ∀ s ∈ (place.step g false line).1, ∀ r, s = .code r → r.ignoresBlankEnds = false := by
  have hfirst : CodeRun.push { ignoresBlankEnds := true } line
      = (CodeRun.push { ignoresBlankEnds := false } line).skipBlankStart :=
    CodeRun.push_skipBlankStart (r := {}) rfl line
  have hstays : ∀ r : CodeRun, r.ignoresBlankEnds = false →
      (r.push line).ignoresBlankEnds = false := by
    intro r hr
    unfold CodeRun.push
    split
    · exact hr
    · exact hr
  cases place with
  | between =>
    rw [skipBlankStart, step, step]
    split
    · exact ⟨rfl, trivial, by simp⟩
    · exact ⟨by rw [hfirst]; rfl, hstays _ rfl, by simp⟩
  | inCode r =>
    rw [skipBlankStart, step, step]
    split
    · refine ⟨rfl, trivial, fun s hs r' heq => ?_⟩
      obtain rfl := Segment.code.inj (heq.symm.trans (List.mem_singleton.1 hs))
      exact hplain
    · exact ⟨by rw [CodeRun.push_skipBlankStart hplain]; rfl, hstays r hplain, by simp⟩
  | inComment b =>
    rw [skipBlankStart, step, step]
    split
    · split
      · exact ⟨rfl, trivial, by simp⟩
      · exact ⟨by rw [hfirst]; rfl, hstays _ rfl, by simp⟩
    · split
      · exact ⟨rfl, trivial, by simp⟩
      · exact ⟨rfl, trivial, by simp⟩

end Place

namespace Document

/-- Settling what a reader hands over that ignores blank ends. -/
theorem flatMap_settle_skipBlankStart {out : List Segment}
    (hout : ∀ s ∈ out, ∀ r, s = .code r → r.ignoresBlankEnds = false) :
    (out.map Segment.skipBlankStart).flatMap Segment.settle
      = (out.flatMap Segment.settle).filterMap Segment.withoutBlankEnds := by
  rw [List.flatMap_map, List.filterMap_flatMap]
  exact List.flatMap_congr fun s hs => Segment.settle_skipBlankStart (hout s hs)

/-- **Reading on with blank ends ignored** is reading on plainly and trimming. -/
theorem segmentsFrom_skipBlankStart (g : Grammar) {place : Place} (hplain : place.IsPlain)
    (ls : List Text) :
    segmentsFrom g true place.skipBlankStart ls
      = (segmentsFrom g false place ls).filterMap Segment.withoutBlankEnds := by
  induction ls generalizing place with
  | nil =>
    rw [segmentsFrom, segmentsFrom]
    cases place with
    | between => rfl
    | inCode r =>
      refine Segment.settle_skipBlankStart (s := .code r) fun r' heq => ?_
      obtain rfl := Segment.code.inj heq
      exact hplain
    | inComment b => exact Segment.settle_skipBlankStart (s := .comment b) fun r heq => by cases heq
  | cons line ls ih =>
    obtain ⟨hstep, hnext, hout⟩ := place.step_skipBlankStart g hplain line
    rw [segmentsFrom_cons, segmentsFrom_cons, hstep, List.filterMap_append, ih hnext,
      flatMap_settle_skipBlankStart hout]

/-- **A document read with blank ends ignored is the plain document trimmed**, for every
grammar and every text: the comment blocks are the same, each code run has lost the blank
lines at its two ends and no others, runs of which nothing is left are gone, and the
final newline is missing in both or in neither. -/
theorem ofLines_ignoringBlankEnds (g : Grammar) (t : Text) :
    ofLines g true (Text.rawLines t) = (ofText g t).withoutBlankEnds ∧
    ∀ r, Segment.code r ∈ (ofText g t).segments →
      ∃ above below, r.lines = above ++ Text.withoutBlankEnds r.lines ++ below ∧
        (∀ line ∈ above ++ below, Text.isBlank line = true) ∧
        ∀ line, (Text.withoutBlankEnds r.lines).head? = some line ∨
          (Text.withoutBlankEnds r.lines).getLast? = some line → Text.isBlank line = false := by
  refine ⟨?_, fun r _ => Text.exists_withoutBlankEnds r.lines⟩
  have hbetween : Place.between.IsPlain := trivial
  have hsegments := segmentsFrom_skipBlankStart g hbetween
    ((Text.rawLines t).map Text.stripTerminator)
  exact congrArg (fun segments => Document.mk segments (lacksFinalNewline (Text.rawLines t)))
    hsegments

/-- The blank line inside the run stays, the run of blank lines goes. -/
example :
    (ofLines Language.sh.grammar true
        (Text.rawLines "# a\n\n \n# b\n\nx\n\ny\n\t\n".toList)).segments
      = [.comment { grammar := Language.sh.grammar, opened := true, lines := [" a".toList] },
         .comment { grammar := Language.sh.grammar, opened := true, lines := [" b".toList] },
         .code { lines := ["x".toList, [], "y".toList], ignoresBlankEnds := true }] := by
  decide

end Document

end LicenseHeader
