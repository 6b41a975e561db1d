import LicenseHeader.Action.Basic
import LicenseHeader.Proofs.NormalForm

/-!
# What putting the head of a Java file in order keeps

`Layout.javaHead` takes the license out of a file, sets it and the package line at
the top, and lets the rest of the file through a sieve that is in one of three
stages (`Layout.JavaStage`). What the sieve can do with a line is said once, in
`Layout.JavaStage.Sift`.

A document is looked at here as a list of *pieces* (`Layout.Piece`), where a comment
block is one piece and a line of code is one piece, so that it does not matter how
the code is gathered into runs. The pieces that count (`Layout.Piece.isItem`) are
the blocks and the lines that are neither blank nor package declarations. Of these
nothing is lost and nothing changes its place, apart from the license
(`Layout.javaHead_items`).

Below the imports a stricter rule could be expected, that the file is left as it is,
blank lines, package lines and all. It holds for everything behind the code run in
which the imports end. Inside that run the sieve still takes out lines that look like
package declarations, and `Layout.javaHead_tail_iff` says that this is the only
exception.
-/

namespace LicenseHeader.Layout

/-! ## Pieces -/

/-- **A piece of a document**: a comment block as a whole, or one line of code. -/
inductive Piece where
  | block (b : CommentBlock)
  | line (text : Text)
deriving DecidableEq

/-- Whether a line is the first one behind the imports: it is neither blank, nor a
package declaration, nor an import, nor a line comment. -/
def endsImports (line : Text) : Bool :=
  !(Text.isBlank line || isPackage line || isImport line || isLineComment line)

/-- Whether a line is to be found again: it is neither blank nor a package declaration. -/
def isKeptLine (line : Text) : Bool := !(Text.isBlank line || isPackage line)

namespace Piece

/-- Whether a piece is to be found again. -/
def isItem : Piece → Bool
  | block _ => true
  | line l => isKeptLine l

/-- Whether a piece is a line that ends the imports. -/
def endsImports : Piece → Bool
  | block _ => false
  | line l => Layout.endsImports l

end Piece

/-- The pieces of a segment. -/
def segmentPieces : Segment → List Piece
  | .comment b => [.block b]
  | .code r => r.lines.map .line

/-- **The pieces of a list of segments**, in order. -/
def pieces (segments : List Segment) : List Piece := segments.flatMap segmentPieces

/-- **The items of a list of segments**: the pieces that are to be found again. -/
def items (segments : List Segment) : List Piece := (pieces segments).filter Piece.isItem

@[simp] theorem pieces_cons (s : Segment) (segments : List Segment) :
    pieces (s :: segments) = segmentPieces s ++ pieces segments := List.flatMap_cons

@[simp] theorem pieces_append (segments more : List Segment) :
    pieces (segments ++ more) = pieces segments ++ pieces more := List.flatMap_append

theorem items_append (segments more : List Segment) :
    items (segments ++ more) = items segments ++ items more := by
  unfold items
  rw [pieces_append, List.filter_append]

/-- Code lines are set down as they are, in one run or in none. -/
@[simp] theorem pieces_settle_code (ls : List Text) :
    pieces (Segment.code { lines := ls }).settle = ls.map .line := by
  cases ls with
  | nil => rfl
  | cons l ls => exact List.append_nil _

theorem flatMap_settle {segments : List Segment} (h : ∀ s ∈ segments, s.settle = [s]) :
    segments.flatMap Segment.settle = segments := by
  rw [List.flatMap_def, List.map_congr_left h, ← List.flatMap_def, List.flatMap_singleton']

theorem filter_isItem_map_line (ls : List Text) :
    (ls.map Piece.line).filter Piece.isItem = (ls.filter isKeptLine).map .line := List.filter_map

theorem isPackage_of_endsImports {line : Text} (h : endsImports line = true) :
    isPackage line = false := by
  unfold endsImports at h
  cases hp : isPackage line with
  | false => rfl
  | true => rw [hp] at h; simp at h

theorem endsImports_eq {line : Text} (hp : isPackage line = false) :
    endsImports line = !(Text.isBlank line || isLineComment line || isImport line) := by
  rw [endsImports, hp, Bool.or_false, Bool.or_right_comm]

/-! ## The sieve -/

namespace JavaStage

/-- **All that the sieve can do with a line**: the stage after it and what is let
through. -/
inductive Sift : JavaStage → Text → JavaStage → List Text → Prop
  /-- A package declaration is taken out, at every stage. -/
  | package {stage : JavaStage} {line : Text} (h : isPackage line = true) :
      Sift stage line stage []
  /-- A blank line before the first import is taken out. -/
  | blank {line : Text} (hp : isPackage line = false) (h : Text.isBlank line = true) :
      Sift seeking line seeking []
  /-- The first import. -/
  | firstImport {line : Text} (hp : isPackage line = false) (hb : Text.isBlank line = false)
      (h : isImport line = true) : Sift seeking line importing [line]
  /-- The imports go on. -/
  | amongImports {line : Text} (hp : isPackage line = false) (h : endsImports line = false) :
      Sift importing line importing [line]
  /-- The imports end, or there are none. -/
  | ends {stage : JavaStage} {line : Text} (hstage : stage ≠ body)
      (h : endsImports line = true) : Sift stage line body [line]
  /-- Behind the imports. -/
  | inBody {line : Text} (hp : isPackage line = false) : Sift body line body [line]

variable {stage stage' : JavaStage} {line : Text} {rest kept : List Text}

/-- What becomes of a line that is no package declaration. -/
theorem sift_of_next {lets : Bool} (hp : isPackage line = false)
    (h : stage.next line = .ok (stage', lets)) :
    Sift stage line stage' (if lets then [line] else []) := by
  cases stage with
  | seeking =>
    rw [next] at h
    split at h
    · rename_i hb
      cases h
      exact .blank hp hb
    · rename_i hb
      split at h
      · rename_i hi
        cases h
        exact .firstImport hp (Bool.eq_false_iff.2 hb) hi
      · rename_i hi
        split at h
        · cases h
        · rename_i hc
          cases h
          refine .ends (by decide) ?_
          rw [endsImports_eq hp, Bool.eq_false_iff.2 hb, Bool.eq_false_iff.2 hi,
            Bool.eq_false_iff.2 hc]
          rfl
  | importing =>
    rw [next] at h
    split at h
    · rename_i hstays
      cases h
      exact .amongImports hp (by rw [endsImports_eq hp, hstays]; rfl)
    · rename_i hends
      cases h
      exact .ends (by decide) (by rw [endsImports_eq hp, Bool.eq_false_iff.2 hends]; rfl)
  | body =>
    cases h
    exact .inBody hp

/-- **One line**: what is let through of it stands before what is let through of the
lines behind it. -/
theorem exists_sift_of_keep (h : keep stage (line :: rest) = .ok (stage', kept)) :
    ∃ mid first more, Sift stage line mid first ∧ keep mid rest = .ok (stage', more) ∧
      kept = first ++ more := by
  rw [keep] at h
  cases hp : isPackage line with
  | true =>
    rw [hp, if_pos rfl] at h
    exact ⟨stage, [], kept, .package hp, h, rfl⟩
  | false =>
    rw [hp, if_neg Bool.false_ne_true] at h
    cases hnext : stage.next line with
    | error e => rw [hnext] at h; cases h
    | ok p =>
      rw [hnext] at h
      obtain ⟨mid, lets⟩ := p
      change (keep mid rest >>= _) = _ at h
      cases hrest : keep mid rest with
      | error e => rw [hrest] at h; cases h
      | ok q =>
        rw [hrest] at h
        obtain ⟨last, more⟩ := q
        obtain ⟨rfl, hkept⟩ := Prod.mk.inj (Except.ok.inj h)
        refine ⟨mid, _, more, sift_of_next hp hnext, hrest, hkept.symm.trans ?_⟩
        cases lets <;> rfl

/-- What is taken out of a line is not to be found again. -/
theorem Sift.filter_isKeptLine (h : Sift stage line stage' kept) :
    kept.filter isKeptLine = [line].filter isKeptLine := by
  cases h with
  | package h => simp [isKeptLine, h]
  | blank _ h => simp [isKeptLine, h]
  | firstImport => rfl
  | amongImports => rfl
  | ends => rfl
  | inBody => rfl

/-- **Nothing is lost in the sieve** that is to be found again. -/
theorem filter_isKeptLine_keep {ls : List Text} (h : keep stage ls = .ok (stage', kept)) :
    kept.filter isKeptLine = ls.filter isKeptLine := by
  induction ls generalizing stage kept with
  | nil => cases h; rfl
  | cons line ls ih =>
    obtain ⟨mid, first, more, hsift, hkeep, rfl⟩ := exists_sift_of_keep h
    rw [List.filter_append, hsift.filter_isKeptLine, ih hkeep, ← List.filter_append]
    rfl

/-- The line that ends the imports is let through. -/
theorem Sift.of_ends (h : Sift stage line stage' kept) (hstage : stage ≠ body)
    (hline : endsImports line = true) : stage' = body ∧ kept = [line] := by
  cases h with
  | package hp => rw [isPackage_of_endsImports hline] at hp; cases hp
  | blank hp hb => rw [endsImports_eq hp, hb] at hline; cases hline
  | firstImport hp hb hi => rw [endsImports_eq hp, hb, hi, Bool.or_true] at hline; cases hline
  | amongImports _ hstays => rw [hstays] at hline; cases hline
  | ends => exact ⟨rfl, rfl⟩
  | inBody => exact absurd rfl hstage

/-- Any other line leaves the sieve before the end of the imports. -/
theorem Sift.of_not_ends (h : Sift stage line stage' kept) (hstage : stage ≠ body)
    (hline : endsImports line = false) : stage' ≠ body ∧ ∀ l ∈ kept, l = line := by
  cases h with
  | package => exact ⟨hstage, by simp⟩
  | blank => exact ⟨by decide, by simp⟩
  | firstImport => exact ⟨by decide, by simp⟩
  | amongImports => exact ⟨by decide, by simp⟩
  | ends _ hends => rw [hends] at hline; cases hline
  | inBody => exact absurd rfl hstage

/-- **Behind the imports** the sieve takes out package declarations and nothing else. -/
theorem keep_body {ls : List Text} (h : keep body ls = .ok (stage', kept)) :
    stage' = body ∧ kept = ls.filter fun l => !isPackage l := by
  induction ls generalizing kept with
  | nil => cases h; exact ⟨rfl, rfl⟩
  | cons line ls ih =>
    obtain ⟨mid, first, more, hsift, hkeep, rfl⟩ := exists_sift_of_keep h
    cases hsift with
    | package hp =>
      obtain ⟨hstage, rfl⟩ := ih hkeep
      refine ⟨hstage, ?_⟩
      rw [List.filter_cons_of_neg (by rw [hp]; exact Bool.false_ne_true)]
      rfl
    | ends hstage => exact absurd rfl hstage
    | inBody hp =>
      obtain ⟨hstage, rfl⟩ := ih hkeep
      refine ⟨hstage, ?_⟩
      rw [List.filter_cons_of_pos (by rw [hp]; rfl)]
      rfl

end JavaStage

/-- The lines from the end of the imports on. -/
def fromEnd (ls : List Text) : List Text := ls.dropWhile fun l => !endsImports l

theorem fromEnd_cons_of_ends {line : Text} (h : endsImports line = true) (ls : List Text) :
    fromEnd (line :: ls) = line :: ls :=
  List.dropWhile_cons_of_neg (by rw [h]; exact Bool.false_ne_true)

theorem fromEnd_cons_of_not_ends {line : Text} (h : endsImports line = false) (ls : List Text) :
    fromEnd (line :: ls) = fromEnd ls :=
  List.dropWhile_cons_of_pos (by rw [h]; rfl)

/-- **A code run in the sieve.** Above the end of the imports some lines are let through;
from there on all that are no package declarations. -/
theorem JavaStage.exists_front_of_keep {stage stage' : JavaStage} {ls kept : List Text}
    (h : stage.keep ls = .ok (stage', kept)) (hstage : stage ≠ body) :
    ∃ front, kept = front ++ (fromEnd ls).filter (fun l => !isPackage l) ∧
      (∀ l ∈ front, endsImports l = false) ∧ (stage' = body ↔ fromEnd ls ≠ []) := by
  induction ls generalizing stage kept with
  | nil =>
    cases h
    exact ⟨[], rfl, by simp, iff_of_false hstage (fun hne => hne rfl)⟩
  | cons line ls ih =>
    obtain ⟨mid, first, more, hsift, hkeep, rfl⟩ := exists_sift_of_keep h
    cases hline : endsImports line with
    | true =>
      obtain ⟨rfl, rfl⟩ := hsift.of_ends hstage hline
      obtain ⟨rfl, rfl⟩ := keep_body hkeep
      rw [fromEnd_cons_of_ends hline]
      refine ⟨[], ?_, by simp, iff_of_true rfl (List.cons_ne_nil _ _)⟩
      rw [List.filter_cons_of_pos (by rw [isPackage_of_endsImports hline]; rfl)]
      rfl
    | false =>
      obtain ⟨hmid, hfirst⟩ := hsift.of_not_ends hstage hline
      obtain ⟨front, rfl, hfront, hbody⟩ := ih hkeep hmid
      rw [fromEnd_cons_of_not_ends hline]
      refine ⟨first ++ front, (List.append_assoc _ _ _).symm, fun l hl => ?_, hbody⟩
      rcases List.mem_append.1 hl with hl | hl
      · rw [hfirst l hl, hline]
      · exact hfront l hl

/-! ## The segments below the head -/

section BelowHead

variable {stage : JavaStage} {pending : List Text} {rest out : List Segment}

/-- A comment block sets down what is pending, and then itself. -/
theorem exists_of_belowHead_comment {b : CommentBlock}
    (h : belowHead stage pending (.comment b :: rest) = .ok out) :
    ∃ more, belowHead stage [] rest = .ok more ∧
      out = (Segment.code { lines := pending }).settle ++ (Segment.comment b).settle ++ more := by
  rw [belowHead] at h
  cases hrest : belowHead stage [] rest with
  | error e => rw [hrest] at h; cases h
  | ok more => rw [hrest] at h; cases h; exact ⟨more, rfl, rfl⟩

/-- A code run goes through the sieve; what is let through stays pending unless the
imports end there. -/
theorem exists_of_belowHead_code {r : CodeRun}
    (h : belowHead stage pending (.code r :: rest) = .ok out) :
    ∃ stage' kept, stage.keep r.lines = .ok (stage', kept) ∧
      (stage' = .body ∧
          out = (Segment.code { lines := pending ++ kept }).settle ++ rest.flatMap Segment.settle ∨
        stage' ≠ .body ∧ belowHead stage' (pending ++ kept) rest = .ok out) := by
  rw [belowHead] at h
  cases hkeep : stage.keep r.lines with
  | error e => rw [hkeep] at h; cases h
  | ok p =>
    rw [hkeep] at h
    obtain ⟨stage', kept⟩ := p
    refine ⟨stage', kept, rfl, ?_⟩
    change (if stage' = .body then _ else _) = _ at h
    split at h
    · rename_i hbody
      cases h
      exact .inl ⟨hbody, rfl⟩
    · rename_i hbody
      exact .inr ⟨hbody, h⟩

end BelowHead

/-- **Below the head the items are those of the file**, behind those that are pending. -/
theorem items_belowHead {stage : JavaStage} {pending : List Text} {segments out : List Segment}
    (hsettled : ∀ s ∈ segments, s.settle = [s])
    (h : belowHead stage pending segments = .ok out) :
    items out = (pending.filter isKeptLine).map .line ++ items segments := by
  induction segments generalizing stage pending out with
  | nil =>
    cases h
    rw [items, pieces_settle_code, filter_isItem_map_line]
    exact (List.append_nil _).symm
  | cons s rest ih =>
    obtain ⟨hs, hrest⟩ := List.forall_mem_cons.1 hsettled
    cases s with
    | comment b =>
      obtain ⟨more, hmore, rfl⟩ := exists_of_belowHead_comment h
      have hitems := ih hrest hmore
      unfold items at hitems ⊢
      rw [hs, pieces_append, pieces_append, List.filter_append, List.filter_append, hitems,
        pieces_settle_code, filter_isItem_map_line, pieces_cons, List.filter_append]
      exact List.append_assoc _ _ _
    | code r =>
      have hrun : items (.code r :: rest)
          = (r.lines.filter isKeptLine).map .line ++ items rest := by
        rw [items, pieces_cons, List.filter_append]
        exact congrArg (· ++ items rest) (filter_isItem_map_line r.lines)
      obtain ⟨stage', kept, hkeep, ⟨-, rfl⟩ | ⟨-, hmore⟩⟩ := exists_of_belowHead_code h
      · rw [flatMap_settle hrest, items, pieces_append, List.filter_append, pieces_settle_code,
          filter_isItem_map_line, List.filter_append, List.map_append,
          JavaStage.filter_isKeptLine_keep hkeep, hrun, List.append_assoc]
        rfl
      · rw [ih hrest hmore, List.filter_append, List.map_append,
          JavaStage.filter_isKeptLine_keep hkeep, hrun, List.append_assoc]

/-! ## Behind the imports -/

/-- The lines from the end of the imports on in the code run in which they end, and the
segments behind that run. -/
def behindImports : List Segment → List Text × List Segment
  | [] => ([], [])
  | .comment _ :: rest => behindImports rest
  | .code r :: rest =>
    if (fromEnd r.lines).isEmpty then behindImports rest else (fromEnd r.lines, rest)

/-- **The pieces from the end of the imports on** are the rest of the run in which they
end, and what stands behind that run. -/
theorem dropWhile_pieces (segments : List Segment) :
    ((pieces segments).dropWhile fun p => !p.endsImports)
      = (behindImports segments).1.map .line ++ pieces (behindImports segments).2 := by
  induction segments with
  | nil => rfl
  | cons s rest ih =>
    cases s with
    | comment b => exact ih
    | code r =>
      have hlines : ((r.lines.map Piece.line).dropWhile fun p => !p.endsImports)
          = (fromEnd r.lines).map .line := List.dropWhile_map
      rw [pieces_cons, segmentPieces, List.dropWhile_append, hlines, behindImports]
      cases hempty : (fromEnd r.lines).isEmpty with
      | true => rw [List.isEmpty_map, hempty, if_pos rfl, if_pos rfl]; exact ih
      | false =>
        rw [List.isEmpty_map, hempty, if_neg Bool.false_ne_true, if_neg Bool.false_ne_true]

theorem endsImports_map_line {ls : List Text} (h : ∀ l ∈ ls, endsImports l = false) :
    ∀ p ∈ ls.map Piece.line, p.endsImports = false :=
  List.forall_mem_map.2 h

/-- **The pieces below the head**: some that do not end the imports, and then, less the
package declarations of the run in which these end, all from there on. -/
theorem exists_pieces_belowHead {stage : JavaStage} {pending : List Text}
    {segments out : List Segment} (hsettled : ∀ s ∈ segments, s.settle = [s])
    (hstage : stage ≠ .body) (hpending : ∀ l ∈ pending, endsImports l = false)
    (h : belowHead stage pending segments = .ok out) :
    ∃ front, pieces out = front
        ++ (((behindImports segments).1.filter fun l => !isPackage l).map .line
          ++ pieces (behindImports segments).2) ∧
      ∀ p ∈ front, p.endsImports = false := by
  induction segments generalizing stage pending out with
  | nil =>
    cases h
    refine ⟨pending.map .line, ?_, ?_⟩
    · rw [pieces_settle_code]
      exact (List.append_nil _).symm
    · exact endsImports_map_line hpending
  | cons s rest ih =>
    obtain ⟨hs, hrest⟩ := List.forall_mem_cons.1 hsettled
    cases s with
    | comment b =>
      obtain ⟨more, hmore, rfl⟩ := exists_of_belowHead_comment h
      obtain ⟨front, hfront, hquiet⟩ := ih hrest hstage (by simp) hmore
      refine ⟨pending.map .line ++ .block b :: front, ?_, ?_⟩
      · rw [hs, pieces_append, pieces_append, hfront, pieces_settle_code, List.append_assoc,
          List.append_assoc]
        rfl
      · intro p hp
        rcases List.mem_append.1 hp with hp | hp
        · exact endsImports_map_line hpending p hp
        · rcases List.mem_cons.1 hp with rfl | hp
          · rfl
          · exact hquiet p hp
    | code r =>
      obtain ⟨stage', kept, hkeep, hcases⟩ := exists_of_belowHead_code h
      obtain ⟨first, rfl, hfirst, hbody⟩ := JavaStage.exists_front_of_keep hkeep hstage
      have hquiet : ∀ l ∈ pending ++ first, endsImports l = false := fun l hl => by
        rcases List.mem_append.1 hl with hl | hl
        · exact hpending l hl
        · exact hfirst l hl
      rcases hcases with ⟨hstage', rfl⟩ | ⟨hstage', hmore⟩
      · -- the imports end in this run
        have hne : ¬ (fromEnd r.lines).isEmpty = true := by
          rw [List.isEmpty_iff]
          exact hbody.1 hstage'
        rw [behindImports, if_neg hne, flatMap_settle hrest, pieces_append, pieces_settle_code]
        refine ⟨(pending ++ first).map .line, ?_, endsImports_map_line hquiet⟩
        rw [← List.append_assoc pending, List.map_append, List.append_assoc]
      · -- they do not, and all that was let through is pending
        have hnil : fromEnd r.lines = [] :=
          Decidable.of_not_not fun hne => hstage' (hbody.2 hne)
        rw [behindImports, hnil, if_pos List.isEmpty_nil]
        rw [hnil, List.filter_nil, List.append_nil] at hmore
        exact ih hrest hstage' hquiet hmore

/-! ## The head -/

/-- **The first block** is the one above which there is none. -/
theorem aroundComment?_eq_some_iff {segments above below : List Segment} {b : CommentBlock} :
    Document.aroundComment? segments = some (above, b, below) ↔
      segments = above ++ .comment b :: below ∧ ∀ s ∈ above, s.comment? = none := by
  constructor
  · intro h
    induction segments generalizing above with
    | nil => cases h
    | cons s rest ih =>
      cases s with
      | comment b' => cases h; exact ⟨rfl, by simp⟩
      | code r =>
        obtain ⟨⟨above', b', below'⟩, habove, heq⟩ := Option.map_eq_some_iff.1 h
        cases heq
        obtain ⟨rfl, hnone⟩ := ih habove
        exact ⟨rfl, List.forall_mem_cons.2 ⟨rfl, hnone⟩⟩
  · rintro ⟨rfl, hnone⟩
    induction above with
    | nil => rfl
    | cons s above ih =>
      obtain ⟨hs, habove⟩ := List.forall_mem_cons.1 hnone
      cases s with
      | comment b' => cases hs
      | code r => rw [List.cons_append, Document.aroundComment?, ih habove]; rfl

/-- The lines that are put above the license. -/
def linesAbove (licenseOnTop : Bool) (d : Document) : List Text :=
  if licenseOnTop then [] else packageLines d

/-- The lines that are put right below the license. -/
def linesBelow (licenseOnTop : Bool) (d : Document) : List Text :=
  if licenseOnTop then [] :: packageLines d else []

/-- **What a file in order consists of**: the license between the lines put above and
below it, and the rest of the file through the sieve. -/
theorem exists_of_javaHead {licenseOnTop : Bool} {g : Grammar} {t : Text} {d : Document}
    (h : javaHead licenseOnTop (.ofText g t) = .ok d) :
    ∃ above license below more,
      (Document.ofText g t).segments = above ++ .comment license :: below ∧
      (∀ s ∈ above, s.comment? = none) ∧
      (∀ s ∈ above ++ below, s.settle = [s]) ∧
      belowHead .seeking (if licenseOnTop then [] else [[]]) (above ++ below) = .ok more ∧
      d.segments = (Segment.code { lines := linesAbove licenseOnTop (.ofText g t) }).settle
        ++ .comment license ::
          ((Segment.code { lines := linesBelow licenseOnTop (.ofText g t) }).settle ++ more) := by
  unfold javaHead at h
  split at h
  · cases h
  · rename_i above license below haround
    obtain ⟨hcut, hnone⟩ := aroundComment?_eq_some_iff.1 haround
    have hsettled : ∀ s ∈ above ++ .comment license :: below, s.settle = [s] := fun s hs =>
      Document.settle_of_mem (g := g) (t := t) (hcut ▸ hs)
    have hlicense := hsettled (.comment license) (by simp)
    refine ⟨above, license, below, ?_⟩
    dsimp only at h
    split at h
    · cases h
    · cases hbelow : belowHead .seeking (if licenseOnTop then [] else [[]]) (above ++ below) with
      | error e => rw [hbelow] at h; cases h
      | ok more =>
        rw [hbelow] at h
        cases h
        refine ⟨more, hcut, hnone, fun s hs => hsettled s ?_, rfl, ?_⟩
        · rcases List.mem_append.1 hs with hs | hs
          · exact List.mem_append_left _ hs
          · exact List.mem_append_right _ (List.mem_cons_of_mem _ hs)
        · rw [hlicense]
          cases licenseOnTop with
          | true => rfl
          | false => exact List.append_assoc _ _ _

/-- The lines put around the license are none of the items. -/
theorem isKeptLine_around (licenseOnTop : Bool) (d : Document) :
    (∀ l ∈ linesAbove licenseOnTop d, isKeptLine l = false) ∧
      ∀ l ∈ linesBelow licenseOnTop d, isKeptLine l = false := by
  have hpackage : ∀ l ∈ packageLines d, isKeptLine l = false := by
    intro l hl
    unfold packageLines at hl
    split at hl
    · rename_i line hfind
      have hp := List.find?_some hfind
      rcases List.mem_cons.1 hl with rfl | hl
      · rw [isKeptLine, hp, Bool.or_true]; rfl
      · rw [List.mem_singleton.1 hl]; rfl
    · cases hl
  cases licenseOnTop with
  | true => exact ⟨by simp [linesAbove], List.forall_mem_cons.2 ⟨rfl, hpackage⟩⟩
  | false => exact ⟨hpackage, by simp [linesBelow]⟩

theorem endsImports_of_not_isKeptLine {l : Text} (h : isKeptLine l = false) :
    endsImports l = false := by
  rw [isKeptLine, Bool.not_eq_false'] at h
  rw [endsImports, h]
  rfl

theorem items_settle_code {ls : List Text} (h : ∀ l ∈ ls, isKeptLine l = false) :
    items (Segment.code { lines := ls }).settle = [] := by
  have hnone : ls.filter isKeptLine = [] :=
    List.filter_eq_nil_iff.2 fun l hl => Bool.eq_false_iff.1 (h l hl)
  rw [items, pieces_settle_code, filter_isItem_map_line, hnone]
  rfl

theorem flatMap_render_settle_code (ls : List Text) :
    (Segment.code { lines := ls }).settle.flatMap Segment.render = Text.unlines ls := by
  cases ls with
  | nil => rfl
  | cons l ls => exact List.append_nil _

/-- The first package declaration with an empty line behind it, where there is one. -/
def packageText (lines : List Text) : Text :=
  (lines.find? isPackage).elim [] fun line => line ++ ['\n', '\n']

theorem unlines_packageLines (d : Document) :
    Text.unlines (packageLines d) = packageText d.codeLines := by
  unfold packageLines packageText
  cases d.codeLines.find? isPackage with
  | none => rfl
  | some line => exact Text.unlines_cons line [[]]

/-- **Putting the head of a Java file in order keeps every line and every block.** Taken
apart from the license, which is the first block of the file, the items of the result
are those of the file in the same order. The license is there once more, and at the top
stand the license and the first package line in the order asked for. -/
theorem javaHead_items {licenseOnTop : Bool} {t : Text} {d : Document}
    (h : javaHead licenseOnTop (.ofText Language.java.grammar t) = .ok d) :
    ∃ above license below before behind,
      (Document.ofText Language.java.grammar t).segments = above ++ .comment license :: below ∧
      (∀ s ∈ above, s.comment? = none) ∧
      d.segments = before ++ .comment license :: behind ∧
      items (before ++ behind) = items (above ++ below) ∧
      (if licenseOnTop then
          license.render ++ '\n' :: packageText (Document.ofText Language.java.grammar t).codeLines
        else packageText (Document.ofText Language.java.grammar t).codeLines ++ license.render)
        <+: d.segments.flatMap Segment.render := by
  obtain ⟨above, license, below, more, hcut, hnone, hsettled, hbelow, hsegments⟩ :=
    exists_of_javaHead h
  have hpending : ((if licenseOnTop then [] else [[]] : List Text).filter isKeptLine) = [] := by
    cases licenseOnTop <;> rfl
  have hmore : items more = items (above ++ below) := by
    rw [items_belowHead hsettled hbelow, hpending]
    rfl
  have haround := isKeptLine_around licenseOnTop (.ofText Language.java.grammar t)
  refine ⟨above, license, below, _, _, hcut, hnone, hsegments, ?_, ?_⟩
  · rw [items_append, items_append, items_settle_code haround.1, items_settle_code haround.2,
      hmore]
    rfl
  · rw [hsegments, List.flatMap_append, List.flatMap_cons, List.flatMap_append,
      flatMap_render_settle_code, flatMap_render_settle_code]
    cases licenseOnTop with
    | true =>
      refine ⟨more.flatMap Segment.render, ?_⟩
      show (license.render ++ '\n' :: packageText _) ++ _
        = license.render ++ ('\n' :: Text.unlines (packageLines _) ++ _)
      rw [unlines_packageLines, List.append_assoc]
    | false =>
      refine ⟨more.flatMap Segment.render, ?_⟩
      show (packageText _ ++ license.render) ++ _
        = Text.unlines (packageLines _) ++ (license.render ++ _)
      rw [unlines_packageLines, List.append_assoc]
      rfl

/-- The license is among the imports, and the package line below it. -/
theorem javaHead_items_amongImports :
    ∃ d license before behind,
      javaHead false (.ofText Language.java.grammar
        "import a;\n/*\n * Copyright\n */\npackage p;\n// b\nclass A \x7b\x7d\n".toList) = .ok d ∧
      d.segments = before ++ .comment license :: behind ∧
      items (before ++ behind)
        = [.line "import a;".toList, .line "// b".toList, .line "class A \x7b\x7d".toList] ∧
      "package p;\n\n".toList ++ license.render <+: d.segments.flatMap Segment.render := by
  obtain ⟨d, h⟩ : ∃ d, javaHead false (.ofText Language.java.grammar
      "import a;\n/*\n * Copyright\n */\npackage p;\n// b\nclass A \x7b\x7d\n".toList)
        = .ok d := ⟨_, rfl⟩
  obtain ⟨above, license, below, before, behind, hcut, hnone, hsegments, hitems, htop⟩ :=
    javaHead_items h
  refine ⟨d, license, before, behind, h, hsegments, hitems.trans ?_, htop⟩
  cases aroundComment?_eq_some_iff.2 ⟨hcut, hnone⟩
  rfl

/-! ## Behind the imports nothing but package lines is lost -/

/-- A list of which elements were taken out is not made up for by what stands before it,
where the list begins with an element that cannot stand there. -/
theorem append_suffix_iff {α : Type} {begins : α → Bool} {front part whole behind : List α}
    (hpart : part.Sublist whole) (hwhole : ∀ x ∈ whole.head?, begins x = true)
    (hfront : ∀ x ∈ front, begins x = false) :
    whole ++ behind <:+ front ++ (part ++ behind) ↔ part = whole := by
  constructor
  · rintro ⟨before, h⟩
    rw [← List.append_assoc, ← List.append_assoc] at h
    rcases List.append_eq_append_iff.1 (List.append_cancel_right h) with
      ⟨between, rfl, hcut⟩ | ⟨between, -, hcut⟩
    · cases between with
      | nil => exact hcut.symm
      | cons x between =>
        -- the list would begin before the part that is left of it
        have hbegins := hwhole x (by rw [hcut]; rfl)
        rw [hfront x (by simp)] at hbegins
        cases hbegins
    · refine hpart.eq_of_length_le ?_
      rw [hcut, List.length_append]
      exact Nat.le_add_left _ _
  · rintro rfl
    exact List.suffix_append _ _

/-- The line from which on a file is behind the imports ends them. -/
theorem endsImports_head?_behindImports (segments : List Segment) :
    ∀ l ∈ (behindImports segments).1.head?, endsImports l = true := by
  induction segments with
  | nil => intro l hl; cases hl
  | cons s rest ih =>
    cases s with
    | comment b => exact ih
    | code r =>
      rw [behindImports]
      split
      · exact ih
      · intro l hl
        have hhead := List.head?_dropWhile_not (fun l => !endsImports l) r.lines
        rw [show r.lines.dropWhile (fun l => !endsImports l) = fromEnd r.lines from rfl,
          Option.mem_def.1 hl] at hhead
        simpa using hhead

/-- What is put at the head does not end the imports. -/
theorem exists_top_of_pieces {licenseOnTop : Bool} {d d' : Document} {license : CommentBlock}
    {more : List Segment} {front tail : List Piece}
    (hsegments : d'.segments = (Segment.code { lines := linesAbove licenseOnTop d }).settle
      ++ .comment license :: ((Segment.code { lines := linesBelow licenseOnTop d }).settle ++ more))
    (hmore : pieces more = front ++ tail) (hfront : ∀ p ∈ front, p.endsImports = false) :
    ∃ top, pieces d'.segments = top ++ tail ∧ ∀ p ∈ top, p.endsImports = false := by
  have haround := isKeptLine_around licenseOnTop d
  have habove := endsImports_map_line fun l hl => endsImports_of_not_isKeptLine (haround.1 l hl)
  have hbelow := endsImports_map_line fun l hl => endsImports_of_not_isKeptLine (haround.2 l hl)
  refine ⟨(linesAbove licenseOnTop d).map .line
    ++ .block license :: ((linesBelow licenseOnTop d).map .line ++ front), ?_, ?_⟩
  · rw [hsegments, pieces_append, pieces_cons, pieces_append, hmore, pieces_settle_code,
      pieces_settle_code, List.append_assoc, List.cons_append, List.append_assoc]
    rfl
  · intro p hp
    rcases List.mem_append.1 hp with hp | hp
    · exact habove p hp
    · rcases List.mem_cons.1 hp with rfl | hp
      · rfl
      · rcases List.mem_append.1 hp with hp | hp
        · exact hbelow p hp
        · exact hfront p hp

/-- **Behind the imports a Java file is left as it is, but for package lines in the run in
which they end.** Taken apart from the license, the pieces from the end of the imports on
are the rest of the code run in which the imports end and the segments behind it. A file
in order ends with these pieces, less the package declarations in the rest of that run;
so it ends with all of them if and only if there is no package declaration in it. -/
theorem javaHead_tail_iff {licenseOnTop : Bool} {t : Text} {d : Document}
    (h : javaHead licenseOnTop (.ofText Language.java.grammar t) = .ok d) :
    ∃ above license below,
      (Document.ofText Language.java.grammar t).segments = above ++ .comment license :: below ∧
      (∀ s ∈ above, s.comment? = none) ∧
      ((pieces (above ++ below)).dropWhile (fun p => !p.endsImports)
        = (behindImports (above ++ below)).1.map .line
          ++ pieces (behindImports (above ++ below)).2) ∧
      ((behindImports (above ++ below)).1.filter (fun l => !isPackage l)).map .line
          ++ pieces (behindImports (above ++ below)).2 <:+ pieces d.segments ∧
      ((pieces (above ++ below)).dropWhile (fun p => !p.endsImports) <:+ pieces d.segments ↔
        ∀ line ∈ (behindImports (above ++ below)).1, isPackage line = false) := by
  obtain ⟨above, license, below, more, hcut, hnone, hsettled, hbelow, hsegments⟩ :=
    exists_of_javaHead h
  have hpending : ∀ l ∈ (if licenseOnTop then [] else [[]] : List Text), endsImports l = false := by
    cases licenseOnTop <;> decide
  obtain ⟨front, hmore, hfront⟩ :=
    exists_pieces_belowHead hsettled (by decide) hpending hbelow
  obtain ⟨top, hpieces, htop⟩ := exists_top_of_pieces hsegments hmore hfront
  refine ⟨above, license, below, hcut, hnone, dropWhile_pieces _, ?_, ?_⟩
  · rw [hpieces]
    exact List.suffix_append _ _
  · rw [dropWhile_pieces, hpieces, append_suffix_iff (List.filter_sublist.map _) ?_ htop]
    · constructor
      · intro hall line hline
        have hlength := congrArg List.length hall
        rw [List.length_map, List.length_map, List.length_filter_eq_length_iff] at hlength
        simpa using hlength line hline
      · intro hnone
        rw [List.filter_eq_self.2 fun line hline => by rw [hnone line hline]; rfl]
    · intro p hp
      rw [List.head?_map] at hp
      obtain ⟨l, hl, rfl⟩ := Option.map_eq_some_iff.1 hp
      exact endsImports_head?_behindImports _ l hl

/-- A line that looks like a package declaration is lost from a text block. -/
theorem javaHead_tail_textBlock :
    ∃ d, javaHead false (.ofText Language.java.grammar
      "/*\n * Copyright\n */\nclass A \x7b\nString s = \"\"\"\npackage p;\n\"\"\";\n\x7d\n".toList)
        = .ok d ∧
      ¬ (["class A \x7b", "String s = \"\"\"", "package p;", "\"\"\";", "\x7d"].map
        fun line => Piece.line line.toList) <:+ pieces d.segments := by
  obtain ⟨d, h⟩ : ∃ d, javaHead false (.ofText Language.java.grammar
      "/*\n * Copyright\n */\nclass A \x7b\nString s = \"\"\"\npackage p;\n\"\"\";\n\x7d\n".toList)
        = .ok d := ⟨_, rfl⟩
  obtain ⟨above, license, below, hcut, hnone, -, -, hiff⟩ := javaHead_tail_iff h
  refine ⟨d, h, fun htail => ?_⟩
  cases aroundComment?_eq_some_iff.2 ⟨hcut, hnone⟩
  exact absurd (hiff.1 htail) (by decide)

end LicenseHeader.Layout
