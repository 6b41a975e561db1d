import LicenseHeader.Proofs.Stretches
import Mathlib.Data.List.TakeWhile

/-!
# The first comment block of a text

What a file says about its license is in its first comment block. Where that block
is can be said without following a reader through the text: above it are the lines
that open no block (`Grammar.above`), it begins with the first one that does, and
it goes on as long as the lines let it (`Grammar.goesOn`), which is up to the closer,
or, without a closer, as long as every line has the leader.

`Document.stretches_eq` cuts the stretches of a text at its first block, and
`Document.firstComment?_ofText` says which block that is. Both hold for every
grammar.
-/

namespace LicenseHeader

namespace Grammar

variable (g : Grammar)

/-- **Whether a block goes on with a line**: up to its closer, or, without one, as
long as lines have the leader. -/
def goesOn (line : Text) : Bool := if g.closer.isNone then g.leads line else !g.closes line

/-- The lines above the first one that opens a block. -/
def above (ls : List Text) : List Text := ls.takeWhile fun line => !g.opens line

/-- The lines from the first one that opens a block on. -/
def fromOpener (ls : List Text) : List Text := ls.dropWhile fun line => !g.opens line

variable {g} {line : Text}

theorem goesOn_of_closer_eq_none (h : g.closer = none) (line : Text) :
    g.goesOn line = g.leads line := by
  rw [goesOn, h, if_pos Option.isNone_none]

theorem goesOn_of_closer_eq_some {token : Text} (h : g.closer = some token) (line : Text) :
    g.goesOn line = !g.closes line := by
  rw [goesOn, h, if_neg (by simp)]

/-- A line with which a block goes on is a content line. -/
theorem leads_and_stays_of_goesOn (h : g.goesOn line = true) :
    (g.closer = none → g.leads line = true) ∧ g.closes line = false := by
  cases hcloser : g.closer with
  | none =>
    rw [goesOn_of_closer_eq_none hcloser] at h
    exact ⟨fun _ => h, closes_eq_false_of_closer hcloser line⟩
  | some token =>
    rw [goesOn_of_closer_eq_some hcloser, Bool.not_eq_true'] at h
    exact ⟨fun hnone => absurd hnone (by simp), h⟩

/-- A line with which a block does not go on lacks the leader or closes the block. -/
theorem ends_of_goesOn (h : g.goesOn line = false) :
    g.closer = none ∧ g.leads line = false ∨ g.closes line = true := by
  cases hcloser : g.closer with
  | none =>
    rw [goesOn_of_closer_eq_none hcloser] at h
    exact .inl ⟨rfl, h⟩
  | some token =>
    rw [goesOn_of_closer_eq_some hcloser, Bool.not_eq_false'] at h
    exact .inr h

theorem leader_isSome (hg : g.hasComments = true) (hcloser : g.closer = none) :
    g.leader.isSome = true := by
  cases hleader : g.leader with
  | some token => rfl
  | none =>
    -- the opener is then the declared one, and that needs a closer or a leader
    have hdeclared : g.declaredOpener.isSome = true := by
      rw [hasComments, opener, hleader] at hg
      simpa using hg
    have hbounded := g.bounded hdeclared
    rw [hcloser, hleader] at hbounded
    simp at hbounded

theorem opens_of_mem_above {ls : List Text} (h : line ∈ g.above ls) : g.opens line = false := by
  have hnot := List.mem_takeWhile_imp h
  rwa [Bool.not_eq_true'] at hnot

theorem opens_of_fromOpener {ls rest : List Text} (h : g.fromOpener ls = line :: rest) :
    g.opens line = true := by
  have hhead := List.head?_dropWhile_not (fun line => !g.opens line) ls
  rw [show ls.dropWhile _ = _ from h, List.head?_cons] at hhead
  simpa using hhead

theorem above_append_fromOpener (ls : List Text) : g.above ls ++ g.fromOpener ls = ls :=
  List.takeWhile_append_dropWhile

end Grammar

/-! ## From inside a block to its end -/

/-- The lines of a block that begins with `s` and goes on into `ls`. -/
def BlockLines.extend (g : Grammar) (s : BlockLines) (ls : List Text) : BlockLines :=
  { s with
    content := s.content ++ ls.takeWhile g.goesOn
    closer := (ls.dropWhile g.goesOn).head?.filter g.closes }

namespace LineReader

variable {g : Grammar} {line : Text}

theorem step_of_goesOn (s : BlockLines) (h : g.goesOn line = true) :
    Step g (inBlock s) line [] (inBlock (s.withContent line)) :=
  .content (Grammar.leads_and_stays_of_goesOn h).1 (Grammar.leads_and_stays_of_goesOn h).2

end LineReader

namespace Document

variable {g : Grammar}

/-- The stretches behind a block, `ls` being the lines that are left where it does not
go on. A closing line is the last of the block; a line without leader is code. -/
def behindBlock (g : Grammar) : (ls : List Text) → List Stretch
  | [] => []
  | line :: rest =>
    if g.closer.isNone then stretchesFrom g (.inCode [line]) rest
    else stretchesFrom g .between rest

/-- **A block goes on as long as the lines let it.** -/
theorem stretchesFrom_inBlock {s : BlockLines} (hopen : s.closer = none) (ls : List Text) :
    stretchesFrom g (.inBlock s) ls
      = .block (s.extend g ls) :: behindBlock g (ls.dropWhile g.goesOn) := by
  induction ls generalizing s with
  | nil =>
    have hextend : s.extend g [] = s := by
      unfold BlockLines.extend
      rw [List.takeWhile_nil, List.append_nil, List.dropWhile_nil, List.head?_nil,
        Option.filter_none, ← hopen]
    rw [hextend]
    rfl
  | cons line ls ih =>
    cases hgoes : g.goesOn line with
    | true =>
      have hextend : (s.withContent line).extend g ls = s.extend g (line :: ls) := by
        unfold BlockLines.extend BlockLines.withContent
        rw [List.takeWhile_cons_of_pos hgoes, List.dropWhile_cons_of_pos hgoes, List.append_assoc]
        rfl
      rw [(LineReader.step_of_goesOn s hgoes).stretchesFrom_cons,
        ih (s := s.withContent line) hopen, hextend,
        List.dropWhile_cons_of_pos hgoes]
      rfl
    | false =>
      have hnot : ¬ g.goesOn line = true := Bool.eq_false_iff.1 hgoes
      unfold BlockLines.extend
      rw [List.takeWhile_cons_of_neg hnot, List.dropWhile_cons_of_neg hnot, List.append_nil,
        List.head?_cons, behindBlock]
      rcases Grammar.ends_of_goesOn hgoes with ⟨hcloser, hleads⟩ | hcloses
      · -- without leader: the block ends above the line
        rw [(LineReader.Step.ended hcloser hleads).stretchesFrom_cons, hcloser,
          if_pos Option.isNone_none, Option.filter_some,
          Grammar.closes_eq_false_of_closer hcloser, if_neg Bool.false_ne_true, ← hopen]
        rfl
      · -- the closer: the line is the last of the block
        obtain ⟨token, hcloser, -⟩ := Grammar.closes_eq_true_iff.1 hcloses
        rw [(LineReader.Step.closed hcloses).stretchesFrom_cons, hcloser, if_neg (by simp),
          Option.filter_some, if_pos hcloses]
        rfl

end Document

/-! ## From the start of a text to its first block -/

/-- The stretch of a run of code, if it holds any line. -/
def Stretch.ofCode (ls : List Text) : List Stretch := if ls = [] then [] else [.code ls]

namespace Document

variable {g : Grammar} {t line : Text}

/-- Code goes on with lines that open no block. -/
theorem stretchesFrom_inCode_append {ls : List Text} (hls : ∀ line ∈ ls, g.opens line = false)
    (code rest : List Text) :
    stretchesFrom g (.inCode code) (ls ++ rest)
      = stretchesFrom g (.inCode (code ++ ls)) rest := by
  induction ls generalizing code with
  | nil => rw [List.nil_append, List.append_nil]
  | cons line ls ih =>
    have hstep : LineReader.Step g (.inCode code) line [] (.inCode (code ++ [line])) :=
      .moreCode (hls line List.mem_cons_self)
    rw [List.cons_append, hstep.stretchesFrom_cons,
      ih (fun l hl => hls l (List.mem_cons_of_mem _ hl)), List.append_assoc]
    rfl

/-- A block begins with the first line that opens one. -/
theorem stretchesFrom_of_opens (h : g.opens line = true) (rest : List Text) :
    stretchesFrom g .between (line :: rest)
      = .block ((g.blockStart line).extend g rest) :: behindBlock g (rest.dropWhile g.goesOn) := by
  have hopen : (g.blockStart line).closer = none := by
    unfold Grammar.blockStart
    split <;> rfl
  rw [(LineReader.Step.opened h).stretchesFrom_cons, stretchesFrom_inBlock hopen]
  rfl

/-- Lines that open no block are code above what follows, if that begins with a
block. -/
theorem stretchesFrom_append {above rest : List Text}
    (habove : ∀ line ∈ above, g.opens line = false)
    (hrest : ∀ line ∈ rest.head?, g.opens line = true) :
    stretchesFrom g .between (above ++ rest)
      = Stretch.ofCode above ++ stretchesFrom g .between rest := by
  cases above with
  | nil => rfl
  | cons first above =>
    have hfirst := LineReader.Step.firstCode (habove first List.mem_cons_self)
    rw [List.cons_append, hfirst.stretchesFrom_cons,
      stretchesFrom_inCode_append (fun l hl => habove l (List.mem_cons_of_mem _ hl))]
    show stretchesFrom g (.inCode (first :: above)) rest = [.code (first :: above)] ++ _
    -- whatever ends the code begins a block, as it would between segments
    cases rest with
    | nil => rfl
    | cons line rest =>
      have hopens := hrest line rfl
      rw [(LineReader.Step.openedAfterCode hopens).stretchesFrom_cons,
        (LineReader.Step.opened hopens).stretchesFrom_cons]
      rfl

/-- **A text cut at its first block**: the code above it, and what is read from its
opener on. -/
theorem stretches_eq (g : Grammar) (t : Text) :
    stretches g t = Stretch.ofCode (g.above (Text.bareLines t))
      ++ stretchesFrom g .between (g.fromOpener (Text.bareLines t)) := by
  have hrest : ∀ line ∈ (g.fromOpener (Text.bareLines t)).head?, g.opens line = true := by
    intro line hline
    cases hfrom : g.fromOpener (Text.bareLines t) with
    | nil => rw [hfrom] at hline; cases hline
    | cons first rest =>
      rw [hfrom] at hline
      rw [← Option.some.inj hline]
      exact Grammar.opens_of_fromOpener hfrom
  rw [← stretchesFrom_append (fun _ => Grammar.opens_of_mem_above) hrest,
    Grammar.above_append_fromOpener]
  rfl

/-! ## The first comment -/

/-- **The lines of the first block** among lines. -/
def firstBlock? (g : Grammar) (ls : List Text) : Option BlockLines :=
  match g.fromOpener ls with
  | [] => none
  | line :: rest => some ((g.blockStart line).extend g rest)

/-- Code above a block is passed over on the way to it. -/
theorem aroundComment?_append (above : List Text) (b : CommentBlock) (behind : List Segment) :
    aroundComment? ((Stretch.ofCode above).map (Stretch.segment g) ++ .comment b :: behind)
      = some ((Stretch.ofCode above).map (Stretch.segment g), b, behind) := by
  unfold Stretch.ofCode
  split <;> rfl

theorem firstComment?_eq (d : Document) :
    d.firstComment? = (aroundComment? d.segments).map fun parts => parts.2.1 := by
  unfold firstComment?
  induction d.segments with
  | nil => rfl
  | cons s segments ih =>
    cases s with
    | comment b => rfl
    | code r =>
      rw [aroundComment?, Option.map_map, List.findSome?_cons]
      exact ih

/-- **Where the first block of a text stands.** -/
theorem aroundComment?_ofText (g : Grammar) (t : Text) :
    aroundComment? (ofText g t).segments
      = match g.fromOpener (Text.bareLines t) with
        | [] => none
        | line :: rest =>
          some ((Stretch.ofCode (g.above (Text.bareLines t))).map (Stretch.segment g),
            ((g.blockStart line).extend g rest).read g,
            (behindBlock g (rest.dropWhile g.goesOn)).map (Stretch.segment g)) := by
  rw [ofText_segments, stretches_eq, List.map_append]
  cases hfrom : g.fromOpener (Text.bareLines t) with
  | nil =>
    show aroundComment? ((Stretch.ofCode _).map _ ++ []) = none
    rw [List.append_nil]
    unfold Stretch.ofCode
    split <;> rfl
  | cons line rest =>
    rw [stretchesFrom_of_opens (Grammar.opens_of_fromOpener hfrom), List.map_cons]
    exact aroundComment?_append _ _ _

/-- **Which block the first comment of a text is.** -/
theorem firstComment?_ofText (g : Grammar) (t : Text) :
    (ofText g t).firstComment? = (firstBlock? g (Text.bareLines t)).map (BlockLines.read g) := by
  rw [firstComment?_eq, aroundComment?_ofText, firstBlock?]
  cases g.fromOpener (Text.bareLines t) <;> rfl

/-- A text begins with a comment if its first line opens one. -/
theorem segments_of_opens {first : Text} {rest : List Text}
    (hlines : Text.bareLines t = first :: rest) (hopens : g.opens first = true) :
    (ofText g t).segments = .comment (((g.blockStart first).extend g rest).read g)
      :: (behindBlock g (rest.dropWhile g.goesOn)).map (Stretch.segment g) := by
  rw [ofText_segments, stretches, hlines, stretchesFrom_of_opens hopens]
  rfl

/-- A text that begins with a comment begins with a line that opens one. -/
theorem exists_opens_of_segments {b : CommentBlock} {behind : List Segment}
    (h : (ofText g t).segments = .comment b :: behind) :
    ∃ first rest, Text.bareLines t = first :: rest ∧ g.opens first = true ∧
      behind = (behindBlock g (rest.dropWhile g.goesOn)).map (Stretch.segment g) := by
  have haround := aroundComment?_ofText g t
  rw [h] at haround
  split at haround
  · cases haround
  · rename_i first rest hfrom
    obtain ⟨hbefore, hrest⟩ := Prod.mk.inj (Option.some.inj haround)
    have habove : g.above (Text.bareLines t) = [] := by
      have hcode := List.map_eq_nil_iff.1 hbefore.symm
      unfold Stretch.ofCode at hcode
      by_contra hne
      rw [if_neg hne] at hcode
      cases hcode
    refine ⟨first, rest, ?_, Grammar.opens_of_fromOpener hfrom, (Prod.mk.inj hrest).2⟩
    rw [← Grammar.above_append_fromOpener (g := g) (Text.bareLines t), habove, hfrom]
    rfl

end Document

end LicenseHeader
