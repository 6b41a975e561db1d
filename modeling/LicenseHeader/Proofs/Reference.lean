import LicenseHeader.License.Comparison
import LicenseHeader.Proofs.FirstBlock
import LicenseHeader.Proofs.RoundTrip

/-!
# Reading a reference license

A reference license is the first comment block of a text, but it is not read through
a document: every line of the text is fed to one block (`CommentBlock.ofLines`),
which is to ignore the lines above its opener and those behind its end. Behind its
end it does (`CommentBlock.lines_foldl_push_of_closed`), and in between it takes in
what the block of a document takes in (`CommentBlock.lines_foldl_push_of_open`).

Above its opener it does not ignore every line. A line that closes a block closes
one that was never opened, and nothing is read afterwards; and where blocks have no
closer, a line with the leader opens the block, also if the grammar has an opener of
its own. Such a line is a *stray* one (`Grammar.stray`). Without stray lines above
the first block the reference is that block; with one it is not
(`ReferenceLicense.lines_ofText_eq`). Where the leader opens blocks there are no stray
lines, since there every line with the leader is in a block.
-/

namespace LicenseHeader

namespace Grammar

variable (g : Grammar)

/-- **A stray line**: one that a block takes for its own before it is opened. -/
def stray (line : Text) : Bool := if g.closer.isNone then g.leads line else g.closes line

/-- Whether no stray line stands above the first block of a text. -/
def strayFree (t : Text) : Bool := (g.above (Text.bareLines t)).all fun line => !g.stray line

/-- What is read from a text with a stray line above its first block: nothing where the
line closes blocks, and else the first lines in a row that have the leader. -/
def misread (t : Text) : List Text :=
  if g.closer.isSome then []
  else (((Text.bareLines t).dropWhile fun line => !g.leads line).takeWhile g.leads).map g.contentOn

end Grammar

namespace CommentBlock

variable {b : CommentBlock} {line : Text}

/-! ## A block that is closed -/

theorem keep_of_closed (h : b.closed = true) (content : Text) :
    (b.keep content).closed = true ∧ (b.keep content).lines = b.lines := by
  rw [keep, h, Bool.not_true, Bool.and_false, if_neg Bool.false_ne_true]
  exact ⟨h, rfl⟩

theorem pushContent_of_closed (h : b.closed = true) (line : Text) :
    (b.pushContent line).closed = true ∧ (b.pushContent line).lines = b.lines := by
  unfold pushContent
  dsimp only
  split
  · split
    · split
      · refine keep_of_closed ?_ _
        exact h
      · exact keep_of_closed h _
    · split
      · exact keep_of_closed rfl _
      · exact keep_of_closed h _
  · split
    · refine keep_of_closed ?_ _
      exact h
    · exact keep_of_closed h _

/-- A line leaves a closed block closed, and its lines as they are. -/
theorem push_of_closed (h : b.closed = true) (line : Text) :
    (b.push line).closed = true ∧ (b.push line).lines = b.lines := by
  unfold push
  split
  · exact ⟨h, rfl⟩
  · split
    · exact ⟨rfl, rfl⟩
    · exact pushContent_of_closed h line

/-- **What follows a closed block is ignored.** -/
theorem lines_foldl_push_of_closed (h : b.closed = true) (ls : List Text) :
    (ls.foldl push b).lines = b.lines := by
  induction ls generalizing b with
  | nil => rfl
  | cons line ls ih =>
    obtain ⟨hclosed, hlines⟩ := push_of_closed h line
    rw [List.foldl_cons, ih hclosed, hlines]

/-! ## A block that is open -/

/-- An open block is closed by a line with which it does not go on. -/
theorem push_of_ends (hopened : b.opened = true) (hcomments : b.grammar.hasComments = true)
    (hends : b.grammar.goesOn line = false) :
    (b.push line).closed = true ∧ (b.push line).lines = b.lines := by
  rcases Grammar.ends_of_goesOn hends with ⟨hcloser, hleads⟩ | hcloses
  · have hleader := Grammar.leader_isSome hcomments hcloser
    have hrest : b.grammar.leaderRest? line = none := by
      rw [Grammar.leads] at hleads
      simpa using hleads
    have hpush : b.push line = { b with closed := true } := by
      rw [push, openerFor?_of_opened hopened]
      show (if b.grammar.closes line = true then _ else b.pushContent line) = _
      rw [Grammar.closes_eq_false_of_closer hcloser, if_neg Bool.false_ne_true]
      simp [pushContent, hleader, hrest, hcloser, hopened, keep]
    rw [hpush]
    exact ⟨rfl, rfl⟩
  · rw [push_of_closes hopened hcloses]
    exact ⟨rfl, rfl⟩

/-- **An open block takes in lines as long as it goes on.** -/
theorem lines_foldl_push_of_open (hopened : b.opened = true) (hclosed : b.closed = false)
    (hcomments : b.grammar.hasComments = true) (ls : List Text) :
    (ls.foldl push b).lines
      = b.lines ++ (ls.takeWhile b.grammar.goesOn).map b.grammar.contentOn := by
  induction ls generalizing b with
  | nil => exact (List.append_nil _).symm
  | cons line ls ih =>
    rw [List.foldl_cons]
    cases hgoes : b.grammar.goesOn line with
    | true =>
      obtain ⟨hleads, hstays⟩ := Grammar.leads_and_stays_of_goesOn hgoes
      rw [push_of_content hopened hclosed hcomments hleads hstays,
        ih (b := { b with lines := b.lines ++ [b.grammar.contentOn line] }) hopened hclosed
          hcomments,
        List.takeWhile_cons_of_pos hgoes, List.map_cons, List.append_assoc]
      rfl
    | false =>
      obtain ⟨hclosed', hlines⟩ := push_of_ends hopened hcomments hgoes
      rw [lines_foldl_push_of_closed hclosed', hlines,
        List.takeWhile_cons_of_neg (Bool.eq_false_iff.1 hgoes), List.map_nil, List.append_nil]

/-! ## A block that waits for its opener -/

variable {g : Grammar}

theorem openerFor?_of_opens (hopens : b.grammar.opens line = false) : b.openerFor? line = none := by
  have hmargin : b.grammar.openerMargin? line = none := by
    rw [Grammar.opens] at hopens
    simpa using hopens
  rw [openerFor?, hmargin, ite_self]

/-- **A line that is not stray is ignored above the opener.** -/
theorem push_fresh_of_quiet (hcomments : g.hasComments = true) (hopens : g.opens line = false)
    (hquiet : g.stray line = false) :
    push { grammar := g } line = { grammar := g } := by
  have hfor : openerFor? { grammar := g } line = none := openerFor?_of_opens hopens
  rw [push, hfor]
  show (if g.closes line = true then _ else pushContent { grammar := g } line) = _
  cases hcloser : g.closer with
  | none =>
    rw [Grammar.stray, hcloser, if_pos Option.isNone_none, Grammar.leads] at hquiet
    have hrest : g.leaderRest? line = none := by simpa using hquiet
    rw [Grammar.closes_eq_false_of_closer hcloser, if_neg Bool.false_ne_true]
    simp [pushContent, hrest, hcomments, keep]
  | some token =>
    rw [Grammar.stray, hcloser, if_neg (by simp)] at hquiet
    rw [hquiet, if_neg Bool.false_ne_true, pushContent]
    simp only [hcloser, hcomments, Option.isNone_some, Bool.false_and, Bool.not_true,
      if_neg Bool.false_ne_true]
    split
    · split <;> rfl
    · rfl

/-- Lines that are not stray are ignored above the opener. -/
theorem foldl_push_fresh_of_quiet {ls : List Text} (hcomments : g.hasComments = true)
    (hopens : ∀ line ∈ ls, g.opens line = false) (hquiet : ∀ line ∈ ls, g.stray line = false) :
    ls.foldl push { grammar := g } = { grammar := g } := by
  induction ls with
  | nil => rfl
  | cons line ls ih =>
    rw [List.foldl_cons,
      push_fresh_of_quiet hcomments (hopens line List.mem_cons_self)
        (hquiet line List.mem_cons_self)]
    exact ih (fun l hl => hopens l (List.mem_cons_of_mem _ hl))
      fun l hl => hquiet l (List.mem_cons_of_mem _ hl)

/-- A stray closer closes a block that was never opened. -/
theorem push_fresh_of_closes (hopens : g.opens line = false) (hcloses : g.closes line = true) :
    push { grammar := g } line
      = { grammar := g, closed := true, closerReturn := Text.endsWithChar '\r' line } := by
  have hfor : openerFor? { grammar := g } line = none := openerFor?_of_opens hopens
  rw [push, hfor]
  show (if g.closes line = true then _ else _) = _
  rw [if_pos hcloses]

/-- A stray line with the leader opens a block. -/
theorem push_fresh_of_leads (hcloser : g.closer = none) (hopens : g.opens line = false)
    (hleads : g.leads line = true) :
    ∃ margin, push { grammar := g } line
      = { grammar := g, margin, opened := true, lines := [g.contentOn line] } := by
  have hfor : openerFor? { grammar := g } line = none := openerFor?_of_opens hopens
  obtain ⟨⟨margin, rest⟩, hrest⟩ := Option.isSome_iff_exists.1 hleads
  obtain ⟨token, hleader⟩ : ∃ token, g.leader = some token := by
    cases hnone : g.leader with
    | none => rw [Grammar.leaderRest?, hnone] at hrest; cases hrest
    | some token => exact ⟨token, rfl⟩
  refine ⟨margin, ?_⟩
  rw [push, hfor]
  show (if g.closes line = true then _ else pushContent { grammar := g } line) = _
  rw [Grammar.closes_eq_false_of_closer hcloser, if_neg Bool.false_ne_true]
  simp [pushContent, hleader, hrest, hcloser, keep, Grammar.contentOn]

/-! ## The whole text -/

theorem ofLines_rawLines (g : Grammar) (t : Text) :
    ofLines g (Text.rawLines t) = (Text.bareLines t).foldl push { grammar := g } := by
  rw [ofLines, Text.bareLines, List.foldl_map]

/-- **Without stray lines above it, the first block of the text is read.** -/
theorem lines_ofLines_of_strayFree (hcomments : g.hasComments = true) {t : Text}
    (hfree : g.strayFree t = true) :
    (ofLines g (Text.rawLines t)).lines
      = ((Document.ofText g t).firstComment?.map CommentBlock.lines).getD [] := by
  have hquiet : ∀ line ∈ g.above (Text.bareLines t), g.stray line = false := by
    intro line hline
    have hnot := List.all_eq_true.1 hfree line hline
    rwa [Bool.not_eq_true'] at hnot
  have hskip := foldl_push_fresh_of_quiet hcomments (fun _ => Grammar.opens_of_mem_above) hquiet
  rw [ofLines_rawLines, Document.firstComment?_ofText, Document.firstBlock?]
  rw [← Grammar.above_append_fromOpener (g := g) (Text.bareLines t), List.foldl_append, hskip,
    Grammar.above_append_fromOpener]
  cases hfrom : g.fromOpener (Text.bareLines t) with
  | nil => rfl
  | cons line rest =>
    have hopens := Grammar.opens_of_fromOpener hfrom
    have hmem : line ∈ Text.bareLines t := by
      rw [← Grammar.above_append_fromOpener (g := g) (Text.bareLines t), hfrom]
      simp
    have hopen : ((g.blockStart line).read g).closed = false := by
      show (g.blockStart line).closer.isSome = false
      unfold Grammar.blockStart
      split <;> rfl
    rw [List.foldl_cons, Grammar.push_fresh hopens (Text.notMem_of_mem_bareLines hmem),
      lines_foldl_push_of_open rfl hopen hcomments]
    show _ = List.map g.contentOn ((g.blockStart line).content ++ rest.takeWhile g.goesOn)
    rw [List.map_append]
    rfl

/-- **With a stray line above it, the first block is not read.** -/
theorem lines_ofLines_of_stray (hcomments : g.hasComments = true) {t : Text}
    (hstray : g.strayFree t = false) :
    (ofLines g (Text.rawLines t)).lines = g.misread t ∧
      (g.misread t = [] ↔ g.closer.isSome = true) := by
  -- the first stray line, and the lines around it
  obtain ⟨line, hfind⟩ : ∃ line, (g.above (Text.bareLines t)).find? g.stray = some line := by
    rw [← Option.isSome_iff_exists, List.find?_isSome]
    simpa [Grammar.strayFree] using hstray
  obtain ⟨hline, quiet, more, habove, hquiet⟩ := List.find?_eq_some_iff_append.1 hfind
  have hopens : ∀ l ∈ quiet ++ line :: more, g.opens l = false := by
    rw [← habove]
    exact fun l => Grammar.opens_of_mem_above
  have hopensLine : g.opens line = false := hopens line (by simp)
  have hskip : quiet.foldl push { grammar := g } = { grammar := g } :=
    foldl_push_fresh_of_quiet hcomments (fun l hl => hopens l (List.mem_append_left _ hl))
      fun l hl => by simpa using hquiet l hl
  have htext : Text.bareLines t
      = quiet ++ line :: (more ++ g.fromOpener (Text.bareLines t)) := by
    have hparts := Grammar.above_append_fromOpener (g := g) (Text.bareLines t)
    rw [habove, List.append_assoc] at hparts
    exact hparts.symm
  rw [ofLines_rawLines, Grammar.misread, htext, List.foldl_append, hskip, List.foldl_cons]
  cases hcloser : g.closer with
  | some token =>
    rw [Grammar.stray, hcloser, if_neg (by simp)] at hline
    rw [push_fresh_of_closes hopensLine hline, lines_foldl_push_of_closed rfl,
      if_pos Option.isSome_some]
    exact ⟨rfl, by simp⟩
  | none =>
    rw [Grammar.stray, hcloser, if_pos Option.isNone_none] at hline
    obtain ⟨margin, hpush⟩ := push_fresh_of_leads hcloser hopensLine hline
    have hleads : ∀ l ∈ quiet, (!g.leads l) = true := by
      intro l hl
      have hnot := hquiet l hl
      rwa [Grammar.stray, hcloser, if_pos Option.isNone_none] at hnot
    have hgoes : g.goesOn = g.leads := funext (Grammar.goesOn_of_closer_eq_none hcloser)
    rw [hpush, lines_foldl_push_of_open rfl rfl hcomments, if_neg (by simp),
      List.dropWhile_append_of_pos hleads, List.dropWhile_cons_of_neg (by simp [hline]),
      List.takeWhile_cons_of_pos hline, List.map_cons]
    show [g.contentOn line] ++ List.map g.contentOn (List.takeWhile g.goesOn _) = _ ∧ _
    rw [hgoes]
    exact ⟨rfl, by simp⟩

end CommentBlock

/-- **Where the leader opens blocks, no line is stray.** -/
theorem Grammar.Tidy.strayFree {g : Grammar} (hg : g.Tidy) (hcomments : g.hasComments = true)
    (halone : g.openerAlone = false) (t : Text) : g.strayFree t = true := by
  obtain ⟨token, hopener⟩ := Option.isSome_iff_exists.1 hcomments
  refine List.all_eq_true.2 fun line hline => ?_
  have hbare : '\n' ∉ line :=
    Text.notMem_of_mem_bareLines ((List.takeWhile_sublist _).subset hline)
  rw [Grammar.stray, Grammar.closer_eq_none hopener halone, if_pos Option.isNone_none,
    ← hg.opens_eq_leads halone hbare, Grammar.opens_of_mem_above hline]
  rfl

namespace ReferenceLicense

/-- A text is no reference license if no content is read from it. -/
theorem ofText_eq_error_iff (g : Grammar) (t : Text) :
    ofText g t = .error .empty ↔ (CommentBlock.ofLines g (Text.rawLines t)).lines = [] := by
  unfold ofText
  dsimp only
  split
  · exact iff_of_true rfl ‹_›
  · exact iff_of_false (fun h => by cases h) ‹_›

/-- **What is read as the reference license of a text.** Without stray lines above it, it
is the first comment block of the text, and a text is no reference license exactly if
that is missing or has no content. With a stray line it is not: nothing is read where
blocks have a closer, and the first lines with the leader where they have none. Where the
leader opens blocks there are no stray lines. -/
theorem lines_ofText_eq (l : Language) (hl : l.grammar.hasComments = true) (t : Text) :
    (CommentBlock.ofLines l.grammar (Text.rawLines t)).lines
      = (if l.grammar.strayFree t then
          ((Document.ofText l.grammar t).firstComment?.map CommentBlock.lines).getD []
        else l.grammar.misread t) ∧
    (ofText l.grammar t = .error .empty ↔
      if l.grammar.strayFree t then
        ∀ b ∈ (Document.ofText l.grammar t).firstComment?, b.lines = []
      else l.grammar.closer.isSome = true) ∧
    (l.grammar.openerAlone = false → l.grammar.strayFree t = true) := by
  rw [ofText_eq_error_iff]
  cases hfree : l.grammar.strayFree t with
  | true =>
    have hlines := CommentBlock.lines_ofLines_of_strayFree hl hfree
    refine ⟨hlines, ?_, fun _ => rfl⟩
    rw [hlines, if_pos rfl]
    cases (Document.ofText l.grammar t).firstComment? with
    | none => simp
    | some b => simp
  | false =>
    obtain ⟨hlines, hempty⟩ := CommentBlock.lines_ofLines_of_stray hl hfree
    refine ⟨hlines, ?_, fun halone => ?_⟩
    · rw [hlines, if_neg Bool.false_ne_true, hempty]
    · rw [← hfree]
      exact l.tidy.strayFree hl halone t

/-- With a closer above it, the first comment of a markup file is not read. -/
theorem lines_ofText_eq_strayCloser :
    Language.xml.grammar.hasComments = true ∧
    Language.xml.grammar.strayFree "-->\n<!--\nfoo\n-->\n".toList = false ∧
    (Document.ofText Language.xml.grammar "-->\n<!--\nfoo\n-->\n".toList).firstComment?.map
      CommentBlock.lines = some ["foo".toList] ∧
    ofText Language.xml.grammar "-->\n<!--\nfoo\n-->\n".toList = .error .empty :=
  ⟨rfl, by decide, rfl, (lines_ofText_eq .xml rfl _).2.1.2 (by decide)⟩

end ReferenceLicense

end LicenseHeader
