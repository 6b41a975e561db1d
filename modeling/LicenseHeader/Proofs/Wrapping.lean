import LicenseHeader.Proofs.Relicense
import LicenseHeader.Proofs.Spacing

/-!
# A notice wrapped into a comment

A notice is given as lines, and joined by spaces they make its text. Written as a
comment and read back, the lines come with the gap behind the leader still before them
(`CommentBlock.exists_firstComment?_render`), so where lines meet there are two spaces,
and the comment is judged by a looser text than that of the notice (`Loosened.intercalate`).

`Verdict.ofComment_notice` says what that does to the verdict. Without a leader nothing.
With one, the words are found all the same, and the verdict changes exactly if a line
break tears the signature that decides; a signature whose phrases each stand on one line
is safe (`Phrase.occursIn_intercalate_of_mem`).
-/

namespace LicenseHeader

/-! ## A phrase on one line -/

namespace Phrase

variable {phrase : Phrase}

/-- To a phrase the end of a text is like a space. -/
theorem matchesAt_append_space {before : Char} {text : Text}
    (h : phrase.matchesAt (some before) text = true) (behind : Text) :
    phrase.matchesAt (some before) (text ++ ' ' :: behind) = true := by
  induction phrase generalizing before text with
  | nil => rfl
  | cons part phrase ih =>
    obtain ⟨taken, rest, rfl, htakes, hmatches⟩ := (matchesAt_cons_iff ..).1 h
    refine (matchesAt_cons_iff ..).2
      ⟨taken, rest ++ ' ' :: behind, List.append_assoc .., ?_, ih hmatches⟩
    cases part with
    | exact | anyCase | blanks | restOfLine | afterBlank => exact htakes
    | wordEdge | beforeBlank =>
      refine ⟨htakes.1, ?_⟩
      cases rest with
      | nil => exact htakes.2
      | cons c rest => exact htakes.2

theorem occursIn_append_space {text : Text} (h : phrase.occursIn text = true) (behind : Text) :
    phrase.occursIn (text ++ ' ' :: behind) = true := by
  obtain ⟨skipped, rest, rfl, hmatches⟩ := (occursIn_iff ..).1 h
  exact (occursIn_iff ..).2
    ⟨skipped, rest ++ ' ' :: behind, List.append_assoc .., matchesAt_append_space hmatches behind⟩

theorem occursIn_space_append {text : Text} (h : phrase.occursIn text = true) (above : Text) :
    phrase.occursIn (above ++ ' ' :: text) = true := by
  obtain ⟨skipped, rest, rfl, hmatches⟩ := (occursIn_iff ..).1 h
  refine (occursIn_iff ..).2 ⟨above ++ ' ' :: skipped, rest, by simp, ?_⟩
  have hlast : (above ++ ' ' :: skipped).getLastD ' ' = skipped.getLastD ' ' := by
    simp [List.getLastD_eq_getLast?, List.getLast?_append, List.getLast?_cons]
  rwa [hlast]

theorem occursIn_spaces_append_of_occursIn {text : Text} (h : phrase.occursIn text = true)
    (n : Nat) : phrase.occursIn (Text.spaces n ++ text) = true := by
  induction n with
  | zero => exact h
  | succ n ih => exact occursIn_space_append ih []

/-- **Joined lines have the phrases of each of them.** -/
theorem occursIn_intercalate_of_mem {line : Text} (h : phrase.occursIn line = true)
    {ls : List Text} (hline : line ∈ ls) : phrase.occursIn ([' '].intercalate ls) = true := by
  induction ls with
  | nil => cases hline
  | cons first ls ih =>
    cases ls with
    | nil =>
      rwa [List.intercalate_singleton, ← List.mem_singleton.1 hline]
    | cons next ls =>
      rw [List.intercalate_cons_cons, List.append_assoc]
      rcases List.mem_cons.1 hline with rfl | hline
      · exact occursIn_append_space h _
      · exact occursIn_space_append (ih hline) first

end Phrase

/-! ## A notice as a comment -/

/-- The comment block of a notice in a language: its lines are read as plain text and
then written in the syntax of the language. -/
def Language.notice (l : Language) (ls : List Text) : CommentBlock :=
  (CommentBlock.ofLines Language.text.grammar ls).retarget l.grammar

/-- The gap that a content line is read back with: a blank behind the leader, but none
before a single character. -/
def Grammar.keptGap (g : Grammar) (line : Text) : Nat :=
  if g.leader.isSome ∧ 2 ≤ line.length then 1 else 0

/-- A line that is not blank at its start. -/
theorem Text.exists_visible_cons {line : Text} (hne : line ≠ []) (htrim : Text.trim line = line) :
    ∃ c rest, line = c :: rest ∧ isSpace c = false := by
  obtain ⟨c, rest, rfl⟩ := List.exists_cons_of_ne_nil hne
  refine ⟨c, rest, rfl, Bool.eq_false_iff.2 fun hc => ?_⟩
  -- a blank at the start would be lost
  have hshort : (trim (c :: rest)).length ≤ rest.length := by
    unfold trim trimEnd trimStart
    rw [List.dropWhile_cons_of_pos hc, List.length_reverse]
    refine (List.length_dropWhile_le _ _).trans ?_
    rw [List.length_reverse]
    exact List.length_dropWhile_le _ _
  rw [htrim, List.length_cons] at hshort
  omega

/-- A line that is not blank becomes content of a plain text. -/
theorem CommentBlock.push_plain {line : Text} (hvisible : Text.isBlank line = false) (opened : Bool)
    (ls : List Text) :
    push { grammar := .plain, opened, lines := ls } line
      = { grammar := .plain, opened := true, lines := ls ++ [line] } := by
  cases opened <;> simp [push, openerFor?, pushContent, keep, Grammar.closes, Grammar.plain,
    Grammar.openerAlone, Grammar.opener, Grammar.hasComments, hvisible]

/-- **A plain text is all content** if none of its lines is blank. -/
theorem CommentBlock.ofLines_plain {ls : List Text}
    (hls : ∀ line ∈ ls, '\n' ∉ line ∧ Text.isBlank line = false) :
    ofLines .plain ls = { grammar := .plain, opened := !ls.isEmpty, lines := ls } := by
  have hrun : ∀ (opened : Bool) (before : List Text),
      ls.foldl (fun b raw => push b (Text.stripTerminator raw))
          { grammar := .plain, opened, lines := before : CommentBlock }
        = { grammar := .plain, opened := opened || !ls.isEmpty, lines := before ++ ls } := by
    induction ls with
    | nil => simp
    | cons line ls ih =>
      intro opened before
      obtain ⟨hbare, hvisible⟩ := hls line List.mem_cons_self
      rw [List.foldl_cons, Text.stripTerminator, Text.dropFinal_of_notMem hbare,
        push_plain hvisible, ih fun line hline => hls line (List.mem_cons_of_mem _ hline)]
      simp
  exact hrun false []

/-! ## Reading back -/

/-- **A block whose content does not close it is read back whole.** -/
theorem CommentBlock.exists_firstComment?_render {b : CommentBlock} (hb : b.Writable)
    (hstays : ∀ line ∈ b.writtenContent, b.grammar.closes line = false) :
    ∃ c, (Document.ofText b.grammar b.render).firstComment? = some c ∧
      c.lines = b.writtenContent.map b.grammar.contentOn := by
  have hwritten : b.WrittenInto b.render b.render [] [] := by
    refine ⟨?_, rfl, fun line hline => by cases hline⟩
    rw [render_eq_unlines,
      Text.bareLines_unlines fun _ => bare_of_mem_written hb.toPortable hb.tidy, List.append_nil]
    rfl
  obtain ⟨s, haround, -, hcontent⟩ := hwritten.exists_aroundComment? hb
  have hwhole : s.content = b.writtenContent := by
    rw [hcontent]
    cases hcloser : b.grammar.closer with
    | none =>
      rw [takeWhile_afterOpener_of_leader hb hcloser]
      exact List.append_nil _
    | some token =>
      rw [takeWhile_afterOpener_of_closer hcloser]
      refine List.takeWhile_eq_self_iff.2 fun line hline => ?_
      rw [Grammar.goesOn_of_closer_eq_some hcloser, hstays line hline]
      rfl
  refine ⟨s.read b.grammar, ?_, ?_⟩
  · rw [Document.firstComment?_eq, haround]
    rfl
  · rw [← hwhole]
    rfl

/-- The gap before a line that starts visibly. -/
theorem Language.contentOn_writeContent {l : Language} {m line : Text} (hm : m.IsMargin)
    (hne : line ≠ []) (hbare : '\n' ∉ line) (htrim : Text.trim line = line) :
    l.grammar.contentOn (l.grammar.writeContent m line)
      = Text.spaces (l.grammar.keptGap line) ++ line := by
  unfold Grammar.keptGap
  cases hleader : l.grammar.leader with
  | none =>
    rw [Grammar.Tidy.contentOn_of_leader_eq_none hleader,
      l.tidy.writeContent_of_leader_eq_none hleader, if_neg (by simp)]
    rfl
  | some token =>
    obtain ⟨c, rest, rfl, hc⟩ := Text.exists_visible_cons hne htrim
    rw [l.tidy.contentOn_writeContent hleader hm hbare, l.afterLeader_eq (by rw [hleader]; rfl)]
    cases rest with
    | nil => rfl
    | cons d rest =>
      rw [CommentBlock.leaderGap, if_neg (by rw [hc]; exact Bool.false_ne_true), if_pos (by simp)]

theorem Language.notice_eq (l : Language) {ls : List Text}
    (hlines : ∀ line ∈ ls, line ≠ [] ∧ '\n' ∉ line ∧ Text.trim line = line) :
    l.notice ls = { grammar := l.grammar, opened := !ls.isEmpty, lines := ls } := by
  have hplain : CommentBlock.ofLines Language.text.grammar ls
      = { grammar := .plain, opened := !ls.isEmpty, lines := ls } := by
    refine CommentBlock.ofLines_plain fun line hline => ?_
    obtain ⟨hne, hbare, htrim⟩ := hlines line hline
    obtain ⟨c, rest, rfl, hc⟩ := Text.exists_visible_cons hne htrim
    exact ⟨hbare, by rw [Text.isBlank_cons, hc, Bool.false_and]⟩
  rw [notice, hplain]
  rfl

/-- **A notice is read back with gaps before its lines.** -/
theorem Language.exists_firstComment?_notice {l : Language} (hl : l.grammar.hasComments = true)
    {ls : List Text} (hne : ls ≠ [])
    (hlines : ∀ line ∈ ls, line ≠ [] ∧ '\n' ∉ line ∧ Text.trim line = line)
    (hstays : ∀ line ∈ ls,
      l.grammar.closes (Text.stripTerminator ((l.notice ls).renderLine line)) = false) :
    ∃ c, (Document.ofText l.grammar (l.notice ls).render).firstComment? = some c ∧
      c.lines = ls.map fun line => Text.spaces (l.grammar.keptGap line) ++ line := by
  simp only [CommentBlock.stripTerminator_renderLine] at hstays
  rw [l.notice_eq hlines] at hstays ⊢
  have hb : CommentBlock.Writable
      { grammar := l.grammar, opened := !ls.isEmpty, lines := ls } :=
    { margin := ⟨rfl, List.not_mem_nil⟩
      bare := fun line hline => (hlines line hline).2.1
      tidy := l.tidy
      hasComments := hl
      ne_nil := hne }
  obtain ⟨c, hfirst, hclines⟩ :=
    CommentBlock.exists_firstComment?_render hb (List.forall_mem_map.2 hstays)
  refine ⟨c, hfirst, hclines.trans ?_⟩
  rw [CommentBlock.writtenContent, List.map_map]
  refine List.map_congr_left fun line hline => ?_
  obtain ⟨hne, hbare, htrim⟩ := hlines line hline
  exact contentOn_writeContent hb.margin hne hbare htrim

/-! ## The verdict on a wrapped notice -/

namespace Verdict

/-- A signature whose phrases each stand on one line is not torn. -/
theorem fits_intercalate {s : Signature} {ls : List Text}
    (hs : ∀ phrase ∈ s.requires, ∃ line ∈ ls, phrase.occursIn line = true) (gap : Text → Nat) :
    s.fits ([' '].intercalate (ls.map fun line => Text.spaces (gap line) ++ line)) = true := by
  refine List.all_eq_true.2 fun phrase hphrase => ?_
  obtain ⟨line, hline, hoccurs⟩ := hs phrase hphrase
  exact Phrase.occursIn_intercalate_of_mem
    (Phrase.occursIn_spaces_append_of_occursIn hoccurs (gap line))
    (List.mem_map.2 ⟨line, hline, rfl⟩)

/-- **Wrapping and the verdict.** A notice of trimmed lines, none of which closes the
comment it is written in, is read back as one comment, in a language with a leader with a
space before each line of two characters or more. In what it says of copyright and
license the comment agrees with the text of the notice, its lines joined by single spaces.
It agrees in everything

* exactly if it still has the signature that decides for the text, or that signature names
  no license and none decides for the comment;
* in particular, in every language without a leader;
* and if each phrase of that signature stands on one line. -/
theorem ofComment_notice (l : Language) (hl : l.grammar.hasComments = true) (ls : List Text)
    (hne : ls ≠ []) (hlines : ∀ line ∈ ls, line ≠ [] ∧ '\n' ∉ line ∧ Text.trim line = line)
    (hstays : ∀ line ∈ ls,
      l.grammar.closes (Text.stripTerminator ((l.notice ls).renderLine line)) = false) :
    ∃ c, (Document.ofText l.grammar (l.notice ls).render).firstComment? = some c ∧
      c.lines = ls.map (fun line => Text.spaces (l.grammar.keptGap line) ++ line) ∧
      (ofComment c).isCopyright = (ofText ([' '].intercalate ls)).isCopyright ∧
      (ofComment c).isLicense = (ofText ([' '].intercalate ls)).isLicense ∧
      (ofComment c = ofText ([' '].intercalate ls) ↔
        ∀ s, signature? ([' '].intercalate ls) = some s → s.fits c.prose = true ∨
          s.recognition = .unnamed ∧ signature? c.prose = none) ∧
      (l.grammar.leader = none → ofComment c = ofText ([' '].intercalate ls)) ∧
      ((∀ s, signature? ([' '].intercalate ls) = some s →
          ∀ phrase ∈ s.requires, ∃ line ∈ ls, phrase.occursIn line = true) →
        ofComment c = ofText ([' '].intercalate ls)) := by
  obtain ⟨c, hfirst, hclines⟩ := l.exists_firstComment?_notice hl hne hlines hstays
  have hloose : Loosened ' ' ([' '].intercalate ls) c.prose := by
    rw [CommentBlock.prose, hclines]
    exact .intercalate l.grammar.keptGap ls
  refine ⟨c, hfirst, hclines, ?_, ?_, hloose.ofText_eq_iff, ?_, ?_⟩
  · rw [ofComment, isCopyright_ofText, isCopyright_ofText, hloose.claimsCopyright_eq]
  · rw [ofComment, isLicense_ofText, isLicense_ofText, hloose.speaksOfLicense_eq]
  · intro hleader
    have hsame : c.lines = ls := by
      rw [hclines]
      refine (List.map_congr_left fun line _ => ?_).trans (List.map_id ls)
      rw [Grammar.keptGap, hleader, if_neg (by simp)]
      rfl
    rw [ofComment, CommentBlock.prose, hsame]
  · intro hwhole
    refine hloose.ofText_eq_iff.2 fun s hs => .inl ?_
    rw [CommentBlock.prose, hclines]
    exact fits_intercalate (hwhole s hs) l.grammar.keptGap

/-- A name that is wrapped behind a leader is not recognized. -/
theorem ofComment_notice_wrappedName :
    ∃ c, (Document.ofText Language.java.grammar
        (Language.java.notice
          ["GNU General".toList, "Public License Version 2".toList]).render).firstComment? = some c ∧
      (ofText "GNU General Public License Version 2".toList).licenseId = some "GPL 2" ∧
      ofComment c ≠ ofText "GNU General Public License Version 2".toList := by
  obtain ⟨c, hfirst, hlines, -, -, hiff, -⟩ := ofComment_notice .java rfl
    ["GNU General".toList, "Public License Version 2".toList] (by decide) (by decide)
    (by decide +kernel)
  refine ⟨c, hfirst, by decide +kernel, fun heq => ?_⟩
  have hprose : c.prose = " GNU General  Public License Version 2".toList := by
    rw [CommentBlock.prose, hlines]
    decide
  have hsignature := hiff.1 heq _ (show signature? _
    = some (Signature.gnu [Signature.gpl, Signature.versionWords "Version 2"] "GPL 2" .gpl2) by
      decide +kernel)
  rw [hprose] at hsignature
  revert hsignature
  decide +kernel

end Verdict

end LicenseHeader
