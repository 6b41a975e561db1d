import LicenseHeader.Proofs.LicenseWord
import LicenseHeader.Proofs.Reformat
import LicenseHeader.Proofs.Relicense

/-!
# Relicensing twice

A second run with the same reference finds the license block that the first run has
written, and leaves it alone if it would be written the same way. In a language whose
line comments have no closer that block ends where the leader does. So it is read back
whole (`CommentBlock.written_read_eq_append`), but if a comment stands right below it the
two are read as one block. The second run then writes the reference in the place of
both (`SourceFile.relicensed_of_writtenInto`): what was a comment of the file is gone.

`Action.relicense_twice` says when the second run has nothing to do, and what it writes
when it has.
-/

namespace LicenseHeader

theorem Text.unlines_eq_nil_iff {ls : List Text} : unlines ls = [] ↔ ls = [] := by
  cases ls with
  | nil => simp
  | cons line ls => simp

/-! ## The license block that a second run finds -/

namespace CommentBlock

variable {b : CommentBlock} {below : List Text}

theorem written_eq_writtenContent (hb : b.Writable) (halone : b.grammar.openerAlone = false) :
    b.written = b.writtenContent := by
  obtain ⟨-, -, hcloser⟩ := exists_leader_of_openerAlone hb halone
  rw [written, halone, hcloser, if_neg Bool.false_ne_true, if_neg (by simp), List.nil_append,
    List.append_nil]
  rfl

/-- **What is read back of line comments** is written as the lines that were written, and
those below that the block goes on into, behind them. -/
theorem written_read_eq_append (hb : b.Writable) (halone : b.grammar.openerAlone = false)
    {s : BlockLines} (hmargin : s.margin b.grammar = b.margin) {more : List Text}
    (hcontent : s.content = b.writtenContent ++ more) :
    (s.read b.grammar).written = b.written
      ++ more.map fun line => b.grammar.writeContent b.margin (b.grammar.contentOn line) := by
  obtain ⟨-, -, hcloser⟩ := exists_leader_of_openerAlone hb halone
  have hagain : (b.writtenContent.map b.grammar.contentOn).map (b.grammar.writeContent b.margin)
      = b.writtenContent := by
    rw [writtenContent, List.map_map, List.map_map]
    refine List.map_congr_left fun content hmem => ?_
    exact hb.tidy.writeContent_contentOn_writeContent hb.margin (hb.bare content hmem)
  have hread : (s.read b.grammar).written
      = (s.content.map b.grammar.contentOn).map (b.grammar.writeContent (s.margin b.grammar)) := by
    show (if b.grammar.openerAlone = true then _ else _) ++ _
      ++ (if b.grammar.closer.isSome = true then _ else _) = _
    rw [halone, hcloser, if_neg Bool.false_ne_true, if_neg (by simp), List.append_nil]
    rfl
  rw [hread, hmargin, hcontent, List.map_append, List.map_append, hagain, List.map_map,
    written_eq_writtenContent hb halone]
  rfl

/-- **Line comments are rendered again as they were** if they do not go on below. -/
theorem render_read_eq_iff (hb : b.Writable) (halone : b.grammar.openerAlone = false)
    {s : BlockLines} (hmargin : s.margin b.grammar = b.margin) {more : List Text}
    (hcontent : s.content = b.writtenContent ++ more) :
    (s.read b.grammar).render = b.render ↔ more = [] := by
  rw [render_eq_unlines, render_eq_unlines, written_read_eq_append hb halone hmargin hcontent,
    Text.unlines_append, List.append_right_eq_self, Text.unlines_eq_nil_iff, List.map_eq_nil_iff]

/-- What is read back of a block speaks of a license if the block does. -/
theorem isLicense_read (hb : b.Writable) (hlicense : (Verdict.ofComment b).isLicense = true)
    {s : BlockLines} {more : List Text} (hcontent : s.content = b.writtenContent ++ more) :
    (Verdict.ofComment (s.read b.grammar)).isLicense = true := by
  refine Verdict.isLicense_of_lines hlicense fun content hmem => ?_
  obtain ⟨n, hn⟩ := hb.tidy.exists_spaces_append_eq hb.margin (hb.bare content hmem)
  refine ⟨n, ?_⟩
  show _ ∈ s.content.map b.grammar.contentOn
  rw [← hn, hcontent]
  exact List.mem_map_of_mem (List.mem_append_left _ (List.mem_map_of_mem hmem))

end CommentBlock

/-! ## The second run -/

namespace SourceFile

variable {l : Language} {r : ReferenceLicense} {t t' : Text} {above below : List Text}

/-- **The second run**: it has nothing to do if the block that the first has written does
not go on below, and otherwise replaces the block together with the lines it goes on
into. -/
theorem relicensed_of_writtenInto (hb : (r.comment.retarget l.grammar).Writable)
    (halone : l.grammar.openerAlone = false)
    (hlicense : (Verdict.ofComment r.comment).isLicense = true)
    (h : (r.comment.retarget l.grammar).WrittenInto t t' above below) :
    relicensed ⟨some l, l.grammar, t'⟩ r .both
      = if below.takeWhile l.grammar.goesOn = [] then .nothing
        else ⟨[.licenseReplaced], some (Document.render { Document.ofText l.grammar t' with
          segments := (Stretch.ofCode above).map (Stretch.segment l.grammar)
            ++ .comment (r.comment.retarget l.grammar)
              :: (Document.behindBlock l.grammar (below.dropWhile l.grammar.goesOn)).map
                (Stretch.segment l.grammar) })⟩ := by
  obtain ⟨-, -, hcloser⟩ := CommentBlock.exists_leader_of_openerAlone hb halone
  obtain ⟨s, haround, hmargin, hcontent⟩ := h.exists_aroundComment? hb
  rw [CommentBlock.takeWhile_afterOpener_of_leader hb hcloser] at hcontent
  rw [CommentBlock.dropWhile_afterOpener_of_leader hb hcloser] at haround
  have hrender : (s.read l.grammar).render = (r.comment.retarget l.grammar).render ↔
      below.takeWhile l.grammar.goesOn = [] :=
    CommentBlock.render_read_eq_iff hb halone hmargin hcontent
  have hblock : licenseBlock? ⟨some l, l.grammar, t'⟩ = some
      ((Stretch.ofCode above).map (Stretch.segment l.grammar), s.read l.grammar,
        (Document.behindBlock l.grammar (below.dropWhile l.grammar.goesOn)).map
          (Stretch.segment l.grammar)) :=
    Option.filter_eq_some_iff.2 ⟨haround, CommentBlock.isLicense_read hb hlicense hcontent⟩
  unfold relicensed
  dsimp only
  rw [hblock]
  by_cases hmore : below.takeWhile l.grammar.goesOn = []
  · rw [if_pos hmore]
    exact if_neg (by simpa [RelicenseMode.replaces] using hrender.2 hmore)
  · rw [if_neg hmore]
    exact if_pos (by simpa [RelicenseMode.replaces] using fun heq => hmore (hrender.1 heq))

/-- A license is added above a comment that speaks of none. -/
theorem isLicense_eq_false_of_added {f : SourceFile} {mode : RelicenseMode}
    (h : f.relicensed r mode = ⟨[.licenseAdded], some t'⟩) {b : CommentBlock}
    {behind : List Segment} (hsegments : f.document.segments = .comment b :: behind) :
    (Verdict.ofComment b).isLicense = false := by
  have hnone : f.licenseBlock? = none := by
    rcases relicensed_cases h with ⟨_, _, _, -, -, -, hfindings, -⟩ | ⟨hnone, -⟩
    · cases hfindings
    · exact hnone
  rw [licenseBlock?, hsegments] at hnone
  simpa [Document.aroundComment?] using hnone

end SourceFile

namespace Document

variable {g : Grammar} {t : Text}

/-- **A text does not begin with line comments** if its first line has not the leader. -/
theorem segments_ne_comment_cons_iff (hg : g.Tidy) (halone : g.openerAlone = false) :
    (∀ b behind, (ofText g t).segments ≠ .comment b :: behind) ↔
      ∀ first ∈ (Text.bareLines t).head?, g.leads first = false := by
  constructor
  · intro h first hfirst
    obtain ⟨rest, hlines⟩ := List.head?_eq_some_iff.1 hfirst
    have hbare : '\n' ∉ first :=
      Text.notMem_of_mem_bareLines (hlines ▸ List.mem_cons_self)
    rw [← hg.opens_eq_leads halone hbare, Bool.eq_false_iff]
    exact fun hopens => h _ _ (segments_of_opens hlines hopens)
  · intro h b behind hsegments
    obtain ⟨first, rest, hlines, hopens, -⟩ := exists_opens_of_segments hsegments
    have hbare : '\n' ∉ first :=
      Text.notMem_of_mem_bareLines (hlines ▸ List.mem_cons_self)
    rw [hg.opens_eq_leads halone hbare, h first (by rw [hlines]; rfl)] at hopens
    cases hopens

end Document

/-! ## What is left below -/

/-- Line comments that were read can be written. -/
theorem BlockLines.Fits.writable_read {g : Grammar} {s : BlockLines} (hs : s.Fits g) (hg : g.Tidy)
    (halone : g.openerAlone = false) : (s.read g).Writable where
  margin := hs.isMargin_margin hg
  bare := fun content hcontent => by
    obtain ⟨line, hline, rfl⟩ := List.mem_map.1 hcontent
    exact hg.notMem_contentOn (hs.bare_of_mem_content hline)
  tidy := hg
  hasComments := hs.hasComments
  ne_nil := fun hnil => hs.content_ne halone (List.map_eq_nil_iff.1 hnil)

/-- **The lines below the comments that a text begins with** are what is left of the text,
written, when the lines with the leader are taken off. -/
theorem Document.dropWhile_relay {g : Grammar} {t : Text} (hg : g.Tidy)
    (hcloser : g.closer = none) (halone : g.openerAlone = false) {first : Text} {rest : List Text}
    (hlines : Text.bareLines t = first :: rest) (hopens : g.opens first = true) :
    (g.relay none (Text.bareLines t)).dropWhile g.goesOn
      = belowBlock g (rest.dropWhile g.goesOn) := by
  have hfits : ((g.blockStart first).extend g rest).Fits g := by
    have hmem : Stretch.block ((g.blockStart first).extend g rest) ∈ stretches g t := by
      rw [stretches, hlines, stretchesFrom_of_opens hopens]
      exact List.mem_cons_self
    exact fits_of_mem_stretches hmem
  have hb := hfits.writable_read hg halone
  have hgoes : ∀ line ∈ (((g.blockStart first).extend g rest).read g).written,
      g.goesOn line = true := by
    rw [CommentBlock.written_eq_writtenContent hb halone]
    exact fun _ => CommentBlock.goesOn_of_mem_writtenContent hb hcloser
  have hbare : ∀ line ∈ rest, '\n' ∉ line := fun line hline =>
    Text.notMem_of_mem_bareLines (hlines ▸ List.mem_cons_of_mem _ hline)
  have hcut : g.above (Text.bareLines t) = [] ∧
      g.fromOpener (Text.bareLines t) = first :: rest := by
    rw [hlines]
    exact @Grammar.above_append_cons g [] first (by simp) hopens rest
  rw [relay_eq_append hcut.2, hcut.1, List.nil_append, List.dropWhile_append_of_pos hgoes,
    dropWhile_belowBlock hcloser hbare]

/-- What stands below a block is written the second time as it was the first time. -/
theorem Language.belowBlock_belowBlock {l : Language} (hcloser : l.grammar.closer = none)
    {ls : List Text} (hbare : ∀ line ∈ ls, '\n' ∉ line) :
    Document.belowBlock l.grammar (Document.belowBlock l.grammar ls)
      = Document.belowBlock l.grammar ls := by
  cases ls with
  | nil => rfl
  | cons line rest =>
    have hrest : ∀ l' ∈ rest, '\n' ∉ l' := fun l' hl' => hbare l' (List.mem_cons_of_mem _ hl')
    have hbare' : ∀ w ∈ line :: l.grammar.relay none rest, '\n' ∉ w := by
      refine List.forall_mem_cons.2 ⟨hbare line List.mem_cons_self, fun w hw => ?_⟩
      exact l.tidy.bare_of_mem_relay (by simp) hrest hw
    rw [Document.belowBlock_cons_of_closer_eq_none hcloser hbare,
      Document.belowBlock_cons_of_closer_eq_none hcloser hbare',
      l.relay_relay (by simp) hrest (.inl rfl)]

/-- **What stands behind the comments that a text begins with** is written as what stands
behind them when the text, written, is read from its first line without leader on. -/
theorem Language.flatMap_written_behindBlock_relay {l : Language} {t : Text}
    (hcloser : l.grammar.closer = none) (halone : l.grammar.openerAlone = false) {first : Text}
    {rest : List Text} (hlines : Text.bareLines t = first :: rest)
    (hopens : l.grammar.opens first = true) :
    ((Document.behindBlock l.grammar ((l.grammar.relay none (Text.bareLines t)).dropWhile
        l.grammar.goesOn)).map (Stretch.segment l.grammar)).flatMap Segment.written
      = ((Document.behindBlock l.grammar (rest.dropWhile l.grammar.goesOn)).map
        (Stretch.segment l.grammar)).flatMap Segment.written := by
  have hbare : ∀ line ∈ rest.dropWhile l.grammar.goesOn, '\n' ∉ line := fun line hline =>
    Text.notMem_of_mem_bareLines
      (hlines ▸ List.mem_cons_of_mem _ ((List.dropWhile_sublist _).subset hline))
  rw [Document.flatMap_written_behindBlock, Document.flatMap_written_behindBlock,
    Document.dropWhile_relay l.tidy hcloser halone hlines hopens,
    Language.belowBlock_belowBlock hcloser hbare]

/-- A document with a block put above some of its segments is rendered as their lines. -/
theorem Document.render_comment_cons_congr {d d' : Document} {behind behind' : List Segment}
    (b : CommentBlock) (hlacks : d.missingFinalNewline = d'.missingFinalNewline)
    (hbehind : behind.flatMap Segment.written = behind'.flatMap Segment.written) :
    render { d with segments := .comment b :: behind }
      = render { d' with segments := .comment b :: behind' } := by
  rw [render_eq_ofLines, render_eq_ofLines, List.flatMap_cons, List.flatMap_cons, hbehind]
  exact congrArg _ hlacks

namespace Action

/-- **Relicensing twice.** Let a run that may replace and add licenses give a file with
line comments a new text. A second run has nothing to do exactly if the first replaced
a license or the file does not begin with a comment. If the first run put the license
above a comment with which the file began, which speaks of no license, then the second
run takes that comment away. -/
theorem relicense_twice (l l' : Language)
    (hl : l ∈ [.sh, .perl, .python, .properties, .sql, .velocity]) {source : Text}
    {r : ReferenceLicense} (hr : ReferenceLicense.ofText l'.grammar source = .ok r)
    (hlicense : (Verdict.ofComment r.comment).isLicense = true) {t t' : Text}
    {findings : List Finding}
    (h : (relicense r .both).apply ⟨some l, l.grammar, t⟩ = .ok ⟨findings, some t'⟩) :
    ((relicense r .both).apply ⟨some l, l.grammar, t'⟩ = .ok ⟨[], none⟩ ↔
      findings = [.licenseReplaced] ∨
        ∀ b behind, (Document.ofText l.grammar t).segments ≠ .comment b :: behind) ∧
    ∀ b behind, findings = [.licenseAdded] →
      (Document.ofText l.grammar t).segments = .comment b :: behind →
        (Verdict.ofComment b).isLicense = false ∧
        (relicense r .both).apply ⟨some l, l.grammar, t'⟩
          = .ok ⟨[.licenseReplaced], some (Document.render { Document.ofText l.grammar t with
            segments := .comment (r.comment.retarget l.grammar) :: behind })⟩ := by
  have hcomments : l.grammar.hasComments = true ∧ l.grammar.openerAlone = false := by
    revert hl
    cases l <;> decide
  obtain ⟨hcomments, halone⟩ := hcomments
  have hb := ReferenceLicense.writable_retarget (ReferenceLicense.portable_of_ofText l'.tidy hr)
    hcomments
  obtain ⟨-, -, hcloser⟩ := CommentBlock.exists_leader_of_openerAlone hb halone
  obtain ⟨above, below, hplaces, hinto⟩ := SourceFile.exists_writtenInto hb (Except.ok.inj h)
  have hsecond := SourceFile.relicensed_of_writtenInto hb halone hlicense hinto
  have hmerges := hplaces.takeWhile_eq_nil_iff l.tidy hcloser
  rw [← Document.segments_ne_comment_cons_iff l.tidy halone] at hmerges
  rw [apply, hsecond]
  constructor
  · rw [← hmerges]
    split
    · exact iff_of_true rfl ‹_›
    · refine iff_of_false (fun heq => ?_) ‹_›
      cases heq
  · rintro b behind rfl hsegments
    refine ⟨SourceFile.isLicense_eq_false_of_added (Except.ok.inj h) hsegments, ?_⟩
    obtain ⟨first, rest, hlines, hopens, rfl⟩ := Document.exists_opens_of_segments hsegments
    -- the license was added, and runs into the comment below it
    cases hplaces
    have hruns : ¬ (l.grammar.relay none (Text.bareLines t)).takeWhile l.grammar.goesOn = [] := by
      rw [hmerges]
      rintro (hreplaced | hnone)
      · cases hreplaced
      · exact hnone _ _ hsegments
    have hbehind := Language.flatMap_written_behindBlock_relay hcloser halone hlines hopens
    have hlacks : (Document.ofText l.grammar t').missingFinalNewline
        = (Document.ofText l.grammar t).missingFinalNewline := hinto.lacks_eq
    rw [if_neg hruns, ← Document.render_comment_cons_congr _ hlacks hbehind]
    rfl

/-- The first line of a script is gone after the second run. -/
theorem relicense_twice_script :
    ∃ r, ReferenceLicense.ofText Language.text.grammar "The license.\n".toList = .ok r ∧
      (Verdict.ofComment r.comment).isLicense = true ∧
      (relicense r .both).apply ⟨some .sh, Language.sh.grammar, "#!/bin/sh\nls\n".toList⟩
        = .ok ⟨[.licenseAdded], some "# The license.\n# !/bin/sh\nls\n".toList⟩ ∧
      (relicense r .both).apply
          ⟨some .sh, Language.sh.grammar, "# The license.\n# !/bin/sh\nls\n".toList⟩
        = .ok ⟨[.licenseReplaced], some "# The license.\nls\n".toList⟩ := by
  let r : ReferenceLicense := ⟨.ofLines .plain (Text.rawLines "The license.\n".toList), by decide⟩
  have hr : ReferenceLicense.ofText Language.text.grammar "The license.\n".toList = .ok r := rfl
  have hlicense : (Verdict.ofComment r.comment).isLicense = true := rfl
  have h : (relicense r .both).apply ⟨some .sh, Language.sh.grammar, "#!/bin/sh\nls\n".toList⟩
      = .ok ⟨[.licenseAdded], some "# The license.\n# !/bin/sh\nls\n".toList⟩ := rfl
  exact ⟨r, hr, hlicense, h,
    ((relicense_twice .sh .text (by decide) hr hlicense h).2 _ _ rfl rfl).2⟩

end Action

end LicenseHeader
