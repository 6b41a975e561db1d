import LicenseHeader.Action.Basic
import LicenseHeader.Proofs.Graft

/-!
# Relicensing, then checking

Relicensing writes the reference between two parts of a file: in the place of the first
comment block, or above everything (`SourceFile.Places`). Either way the new text is the
lines above, the lines of the reference and the lines below
(`SourceFile.exists_writtenInto`), and since no line above opens a block, the reference
is the first block that is read back (`CommentBlock.WrittenInto.exists_aroundComment?`).

With a closer that is all; whether the block is read back whole is a matter of its own
content. Without one the block goes on into lines below that have the leader. Below a
block that was replaced there are none, since the old block went on as long as it could
(`Document.takeWhile_belowBlock`). Above a whole file it depends on the first line of the
file, and rendering neither gives that line a leader nor takes one from it
(`Grammar.Relaid.leads_eq`).

`Action.check_relicensed_iff` is the result for the two actions.
-/

namespace LicenseHeader

/-! ## The first line of a rendered text -/

/-- Two solid tokens behind margins on one line begin at one place. -/
theorem Text.Solid.append_eq_of_margin {token token' m m' rest rest' : Text} (h : token.Solid)
    (h' : token'.Solid) (hm : Text.isBlank m = true) (hm' : Text.isBlank m' = true)
    (heq : m ++ (token ++ rest) = m' ++ (token' ++ rest')) : token ++ rest = token' ++ rest' := by
  have hcut : ∀ {n tok tail : Text}, Text.isBlank n = true → tok.Solid →
      (n ++ (tok ++ tail)).dropWhile isSpace = tok ++ tail := by
    intro n tok tail hn htok
    obtain ⟨c, tok, rfl, hc⟩ := htok.exists_cons
    rw [List.dropWhile_append_of_pos (List.all_eq_true.1 hn), List.cons_append,
      List.dropWhile_cons_of_neg (by rw [hc]; exact Bool.false_ne_true)]
  rw [← hcut hm h, heq, hcut hm' h']

/-- A solid token at the start of a text and blanks is one at the start of the text. -/
theorem Text.Solid.exists_append_eq {token text behind rest : Text} (h : token.Solid)
    (hbehind : Text.isBlank behind = true) (heq : text ++ behind = token ++ rest) :
    ∃ tail, text = token ++ tail := by
  rcases List.append_eq_append_iff.1 heq with ⟨tail, htoken, htail⟩ | ⟨tail, htext, -⟩
  · rcases List.eq_nil_or_concat tail with rfl | ⟨init, c, rfl⟩
    · exact ⟨[], by rw [htoken, List.append_nil, List.append_nil]⟩
    · -- the token would end in one of the blanks
      have hends := h.ends
      rw [List.concat_eq_append] at htoken htail
      rw [htail, Text.isBlank_append, Text.isBlank_append, Text.isBlank_cons] at hbehind
      simp only [Bool.and_eq_true] at hbehind
      rw [htoken, ← List.append_assoc, List.getLast?_concat, Option.any_some,
        hbehind.1.2.1] at hends
      cases hends
  · exact ⟨tail, htext⟩

namespace Grammar

variable {g : Grammar} {line w : Text} {m' : Option Text}

theorem Tidy.leads_append (hg : g.Tidy) {token rest : Text} (hleader : g.leader = some token)
    (hbare : '\n' ∉ rest) : g.leads (token ++ rest) = true := by
  have hrest : g.leaderRest? (token ++ rest) = some ([], rest) :=
    (hg.leaderRest?_eq_some_iff hleader).2 ⟨rfl, rfl, hbare⟩
  rw [leads, hrest]
  rfl

/-- **A lone opener does not stand behind the leader.** -/
theorem Tidy.leads_eq_false_of_opens (hg : g.Tidy) (hcloser : g.closer = none)
    (halone : g.openerAlone = true) (hopens : g.opens line = true) : g.leads line = false := by
  obtain ⟨token, hopener⟩ := exists_opener_of_openerAlone halone
  have hsolid := hg.opener_solid token hopener
  -- the opener itself has no leader
  have htoken : g.leads token = false := by
    rw [openerAlone, hopener, Option.any_some, hcloser] at halone
    simpa using halone
  obtain ⟨m, hmargin⟩ := Option.isSome_iff_exists.1 hopens
  obtain ⟨hm, behind, rfl, hbehind⟩ := (hg.openerMargin?_eq_some_iff hopener halone).1 hmargin
  rw [Bool.eq_false_iff]
  intro hleads
  obtain ⟨leader, hleader⟩ := exists_leader_of_leads hleads
  have hlead := hg.leader_solid leader hleader
  obtain ⟨⟨m', rest⟩, hrest⟩ := Option.isSome_iff_exists.1 hleads
  obtain ⟨hm', heq, -⟩ := (hg.leaderRest?_eq_some_iff hleader).1 hrest
  rw [List.append_assoc, List.append_assoc] at heq
  obtain ⟨tail, rfl⟩ :=
    hlead.exists_append_eq hbehind (hsolid.append_eq_of_margin hlead hm hm' heq)
  have htail : '\n' ∉ tail := fun hmem => hsolid.bare (List.mem_append_right _ hmem)
  rw [hg.leads_append hleader htail] at htoken
  cases htoken

/-- Rendering takes no leader from the first line and gives it none. -/
theorem Relaid.leads_eq (h : g.Relaid none line w m') (hg : g.Tidy) (hcloser : g.closer = none)
    (hbare : '\n' ∉ line) : g.leads w = g.leads line := by
  cases h with
  | code _ => rfl
  | first hopens =>
    have hwritten := hg.opens_writeFirst hopens hbare
    cases halone : g.openerAlone with
    | true =>
      rw [hg.leads_eq_false_of_opens hcloser halone hwritten,
        hg.leads_eq_false_of_opens hcloser halone hopens]
    | false =>
      rw [← hg.opens_eq_leads halone (hg.writeFirst_bare_and_ne_nil hopens hbare).1, hwritten,
        ← hg.opens_eq_leads halone hbare, hopens]

/-- A block goes on into a rendered text if the first line of the text has the leader. -/
theorem Tidy.takeWhile_relay_eq_nil_iff (hg : g.Tidy) (hcloser : g.closer = none) {ls : List Text}
    (hbare : ∀ line ∈ ls, '\n' ∉ line) :
    (g.relay none ls).takeWhile g.goesOn = [] ↔ ∀ first ∈ ls.head?, g.leads first = false := by
  cases ls with
  | nil => exact iff_of_true rfl (by simp)
  | cons line ls =>
    have hstep := g.relaid_relayStep none line
    have hleads := hstep.leads_eq hg hcloser (hbare line List.mem_cons_self)
    rw [hstep.relay_cons, List.takeWhile_cons, goesOn_of_closer_eq_none hcloser, hleads]
    cases hline : g.leads line <;> simp [hline]

end Grammar

/-! ## The lines below the first block -/

theorem Stretch.flatMap_written_ofCode (g : Grammar) (ls : List Text) :
    (Stretch.ofCode ls).flatMap (Stretch.written g) = ls := by
  unfold Stretch.ofCode
  split
  · rw [‹ls = []›]; rfl
  · exact List.flatMap_singleton _ _

namespace Document

variable {g : Grammar}

/-- The lines that the stretches behind a block are written as. -/
def belowBlock (g : Grammar) (ls : List Text) : List Text :=
  (behindBlock g ls).flatMap (Stretch.written g)

theorem flatMap_written_behindBlock (g : Grammar) (ls : List Text) :
    ((behindBlock g ls).map (Stretch.segment g)).flatMap Segment.written = belowBlock g ls :=
  List.flatMap_map _ _ _

/-- A line without leader ends a block that has no closer, and is written as it stands. -/
theorem belowBlock_cons_of_closer_eq_none (hcloser : g.closer = none) {line : Text}
    {rest : List Text} (hbare : ∀ l ∈ line :: rest, '\n' ∉ l) :
    belowBlock g (line :: rest) = line :: g.relay none rest := by
  have hfits : (LineReader.inCode [line]).Fits g :=
    ⟨List.cons_ne_nil _ _, fun l hl => by
      rw [List.mem_singleton.1 hl]; exact hbare line List.mem_cons_self⟩
  rw [belowBlock, behindBlock, hcloser, if_pos Option.isNone_none,
    flatMap_written_stretchesFrom _ hfits fun l hl => hbare l (List.mem_cons_of_mem _ hl)]
  rfl

/-- Nothing below a block without closer is taken for a part of it. -/
theorem takeWhile_belowBlock (hcloser : g.closer = none) {ls : List Text}
    (hbare : ∀ line ∈ ls, '\n' ∉ line) :
    (belowBlock g (ls.dropWhile g.goesOn)).takeWhile g.goesOn = [] := by
  have hbare' : ∀ line ∈ ls.dropWhile g.goesOn, '\n' ∉ line :=
    fun line hline => hbare line ((List.dropWhile_sublist _).subset hline)
  have hhead := List.head?_dropWhile_not g.goesOn ls
  cases hdrop : ls.dropWhile g.goesOn with
  | nil => rfl
  | cons line rest =>
    rw [hdrop] at hbare' hhead
    rw [belowBlock_cons_of_closer_eq_none hcloser hbare', List.takeWhile_cons,
      if_neg (Bool.eq_false_iff.1 hhead)]

/-- So what is below a block is left when nothing more is taken for a part of it. -/
theorem dropWhile_belowBlock (hcloser : g.closer = none) {ls : List Text}
    (hbare : ∀ line ∈ ls, '\n' ∉ line) :
    (belowBlock g (ls.dropWhile g.goesOn)).dropWhile g.goesOn
      = belowBlock g (ls.dropWhile g.goesOn) := by
  have hcut := List.takeWhile_append_dropWhile (p := g.goesOn)
    (l := belowBlock g (ls.dropWhile g.goesOn))
  rwa [takeWhile_belowBlock hcloser hbare, List.nil_append] at hcut

/-- The lines of a text, written, are those above its first block, those of the block and
those below. -/
theorem relay_eq_append {t line : Text} {rest : List Text}
    (hfrom : g.fromOpener (Text.bareLines t) = line :: rest) :
    g.relay none (Text.bareLines t)
      = g.above (Text.bareLines t) ++ ((((g.blockStart line).extend g rest).read g).written
        ++ belowBlock g (rest.dropWhile g.goesOn)) := by
  rw [← flatMap_written_stretches, stretches_eq, hfrom,
    stretchesFrom_of_opens (Grammar.opens_of_fromOpener hfrom), List.flatMap_append,
    List.flatMap_cons, belowBlock, Stretch.flatMap_written_ofCode]
  rfl

end Document

/-! ## A text with a block put into it -/

namespace CommentBlock

variable {b : CommentBlock}

theorem bare_of_mem_written (hb : b.Portable) (hg : b.grammar.Tidy) {line : Text}
    (hline : line ∈ b.written) : '\n' ∉ line := by
  unfold written at hline
  rcases List.mem_append.1 hline with hline | hline
  · rcases List.mem_append.1 hline with hline | hline
    · cases halone : b.grammar.openerAlone with
      | false => rw [halone] at hline; cases hline
      | true =>
        obtain ⟨token, hopener⟩ := Grammar.exists_opener_of_openerAlone halone
        rw [halone, if_pos rfl, List.mem_singleton] at hline
        have hmark : '\n' ∉ returnMark b.openerReturn := by cases b.openerReturn <;> decide
        rw [hline, hg.writeOpener_eq hopener]
        simp [hb.margin.bare, (hg.opener_solid token hopener).bare, hmark]
    · obtain ⟨content, hcontent, rfl⟩ := List.mem_map.1 hline
      exact hg.notMem_writeContent hb.margin (hb.bare content hcontent)
  · cases hcloser : b.grammar.closer with
    | none => rw [hcloser] at hline; cases hline
    | some token =>
      rw [hcloser, if_pos Option.isSome_some, List.mem_singleton] at hline
      rw [hline]
      exact (hg.writeCloser_bare_and_ne_nil hcloser hb.margin b.closerReturn).1

/-- The last line of a written block has something on it. -/
theorem getLast?_written (hb : b.Writable) :
    ∃ last, b.written.getLast? = some last ∧ last ≠ [] := by
  unfold written
  cases hcloser : b.grammar.closer with
  | some token =>
    rw [if_pos Option.isSome_some, List.getLast?_concat]
    exact ⟨_, rfl, (hb.tidy.writeCloser_bare_and_ne_nil hcloser hb.margin b.closerReturn).2⟩
  | none =>
    obtain ⟨token, hleader⟩ :=
      Option.isSome_iff_exists.1 (Grammar.leader_isSome hb.hasComments hcloser)
    obtain ⟨init, content, hlines⟩ := List.eq_nil_or_concat b.lines |>.resolve_left hb.ne_nil
    rw [Option.isSome_none, if_neg Bool.false_ne_true, List.append_nil, hlines,
      List.concat_eq_append, List.map_append, List.map_singleton, ← List.append_assoc,
      List.getLast?_concat]
    refine ⟨_, rfl, ?_⟩
    rw [hb.tidy.writeContent_eq hleader]
    simp [(hb.tidy.leader_solid token hleader).ne_nil]

/-- **A text into which a block was written is told by its lines.** -/
theorem legible_graft (hb : b.Writable) {above below : List Text} {lacks : Bool}
    (habove : ∀ line ∈ above, '\n' ∉ line) (hbelow : ∀ line ∈ below, '\n' ∉ line)
    (hlast : lacks = true → below ≠ [] → ∃ last, below.getLast? = some last ∧ last ≠ []) :
    Text.Legible (above ++ (b.written ++ below)) lacks where
  bare := fun line hline => by
    rcases List.mem_append.1 hline with hline | hline
    · exact habove line hline
    · rcases List.mem_append.1 hline with hline | hline
      · exact bare_of_mem_written hb.toPortable hb.tidy hline
      · exact hbelow line hline
  tail := fun hlacks => by
    by_cases hbelow : below = []
    · obtain ⟨last, hwritten, hne⟩ := getLast?_written hb
      refine ⟨last, ?_, hne⟩
      rw [hbelow, List.append_nil, List.getLast?_append, hwritten]
      rfl
    · obtain ⟨last, hsome, hne⟩ := hlast hlacks hbelow
      refine ⟨last, ?_, hne⟩
      rw [← List.append_assoc, List.getLast?_append, hsome]
      rfl

end CommentBlock

/-- **Where a block stands in a text that it was written into.** -/
structure CommentBlock.WrittenInto (b : CommentBlock) (t t' : Text) (above below : List Text) :
    Prop where
  /-- The lines of the new text. -/
  lines_eq : Text.bareLines t' = above ++ (b.written ++ below)
  /-- Its last line has a newline if that of the old text has. -/
  lacks_eq : Text.lacksNewline t' = Text.lacksNewline t
  /-- No line above opens a block. -/
  above_opens : ∀ line ∈ above, b.grammar.opens line = false

namespace Document

variable {b : CommentBlock} {t : Text}

/-- **A block set among the segments of a text** is written into it: between the lines of
the segments before, none of which opens a block, and those of the segments behind, with
which the text itself is written to its end. -/
theorem writtenInto_render (hb : b.Writable) {before behind : List Segment} {above : List Text}
    (habove : before.flatMap Segment.written = above)
    (hopens : ∀ line ∈ above, b.grammar.opens line = false)
    (hbare : ∀ line ∈ above, '\n' ∉ line) {init : List Text}
    (hrelay : b.grammar.relay none (Text.bareLines t) = init ++ behind.flatMap Segment.written) :
    b.WrittenInto t
      (render { ofText b.grammar t with segments := before ++ .comment b :: behind })
      above (behind.flatMap Segment.written) := by
  have hlines : (before ++ Segment.comment b :: behind).flatMap Segment.written
      = above ++ (b.written ++ behind.flatMap Segment.written) := by
    rw [List.flatMap_append, habove, List.flatMap_cons]
    rfl
  have hlegible := hb.tidy.legible_relay (Text.legible_bareLines t)
  rw [hrelay] at hlegible
  have hgraft : Text.Legible (above ++ (b.written ++ behind.flatMap Segment.written))
      (Text.lacksNewline t) := by
    refine CommentBlock.legible_graft hb hbare ?_ ?_
    · exact fun line hline => hlegible.bare line (List.mem_append_right _ hline)
    · intro hlacks hbelow
      obtain ⟨last, hlast, hne⟩ := hlegible.tail hlacks
      refine ⟨last, ?_, hne⟩
      rwa [List.getLast?_append_of_ne_nil _ hbelow] at hlast
  have hrender : render { ofText b.grammar t with segments := before ++ .comment b :: behind }
      = Text.ofLines (above ++ (b.written ++ behind.flatMap Segment.written))
        (Text.lacksNewline t) := by
    rw [render_eq_ofLines, hlines]
    rfl
  rw [hrender]
  exact ⟨Text.bareLines_ofLines hgraft, Text.lacksNewline_ofLines hgraft, hopens⟩

end Document

/-! ## What relicensing writes -/

/-- A reference license is never dropped from a document. -/
theorem ReferenceLicense.settle_retarget (r : ReferenceLicense) (g : Grammar) :
    (Segment.comment (r.comment.retarget g)).settle = [.comment (r.comment.retarget g)] := by
  have hne : (r.comment.retarget g).isEmpty = false := by
    unfold CommentBlock.isEmpty CommentBlock.retarget
    simp [r.nonempty]
  show (if (r.comment.retarget g).isEmpty = true then _ else _) = _
  rw [hne, if_neg Bool.false_ne_true]
  rfl

namespace SourceFile

variable {f : SourceFile} {r : ReferenceLicense} {mode : RelicenseMode} {findings : List Finding}
  {t' : Text}

/-- **All that relicensing can write**: the file with its license block replaced, or the
file with the reference above it. -/
theorem relicensed_cases (h : f.relicensed r mode = ⟨findings, some t'⟩) :
    (∃ before block behind, f.licenseBlock? = some (before, block, behind) ∧
      mode.replaces = true ∧ block.render ≠ (r.comment.retarget f.grammar).render ∧
      findings = [.licenseReplaced] ∧
      t' = Document.render { f.document with
        segments := before ++ .comment (r.comment.retarget f.grammar) :: behind }) ∨
    (f.licenseBlock? = none ∧ mode.adds = true ∧ findings = [.licenseAdded] ∧
      t' = Document.render { f.document with
        segments := .comment (r.comment.retarget f.grammar) :: f.document.segments }) := by
  unfold relicensed at h
  dsimp only at h
  split at h
  · rename_i before block behind hblock
    split at h
    · rename_i hreplaces
      obtain ⟨hmode, hrender⟩ := Bool.and_eq_true_iff.1 hreplaces
      obtain ⟨rfl, htext⟩ := Outcome.mk.inj h
      exact .inl ⟨before, block, behind, hblock, hmode, bne_iff_ne.1 hrender, rfl,
        (Option.some.inj htext).symm⟩
    · cases h
  · rename_i hblock
    split at h
    · rename_i hmode
      obtain ⟨rfl, htext⟩ := Outcome.mk.inj h
      rw [r.settle_retarget] at htext
      exact .inr ⟨hblock, hmode, rfl, (Option.some.inj htext).symm⟩
    · cases h

/-- **Where relicensing puts the reference**, by what it reports: between lines that stand
above and lines that stand below in the new text. -/
inductive Places (f : SourceFile) : List Finding → List Text → List Text → Prop
  /-- In the place of the first block. -/
  | replaced {first : Text} {rest : List Text}
      (hfrom : f.grammar.fromOpener (Text.bareLines f.text) = first :: rest) :
      Places f [.licenseReplaced] (f.grammar.above (Text.bareLines f.text))
        (Document.belowBlock f.grammar (rest.dropWhile f.grammar.goesOn))
  /-- Above all lines. -/
  | added : Places f [.licenseAdded] [] (f.grammar.relay none (Text.bareLines f.text))

/-- **What relicensing writes, line by line.** -/
theorem exists_writtenInto (hb : (r.comment.retarget f.grammar).Writable)
    (h : f.relicensed r mode = ⟨findings, some t'⟩) :
    ∃ above below, f.Places findings above below ∧
      (r.comment.retarget f.grammar).WrittenInto f.text t' above below := by
  rcases relicensed_cases h with ⟨before, block, behind, hblock, -, -, rfl, rfl⟩ | ⟨-, -, rfl, rfl⟩
  · have haround := Option.filter_eq_some_iff.1 hblock |>.1
    rw [document, Document.aroundComment?_ofText] at haround
    split at haround
    · cases haround
    · rename_i first rest hfrom
      obtain ⟨rfl, -, rfl⟩ := haround
      have habove : ((Stretch.ofCode (f.grammar.above (Text.bareLines f.text))).map
          (Stretch.segment f.grammar)).flatMap Segment.written
            = f.grammar.above (Text.bareLines f.text) := by
        rw [List.flatMap_map]
        exact Stretch.flatMap_written_ofCode _ _
      have hrelay := Document.relay_eq_append hfrom
      rw [← List.append_assoc, ← Document.flatMap_written_behindBlock] at hrelay
      have hgraft := Document.writtenInto_render hb habove (fun _ => Grammar.opens_of_mem_above)
        (fun line hline => Text.notMem_of_mem_bareLines
          ((List.takeWhile_prefix _).subset hline)) hrelay
      rw [Document.flatMap_written_behindBlock] at hgraft
      exact ⟨_, _, .replaced hfrom, hgraft⟩
  · have hbelow : f.document.segments.flatMap Segment.written
        = f.grammar.relay none (Text.bareLines f.text) := by
      rw [document, Document.ofText_segments, List.flatMap_map]
      exact Document.flatMap_written_stretches _ _
    have hrelay : f.grammar.relay none (Text.bareLines f.text)
        = [] ++ f.document.segments.flatMap Segment.written := hbelow.symm
    have hgraft := Document.writtenInto_render hb (List.flatMap_nil (f := Segment.written))
      (by simp) (by simp) hrelay
    rw [hbelow] at hgraft
    exact ⟨[], _, .added, hgraft⟩

/-- **Without a closer, the reference runs into the lines below** if it was put above a
line with the leader. -/
theorem Places.takeWhile_eq_nil_iff {above below : List Text} (h : f.Places findings above below)
    (hg : f.grammar.Tidy) (hcloser : f.grammar.closer = none) :
    below.takeWhile f.grammar.goesOn = [] ↔ findings = [.licenseReplaced] ∨
      ∀ first ∈ (Text.bareLines f.text).head?, f.grammar.leads first = false := by
  cases h with
  | @replaced first rest hfrom =>
    have hbare : ∀ line ∈ rest, '\n' ∉ line := by
      intro line hline
      have hmem : line ∈ f.grammar.fromOpener (Text.bareLines f.text) := by
        rw [hfrom]
        exact List.mem_cons_of_mem _ hline
      exact Text.notMem_of_mem_bareLines ((List.dropWhile_sublist _).subset hmem)
    exact iff_of_true (Document.takeWhile_belowBlock hcloser hbare) (.inl rfl)
  | added =>
    rw [hg.takeWhile_relay_eq_nil_iff hcloser fun _ => Text.notMem_of_mem_bareLines]
    simp

end SourceFile

/-! ## Looking again -/

theorem BlockLines.margin_extend {g : Grammar} (line : Text) (ls : List Text) :
    ((g.blockStart line).extend g ls).margin g = g.blockMargin line := by
  unfold Grammar.blockStart BlockLines.extend BlockLines.margin
  split <;> rfl

namespace CommentBlock.WrittenInto

variable {b : CommentBlock} {t t' : Text} {above below : List Text}

/-- **A block that was written into a text is its first block**, with the margin that it
was written with, and goes on as long as the lines let it. -/
theorem exists_aroundComment? (h : b.WrittenInto t t' above below) (hb : b.Writable) :
    ∃ s : BlockLines,
      Document.aroundComment? (Document.ofText b.grammar t').segments
        = some ((Stretch.ofCode above).map (Stretch.segment b.grammar), s.read b.grammar,
          (Document.behindBlock b.grammar ((b.afterOpener below).dropWhile b.grammar.goesOn)).map
            (Stretch.segment b.grammar)) ∧
      s.margin b.grammar = b.margin ∧
      s.content = (b.afterOpener below).takeWhile b.grammar.goesOn := by
  obtain ⟨first, rest, hwritten, hopens, hmargin, hcontent, hrest⟩ :=
    exists_opener_written hb below
  have hlines := h.lines_eq
  rw [hwritten] at hlines
  obtain ⟨habove, hfrom⟩ := Grammar.above_append_cons h.above_opens hopens rest
  refine ⟨(b.grammar.blockStart first).extend b.grammar rest, ?_, ?_, hcontent⟩
  · rw [Document.aroundComment?_ofText, hlines, hfrom, habove, ← hrest]
  · rw [BlockLines.margin_extend, hmargin]

/-- **A text has no deviation from a block that was written into it** exactly if no content
line closes the block and the block does not go on below. -/
theorem deviations_eq_nil_iff (h : b.WrittenInto t t' above below) (hb : b.Writable) :
    (∃ block, (Document.ofText b.grammar t').firstComment? = some block ∧
        Deviation.between b.lines block.lines = []) ↔
      if b.grammar.closer.isSome then ∀ line ∈ b.writtenContent, b.grammar.closes line = false
      else below.takeWhile b.grammar.goesOn = [] := by
  obtain ⟨s, haround, -, hcontent⟩ := h.exists_aroundComment? hb
  rw [Document.firstComment?_eq, haround, ← forall₂_padded_iff hb below, ← hcontent,
    ← Deviation.between_eq_nil_iff]
  simp [BlockLines.read]

end CommentBlock.WrittenInto

/-- Checking finds nothing if there is a first block without deviation. -/
theorem SourceFile.deviationFindings_eq_nil_iff (f : SourceFile) (r : ReferenceLicense) :
    f.deviationFindings r = [] ↔
      ∃ block, f.document.firstComment? = some block ∧
        Deviation.between r.comment.lines block.lines = [] := by
  unfold deviationFindings
  cases hfirst : f.document.firstComment? with
  | none => simp
  | some block => simp [ReferenceLicense.deviations]

theorem CommentBlock.stripTerminator_renderLine (b : CommentBlock) (content : Text) :
    Text.stripTerminator (b.renderLine content) = b.grammar.writeContent b.margin content :=
  Text.dropFinal_append_singleton '\n' _

namespace Action

/-- **Relicense, then check.** Where relicensing with a reference gives a file a new text,
checking that against the same reference finds nothing exactly if

* in a language with a closer, no line of the reference closes the comment that it is
  rendered in;
* in a language without, an old license was replaced, or the old text is empty, or its
  first line lacks the leader. -/
theorem check_relicensed_iff (l l' : Language) (hl : l.grammar.hasComments = true) {source : Text}
    {r : ReferenceLicense} (hr : ReferenceLicense.ofText l'.grammar source = .ok r)
    {mode : RelicenseMode} {t t' : Text} {findings : List Finding}
    (h : (relicense r mode).apply ⟨some l, l.grammar, t⟩ = .ok ⟨findings, some t'⟩) :
    (check r).apply ⟨some l, l.grammar, t'⟩ = .ok ⟨[], none⟩ ↔
      if l.grammar.closer.isSome then
        ∀ content ∈ r.comment.lines, l.grammar.closes
          (Text.stripTerminator ((r.comment.retarget l.grammar).renderLine content)) = false
      else findings = [.licenseReplaced] ∨
        ∀ first ∈ (Text.bareLines t).head?, l.grammar.leads first = false := by
  have hb := ReferenceLicense.writable_retarget (ReferenceLicense.portable_of_ofText l'.tidy hr) hl
  obtain ⟨above, below, hplaces, hinto⟩ := SourceFile.exists_writtenInto hb (Except.ok.inj h)
  have hcheck : (check r).apply ⟨some l, l.grammar, t'⟩ = .ok ⟨[], none⟩ ↔
      SourceFile.deviationFindings ⟨some l, l.grammar, t'⟩ r = [] := by
    simp [apply]
  rw [hcheck, SourceFile.deviationFindings_eq_nil_iff]
  refine (hinto.deviations_eq_nil_iff hb).trans ?_
  show (if l.grammar.closer.isSome then ∀ line ∈ _, l.grammar.closes line = false
    else below.takeWhile l.grammar.goesOn = []) ↔ _
  cases hcloser : l.grammar.closer with
  | some token =>
    rw [if_pos Option.isSome_some, if_pos Option.isSome_some, CommentBlock.writtenContent,
      List.forall_mem_map]
    simp only [CommentBlock.stripTerminator_renderLine]
    rfl
  | none =>
    rw [if_neg (by simp), if_neg (by simp)]
    exact hplaces.takeWhile_eq_nil_iff l.tidy hcloser

/-- A line with the leader that the reference is put above is taken for a part of it. -/
theorem check_relicensed_above_leader :
    ∃ r, ReferenceLicense.ofText Language.text.grammar "The license.\n".toList = .ok r ∧
      (relicense r .both).apply ⟨some .sh, Language.sh.grammar, "#!/bin/sh\n".toList⟩
        = .ok ⟨[.licenseAdded], some "# The license.\n# !/bin/sh\n".toList⟩ ∧
      (check r).apply ⟨some .sh, Language.sh.grammar, "# The license.\n# !/bin/sh\n".toList⟩
        ≠ .ok ⟨[], none⟩ := by
  let r : ReferenceLicense := ⟨.ofLines .plain (Text.rawLines "The license.\n".toList), by decide⟩
  have hr : ReferenceLicense.ofText Language.text.grammar "The license.\n".toList = .ok r := rfl
  have h : (relicense r .both).apply ⟨some .sh, Language.sh.grammar, "#!/bin/sh\n".toList⟩
      = .ok ⟨[.licenseAdded], some "# The license.\n# !/bin/sh\n".toList⟩ := rfl
  refine ⟨r, hr, h, fun hclean => ?_⟩
  exact absurd ((check_relicensed_iff .sh .text rfl hr h).1 hclean) (by decide)

end Action

end LicenseHeader
