import LicenseHeader.Proofs.Rearranged
import LicenseHeader.Proofs.Settled

/-!
# The XML declaration on top

`Layout.xmlHead` puts a declaration on the first line and takes every other one out of the
code. It looks for a declaration in the first code run that is not all blank, and not
further; it takes declarations out of all runs.

So the text it leaves begins with a declaration and has no other in its code
(`Layout.pieces_xmlHead`). The second run then finds this one and no other: the declaration
and the code below it are one run now, and the first one that is not blank
(`Layout.xmlDeclaration_eq`). It takes out what it puts in, and `Action.xmlTop_settles` says
that the file is left alone from then on.
-/

namespace LicenseHeader

namespace Layout

/-- Whether a piece is a declaration. -/
def Piece.isXmlDeclaration : Piece → Bool
  | block _ => false
  | line l => Layout.isXmlDeclaration l

/-! ## Declarations -/

theorem isBlank_of_isXmlDeclaration {line : Text} (h : isXmlDeclaration line = true) :
    Text.isBlank line = false := by
  refine Bool.eq_false_iff.2 fun hblank => ?_
  have htrim : Text.trimStart line = [] :=
    List.dropWhile_eq_nil_iff.2 (List.all_eq_true.1 hblank)
  rw [isXmlDeclaration, htrim] at h
  cases h

/-- A declaration leaves a trace wherever it stands. -/
theorem line_ne_of_isXmlDeclaration {line : Text} (h : isXmlDeclaration line = true) :
    Piece.line line ≠ .line [] := by
  intro heq
  rw [Piece.line.inj heq] at h
  cases h

/-- **The declaration of a file** is one of its lines of code, or the default one. -/
theorem xmlDeclaration_spec (d : Document) :
    isXmlDeclaration (xmlDeclaration d) = true ∧
      (xmlDeclaration d = defaultXmlDeclaration ∨
        Piece.line (xmlDeclaration d) ∈ pieces d.segments) := by
  unfold xmlDeclaration
  dsimp only
  cases hrun : (d.segments.filterMap Segment.code?).find?
      fun r : CodeRun => !r.lines.all Text.isBlank with
  | none => exact ⟨by decide, .inl rfl⟩
  | some r =>
    show isXmlDeclaration ((r.lines.find? isXmlDeclaration).getD _) = true ∧ _
    cases hline : r.lines.find? isXmlDeclaration with
    | none => exact ⟨by decide, .inl (by rw [Option.bind_some, hline]; rfl)⟩
    | some line =>
      refine ⟨List.find?_some hline, .inr ?_⟩
      rw [Option.bind_some, hline]
      obtain ⟨s, hs, hcode⟩ := List.mem_filterMap.1 (List.mem_of_find?_eq_some hrun)
      refine List.mem_flatMap.2 ⟨s, hs, ?_⟩
      cases s with
      | comment b => cases hcode
      | code r' =>
        obtain rfl := Option.some.inj hcode
        exact List.mem_map_of_mem (List.mem_of_find?_eq_some hline)

/-- **A declaration on the first line is found.** Nothing stands before it, so its run is
the first, and it is not blank. -/
theorem xmlDeclaration_eq {d : Document} (hsettled : ∀ s ∈ d.segments, s.settle = [s])
    {first : Text} {ps : List Piece} (hpieces : pieces d.segments = .line first :: ps)
    (hfirst : isXmlDeclaration first = true) : xmlDeclaration d = first := by
  unfold xmlDeclaration
  cases hsegments : d.segments with
  | nil => rw [hsegments] at hpieces; cases hpieces
  | cons s rest =>
    rw [hsegments] at hpieces hsettled
    cases s with
    | comment b => cases hpieces
    | code r =>
      obtain ⟨lines, ignores⟩ := r
      cases lines with
      | nil =>
        have hempty := Segment.isEmpty_of_settle (hsettled _ List.mem_cons_self)
        cases hempty
      | cons line lines =>
        obtain ⟨hline, -⟩ := List.cons.inj hpieces
        obtain rfl := Piece.line.inj hline
        have hrun : (!(line :: lines).all Text.isBlank) = true := by
          rw [List.all_cons, isBlank_of_isXmlDeclaration hfirst]
          rfl
        dsimp only
        rw [List.filterMap_cons_some (rfl : Segment.code? (.code _) = some _),
          List.find?_cons_of_pos (p := fun r : CodeRun => !r.lines.all Text.isBlank) hrun,
          Option.bind_some, List.find?_cons_of_pos hfirst]
        rfl

/-! ## The pieces of a file with its declaration on top -/

/-- Taking the declarations out of segments takes them out of the pieces. -/
theorem pieces_withoutXmlDeclarations {segments : List Segment}
    (hsettled : ∀ s ∈ segments, s.settle = [s]) :
    pieces (segments.flatMap fun s => (withoutXmlDeclarations s).settle)
      = (pieces segments).filter fun p => !p.isXmlDeclaration := by
  induction segments with
  | nil => rfl
  | cons s segments ih =>
    obtain ⟨hs, hrest⟩ := List.forall_mem_cons.1 hsettled
    rw [List.flatMap_cons, pieces_append, ih hrest, pieces_cons, List.filter_append]
    refine congrArg (· ++ _) ?_
    cases s with
    | comment b =>
      show pieces (Segment.comment b).settle = [Piece.block b]
      rw [hs]
      rfl
    | code r =>
      show pieces (Segment.code { lines := r.lines.filter fun l => !isXmlDeclaration l }).settle
        = (r.lines.map Piece.line).filter fun p => !p.isXmlDeclaration
      rw [pieces_settle_code, List.filter_map]
      rfl

/-- **The pieces of a file with its declaration on top.** -/
theorem pieces_xmlHead (g : Grammar) (t : Text) :
    pieces (xmlHead (.ofText g t)).segments
      = .line (xmlDeclaration (.ofText g t))
        :: (pieces (Document.ofText g t).segments).filter fun p => !p.isXmlDeclaration := by
  unfold xmlHead
  rw [pieces_append, pieces_settle_code,
    pieces_withoutXmlDeclarations fun s => Document.settle_of_mem]
  rfl

/-- What is read back from pieces without declarations has none. -/
theorem isXmlDeclaration_of_mem_readBack {g : Grammar} (hg : g ≠ Language.starred)
    {ps : List Piece} (hfits : ∀ p ∈ ps, p.Fits g) (hps : ∀ p ∈ ps, p.isXmlDeclaration = false) :
    ∀ p ∈ ps.flatMap Piece.readBack, p.isXmlDeclaration = false := by
  intro p hp
  cases p with
  | block b => rfl
  | line l =>
    obtain hl | ⟨b, hmem, hleft⟩ := Piece.mem_flatMap_readBack hp
    · exact hps _ hl
    · -- without stars no line of a block is left over
      obtain ⟨hb, rfl⟩ := hfits _ hmem
      rw [hb.leftOver_eq_nil_iff.2 fun h => absurd h hg] at hleft
      cases hleft

section Markup

variable {l : Language} (hcloser : l.grammar.closer.isSome = true)
include hcloser

/-- The declaration put on top opens no block. -/
theorem fits_of_mem_xmlHead (hdefault : l.grammar.opens defaultXmlDeclaration = false) (t : Text) :
    ∀ p ∈ pieces (xmlHead (.ofText l.grammar t)).segments, p.Fits l.grammar := by
  rw [pieces_xmlHead, List.forall_mem_cons]
  constructor
  · rcases (xmlDeclaration_spec (.ofText l.grammar t)).2 with hsame | hmem
    · rw [hsame]
      exact ⟨hdefault, by decide⟩
    · exact fits_of_mem_pieces hcloser hmem
  · exact fun p hp => fits_of_mem_pieces hcloser (List.mem_of_mem_filter hp)

/-- **What is read from a file that was given its declaration**: the declaration first, and
no other below it. What is written of these pieces are the lines of the file. -/
theorem exists_pieces_xmlHead (hstars : l.grammar ≠ Language.starred)
    (hdefault : l.grammar.opens defaultXmlDeclaration = false) (t : Text) :
    ∃ first ps, isXmlDeclaration first = true ∧ (∀ p ∈ ps, p.isXmlDeclaration = false) ∧
      pieces (Document.ofText l.grammar (xmlHead (.ofText l.grammar t)).render).segments
        = .line first :: ps ∧
      Text.bareLines (xmlHead (.ofText l.grammar t)).render
        = first :: ps.flatMap Piece.written := by
  have hfirst := (xmlDeclaration_spec (.ofText l.grammar t)).1
  have hfits := fits_of_mem_xmlHead hcloser hdefault t
  have hlines := bareLines_render hfits
  have hpieces := pieces_render hfits
  rw [pieces_xmlHead] at hfits hlines hpieces
  rw [traced_cons (line_ne_of_isXmlDeclaration hfirst)] at hlines hpieces
  have hbelow : ∀ p ∈ traced _ (xmlHead (.ofText l.grammar t)).missingFinalNewline,
      p.Fits l.grammar := fun p hp => hfits p (List.mem_cons_of_mem _ (mem_of_mem_traced hp))
  refine ⟨_, (traced _ _).flatMap Piece.readBack, hfirst, ?_, hpieces, ?_⟩
  · refine isXmlDeclaration_of_mem_readBack hstars hbelow fun p hp => ?_
    simpa using List.of_mem_filter (mem_of_mem_traced hp)
  · rw [Piece.flatMap_written_readBack hbelow]
    exact hlines

/-- **A declaration on top stays there**, if it is the only one. -/
theorem xmlHead_render_eq {t first : Text} {ps : List Piece}
    (hfirst : isXmlDeclaration first = true) (hps : ∀ p ∈ ps, p.isXmlDeclaration = false)
    (hpieces : pieces (Document.ofText l.grammar t).segments = .line first :: ps)
    (hlines : Text.bareLines t = first :: ps.flatMap Piece.written) :
    (xmlHead (.ofText l.grammar t)).render = t := by
  have hread : ∀ p ∈ Piece.line first :: ps, p.Fits l.grammar := fun p hp =>
    fits_of_mem_pieces hcloser (t := t) (hpieces ▸ hp)
  have hnew : pieces (xmlHead (.ofText l.grammar t)).segments = .line first :: ps := by
    rw [pieces_xmlHead, hpieces,
      xmlDeclaration_eq (fun s => Document.settle_of_mem) hpieces hfirst,
      List.filter_cons_of_neg (by rw [Piece.isXmlDeclaration, hfirst]; exact Bool.false_ne_true),
      List.filter_eq_self.2 fun p hp => by rw [hps p hp]; rfl]
  rw [render_eq_iff (hnew ▸ hread) rfl, hnew, hlines]
  rfl

end Markup

end Layout

/-! ## The action -/

namespace Action

/-- **Putting the XML declaration on top is done at once.** The action does not fail. The
text that it leaves has a declaration on its first line, which is also the first of its
lines of code, and none of the others is a declaration. Looking again, the action finds
nothing and has nothing to rewrite. -/
theorem xmlTop_settles {l : Language} (hl : l = .xml ∨ l = .jelly) (t : Text) :
    ∃ o, xmlTop.apply ⟨some l, l.grammar, t⟩ = .ok o ∧
      ∃ first rest more,
        Text.bareLines (SourceFile.leftBy ⟨some l, l.grammar, t⟩ o).text = first :: rest ∧
        (SourceFile.leftBy ⟨some l, l.grammar, t⟩ o).document.codeLines = first :: more ∧
        Layout.isXmlDeclaration first = true ∧
        (∀ line ∈ more, Layout.isXmlDeclaration line = false) ∧
        xmlTop.apply (SourceFile.leftBy ⟨some l, l.grammar, t⟩ o) = .ok .nothing := by
  have hmarkup : l.grammar = Language.xml.grammar := by
    rcases hl with rfl | rfl <;> rfl
  have hcloser : l.grammar.closer.isSome = true := by rw [hmarkup]; rfl
  have hrun : ∀ text, xmlTop.apply ⟨some l, l.grammar, text⟩
      = .ok (.relaid text (Layout.xmlHead (.ofText l.grammar text)).render) := fun text =>
    if_pos (by rcases hl with rfl | rfl <;> simp)
  obtain ⟨first, ps, hfirst, hps, hpieces, hlines⟩ := Layout.exists_pieces_xmlHead hcloser
    (by rw [hmarkup]; decide) (by rw [hmarkup]; decide) t
  refine ⟨_, hrun t, first, ps.flatMap Layout.Piece.written, ps.filterMap Layout.Piece.line?, ?_⟩
  rw [SourceFile.leftBy_relaid]
  refine ⟨hlines, ?_, hfirst, fun line hline => ?_, ?_⟩
  · rw [Layout.codeLines_eq]
    show (Layout.pieces (Document.ofText l.grammar _).segments).filterMap _ = _
    rw [hpieces]
    rfl
  · obtain ⟨p, hp, hsome⟩ := List.mem_filterMap.1 hline
    cases p with
    | block b => cases hsome
    | line l => rw [← Option.some.inj hsome]; exact hps _ hp
  · show xmlTop.apply ⟨some l, l.grammar, _⟩ = _
    rw [hrun, Layout.xmlHead_render_eq hcloser hfirst hps hpieces hlines, relaid_self]

/-- A declaration below a blank line and a comment is put on top, another one further down is
taken out, and the empty line above that is the end of the file. -/
theorem xmlTop_settles_manyDeclarations :
    ∃ o, xmlTop.apply ⟨some .jelly, Language.jelly.grammar,
        "\n<!--\nx\n-->\n <?xml a?>\n<b/>\n\n<?xml c?>".toList⟩ = .ok o ∧
      o.newText = some " <?xml a?>\n\n<!--\nx\n-->\n<b/>\n".toList ∧
      xmlTop.apply ⟨some .jelly, Language.jelly.grammar,
        " <?xml a?>\n\n<!--\nx\n-->\n<b/>\n".toList⟩ = .ok .nothing := by
  obtain ⟨o, ho, first, rest, more, -, -, -, -, hagain⟩ := xmlTop_settles (l := .jelly) (.inr rfl)
    "\n<!--\nx\n-->\n <?xml a?>\n<b/>\n\n<?xml c?>".toList
  obtain rfl : _ = o := Except.ok.inj ho
  exact ⟨_, ho, by decide, hagain⟩

end Action

end LicenseHeader
