import LicenseHeader.Proofs.JavaSieve
import LicenseHeader.Proofs.Settled
import LicenseHeader.Proofs.Spacing

/-!
# The head of a Java file put in order twice

A file whose head is in order should be left alone, and so the second run of
`Layout.javaHead` should find nothing to do. What the second run reads is not what the first
one wrote down, segment for segment: the code above the license and the code below it are
one run now, an empty line has been put between license and code, and the last newline may
be missing. `Layout.InOrder` says what stands in the file by then.

The second run puts the license and the package line where they are
(`Layout.InOrder.packageLines_eq`), and below them it lets through what the first run let
through (`Layout.Kept.sieved_readBack_iff`). What is left to be said is when the two agree
on the lines in between, and that is `Layout.InOrder.javaHead_eq_self_iff_of_kept`. They do
not in three cases, and `Action.javaTop_twice` names them. The license may be closed by its
own content, so that the empty line below it is put into it the second time. The empty line
may be the last of a file without final newline, in which it leaves no trace. And where the
imports end above the license, the first run leaves alone what is below it, while the second
takes the package declarations out of the run that the two have become.
-/

namespace LicenseHeader.Layout

/-! ## What is kept of a file -/

/-- **Nothing that looks like a package declaration stands right below the license** of a
file whose imports end above it. -/
def ClearBelow (above below : List Segment) : Prop :=
  (∃ p ∈ pieces above, p.endsImports = true) → ∀ l ∈ firstRun below, isPackage l = false

theorem exists_of_not_clearBelow {above below : List Segment} (h : ¬ ClearBelow above below) :
    ∃ l ∈ firstRun below, isPackage l = true := by
  obtain ⟨-, hpackage⟩ := Classical.not_imp.1 h
  simpa using hpackage

/-- The imports end in a run if one of its lines ends them. -/
theorem keep_eq_body_iff {stage : JavaStage} {ls kept : List Text}
    (h : JavaStage.seeking.keep ls = .ok (stage, kept)) :
    stage = .body ↔ ∃ p ∈ ls.map Piece.line, p.endsImports = true := by
  obtain ⟨-, -, -, hbody⟩ := JavaStage.exists_front_of_keep h (by decide)
  rw [hbody, fromEnd, Ne, List.dropWhile_eq_nil_iff]
  simp [Piece.endsImports]

/-- **What is kept of a file below its head**, of which `above` and `below` are the segments
above the license and below it. -/
structure Kept (above below : List Segment) (kept : List Piece) : Prop where
  /-- Nothing is added and nothing changes its place. -/
  sublist : kept.Sublist (pieces (above ++ below))
  /-- Something is kept if there is an item. -/
  eq_nil_iff : kept = [] ↔ items (above ++ below) = []
  /-- The sieve goes over all the pieces. -/
  sieved : ClearBelow above below → Sieved .seeking (pieces (above ++ below)) kept
  /-- Or it has ended with the run above the license, and a package declaration is kept
  above the first block. -/
  package : ¬ ClearBelow above below →
    ∃ (ls : List Text) (ps : List Piece), kept = ls.map .line ++ ps ∧ ∃ l ∈ ls, isPackage l = true

/-- Something is kept of a file if there is an item in it. -/
theorem kept_eq_nil_iff {pending : List Text} {segments more : List Segment} {kept : List Piece}
    (hsettled : ∀ s ∈ segments, s.settle = [s])
    (h : belowHead .seeking pending segments = .ok more)
    (hpieces : pieces more = pending.map .line ++ kept) : kept = [] ↔ items segments = [] := by
  constructor
  · rintro rfl
    have hitems := items_belowHead hsettled h
    rw [items, hpieces, List.append_nil, filter_isItem_map_line] at hitems
    exact List.self_eq_append_right.1 hitems
  · intro hnone
    have hall : ∀ p ∈ pieces segments, p.isItem = false := fun p hp =>
      Bool.eq_false_iff.2 (List.filter_eq_nil_iff.1 hnone p hp)
    have hbelow := belowHead_append hall pending []
    rw [List.append_nil, h] at hbelow
    cases hbelow
    rw [pieces_settle_code] at hpieces
    exact List.self_eq_append_right.1 hpieces

section Cut

variable {g : Grammar} {t : Text} {above below more : List Segment} {license : CommentBlock}
  (hcut : (Document.ofText g t).segments = above ++ .comment license :: below)
include hcut

theorem settle_of_mem_around : ∀ s ∈ above ++ below, s.settle = [s] := by
  intro s hs
  refine Document.settle_of_mem (g := g) (t := t) ?_
  rw [hcut]
  exact (List.Sublist.append_left (List.sublist_cons_self _ below) above).subset hs

theorem codeApart_below : CodeApart below := by
  have hall := codeApart_ofText g t
  rw [hcut] at hall
  exact hall.of_append_left.tail

/-- Above the license there is one code run, or nothing. -/
theorem above_cases (hnone : ∀ s ∈ above, s.comment? = none) :
    above = [] ∨ ∃ r, above = [.code r] := by
  have hapart := codeApart_ofText g t
  rw [hcut] at hapart
  cases above with
  | nil => exact .inl rfl
  | cons s above =>
    cases s with
    | comment b => cases hnone _ List.mem_cons_self
    | code r =>
      cases above with
      | nil => exact .inr ⟨r, rfl⟩
      | cons s' above =>
        cases s' with
        | comment b => cases hnone (.comment b) (by simp)
        | code r' => exact absurd rfl (hapart [] r r' _)

/-- **What the sieve keeps of a text.** -/
theorem exists_kept (hnone : ∀ s ∈ above, s.comment? = none) {pending : List Text}
    (h : belowHead .seeking pending (above ++ below) = .ok more) :
    ∃ kept, pieces more = pending.map .line ++ kept ∧ Kept above below kept := by
  have hapart := codeApart_below hcut
  have hsettled := settle_of_mem_around hcut
  have hbelow : ∀ s ∈ below, s.settle = [s] := fun s hs =>
    hsettled s (List.mem_append_right _ hs)
  have hnil : ∀ kept, pieces more = pending.map .line ++ kept →
      (kept = [] ↔ items (above ++ below) = []) := fun _ => kept_eq_nil_iff hsettled h
  obtain rfl | ⟨r, rfl⟩ := above_cases hcut hnone
  · obtain ⟨kept, hsieved, hpieces⟩ := exists_sieved_of_belowHead hbelow hapart h (by decide)
    refine ⟨kept, hpieces, hsieved.sublist, hnil kept hpieces, fun _ => hsieved, fun hnot => ?_⟩
    exact absurd (fun ⟨p, hp, _⟩ => absurd hp List.not_mem_nil) hnot
  · rw [List.singleton_append] at h
    obtain ⟨stage, lines, hkeep, hcases⟩ := exists_of_belowHead_code h
    have hends : stage = .body ↔ ∃ p ∈ pieces [Segment.code r], p.endsImports = true := by
      rw [keep_eq_body_iff hkeep, show pieces [Segment.code r] = r.lines.map .line from
        List.append_nil _]
    obtain ⟨rfl, rfl⟩ | ⟨hstage, hmore⟩ := hcases
    · -- the imports end above the license, and what is below it is as it was
      have hpieces : pieces ((Segment.code { lines := pending ++ lines }).settle
          ++ below.flatMap Segment.settle)
            = pending.map .line ++ (lines.map .line ++ pieces below) := by
        rw [flatMap_settle hbelow, pieces_append, pieces_settle_code, List.map_append,
          List.append_assoc]
      refine ⟨_, hpieces, ?_, hnil _ hpieces, fun hclear => ?_, fun hnot => ?_⟩
      · have hlines := (Sieved.of_keep hkeep .nil).sublist
        rw [List.append_nil, List.append_nil] at hlines
        exact hlines.append_right _
      · exact .of_keep hkeep (hapart.sieved_body (hclear (hends.1 rfl)))
      · obtain ⟨l, hl, hpackage⟩ := exists_of_not_clearBelow hnot
        obtain ⟨ps, hps⟩ := exists_pieces_eq_firstRun_append below
        refine ⟨lines ++ firstRun below, ps, ?_, l, List.mem_append_right _ hl, hpackage⟩
        rw [hps, List.map_append, List.append_assoc]
    · obtain ⟨kept, hsieved, hpieces⟩ := exists_sieved_of_belowHead hbelow hapart hmore hstage
      have hwhole := Sieved.of_keep hkeep hsieved
      rw [List.map_append, List.append_assoc] at hpieces
      refine ⟨_, hpieces, hwhole.sublist, hnil _ hpieces, fun _ => hwhole, fun hnot => ?_⟩
      exact absurd (fun hclear => absurd (hends.2 hclear) hstage) hnot

end Cut

/-! ## A file in order -/

/-- Whether a block is taken for the license of a file. -/
def isNotice (b : CommentBlock) : Bool :=
  (Verdict.ofComment b).isLicense || (Verdict.ofComment b).isCopyright

/-- The package lines that are put below the license. -/
def packageBelow (licenseOnTop : Bool) (d : Document) : List Text :=
  if licenseOnTop then packageLines d else []

/-- The pieces below the license: an empty line comes first, whether the package lines
follow or not. -/
def piecesBelow (licenseOnTop : Bool) (d : Document) (kept : List Piece) : List Piece :=
  ([] :: packageBelow licenseOnTop d).map .line ++ kept

/-- The lines that wait to be set down with the first code below the license. -/
def pendingBelow (licenseOnTop : Bool) : List Text := if licenseOnTop then [] else [[]]

/-- **A file in order**: the license between the lines put above and below it, and what is
kept of the rest. -/
def ordered (licenseOnTop : Bool) (d : Document) (license : CommentBlock) (more : List Segment) :
    Document :=
  { d with
    segments := (Segment.code { lines := linesAbove licenseOnTop d }).settle
      ++ .comment license :: ((Segment.code { lines := linesBelow licenseOnTop d }).settle ++ more) }

/-- **What is made of a file whose license is known.** -/
theorem javaHead_eq {g : Grammar} {t : Text} {above below : List Segment} {license : CommentBlock}
    (hcut : (Document.ofText g t).segments = above ++ .comment license :: below)
    (hnone : ∀ s ∈ above, s.comment? = none) (licenseOnTop : Bool) :
    javaHead licenseOnTop (.ofText g t)
      = if isNotice license then
          (belowHead .seeking (pendingBelow licenseOnTop) (above ++ below)).map
            (ordered licenseOnTop (.ofText g t) license)
        else .error .notLicenseBlock := by
  have hlicense : (Segment.comment license).settle = [.comment license] :=
    Document.settle_of_mem (g := g) (t := t) (by rw [hcut]; simp)
  unfold javaHead
  rw [aroundComment?_eq_some_iff.2 ⟨hcut, hnone⟩]
  dsimp only
  rw [hlicense, isNotice, ← Bool.not_or]
  cases (Verdict.ofComment license).isLicense || (Verdict.ofComment license).isCopyright with
  | false => rfl
  | true =>
    show (belowHead .seeking (pendingBelow licenseOnTop) (above ++ below) >>= _) = _
    rw [if_pos rfl]
    cases belowHead .seeking (pendingBelow licenseOnTop) (above ++ below) with
    | error e => rfl
    | ok more =>
      cases licenseOnTop with
      | true => rfl
      | false =>
        show Except.ok _ = Except.ok _
        rw [if_neg Bool.false_ne_true, List.append_assoc]
        rfl

section InOrder

variable {licenseOnTop : Bool} {d : Document} {license : CommentBlock} {more : List Segment}
  {kept : List Piece}

/-- **The pieces of a file in order.** -/
theorem pieces_ordered (hmore : pieces more = (pendingBelow licenseOnTop).map .line ++ kept) :
    pieces (ordered licenseOnTop d license more).segments
      = (linesAbove licenseOnTop d).map .line
        ++ .block license :: piecesBelow licenseOnTop d kept := by
  rw [ordered, pieces_append, pieces_settle_code, pieces_cons, pieces_append, pieces_settle_code,
    hmore]
  cases licenseOnTop <;> rfl

theorem mem_codeLines_iff {l : Text} : l ∈ d.codeLines ↔ Piece.line l ∈ pieces d.segments := by
  rw [codeLines_eq, List.mem_filterMap]
  constructor
  · rintro ⟨p, hp, hl⟩
    cases p with
    | block b => cases hl
    | line l' => rwa [← Option.some.inj hl]
  · exact fun hl => ⟨_, hl, rfl⟩

/-- The package lines are a line of code and an empty line. -/
theorem mem_packageLines {l : Text} (hl : l ∈ packageLines d) : l ∈ d.codeLines ∨ l = [] := by
  unfold packageLines at hl
  split at hl
  · rename_i line hfind
    rcases List.mem_cons.1 hl with rfl | hl
    · exact .inl (List.mem_of_find?_eq_some hfind)
    · exact .inr (List.mem_singleton.1 hl)
  · cases hl

/-- The pieces put around the license fit in a Java file, as those of the file do. -/
theorem fits_ordered (licenseOnTop : Bool) {t : Text}
    (hlicense : .block license ∈ pieces (Document.ofText Language.java.grammar t).segments)
    (hkept : ∀ p ∈ kept, p ∈ pieces (Document.ofText Language.java.grammar t).segments) :
    ∀ p ∈ (linesAbove licenseOnTop (.ofText Language.java.grammar t)).map Piece.line
        ++ .block license :: piecesBelow licenseOnTop (.ofText Language.java.grammar t) kept,
      p.Fits Language.java.grammar := by
  have hread := fun p => fits_of_mem_pieces (l := .java) rfl (t := t) (p := p)
  have hpackage : ∀ l ∈ packageLines (.ofText Language.java.grammar t),
      (Piece.line l).Fits Language.java.grammar := by
    intro l hl
    obtain hl | rfl := mem_packageLines hl
    · exact hread _ (mem_codeLines_iff.1 hl)
    · exact ⟨by decide, by decide⟩
  have habove : ∀ l ∈ linesAbove licenseOnTop (.ofText Language.java.grammar t),
      (Piece.line l).Fits Language.java.grammar := by
    cases licenseOnTop with
    | true => exact fun l hl => absurd hl List.not_mem_nil
    | false => exact hpackage
  have hbelow : ∀ l ∈ [] :: packageBelow licenseOnTop (.ofText Language.java.grammar t),
      (Piece.line l).Fits Language.java.grammar := by
    refine List.forall_mem_cons.2 ⟨⟨by decide, by decide⟩, ?_⟩
    cases licenseOnTop with
    | true => exact hpackage
    | false => exact fun l hl => absurd hl List.not_mem_nil
  refine List.forall_mem_append.2 ⟨List.forall_mem_map.2 habove, ?_⟩
  refine List.forall_mem_cons.2 ⟨hread _ hlicense, ?_⟩
  exact List.forall_mem_append.2
    ⟨List.forall_mem_map.2 hbelow, fun p hp => hread p (hkept p hp)⟩

end InOrder

/-! ## What is read from a file in order -/

/-- **Pieces with a block in them are segments with the block in them.** -/
theorem exists_cut_of_pieces {segments : List Segment} {ls : List Text} {b : CommentBlock}
    {ps : List Piece} (h : pieces segments = ls.map .line ++ .block b :: ps) :
    ∃ above below, segments = above ++ .comment b :: below ∧ (∀ s ∈ above, s.comment? = none) ∧
      pieces above = ls.map .line ∧ pieces below = ps := by
  induction segments generalizing ls with
  | nil => exact absurd h (by simp [pieces])
  | cons s rest ih =>
    rw [pieces_cons] at h
    cases s with
    | comment b' =>
      cases ls with
      | nil =>
        obtain ⟨hb, hps⟩ := List.cons.inj h
        obtain rfl := Piece.block.inj hb
        exact ⟨[], rest, rfl, by simp, rfl, hps⟩
      | cons l ls => cases (List.cons.inj h).1
    | code r =>
      change r.lines.map Piece.line ++ pieces rest = _ at h
      -- the run ends above the block
      have hrest : ∃ ls', pieces rest = ls'.map .line ++ .block b :: ps ∧
          (r.lines ++ ls').map Piece.line = ls.map .line := by
        rcases List.append_eq_append_iff.1 h with ⟨between, hls, hrest⟩ | ⟨between, hrun, hrest⟩
        · obtain ⟨front, ls', rfl, hfront, rfl⟩ := List.map_eq_append_iff.1 hls
          exact ⟨ls', hrest, by rw [List.map_append, List.map_append, hfront]⟩
        · cases between with
          | nil => exact ⟨[], hrest.symm, by rw [List.append_nil, hrun, List.append_nil]⟩
          | cons p between =>
            obtain ⟨hp, -⟩ := List.cons.inj hrest
            have hmem : Piece.block b ∈ r.lines.map Piece.line := by
              rw [hrun, ← hp]
              exact List.mem_append_right _ List.mem_cons_self
            obtain ⟨l, -, hl⟩ := List.mem_map.1 hmem
            cases hl
      obtain ⟨ls', hls', hlines⟩ := hrest
      obtain ⟨above, below, rfl, hnone, habove, hbelow⟩ := ih hls'
      refine ⟨.code r :: above, below, rfl, List.forall_mem_cons.2 ⟨rfl, hnone⟩, ?_, hbelow⟩
      rw [pieces_cons, habove, ← hlines, List.map_append]
      rfl

section Reading

variable {licenseOnTop : Bool} {t new : Text} {license : CommentBlock} {more : List Segment}
  {kept : List Piece}

/-- The pieces below the license that leave a trace. -/
def tracedBelow (licenseOnTop : Bool) (t : Text) (kept : List Piece) : List Piece :=
  traced (piecesBelow licenseOnTop (.ofText Language.java.grammar t) kept) (Text.lacksNewline t)

/-- **`InOrder licenseOnTop t license kept new`**: `new` is the file `t` put in order, `license`
its license and `kept` what is kept of the rest. -/
structure InOrder (licenseOnTop : Bool) (t : Text) (license : CommentBlock) (kept : List Piece)
    (new : Text) : Prop where
  /-- The license is from the file. -/
  license_mem : .block license ∈ pieces (Document.ofText Language.java.grammar t).segments
  /-- What is kept is from the file. -/
  kept_mem : ∀ p ∈ kept, p ∈ pieces (Document.ofText Language.java.grammar t).segments
  /-- The lines of the new text. -/
  bareLines_eq : Text.bareLines new
    = linesAbove licenseOnTop (.ofText Language.java.grammar t)
      ++ (license.written ++ (tracedBelow licenseOnTop t kept).flatMap Piece.written)
  /-- What is read from it. -/
  pieces_eq : pieces (Document.ofText Language.java.grammar new).segments
    = (linesAbove licenseOnTop (.ofText Language.java.grammar t)).map .line
      ++ .block license.readBack :: (license.leftOver.map .line
        ++ (tracedBelow licenseOnTop t kept).flatMap Piece.readBack)

/-- **A file that was put in order stands in order.** -/
theorem inOrder_render
    (hlicense : .block license ∈ pieces (Document.ofText Language.java.grammar t).segments)
    (hkept : ∀ p ∈ kept, p ∈ pieces (Document.ofText Language.java.grammar t).segments)
    (hmore : pieces more = (pendingBelow licenseOnTop).map .line ++ kept) :
    InOrder licenseOnTop t license kept
      (ordered licenseOnTop (.ofText Language.java.grammar t) license more).render := by
  have hfits := fits_ordered licenseOnTop hlicense hkept
  rw [← pieces_ordered hmore] at hfits
  have htraced : traced
      (pieces (ordered licenseOnTop (.ofText Language.java.grammar t) license more).segments)
      (ordered licenseOnTop (.ofText Language.java.grammar t) license more).missingFinalNewline
        = (linesAbove licenseOnTop (.ofText Language.java.grammar t)).map .line
          ++ .block license :: tracedBelow licenseOnTop t kept := by
    rw [pieces_ordered hmore, traced_append fun _ => List.cons_ne_nil _ _, traced_cons (by simp)]
    rfl
  refine ⟨hlicense, hkept, ?_, ?_⟩
  · rw [bareLines_render hfits, htraced, List.flatMap_append, Piece.flatMap_written_map_line,
      List.flatMap_cons]
    rfl
  · rw [pieces_render hfits, htraced, List.flatMap_append, Piece.flatMap_readBack_map_line,
      List.flatMap_cons]
    rfl

/-- **What the first run leaves**: a file in order, of which the sieve has kept what stands
around the license. -/
theorem exists_inOrder_of_javaHead {d : Document}
    (h : javaHead licenseOnTop (.ofText Language.java.grammar t) = .ok d) :
    ∃ above license below kept,
      (Document.ofText Language.java.grammar t).segments = above ++ .comment license :: below ∧
      (∀ s ∈ above, s.comment? = none) ∧ isNotice license = true ∧ Kept above below kept ∧
      InOrder licenseOnTop t license kept d.render := by
  obtain ⟨above, license, below, -, hcut, hnone, -⟩ := exists_of_javaHead h
  rw [javaHead_eq hcut hnone] at h
  split at h
  · rename_i hnotice
    cases hmore : belowHead .seeking (pendingBelow licenseOnTop) (above ++ below) with
    | error e => rw [hmore] at h; cases h
    | ok more =>
      rw [hmore] at h
      obtain rfl := Except.ok.inj h
      obtain ⟨kept, hpieces, hkept⟩ := exists_kept hcut hnone hmore
      have hall : pieces (Document.ofText Language.java.grammar t).segments
          = pieces above ++ .block license :: pieces below := by
        rw [hcut, pieces_append, pieces_cons]
        rfl
      have hlicense : .block license
          ∈ pieces (Document.ofText Language.java.grammar t).segments := by
        rw [hall]
        simp
      have hmem : ∀ p ∈ kept, p ∈ pieces (Document.ofText Language.java.grammar t).segments := by
        intro p hp
        have haround := hkept.sublist.subset hp
        rw [pieces_append] at haround
        rw [hall]
        exact (List.Sublist.append_left (List.sublist_cons_self _ _) _).subset haround
      exact ⟨above, license, below, kept, hcut, hnone, hnotice, hkept,
        inOrder_render hlicense hmem hpieces⟩
  · cases h

namespace InOrder

variable (h : InOrder licenseOnTop t license kept new)
include h

theorem enclosed : license.Enclosed := (fits_of_mem_pieces (l := .java) rfl h.license_mem).1

/-- No line left over of the license is a package declaration. -/
theorem isPackage_of_mem_leftOver {l : Text} (hl : l ∈ license.leftOver) : isPackage l = false :=
  isPackage_of_endsImports (endsImports_of_mem_leftOver h.enclosed hl)

/-- A file without package declaration has none when it is in order. -/
theorem isPackage_of_mem_codeLines
    (hnone : ∀ l ∈ (Document.ofText Language.java.grammar t).codeLines, isPackage l = false) :
    ∀ l ∈ (Document.ofText Language.java.grammar new).codeLines, isPackage l = false := by
  have hpackage : packageLines (.ofText Language.java.grammar t) = [] := by
    unfold packageLines
    rw [List.find?_eq_none.2 fun l hl => Bool.eq_false_iff.1 (hnone l hl)]
  have hbelow : ∀ p ∈ tracedBelow licenseOnTop t kept,
      p = .line [] ∨ p ∈ pieces (Document.ofText Language.java.grammar t).segments := by
    intro p hp
    have hmem := mem_of_mem_traced hp
    rw [piecesBelow, packageBelow, hpackage, ite_self] at hmem
    exact (List.mem_cons.1 hmem).imp_right (h.kept_mem p)
  intro l hl
  rw [mem_codeLines_iff, h.pieces_eq, linesAbove, hpackage, ite_self] at hl
  rcases List.mem_append.1 (List.mem_of_ne_of_mem (by simp) hl) with hl | hl
  · exact h.isPackage_of_mem_leftOver (by simpa using hl)
  · obtain hl | ⟨b, hb, hl⟩ := Piece.mem_flatMap_readBack hl
    · obtain heq | hmem := hbelow _ hl
      · rw [Piece.line.inj heq]
        rfl
      · exact hnone l (mem_codeLines_iff.2 hmem)
    · obtain heq | hmem := hbelow _ hb
      · cases heq
      · exact isPackage_of_endsImports
          (endsImports_of_mem_leftOver (fits_of_mem_pieces (l := .java) rfl hmem).1 hl)

/-- The package declaration put at the head is the first there is. -/
theorem find?_isPackage {line : Text}
    (hpackage : packageLines (.ofText Language.java.grammar t) = [line, []])
    (hline : isPackage line = true) :
    (Document.ofText Language.java.grammar new).codeLines.find? isPackage = some line := by
  have hlines : (Document.ofText Language.java.grammar new).codeLines
      = linesAbove licenseOnTop (.ofText Language.java.grammar t) ++ (license.leftOver
        ++ ((tracedBelow licenseOnTop t kept).flatMap Piece.readBack).filterMap Piece.line?) := by
    rw [codeLines_eq, h.pieces_eq, List.filterMap_append, Piece.filterMap_line?_map_line,
      List.filterMap_cons_none rfl, List.filterMap_append, Piece.filterMap_line?_map_line]
  rw [hlines, linesAbove, hpackage]
  cases licenseOnTop with
  | false => exact List.find?_cons_of_pos hline
  | true =>
    have hbelow : tracedBelow true t kept
        = .line [] :: .line line :: traced (.line [] :: kept) (Text.lacksNewline t) := by
      have hne : Piece.line line ≠ .line [] := by
        intro heq
        rw [Piece.line.inj heq] at hline
        cases hline
      rw [tracedBelow, piecesBelow, packageBelow, if_pos rfl, hpackage]
      show traced ([.line []] ++ .line line :: .line [] :: kept) _ = _
      rw [traced_append fun _ => List.cons_ne_nil _ _, traced_cons hne]
      rfl
    rw [if_pos rfl, List.nil_append, hbelow, List.find?_append,
      List.find?_eq_none.2 fun l hl => Bool.eq_false_iff.1 (h.isPackage_of_mem_leftOver hl)]
    exact List.find?_cons_of_pos hline

/-- **The package lines are found again.** -/
theorem packageLines_eq :
    packageLines (.ofText Language.java.grammar new)
      = packageLines (.ofText Language.java.grammar t) := by
  have hfind : (Document.ofText Language.java.grammar new).codeLines.find? isPackage
      = (Document.ofText Language.java.grammar t).codeLines.find? isPackage := by
    cases hp : (Document.ofText Language.java.grammar t).codeLines.find? isPackage with
    | none =>
      have hnone := h.isPackage_of_mem_codeLines fun l hl =>
        Bool.eq_false_iff.2 (List.find?_eq_none.1 hp l hl)
      exact List.find?_eq_none.2 fun l hl => Bool.eq_false_iff.1 (hnone l hl)
    | some line =>
      refine h.find?_isPackage ?_ (List.find?_some hp)
      unfold packageLines
      rw [hp]
  unfold packageLines
  rw [hfind]

/-- **What is written the second time differs from the file only below the license.** -/
theorem render_ordered_eq_iff {again : List Piece}
    (hmore : pieces more = (pendingBelow licenseOnTop).map .line ++ again)
    (hagain : ∀ p ∈ again, p ∈ pieces (Document.ofText Language.java.grammar new).segments) :
    (ordered licenseOnTop (.ofText Language.java.grammar new) license.readBack more).render = new ↔
      ([] :: packageBelow licenseOnTop (.ofText Language.java.grammar t))
          ++ again.flatMap Piece.written
        = license.leftOver ++ (tracedBelow licenseOnTop t kept).flatMap Piece.written := by
  have hlicense : .block license.readBack
      ∈ pieces (Document.ofText Language.java.grammar new).segments := by
    rw [h.pieces_eq]
    simp
  have hfits := fits_ordered licenseOnTop hlicense hagain
  rw [← pieces_ordered hmore] at hfits
  have habove : linesAbove licenseOnTop (.ofText Language.java.grammar new)
      = linesAbove licenseOnTop (.ofText Language.java.grammar t) := by
    unfold linesAbove
    rw [h.packageLines_eq]
  have hbelow : packageBelow licenseOnTop (.ofText Language.java.grammar new)
      = packageBelow licenseOnTop (.ofText Language.java.grammar t) := by
    unfold packageBelow
    rw [h.packageLines_eq]
  rw [render_eq_iff hfits rfl, pieces_ordered hmore, h.bareLines_eq,
    ← h.enclosed.written_readBack_append, List.flatMap_append, Piece.flatMap_written_map_line,
    List.flatMap_cons, piecesBelow, List.flatMap_append, Piece.flatMap_written_map_line, habove,
    hbelow, List.append_assoc license.readBack.written]
  show _ ++ (license.readBack.written ++ _) = _ ↔ _
  rw [List.append_right_inj, List.append_right_inj]

/-- **When a file in order is left as it is.** Its license must be taken for one, and the
sieve must leave the lines that are there. -/
theorem javaHead_eq_self_iff :
    (∃ d, javaHead licenseOnTop (.ofText Language.java.grammar new) = .ok d ∧ d.render = new) ↔
      isNotice license.readBack = true ∧ ∃ again,
        Sieved .seeking (license.leftOver.map .line
          ++ (tracedBelow licenseOnTop t kept).flatMap Piece.readBack) again ∧
        ([] :: packageBelow licenseOnTop (.ofText Language.java.grammar t))
            ++ again.flatMap Piece.written
          = license.leftOver ++ (tracedBelow licenseOnTop t kept).flatMap Piece.written := by
  obtain ⟨above, below, hcut, hnone, habove, hbelow⟩ := exists_cut_of_pieces h.pieces_eq
  have hquiet : ∀ p ∈ pieces above, p.isItem = false := by
    rw [habove]
    exact List.forall_mem_map.2 (isKeptLine_around licenseOnTop _).1
  have hrun := javaHead_eq hcut hnone licenseOnTop
  rw [belowHead_append hquiet] at hrun
  have hsettled : ∀ s ∈ below, s.settle = [s] := fun s hs =>
    settle_of_mem_around hcut s (List.mem_append_right _ hs)
  have hapart := codeApart_below hcut
  have hmem : ∀ {again : List Piece}, again.Sublist (pieces below) →
      ∀ p ∈ again, p ∈ pieces (Document.ofText Language.java.grammar new).segments := by
    intro again hagain p hp
    rw [hcut, pieces_append, pieces_cons]
    exact List.mem_append_right _ (List.mem_append_right _ (hagain.subset hp))
  rw [← hbelow]
  constructor
  · rintro ⟨d, hd, hnew⟩
    rw [hrun] at hd
    split at hd
    · rename_i hnotice
      cases hmore : belowHead .seeking (pendingBelow licenseOnTop) below with
      | error e => rw [hmore] at hd; cases hd
      | ok more =>
        rw [hmore] at hd
        obtain rfl := Except.ok.inj hd
        obtain ⟨again, hsieved, hpieces⟩ :=
          exists_sieved_of_belowHead hsettled hapart hmore (by decide)
        exact ⟨hnotice, again, hsieved,
          (h.render_ordered_eq_iff hpieces (hmem hsieved.sublist)).1 hnew⟩
    · cases hd
  · rintro ⟨hnotice, again, hsieved, hlines⟩
    obtain ⟨more, hmore, hpieces⟩ := exists_belowHead_of_sieved hsettled hapart hsieved (by decide)
      (pendingBelow licenseOnTop)
    refine ⟨_, ?_, (h.render_ordered_eq_iff hpieces (hmem hsieved.sublist)).2 hlines⟩
    rw [hrun, if_pos hnotice, hmore]
    rfl

end InOrder

end Reading

/-! ## Which files are left alone the second time -/

/-- A block that is read back whole is taken for a license as it was: the gaps that writing
makes are between words. -/
theorem isNotice_readBack {b : CommentBlock} (hb : b.Enclosed) {token : Text}
    (hleader : b.grammar.leader = some token) (hwhole : b.leftOver = []) :
    isNotice b.readBack = isNotice b := by
  have hlines : b.readBack.lines = b.lines.map fun content =>
      Text.spaces (CommentBlock.leaderGap content b.grammar.indent.afterLeader) ++ content := by
    rw [hb.lines_readBack hwhole]
    exact List.map_congr_left fun content hcontent =>
      hb.tidy.contentOn_writeContent hleader hb.margin (hb.bare content hcontent)
  have hloose := Loosened.intercalate
    (fun content => CommentBlock.leaderGap content b.grammar.indent.afterLeader) b.lines
  rw [← hlines] at hloose
  unfold isNotice Verdict.ofComment CommentBlock.prose
  rw [Verdict.isLicense_ofText, Verdict.isLicense_ofText, Verdict.isCopyright_ofText,
    Verdict.isCopyright_ofText, hloose.speaksOfLicense_eq, hloose.claimsCopyright_eq]

/-- **What is kept passes the sieve again**, if no package declaration is kept above the
first block. -/
theorem Kept.sieved_readBack_iff {g : Grammar} {above below : List Segment} {kept : List Piece}
    (h : Kept above below kept) (hfits : ∀ p ∈ kept, p.Fits g) (lacks : Bool) :
    Sieved .seeking ((traced kept lacks).flatMap Piece.readBack)
        ((traced kept lacks).flatMap Piece.readBack) ↔ ClearBelow above below := by
  obtain ⟨tail, hkept, htail⟩ := exists_eq_traced_append kept lacks
  constructor
  · intro hsieved
    by_contra hnot
    obtain ⟨ls, ps, hcut, l, hl, hpackage⟩ := h.package hnot
    -- the declaration stands among the first lines of what leaves a trace
    have hfront : ∃ (front : List Text) (qs : List Piece),
        traced kept lacks = front.map .line ++ qs ∧ l ∈ front := by
      rw [hkept] at hcut
      rcases List.append_eq_append_iff.1 hcut with ⟨between, hls, hbehind⟩ | ⟨between, htraced, -⟩
      · obtain ⟨front, behind, rfl, hfront, rfl⟩ := List.map_eq_append_iff.1 hls
        refine ⟨front, [], by rw [hfront, List.append_nil], ?_⟩
        refine (List.mem_append.1 hl).resolve_right fun hlast => ?_
        have hempty := htail (.line l) (by
          rw [hbehind]
          exact List.mem_append_left _ (List.mem_map_of_mem hlast))
        rw [Piece.line.inj hempty] at hpackage
        cases hpackage
      · exact ⟨ls, between, htraced, hl⟩
    obtain ⟨front, qs, htraced, hmem⟩ := hfront
    rw [htraced, List.flatMap_append, Piece.flatMap_readBack_map_line] at hsieved
    rw [hsieved.isPackage_of_self l hmem] at hpackage
    cases hpackage
  · intro hclear
    have hall := (h.sieved hclear).readBack hfits
    rw [hkept, List.flatMap_append] at hall
    exact hall.of_append

section Again

variable {licenseOnTop : Bool} {t new : Text} {license : CommentBlock} {kept : List Piece}

theorem isKeptLine_packageBelow (licenseOnTop : Bool) (d : Document) :
    ∀ l ∈ [] :: packageBelow licenseOnTop d, isKeptLine l = false := by
  cases licenseOnTop with
  | true => exact (isKeptLine_around true d).2
  | false => exact List.forall_mem_singleton.2 rfl

theorem getLast?_packageBelow (licenseOnTop : Bool) (d : Document) :
    ([] :: packageBelow licenseOnTop d).getLast? = some [] := by
  cases licenseOnTop with
  | true =>
    show ([] :: packageLines d).getLast? = some []
    unfold packageLines
    split <;> rfl
  | false => rfl

/-- **A file without final newline of which nothing is kept loses the last line put below
the license.** -/
theorem length_tracedBelow (hlacks : Text.lacksNewline t = true) :
    ((tracedBelow licenseOnTop t []).flatMap Piece.written).length
      = (packageBelow licenseOnTop (.ofText Language.java.grammar t)).length := by
  have hlast : (piecesBelow licenseOnTop (.ofText Language.java.grammar t) []).getLast?
      = some (.line []) := by
    rw [piecesBelow, List.append_nil, List.getLast?_map, getLast?_packageBelow]
    rfl
  rw [tracedBelow, traced, if_pos ⟨hlacks, hlast⟩, piecesBelow, List.append_nil,
    ← List.map_dropLast, Piece.flatMap_written_map_line, List.length_dropLast, List.length_cons,
    Nat.add_sub_cancel]

/-- **When a file in order is left as it is**, in terms of the file it was made from. -/
theorem InOrder.javaHead_eq_self_iff_of_kept (h : InOrder licenseOnTop t license kept new)
    {above below : List Segment} (hkept : Kept above below kept)
    (hnotice : isNotice license = true) {token : Text}
    (hleader : license.grammar.leader = some token) :
    (∃ d, javaHead licenseOnTop (.ofText Language.java.grammar new) = .ok d ∧ d.render = new) ↔
      license.leftOver = [] ∧ (Text.lacksNewline t = true → kept ≠ []) ∧
        ClearBelow above below := by
  have hfits : ∀ p ∈ kept, p.Fits Language.java.grammar := fun p hp =>
    fits_of_mem_pieces (l := .java) rfl (h.kept_mem p hp)
  have hquiet := isKeptLine_packageBelow licenseOnTop (.ofText Language.java.grammar t)
  have hsplit : (Text.lacksNewline t = true → kept ≠ []) → tracedBelow licenseOnTop t kept
      = ([] :: packageBelow licenseOnTop (.ofText Language.java.grammar t)).map .line
        ++ traced kept (Text.lacksNewline t) := traced_append
  rw [h.javaHead_eq_self_iff, ← hkept.sieved_readBack_iff hfits (Text.lacksNewline t)]
  constructor
  · rintro ⟨-, again, hsieved, hlines⟩
    have hwhole : license.leftOver = [] := by
      cases hleft : license.leftOver with
      | nil => rfl
      | cons w ws =>
        -- a line that is left over has a star, but the first line below is empty
        obtain ⟨rest, hw⟩ := h.enclosed.exists_star_of_mem_leftOver (w := w) (by simp [hleft])
        rw [hleft] at hlines
        have hempty := (List.cons.inj hlines).1
        rw [hw] at hempty
        simp at hempty
    rw [hwhole, List.map_nil, List.nil_append] at hsieved
    rw [hwhole, List.nil_append] at hlines
    have hsome : Text.lacksNewline t = true → kept ≠ [] := by
      rintro hlacks rfl
      have hlength := congrArg List.length hlines
      rw [length_tracedBelow hlacks, List.length_append, List.length_cons] at hlength
      omega
    refine ⟨hwhole, hsome, ?_⟩
    rw [hsplit hsome, List.flatMap_append, Piece.flatMap_readBack_map_line,
      Sieved.seeking_append_iff hquiet] at hsieved
    rw [hsplit hsome, List.flatMap_append, Piece.flatMap_written_map_line, List.append_right_inj,
      ← Piece.flatMap_written_readBack fun p hp => hfits p (mem_of_mem_traced hp)] at hlines
    have hread : ∀ q ∈ (traced kept (Text.lacksNewline t)).flatMap Piece.readBack,
        q.Fits Language.java.grammar := fun q hq => by
      refine fits_of_mem_pieces (l := .java) rfl (t := new) ?_
      rw [h.pieces_eq, hsplit hsome, List.flatMap_append]
      simp [hq]
    rwa [Piece.eq_of_flatMap_written_eq hsieved.sublist hread hlines] at hsieved
  · rintro ⟨hwhole, hsome, hsieved⟩
    refine ⟨(isNotice_readBack h.enclosed hleader hwhole).trans hnotice,
      (traced kept (Text.lacksNewline t)).flatMap Piece.readBack, ?_, ?_⟩
    · rw [hwhole, hsplit hsome, List.flatMap_append, Piece.flatMap_readBack_map_line]
      exact (Sieved.seeking_append_iff hquiet).2 hsieved
    · rw [hwhole, hsplit hsome, List.flatMap_append, Piece.flatMap_written_map_line,
        Piece.flatMap_written_readBack fun p hp => hfits p (mem_of_mem_traced hp)]
      rfl

end Again

end LicenseHeader.Layout

/-! ## The action -/

namespace LicenseHeader.Action

theorem apply_javaTop (licenseOnTop : Bool) (t : Text) :
    (javaTop licenseOnTop).apply ⟨some .java, Language.java.grammar, t⟩
      = (Layout.javaHead licenseOnTop (.ofText Language.java.grammar t)).map
        fun d => .relaid t d.render := by
  rw [apply]
  exact if_pos rfl

/-- The action leaves a Java file as it is if its head is in order. -/
theorem javaTop_eq_nothing_iff {licenseOnTop : Bool} {t : Text} :
    (javaTop licenseOnTop).apply ⟨some .java, Language.java.grammar, t⟩ = .ok .nothing ↔
      ∃ d, Layout.javaHead licenseOnTop (.ofText Language.java.grammar t) = .ok d ∧
        d.render = t := by
  rw [apply_javaTop]
  cases Layout.javaHead licenseOnTop (.ofText Language.java.grammar t) with
  | error e => exact iff_of_false (fun h => by cases h) (fun ⟨d, h, _⟩ => by cases h)
  | ok d =>
    show Except.ok (Outcome.relaid t d.render) = .ok .nothing ↔ _
    rw [Except.ok.injEq, Outcome.relaid_eq_nothing_iff]
    constructor
    · exact fun h => ⟨d, rfl, h⟩
    · rintro ⟨d', hd, h⟩
      rwa [Except.ok.inj hd]

/-- A text that the action rewrites is put in order. -/
theorem exists_javaHead_of_apply {licenseOnTop : Bool} {t new : Text} {findings : List Finding}
    (h : (javaTop licenseOnTop).apply ⟨some .java, Language.java.grammar, t⟩
      = .ok ⟨findings, some new⟩) :
    ∃ d, Layout.javaHead licenseOnTop (.ofText Language.java.grammar t) = .ok d ∧
      d.render = new := by
  rw [apply_javaTop] at h
  cases hd : Layout.javaHead licenseOnTop (.ofText Language.java.grammar t) with
  | error e => rw [hd] at h; cases h
  | ok d =>
    rw [hd] at h
    have hnew : Outcome.relaid t d.render = ⟨findings, some new⟩ := Except.ok.inj h
    unfold Outcome.relaid at hnew
    split at hnew
    · cases hnew
    · exact ⟨d, rfl, Option.some.inj (Outcome.mk.inj hnew).2⟩

/-- **When putting the head of a Java file in order is done at once.** Three things in the
file undo it, and nothing else does: a line of the license that holds a slash alone; the end
of a file without final newline where nothing follows the license and the package line; and
a line right below the license that looks like a package declaration, where the imports end
above the license. -/
theorem javaTop_twice {licenseOnTop : Bool} {t new : Text} {findings : List Finding}
    (h : (javaTop licenseOnTop).apply ⟨some .java, Language.java.grammar, t⟩
      = .ok ⟨findings, some new⟩) :
    ∃ above license below,
      (Document.ofText Language.java.grammar t).segments = above ++ .comment license :: below ∧
      (∀ s ∈ above, s.comment? = none) ∧
      ((javaTop licenseOnTop).apply ⟨some .java, Language.java.grammar, new⟩ = .ok .nothing ↔
        ['/'] ∉ license.lines ∧
        (Text.lacksNewline t = true → Layout.items (above ++ below) ≠ []) ∧
        Layout.ClearBelow above below) := by
  obtain ⟨d, hd, rfl⟩ := exists_javaHead_of_apply h
  obtain ⟨above, license, below, kept, hcut, hnone, hnotice, hkept, horder⟩ :=
    Layout.exists_inOrder_of_javaHead hd
  have hgrammar : license.grammar = Language.starred :=
    (Layout.fits_of_mem_pieces (l := .java) rfl horder.license_mem).2
  have hleader : license.grammar.leader = some ['*'] := by
    rw [hgrammar]
    rfl
  refine ⟨above, license, below, hcut, hnone, ?_⟩
  rw [javaTop_eq_nothing_iff, horder.javaHead_eq_self_iff_of_kept hkept hnotice hleader,
    horder.enclosed.leftOver_eq_nil_iff, imp_iff_right hgrammar, Ne, hkept.eq_nil_iff]

/-- The first of these two files is left alone the second time. The other ends with its
license and has no final newline, and gets its empty line below the license only then. -/
theorem javaTop_twice_withAndWithoutNewline :
    (∃ new, (javaTop false).apply ⟨some .java, Language.java.grammar,
        "/*\n * Copyright\n */\npackage p;\nclass A \x7b\x7d\n".toList⟩
          = .ok ⟨[.reformatted], some new⟩ ∧
      (javaTop false).apply ⟨some .java, Language.java.grammar, new⟩ = .ok .nothing) ∧
    ∃ new, (javaTop false).apply ⟨some .java, Language.java.grammar,
        "/*\n * Copyright\n */".toList⟩ = .ok ⟨[.reformatted], some new⟩ ∧
      (javaTop false).apply ⟨some .java, Language.java.grammar, new⟩ ≠ .ok .nothing := by
  constructor
  · obtain ⟨new, hnew⟩ : ∃ new, (javaTop false).apply ⟨some .java, Language.java.grammar,
        "/*\n * Copyright\n */\npackage p;\nclass A \x7b\x7d\n".toList⟩
          = .ok ⟨[.reformatted], some new⟩ := ⟨_, rfl⟩
    obtain ⟨above, license, below, hcut, hnone, hiff⟩ := javaTop_twice hnew
    refine ⟨new, hnew, hiff.2 ?_⟩
    cases Layout.aroundComment?_eq_some_iff.2 ⟨hcut, hnone⟩
    exact ⟨by decide, by decide, fun ⟨p, hp, _⟩ => absurd hp List.not_mem_nil⟩
  · obtain ⟨new, hnew⟩ : ∃ new, (javaTop false).apply ⟨some .java, Language.java.grammar,
        "/*\n * Copyright\n */".toList⟩ = .ok ⟨[.reformatted], some new⟩ := ⟨_, rfl⟩
    obtain ⟨above, license, below, hcut, hnone, hiff⟩ := javaTop_twice hnew
    refine ⟨new, hnew, fun hagain => ?_⟩
    obtain ⟨-, hitems, -⟩ := hiff.1 hagain
    cases Layout.aroundComment?_eq_some_iff.2 ⟨hcut, hnone⟩
    exact hitems rfl rfl

end LicenseHeader.Action
