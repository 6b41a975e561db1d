import LicenseHeader.Proofs.Rearranged

/-!
# The sieve below the head of a Java file

Below the head, `Layout.belowHead` lets the lines of a file through a sieve, code run by
code run, and gathers what is let through in new runs. Which runs there are is lost when the
file is written and read again, so the sieve is described here over pieces
(`Layout.Sieved`), where a step is what `Layout.JavaStage.Sift` says of a line. Where code
runs are apart, as they are in every text, the two descriptions agree
(`Layout.exists_sieved_of_belowHead`, `Layout.exists_belowHead_of_sieved`).

The sieve lets through what it has let through before (`Layout.Sieved.readBack`). This is
so even where a block is read back in part. The lines that are left over of it are code
then, and end the imports earlier than before; but nothing that is let through above the
end of the imports is taken out below it.
-/

namespace LicenseHeader.Layout

/-! ## The sieve over pieces -/

namespace JavaStage

variable {stage mid stage' : JavaStage} {line : Text} {first rest more : List Text}

/-- **A line that can be sifted is**: what is let through of it stands before what is let
through of the lines behind it. -/
theorem Sift.keep_cons (h : Sift stage line mid first)
    (hrest : keep mid rest = .ok (stage', more)) :
    keep stage (line :: rest) = .ok (stage', first ++ more) := by
  have hbind : ∀ lets : Bool, isPackage line = false → stage.next line = .ok (mid, lets) →
      keep stage (line :: rest) = .ok (stage', if lets then line :: more else more) := by
    intro lets hp hnext
    rw [keep, hp, if_neg Bool.false_ne_true, hnext]
    show (keep mid rest >>= _) = _
    rw [hrest]
    rfl
  cases h with
  | package hp =>
    rw [keep, if_pos hp, hrest]
    rfl
  | blank hp hb => exact hbind false hp (by rw [next, if_pos hb])
  | firstImport hp hb hi =>
    exact hbind true hp (by rw [next, hb, if_neg Bool.false_ne_true, if_pos hi])
  | amongImports hp hstays =>
    rw [endsImports_eq hp, Bool.not_eq_false'] at hstays
    exact hbind true hp (by rw [next, if_pos hstays])
  | ends hstage hends =>
    have hp := isPackage_of_endsImports hends
    rw [endsImports_eq hp, Bool.not_eq_true'] at hends
    have hall := hends
    simp only [Bool.or_eq_false_iff] at hends
    refine hbind true hp ?_
    cases stage with
    | seeking =>
      rw [next, hends.1.1, hends.1.2, hends.2]
      rfl
    | importing =>
      rw [next, hall]
      rfl
    | body => exact absurd rfl hstage
  | inBody hp => exact hbind true hp rfl

/-- A line is let through or taken out. -/
theorem Sift.eq_nil_or (h : Sift stage line mid first) :
    (first = [] ∧ mid = stage) ∨ (first = [line] ∧ isPackage line = false) := by
  cases h with
  | package => exact .inl ⟨rfl, rfl⟩
  | blank => exact .inl ⟨rfl, rfl⟩
  | firstImport hp => exact .inr ⟨rfl, hp⟩
  | amongImports hp => exact .inr ⟨rfl, hp⟩
  | ends _ hends => exact .inr ⟨rfl, isPackage_of_endsImports hends⟩
  | inBody hp => exact .inr ⟨rfl, hp⟩

/-- Before the first import, what is not to be found again is taken out. -/
theorem keep_seeking {ls : List Text} (h : ∀ l ∈ ls, isKeptLine l = false) :
    keep seeking ls = .ok (seeking, []) := by
  induction ls with
  | nil => rfl
  | cons l ls ih =>
    obtain ⟨hl, hls⟩ := List.forall_mem_cons.1 h
    have hsift : Sift seeking l seeking [] := by
      cases hp : isPackage l with
      | true => exact .package hp
      | false =>
        rw [isKeptLine, hp, Bool.or_false, Bool.not_eq_false'] at hl
        exact .blank hp hl
    exact hsift.keep_cons (ih hls)

end JavaStage

/-- **The pieces that the sieve lets through**, line by line. Behind the imports it is done
with the first block, and leaves that and all below as they are. -/
inductive Sieved : JavaStage → List Piece → List Piece → Prop
  /-- Nothing is left. -/
  | nil {stage : JavaStage} : Sieved stage [] []
  /-- A line is sifted. -/
  | line {stage mid : JavaStage} {l : Text} {first : List Text} {ps out : List Piece}
      (h : stage.Sift l mid first) (hrest : Sieved mid ps out) :
      Sieved stage (.line l :: ps) (first.map .line ++ out)
  /-- A block is let through. -/
  | block {stage : JavaStage} {b : CommentBlock} {ps out : List Piece} (hstage : stage ≠ .body)
      (hrest : Sieved stage ps out) : Sieved stage (.block b :: ps) (.block b :: out)
  /-- Behind the imports a block ends the sieve. -/
  | done {b : CommentBlock} {ps : List Piece} : Sieved .body (.block b :: ps) (.block b :: ps)

namespace Sieved

variable {stage stage' : JavaStage} {ps qs out : List Piece} {l : Text} {ls kept : List Text}

theorem of_keep (h : stage.keep ls = .ok (stage', kept)) (hrest : Sieved stage' ps out) :
    Sieved stage (ls.map .line ++ ps) (kept.map .line ++ out) := by
  induction ls generalizing stage kept with
  | nil => cases h; exact hrest
  | cons l ls ih =>
    obtain ⟨mid, first, more, hsift, hkeep, rfl⟩ := JavaStage.exists_sift_of_keep h
    rw [List.map_append, List.append_assoc]
    exact .line hsift (ih hkeep)

theorem exists_sift (h : Sieved stage (.line l :: ps) out) :
    ∃ mid first more, stage.Sift l mid first ∧ Sieved mid ps more ∧
      out = first.map .line ++ more := by
  cases h with
  | line hsift hrest => exact ⟨_, _, _, hsift, hrest, rfl⟩

/-- The lines in front go through the sieve as a code run does. -/
theorem exists_keep (h : Sieved stage (ls.map .line ++ ps) out) :
    ∃ stage' kept more, stage.keep ls = .ok (stage', kept) ∧ Sieved stage' ps more ∧
      out = kept.map .line ++ more := by
  induction ls generalizing stage out with
  | nil => exact ⟨stage, [], out, rfl, h, rfl⟩
  | cons l ls ih =>
    obtain ⟨mid, first, below, hsift, hrest, rfl⟩ := exists_sift h
    obtain ⟨stage', kept, more, hkeep, hmore, rfl⟩ := ih hrest
    refine ⟨stage', first ++ kept, more, hsift.keep_cons hkeep, hmore, ?_⟩
    rw [List.map_append, List.append_assoc]

/-- Before the first import, lines that are not to be found again leave nothing. -/
theorem seeking_append_iff (hls : ∀ l ∈ ls, isKeptLine l = false) :
    Sieved .seeking (ls.map .line ++ ps) out ↔ Sieved .seeking ps out := by
  have hquiet := JavaStage.keep_seeking hls
  constructor
  · intro h
    obtain ⟨stage', kept, more, hkeep, hmore, rfl⟩ := h.exists_keep
    rw [hquiet] at hkeep
    cases hkeep
    exact hmore
  · exact fun h => of_keep hquiet h

/-- Nothing is added and nothing changes its place. -/
theorem sublist (h : Sieved stage ps out) : out.Sublist ps := by
  induction h with
  | nil => exact .slnil
  | line hsift _ ih =>
    obtain ⟨rfl, -⟩ | ⟨rfl, -⟩ := hsift.eq_nil_or
    · exact .cons _ ih
    · exact .cons_cons _ ih
  | block _ _ ih => exact .cons_cons _ ih
  | done => exact .refl _

/-! ### Pieces that are all let through -/

theorem exists_of_line (h : Sieved stage (.line l :: ps) (.line l :: ps)) :
    ∃ mid, stage.Sift l mid [l] ∧ isPackage l = false ∧ Sieved mid ps ps := by
  obtain ⟨mid, first, more, hsift, hrest, hout⟩ := exists_sift h
  obtain ⟨rfl, -⟩ | ⟨rfl, hp⟩ := hsift.eq_nil_or
  · -- what is let through of the pieces below is no longer than these
    have hlong := hrest.sublist.length_le
    rw [List.map_nil, List.nil_append] at hout
    rw [← hout, List.length_cons] at hlong
    exact absurd hlong (Nat.not_succ_le_self _)
  · obtain rfl : ps = more := List.tail_eq_of_cons_eq hout
    exact ⟨mid, hsift, hp, hrest⟩

theorem of_block {b : CommentBlock} (h : Sieved stage (.block b :: ps) (.block b :: ps)) :
    stage = .body ∨ Sieved stage ps ps := by
  cases h with
  | block _ hrest => exact .inr hrest
  | done => exact .inl rfl

/-- No line in front of the first block is a package declaration. -/
theorem isPackage_of_self (h : Sieved stage (ls.map .line ++ ps) (ls.map .line ++ ps)) :
    ∀ l ∈ ls, isPackage l = false := by
  induction ls generalizing stage with
  | nil => exact fun l hl => absurd hl List.not_mem_nil
  | cons l ls ih =>
    obtain ⟨mid, -, hp, hrest⟩ := exists_of_line h
    exact List.forall_mem_cons.2 ⟨hp, ih hrest⟩

/-- What is let through before the end of the imports is let through behind it. -/
theorem body_of_self (h : Sieved stage ps ps) : Sieved .body ps ps := by
  induction ps generalizing stage with
  | nil => exact .nil
  | cons p ps ih =>
    cases p with
    | block b => exact .done
    | line l =>
      obtain ⟨mid, -, hp, hrest⟩ := exists_of_line h
      exact .line (.inBody hp) (ih hrest)

theorem of_append (h : Sieved stage (ps ++ qs) (ps ++ qs)) : Sieved stage ps ps := by
  induction ps generalizing stage with
  | nil => exact .nil
  | cons p ps ih =>
    cases p with
    | line l =>
      obtain ⟨mid, hsift, -, hrest⟩ := exists_of_line h
      exact .line hsift (ih hrest)
    | block b =>
      by_cases hstage : stage = .body
      · rw [hstage]
        exact .done
      · exact .block hstage (ih ((of_block h).resolve_left hstage))

end Sieved

/-! ## What was let through is let through again -/

/-- A line with a keyword has the keyword first. -/
theorem startsWithKeyword_eq_false {keyword : String} {c d : Char} {token rest : Text}
    (htoken : keyword.toList = c :: token) (hne : c ≠ d) :
    startsWithKeyword keyword (d :: rest) = false := by
  unfold startsWithKeyword
  rw [htoken, Text.after?, if_neg hne]

/-- **A line that is left over ends the imports**, since a star is the first that is seen
of it. -/
theorem endsImports_of_mem_leftOver {b : CommentBlock} (hb : b.Enclosed) {w : Text}
    (hw : w ∈ b.leftOver) : endsImports w = true := by
  obtain ⟨rest, rfl⟩ := hb.exists_star_of_mem_leftOver hw
  have hmargin : Text.isBlank (b.margin ++ [' ']) = true := by
    rw [Text.isBlank_append, hb.margin.blank]
    rfl
  have hline : b.margin ++ ' ' :: '*' :: rest = (b.margin ++ [' ']) ++ '*' :: rest := by
    rw [List.append_assoc]
    rfl
  rw [hline]
  have hblank : Text.isBlank (b.margin ++ [' '] ++ '*' :: rest) = false := by
    rw [Text.isBlank_append, hmargin]
    rfl
  have htrim : Text.trimStart (b.margin ++ [' '] ++ '*' :: rest) = '*' :: rest := by
    rw [Text.trimStart, List.dropWhile_append_of_pos (List.all_eq_true.1 hmargin)]
    rfl
  have hcomment : isLineComment (b.margin ++ [' '] ++ '*' :: rest) = false := by
    rw [isLineComment, htrim]
    rfl
  obtain ⟨c, margin, hmarginEq⟩ := List.exists_cons_of_ne_nil (l := b.margin ++ [' ']) (by simp)
  have hc : isSpace c = true := by
    rw [hmarginEq] at hmargin
    exact (Bool.and_eq_true_iff.1 hmargin).1
  have hfirst : ∀ keyword : Char, isSpace keyword = false → keyword ≠ c := by
    rintro keyword hkeyword rfl
    rw [hc] at hkeyword
    cases hkeyword
  have hpackage : isPackage (b.margin ++ [' '] ++ '*' :: rest) = false := by
    rw [hmarginEq]
    exact startsWithKeyword_eq_false rfl (hfirst 'p' rfl)
  have himport : isImport (b.margin ++ [' '] ++ '*' :: rest) = false := by
    rw [hmarginEq]
    exact startsWithKeyword_eq_false rfl (hfirst 'i' rfl)
  rw [endsImports, hblank, hpackage, himport, hcomment]
  rfl

namespace Sieved

variable {stage : JavaStage} {ps out : List Piece}

/-- Behind the imports, lines that are no package declarations are let through. -/
theorem body_append {ls : List Text} (hls : ∀ l ∈ ls, isPackage l = false)
    (h : Sieved .body ps ps) : Sieved .body (ls.map .line ++ ps) (ls.map .line ++ ps) := by
  induction ls with
  | nil => exact h
  | cons l ls ih =>
    obtain ⟨hl, hls⟩ := List.forall_mem_cons.1 hls
    have hline := Sieved.line (.inBody hl) (ih hls)
    exact hline

/-- Lines that end the imports are let through, in front of pieces that are. -/
theorem of_endsImports {ls : List Text} (hls : ∀ l ∈ ls, endsImports l = true)
    (h : Sieved stage ps ps) : Sieved stage (ls.map .line ++ ps) (ls.map .line ++ ps) := by
  have hpackage : ∀ l ∈ ls, isPackage l = false := fun l hl => isPackage_of_endsImports (hls l hl)
  by_cases hstage : stage = .body
  · rw [hstage] at h ⊢
    exact body_append hpackage h
  · cases ls with
    | nil => exact h
    | cons l ls =>
      have hrest := body_append (List.forall_mem_cons.1 hpackage).2 h.body_of_self
      have hline := Sieved.line (.ends hstage (hls l List.mem_cons_self)) hrest
      exact hline

/-- **What was let through and is read back is let through.** A block that is read back in
part leaves lines that end the imports, and what follows them passes there as well. -/
theorem readBack {g : Grammar} (h : Sieved stage ps out) (hfits : ∀ p ∈ out, p.Fits g) :
    Sieved stage (out.flatMap Piece.readBack) (out.flatMap Piece.readBack) := by
  induction h with
  | nil => exact .nil
  | line hsift _ ih =>
    have hrest := ih fun p hp => hfits p (List.mem_append_right _ hp)
    obtain ⟨rfl, rfl⟩ | ⟨rfl, -⟩ := hsift.eq_nil_or
    · exact hrest
    · exact .line hsift hrest
  | block hstage _ ih =>
    obtain ⟨hb, hout⟩ := List.forall_mem_cons.1 hfits
    exact .block hstage
      (of_endsImports (fun w => endsImports_of_mem_leftOver hb.1) (ih hout))
  | done => exact .done

end Sieved

/-! ## The segments below the head, as pieces -/

/-- **Code runs are apart**: no two of them are neighbours. -/
def CodeApart (segments : List Segment) : Prop :=
  ∀ before r r' behind, segments ≠ before ++ .code r :: .code r' :: behind

/-- The lines of the code run with which segments begin. -/
def firstRun : List Segment → List Text
  | .code r :: _ => r.lines
  | _ => []

theorem exists_pieces_eq_firstRun_append (segments : List Segment) :
    ∃ ps, pieces segments = (firstRun segments).map .line ++ ps := by
  cases segments with
  | nil => exact ⟨[], rfl⟩
  | cons s rest =>
    cases s with
    | comment b => exact ⟨pieces (.comment b :: rest), rfl⟩
    | code r => exact ⟨pieces rest, pieces_cons _ _⟩

theorem codeApart_ofText (g : Grammar) (t : Text) : CodeApart (Document.ofText g t).segments := by
  intro before r r' behind hcut
  obtain ⟨x, x', hx, hx', hfollows⟩ := Document.exists_follows_of_neighbours hcut
  cases hfollows with
  | codeBelowCloser => cases hx
  | codeBehindBlock => cases hx
  | blockBelowCode => cases hx'
  | blockBelowCloser => cases hx

namespace CodeApart

variable {segments : List Segment}

theorem of_append_left {above : List Segment} (h : CodeApart (above ++ segments)) :
    CodeApart segments := by
  rintro before r r' behind rfl
  exact h (above ++ before) r r' behind (List.append_assoc _ _ _).symm

theorem tail {s : Segment} (h : CodeApart (s :: segments)) : CodeApart segments := by
  have happend : CodeApart ([s] ++ segments) := h
  exact happend.of_append_left

/-- Below a code run there is a block, or nothing. -/
theorem eq_nil_or {r : CodeRun} (h : CodeApart (.code r :: segments)) :
    segments = [] ∨ ∃ b rest, segments = .comment b :: rest := by
  cases segments with
  | nil => exact .inl rfl
  | cons s rest =>
    cases s with
    | comment b => exact .inr ⟨b, rest, rfl⟩
    | code r' => exact absurd rfl (h [] r r' rest)

/-- Below a code run, and behind the imports, all is let through. -/
theorem sieved_body_iff {r : CodeRun} (h : CodeApart (.code r :: segments)) {out : List Piece} :
    Sieved .body (pieces segments) out ↔ out = pieces segments := by
  obtain rfl | ⟨b, rest, rfl⟩ := h.eq_nil_or
  · constructor
    · intro hsieved
      cases hsieved
      rfl
    · rintro rfl
      exact .nil
  · constructor
    · intro hsieved
      cases hsieved with
      | block hstage => exact absurd rfl hstage
      | done => rfl
    · rintro rfl
      exact .done

/-- **Behind the imports** all is let through that begins without package declarations. -/
theorem sieved_body (h : CodeApart segments)
    (hrun : ∀ l ∈ firstRun segments, isPackage l = false) :
    Sieved .body (pieces segments) (pieces segments) := by
  cases segments with
  | nil => exact .nil
  | cons s rest =>
    cases s with
    | comment b => exact .done
    | code r => exact Sieved.body_append hrun (h.sieved_body_iff.2 rfl)

end CodeApart

section BelowHead

variable {stage : JavaStage} {pending : List Text} {segments out : List Segment}
  {kept : List Piece}

/-- **The sieve over segments is the sieve over their pieces**, behind what is pending. -/
theorem exists_sieved_of_belowHead (hsettled : ∀ s ∈ segments, s.settle = [s])
    (hapart : CodeApart segments) (h : belowHead stage pending segments = .ok out)
    (hstage : stage ≠ .body) :
    ∃ kept, Sieved stage (pieces segments) kept ∧ pieces out = pending.map .line ++ kept := by
  induction segments generalizing stage pending out with
  | nil =>
    cases h
    exact ⟨[], .nil, by rw [pieces_settle_code, List.append_nil]⟩
  | cons s rest ih =>
    obtain ⟨hs, hrest⟩ := List.forall_mem_cons.1 hsettled
    cases s with
    | comment b =>
      obtain ⟨more, hmore, rfl⟩ := exists_of_belowHead_comment h
      obtain ⟨kept, hkept, hpieces⟩ := ih hrest hapart.tail hmore hstage
      refine ⟨.block b :: kept, .block hstage hkept, ?_⟩
      rw [hs, pieces_append, pieces_append, hpieces, pieces_settle_code, List.append_assoc]
      rfl
    | code r =>
      obtain ⟨stage', kept, hkeep, ⟨rfl, rfl⟩ | ⟨hstage', hmore⟩⟩ := exists_of_belowHead_code h
      · refine ⟨_, .of_keep hkeep (hapart.sieved_body_iff.2 rfl), ?_⟩
        rw [flatMap_settle hrest, pieces_append, pieces_settle_code, List.map_append,
          List.append_assoc]
      · obtain ⟨more, hsieved, hpieces⟩ := ih hrest hapart.tail hmore hstage'
        refine ⟨_, .of_keep hkeep hsieved, ?_⟩
        rw [hpieces, List.map_append, List.append_assoc]

/-- **Where the sieve over pieces goes through, that over segments does.** -/
theorem exists_belowHead_of_sieved (hsettled : ∀ s ∈ segments, s.settle = [s])
    (hapart : CodeApart segments) (h : Sieved stage (pieces segments) kept)
    (hstage : stage ≠ .body) (pending : List Text) :
    ∃ out, belowHead stage pending segments = .ok out ∧
      pieces out = pending.map .line ++ kept := by
  induction segments generalizing stage pending kept with
  | nil =>
    cases h
    exact ⟨_, rfl, by rw [pieces_settle_code, List.append_nil]⟩
  | cons s rest ih =>
    obtain ⟨hs, hrest⟩ := List.forall_mem_cons.1 hsettled
    cases s with
    | comment b =>
      cases h with
      | done => exact absurd rfl hstage
      | block _ hkept =>
        obtain ⟨more, hmore, hpieces⟩ := ih hrest hapart.tail hkept hstage []
        refine ⟨_, by rw [belowHead, hmore]; rfl, ?_⟩
        rw [hs, pieces_append, pieces_append, hpieces, pieces_settle_code, List.append_assoc]
        rfl
    | code r =>
      obtain ⟨stage', lines, more, hkeep, hsieved, rfl⟩ := h.exists_keep
      by_cases hstage' : stage' = .body
      · subst hstage'
        obtain rfl := hapart.sieved_body_iff.1 hsieved
        refine ⟨_, by rw [belowHead, hkeep]; rfl, ?_⟩
        rw [flatMap_settle hrest, pieces_append, pieces_settle_code, List.map_append,
          List.append_assoc]
      · obtain ⟨out, hout, hpieces⟩ := ih hrest hapart.tail hsieved hstage' (pending ++ lines)
        refine ⟨out, ?_, by rw [hpieces, List.map_append, List.append_assoc]⟩
        rw [belowHead, hkeep]
        show (if stage' = .body then _ else _) = _
        rw [if_neg hstage', hout]

/-- Before the first import, segments without items leave nothing. -/
theorem belowHead_append {above : List Segment} (h : ∀ p ∈ pieces above, p.isItem = false)
    (pending : List Text) (below : List Segment) :
    belowHead .seeking pending (above ++ below) = belowHead .seeking pending below := by
  induction above with
  | nil => rfl
  | cons s above ih =>
    rw [pieces_cons, List.forall_mem_append] at h
    cases s with
    | comment b => exact absurd (h.1 (.block b) List.mem_cons_self) (by simp [Piece.isItem])
    | code r =>
      have hkeep : JavaStage.seeking.keep r.lines = .ok (.seeking, []) :=
        JavaStage.keep_seeking fun l hl => h.1 (.line l) (List.mem_map_of_mem hl)
      rw [List.cons_append, belowHead, hkeep]
      show belowHead .seeking (pending ++ []) (above ++ below) = _
      rw [List.append_nil, ih h.2]

end BelowHead

end LicenseHeader.Layout
