import LicenseHeader.Proofs.EarlyClose
import LicenseHeader.Proofs.RoundTrip

/-!
# What rendering keeps

Rendering a document that was just read may change blanks and add tokens. Whether
it also drops something is a question about visible characters (`Text.visible`).

Every line of a text is written as one line, and all of them keep their visible
characters but one kind: of a closing line only the closer is written. So line by
line nothing is dropped exactly if every closer stands alone on its line
(`Grammar.ClosesAlone`); this is the run lemma `Document.forall_mem_zip_iff` on
top of the step lemma `LineReader.Step.keeps_iff`.

For whole texts the balance is exact, character by character
(`Document.count_visible_render`): what is written and what is lost before
closers (`Document.lost`) are together what was read and the leaders and closers
that were added (`Document.added`). Where nothing is added that is also lost, what
is kept tells that nothing is lost. In blocks without leader the same holds
although a last closer may be added, since the opener of the last block tells
where in the text that happens. In starred blocks an added leader can stand in
for a lost star.
-/

namespace LicenseHeader

namespace Text

/-! ## Visible characters -/

/-- The visible characters of a text in order. -/
def visible (t : Text) : Text := t.filter fun c => !isSpace c

@[simp] theorem visible_nil : visible [] = [] := rfl

@[simp] theorem visible_append (s t : Text) : visible (s ++ t) = visible s ++ visible t :=
  List.filter_append s t

theorem visible_eq_nil_iff {t : Text} : visible t = [] ↔ isBlank t = true := by
  unfold visible isBlank
  rw [List.filter_eq_nil_iff, List.all_eq_true]
  refine forall_congr' fun c => forall_congr' fun _ => ?_
  rw [Bool.not_eq_true, Bool.not_eq_false']

@[simp] theorem visible_spaces (n : Nat) : visible (spaces n) = [] :=
  visible_eq_nil_iff.2 (isBlank_spaces n)

theorem visible_unlines (ls : List Text) : visible (unlines ls) = ls.flatMap visible := by
  induction ls with
  | nil => rfl
  | cons l ls ih =>
    rw [unlines_cons, visible_append, List.flatMap_cons, ← ih]
    rfl

theorem visible_dropFinal (t : Text) : visible (dropFinal '\n' t) = visible t := by
  unfold dropFinal
  split
  · rename_i hlast
    obtain ⟨init, rfl⟩ := List.getLast?_eq_some_iff.1 (eq_of_beq hlast)
    rw [List.dropLast_concat, visible_append]
    exact (List.append_nil _).symm
  · rfl

theorem visible_ofLines (ls : List Text) (lacks : Bool) :
    visible (ofLines ls lacks) = ls.flatMap visible := by
  unfold ofLines
  split
  · rw [visible_dropFinal, visible_unlines]
  · exact visible_unlines ls

theorem flatMap_visible_bareLines (t : Text) : (bareLines t).flatMap visible = visible t := by
  rw [← visible_ofLines (bareLines t) (lacksNewline t), ofLines_bareLines]

/-- Texts that are kept one by one are kept as a whole. -/
theorem flatMap_visible_sublist {xs ys : List Text} (hlen : xs.length ≤ ys.length)
    (h : ∀ p ∈ xs.zip ys, (visible p.1).Sublist (visible p.2)) :
    (xs.flatMap visible).Sublist (ys.flatMap visible) := by
  induction xs generalizing ys with
  | nil => exact List.nil_sublist _
  | cons x xs ih =>
    cases ys with
    | nil => exact absurd hlen (Nat.not_succ_le_zero _)
    | cons y ys =>
      obtain ⟨hhead, htail⟩ := List.forall_mem_cons.1 h
      exact hhead.append (ih (Nat.le_of_succ_le_succ hlen) htail)

/-- **A mark cuts kept texts alike**: where a text is kept in another and neither of
the two ends after a mark holds more marks than it must, what stands before the
mark is kept before the mark. -/
theorem sublist_of_append_cons_sublist {c : Char} {s s' t t' : Text}
    (h : (s ++ c :: s').Sublist (t ++ c :: t')) (hfront : t.count c ≤ s.count c)
    (hback : t'.count c ≤ s'.count c) : s.Sublist t := by
  obtain ⟨front, back, hsplit, hfrontSub, hbackSub⟩ := List.sublist_append_iff.1 h
  have hcount := congrArg (List.count c) hsplit
  have hfrontCount := hfrontSub.count_le c
  have hbackCount := hbackSub.count_le c
  rw [List.count_append, List.count_append, List.count_cons_self] at hcount
  rw [List.count_cons_self] at hbackCount
  rcases List.append_eq_append_iff.1 hsplit with ⟨more, hmore, hrest⟩ | ⟨more, hmore, hrest⟩
  · -- the cut is behind the mark or right before it
    cases more with
    | nil => rwa [hmore, List.append_nil] at hfrontSub
    | cons d more =>
      obtain ⟨rfl, -⟩ := List.cons.inj hrest
      rw [hmore, List.count_append, List.count_cons_self] at hfrontCount
      omega
  · -- the cut is before the mark, with something in between that holds no mark
    cases more with
    | nil => rwa [hmore, List.append_nil]
    | cons d more =>
      have hsum := congrArg (List.count c) hrest
      rw [List.count_append, List.count_cons_self] at hsum
      have hd : d ≠ c := by
        rintro rfl
        rw [List.count_cons_self] at hsum
        omega
      rw [hrest, List.cons_append] at hbackSub
      rcases List.sublist_cons_iff.1 hbackSub with hlater | ⟨_, hmark, -⟩
      · have hlaterCount := hlater.count_le c
        rw [← List.cons_append, ← hrest] at hlaterCount
        omega
      · exact absurd (List.cons.inj hmark).1 hd

end Text

/-! ## What a line keeps -/

namespace Grammar

/-- What a content line is given when it is written: the leader, if it has none. -/
def addedOn (g : Grammar) (line : Text) : Text :=
  if g.leads line then [] else Text.visible (g.leader.getD [])

/-- What a closing line loses when it is written: all before the closer. -/
def lostOn (g : Grammar) (line : Text) : Text :=
  (Text.visible line).take
    ((Text.visible line).length - (Text.visible (g.closer.getD [])).length)

/-- **The closer stands alone on its line.** -/
def ClosesAlone (g : Grammar) (line : Text) : Prop :=
  ∃ token ∈ g.closer, ∃ before behind, line = before ++ token ++ behind ∧
    Text.isBlank before = true ∧ Text.isBlank behind = true

variable {g : Grammar} {m line : Text}

/-- A closing line loses what stands before its closer. -/
theorem lostOn_eq {token before behind : Text} (hcloser : g.closer = some token)
    (hbehind : Text.isBlank behind = true) :
    g.lostOn (before ++ token ++ behind) = Text.visible before := by
  unfold lostOn
  rw [hcloser, Text.visible_append, Text.visible_append, Text.visible_eq_nil_iff.2 hbehind,
    List.append_nil, List.length_append]
  show List.take (_ + (Text.visible token).length - (Text.visible token).length) _ = _
  rw [Nat.add_sub_cancel, List.take_left]

/-- A closing line shows what it loses and the closer. -/
theorem visible_eq_lostOn_append (hcloses : g.closes line = true) :
    Text.visible line = g.lostOn line ++ Text.visible (g.closer.getD []) := by
  obtain ⟨token, hcloser, before, behind, rfl, hbehind⟩ := closes_eq_true_iff.1 hcloses
  rw [lostOn_eq hcloser hbehind, Text.visible_append, Text.visible_append,
    Text.visible_eq_nil_iff.2 hbehind, List.append_nil, hcloser]
  rfl

theorem lostOn_eq_nil_iff (hcloses : g.closes line = true) :
    g.lostOn line = [] ↔ g.ClosesAlone line := by
  constructor
  · intro h
    obtain ⟨token, hcloser, before, behind, rfl, hbehind⟩ := closes_eq_true_iff.1 hcloses
    rw [lostOn_eq hcloser hbehind, Text.visible_eq_nil_iff] at h
    exact ⟨token, hcloser, before, behind, rfl, h, hbehind⟩
  · rintro ⟨token, hcloser, before, behind, rfl, hbefore, hbehind⟩
    rw [lostOn_eq hcloser hbehind]
    exact Text.visible_eq_nil_iff.2 hbefore

theorem visible_returnMark (carriageReturn : Bool) :
    Text.visible (CommentBlock.returnMark carriageReturn) = [] :=
  Text.visible_eq_nil_iff.2 (isBlank_returnMark carriageReturn)

theorem visible_writeCloser (hm : m.IsMargin) (carriageReturn : Bool) :
    Text.visible (g.writeCloser m carriageReturn) = Text.visible (g.closer.getD []) := by
  unfold writeCloser
  simp [Text.visible_eq_nil_iff.2 hm.blank, visible_returnMark]

namespace Tidy

theorem visible_of_leads (hg : g.Tidy) (hleads : g.leads line = true) :
    Text.visible line = Text.visible (g.leader.getD []) ++ Text.visible (g.contentOn line) := by
  obtain ⟨token, hleader⟩ := exists_leader_of_leads hleads
  obtain ⟨⟨m, rest⟩, hrest⟩ := Option.isSome_iff_exists.1 hleads
  obtain ⟨hblank, hline, -⟩ := (hg.leaderRest?_eq_some_iff hleader).1 hrest
  rw [hg.contentOn_eq hrest, hline, hleader, Text.visible_append, Text.visible_append,
    Text.visible_eq_nil_iff.2 hblank]
  rfl

theorem visible_writeContent (hg : g.Tidy) (hm : m.IsMargin) (content : Text) :
    Text.visible (g.writeContent m content)
      = Text.visible (g.leader.getD []) ++ Text.visible content := by
  cases hleader : g.leader with
  | none => rw [hg.writeContent_of_leader_eq_none hleader]; rfl
  | some token =>
    rw [hg.writeContent_eq hleader]
    simp [Text.visible_eq_nil_iff.2 hm.blank]

/-- **A content line keeps what it shows**, behind a leader if it had none. -/
theorem visible_writeContent_contentOn (hg : g.Tidy) (hm : m.IsMargin) (line : Text) :
    Text.visible (g.writeContent m (g.contentOn line)) = g.addedOn line ++ Text.visible line := by
  rw [hg.visible_writeContent hm]
  unfold addedOn
  split
  · rename_i hleads
    exact (hg.visible_of_leads hleads).symm
  · rename_i hleads
    have hnone : g.leaderRest? line = none := by
      rwa [leads, Option.isSome_iff_ne_none, Decidable.not_not] at hleads
    rw [contentOn, hnone]

theorem visible_of_opens (hg : g.Tidy) (halone : g.openerAlone = true)
    (hopens : g.opens line = true) : Text.visible line = Text.visible (g.opener.getD []) := by
  obtain ⟨token, hopener⟩ := exists_opener_of_openerAlone halone
  obtain ⟨m, hmargin⟩ := Option.isSome_iff_exists.1 hopens
  obtain ⟨hblank, behind, rfl, hbehind⟩ := (hg.openerMargin?_eq_some_iff hopener halone).1 hmargin
  simp [hopener, Text.visible_eq_nil_iff.2 hblank, Text.visible_eq_nil_iff.2 hbehind]

theorem visible_writeOpener (hg : g.Tidy) (halone : g.openerAlone = true) (hm : m.IsMargin)
    (carriageReturn : Bool) :
    Text.visible (g.writeOpener m carriageReturn) = Text.visible (g.opener.getD []) := by
  refine hg.visible_of_opens halone ?_
  rw [opens, hg.openerMargin?_writeOpener halone hm]
  rfl

/-- **The first line of a block keeps what it shows.** -/
theorem visible_writeFirst (hg : g.Tidy) (hopens : g.opens line = true) (hbare : '\n' ∉ line) :
    Text.visible (g.writeFirst line) = Text.visible line := by
  have hm := hg.isMargin_blockMargin hopens hbare
  unfold writeFirst
  cases halone : g.openerAlone with
  | true =>
    rw [if_pos rfl, hg.visible_writeOpener halone hm, hg.visible_of_opens halone hopens]
  | false =>
    rw [if_neg Bool.false_ne_true, hg.visible_writeContent_contentOn hm, addedOn,
      if_pos (leads_of_opens hopens halone hbare)]
    rfl

end Tidy

end Grammar

/-! ## Line by line -/

namespace LineReader

variable {g : Grammar} {reader reader' : LineReader} {line : Text} {out : List Stretch}

/-- **One line**: it keeps what it shows if and only if the closer of the block that
it closes, if any, stands alone. -/
theorem Step.keeps_iff (h : Step g reader line out reader') (hg : g.Tidy) (hfits : reader.Fits g)
    (hbare : '\n' ∉ line) :
    ∃ w, g.Relaid (reader.margin? g) line w (reader'.margin? g) ∧
      ((Text.visible line).Sublist (Text.visible w) ↔
        ∀ s, Stretch.block s ∈ out → ∀ l ∈ s.closer, g.ClosesAlone l) := by
  cases h with
  | firstCode hopens => exact ⟨line, .code hopens, by simp⟩
  | moreCode hopens => exact ⟨line, .code hopens, by simp⟩
  | opened hopens =>
    rw [margin?_blockStart]
    refine ⟨g.writeFirst line, .first hopens, ?_⟩
    rw [hg.visible_writeFirst hopens hbare]
    simp
  | openedAfterCode hopens =>
    rw [margin?_blockStart]
    refine ⟨g.writeFirst line, .first hopens, ?_⟩
    rw [hg.visible_writeFirst hopens hbare]
    simp
  | content hleads hstays =>
    rw [margin?_withContent hfits.1]
    refine ⟨_, .content hleads hstays, ?_⟩
    rw [hg.visible_writeContent_contentOn (hfits.1.isMargin_margin hg)]
    simp
  | ended hcloser hleads =>
    refine ⟨line, .ended hcloser hleads, ?_⟩
    simp [hfits.2]
  | closed hcloses =>
    refine ⟨_, .closed hcloses, ?_⟩
    -- what is written is the closer alone, so there is no room for anything before it
    have hlost : (Text.visible line).Sublist (Text.visible (g.closer.getD [])) ↔
        g.lostOn line = [] := by
      rw [Grammar.visible_eq_lostOn_append hcloses]
      constructor
      · intro hsub
        have hlength := hsub.length_le
        rw [List.length_append] at hlength
        exact List.eq_nil_of_length_eq_zero (by omega)
      · intro hnil
        rw [hnil]
        exact List.Sublist.refl _
    rw [Grammar.visible_writeCloser (hfits.1.isMargin_margin hg), hlost,
      Grammar.lostOn_eq_nil_iff hcloses]
    simp [BlockLines.withCloser]

end LineReader

namespace Document

variable {g : Grammar}

/-- **All lines**: every line keeps what it shows if and only if every closer stands
alone. -/
theorem forall_mem_zip_iff (hg : g.Tidy) (reader : LineReader) {ls : List Text}
    (hfits : reader.Fits g) (hbare : ∀ line ∈ ls, '\n' ∉ line) :
    (∀ p ∈ ls.zip (g.relay (reader.margin? g) ls), (Text.visible p.1).Sublist (Text.visible p.2)) ↔
      ∀ s, Stretch.block s ∈ stretchesFrom g reader ls → ∀ l ∈ s.closer, g.ClosesAlone l := by
  induction ls generalizing reader with
  | nil =>
    refine iff_of_true (by simp) ?_
    cases reader with
    | between => intro s hs; cases hs
    | inCode _ => intro s hs; cases List.mem_singleton.1 hs
    | inBlock b =>
      intro s hs l hl
      rw [Stretch.block.inj (List.mem_singleton.1 hs), hfits.2] at hl
      cases hl
  | cons line ls ih =>
    have hline := hbare line List.mem_cons_self
    have hstep := reader.step_spec g line
    obtain ⟨w, hrelaid, hkeeps⟩ := hstep.keeps_iff hg hfits hline
    have hrest := ih _ (hstep.fits hfits hline).2 (fun l hl => hbare l (List.mem_cons_of_mem _ hl))
    rw [hrelaid.relay_cons, List.zip_cons_cons, List.forall_mem_cons, hkeeps, hrest, stretchesFrom]
    constructor
    · rintro ⟨hout, hlater⟩ s hs
      exact (List.mem_append.1 hs).elim (hout s) (hlater s)
    · intro h
      exact ⟨fun s hs => h s (List.mem_append_left _ hs),
        fun s hs => h s (List.mem_append_right _ hs)⟩

/-- Every line is written as a line. -/
theorem length_le_length_relay (g : Grammar) (m : Option Text) (ls : List Text) :
    ls.length ≤ (g.relay m ls).length := by
  induction ls generalizing m with
  | nil => exact Nat.zero_le _
  | cons line ls ih => exact Nat.succ_le_succ (ih _)

end Document

/-! ## The balance -/

namespace BlockLines

/-- What is lost of a block when it is written. -/
def lost (g : Grammar) (s : BlockLines) : Text := s.closer.elim [] g.lostOn

/-- What is added to a block when it is written: leaders, and a closer if it was not
closed. -/
def added (g : Grammar) (s : BlockLines) : Text :=
  s.content.flatMap g.addedOn
    ++ if s.closer.isSome then [] else Text.visible (g.closer.getD [])

variable {g : Grammar} {s : BlockLines}

theorem visible_opener (hg : g.Tidy) (hs : s.Fits g) :
    (s.writtenOpener g).flatMap Text.visible = s.opener.toList.flatMap Text.visible := by
  unfold writtenOpener
  cases halone : g.openerAlone with
  | false => rw [hs.opener_eq_none halone]; rfl
  | true =>
    obtain ⟨line, hline⟩ := Option.isSome_iff_exists.1 (hs.opener_isSome.trans halone)
    rw [hline, if_pos rfl, Option.toList_some, List.flatMap_singleton, List.flatMap_singleton,
      hg.visible_writeOpener halone (hs.isMargin_margin hg),
      hg.visible_of_opens halone (hs.opens line hline)]

theorem visible_writtenCloser (hg : g.Tidy) (hs : s.Fits g) :
    (s.writtenCloser g).flatMap Text.visible = Text.visible (g.closer.getD []) := by
  unfold writtenCloser
  cases hcloser : g.closer with
  | none => rfl
  | some token =>
    rw [if_pos Option.isSome_some, List.flatMap_singleton,
      Grammar.visible_writeCloser (hs.isMargin_margin hg), hcloser]

/-- The balance of content lines. -/
theorem count_writtenContent (hg : g.Tidy) (hs : s.Fits g) (c : Char) :
    ((s.writtenContent g).flatMap Text.visible).count c
      = (s.content.flatMap Text.visible).count c + (s.content.flatMap g.addedOn).count c := by
  have hm := hs.isMargin_margin hg
  unfold writtenContent
  induction s.content with
  | nil => rfl
  | cons line ls ih =>
    simp only [List.map_cons, List.flatMap_cons, List.count_append, ih,
      hg.visible_writeContent_contentOn hm]
    omega

/-- The balance of the closing line. -/
theorem count_writtenCloser (hg : g.Tidy) (hs : s.Fits g) (c : Char) :
    ((s.writtenCloser g).flatMap Text.visible).count c + (s.lost g).count c
      = (s.closer.toList.flatMap Text.visible).count c
        + (if s.closer.isSome then [] else Text.visible (g.closer.getD [])).count c := by
  rw [visible_writtenCloser hg hs, lost]
  cases hline : s.closer with
  | none => exact Nat.add_comm _ _
  | some line =>
    rw [Option.toList_some, List.flatMap_singleton,
      Grammar.visible_eq_lostOn_append (hs.closes line hline), List.count_append]
    exact Nat.add_comm _ _

/-- **The balance of a block.** -/
theorem count_visible (hg : g.Tidy) (hs : s.Fits g) (c : Char) :
    ((s.read g).written.flatMap Text.visible).count c + (s.lost g).count c
      = (s.all.flatMap Text.visible).count c + (s.added g).count c := by
  have hcontent := count_writtenContent hg hs c
  have hcloser := count_writtenCloser hg hs c
  rw [written_read, all, added]
  simp only [List.flatMap_append, List.count_append, visible_opener hg hs]
  omega

theorem lost_eq_nil_iff (hs : s.Fits g) :
    s.lost g = [] ↔ ∀ line ∈ s.closer, g.ClosesAlone line := by
  unfold lost
  cases hline : s.closer with
  | none => simp
  | some line =>
    rw [Option.elim_some, Grammar.lostOn_eq_nil_iff (hs.closes line hline)]
    simp

end BlockLines

namespace Stretch

/-- What is lost of a stretch when it is written. -/
def lost (g : Grammar) : Stretch → Text
  | block s => s.lost g
  | code _ => []

/-- What is added to a stretch when it is written. -/
def added (g : Grammar) : Stretch → Text
  | block s => s.added g
  | code _ => []

/-- What a stretch shows. -/
def visible (x : Stretch) : Text := x.lines.flatMap Text.visible

/-- What a stretch shows once it is written. -/
def visibleWritten (g : Grammar) (x : Stretch) : Text := (x.written g).flatMap Text.visible

variable {g : Grammar}

/-- **The balance of stretches.** -/
theorem count_visible (hg : g.Tidy) {xs : List Stretch} (hfits : ∀ x ∈ xs, x.Fits g) (c : Char) :
    (xs.flatMap (visibleWritten g)).count c + (xs.flatMap (lost g)).count c
      = (xs.flatMap visible).count c + (xs.flatMap (added g)).count c := by
  induction xs with
  | nil => rfl
  | cons x xs ih =>
    obtain ⟨hx, hxs⟩ := List.forall_mem_cons.1 hfits
    have hhead : (x.visibleWritten g).count c + (x.lost g).count c
        = x.visible.count c + (x.added g).count c := by
      cases x with
      | block s => exact BlockLines.count_visible hg hx c
      | code ls => rfl
    have htail := ih hxs
    simp only [List.flatMap_cons, List.count_append]
    omega

theorem flatMap_lost_eq_nil_iff {xs : List Stretch} (hfits : ∀ x ∈ xs, x.Fits g) :
    xs.flatMap (lost g) = [] ↔
      ∀ s, block s ∈ xs → ∀ line ∈ s.closer, g.ClosesAlone line := by
  rw [List.flatMap_eq_nil_iff]
  constructor
  · intro h s hs
    exact (BlockLines.lost_eq_nil_iff (hfits _ hs)).1 (h _ hs)
  · intro h x hx
    cases x with
    | block s => exact (BlockLines.lost_eq_nil_iff (hfits _ hx)).2 (h s hx)
    | code _ => rfl

/-- **Where nothing that is lost is added elsewhere, what is kept tells that nothing is
lost.** -/
theorem flatMap_lost_eq_nil (hg : g.Tidy) {xs : List Stretch} (hfits : ∀ x ∈ xs, x.Fits g)
    (hadded : ∀ c ∈ xs.flatMap (lost g), c ∉ xs.flatMap (added g))
    (hkept : (xs.flatMap visible).Sublist (xs.flatMap (visibleWritten g))) :
    xs.flatMap (lost g) = [] := by
  refine List.eq_nil_iff_forall_not_mem.2 fun c hc => ?_
  have hbalance := count_visible hg hfits c
  have hcount := hkept.count_le c
  have hlost := List.count_pos_iff.2 hc
  rw [List.count_eq_zero.2 (hadded c hc)] at hbalance
  omega

end Stretch

namespace Document

/-- **What rendering loses of a text.** -/
def lost (g : Grammar) (t : Text) : Text := (stretches g t).flatMap (Stretch.lost g)

/-- **What rendering adds to a text**, apart from blanks. -/
def added (g : Grammar) (t : Text) : Text := (stretches g t).flatMap (Stretch.added g)

variable {g : Grammar}

theorem flatMap_visible_stretches (g : Grammar) (t : Text) :
    (stretches g t).flatMap Stretch.visible = Text.visible t := by
  show (stretches g t).flatMap (fun x => x.lines.flatMap Text.visible) = _
  rw [← List.flatMap_assoc, flatMap_lines_stretches, Text.flatMap_visible_bareLines]

/-- A rendered text shows what its stretches show once they are written. -/
theorem flatMap_visibleWritten_stretches (g : Grammar) (t : Text) :
    (stretches g t).flatMap (Stretch.visibleWritten g) = Text.visible (ofText g t).render := by
  show (stretches g t).flatMap (fun x => (x.written g).flatMap Text.visible) = _
  rw [← List.flatMap_assoc, flatMap_written_stretches, render_ofText, Text.visible_ofLines]

/-- **The balance of a text**, for each character. -/
theorem count_visible_render (hg : g.Tidy) (t : Text) (c : Char) :
    (Text.visible (ofText g t).render).count c + (lost g t).count c
      = (Text.visible t).count c + (added g t).count c := by
  rw [← flatMap_visible_stretches g t, ← flatMap_visibleWritten_stretches]
  exact Stretch.count_visible hg (fun _ => fits_of_mem_stretches) c

/-! ## The last block -/

/-- Only the last stretch can be a block that is not closed. -/
theorem exists_stretchesFrom_eq_append {token : Text} (hcloser : g.closer = some token)
    (reader : LineReader) {ls : List Text} (hfits : reader.Fits g)
    (hbare : ∀ line ∈ ls, '\n' ∉ line) :
    ∃ init tail, stretchesFrom g reader ls = init ++ tail ∧
      (∀ s, Stretch.block s ∈ init → s.closer.isSome = true) ∧
      (tail = [] ∨ ∃ s, tail = [.block s] ∧ s.closer = none) := by
  induction ls generalizing reader with
  | nil =>
    cases reader with
    | between => exact ⟨[], [], rfl, by simp, .inl rfl⟩
    | inCode ls => exact ⟨[.code ls], [], rfl, by simp, .inl rfl⟩
    | inBlock s => exact ⟨[], [.block s], rfl, by simp, .inr ⟨s, rfl, hfits.2⟩⟩
  | cons line ls ih =>
    have hstep := reader.step_spec g line
    have hfits' := (hstep.fits hfits (hbare line List.mem_cons_self)).2
    obtain ⟨init, tail, heq, hinit, htail⟩ := ih _ hfits'
      (fun l hl => hbare l (List.mem_cons_of_mem _ hl))
    have hout : ∀ s, Stretch.block s ∈ (reader.step g line).1 → s.closer.isSome = true := by
      generalize (reader.step g line).1 = out at hstep ⊢
      generalize (reader.step g line).2 = reader' at hstep
      cases hstep with
      | ended hnone _ => rw [hcloser] at hnone; cases hnone
      | closed _ =>
        intro s hs
        rw [Stretch.block.inj (List.mem_singleton.1 hs)]
        rfl
      | _ => simp
    refine ⟨(reader.step g line).1 ++ init, tail, ?_, fun s hs => ?_, htail⟩
    · rw [stretchesFrom, heq, List.append_assoc]
    · exact (List.mem_append.1 hs).elim (hout s) (hinit s)

end Document

/-- Nothing is added to closed blocks without leader. -/
theorem Stretch.flatMap_added_eq_nil {g : Grammar} (hleader : g.leader = none) {xs : List Stretch}
    (hclosed : ∀ s, block s ∈ xs → s.closer.isSome = true) : xs.flatMap (added g) = [] := by
  rw [List.flatMap_eq_nil_iff]
  intro x hx
  cases x with
  | code _ => rfl
  | block s =>
    have hcontent : s.content.flatMap g.addedOn = [] := by
      rw [List.flatMap_eq_nil_iff]
      intro line _
      rw [Grammar.addedOn, hleader]
      exact ite_self _
    show s.content.flatMap g.addedOn ++ _ = []
    rw [hcontent, if_pos (hclosed s hx)]
    rfl

/-- What a block without leader shows, and shows once it is written, if it is not
closed. -/
theorem BlockLines.visible_of_open {g : Grammar} (hg : g.Tidy) {s : BlockLines} (hs : s.Fits g)
    {token : Text} (hcloser : g.closer = some token) (hleader : g.leader = none)
    (hopen : s.closer = none) :
    (Stretch.block s).visible
        = Text.visible (g.opener.getD []) ++ s.content.flatMap Text.visible ∧
      (Stretch.block s).visibleWritten g
        = Text.visible (g.opener.getD []) ++ (s.content.flatMap Text.visible
          ++ Text.visible token) := by
  have halone : g.openerAlone = true := by
    obtain ⟨opener, hopener⟩ := Option.isSome_iff_exists.1 hs.hasComments
    rw [Grammar.openerAlone, hopener, hcloser]
    rfl
  obtain ⟨line, hline⟩ := Option.isSome_iff_exists.1 (hs.opener_isSome.trans halone)
  have hopener : s.opener.toList.flatMap Text.visible = Text.visible (g.opener.getD []) := by
    rw [hline, Option.toList_some, List.flatMap_singleton]
    exact hg.visible_of_opens halone (hs.opens line hline)
  have hcontent : s.writtenContent g = s.content := by
    refine List.map_id'' (fun l => ?_) s.content
    rw [hg.writeContent_of_leader_eq_none hleader,
      Grammar.Tidy.contentOn_of_leader_eq_none hleader]
  constructor
  · show (s.opener.toList ++ s.content ++ s.closer.toList).flatMap Text.visible = _
    rw [hopen, Option.toList_none, List.append_nil, List.flatMap_append, hopener]
  · show (s.read g).written.flatMap Text.visible = _
    rw [written_read, hcontent, List.flatMap_append, List.flatMap_append, visible_opener hg hs,
      hopener, visible_writtenCloser hg hs, hcloser, List.append_assoc]
    rfl

/-- The tokens of markup: what opens a block starts with a character that the closer
lacks. -/
theorem Language.opener_of_leader_eq_none (l : Language) {token : Text}
    (hleader : l.grammar.leader = none) (hcloser : l.grammar.closer = some token) :
    ∃ rest, Text.visible (l.grammar.opener.getD []) = '<' :: rest ∧
      (Text.visible token).count '<' = 0 := by
  have htokens : l.grammar.leader = none → l.grammar.closer.isSome = true →
      (Text.visible (l.grammar.opener.getD [])).head? = some '<' ∧
        (Text.visible (l.grammar.closer.getD [])).count '<' = 0 := by
    cases l <;> decide
  obtain ⟨hhead, hcount⟩ := htokens hleader (by rw [hcloser]; rfl)
  rw [hcloser] at hcount
  obtain ⟨rest, hrest⟩ := List.head?_eq_some_iff.1 hhead
  exact ⟨rest, hrest, hcount⟩

namespace Document

/-- **Without leaders, what is kept tells that nothing is lost.** A closer may be
added to the last block, but then the opener of that block cuts both texts. -/
theorem lost_eq_nil_of_leader_eq_none (l : Language) {t token : Text}
    (hleader : l.grammar.leader = none) (hcloser : l.grammar.closer = some token)
    (hkept : (Text.visible t).Sublist (Text.visible (ofText l.grammar t).render)) :
    lost l.grammar t = [] := by
  have hg := l.tidy
  have hfits : ∀ x ∈ stretches l.grammar t, x.Fits l.grammar := fun _ => fits_of_mem_stretches
  have hbare : ∀ line ∈ Text.bareLines t, '\n' ∉ line := fun _ => Text.notMem_of_mem_bareLines
  obtain ⟨init, tail, heq, hclosed, htail⟩ :=
    exists_stretchesFrom_eq_append hcloser .between trivial hbare
  have hstretches : stretches l.grammar t = init ++ tail := heq
  rw [← flatMap_visible_stretches l.grammar, ← flatMap_visibleWritten_stretches] at hkept
  rw [lost]
  rw [hstretches] at hfits hkept ⊢
  have hinit : ∀ x ∈ init, x.Fits l.grammar := fun x hx => hfits x (List.mem_append_left _ hx)
  have hadded := Stretch.flatMap_added_eq_nil hleader hclosed
  rcases htail with rfl | ⟨s, rfl, hopen⟩
  · rw [List.append_nil] at hkept ⊢
    exact Stretch.flatMap_lost_eq_nil hg hinit (by simp [hadded]) hkept
  · have hs : s.Fits l.grammar := hfits (.block s) (by simp)
    obtain ⟨hread, hwritten⟩ := BlockLines.visible_of_open hg hs hcloser hleader hopen
    obtain ⟨rest, hopener, hmark⟩ := l.opener_of_leader_eq_none hleader hcloser
    -- before the opener of the last block both texts show as many marks
    have hbalance := Stretch.count_visible hg hinit '<'
    rw [hadded, List.count_nil] at hbalance
    rw [List.flatMap_append, List.flatMap_append, List.flatMap_singleton, List.flatMap_singleton,
      hread, hwritten, hopener, List.cons_append, List.cons_append] at hkept
    have hfront : (init.flatMap Stretch.visible).Sublist
        (init.flatMap (Stretch.visibleWritten l.grammar)) := by
      refine Text.sublist_of_append_cons_sublist hkept (by omega) ?_
      simp only [List.count_append, hmark]
      omega
    rw [List.flatMap_append, Stretch.flatMap_lost_eq_nil hg hinit (by simp [hadded]) hfront,
      List.flatMap_singleton]
    show s.closer.elim [] l.grammar.lostOn = []
    rw [hopen]
    rfl

/-- Every closer of a text stands alone on its line. -/
def ClosersAlone (g : Grammar) (t : Text) : Prop :=
  ∀ s, Stretch.block s ∈ stretches g t → ∀ line ∈ s.closer, g.ClosesAlone line

theorem lost_eq_nil_iff (g : Grammar) (t : Text) : lost g t = [] ↔ ClosersAlone g t :=
  Stretch.flatMap_lost_eq_nil_iff fun _ => fits_of_mem_stretches

/-- Where every closer stands alone, what a text shows is kept. -/
theorem visible_sublist_of_closersAlone {g : Grammar} (hg : g.Tidy) {t : Text}
    (h : ClosersAlone g t) :
    (Text.visible t).Sublist (Text.visible (ofText g t).render) := by
  have hlines := (forall_mem_zip_iff hg .between trivial fun _ => Text.notMem_of_mem_bareLines).2 h
  rw [render_ofText, Text.visible_ofLines, ← Text.flatMap_visible_bareLines t]
  exact Text.flatMap_visible_sublist (length_le_length_relay g none _) hlines

/-- Where no added leader can stand in for what is lost, what is kept tells that every
closer stands alone. -/
theorem closersAlone_of_visible_sublist (l : Language) {t : Text}
    (hadded : l.grammar ≠ Language.starred ∨ ∀ c ∈ lost l.grammar t, c ∉ added l.grammar t)
    (hkept : (Text.visible t).Sublist (Text.visible (ofText l.grammar t).render)) :
    ClosersAlone l.grammar t := by
  rw [← lost_eq_nil_iff]
  rcases hadded with hstarred | hadded
  · cases hcloser : l.grammar.closer with
    | none =>
      rw [lost_eq_nil_iff]
      intro s hs line hline
      have hfits : s.Fits l.grammar := fits_of_mem_stretches hs
      rw [hfits.closer_eq_none hcloser] at hline
      cases hline
    | some token =>
      cases hleader : l.grammar.leader with
      | none => exact lost_eq_nil_of_leader_eq_none l hleader hcloser hkept
      | some leader =>
        exact absurd (l.eq_starred (by rw [hleader]; rfl) (by rw [hcloser]; rfl)) hstarred
  · rw [← flatMap_visible_stretches l.grammar, ← flatMap_visibleWritten_stretches] at hkept
    exact Stretch.flatMap_lost_eq_nil l.tidy (fun _ => fits_of_mem_stretches) hadded hkept

/-- **What rendering keeps.** Every line of a text is rendered as one line, and all
keep their visible characters if and only if every closer stands alone on its
line; then the text keeps them too. A text keeps them only then, outside the
starred languages, and there unless some character is both lost before a closer
and added in a token. The balance of every character is exact: rendering drops
what stands before closers and adds leaders and closers. -/
theorem visible_kept_iff_closersAlone (l : Language) (t : Text) :
    ((∀ p ∈ (Text.bareLines t).zip (Text.bareLines (ofText l.grammar t).render),
        (Text.visible p.1).Sublist (Text.visible p.2)) ↔ ClosersAlone l.grammar t) ∧
    (ClosersAlone l.grammar t →
      (Text.visible t).Sublist (Text.visible (ofText l.grammar t).render)) ∧
    ((l.grammar ≠ Language.starred ∨ ∀ c ∈ lost l.grammar t, c ∉ added l.grammar t) →
      ((Text.visible t).Sublist (Text.visible (ofText l.grammar t).render) ↔
        ClosersAlone l.grammar t)) ∧
    ∀ c, (Text.visible (ofText l.grammar t).render).count c + (lost l.grammar t).count c
      = (Text.visible t).count c + (added l.grammar t).count c := by
  refine ⟨?_, visible_sublist_of_closersAlone l.tidy, fun hadded => ?_, ?_⟩
  · rw [bareLines_render l.tidy]
    exact forall_mem_zip_iff l.tidy .between trivial fun _ => Text.notMem_of_mem_bareLines
  · exact ⟨closersAlone_of_visible_sublist l hadded, visible_sublist_of_closersAlone l.tidy⟩
  · exact count_visible_render l.tidy t

/-- Words before a closer are lost. -/
example : (ofText Language.java.grammar "/*\n * lost */\n".toList).render = "/*\n */\n".toList ∧
    lost Language.java.grammar "/*\n * lost */\n".toList = "*lost".toList := by decide

end Document

end LicenseHeader
