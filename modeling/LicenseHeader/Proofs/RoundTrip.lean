import LicenseHeader.Proofs.Reread

/-!
# Which texts are rendered as they are

A block is in *canonical layout* (`BlockLines.IsCanonical`) if its lines are the
ones its grammar prescribes: the opener right behind the margin, every content
line behind the same margin, the leader and a gap, and a closing line of the same
kind. Blocks without a leader may hold any content.

Reading a text and writing it again gives the text back exactly if every comment
block in it is in canonical layout (`Document.render_eq_self_iff_isCanonical`).
One direction is plain. For the other, the lines of a text and the lines it is
written as are cut at the same places: a stretch is written as at least as many
lines as it has, so where the whole agrees every part does.
-/

namespace LicenseHeader

/-! ## Lists that are cut alike -/

section Cut

variable {α β γ δ : Type} {p : α → δ} {q : β → δ} {f : α → List γ} {g : β → List γ}

/-- Parts that are no longer make a whole that is no longer. -/
theorem length_flatMap_le_of_map_eq {xs : List α} {ys : List β} (hmap : xs.map p = ys.map q)
    (hlen : ∀ x ∈ xs, ∀ y ∈ ys, p x = q y → (g y).length ≤ (f x).length) :
    (ys.flatMap g).length ≤ (xs.flatMap f).length := by
  induction xs generalizing ys with
  | nil =>
    obtain rfl := List.map_eq_nil_iff.1 hmap.symm
    exact Nat.le_refl _
  | cons x xs ih =>
    cases ys with
    | nil => cases hmap
    | cons y ys =>
      obtain ⟨hhead, htail⟩ := List.cons.inj hmap
      have hx := hlen x List.mem_cons_self y List.mem_cons_self hhead
      have hxs := ih htail fun x' hx' y' hy' =>
        hlen x' (List.mem_cons_of_mem _ hx') y' (List.mem_cons_of_mem _ hy')
      rw [List.flatMap_cons, List.flatMap_cons, List.length_append, List.length_append]
      exact Nat.add_le_add hx hxs

/-- **Equal wholes have equal parts**, where the parts of the one are no longer than
the corresponding parts of the other. -/
theorem map_eq_map_of_flatMap_eq {xs : List α} {ys : List β} (hmap : xs.map p = ys.map q)
    (hlen : ∀ x ∈ xs, ∀ y ∈ ys, p x = q y → (g y).length ≤ (f x).length)
    (h : xs.flatMap f = ys.flatMap g) :
    (xs.map fun x => (p x, f x)) = ys.map fun y => (q y, g y) := by
  induction xs generalizing ys with
  | nil =>
    obtain rfl := List.map_eq_nil_iff.1 hmap.symm
    rfl
  | cons x xs ih =>
    cases ys with
    | nil => cases hmap
    | cons y ys =>
      obtain ⟨hhead, htail⟩ := List.cons.inj hmap
      have hx := hlen x List.mem_cons_self y List.mem_cons_self hhead
      have hrest : ∀ x' ∈ xs, ∀ y' ∈ ys, p x' = q y' → (g y').length ≤ (f x').length :=
        fun x' hx' y' hy' =>
          hlen x' (List.mem_cons_of_mem _ hx') y' (List.mem_cons_of_mem _ hy')
      have hxs := length_flatMap_le_of_map_eq htail hrest
      -- neither the first part nor the rest can be longer, so neither is shorter
      rw [List.flatMap_cons, List.flatMap_cons] at h
      have hsum := congrArg List.length h
      rw [List.length_append, List.length_append] at hsum
      obtain ⟨hfirst, hmore⟩ := List.append_inj h (by omega)
      rw [List.map_cons, List.map_cons, hhead, hfirst, ih htail hrest hmore]

end Cut

/-! ## Canonical layout -/

/-- What stands behind a leader without a gap being put before it: nothing, a
single character, or something that starts with a blank. -/
def CommentBlock.NeedsNoGap (rest : Text) : Prop :=
  rest = [] ∨ (∃ c, rest = [c]) ∨ ∃ c more, rest = c :: more ∧ isSpace c = true

/-- **The canonical layout of a block.** -/
structure BlockLines.IsCanonical (g : Grammar) (s : BlockLines) : Prop where
  /-- It is closed if the grammar has a closer. -/
  closed : g.closer.isSome = true → s.closer.isSome = true
  /-- A lone opener stands right behind the margin, and nothing but a carriage
  return behind it. -/
  opener : ∀ line ∈ s.opener, ∀ token ∈ g.opener,
    line = s.margin g ++ token ∨ line = s.margin g ++ token ++ ['\r']
  /-- Content stands behind margin, indentation, leader and gap. -/
  content : ∀ line ∈ s.content, ∀ token ∈ g.leader,
    ∃ rest, line = s.margin g ++ Text.spaces g.indent.beforeLeader ++ token ++ rest ∧
      CommentBlock.NeedsNoGap rest
  /-- The closer stands behind margin and indentation, and nothing but a carriage
  return behind it. -/
  closer : ∀ line ∈ s.closer, ∀ token ∈ g.closer,
    line = s.margin g ++ Text.spaces g.indent.beforeCloser ++ token ∨
      line = s.margin g ++ Text.spaces g.indent.beforeCloser ++ token ++ ['\r']

/-- A gap of one is left out just there. -/
theorem CommentBlock.leaderGap_one_eq_zero_iff (rest : Text) :
    leaderGap rest 1 = 0 ↔ NeedsNoGap rest := by
  unfold NeedsNoGap
  match rest with
  | [] => simp [leaderGap]
  | [c] => simp [leaderGap]
  | c :: d :: more =>
    by_cases hc : isSpace c = true
    · rw [leaderGap_cons_of_blank hc, leaderGap_zero]
      simp [hc]
    · rw [leaderGap, if_neg hc]
      simp [hc]

/-- A line of a solid token with its own return mark ends with the token or with one
carriage return behind it. -/
theorem Text.Solid.append_returnMark_eq_iff {token : Text} (h : token.Solid) (start line : Text) :
    start ++ token ++ CommentBlock.returnMark (Text.endsWithChar '\r' line) = line ↔
      line = start ++ token ∨ line = start ++ token ++ ['\r'] := by
  constructor
  · intro hline
    cases hreturn : Text.endsWithChar '\r' line with
    | false => rw [hreturn] at hline; exact .inl (hline.symm.trans (List.append_nil _))
    | true => rw [hreturn] at hline; exact .inr hline.symm
  · have hmarked : ∀ carriageReturn,
        line = start ++ token ++ CommentBlock.returnMark carriageReturn →
          start ++ token ++ CommentBlock.returnMark (Text.endsWithChar '\r' line) = line := by
      rintro carriageReturn rfl
      rw [h.endsWithChar_returnMark]
    rintro (hline | hline)
    · exact hmarked false (hline.trans (List.append_nil _).symm)
    · exact hmarked true hline

namespace Grammar

variable {g : Grammar} {m line : Text}

namespace Tidy

/-- The content lines that are written as they stand. -/
theorem writeContent_eq_self_iff (hg : g.Tidy) (hm : m.IsMargin) (hbare : '\n' ∉ line)
    {token : Text} (hleader : g.leader = some token) (hgap : g.indent.afterLeader = 1) :
    g.writeContent m (g.contentOn line) = line ↔
      ∃ rest, line = m ++ Text.spaces g.indent.beforeLeader ++ token ++ rest ∧
        CommentBlock.NeedsNoGap rest := by
  rw [hg.writeContent_eq hleader, hgap]
  constructor
  · intro h
    refine ⟨_, h.symm, ?_⟩
    rw [← CommentBlock.leaderGap_one_eq_zero_iff]
    exact CommentBlock.leaderGap_gapped _ 1
  · rintro ⟨rest, hline, hrest⟩
    have hblank : Text.isBlank (m ++ Text.spaces g.indent.beforeLeader) = true := by
      rw [Text.isBlank_append, hm.blank, Text.isBlank_spaces]
      rfl
    have hbehind : '\n' ∉ rest := by
      rw [hline] at hbare
      exact fun hmem => hbare (List.mem_append_right _ hmem)
    have hcontent : g.contentOn line = rest :=
      hg.contentOn_eq ((hg.leaderRest?_eq_some_iff hleader).2 ⟨hblank, hline, hbehind⟩)
    rw [hcontent, (CommentBlock.leaderGap_one_eq_zero_iff rest).2 hrest, Text.spaces_zero,
      List.nil_append]
    exact hline.symm

/-- Where the opener is not alone on its line, the lines that open a block are those
with the leader. -/
theorem opens_eq_leads (hg : g.Tidy) (halone : g.openerAlone = false) (hbare : '\n' ∉ line) :
    g.opens line = g.leads line := by
  rw [opens, leads, hg.openerMargin?_eq_leaderRest? halone hbare, Option.isSome_map]

end Tidy

end Grammar

namespace BlockLines

variable {g : Grammar} {s : BlockLines}

namespace Fits

theorem bare_of_mem_content (hs : s.Fits g) {line : Text} (h : line ∈ s.content) : '\n' ∉ line :=
  hs.bare line (List.mem_append_left _ (List.mem_append_right _ h))

theorem closer_eq_none (hs : s.Fits g) (h : g.closer = none) : s.closer = none := by
  cases hcloser : s.closer with
  | none => rfl
  | some line =>
    have hcloses := hs.closes line hcloser
    rw [Grammar.closes_eq_false_of_closer h] at hcloses
    cases hcloses

theorem opener_eq_none (hs : s.Fits g) (h : g.openerAlone = false) : s.opener = none := by
  rw [← Option.isNone_iff_eq_none, ← Option.not_isSome, hs.opener_isSome, h]
  rfl

theorem isMargin_margin (hs : s.Fits g) (hg : g.Tidy) : (s.margin g).IsMargin := by
  cases halone : g.openerAlone with
  | true =>
    obtain ⟨line, hopener⟩ := Option.isSome_iff_exists.1 (hs.opener_isSome.trans halone)
    have hbare : '\n' ∉ line := hs.bare line (by simp [all, hopener])
    rw [margin, hopener]
    exact hg.isMargin_blockMargin (hs.opens line hopener) hbare
  | false =>
    obtain ⟨token, hopener⟩ := Option.isSome_iff_exists.1 hs.hasComments
    cases hcontent : s.content with
    | nil => exact absurd hcontent (hs.content_ne halone)
    | cons line rest =>
      have hmem : line ∈ s.content := hcontent ▸ List.mem_cons_self
      have hbare := hs.bare_of_mem_content hmem
      have hleads := hs.leads (Grammar.closer_eq_none hopener halone) line hmem
      rw [margin, hs.opener_eq_none halone, hcontent]
      exact hg.isMargin_blockMargin ((hg.opens_eq_leads halone hbare).trans hleads) hbare

end Fits

theorem length_writtenOpener (s : BlockLines) {s' : BlockLines} (hs' : s'.Fits g) :
    (s.writtenOpener g).length = s'.opener.toList.length := by
  unfold writtenOpener
  rw [← hs'.opener_isSome]
  cases s'.opener <;> rfl

theorem length_closer_le (s : BlockLines) {s' : BlockLines} (hs' : s'.Fits g) :
    s'.closer.toList.length ≤ (s.writtenCloser g).length := by
  unfold writtenCloser
  cases hcloser : g.closer with
  | none => rw [hs'.closer_eq_none hcloser]; exact Nat.le_refl _
  | some token => cases s'.closer <;> simp

/-- The opener line is written as it stands if and only if it is canonical. -/
theorem writtenOpener_eq_iff (hg : g.Tidy) (hs : s.Fits g) :
    s.writtenOpener g = s.opener.toList ↔
      ∀ line ∈ s.opener, ∀ token ∈ g.opener,
        line = s.margin g ++ token ∨ line = s.margin g ++ token ++ ['\r'] := by
  unfold writtenOpener
  cases halone : g.openerAlone with
  | false => simp [hs.opener_eq_none halone]
  | true =>
    obtain ⟨token, hopener⟩ := Grammar.exists_opener_of_openerAlone halone
    obtain ⟨line, hline⟩ := Option.isSome_iff_exists.1 (hs.opener_isSome.trans halone)
    have hiff := (hg.opener_solid token hopener).append_returnMark_eq_iff (s.margin g) line
    rw [hline, hopener, if_pos rfl, Option.any_some, hg.writeOpener_eq hopener]
    simpa using hiff

/-- The content lines are written as they stand if and only if they are canonical. -/
theorem writtenContent_eq_iff (hg : g.Tidy) (hs : s.Fits g)
    (hgap : g.leader.isSome = true → g.indent.afterLeader = 1) :
    s.writtenContent g = s.content ↔
      ∀ line ∈ s.content, ∀ token ∈ g.leader,
        ∃ rest, line = s.margin g ++ Text.spaces g.indent.beforeLeader ++ token ++ rest ∧
          CommentBlock.NeedsNoGap rest := by
  have hself : s.writtenContent g = s.content ↔
      ∀ line ∈ s.content, g.writeContent (s.margin g) (g.contentOn line) = line := by
    have hmap := @List.map_inj_left _ _ s.content
      (fun line => g.writeContent (s.margin g) (g.contentOn line)) id
    rw [List.map_id] at hmap
    exact hmap
  rw [hself]
  refine forall_congr' fun line => forall_congr' fun hline => ?_
  cases hleader : g.leader with
  | none =>
    rw [Grammar.Tidy.contentOn_of_leader_eq_none hleader, hg.writeContent_of_leader_eq_none hleader]
    simp
  | some token =>
    rw [hg.writeContent_eq_self_iff (hs.isMargin_margin hg) (hs.bare_of_mem_content hline) hleader
      (hgap (by rw [hleader]; rfl))]
    simp

/-- There is a closing line, written as it stands, if and only if it is there and
canonical. -/
theorem writtenCloser_eq_iff (hg : g.Tidy) (hs : s.Fits g) :
    s.writtenCloser g = s.closer.toList ↔
      (g.closer.isSome = true → s.closer.isSome = true) ∧
      ∀ line ∈ s.closer, ∀ token ∈ g.closer,
        line = s.margin g ++ Text.spaces g.indent.beforeCloser ++ token ∨
          line = s.margin g ++ Text.spaces g.indent.beforeCloser ++ token ++ ['\r'] := by
  unfold writtenCloser
  cases hcloser : g.closer with
  | none => simp [hs.closer_eq_none hcloser]
  | some token =>
    rw [if_pos Option.isSome_some]
    cases hline : s.closer with
    | none => simp
    | some line =>
      have hiff := (hg.closer_solid token hcloser).append_returnMark_eq_iff
        (s.margin g ++ Text.spaces g.indent.beforeCloser) line
      rw [Option.any_some, Grammar.Tidy.writeCloser_eq hcloser]
      simpa using hiff

/-- Equal lines are equal part by part, since opener and content are written as
equally many lines. -/
theorem written_read_eq_iff {s' : BlockLines} (hs' : s'.Fits g)
    (hcontent : s.content.length = s'.content.length) :
    (s.read g).written = s'.all ↔ s.writtenOpener g = s'.opener.toList ∧
      s.writtenContent g = s'.content ∧ s.writtenCloser g = s'.closer.toList := by
  have hopener := length_writtenOpener s hs'
  rw [written_read, all]
  constructor
  · intro h
    obtain ⟨hfront, hback⟩ := List.append_inj h (by
      rw [List.length_append, List.length_append, hopener, writtenContent, List.length_map,
        hcontent])
    obtain ⟨hfirst, hmiddle⟩ := List.append_inj hfront hopener
    exact ⟨hfirst, hmiddle, hback⟩
  · rintro ⟨hfirst, hmiddle, hback⟩
    rw [hfirst, hmiddle, hback]

/-- **A block is written as the lines it was read from if and only if it is in
canonical layout.** -/
theorem written_read_eq_all_iff (hg : g.Tidy) (hs : s.Fits g)
    (hgap : g.leader.isSome = true → g.indent.afterLeader = 1) :
    (s.read g).written = s.all ↔ s.IsCanonical g := by
  rw [written_read_eq_iff hs rfl, writtenOpener_eq_iff hg hs, writtenContent_eq_iff hg hs hgap,
    writtenCloser_eq_iff hg hs]
  constructor
  · rintro ⟨hopener, hcontent, hclosed, hcloser⟩
    exact ⟨hclosed, hopener, hcontent, hcloser⟩
  · intro h
    exact ⟨h.opener, h.content, h.closed, h.closer⟩

/-- A block is written as at least as many lines as any block with as much content
has. -/
theorem length_all_le {s' : BlockLines} (hs' : s'.Fits g)
    (hcontent : s.content.length = s'.content.length) :
    s'.all.length ≤ (s.read g).written.length := by
  have hcloser := length_closer_le s hs'
  rw [written_read, all]
  simp only [List.length_append, length_writtenOpener s hs', writtenContent, List.length_map,
    hcontent]
  omega

end BlockLines

/-- A stretch is written as at least as many lines as it has. -/
theorem Stretch.length_lines_le {g : Grammar} {x : Stretch} (hx : x.Fits g) :
    x.lines.length ≤ (x.written g).length := by
  cases x with
  | block s => exact BlockLines.length_all_le hx rfl
  | code ls => exact Nat.le_refl _

/-- Contents are set off from leaders by one blank. -/
theorem Language.afterLeader_eq (l : Language) (h : l.grammar.leader.isSome = true) :
    l.grammar.indent.afterLeader = 1 := by
  revert h
  cases l <;> decide

namespace Document

/-- The pass leaves the lines of a text alone if and only if every stretch is written
as the lines it has. -/
theorem relay_bareLines_eq_iff (g : Grammar) (t : Text) :
    g.relay none (Text.bareLines t) = Text.bareLines t ↔
      ∀ x ∈ stretches g t, x.written g = x.lines := by
  rw [← flatMap_written_stretches, ← flatMap_lines_stretches g t]
  constructor
  · intro h
    have hparts := map_eq_map_of_flatMap_eq (p := id) (q := id) rfl (by
      rintro x hx y - rfl
      exact Stretch.length_lines_le (fits_of_mem_stretches hx)) h
    intro x hx
    exact (Prod.mk.inj (List.map_inj_left.1 hparts x hx)).2
  · intro h
    rw [List.flatMap_def, List.flatMap_def, List.map_congr_left h]

/-- **Exact round trip.** The stretches of a text are the lines of its segments, and
a document is rendered as the text it was read from if and only if every comment
block stands there in canonical layout. So a text without comment blocks always
is. -/
theorem render_eq_self_iff_isCanonical (l : Language) (t : Text) :
    (ofText l.grammar t).segments = (stretches l.grammar t).map (Stretch.segment l.grammar) ∧
    (stretches l.grammar t).flatMap Stretch.lines = Text.bareLines t ∧
    ((ofText l.grammar t).render = t ↔
      ∀ s, Stretch.block s ∈ stretches l.grammar t → s.IsCanonical l.grammar) ∧
    ((∀ b, Segment.comment b ∉ (ofText l.grammar t).segments) →
      (ofText l.grammar t).render = t) := by
  have hiff : (ofText l.grammar t).render = t ↔
      ∀ s, Stretch.block s ∈ stretches l.grammar t → s.IsCanonical l.grammar := by
    rw [render_ofText_eq_iff l.tidy, relay_bareLines_eq_iff]
    constructor
    · intro h s hs
      exact (BlockLines.written_read_eq_all_iff l.tidy (fits_of_mem_stretches hs)
        l.afterLeader_eq).1 (h _ hs)
    · intro h x hx
      cases x with
      | block s =>
        exact (BlockLines.written_read_eq_all_iff l.tidy (fits_of_mem_stretches hx)
          l.afterLeader_eq).2 (h s hx)
      | code ls => rfl
  refine ⟨ofText_segments l.grammar t, flatMap_lines_stretches l.grammar t, hiff, fun hnone => ?_⟩
  refine hiff.2 fun s hs => absurd ?_ (hnone (s.read l.grammar))
  rw [ofText_segments]
  exact List.mem_map_of_mem hs

end Document

end LicenseHeader
