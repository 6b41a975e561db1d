import LicenseHeader.Proofs.Reformat
import LicenseHeader.Proofs.Stripping

/-!
# Reformatting and stripping do not undo each other

Reformatting and stripping do not commute: `*x` with a blank behind it is set off
from its star if it is reformatted first, since it counts as two characters, and
stays as it is if it is stripped first. But whichever comes first, the text they
leave is one that neither changes (`Action.settled_of_inTurn`).

Two facts about single lines make it so. The pass over the lines of a document
writes no blank at the end of a line that did not end in one
(`Grammar.Relaid.trimmed`), so reformatting leaves stripped lines stripped. And a
line that the pass writes as it stands is still written as it stands when it is
trimmed (`Grammar.Relaid.relaid_trimEnd`), for a blank at the end of a line takes no part
in what the line is: it opens, leads and closes as before. So stripping leaves
reformatted lines reformatted.
-/

namespace LicenseHeader

open Text (trimEnd)

/-- A gap that was not needed is not needed for the trimmed content. -/
theorem CommentBlock.leaderGap_trimEnd {content : Text} {width : Nat}
    (h : leaderGap content width = 0) : leaderGap (trimEnd content) width = 0 := by
  fun_induction leaderGap content width with
  | case1 width => exact leaderGap.eq_1 width
  | case2 width c =>
    have hone : trimEnd [c] = [] ∨ trimEnd [c] = [c] := by
      rw [show trimEnd [c] = if isSpace c then [] else [c] from List.rdropWhile_singleton isSpace c]
      split
      · exact .inl rfl
      · exact .inr rfl
    rcases hone with hone | hone
    · rw [hone, leaderGap]
    · rw [hone, leaderGap]
  | case3 content => exact leaderGap_zero _
  | case4 c d rest width hc ih =>
    by_cases hrest : trimEnd (d :: rest) = []
    · have hblank : Text.isBlank (c :: d :: rest) = true := by
        rw [Text.isBlank_cons, hc, Text.trimEnd_eq_nil_iff.1 hrest]
        rfl
      rw [Text.trimEnd_eq_nil_iff.2 hblank, leaderGap]
    · have hcons : trimEnd (c :: d :: rest) = c :: trimEnd (d :: rest) :=
        Text.trimEnd_append_of_ne_nil [c] hrest
      rw [hcons, leaderGap_cons_of_blank hc]
      exact ih h
  | case5 c d rest width hc => cases h

namespace Grammar

variable {g : Grammar} {m line content : Text}

namespace Tidy

/-! ## Trimmed lines read -/

theorem closes_trimEnd (hg : g.Tidy) (line : Text) : g.closes (trimEnd line) = g.closes line := by
  rw [Bool.eq_iff_iff, closes_eq_true_iff, closes_eq_true_iff]
  refine exists_congr fun token => and_congr_right fun hcloser => exists_congr fun before => ?_
  exact (hg.closer_solid token hcloser).ends_trimEnd_iff before line

/-- What stands behind the leader of a trimmed line is trimmed, and nothing else. -/
theorem leaderRest?_trimEnd (hg : g.Tidy) (hbare : '\n' ∉ line) :
    g.leaderRest? (trimEnd line)
      = (g.leaderRest? line).map fun p => (p.1, trimEnd p.2) := by
  cases hleader : g.leader with
  | none => rw [leaderRest?, leaderRest?, hleader]; rfl
  | some token =>
    have hsolid := hg.leader_solid token hleader
    cases hrest : g.leaderRest? line with
    | some p =>
      obtain ⟨hm, rfl, hbehind⟩ := (hg.leaderRest?_eq_some_iff hleader).1 hrest
      refine (hg.leaderRest?_eq_some_iff hleader).2 ⟨hm, ?_, Text.notMem_trimEnd hbehind⟩
      exact hsolid.trimEnd_append p.1 p.2
    | none =>
      refine Option.eq_none_iff_forall_not_mem.2 fun p hp => ?_
      -- with its blanks back, the line would have the leader too
      obtain ⟨hm, hline, -⟩ := (hg.leaderRest?_eq_some_iff hleader).1 (Option.mem_def.1 hp)
      obtain ⟨behind, heq, -⟩ := Text.exists_eq_trimEnd_append line
      have hwhole : line = p.1 ++ token ++ (p.2 ++ behind) := by
        rw [← List.append_assoc, ← hline]
        exact heq
      have hsome := (hg.leaderRest?_eq_some_iff hleader).2
        ⟨hm, hwhole, fun hmem => hbare (hwhole ▸ List.mem_append_right _ hmem)⟩
      rw [hrest] at hsome
      cases hsome

theorem leads_trimEnd (hg : g.Tidy) (hbare : '\n' ∉ line) :
    g.leads (trimEnd line) = g.leads line := by
  rw [leads, leads, hg.leaderRest?_trimEnd hbare, Option.isSome_map]

theorem openerMargin?_trimEnd (hg : g.Tidy) (hbare : '\n' ∉ line) :
    g.openerMargin? (trimEnd line) = g.openerMargin? line := by
  cases halone : g.openerAlone with
  | false =>
    rw [hg.openerMargin?_eq_leaderRest? halone hbare,
      hg.openerMargin?_eq_leaderRest? halone (Text.notMem_trimEnd hbare),
      hg.leaderRest?_trimEnd hbare, Option.map_map]
    rfl
  | true =>
    obtain ⟨token, hopener⟩ := exists_opener_of_openerAlone halone
    refine Option.ext fun m => ?_
    rw [hg.openerMargin?_eq_some_iff hopener halone, hg.openerMargin?_eq_some_iff hopener halone]
    exact and_congr_right fun _ => (hg.opener_solid token hopener).ends_trimEnd_iff m line

theorem opens_trimEnd (hg : g.Tidy) (hbare : '\n' ∉ line) :
    g.opens (trimEnd line) = g.opens line := by
  rw [opens, opens, hg.openerMargin?_trimEnd hbare]

theorem blockMargin_trimEnd (hg : g.Tidy) (hbare : '\n' ∉ line) :
    g.blockMargin (trimEnd line) = g.blockMargin line := by
  rw [blockMargin, blockMargin, hg.openerMargin?_trimEnd hbare, hg.leaderRest?_trimEnd hbare,
    Option.map_map]
  rfl

/-- The content of a trimmed line is the content, trimmed. -/
theorem contentOn_trimEnd (hg : g.Tidy) (hbare : '\n' ∉ line) :
    g.contentOn (trimEnd line) = trimEnd (g.contentOn line) := by
  have htrim := hg.leaderRest?_trimEnd hbare
  cases hrest : g.leaderRest? line with
  | none =>
    rw [hrest] at htrim
    rw [contentOn, contentOn, htrim, hrest]
    rfl
  | some p =>
    rw [hrest] at htrim
    rw [hg.contentOn_eq htrim, hg.contentOn_eq hrest]

/-! ## Trimmed lines written -/

/-- The content that the pass reads from a line which it writes as it stands needs no
gap. -/
theorem leaderGap_contentOn (hg : g.Tidy) {token : Text} (hleader : g.leader = some token)
    (hm : m.IsMargin) (hbare : '\n' ∉ line) (h : g.writeContent m (g.contentOn line) = line) :
    CommentBlock.leaderGap (g.contentOn line) g.indent.afterLeader = 0 := by
  have hcontent := hg.contentOn_writeContent hleader hm (hg.notMem_contentOn hbare)
  rw [h] at hcontent
  have hlength := congrArg List.length hcontent
  rw [List.length_append, Text.spaces, List.length_replicate] at hlength
  omega

/-- **A content line that is written as it stands is so trimmed.** -/
theorem writeContent_contentOn_trimEnd (hg : g.Tidy) (hm : m.IsMargin) (hbare : '\n' ∉ line)
    (h : g.writeContent m (g.contentOn line) = line) :
    g.writeContent m (g.contentOn (trimEnd line)) = trimEnd line := by
  rw [hg.contentOn_trimEnd hbare]
  cases hleader : g.leader with
  | none =>
    rw [hg.writeContent_of_leader_eq_none hleader, contentOn_of_leader_eq_none hleader]
  | some token =>
    have hgap := hg.leaderGap_contentOn hleader hm hbare h
    rw [hg.writeContent_eq hleader, hgap, Text.spaces_zero, List.nil_append] at h
    rw [hg.writeContent_eq hleader, CommentBlock.leaderGap_trimEnd hgap, Text.spaces_zero,
      List.nil_append, ← (hg.leader_solid token hleader).trimEnd_append, h]

theorem trimEnd_writeContent (hg : g.Tidy) (m : Text) (h : trimEnd content = content) :
    trimEnd (g.writeContent m content) = g.writeContent m content := by
  cases hleader : g.leader with
  | none => rw [hg.writeContent_of_leader_eq_none hleader, h]
  | some token =>
    rw [hg.writeContent_eq hleader, (hg.leader_solid token hleader).trimEnd_append]
    refine congrArg _ ?_
    by_cases hempty : content = []
    · -- an empty content gets no gap
      rw [hempty, CommentBlock.leaderGap]
      rfl
    · rw [Text.trimEnd_append_of_ne_nil _ (h.symm ▸ hempty), h]

/-- An opener line is written without a blank at its end, apart from its return. -/
theorem trimEnd_writeOpener (hg : g.Tidy) (halone : g.openerAlone = true) (m : Text)
    (carriageReturn : Bool) :
    trimEnd (g.writeOpener m carriageReturn) = g.writeOpener m false := by
  obtain ⟨token, hopener⟩ := exists_opener_of_openerAlone halone
  rw [hg.writeOpener_eq hopener, hg.writeOpener_eq hopener,
    (hg.opener_solid token hopener).trimEnd_append,
    Text.trimEnd_eq_nil_iff.2 (isBlank_returnMark carriageReturn)]
  rfl

/-- A closing line is written without a blank at its end, apart from its return. -/
theorem trimEnd_writeCloser (hg : g.Tidy) {token : Text} (hcloser : g.closer = some token)
    (m : Text) (carriageReturn : Bool) :
    trimEnd (g.writeCloser m carriageReturn) = g.writeCloser m false := by
  rw [writeCloser_eq hcloser, writeCloser_eq hcloser,
    (hg.closer_solid token hcloser).trimEnd_append,
    Text.trimEnd_eq_nil_iff.2 (isBlank_returnMark carriageReturn)]
  rfl

/-- **The first line of a block that is written as it stands is so trimmed.** -/
theorem writeFirst_trimEnd (hg : g.Tidy) (hopens : g.opens line = true) (hbare : '\n' ∉ line)
    (h : g.writeFirst line = line) : g.writeFirst (trimEnd line) = trimEnd line := by
  unfold writeFirst at h ⊢
  rw [hg.blockMargin_trimEnd hbare]
  cases halone : g.openerAlone with
  | true =>
    rw [halone, if_pos rfl] at h
    rw [if_pos rfl, Text.endsWithChar_of_trimmed (Text.trimEnd_trimEnd line),
      ← hg.trimEnd_writeOpener halone _ (Text.endsWithChar '\r' line), h]
  | false =>
    rw [halone, if_neg Bool.false_ne_true] at h
    rw [if_neg Bool.false_ne_true]
    exact hg.writeContent_contentOn_trimEnd (hg.isMargin_blockMargin hopens hbare) hbare h

end Tidy

namespace Relaid

variable {m m' : Option Text} {w : Text}

/-- **A line that the pass writes as it stands is written so trimmed too**, and the pass
goes on from the same place. -/
theorem relaid_trimEnd (h : g.Relaid m line w m') (hw : w = line) (hg : g.Tidy)
    (hm : ∀ x ∈ m, x.IsMargin) (hbare : '\n' ∉ line) :
    g.Relaid m (trimEnd line) (trimEnd line) m' := by
  cases h with
  | code hopens => exact .code ((hg.opens_trimEnd hbare).trans hopens)
  | first hopens =>
    have hfirst := Relaid.first ((hg.opens_trimEnd hbare).trans hopens)
    rw [hg.writeFirst_trimEnd hopens hbare hw, hg.blockMargin_trimEnd hbare] at hfirst
    exact hfirst
  | @content m _ hleads hstays =>
    have hcontent := Relaid.content (m := m)
      (fun hcloser => (hg.leads_trimEnd hbare).trans (hleads hcloser))
      ((hg.closes_trimEnd line).trans hstays)
    rw [hg.writeContent_contentOn_trimEnd (hm m rfl) hbare hw] at hcontent
    exact hcontent
  | ended hcloser hleads => exact .ended hcloser ((hg.leads_trimEnd hbare).trans hleads)
  | @closed m _ hcloses =>
    obtain ⟨token, hcloser, -⟩ := closes_eq_true_iff.1 hcloses
    have hclosed := Relaid.closed (m := m) ((hg.closes_trimEnd line).trans hcloses)
    rw [Text.endsWithChar_of_trimmed (Text.trimEnd_trimEnd line),
      ← hg.trimEnd_writeCloser hcloser m (Text.endsWithChar '\r' line), hw] at hclosed
    exact hclosed

/-- **The pass writes no blank at the end of a line that has none there.** -/
theorem trimmed (h : g.Relaid m line w m') (hg : g.Tidy) (hbare : '\n' ∉ line)
    (hline : trimEnd line = line) : trimEnd w = w := by
  have hreturn := Text.endsWithChar_of_trimmed hline
  have hcontent : trimEnd (g.contentOn line) = g.contentOn line := by
    rw [← hg.contentOn_trimEnd hbare, hline]
  cases h with
  | code _ => exact hline
  | first _ =>
    unfold writeFirst
    cases halone : g.openerAlone with
    | true => rw [if_pos rfl, hreturn]; exact hg.trimEnd_writeOpener halone _ false
    | false => rw [if_neg Bool.false_ne_true]; exact hg.trimEnd_writeContent _ hcontent
  | content _ _ => exact hg.trimEnd_writeContent _ hcontent
  | ended _ _ => exact hline
  | closed hcloses =>
    obtain ⟨token, hcloser, -⟩ := closes_eq_true_iff.1 hcloses
    rw [hreturn]
    exact hg.trimEnd_writeCloser hcloser _ false

end Relaid

/-! ## Whole texts -/

namespace Tidy

/-- Lines that the pass writes as they stand are written so trimmed. -/
theorem relay_map_trimEnd (hg : g.Tidy) {m : Option Text} {ls : List Text}
    (hm : ∀ x ∈ m, x.IsMargin) (hbare : ∀ line ∈ ls, '\n' ∉ line) (h : g.relay m ls = ls) :
    g.relay m (ls.map trimEnd) = ls.map trimEnd := by
  induction ls generalizing m with
  | nil => exact h
  | cons line ls ih =>
    have hline := hbare line List.mem_cons_self
    have hstep := g.relaid_relayStep m line
    rw [hstep.relay_cons] at h
    obtain ⟨hw, hrest⟩ := List.cons.inj h
    rw [List.map_cons, (hstep.relaid_trimEnd hw hg hm hline).relay_cons,
      ih (hstep.isMargin hg hm hline) (fun l hl => hbare l (List.mem_cons_of_mem _ hl)) hrest]

/-- Empty lines above all others make no difference to the pass. -/
theorem relay_dropWhile_isEmpty (hg : g.Tidy) {ls : List Text} (h : g.relay none ls = ls) :
    g.relay none (ls.dropWhile List.isEmpty) = ls.dropWhile List.isEmpty := by
  induction ls with
  | nil => rfl
  | cons line ls ih =>
    by_cases hempty : line.isEmpty = true
    · obtain rfl := List.isEmpty_iff.1 hempty
      rw [List.dropWhile_cons_of_pos hempty]
      have hstep := g.relaid_relayStep none []
      rw [hstep.relay_cons] at h
      obtain ⟨hw, hrest⟩ := List.cons.inj h
      -- an empty line opens no block, so the pass is outside of all blocks behind it
      generalize (g.relayStep none []).1 = w, (g.relayStep none []).2 = m' at hstep hw hrest
      cases hstep with
      | code _ => exact ih hrest
      | first hopens => exact absurd hw (hg.writeFirst_bare_and_ne_nil hopens (by simp)).2
    · rw [List.dropWhile_cons_of_neg hempty]
      exact h

/-- **Stripping leaves lines that the pass writes as they stand.** -/
theorem relay_stripLines (hg : g.Tidy) {ls : List Text} (hbare : ∀ line ∈ ls, '\n' ∉ line)
    (h : g.relay none ls = ls) : g.relay none (Text.stripLines ls) = Text.stripLines ls :=
  hg.relay_dropWhile_isEmpty (hg.relay_map_trimEnd (by simp) hbare h)

/-- Of trimmed lines the pass makes trimmed lines. -/
theorem trimEnd_of_mem_relay (hg : g.Tidy) {m : Option Text} {ls : List Text}
    (hbare : ∀ line ∈ ls, '\n' ∉ line) (hls : ∀ line ∈ ls, trimEnd line = line) {w : Text}
    (hw : w ∈ g.relay m ls) : trimEnd w = w := by
  induction ls generalizing m with
  | nil =>
    cases m with
    | none => cases hw
    | some m =>
      change w ∈ g.addedCloser m at hw
      unfold addedCloser at hw
      cases hcloser : g.closer with
      | none => rw [hcloser] at hw; cases hw
      | some token =>
        rw [hcloser, if_pos Option.isSome_some, List.mem_singleton] at hw
        rw [hw]
        exact hg.trimEnd_writeCloser hcloser m false
  | cons line ls ih =>
    have hstep := g.relaid_relayStep m line
    rw [hstep.relay_cons] at hw
    rcases List.mem_cons.1 hw with rfl | hw
    · exact hstep.trimmed hg (hbare line List.mem_cons_self) (hls line List.mem_cons_self)
    · exact ih (fun l hl => hbare l (List.mem_cons_of_mem _ hl))
        (fun l hl => hls l (List.mem_cons_of_mem _ hl)) hw

/-- **Of stripped lines the pass makes stripped lines.** -/
theorem stripped_relay (hg : g.Tidy) {ls : List Text} (hbare : ∀ line ∈ ls, '\n' ∉ line)
    (h : Text.Stripped ls) : Text.Stripped (g.relay none ls) where
  trimmed := fun _ hw => hg.trimEnd_of_mem_relay hbare h.trimmed hw
  top := by
    cases ls with
    | nil => simp [relay]
    | cons line ls =>
      have hstep := g.relaid_relayStep none line
      have hne : line ≠ [] := fun hnil => h.top (congrArg some hnil)
      rw [hstep.relay_cons]
      exact fun hnil => hstep.ne_nil hg (by simp) (hbare line List.mem_cons_self) hne
        (Option.some.inj hnil)

end Tidy

end Grammar

/-! ## The two actions -/

/-- A text that was stripped and then reformatted has nothing to strip. -/
theorem Layout.stripBlank_render {g : Grammar} (hg : g.Tidy) (t : Text) :
    stripBlank (Document.ofText g (stripBlank t)).render
      = (Document.ofText g (stripBlank t)).render := by
  rw [stripBlank_eq_self_iff, Document.lacksNewline_render hg, Document.bareLines_render hg,
    bareLines_stripBlank]
  refine ⟨lacksNewline_stripBlank t, hg.stripped_relay ?_ (Text.stripped_stripLines _)⟩
  exact fun _ => Text.bare_of_mem_stripLines fun _ => Text.notMem_of_mem_bareLines

/-- A text that is rendered as it stands is so when it is stripped. -/
theorem Document.render_stripBlank {g : Grammar} (hg : g.Tidy) {t : Text}
    (h : (ofText g t).render = t) :
    (ofText g (Layout.stripBlank t)).render = Layout.stripBlank t := by
  rw [render_ofText_eq_iff hg] at h ⊢
  rw [Layout.bareLines_stripBlank]
  exact hg.relay_stripLines (fun _ => Text.notMem_of_mem_bareLines) h

theorem Language.render_render (l : Language) (t : Text) :
    (Document.ofText l.grammar (Document.ofText l.grammar t).render).render
      = (Document.ofText l.grammar t).render := by
  rw [Document.render_ofText_eq_iff l.tidy, Document.bareLines_render l.tidy]
  exact l.relay_relay (by simp) (fun _ => Text.notMem_of_mem_bareLines) (.inl rfl)

namespace SourceFile

/-- A file with the text that an action leaves it. -/
def leftBy (f : SourceFile) (o : Outcome) : SourceFile := { f with text := o.newText.getD f.text }

/-- A file in a new layout has the new text, whether or not that differs. -/
theorem leftBy_relaid (f : SourceFile) (new : Text) :
    f.leftBy (.relaid f.text new) = { f with text := new } := by
  unfold Outcome.relaid leftBy
  split
  · rename_i h
    rw [h]
    rfl
  · rfl

end SourceFile

namespace Action

/-- **Actions in turn**, each on the text that the one before it left. -/
def inTurn : List Action → SourceFile → Except ActionError SourceFile
  | [], f => .ok f
  | a :: rest, f => do
    let o ← a.apply f
    inTurn rest (f.leftBy o)

/-- An action that gives a file a new layout hands on the new text. -/
theorem inTurn_cons {a : Action} {f : SourceFile} {new : Text}
    (h : a.apply f = .ok (.relaid f.text new)) (rest : List Action) :
    inTurn (a :: rest) f = inTurn rest { f with text := new } := by
  rw [inTurn, h, ← f.leftBy_relaid new]
  rfl

theorem relaid_self (t : Text) : Outcome.relaid t t = .nothing := if_pos rfl

/-- **Reformatting and stripping settle a file in either order.** Neither fails, and the
file that the two leave is one in which neither finds anything or has anything to
rewrite. -/
theorem settled_of_inTurn (l : Language) (t : Text) :
    ∃ u v, inTurn [.stripBlank, .reformat] ⟨some l, l.grammar, t⟩ = .ok u ∧
      inTurn [.reformat, .stripBlank] ⟨some l, l.grammar, t⟩ = .ok v ∧
      reformat.apply u = .ok .nothing ∧ stripBlank.apply u = .ok .nothing ∧
      reformat.apply v = .ok .nothing ∧ stripBlank.apply v = .ok .nothing := by
  have hg := l.tidy
  let u : SourceFile :=
    ⟨some l, l.grammar, (Document.ofText l.grammar (Layout.stripBlank t)).render⟩
  let v : SourceFile :=
    ⟨some l, l.grammar, Layout.stripBlank (Document.ofText l.grammar t).render⟩
  have hu : u.document.render = u.text ∧ Layout.stripBlank u.text = u.text :=
    ⟨l.render_render (Layout.stripBlank t), Layout.stripBlank_render hg t⟩
  have hv : v.document.render = v.text ∧ Layout.stripBlank v.text = v.text :=
    ⟨Document.render_stripBlank hg (l.render_render t), Layout.stripBlank_stripBlank _⟩
  have hdone : ∀ f : SourceFile, f.document.render = f.text ∧ Layout.stripBlank f.text = f.text →
      reformat.apply f = .ok .nothing ∧ stripBlank.apply f = .ok .nothing := by
    intro f hf
    constructor
    · show Except.ok (Outcome.relaid f.text f.document.render) = _
      rw [hf.1, relaid_self]
    · show Except.ok (Outcome.relaid f.text (Layout.stripBlank f.text)) = _
      rw [hf.2, relaid_self]
  refine ⟨u, v, ?_, ?_, (hdone u hu).1, (hdone u hu).2, (hdone v hv).1, (hdone v hv).2⟩
  · rw [inTurn_cons rfl, inTurn_cons rfl]
    rfl
  · rw [inTurn_cons rfl, inTurn_cons rfl]
    rfl

/-- The order does matter to which text it is. -/
example :
    let f : SourceFile := ⟨some .java, Language.java.grammar, "/*\n *x \n */\n".toList⟩
    (inTurn [.stripBlank, .reformat] f).map SourceFile.text = .ok "/*\n *x\n */\n".toList ∧
    (inTurn [.reformat, .stripBlank] f).map SourceFile.text = .ok "/*\n * x\n */\n".toList :=
  ⟨rfl, rfl⟩

end Action

end LicenseHeader
