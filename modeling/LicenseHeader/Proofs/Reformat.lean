import LicenseHeader.Action.Basic
import LicenseHeader.Proofs.EarlyClose

/-!
# Reformatting is done once

A text that was written by the pass over lines is written by it as it stands.
For most lines that is a matter of one step: a written line makes the pass do
again what it did when it wrote the line (`Grammar.Relaid.again`). The exception
is a content line that closes the block it is written in. There the second pass
leaves the block while the first stays in it, and from then on takes for code
what the first writes as content. It copies code, so it still writes what the
first wrote; that the second pass may be outside a block the first is in is the
relation `Grammar.Trails`, and it carries the induction.

`Document.render_idempotent` is the result for texts and for the action.
-/

namespace LicenseHeader

namespace Grammar

variable {g : Grammar}

/-- **A written line makes the pass do what it did before**, unless it is a content
line that closes its block. -/
theorem Relaid.again {m m' : Option Text} {line w : Text} (h : g.Relaid m line w m') (hg : g.Tidy)
    (hm : ∀ x ∈ m, x.IsMargin) (hbare : '\n' ∉ line)
    (hstays : m.isSome = true → m'.isSome = true → g.closes w = false) : g.Relaid m w w m' := by
  cases h with
  | code hopens => exact .code hopens
  | first hopens =>
    have hfirst := Relaid.first (hg.opens_writeFirst hopens hbare)
    rw [hg.writeFirst_writeFirst hopens hbare, hg.blockMargin_writeFirst hopens hbare] at hfirst
    exact hfirst
  | @content m _ hleads _ =>
    have hcontent := hg.notMem_contentOn hbare
    have hwritten := hg.writeContent_contentOn_writeContent (hm m rfl) hcontent
    have hleads' : g.closer = none → g.leads (g.writeContent m (g.contentOn line)) = true := by
      intro hcloser
      obtain ⟨token, hleader⟩ := exists_leader_of_leads (hleads hcloser)
      exact hg.leads_writeContent hleader (hm m rfl) hcontent
    have hagain := Relaid.content (m := m) hleads' (hstays rfl rfl)
    rw [hwritten] at hagain
    exact hagain
  | ended hcloser hleads => exact .ended hcloser hleads
  | @closed m _ hcloses =>
    obtain ⟨token, hcloser, -⟩ := closes_eq_true_iff.1 hcloses
    have hagain := Relaid.closed (m := m)
      (Tidy.closes_writeCloser hcloser m (Text.endsWithChar '\r' line))
    rw [hg.endsWithChar_writeCloser hcloser] at hagain
    exact hagain

/-- **Where the second pass may stand**: where the first stands, or outside the
block that the first is in. The latter is only where blocks can be closed early. -/
def Trails (g : Grammar) (m u : Option Text) : Prop := u = m ∨ g = Language.starred ∧ u = none

end Grammar

namespace Language

variable {m m' u : Option Text} {line w : Text}

/-- A line written inside a block does not close it, or it is written as the closer
itself. -/
theorem closes_eq_false_or_eq_writeCloser (l : Language) {m : Text}
    (h : l.grammar.Relaid (some m) line w m') (hm : m.IsMargin) (hm' : m'.isSome = true) :
    l.grammar.closes w = false ∨ l.grammar = starred ∧ w = l.grammar.writeCloser m false := by
  cases h with
  | ended _ _ => cases hm'
  | closed _ => cases hm'
  | content _ hstays =>
    by_cases hslash : l.grammar = starred ∧ l.grammar.contentOn line = ['/']
    · refine .inr ⟨hslash.1, ?_⟩
      rw [hslash.2, hslash.1, writeContent_slash]
    · refine .inl (Bool.eq_false_iff.2 fun hcloses => hslash ?_)
      exact (l.closes_writeContent_contentOn_iff hm hstays).1 hcloses

theorem opens_eq_false_of_relaid {m : Text} (h : starred.Relaid (some m) line w m')
    (hm : m.IsMargin) : starred.opens w = false := by
  cases h with
  | content _ _ => exact opens_writeContent hm _
  | ended hcloser _ => cases hcloser
  | closed _ => exact opens_writeCloser hm _

/-- **One line**: the second pass copies what the first writes, and trails it
still. -/
theorem relaid_of_trails (l : Language) (h : l.grammar.Relaid m line w m')
    (htrails : l.grammar.Trails m u) (hm : ∀ x ∈ m, x.IsMargin) (hbare : '\n' ∉ line) :
    ∃ u', l.grammar.Relaid u w w u' ∧ l.grammar.Trails m' u' := by
  have hg := l.tidy
  rcases htrails with rfl | ⟨hstarred, rfl⟩
  · -- both passes stand at one place
    cases u with
    | none => exact ⟨m', h.again hg hm hbare (fun hnone => by cases hnone), .inl rfl⟩
    | some m =>
      by_cases hm' : m'.isSome = true
      · rcases l.closes_eq_false_or_eq_writeCloser h (hm m rfl) hm' with hstays | ⟨hstarred, hw⟩
        · exact ⟨m', h.again hg hm hbare (fun _ _ => hstays), .inl rfl⟩
        · -- the block is closed early
          have hcloser : l.grammar.closer = some ['*', '/'] := by rw [hstarred]; rfl
          have hclosed := Grammar.Relaid.closed (m := m)
            (Grammar.Tidy.closes_writeCloser hcloser m false)
          rw [hg.endsWithChar_writeCloser hcloser] at hclosed
          rw [hw]
          exact ⟨none, hclosed, .inr ⟨hstarred, rfl⟩⟩
      · exact ⟨m', h.again hg hm hbare (fun _ hsome => absurd hsome hm'), .inl rfl⟩
  · -- the second pass has left a block that the first may still be in
    cases m with
    | none => exact ⟨m', h.again hg hm hbare (fun hnone => by cases hnone), .inl rfl⟩
    | some m =>
      rw [hstarred] at h ⊢
      exact ⟨none, .code (opens_eq_false_of_relaid h (hm m rfl)), .inr ⟨rfl, rfl⟩⟩

/-- Where the text ends, the second pass copies the closing line that the first
added. -/
theorem relay_addedCloser (l : Language) {m : Text} (hm : m.IsMargin)
    (htrails : l.grammar.Trails (some m) u) :
    l.grammar.relay u (l.grammar.addedCloser m) = l.grammar.addedCloser m := by
  have hg := l.tidy
  unfold Grammar.addedCloser
  cases hcloser : l.grammar.closer with
  | none =>
    rcases htrails with rfl | ⟨hstarred, rfl⟩
    · show l.grammar.addedCloser m = []
      rw [Grammar.addedCloser, hcloser]
      rfl
    · rfl
  | some closer =>
    rw [if_pos Option.isSome_some]
    rcases htrails with rfl | ⟨hstarred, rfl⟩
    · have hclosed := Grammar.Relaid.closed (m := m)
        (Grammar.Tidy.closes_writeCloser hcloser m false)
      rw [hclosed.relay_cons, hg.endsWithChar_writeCloser hcloser]
      rfl
    · have hopens : l.grammar.opens (l.grammar.writeCloser m false) = false := by
        rw [hstarred]
        exact opens_writeCloser hm false
      rw [(Grammar.Relaid.code hopens).relay_cons]
      rfl

/-- **The second pass copies what the first writes.** -/
theorem relay_relay (l : Language) {ls : List Text} (hm : ∀ x ∈ m, x.IsMargin)
    (hbare : ∀ line ∈ ls, '\n' ∉ line) (htrails : l.grammar.Trails m u) :
    l.grammar.relay u (l.grammar.relay m ls) = l.grammar.relay m ls := by
  induction ls generalizing m u with
  | nil =>
    cases m with
    | some m => exact l.relay_addedCloser (hm m rfl) htrails
    | none =>
      rcases htrails with rfl | ⟨-, rfl⟩
      · rfl
      · rfl
  | cons line ls ih =>
    have hline := hbare line List.mem_cons_self
    have hstep := l.grammar.relaid_relayStep m line
    obtain ⟨u', hagain, htrails'⟩ := l.relaid_of_trails hstep htrails hm hline
    rw [hstep.relay_cons, hagain.relay_cons,
      ih (hstep.isMargin l.tidy hm hline) (fun l' hl' => hbare l' (List.mem_cons_of_mem _ hl'))
        htrails']

end Language

/-- The new text that reformatting gives a file is its document, rendered. -/
theorem Action.render_eq_of_reformat {f : SourceFile} {findings : List Finding} {r : Text}
    (h : Action.reformat.apply f = .ok ⟨findings, some r⟩) : f.document.render = r := by
  have houtcome : Outcome.relaid f.text f.document.render = ⟨findings, some r⟩ := Except.ok.inj h
  unfold Outcome.relaid at houtcome
  split at houtcome
  · cases houtcome
  · exact Option.some.inj (congrArg Outcome.newText houtcome)

namespace Document

/-- **Reformatting is done once.** A rendered text is rendered as it stands, so when
reformatting gives a file a new text, reformatting that finds nothing to do. -/
theorem render_idempotent (l : Language) (t : Text) :
    (ofText l.grammar (ofText l.grammar t).render).render = (ofText l.grammar t).render ∧
    ∀ findings r,
      Action.reformat.apply ⟨some l, l.grammar, t⟩ = .ok ⟨findings, some r⟩ →
        Action.reformat.apply ⟨some l, l.grammar, r⟩ = .ok ⟨[], none⟩ := by
  have hrender : (ofText l.grammar (ofText l.grammar t).render).render
      = (ofText l.grammar t).render := by
    rw [render_ofText_eq_iff l.tidy, bareLines_render l.tidy]
    exact l.relay_relay (by simp) (fun _ => Text.notMem_of_mem_bareLines) (.inl rfl)
  refine ⟨hrender, fun findings r h => ?_⟩
  have hnew : (ofText l.grammar t).render = r := Action.render_eq_of_reformat h
  show Except.ok (Outcome.relaid r (ofText l.grammar r).render) = .ok Outcome.nothing
  rw [← hnew, hrender, Outcome.relaid, if_pos rfl]

/-- Also where the new text is cut into other segments than the old one was. -/
example :
    Action.reformat.apply ⟨some .java, Language.java.grammar, "/*\n/\n * foo\n */\n".toList⟩
      = .ok ⟨[.reformatted], some "/*\n */\n * foo\n */\n".toList⟩ ∧
    Action.reformat.apply ⟨some .java, Language.java.grammar, "/*\n */\n * foo\n */\n".toList⟩
      = .ok ⟨[], none⟩ := ⟨rfl, rfl⟩

end Document

end LicenseHeader
