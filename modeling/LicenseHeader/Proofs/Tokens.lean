import LicenseHeader.Language.Basic

/-!
# Which lines the tokens of a grammar match

Every matcher of a grammar takes a line apart: into a margin of blanks, a token
and a rest, or into a text, a token and blanks at the end. This module says so,
one equivalence per matcher, so that nothing after it has to open one.

The equivalences for any grammar give the parts only up to the choice of the
margin, since a token may itself start with blanks. The tokens of the languages
do not: they are *solid* (`Text.Solid`), beginning and ending with a visible
character, and a solid token has only one margin. What the layout theory asks of
a grammar beyond that is collected in `Grammar.Tidy`, and every language meets
it (`Language.tidy`).
-/

namespace LicenseHeader

namespace Text

/-! ## Blanks -/

@[simp] theorem isBlank_nil : isBlank [] = true := rfl

@[simp] theorem isBlank_cons (c : Char) (t : Text) :
    isBlank (c :: t) = (isSpace c && isBlank t) := List.all_cons

@[simp] theorem isBlank_append (s t : Text) : isBlank (s ++ t) = (isBlank s && isBlank t) :=
  List.all_append

@[simp] theorem isBlank_spaces (n : Nat) : isBlank (spaces n) = true := by
  unfold isBlank spaces
  rw [List.all_replicate]
  exact ite_self true

@[simp] theorem spaces_zero : spaces 0 = [] := rfl

/-- **A solid token**: its first and its last character are visible, and it stays
on one line. -/
structure Solid (token : Text) : Prop where
  /-- It starts with a visible character. -/
  starts : token.head?.any (fun c => !isSpace c) = true
  /-- It ends with a visible character. -/
  ends : token.getLast?.any (fun c => !isSpace c) = true
  /-- It holds no newline. -/
  bare : '\n' ∉ token

namespace Solid

theorem exists_cons {token : Text} (h : token.Solid) :
    ∃ c rest, token = c :: rest ∧ isSpace c = false := by
  have hstarts := h.starts
  cases token with
  | nil => cases hstarts
  | cons c rest => exact ⟨c, rest, rfl, by simpa using hstarts⟩

theorem exists_concat {token : Text} (h : token.Solid) :
    ∃ init c, token = init ++ [c] ∧ isSpace c = false := by
  have hends := h.ends
  rcases List.eq_nil_or_concat token with rfl | ⟨init, c, rfl⟩
  · cases hends
  · exact ⟨init, c, List.concat_eq_append, by simpa using hends⟩

theorem ne_nil {token : Text} (h : token.Solid) : token ≠ [] := by
  obtain ⟨c, rest, rfl, -⟩ := h.exists_cons
  exact List.cons_ne_nil c rest

/-- No line that starts with a blank starts with a solid token. -/
theorem after?_cons_eq_none {token : Text} (h : token.Solid) {c : Char} (rest : Text)
    (hc : isSpace c = true) : after? token (c :: rest) = none := by
  obtain ⟨d, token, rfl, hd⟩ := h.exists_cons
  have hne : d ≠ c := by
    rintro rfl
    rw [hd] at hc
    cases hc
  rw [after?, if_neg hne]

end Solid

end Text

namespace Grammar

/-! ## A margin, then something else -/

section Margin

variable {α : Type} {accept : Text → Option α}

theorem marginThen?_nil : marginThen? accept [] = (accept []).map fun a => ([], a) := by
  rw [marginThen?.eq_def]

theorem marginThen?_cons_of_visible {c : Char} (hc : isSpace c = false) (rest : Text) :
    marginThen? accept (c :: rest) = (accept (c :: rest)).map fun a => ([], a) := by
  rw [marginThen?.eq_def]
  dsimp only
  rw [if_neg (by rw [hc]; exact Bool.false_ne_true)]

/-- A blank belongs to the margin if anything behind it is accepted. -/
theorem marginThen?_cons_of_blank {c : Char} (hc : isSpace c = true) (rest : Text) :
    marginThen? accept (c :: rest)
      = ((marginThen? accept rest).map fun p => (c :: p.1, p.2)).or
          ((accept (c :: rest)).map fun a => ([], a)) := by
  rw [marginThen?.eq_def]
  dsimp only
  rw [if_pos hc]
  cases marginThen? accept rest <;> rfl

/-- What a match behind a margin consists of. -/
theorem marginThen?_eq_some {line m : Text} {a : α} (h : marginThen? accept line = some (m, a)) :
    ∃ rest, line = m ++ rest ∧ Text.isBlank m = true ∧ accept rest = some a := by
  induction line generalizing m with
  | nil =>
    rw [marginThen?_nil] at h
    obtain ⟨b, hb, heq⟩ := Option.map_eq_some_iff.1 h
    obtain ⟨rfl, rfl⟩ := Prod.mk.inj heq
    exact ⟨[], rfl, rfl, hb⟩
  | cons c line ih =>
    have hhere : (accept (c :: line)).map (fun a => (([] : Text), a)) = some (m, a) →
        ∃ rest, c :: line = m ++ rest ∧ Text.isBlank m = true ∧ accept rest = some a := by
      intro h
      obtain ⟨b, hb, heq⟩ := Option.map_eq_some_iff.1 h
      obtain ⟨rfl, rfl⟩ := Prod.mk.inj heq
      exact ⟨c :: line, rfl, rfl, hb⟩
    cases hc : isSpace c with
    | false => exact hhere (marginThen?_cons_of_visible hc line ▸ h)
    | true =>
      rw [marginThen?_cons_of_blank hc, Option.or_eq_some_iff] at h
      rcases h with h | ⟨-, h⟩
      · obtain ⟨⟨margin, b⟩, hinner, heq⟩ := Option.map_eq_some_iff.1 h
        obtain ⟨rfl, rfl⟩ := Prod.mk.inj heq
        obtain ⟨rest, rfl, hblank, haccept⟩ := ih hinner
        exact ⟨rest, rfl, by rw [Text.isBlank_cons, hc, hblank]; rfl, haccept⟩
      · exact hhere h

/-- A match behind some margin is found, if perhaps behind a longer one. -/
theorem isSome_marginThen? {m rest : Text} (hm : Text.isBlank m = true)
    (h : (accept rest).isSome = true) : (marginThen? accept (m ++ rest)).isSome = true := by
  induction m with
  | nil =>
    rw [List.nil_append]
    cases rest with
    | nil => rw [marginThen?_nil, Option.isSome_map]; exact h
    | cons c rest =>
      cases hc : isSpace c with
      | false => rw [marginThen?_cons_of_visible hc, Option.isSome_map]; exact h
      | true =>
        rw [marginThen?_cons_of_blank hc, Option.isSome_or, Option.isSome_map, Option.isSome_map, h]
        exact Bool.or_true _
  | cons c m ih =>
    obtain ⟨hc, hm⟩ := Bool.and_eq_true_iff.1 ((Text.isBlank_cons c m).symm.trans hm)
    rw [List.cons_append, marginThen?_cons_of_blank hc, Option.isSome_or, Option.isSome_map, ih hm]
    rfl

/-- **A line is matched behind a margin if it can be.** -/
theorem isSome_marginThen?_iff {line : Text} :
    (marginThen? accept line).isSome = true ↔
      ∃ m rest, line = m ++ rest ∧ Text.isBlank m = true ∧ (accept rest).isSome = true := by
  constructor
  · intro h
    obtain ⟨⟨m, a⟩, hm⟩ := Option.isSome_iff_exists.1 h
    obtain ⟨rest, hline, hblank, haccept⟩ := marginThen?_eq_some hm
    exact ⟨m, rest, hline, hblank, by rw [haccept]; rfl⟩
  · rintro ⟨m, rest, rfl, hblank, haccept⟩
    exact isSome_marginThen? hblank haccept

/-- **There is one margin** where the match does not start with a blank. -/
theorem marginThen?_eq_some_iff
    (hvisible : ∀ (c : Char) (rest : Text), isSpace c = true → accept (c :: rest) = none)
    {line m : Text} {a : α} :
    marginThen? accept line = some (m, a) ↔
      ∃ rest, line = m ++ rest ∧ Text.isBlank m = true ∧ accept rest = some a := by
  refine ⟨marginThen?_eq_some, ?_⟩
  rintro ⟨rest, rfl, hblank, haccept⟩
  induction m with
  | nil =>
    rw [List.nil_append]
    cases rest with
    | nil => rw [marginThen?_nil, haccept]; rfl
    | cons c rest =>
      have hc : isSpace c = false := by
        rw [Bool.eq_false_iff]
        intro hc
        rw [hvisible c rest hc] at haccept
        cases haccept
      rw [marginThen?_cons_of_visible hc, haccept]
      rfl
  | cons c m ih =>
    obtain ⟨hc, hm⟩ := Bool.and_eq_true_iff.1 ((Text.isBlank_cons c m).symm.trans hblank)
    rw [List.cons_append, marginThen?_cons_of_blank hc, ih hm]
    rfl

end Margin

/-! ## A token and what follows it -/

/-- A token followed by blanks only. -/
theorem afterThenBlank?_eq_some_iff {token text rest : Text} :
    afterThenBlank? token text = some rest ↔
      text = token ++ rest ∧ Text.isBlank rest = true := by
  rw [afterThenBlank?, Option.filter_eq_some_iff, Text.after?_eq_some_iff]

theorem afterOnLine?_eq_some_iff {token text rest : Text} :
    afterOnLine? token text = some rest ↔ text = token ++ rest ∧ '\n' ∉ rest := by
  rw [afterOnLine?, Option.filter_eq_some_iff, Text.after?_eq_some_iff, Bool.not_eq_true',
    List.contains_eq_mem, decide_eq_false_iff_not]

/-- **A line ends with a token** if there are only blanks behind it. -/
theorem endsWithToken_eq_true_iff {token line : Text} :
    endsWithToken token line = true ↔
      ∃ before behind, line = before ++ token ++ behind ∧ Text.isBlank behind = true := by
  induction line with
  | nil =>
    rw [endsWithToken, Option.isSome_iff_exists]
    constructor
    · rintro ⟨behind, h⟩
      obtain ⟨hline, hblank⟩ := afterThenBlank?_eq_some_iff.1 h
      exact ⟨[], behind, hline, hblank⟩
    · rintro ⟨before, behind, hline, hblank⟩
      obtain ⟨hleft, rfl⟩ := List.append_eq_nil_iff.1 hline.symm
      obtain ⟨rfl, rfl⟩ := List.append_eq_nil_iff.1 hleft
      exact ⟨[], rfl⟩
  | cons c line ih =>
    rw [endsWithToken, Bool.or_eq_true, ih, Option.isSome_iff_exists]
    constructor
    · rintro (⟨behind, h⟩ | ⟨before, behind, hline, hblank⟩)
      · obtain ⟨hline, hblank⟩ := afterThenBlank?_eq_some_iff.1 h
        exact ⟨[], behind, hline, hblank⟩
      · exact ⟨c :: before, behind, by rw [hline]; rfl, hblank⟩
    · rintro ⟨before, behind, hline, hblank⟩
      cases before with
      | nil => exact .inl ⟨behind, afterThenBlank?_eq_some_iff.2 ⟨hline, hblank⟩⟩
      | cons d before =>
        obtain ⟨-, hline⟩ := List.cons.inj hline
        exact .inr ⟨before, behind, hline, hblank⟩

/-! ## The tokens of a grammar -/

/-- **A grammar whose written blocks can be read again.** Its tokens are solid, it
has no trailer, and where the margin of a block is read, nothing but the margin
is written. -/
structure Tidy (g : Grammar) : Prop where
  /-- The opener is solid. -/
  opener_solid : ∀ token ∈ g.opener, token.Solid
  /-- The closer is solid. -/
  closer_solid : ∀ token ∈ g.closer, token.Solid
  /-- The leader is solid. -/
  leader_solid : ∀ token ∈ g.leader, token.Solid
  /-- Lines have no trailer. -/
  trailer_eq : g.trailer = none
  /-- A lone opener stands right behind the margin. -/
  beforeOpener_eq : g.indent.beforeOpener = 0
  /-- An opener that is not alone is the leader. -/
  opener_eq : g.openerAlone = false → g.opener = g.leader
  /-- A leader that opens blocks stands right behind the margin. -/
  beforeLeader_eq : g.openerAlone = false → g.indent.beforeLeader = 0

section Lines

variable {g : Grammar} {line m rest : Text}

/-- A grammar with a closer and an opener has its opener alone on its line. -/
theorem closer_eq_none {token : Text} (hopener : g.opener = some token)
    (halone : g.openerAlone = false) : g.closer = none := by
  unfold openerAlone at halone
  rw [hopener] at halone
  cases hcloser : g.closer with
  | none => rfl
  | some c => rw [hcloser] at halone; cases halone

/-- The lines that close a block. -/
theorem closes_eq_true_iff :
    g.closes line = true ↔ ∃ token, g.closer = some token ∧
      ∃ before behind, line = before ++ token ++ behind ∧ Text.isBlank behind = true := by
  rw [closes, Option.any_eq_true]
  refine exists_congr fun token => and_congr_right fun _ => endsWithToken_eq_true_iff

theorem closes_append (h : g.closes rest = true) (before : Text) :
    g.closes (before ++ rest) = true := by
  obtain ⟨token, hcloser, start, behind, rfl, hblank⟩ := closes_eq_true_iff.1 h
  refine closes_eq_true_iff.2 ⟨token, hcloser, before ++ start, behind, ?_, hblank⟩
  rw [List.append_assoc, List.append_assoc, List.append_assoc]

theorem closes_eq_false_of_closer (h : g.closer = none) (line : Text) : g.closes line = false := by
  rw [closes, h]
  rfl

/-- The margin of a line with a lone opener. -/
theorem Tidy.openerMargin?_eq_some_iff (hg : g.Tidy) {token : Text}
    (hopener : g.opener = some token) (halone : g.openerAlone = true) :
    g.openerMargin? line = some m ↔ Text.isBlank m = true ∧
      ∃ behind, line = m ++ token ++ behind ∧ Text.isBlank behind = true := by
  have hvisible : ∀ (c : Char) (rest : Text), isSpace c = true →
      afterThenBlank? token (c :: rest) = none := by
    intro c rest hc
    rw [afterThenBlank?, (hg.opener_solid token hopener).after?_cons_eq_none rest hc]
    rfl
  rw [openerMargin?, hopener, Option.bind_some, if_pos halone, Option.map_eq_some_iff]
  constructor
  · rintro ⟨⟨m', behind⟩, hmatch, rfl⟩
    obtain ⟨rest, rfl, hblank, haccept⟩ := (marginThen?_eq_some_iff hvisible).1 hmatch
    obtain ⟨rfl, hbehind⟩ := afterThenBlank?_eq_some_iff.1 haccept
    exact ⟨hblank, behind, (List.append_assoc _ _ _).symm, hbehind⟩
  · rintro ⟨hblank, behind, rfl, hbehind⟩
    refine ⟨(m, behind),
      (marginThen?_eq_some_iff hvisible).2 ⟨token ++ behind, ?_, hblank, ?_⟩, rfl⟩
    · rw [List.append_assoc]
    · exact afterThenBlank?_eq_some_iff.2 ⟨rfl, hbehind⟩

/-- The margin and the rest of a line with a solid leader. -/
theorem leaderRest?_eq_some_iff_of_solid {token : Text} (hleader : g.leader = some token)
    (hsolid : token.Solid) :
    g.leaderRest? line = some (m, rest) ↔
      Text.isBlank m = true ∧ line = m ++ token ++ rest ∧ '\n' ∉ rest := by
  have hvisible : ∀ (c : Char) (rest : Text), isSpace c = true →
      afterOnLine? token (c :: rest) = none := by
    intro c rest hc
    rw [afterOnLine?, hsolid.after?_cons_eq_none rest hc]
    rfl
  rw [leaderRest?, hleader, Option.bind_some, marginThen?_eq_some_iff hvisible]
  constructor
  · rintro ⟨tail, rfl, hblank, haccept⟩
    obtain ⟨rfl, hbare⟩ := afterOnLine?_eq_some_iff.1 haccept
    exact ⟨hblank, (List.append_assoc _ _ _).symm, hbare⟩
  · rintro ⟨hblank, rfl, hbare⟩
    refine ⟨token ++ rest, List.append_assoc _ _ _, hblank, ?_⟩
    exact afterOnLine?_eq_some_iff.2 ⟨rfl, hbare⟩

/-- The margin and the rest of a line with the leader. -/
theorem Tidy.leaderRest?_eq_some_iff (hg : g.Tidy) {token : Text}
    (hleader : g.leader = some token) :
    g.leaderRest? line = some (m, rest) ↔
      Text.isBlank m = true ∧ line = m ++ token ++ rest ∧ '\n' ∉ rest :=
  leaderRest?_eq_some_iff_of_solid hleader (hg.leader_solid token hleader)

/-- Where the leader opens a block, the margin before it is the block's. -/
theorem Tidy.openerMargin?_eq_leaderRest? (hg : g.Tidy) (halone : g.openerAlone = false)
    (hline : '\n' ∉ line) : g.openerMargin? line = (g.leaderRest? line).map Prod.fst := by
  rw [openerMargin?, leaderRest?, hg.opener_eq halone]
  cases hleader : g.leader with
  | none => rfl
  | some token =>
    have hsolid := hg.leader_solid token hleader
    rw [Option.bind_some, Option.bind_some, halone, if_neg Bool.false_ne_true]
    -- on a line without newline the two acceptors are one
    have hsame : ∀ tail, (∃ start, line = start ++ tail) →
        Text.after? token tail = afterOnLine? token tail := by
      rintro tail ⟨start, rfl⟩
      cases hafter : Text.after? token tail with
      | none => rw [afterOnLine?, hafter]; rfl
      | some rest =>
        obtain rfl := Text.after?_eq_some_iff.1 hafter
        refine (afterOnLine?_eq_some_iff.2 ⟨rfl, fun hmem => hline ?_⟩).symm
        exact List.mem_append_right _ (List.mem_append_right _ hmem)
    refine congrArg (Option.map Prod.fst) ?_
    refine Option.ext fun p => ?_
    rw [marginThen?_eq_some_iff fun c rest hc => hsolid.after?_cons_eq_none rest hc,
      marginThen?_eq_some_iff fun c rest hc => by
        rw [afterOnLine?, hsolid.after?_cons_eq_none rest hc]; rfl]
    refine exists_congr fun tail => and_congr_right fun htail => and_congr_right fun _ => ?_
    rw [hsame tail ⟨p.1, htail⟩]

end Lines

end Grammar

namespace Language

/-- The tokens of the languages are solid. -/
theorem solid_of_mem (l : Language) {token : Text}
    (h : token ∈ l.grammar.opener.toList ++ l.grammar.closer.toList ++ l.grammar.leader.toList) :
    token.Solid := by
  have hstarts : ∀ token ∈ l.grammar.opener.toList ++ l.grammar.closer.toList
      ++ l.grammar.leader.toList, token.head?.any (fun c => !isSpace c) = true := by
    cases l <;> decide
  have hends : ∀ token ∈ l.grammar.opener.toList ++ l.grammar.closer.toList
      ++ l.grammar.leader.toList, token.getLast?.any (fun c => !isSpace c) = true := by
    cases l <;> decide
  have hbare : ∀ token ∈ l.grammar.opener.toList ++ l.grammar.closer.toList
      ++ l.grammar.leader.toList, '\n' ∉ token := by
    cases l <;> decide
  exact ⟨hstarts token h, hends token h, hbare token h⟩

/-- **The syntax of every language is tidy.** -/
theorem tidy (l : Language) : l.grammar.Tidy where
  opener_solid token h := l.solid_of_mem (by simp [Option.mem_def.1 h])
  closer_solid token h := l.solid_of_mem (by simp [Option.mem_def.1 h])
  leader_solid token h := l.solid_of_mem (by simp [Option.mem_def.1 h])
  trailer_eq := by cases l <;> rfl
  beforeOpener_eq := by cases l <;> rfl
  opener_eq := by cases l <;> decide
  beforeLeader_eq := by cases l <;> decide

end Language

end LicenseHeader
