import LicenseHeader.Path.Exclude
import LicenseHeader.Proofs.Hops

/-!
# Patterns without a slash

A pattern excludes a path by matching it as a whole or by matching its last name. A
pattern that is written without a slash is meant for names, and one might fear that it
matches more: `.*` begins like every path below the working directory, and a set such as
`[+-9]` has the slash among its members.

It never does. The tokens of such a pattern take no slash (`Pattern.ofText_cases`), and
tokens that take none match no text that has one, whatever the runs among them try
(`Pattern.notMem_of_attempt`). So a path that is matched as a whole has no slash, and is
its own last name. The one exception is the pattern of two stars alone, which takes whole
paths; but that takes every name as well.
-/

namespace LicenseHeader

/-- Whether a token can take a slash. -/
def Wildcard.takesSlash : Wildcard → Bool
  | literal c => c == '/'
  | anyNames => true
  | _ => false

theorem Path.eq_of_fileName? {p : Path} {name : Text} (hp : '/' ∉ p)
    (h : fileName? p = some name) : p = name := by
  unfold fileName? names at h
  rw [parts_of_notMem hp] at h
  obtain ⟨hlast, -⟩ := Option.filter_eq_some_iff.1 h
  have hmem : name ∈ [p] := (List.mem_filter.1 (List.mem_of_getLast? hlast)).1
  exact (List.mem_singleton.1 hmem).symm

namespace Pattern

variable {tokens done : List Wildcard} {text : Text}

/-! ## Matching -/

/-- A character that a token takes is no slash, unless the token can take one. -/
theorem ne_slash_of_accepts {w : Wildcard} {c : Char} (hw : w.takesSlash = false)
    (h : accepts w c = true) : c ≠ '/' := by
  cases w with
  | literal a =>
    rw [← eq_of_beq (show (a == c) = true from h)]
    exact ne_of_beq_false hw
  | anyChar => exact bne_iff_ne.1 h
  | anyOf negated set => exact bne_iff_ne.1 (Bool.and_eq_true_iff.1 h).1
  | anyRun => cases h
  | anyNames => cases h

/-- **What a run takes**: some characters other than slashes, before a match of the
rest. -/
theorem exists_of_run {rest : Text → Attempt} (h : run rest text = .hit) :
    ∃ taken left, text = taken ++ left ∧ '/' ∉ taken ∧ rest left = .hit := by
  induction text with
  | nil => exact ⟨[], [], rfl, List.not_mem_nil, h⟩
  | cons c text ih =>
    rw [run] at h
    split at h
    · split at h
      · cases h
      · rename_i hc
        obtain ⟨taken, left, rfl, htaken, hleft⟩ := ih h
        exact ⟨c :: taken, left, rfl, by simp [Ne.symm hc, htaken], hleft⟩
    · exact ⟨[], c :: text, rfl, List.not_mem_nil, h⟩

/-- What a token for one character takes. -/
theorem exists_of_attempt_cons {w : Wildcard} (hrun : w ≠ .anyRun) (hnames : w ≠ .anyNames)
    (h : attempt (w :: tokens) text = .hit) :
    ∃ c rest, text = c :: rest ∧ accepts w c = true ∧ attempt tokens rest = .hit := by
  cases text with
  | nil =>
    rw [attempt] at h
    · cases h
    · exact hrun
    · exact hnames
  | cons c rest =>
    have hstep : attempt (w :: tokens) (c :: rest)
        = if accepts w c then attempt tokens rest else .miss := by
      rw [attempt]
      · exact hrun
      · exact hnames
    rw [hstep] at h
    split at h
    · exact ⟨c, rest, rfl, ‹_›, h⟩
    · cases h

/-- **Tokens that take no slash match no text that has one.** -/
theorem notMem_of_attempt (htokens : ∀ w ∈ tokens, w.takesSlash = false)
    (h : attempt tokens text = .hit) : '/' ∉ text := by
  induction tokens generalizing text with
  | nil =>
    cases text with
    | nil => exact List.not_mem_nil
    | cons c text => cases h
  | cons w tokens ih =>
    obtain ⟨hw, hrest⟩ := List.forall_mem_cons.1 htokens
    by_cases hrun : w = .anyRun
    · subst hrun
      obtain ⟨taken, left, rfl, htaken, hleft⟩ := exists_of_run h
      exact fun hmem => (List.mem_append.1 hmem).elim htaken (ih hrest hleft)
    · have hnames : w ≠ .anyNames := by
        rintro rfl
        cases hw
      obtain ⟨c, left, rfl, hc, hleft⟩ := exists_of_attempt_cons hrun hnames h
      rw [List.mem_cons, not_or]
      exact ⟨(ne_slash_of_accepts hw hc).symm, ih hrest hleft⟩

/-- Whole names can go on to the end of a text. -/
theorem afterSlash_attempt_nil (text : Text) : afterSlash (attempt []) text = .hit := by
  induction text with
  | nil => rfl
  | cons c text ih =>
    rw [afterSlash, ih]
    cases text <;> simp [attempt]

/-- Two stars alone match every text. -/
theorem attempt_anyNames (text : Text) : attempt [.anyNames] text = .hit := by
  cases text with
  | nil => rfl
  | cons c text => exact afterSlash_attempt_nil (c :: text)

/-! ## Reading -/

/-- **The reader makes no token that takes a slash out of a text without one**, but for two
stars at the very start. -/
theorem read_cases {position : Nat} {before : Option Char} {state : Reading}
    (hbefore : before ≠ some '/') (hslash : '/' ∉ text)
    (hdone : ∀ w ∈ done, w.takesSlash = false)
    (h : read position before state done text = .ok tokens) :
    (∀ w ∈ tokens, w.takesSlash = false) ∨ before = none ∧ tokens = (addNames done).reverse := by
  -- behind its first character the reader has a character before it, which is no slash
  fun_induction read position before state done text with
  | case1 =>
    obtain rfl := Except.ok.inj h
    exact .inl fun w hw => hdone w (List.mem_reverse.1 hw)
  | case2 | case5 | case7 | case8 | case10 => cases h
  | case3 position before start negated members done c rest hc ih =>
    rw [List.mem_cons, not_or] at hslash
    refine .inl ((ih (by simpa using Ne.symm hslash.1) hslash.2 ?_ h).resolve_right (by simp))
    exact List.forall_mem_cons.2 ⟨rfl, hdone⟩
  | case4 position before start negated members done c rest hc ih =>
    rw [List.mem_cons, not_or] at hslash
    exact .inl ((ih (by simpa using Ne.symm hslash.1) hslash.2 hdone h).resolve_right (by simp))
  | case6 position before done hall =>
    obtain rfl := Except.ok.inj h
    cases before with
    | none => exact .inr ⟨rfl, rfl⟩
    | some c => exact absurd (congrArg some (eq_of_beq hall)) hbefore
  | case9 => simp at hslash
  | case11 position before done rest _ _ _ ih =>
    rw [List.mem_cons, not_or] at hslash
    refine .inl ((ih (by decide) hslash.2 ?_ h).resolve_right (by simp))
    exact List.forall_mem_cons.2 ⟨rfl, hdone⟩
  | case12 position before done rest ih =>
    rw [List.mem_cons, not_or] at hslash
    refine .inl ((ih (by decide) hslash.2 ?_ h).resolve_right (by simp))
    exact List.forall_mem_cons.2 ⟨rfl, hdone⟩
  | case13 position before done rest ih =>
    rw [List.mem_cons, List.mem_cons, not_or, not_or] at hslash
    exact .inl ((ih (by decide) hslash.2.2 hdone h).resolve_right (by simp))
  | case14 position before done rest _ ih =>
    rw [List.mem_cons, not_or] at hslash
    exact .inl ((ih (by decide) hslash.2 hdone h).resolve_right (by simp))
  | case15 position before done c rest _ _ _ _ _ _ _ ih =>
    rw [List.mem_cons, not_or] at hslash
    refine .inl ((ih (by simpa using Ne.symm hslash.1) hslash.2 ?_ h).resolve_right (by simp))
    exact List.forall_mem_cons.2 ⟨beq_false_of_ne (Ne.symm hslash.1), hdone⟩

/-- **The patterns that are written without a slash**: their tokens take none, or they are
two stars alone. -/
theorem ofText_cases {source : Text} {pattern : Pattern} (h : ofText source = .ok pattern)
    (hslash : '/' ∉ source) :
    (∀ w ∈ pattern.tokens, w.takesSlash = false) ∨ pattern.tokens = [.anyNames] := by
  unfold ofText at h
  cases hread : read 0 none .outside [] source with
  | error e => rw [hread] at h; cases h
  | ok tokens =>
    rw [hread] at h
    obtain rfl := Except.ok.inj h
    exact (read_cases (by simp) hslash (by simp) hread).imp_right And.right

/-- **A pattern without a slash that matches a path matches its last name.** -/
theorem covers_fileName {source : Text} {pattern : Pattern} (h : ofText source = .ok pattern)
    (hslash : '/' ∉ source) {p : Path} {name : Text} (hname : Path.fileName? p = some name)
    (hcovers : pattern.covers p = true) : pattern.covers name = true := by
  rcases ofText_cases h hslash with htokens | htokens
  · have hp : '/' ∉ p := notMem_of_attempt htokens (eq_of_beq hcovers)
    rwa [← Path.eq_of_fileName? hp hname]
  · rw [covers, htokens, attempt_anyNames]
    rfl

end Pattern

/-! ## Excluding -/

namespace Exclude

theorem mem_compile {sources : List Text} {pattern : Pattern} :
    pattern ∈ compile sources ↔ ∃ source ∈ sources, Pattern.ofText source = .ok pattern := by
  unfold compile
  rw [List.mem_filterMap]
  refine exists_congr fun source => and_congr_right fun _ => ?_
  cases Pattern.ofText source with
  | error e => exact iff_of_false (fun h => by cases h) (fun h => by cases h)
  | ok pattern' =>
    show some pattern' = some pattern ↔ Except.ok pattern' = Except.ok pattern
    rw [Option.some.injEq, Except.ok.injEq]

/-- **Patterns without a slash exclude by name only.** A path that has a last name is
excluded if and only if one of them matches that name, so paths with the same last name
are excluded alike, wherever they lead. -/
theorem isExcluded_slashFree {sources : List Text} (hslash : ∀ source ∈ sources, '/' ∉ source)
    {p : Path} {name : Text} (hname : Path.fileName? p = some name) :
    (isExcluded (compile sources) p = true ↔
      ∃ source ∈ sources, ∃ pattern, Pattern.ofText source = .ok pattern ∧
        pattern.covers name = true) ∧
    ∀ q, Path.fileName? q = some name →
      isExcluded (compile sources) q = isExcluded (compile sources) p := by
  have hiff : ∀ q, Path.fileName? q = some name →
      (isExcluded (compile sources) q = true ↔
        ∃ source ∈ sources, ∃ pattern, Pattern.ofText source = .ok pattern ∧
          pattern.covers name = true) := by
    intro q hq
    unfold isExcluded
    rw [List.any_eq_true, hq]
    constructor
    · rintro ⟨pattern, hpattern, hcovers⟩
      obtain ⟨source, hsource, hread⟩ := mem_compile.1 hpattern
      refine ⟨source, hsource, pattern, hread, ?_⟩
      rcases Bool.or_eq_true_iff.1 hcovers with hcovers | hcovers
      · exact Pattern.covers_fileName hread (hslash source hsource) hq hcovers
      · exact hcovers
    · rintro ⟨source, hsource, pattern, hread, hcovers⟩
      exact ⟨pattern, mem_compile.2 ⟨source, hsource, hread⟩, Bool.or_eq_true_iff.2 (.inr hcovers)⟩
  exact ⟨hiff p hname, fun q hq => Bool.eq_iff_iff.2 ((hiff q hq).trans (hiff p hname).symm)⟩

/-- Neither a dot and a run nor a set that has the slash among its members gets across the
slash of a path. -/
theorem isExcluded_slashFree_dotSlash :
    let sources := [".*".toList, ".[+-9]b".toList]
    (∀ source ∈ sources, '/' ∉ source) ∧ Path.fileName? "./b".toList = some "b".toList ∧
      (isExcluded (compile sources) "./b".toList = true ↔
        ∃ source ∈ sources, ∃ pattern, Pattern.ofText source = .ok pattern ∧
          pattern.covers "b".toList = true) ∧
      isExcluded (compile sources) "./b".toList = false := by
  have hslash : ∀ source ∈ [".*".toList, ".[+-9]b".toList], '/' ∉ source := by decide
  have hname : Path.fileName? "./b".toList = some "b".toList := by decide
  exact ⟨hslash, hname, (isExcluded_slashFree hslash hname).1, by decide⟩

end Exclude

end LicenseHeader
