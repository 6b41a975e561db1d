import LicenseHeader.FileTree.Program
import Mathlib.Data.Set.BooleanAlgebra
import Mathlib.Data.Set.Pairwise.Basic
import Mathlib.Logic.Function.Basic
import Mathlib.Order.CompletePartialOrder

/-!
# Programs that run at the same time

Several programs work on one tree, and at each moment any of them may take its next
step. `FileProgram.Interleaves` says what such a run can come to.

A program that looks at some locations only and changes no others cannot tell whether it
runs alone. `FileProgram.Confined` is that condition, step by step: what a step answers
and what it does to the locations depends on the locations alone. Programs with disjoint
locations then end as each of them would alone (`FileProgram.Interleaves.separate`), so
two runs of the same programs differ in nothing (`FileProgram.Interleaves.unique`),
whatever the order of the steps.

Steps need to be understood only in trees that can occur. Those are given by a condition
`W`, which every step has to keep.
-/

namespace LicenseHeader

open FileTree

/-- Two trees with the same nodes at some locations. -/
def FileTree.AgreeOn (F : Set Location) (t t' : FileTree) : Prop := ∀ l ∈ F, t.node? l = t'.node? l

/-- **A step on some locations**: it answers and acts there by what is there, and leaves
other locations alone. -/
structure FileOp.Local (W : FileTree → Prop) (F : Set Location) (op : FileOp) : Prop where
  world : ∀ {t}, W t → W (op.perform t).2
  frame : ∀ {t}, W t → ∀ l ∉ F, (op.perform t).2.node? l = t.node? l
  reply : ∀ {t t'}, W t → W t' → AgreeOn F t t' → (op.perform t').1 = (op.perform t).1
  effect : ∀ {t t'}, W t → W t' → AgreeOn F t t' → AgreeOn F (op.perform t).2 (op.perform t').2

namespace FileProgram

variable {α β ι : Type} {W : FileTree → Prop} {F : Set Location} {t t' : FileTree}

/-- **A program all of whose steps are on some locations**, with a condition on its
result. Only answers that can occur are gone on with. -/
def Confined (W : FileTree → Prop) (F : Set Location) (Q : α → Prop) : FileProgram α → Prop
  | done a => Q a
  | step op next => op.Local W F ∧ ∀ t, W t → Confined W F Q (next (op.perform t).1)

namespace Confined

theorem bind {Q : α → Prop} {R : β → Prop} {p : FileProgram α} {f : α → FileProgram β}
    (hp : p.Confined W F Q) (hf : ∀ a, Q a → (f a).Confined W F R) :
    (p >>= f).Confined W F R := by
  induction p with
  | done a => exact hf a hp
  | step op next ih => exact ⟨hp.1, fun t ht => ih _ (hp.2 t ht)⟩

theorem ask {op : FileOp} (hop : op.Local W F) :
    (FileProgram.ask op).Confined W F fun r => ∃ t, W t ∧ r = (op.perform t).1 :=
  ⟨hop, fun t ht => ⟨t, ht, rfl⟩⟩

variable {Q : α → Prop} {p : FileProgram α}

/-- **A confined program cannot tell what is elsewhere.** -/
theorem run_congr (h : p.Confined W F Q) (ht : W t) (ht' : W t') (hagree : AgreeOn F t t') :
    (p.run t').1 = (p.run t).1 ∧ AgreeOn F (p.run t).2 (p.run t').2 := by
  induction p generalizing t t' with
  | done a => exact ⟨rfl, hagree⟩
  | step op next ih =>
    have hreply := h.1.reply ht ht' hagree
    unfold run
    rw [hreply]
    exact ih _ (h.2 t ht) (h.1.world ht) (h.1.world ht') (h.1.effect ht ht' hagree)

end Confined

/-! ## Interleavings -/

variable [DecidableEq ι] {tasks : ι → FileProgram α} {results : ι → α}

/-- **A run of several programs at once**, in which they take their steps in any order
until all are done: from a tree, to their results and a tree. -/
inductive Interleaves : (ι → FileProgram α) → FileTree → (ι → α) → FileTree → Prop
  /-- All are done. -/
  | done {tasks : ι → FileProgram α} {results : ι → α} (t : FileTree)
      (h : ∀ i, tasks i = .done (results i)) : Interleaves tasks t results t
  /-- One of them takes a step. -/
  | step {tasks : ι → FileProgram α} {results : ι → α} {t t' : FileTree} (i : ι) {op : FileOp}
      {next : op.Reply → FileProgram α} (h : tasks i = .step op next)
      (rest : Interleaves (Function.update tasks i (next (op.perform t).1)) (op.perform t).2
        results t') : Interleaves tasks t results t'

namespace Interleaves

/-- One program may run to its end before the others go on. -/
theorem of_run (i : ι) {r : α × FileTree} (hr : (tasks i).run t = r)
    (h : Interleaves (Function.update tasks i (.done r.1)) r.2 results t') :
    Interleaves tasks t results t' := by
  subst hr
  generalize hp : tasks i = p at h
  induction p generalizing tasks t with
  | done a =>
    rwa [run, ← hp, Function.update_eq_self] at h
  | step op next ih =>
    refine .step i hp (ih _ (Function.update_self i _ tasks) ?_)
    rwa [Function.update_idem]

/-- A program that is done stays so. -/
theorem result_of_done (h : Interleaves tasks t results t') {i : ι} {a : α}
    (hi : tasks i = .done a) : results i = a := by
  induction h with
  | done t h =>
    rw [h i] at hi
    exact FileProgram.done.inj hi
  | @step tasks results t t' j op next h rest ih =>
    have hij : i ≠ j := by
      rintro rfl
      rw [h] at hi
      cases hi
    exact ih (by rwa [Function.update_of_ne hij])

/-- **Programs on disjoint locations end as each would alone**: with the same result, and
with the same nodes at their own locations. Other locations stay as they are. -/
theorem separate {F : ι → Set Location} (hF : Pairwise fun i j => Disjoint (F i) (F j))
    (h : Interleaves tasks t results t')
    (hc : ∀ i, (tasks i).Confined W (F i) fun _ => True) (ht : W t) :
    W t' ∧ (∀ i, results i = ((tasks i).run t).1 ∧ AgreeOn (F i) ((tasks i).run t).2 t') ∧
      ∀ l, (∀ i, l ∉ F i) → t'.node? l = t.node? l := by
  induction h with
  | done t h =>
    refine ⟨ht, fun i => ?_, fun l _ => rfl⟩
    rw [h i]
    exact ⟨rfl, fun l _ => rfl⟩
  | @step tasks results t t' i op next h rest ih =>
    have hi := hc i
    rw [h] at hi
    have hlocal : op.Local W (F i) := hi.1
    have hworld := hlocal.world ht
    have hc' : ∀ j, (Function.update tasks i (next (op.perform t).1) j).Confined W (F j)
        fun _ => True := by
      intro j
      by_cases hj : j = i
      · rw [hj, Function.update_self]
        exact hi.2 t ht
      · rw [Function.update_of_ne hj]
        exact hc j
    obtain ⟨hW, heach, helse⟩ := ih hc' hworld
    refine ⟨hW, fun j => ?_, fun l hl => (helse l hl).trans (hlocal.frame ht l (hl i))⟩
    have hthen := heach j
    by_cases hj : j = i
    · rw [hj, Function.update_self] at hthen
      rw [hj, h]
      exact hthen
    · -- the step is on locations that the other program does not look at
      have hagree : AgreeOn (F j) t (op.perform t).2 := fun l hl =>
        (hlocal.frame ht l (Set.disjoint_left.1 (hF hj) hl)).symm
      obtain ⟨hresult, htree⟩ := (hc j).run_congr ht hworld hagree
      rw [Function.update_of_ne hj] at hthen
      exact ⟨hthen.1.trans hresult, fun l hl => (htree l hl).trans (hthen.2 l hl)⟩

/-- **The order of the steps makes no difference**, neither to the results nor to the
tree. -/
theorem unique {F : ι → Set Location} (hF : Pairwise fun i j => Disjoint (F i) (F j))
    {results' : ι → α} {t'' : FileTree} (h : Interleaves tasks t results t')
    (h' : Interleaves tasks t results' t'')
    (hc : ∀ i, (tasks i).Confined W (F i) fun _ => True) (ht : W t) :
    results = results' ∧ ∀ l, t'.node? l = t''.node? l := by
  obtain ⟨-, heach, helse⟩ := h.separate hF hc ht
  obtain ⟨-, heach', helse'⟩ := h'.separate hF hc ht
  refine ⟨funext fun i => (heach i).1.trans (heach' i).1.symm, fun l => ?_⟩
  by_cases hl : ∃ i, l ∈ F i
  · obtain ⟨i, hi⟩ := hl
    exact ((heach i).2 l hi).symm.trans ((heach' i).2 l hi)
  · rw [not_exists] at hl
    exact (helse l hl).trans (helse' l hl).symm

end Interleaves

end FileProgram

end LicenseHeader
