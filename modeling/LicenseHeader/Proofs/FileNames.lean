import LicenseHeader.Language.FileName
import LicenseHeader.Path.Basic
import Mathlib.Data.List.DropRight
import Mathlib.Data.List.Nodup

/-!
# The file-name table is unambiguous

The table of names is tried from the top, and the first pattern that fits decides. That
the order does not matter cannot be read off the patterns one by one: an extension may
end like another, and one of them has a dot of its own.

What decides is the *ending* of a name, the part behind its last dot. A pattern fits only
names with one ending (`NamePattern.ending_of_fits`), whether it is for an extension, for
an extension of two parts or for a whole name, and no two patterns of the table have the
same (`Language.nodup_endings`). So at most one pattern fits a name, and since none has
the ending of a backup, a backup has no language (`Language.ofFileName?_backup`).
-/

namespace LicenseHeader

/-! ## Endings -/

namespace Text

theorem endsWith_eq_true_iff {token text : Text} :
    endsWith token text = true ↔ ∃ before, text = before ++ token := by
  unfold endsWith
  rw [Option.isSome_iff_exists]
  constructor
  · rintro ⟨rest, hrest⟩
    exact ⟨rest.reverse, by rw [← List.reverse_inj, after?_eq_some_iff.1 hrest]; simp⟩
  · rintro ⟨before, rfl⟩
    exact ⟨before.reverse, after?_eq_some_iff.2 (by simp)⟩

/-- **The ending of a name**: what stands behind its last dot. A name without a dot is all
ending. -/
def ending (name : Text) : Text := name.rtakeWhile (· ≠ '.')

/-- What stands before a dot takes no part in the ending. -/
theorem ending_append_dot (before rest : Text) :
    ending (before ++ '.' :: rest) = ending ('.' :: rest) := by
  have hdot : ∀ t : Text, ('.' :: t).takeWhile (· ≠ '.') = [] := fun t =>
    List.takeWhile_cons_of_neg (by decide)
  unfold ending List.rtakeWhile
  rw [List.reverse_append, List.reverse_cons, List.append_assoc, List.singleton_append,
    List.takeWhile_append, List.takeWhile_append, hdot, hdot]

end Text

namespace NamePattern

/-- The ending of the names that fit a pattern. -/
def ending : NamePattern → Text
  | extension ext => Text.ending ('.' :: ext.toList)
  | whole full => Text.ending full.toList

/-- **A pattern fits names with one ending only.** -/
theorem ending_of_fits {pattern : NamePattern} {name : Text} (h : pattern.fits name = true) :
    Text.ending name = pattern.ending := by
  cases pattern with
  | extension ext =>
    obtain ⟨before, rfl⟩ := Text.endsWith_eq_true_iff.1 h
    exact Text.ending_append_dot before ext.toList
  | whole full =>
    have hname : name = full.toList := eq_of_beq h
    rw [hname]
    rfl

end NamePattern

namespace Language

/-! ## Tables -/

variable {table table' : List (NamePattern × Language)} {name : Text}

/-- **A table in which the order does not matter**: patterns that fit one name are for one
language. -/
def Unambiguous (table : List (NamePattern × Language)) : Prop :=
  ∀ name, ∀ a ∈ table, ∀ b ∈ table, a.1.fits name = true → b.1.fits name = true → a.2 = b.2

/-- A table with an ending for each pattern is unambiguous. -/
theorem unambiguous_of_nodup (h : (table.map fun entry => entry.1.ending).Nodup) :
    Unambiguous table := by
  intro name a ha b hb hfa hfb
  have hending : a.1.ending = b.1.ending :=
    (NamePattern.ending_of_fits hfa).symm.trans (NamePattern.ending_of_fits hfb)
  rw [List.inj_on_of_nodup_map h ha hb hending]

/-- In an unambiguous table any pattern that fits tells the language. -/
theorem Unambiguous.lookUp_eq_some_iff (h : Unambiguous table) {l : Language} :
    lookUp table name = some l ↔ ∃ entry ∈ table, entry.1.fits name = true ∧ entry.2 = l := by
  unfold lookUp
  rw [Option.map_eq_some_iff]
  constructor
  · rintro ⟨entry, hfind, hl⟩
    have hfits := List.find?_some hfind
    exact ⟨entry, List.mem_of_find?_eq_some hfind, hfits, hl⟩
  · rintro ⟨entry, hentry, hfits, rfl⟩
    have hsome : (table.find? fun entry => entry.1.fits name).isSome = true :=
      List.find?_isSome.2 ⟨entry, hentry, hfits⟩
    obtain ⟨first, hfirst⟩ := Option.isSome_iff_exists.1 hsome
    have hfits' := List.find?_some hfirst
    exact ⟨first, hfirst, h name first (List.mem_of_find?_eq_some hfirst) entry hentry hfits' hfits⟩

/-- **An unambiguous table may be put in any order.** -/
theorem Unambiguous.lookUp_eq_of_perm (h : Unambiguous table) (hperm : table'.Perm table) :
    lookUp table' name = lookUp table name := by
  have h' : Unambiguous table' := fun name a ha b hb =>
    h name a (hperm.mem_iff.1 ha) b (hperm.mem_iff.1 hb)
  refine Option.ext fun l => ?_
  rw [h'.lookUp_eq_some_iff, h.lookUp_eq_some_iff]
  exact exists_congr fun entry => and_congr_left fun _ => hperm.mem_iff

/-- A table without the ending of a name has no language for it. -/
theorem lookUp_eq_none (h : Text.ending name ∉ table.map fun entry => entry.1.ending) :
    lookUp table name = none := by
  unfold lookUp
  rw [Option.map_eq_none_iff, List.find?_eq_none]
  intro entry hentry hfits
  refine h (List.mem_map.2 ⟨entry, hentry, ?_⟩)
  exact (NamePattern.ending_of_fits hfits).symm

/-! ## The table of names -/

theorem nodup_endings : (namePatterns.map fun entry => entry.1.ending).Nodup := by
  decide +kernel

/-- **The name of a backup belongs to no language**, since no pattern is for names with its
ending. -/
theorem ofFileName?_backup (n : Text) : ofFileName? (Path.backup n) = none := by
  have hending : Text.ending (Path.backup n) = "bak".toList :=
    Text.ending_append_dot n "bak".toList
  refine lookUp_eq_none ?_
  rw [hending]
  decide +kernel

/-- **The file-name table is unambiguous.** The patterns that fit a name are for one
language, so every name keeps its language if the table is put in another order; and no
name that ends like a backup has a language. -/
theorem namePatterns_unambiguous (name : Text) :
    (∀ a ∈ namePatterns, ∀ b ∈ namePatterns, a.1.fits name = true → b.1.fits name = true →
        a.2 = b.2) ∧
      (∀ table : List (NamePattern × Language), table.Perm namePatterns →
        lookUp table name = ofFileName? name) ∧
      (Text.endsWith ".bak".toList name = true → ofFileName? name = none) := by
  have hone : Unambiguous namePatterns := unambiguous_of_nodup nodup_endings
  refine ⟨hone name, fun table hperm => hone.lookUp_eq_of_perm hperm, fun hbak => ?_⟩
  obtain ⟨n, rfl⟩ := Text.endsWith_eq_true_iff.1 hbak
  exact ofFileName?_backup n

/-- From the bottom of the table a name with two dots has the same language, and its backup
has none. -/
theorem namePatterns_unambiguous_template :
    lookUp namePatterns.reverse "app.properties.tmpl".toList
        = ofFileName? "app.properties.tmpl".toList ∧
      ofFileName? "app.properties.tmpl".toList = some .properties ∧
      ofFileName? "app.properties.tmpl.bak".toList = none :=
  ⟨(namePatterns_unambiguous _).2.1 _ (List.reverse_perm namePatterns), by decide +kernel,
    (namePatterns_unambiguous _).2.2 (by decide +kernel)⟩

end Language

end LicenseHeader
