import LicenseHeader.Proofs.Spacing

/-!
# A notice in a longer text

Whether a phrase occurs in a text is a matter of the place where it stands, and, if it
asks for a word edge or for a blank, of the characters next to it. A phrase that asks for
neither (`Phrase.isFree`) goes on occurring whatever is put before the text and behind it
(`Phrase.occursIn_surrounded`), even if letters are glued to it.

The Apache 2.0 notice is such a phrase. Whether a text speaks of a license is not: the
word must begin at a word edge. But the notice brings that edge with it, since it names
the license behind a space (`Verdict.speaksOfLicense_of_notice`). As the two signatures
with that notice are the first of the table, no phrase in the surroundings can decide
before them, and `Verdict.ofText_surrounded` follows.
-/

namespace LicenseHeader

/-- Whether a part asks nothing of the characters around what it takes. -/
def PhrasePart.isFree : PhrasePart → Bool
  | .exact _ | .anyCase _ | .blanks | .restOfLine => true
  | .wordEdge | .afterBlank | .beforeBlank => false

namespace Phrase

variable {phrase : Phrase} {text : Text}

/-- Whether a phrase asks nothing of the characters around it. -/
def isFree (phrase : Phrase) : Bool := phrase.all PhrasePart.isFree

/-- A free part takes the same wherever it stands. -/
theorem takes_of_isFree {part : PhrasePart} (hpart : part.isFree = true) {before before' : Char}
    {taken rest rest' : Text} (h : part.Takes before taken rest) :
    part.Takes before' taken rest' := by
  cases part with
  | exact | anyCase | blanks | restOfLine => exact h
  | wordEdge | afterBlank | beforeBlank => cases hpart

/-- **A free phrase is read** behind any character and with anything behind it. -/
theorem matchesAt_of_isFree (hphrase : phrase.isFree = true) {before : Char}
    (h : phrase.matchesAt (some before) text = true) (before' : Char) (behind : Text) :
    phrase.matchesAt (some before') (text ++ behind) = true := by
  induction phrase generalizing before before' text with
  | nil => rfl
  | cons part phrase ih =>
    obtain ⟨hpart, hphrase⟩ := Bool.and_eq_true_iff.1 hphrase
    obtain ⟨taken, rest, rfl, htakes, hmatches⟩ := (matchesAt_cons_iff ..).1 h
    exact (matchesAt_cons_iff ..).2 ⟨taken, rest ++ behind, List.append_assoc ..,
      takes_of_isFree hpart htakes, ih hphrase hmatches _⟩

/-- **A free phrase goes on occurring** in every longer text. -/
theorem occursIn_surrounded (hphrase : phrase.isFree = true) (h : phrase.occursIn text = true)
    (above below : Text) : phrase.occursIn (above ++ text ++ below) = true := by
  obtain ⟨skipped, rest, rfl, hmatches⟩ := (occursIn_iff ..).1 h
  refine (occursIn_iff ..).2 ⟨above ++ skipped, rest ++ below, by simp, ?_⟩
  exact matchesAt_of_isFree hphrase hmatches _ below

/-- A wording occurs in the texts of which it is a part. -/
theorem occursIn_exact_iff (wording text : Text) :
    occursIn [.exact wording] text = true ↔ wording <:+: text := by
  rw [occursIn_iff]
  constructor
  · rintro ⟨skipped, rest, rfl, hmatches⟩
    obtain ⟨taken, behind, rfl, rfl, -⟩ := (matchesAt_cons_iff ..).1 hmatches
    exact ⟨skipped, behind, List.append_assoc ..⟩
  · rintro ⟨skipped, behind, rfl⟩
    refine ⟨skipped, wording ++ behind, List.append_assoc .., ?_⟩
    exact (matchesAt_cons_iff ..).2 ⟨wording, behind, rfl, rfl, rfl⟩

end Phrase

namespace Verdict

open Signature (apache20Notice licensors)

/-- **The Apache 2.0 notice speaks of a license**, whatever stands before it. -/
theorem speaksOfLicense_of_notice {text : Text} (h : apache20Notice.occursIn text = true) :
    speaksOfLicense text = true := by
  obtain ⟨skipped, rest, rfl, hmatches⟩ := (Phrase.occursIn_iff ..).1 h
  obtain ⟨taken, behind, rfl, rfl, -⟩ := (Phrase.matchesAt_cons_iff ..).1 hmatches
  rw [speaksOfLicense_eq, Bool.or_eq_true]
  -- the second word of the notice that starts with license stands behind a space
  refine .inr ((Phrase.occursIn_iff ..).2
    ⟨skipped ++ "Licensed under the Apache ".toList, "License".toList ++ behind, ?_, ?_⟩)
  · rw [List.append_assoc, ← List.append_assoc "Licensed under the Apache ".toList]
    rfl
  · rw [show (skipped ++ "Licensed under the Apache ".toList).getLastD ' ' = ' ' by
      simp [List.getLastD_eq_getLast?], Phrase.matchesAt_startOfWord]
    rfl

/-- **The signature of a text with the notice** is one of the first two. -/
theorem signature?_of_notice {text : Text} (h : apache20Notice.occursIn text = true) :
    signature? text = some
      (if licensors.occursIn text then
        .apache [apache20Notice, licensors] "Apache 2.0a" .apache20
      else .apache [apache20Notice] "Apache 2.0" .apache20) := by
  rw [signature?_eq_some_iff]
  refine ⟨speaksOfLicense_of_notice h, ?_⟩
  unfold Signature.table
  cases hlicensors : licensors.occursIn text with
  | true =>
    rw [List.find?_cons_of_pos (by simp [Signature.apache, Signature.fits, h, hlicensors])]
    rfl
  | false =>
    rw [List.find?_cons_of_neg (by simp [Signature.apache, Signature.fits, hlicensors]),
      List.find?_cons_of_pos (by simp [Signature.apache, Signature.fits, h])]
    rfl

/-- Only a text with the notice is taken for an Apache 2.0 notice. -/
theorem notice_of_licenseId {text : Text}
    (h : (ofText text).licenseId = some "Apache 2.0" ∨
      (ofText text).licenseId = some "Apache 2.0a") :
    apache20Notice.occursIn text = true := by
  rw [ofText_eq] at h
  cases hsignature : signature? text with
  | none => rw [hsignature] at h; simp [ofWords] at h
  | some s =>
    rw [hsignature] at h
    simp only [licenseId_recognized (.ofWords text) rfl] at h
    obtain ⟨hmem, hfits⟩ := mem_table_and_fits hsignature
    have hall : ∀ s ∈ Signature.table, ∀ later,
        s.recognition.id? later = some "Apache 2.0" ∨
          s.recognition.id? later = some "Apache 2.0a" → apache20Notice ∈ s.requires := by
      decide
    exact List.all_eq_true.1 hfits _ (hall s hmem _ h)

/-- **An Apache 2.0 notice is recognized whatever surrounds it.** Of a text that is taken
for one, every longer text is taken for one too, for the variant that names the licensors
if and only if their name is anywhere in the longer text. -/
theorem ofText_surrounded {text : Text}
    (h : (ofText text).licenseId = some "Apache 2.0" ∨ (ofText text).licenseId = some "Apache 2.0a")
    (above below : Text) :
    (ofText (above ++ text ++ below)).isLicense = true ∧
    (ofText (above ++ text ++ below)).family = .apache ∧
    (ofText (above ++ text ++ below)).flags = [.apache20] ∧
    ("or its licensors".toList <:+: above ++ text ++ below →
      (ofText (above ++ text ++ below)).licenseId = some "Apache 2.0a") ∧
    (¬ "or its licensors".toList <:+: above ++ text ++ below →
      (ofText (above ++ text ++ below)).licenseId = some "Apache 2.0") := by
  have hnotice := Phrase.occursIn_surrounded (by decide) (notice_of_licenseId h) above below
  have hlicensors : licensors.occursIn (above ++ text ++ below) = true ↔
      "or its licensors".toList <:+: above ++ text ++ below := Phrase.occursIn_exact_iff _ _
  have hspeaks := speaksOfLicense_of_notice hnotice
  rw [ofText_eq, signature?_of_notice hnotice]
  by_cases hmem : "or its licensors".toList <:+: above ++ text ++ below
  · rw [if_pos (hlicensors.2 hmem)]
    exact ⟨hspeaks, rfl, rfl, fun _ => rfl, fun hnot => absurd hmem hnot⟩
  · rw [if_neg (mt hlicensors.1 hmem)]
    exact ⟨hspeaks, rfl, rfl, fun h => absurd h hmem, fun _ => rfl⟩

/-- Letters are glued to the notice, and the names of two other licenses stand before it. -/
theorem ofText_surrounded_gluedOn :
    (ofText "Licensed under the Apache License, Version 2.0".toList).licenseId
        = some "Apache 2.0" ∧
      (ofText ("Public domain? GNU General Public License Version 2 of un".toList
        ++ "Licensed under the Apache License, Version 2.0".toList
        ++ "b or its licensors".toList)).licenseId = some "Apache 2.0a" := by
  have htaken : (ofText "Licensed under the Apache License, Version 2.0".toList).licenseId
      = some "Apache 2.0" := by decide +kernel
  obtain ⟨-, -, -, hlicensors, -⟩ := ofText_surrounded (.inl htaken)
    "Public domain? GNU General Public License Version 2 of un".toList "b or its licensors".toList
  exact ⟨htaken, hlicensors (by decide +kernel)⟩

end Verdict

end LicenseHeader
