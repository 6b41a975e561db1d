import LicenseHeader.Proofs.LicenseWord
import LicenseHeader.Proofs.Surroundings
import Mathlib.Data.Nat.BitIndices
import Mathlib.Data.Nat.Bitwise

/-!
# The parts of a verdict agree

A verdict names a license, its family and, as bits of a number, its version and whether
later versions may be chosen. Four decisions go into it: whether the text speaks of a
license at all, which signature fits first, whether that signature names a license, and
whether the clause on later versions occurs. A text may quote several licenses, so none of
these decisions follows from another.

The parts agree because they all come from one recognition (`Verdict.recognition`): the
name and the flags are functions of that recognition and of the clause alone
(`Recognition.id?`, `Recognition.flags`), and there are only as many recognitions as the
table has entries. What a verdict says about the *text* needs the order of the table: none
of the signatures that are tried before the one that decides fits
(`Verdict.signature?_eq_some_iff_earlier`). For the GPL family these are the signatures of
the Apache licenses and of the public domain, and for the GPL itself the bare name of the
Lesser GPL, an entry that reports nothing and is there to decide before the GPL can.

`Verdict.coherent_ofText` puts this together.
-/

namespace LicenseHeader

/-! ## Flags as bits -/

namespace LicenseFlag

/-- The place of a flag's bit. -/
def place : LicenseFlag → Nat
  | apache10 => 0
  | apache11 => 1
  | apache12 => 2
  | apache20 => 3
  | orLater => 4
  | lgpl20 => 5
  | lgpl21 => 6
  | gpl2 => 7

theorem bit_eq_two_pow (f : LicenseFlag) : f.bit = 2 ^ f.place := by cases f <;> rfl

theorem place_injective : Function.Injective place := by
  intro f f' h
  cases f <;> cases f' <;> first | rfl | cases h

theorem mem_all (f : LicenseFlag) : f ∈ all := by cases f <;> decide

/-- Whether the bit of a flag is set in a number. -/
def isSetIn (f : LicenseFlag) (mask : Nat) : Bool := mask &&& f.bit == f.bit

theorem isSetIn_eq_testBit (f : LicenseFlag) (mask : Nat) :
    f.isSetIn mask = mask.testBit f.place := by
  have hpos : 0 ≠ 2 ^ f.place := (Nat.two_pow_pos f.place).ne
  rw [isSetIn, bit_eq_two_pow, Nat.and_two_pow]
  cases mask.testBit f.place <;> simp [hpos]

/-- The bits of some flags as a sum of powers. -/
theorem bits_eq_sum (flags : List LicenseFlag) :
    bits flags
      = (((all.filter (flags.contains ·)).map place).map fun i => 2 ^ i).sum := by
  rw [bits, List.map_map, List.sum_eq_foldr, List.foldr_map]
  exact congrArg (fun step => List.foldr step 0 _) (funext₂ fun f n => by rw [bit_eq_two_pow]; rfl)

/-- **The bits set are those of the flags.** -/
theorem isSetIn_bits (f : LicenseFlag) (flags : List LicenseFlag) :
    f.isSetIn (bits flags) = true ↔ f ∈ flags := by
  -- in the order of their bits the places of the flags go up
  have hsorted : ((all.filter (flags.contains ·)).map place).SortedLT := by
    have hall : (all.map place).Pairwise (· < ·) := by decide
    exact (hall.sublist (List.filter_sublist.map place)).sortedLT
  rw [isSetIn_eq_testBit, ← Nat.mem_bitIndices, bits_eq_sum,
    Nat.bitIndices_sum_map_two_pow hsorted, List.mem_map_of_injective place_injective,
    List.mem_filter, List.contains_iff_mem]
  exact and_iff_right (mem_all f)

end LicenseFlag

/-! ## What a recognition reports -/

namespace Recognition

/-- The family that a recognition reports. -/
def family : Recognition → LicenseFamily
  | .unnamed => .unknown
  | .named _ _ family _ => family

/-- The version that a recognition reports. -/
def version? : Recognition → Option LicenseFlag
  | .unnamed => none
  | .named _ _ _ version => version

/-- Whether a license comes in a variant that allows later versions. -/
def hasLater : Recognition → Bool
  | .unnamed => false
  | .named _ laterId _ _ => laterId.isSome

/-- The flags that a recognition reports. -/
def flags (later : Bool) (r : Recognition) : List LicenseFlag :=
  r.version?.toList ++ if later && r.hasLater then [.orLater] else []

theorem flags_unnamed (later : Bool) : flags later .unnamed = [] := by cases later <;> rfl

/-- Every recognition there is. -/
def known : List Recognition := .unnamed :: Signature.table.map Signature.recognition

variable {r : Recognition}

/-- **Apache and GPL licenses have one version.** -/
theorem existsUnique_version (hr : r ∈ known) (hfamily : r.family = .apache ∨ r.family = .gpl)
    (later : Bool) : ∃! f : LicenseFlag, f.isVersion = true ∧ f ∈ r.flags later := by
  have hall : ∀ r ∈ known, r.family = .apache ∨ r.family = .gpl →
      r.version?.any LicenseFlag.isVersion = true := by decide +kernel
  obtain ⟨f, hf, hversion⟩ := (Option.any_eq_true ..).1 (hall r hr hfamily)
  refine ⟨f, ⟨hversion, by simp [flags, hf]⟩, ?_⟩
  rintro f' ⟨hversion', hmem⟩
  rw [flags, hf, List.mem_append] at hmem
  rcases hmem with hmem | hmem
  · simpa using hmem
  · -- the other flag there may be tells no version
    have hlater : f' = .orLater := by
      split at hmem
      · exact List.mem_singleton.1 hmem
      · cases hmem
    rw [hlater] at hversion'
    cases hversion'

theorem flags_of_publicDomain (hr : r ∈ known) (hfamily : r.family = .publicDomain)
    (later : Bool) : r.flags later = [] := by
  revert r later
  decide +kernel

/-- Later versions are marked in the GPL family only. -/
theorem orLater_mem_flags_iff (hr : r ∈ known) (later : Bool) :
    LicenseFlag.orLater ∈ r.flags later ↔ r.family = .gpl ∧ later = true := by
  revert r later
  decide +kernel

/-- Where later versions are marked, the name says so. -/
theorem orLater_mem_flags_iff_suffix (hr : r ∈ known) (later : Bool) :
    LicenseFlag.orLater ∈ r.flags later ↔
      ∃ id ∈ r.id? later, "or later".toList <:+ id.toList := by
  revert r later
  decide +kernel

end Recognition

namespace Verdict

/-- The number that the flags of a verdict are reported as. -/
def mask (v : Verdict) : Nat := LicenseFlag.bits v.flags

/-- What the signature that decides says about a text. -/
def recognition (text : Text) : Recognition :=
  (signature? text).elim .unnamed Signature.recognition

/-- **A verdict is given by words and by a recognition.** -/
theorem ofText_eq_recognized (text : Text) :
    ofText text = (ofWords text).recognized text (recognition text) := by
  rw [ofText_eq, recognition]
  cases signature? text <;> rfl

theorem recognition_mem_known (text : Text) : recognition text ∈ Recognition.known := by
  rw [recognition]
  cases hsignature : signature? text with
  | none => exact List.mem_cons_self
  | some s =>
    exact List.mem_cons_of_mem _ (List.mem_map_of_mem (mem_table_and_fits hsignature).1)

/-- What is recognized is what some signature says. -/
theorem exists_signature?_of_recognition (text : Text) (h : recognition text ≠ .unnamed) :
    ∃ s, signature? text = some s ∧ recognition text = s.recognition := by
  rw [recognition] at h ⊢
  cases hsignature : signature? text with
  | none => rw [hsignature] at h; exact absurd rfl h
  | some s => exact ⟨s, rfl, rfl⟩

theorem licenseId_ofText (text : Text) :
    (ofText text).licenseId = (recognition text).id? (Signature.orLater.occursIn text) := by
  rw [ofText_eq_recognized, licenseId_recognized _ rfl]

theorem family_recognized (text : Text) (r : Recognition) :
    ((ofWords text).recognized text r).family = r.family := by
  unfold recognized Recognition.family
  split
  · rfl
  · rfl
  · split <;> rfl

theorem flags_recognized (text : Text) (r : Recognition) :
    ((ofWords text).recognized text r).flags = r.flags (Signature.orLater.occursIn text) := by
  unfold recognized Recognition.flags
  split
  · exact (Recognition.flags_unnamed _).symm
  · simp [Recognition.version?, Recognition.hasLater]
  · cases Signature.orLater.occursIn text <;> simp [Recognition.version?, Recognition.hasLater]

theorem family_ofText (text : Text) : (ofText text).family = (recognition text).family := by
  rw [ofText_eq_recognized, family_recognized]

theorem flags_ofText (text : Text) :
    (ofText text).flags = (recognition text).flags (Signature.orLater.occursIn text) := by
  rw [ofText_eq_recognized, flags_recognized]

theorem isSetIn_mask_ofText (f : LicenseFlag) (text : Text) :
    f.isSetIn (ofText text).mask = true ↔
      f ∈ (recognition text).flags (Signature.orLater.occursIn text) := by
  rw [mask, LicenseFlag.isSetIn_bits, flags_ofText]

end Verdict

/-! ## What comes first in the table -/

namespace Signature

/-- The signatures that are tried before `s`. -/
def earlier (s : Signature) : List Signature := table.takeWhile (· ≠ s)

/-- What is tried before a signature is what stands above it in the table. -/
theorem earlier_eq {s : Signature} {above below : List Signature}
    (htable : table = above ++ s :: below) (hs : s ∉ above) : s.earlier = above := by
  have hne : ∀ s' ∈ above, decide (s' ≠ s) = true := fun s' hs' =>
    decide_eq_true fun heq => hs (heq ▸ hs')
  rw [earlier, htable, List.takeWhile_append_of_pos hne, List.takeWhile_cons_of_neg (by simp),
    List.append_nil]

/-- Apache licenses and the public domain come before the GPL family. -/
theorem mem_earlier_of_gpl {s s' : Signature} (hs : s ∈ table) (hgpl : s.recognition.family = .gpl)
    (hs' : s' ∈ table)
    (hfamily : s'.recognition.family = .apache ∨ s'.recognition.family = .publicDomain) :
    s' ∈ s.earlier := by
  have hall : ∀ s ∈ table, s.recognition.family = .gpl → ∀ s' ∈ table,
      s'.recognition.family = .apache ∨ s'.recognition.family = .publicDomain →
        s' ∈ s.earlier := by decide +kernel
  exact hall s hs hgpl s' hs' hfamily

/-- The name of the Lesser GPL comes before the GPL. -/
theorem lesserGpl_mem_earlier {s : Signature} (hs : s ∈ table) {later : Bool}
    (hid : s.recognition.id? later = some "GPL 2" ∨
      s.recognition.id? later = some "GPL 2 or later") :
    ⟨[lesserGpl], .unnamed⟩ ∈ s.earlier := by
  have hall : ∀ s ∈ table, ∀ later, s.recognition.id? later = some "GPL 2" ∨
      s.recognition.id? later = some "GPL 2 or later" →
        ⟨[lesserGpl], .unnamed⟩ ∈ s.earlier := by decide +kernel
  exact hall s hs later hid

/-- A signature of one phrase fits where the phrase occurs. -/
theorem fits_singleton (phrase : Phrase) (r : Recognition) (text : Text) :
    fits ⟨[phrase], r⟩ text = phrase.occursIn text := by
  rw [fits, List.all_cons, List.all_nil, Bool.and_true]

end Signature

/-- **The signature that decides** is the one that fits while none before it does. -/
theorem Verdict.signature?_eq_some_iff_earlier {text : Text} {s : Signature} :
    signature? text = some s ↔
      speaksOfLicense text = true ∧ s ∈ Signature.table ∧ s.fits text = true ∧
        ∀ s' ∈ s.earlier, s'.fits text = false := by
  rw [signature?_eq_some_iff]
  refine and_congr_right fun _ => ?_
  constructor
  · intro hfind
    obtain ⟨hfits, above, below, htable, habove⟩ := List.find?_eq_some_iff_append.1 hfind
    have habove : ∀ s' ∈ above, s'.fits text = false := by simpa using habove
    have hs : s ∉ above := fun hs => Bool.false_ne_true ((habove s hs).symm.trans hfits)
    rw [Signature.earlier_eq htable hs]
    exact ⟨List.mem_of_find?_eq_some hfind, hfits, habove⟩
  · rintro ⟨hmem, hfits, hearlier⟩
    obtain ⟨above, below, htable, hs⟩ := List.eq_append_cons_of_mem hmem
    rw [Signature.earlier_eq htable hs] at hearlier
    exact List.find?_eq_some_iff_append.2 ⟨hfits, above, below, htable, by simpa using hearlier⟩

/-- A wording in any letter case occurs where some text in lower case is the wording. -/
theorem Phrase.occursIn_anyCase_iff (wording text : Text) :
    occursIn [.anyCase wording] text = true ↔
      ∃ words, words <:+: text ∧ words.map lowerCase = wording := by
  rw [occursIn_iff]
  constructor
  · rintro ⟨skipped, rest, rfl, hmatches⟩
    obtain ⟨taken, behind, rfl, htaken, -⟩ := (matchesAt_cons_iff ..).1 hmatches
    exact ⟨taken, ⟨skipped, behind, List.append_assoc ..⟩, htaken⟩
  · rintro ⟨words, ⟨skipped, behind, rfl⟩, hwords⟩
    refine ⟨skipped, words ++ behind, List.append_assoc .., ?_⟩
    exact (matchesAt_cons_iff ..).2 ⟨words, behind, rfl, hwords, rfl⟩

/-- Small letters in place of the capitals are enough for a wording in any letter case, unless
it is spelled with one of the two letters that have another small form. -/
theorem Phrase.map_lowerCase_of_map_toLower {words wording : Text} (hs : 'ſ' ∉ wording)
    (hk : '\u212a' ∉ wording) (h : words.map Char.toLower = wording) :
    words.map lowerCase = wording := by
  rw [← h] at hs hk ⊢
  refine List.map_congr_left fun c hc => ?_
  have hmem : c.toLower ∈ words.map Char.toLower := List.mem_map_of_mem hc
  have hcs : c ≠ 'ſ' := fun heq => hs (by rw [heq] at hmem; exact hmem)
  have hck : c ≠ '\u212a' := fun heq => hk (by rw [heq] at hmem; exact hmem)
  rw [lowerCase, if_neg hcs, if_neg hck]

namespace Verdict

variable {text : Text}

/-- **What comes before the GPL family does not fit** a notice of that family. -/
theorem fits_of_gpl (hgpl : (ofText text).family = .gpl) {s : Signature} (hs : s ∈ Signature.table)
    (hfamily : s.recognition.family = .apache ∨ s.recognition.family = .publicDomain) :
    s.fits text = false := by
  rw [family_ofText] at hgpl
  obtain ⟨decider, hsignature, hreport⟩ := exists_signature?_of_recognition text fun hunnamed => by
    rw [hunnamed] at hgpl
    cases hgpl
  obtain ⟨-, hmem, -, hearlier⟩ := signature?_eq_some_iff_earlier.1 hsignature
  exact hearlier s (Signature.mem_earlier_of_gpl hmem (hreport ▸ hgpl) hs hfamily)

/-- A notice of the GPL family does not speak of the public domain. -/
theorem publicDomain_of_gpl (hgpl : (ofText text).family = .gpl) :
    Signature.publicDomain.occursIn text = false := by
  have hmem : ⟨[Signature.publicDomain], .named "public domain" none .publicDomain none⟩
      ∈ Signature.table := by decide +kernel
  have hfits := fits_of_gpl hgpl hmem (.inr rfl)
  rwa [Signature.fits_singleton] at hfits

/-- A GPL notice does not name the Lesser GPL. -/
theorem lesserGpl_of_gpl2 (hid : (ofText text).licenseId = some "GPL 2" ∨
    (ofText text).licenseId = some "GPL 2 or later") :
    Signature.lesserGpl.occursIn text = false := by
  rw [licenseId_ofText] at hid
  obtain ⟨decider, hsignature, hreport⟩ := exists_signature?_of_recognition text fun hunnamed => by
    rw [hunnamed] at hid
    simp [Recognition.id?] at hid
  obtain ⟨-, hmem, -, hearlier⟩ := signature?_eq_some_iff_earlier.1 hsignature
  have hfits := hearlier _ (Signature.lesserGpl_mem_earlier hmem (hreport ▸ hid))
  rwa [Signature.fits_singleton] at hfits

/-- **The parts of a verdict on a text agree with each other and with the text.** -/
structure Coherent (v : Verdict) (text : Text) : Prop where
  /-- A license that is named is one that the text speaks of. -/
  isLicense : v.licenseId.isSome = true → v.isLicense = true
  /-- Without a name there is neither family nor flag. -/
  unknown : v.licenseId = none → v.family = .unknown ∧ v.mask = 0
  /-- Apache and GPL licenses have one version. -/
  version : v.family = .apache ∨ v.family = .gpl →
    ∃! f : LicenseFlag, f.isVersion = true ∧ f.isSetIn v.mask = true
  /-- The public domain has no flags. -/
  publicDomain : v.family = .publicDomain → v.mask = 0
  /-- Later versions are marked for the GPL family, if the clause occurs. -/
  orLater_iff : LicenseFlag.orLater.isSetIn v.mask = true ↔
    v.family = .gpl ∧ Signature.orLater.occursIn text = true
  /-- The mark is part of the name. -/
  orLater_iff_suffix : LicenseFlag.orLater.isSetIn v.mask = true ↔
    ∃ id ∈ v.licenseId, "or later".toList <:+ id.toList
  /-- Where the Lesser GPL is named, the license is not the GPL. -/
  lesser : "GNU Lesser General Public License".toList <:+: text →
    v.licenseId ≠ some "GPL 2" ∧ v.licenseId ≠ some "GPL 2 or later"
  /-- Apache licenses come before the GPL family. -/
  no_apache : v.family = .gpl →
    ∀ s ∈ Signature.table, s.recognition.family = .apache → s.fits text = false
  /-- So does the public domain. -/
  no_publicDomain : v.family = .gpl →
    ∀ words : Text, words <:+: text → words.map Char.toLower ≠ "public domain".toList
  /-- A license is spoken of where one of its words is. -/
  isLicense_iff : v.isLicense = true ↔ speaksOfLicense text = true
  /-- The first signature that fits decides. -/
  decided : v.isLicense = true → ∀ s ∈ Signature.table, s.fits text = true →
    (∀ s' ∈ s.earlier, s'.fits text = false) →
    v.licenseId = s.recognition.id? (Signature.orLater.occursIn text) ∧
      v.family = s.recognition.family

/-- **The parts of a verdict agree, and they respect the order of the signatures**, for
every text. -/
theorem coherent_ofText (text : Text) : (ofText text).Coherent text where
  isLicense hid := by
    rw [isLicense_ofText]
    rw [licenseId_ofText] at hid
    obtain ⟨s, hsignature, -⟩ := exists_signature?_of_recognition text fun hunnamed => by
      rw [hunnamed] at hid
      cases hid
    exact (signature?_eq_some_iff.1 hsignature).1
  unknown hid := by
    rw [licenseId_ofText, Recognition.id?_eq_none_iff] at hid
    rw [family_ofText, mask, flags_ofText, hid, Recognition.flags_unnamed]
    exact ⟨rfl, rfl⟩
  version hfamily := by
    rw [family_ofText] at hfamily
    simp only [isSetIn_mask_ofText]
    exact Recognition.existsUnique_version (recognition_mem_known text) hfamily _
  publicDomain hfamily := by
    rw [family_ofText] at hfamily
    rw [mask, flags_ofText,
      Recognition.flags_of_publicDomain (recognition_mem_known text) hfamily]
    rfl
  orLater_iff := by
    rw [isSetIn_mask_ofText, family_ofText]
    exact Recognition.orLater_mem_flags_iff (recognition_mem_known text) _
  orLater_iff_suffix := by
    rw [isSetIn_mask_ofText, licenseId_ofText]
    exact Recognition.orLater_mem_flags_iff_suffix (recognition_mem_known text) _
  lesser hlesser := by
    have hoccurs := (Phrase.occursIn_exact_iff ..).2 hlesser
    exact ⟨fun hid => Bool.false_ne_true ((lesserGpl_of_gpl2 (.inl hid)).symm.trans hoccurs),
      fun hid => Bool.false_ne_true ((lesserGpl_of_gpl2 (.inr hid)).symm.trans hoccurs)⟩
  no_apache hfamily s hs hapache := fits_of_gpl hfamily hs (.inl hapache)
  no_publicDomain hfamily words hwords hlower := by
    have hnot := publicDomain_of_gpl hfamily
    rw [Signature.publicDomain, Bool.eq_false_iff] at hnot
    refine hnot ((Phrase.occursIn_anyCase_iff ..).2 ⟨words, hwords, ?_⟩)
    exact Phrase.map_lowerCase_of_map_toLower (by decide) (by decide) hlower
  isLicense_iff := by rw [isLicense_ofText]
  decided hspeaks s hs hfits hearlier := by
    rw [isLicense_ofText] at hspeaks
    have hsignature := signature?_eq_some_iff_earlier.2 ⟨hspeaks, hs, hfits, hearlier⟩
    rw [licenseId_ofText, family_ofText, recognition, hsignature]
    exact ⟨rfl, rfl⟩

/-- The GPL is named with its version, but the Lesser GPL is named without one. -/
example :
    ofText "GNU Lesser General Public License. GNU General Public License, Version 2".toList
      = { isCopyright := false, isLicense := true } := by
  decide +kernel

end Verdict

end LicenseHeader
