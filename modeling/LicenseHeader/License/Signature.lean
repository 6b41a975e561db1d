import LicenseHeader.License.Phrase

/-!
# Known licenses and what gives them away

Each known license has a signature: the phrases that its notice contains.
License texts quote each other, an Apache notice speaks of the public and a
Lesser GPL notice names the General Public License, so the order of the table is
part of the rule: the first signature whose phrases all occur decides. One entry
decides without naming a license, so that a Lesser GPL notice of an unknown
version does not pass for a GPL notice.
-/

namespace LicenseHeader

/-- The families that licenses come in. -/
inductive LicenseFamily where
  | unknown | apache | publicDomain | gpl
deriving DecidableEq, Repr

namespace LicenseFamily

/-- The name a family is reported by. -/
def tag : LicenseFamily → String
  | unknown => "unknown"
  | apache => "apache"
  | publicDomain => "public_domain"
  | gpl => "gpl"

end LicenseFamily

/-- A mark on a recognized license: its version, or that later versions may be
chosen. -/
inductive LicenseFlag where
  | apache10 | apache11 | apache12 | apache20 | orLater | lgpl20 | lgpl21 | gpl2
deriving DecidableEq, Repr

namespace LicenseFlag

/-- Every flag, in the order of their bits. -/
def all : List LicenseFlag :=
  [apache10, apache11, apache12, apache20, orLater, lgpl20, lgpl21, gpl2]

/-- The bit of a flag. -/
def bit : LicenseFlag → Nat
  | apache10 => 1
  | apache11 => 2
  | apache12 => 4
  | apache20 => 8
  | orLater => 16
  | lgpl20 => 32
  | lgpl21 => 64
  | gpl2 => 128

/-- The name a flag is reported by. -/
def tag : LicenseFlag → String
  | apache10 => "APACHE_10"
  | apache11 => "APACHE_11"
  | apache12 => "APACHE_12"
  | apache20 => "APACHE_20"
  | orLater => "OR_LATER"
  | lgpl20 => "LGPL_20"
  | lgpl21 => "LGPL_21"
  | gpl2 => "GPL_2"

/-- Whether a flag tells a version. -/
def isVersion (f : LicenseFlag) : Bool := f != orLater

/-- The bits of some flags together. -/
def bits (flags : List LicenseFlag) : Nat :=
  (all.filter (flags.contains ·)).foldr (fun f n => f.bit + n) 0

end LicenseFlag

/-- What a signature says about a notice. -/
inductive Recognition where
  /-- The license `id`, or `laterId` where the notice allows later versions. -/
  | named (id : String) (laterId : Option String) (family : LicenseFamily)
      (version : Option LicenseFlag)
  /-- A license that is not known by name. -/
  | unnamed
deriving DecidableEq, Repr

/-- **A signature**: the phrases a notice must contain, and what it then is. -/
structure Signature where
  /-- The phrases, all of which must occur. -/
  requires : List Phrase
  /-- What the notice is if they do. -/
  recognition : Recognition
deriving DecidableEq, Repr

namespace Signature

/-- Whether a text bears the signature. -/
def fits (s : Signature) (text : Text) : Bool := s.requires.all fun phrase => phrase.occursIn text

/-! ## Phrases -/

/-- The Apache 2.0 notice. -/
def apache20Notice : Phrase :=
  [.exact "Licensed under the Apache License".toList, .restOfLine, .exact "Version 2.0".toList]

/-- The variant of it that names the licensors. -/
def licensors : Phrase := [.exact "or its licensors".toList]

/-- A notice of the older Apache Software License, by version. -/
def apacheSoftware (version : String) : Phrase :=
  [.exact "The Apache Software License".toList, .restOfLine, .exact version.toList]

/-- The oldest Apache notice. -/
def apacheGroup : Phrase :=
  [.exact "Copyright".toList, .restOfLine, .exact "The Apache Group".toList]

/-- A dedication to the public domain. -/
def publicDomain : Phrase := [.anyCase "public domain".toList]

/-- The name of the Lesser GPL. -/
def lesserGpl : Phrase := [.exact "GNU Lesser General Public License".toList]

/-- The name of the GPL. -/
def gpl : Phrase := [.exact "GNU General Public License".toList]

/-- A version as whole words: `version 2` also stands at the start of
`version 2.0`, since a point ends a word. -/
def versionWords (wording : String) : Phrase := [.wordEdge, .exact wording.toList, .wordEdge]

/-- The clause that allows later versions. -/
def orLater : Phrase :=
  [.exact "or".toList, .blanks, .exact "(at".toList, .blanks, .exact "your".toList, .blanks,
    .exact "option)".toList, .blanks, .exact "any".toList, .blanks, .exact "later".toList, .blanks,
    .exact "version".toList]

/-! ## The table -/

/-- An Apache license. -/
def apache (requires : List Phrase) (id : String) (version : LicenseFlag) : Signature :=
  ⟨requires, .named id none .apache (some version)⟩

/-- A license of the GPL family, which may allow later versions. -/
def gnu (requires : List Phrase) (id : String) (version : LicenseFlag) : Signature :=
  ⟨requires, .named id (some (id ++ " or later")) .gpl (some version)⟩

/-- **The signatures in the order in which they are tried.** Lesser GPL notices
spell the version in lower case, GPL notices capitalize it. -/
def table : List Signature := [
  apache [apache20Notice, licensors] "Apache 2.0a" .apache20,
  apache [apache20Notice] "Apache 2.0" .apache20,
  apache [apacheSoftware "Version 1.2"] "Apache 1.2" .apache12,
  apache [apacheSoftware "Version 1.1"] "Apache 1.1" .apache11,
  apache [apacheGroup] "Apache 1.0" .apache10,
  ⟨[publicDomain], .named "public domain" none .publicDomain none⟩,
  gnu [lesserGpl, versionWords "version 2.1"] "LGPL 2.1" .lgpl21,
  gnu [lesserGpl, versionWords "version 2"] "LGPL 2.0" .lgpl20,
  ⟨[lesserGpl], .unnamed⟩,
  gnu [gpl, versionWords "Version 2"] "GPL 2" .gpl2]

end Signature

end LicenseHeader
