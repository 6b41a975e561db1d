import LicenseHeader.Text.Word

/-!
# Phrases of a notice

A license notice is recognized by the phrases in it. A phrase is a sequence of
parts: wording, exact or in any letter case, with room in between for blanks or
for the rest of a line, and conditions on the characters at its edges.

`Phrase.matchesAt` says whether a phrase can be read from a place in a text on,
the character before that place being known; every way of filling the flexible
parts is tried. `Phrase.occursIn` tries every place of the text.
-/

namespace LicenseHeader

/-- A part of a phrase. -/
inductive PhrasePart where
  /-- This wording, letter for letter. -/
  | exact (wording : Text)
  /-- This wording, given in lower case, in any letter case. -/
  | anyCase (wording : Text)
  /-- One or more blank characters. -/
  | blanks
  /-- Any characters of the same line, possibly none. -/
  | restOfLine
  /-- A word edge. -/
  | wordEdge
  /-- The start of the text, or a blank before. -/
  | afterBlank
  /-- The end of the text, or a blank behind. -/
  | beforeBlank
deriving DecidableEq, Repr

/-- A phrase: its parts in order. -/
abbrev Phrase := List PhrasePart

namespace Phrase

/-- The lower-case form of a character as far as the letters a to z are concerned.
Besides the capitals there are two characters that stand for such a letter: the
long s and the kelvin sign. -/
def lowerCase (c : Char) : Char :=
  if c = 'ſ' then 's' else if c = '\u212a' then 'k' else c.toLower

/-- What follows a wording in any letter case. -/
def afterAnyCase? : (wording text : Text) → Option Text
  | [], text => some text
  | _ :: _, [] => none
  | a :: wording, b :: text => if a = lowerCase b then afterAnyCase? wording text else none

/-- Whether `next` accepts a place behind one or more blanks. -/
def afterBlanks (next : Option Char → Text → Bool) : Text → Bool
  | [] => false
  | c :: rest => isSpace c && (next (some c) rest || afterBlanks next rest)

/-- Whether `next` accepts a place further on in the line. -/
def furtherOn (next : Option Char → Text → Bool) : Option Char → Text → Bool
  | before, [] => next before []
  | before, c :: rest =>
    next before (c :: rest) || (c != '\n' && furtherOn next (some c) rest)

/-- **Whether a phrase can be read here**, `before` being the character before. -/
def matchesAt : Phrase → (before : Option Char) → Text → Bool
  | [], _, _ => true
  | .exact wording :: phrase, before, text =>
    match Text.after? wording text with
    | some rest => matchesAt phrase (wording.getLast?.or before) rest
    | none => false
  | .anyCase wording :: phrase, before, text =>
    match afterAnyCase? wording text with
    | some rest => matchesAt phrase ((text.take wording.length).getLast?.or before) rest
    | none => false
  | .blanks :: phrase, _, text => afterBlanks (matchesAt phrase) text
  | .restOfLine :: phrase, before, text => furtherOn (matchesAt phrase) before text
  | .wordEdge :: phrase, before, text =>
    Text.isWordEdge before text.head? && matchesAt phrase before text
  | .afterBlank :: phrase, before, text => before.all isSpace && matchesAt phrase before text
  | .beforeBlank :: phrase, before, text => text.head?.all isSpace && matchesAt phrase before text

/-- Whether a phrase can be read at some place of a text that has `before` in front
of it. -/
def occursFrom (phrase : Phrase) : (before : Option Char) → Text → Bool
  | before, [] => phrase.matchesAt before []
  | before, c :: rest => phrase.matchesAt before (c :: rest) || occursFrom phrase (some c) rest

/-- **Whether a phrase occurs in a text.** -/
def occursIn (phrase : Phrase) (text : Text) : Bool := phrase.occursFrom none text

end Phrase

end LicenseHeader
