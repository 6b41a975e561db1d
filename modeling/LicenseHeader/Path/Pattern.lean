import LicenseHeader.Path.Basic

/-!
# Exclude patterns

A pattern is written with wildcards: `?` for one character, `*` for any run of
characters, `[…]` and `[!…]` for a set of characters, and `**` for any number of
whole names. None but the last ever matches a slash. There is no escape; the
first character of a set stands for itself even if it is a closing bracket.

`Pattern.ofText` reads a pattern, or says at which position it is wrong.
`Pattern.covers` matches from left to right: a run first tries to be empty and
then grows by one character at a time. A fixed character with no text left to
match ends the search at once, whatever the runs before it might still try.
-/

namespace LicenseHeader

/-- A part of a set of characters. -/
inductive CharRange where
  | single (c : Char)
  /-- All characters from one to another. -/
  | between (low high : Char)
deriving DecidableEq, Repr

namespace CharRange

/-- Whether a character belongs to a part of a set. -/
def holds : CharRange → Char → Bool
  | single a, c => a == c
  | between low high, c => low ≤ c && c ≤ high

/-- The parts of a set as it is written between its brackets. -/
def ofText : Text → List CharRange
  | low :: '-' :: high :: rest => between low high :: ofText rest
  | c :: rest => single c :: ofText rest
  | [] => []

end CharRange

/-- A token of a pattern. -/
inductive Wildcard where
  /-- This character. -/
  | literal (c : Char)
  /-- One character other than a slash. -/
  | anyChar
  /-- One character other than a slash that is in the set, or not in it. -/
  | anyOf (negated : Bool) (set : List CharRange)
  /-- Any run of characters other than slashes. -/
  | anyRun
  /-- Any number of whole names, each with its slash. -/
  | anyNames
deriving DecidableEq, Repr

/-- Why a text is no pattern, with the position of the fault. -/
inductive PatternError where
  /-- Three stars in a row. -/
  | tooManyStars (position : Nat)
  /-- Two stars that are not a whole name. -/
  | partialName (position : Nat)
  /-- A set that is empty or not closed. -/
  | badSet (position : Nat)
deriving DecidableEq, Repr

namespace PatternError

/-- Where the fault is. -/
def position : PatternError → Nat
  | tooManyStars position | partialName position | badSet position => position

/-- What is wrong there. -/
def fault : PatternError → String
  | tooManyStars _ => "wildcards are either regular `*` or recursive `**`"
  | partialName _ => "recursive wildcards must form a single path component"
  | badSet _ => "invalid range pattern"

/-- The wording of the error. -/
def message (e : PatternError) : String :=
  s!"Pattern syntax error near position {e.position}: {e.fault}"

end PatternError

/-- **An exclude pattern**: how it was written, and its tokens. -/
structure Pattern where
  source : Text
  tokens : List Wildcard
deriving DecidableEq, Repr

namespace Pattern

/-! ## Reading a pattern -/

/-- Where the reader of a pattern stands. -/
inductive Reading where
  /-- Outside of a set. -/
  | outside
  /-- In a set that began at `start`, with the members read so far. -/
  | inSet (start : Nat) (negated : Bool) (members : Text)

/-- The tokens, latest first, with one more for two stars. A run of them counts
once, except at the very start of a pattern, where two are kept. -/
def addNames (done : List Wildcard) : List Wildcard :=
  match done with
  | .anyNames :: _ :: _ => done
  | _ => .anyNames :: done

/-- Reading from `position` on, with the character before it and the tokens so far,
latest first. -/
def read : (position : Nat) → (before : Option Char) → Reading → (done : List Wildcard) → Text →
    Except PatternError (List Wildcard)
  | _, _, .outside, done, [] => .ok done.reverse
  | _, _, .inSet start _ _, _, [] => .error (.badSet start)
  | position, _, .inSet start negated members, done, c :: rest =>
    if c = ']' ∧ members ≠ [] then
      read (position + 1) (some c) .outside (.anyOf negated (CharRange.ofText members) :: done) rest
    else read (position + 1) (some c) (.inSet start negated (members ++ [c])) done rest
  | position, _, .outside, _, '*' :: '*' :: '*' :: _ => .error (.tooManyStars (position + 2))
  | position, before, .outside, done, '*' :: '*' :: [] =>
    if before.all (· == '/') then .ok (addNames done).reverse
    else .error (.partialName (position - 1))
  | position, before, .outside, done, '*' :: '*' :: c :: rest =>
    if !before.all (· == '/') then .error (.partialName (position - 1))
    else if c = '/' then read (position + 3) (some '/') .outside (addNames done) rest
    else .error (.partialName (position + 2))
  | position, _, .outside, done, '*' :: rest =>
    read (position + 1) (some '*') .outside (.anyRun :: done) rest
  | position, _, .outside, done, '?' :: rest =>
    read (position + 1) (some '?') .outside (.anyChar :: done) rest
  | position, _, .outside, done, '[' :: '!' :: rest =>
    read (position + 2) (some '!') (.inSet position true []) done rest
  | position, _, .outside, done, '[' :: rest =>
    read (position + 1) (some '[') (.inSet position false []) done rest
  | position, _, .outside, done, c :: rest =>
    read (position + 1) (some c) .outside (.literal c :: done) rest

/-- **The pattern that a text writes.** -/
def ofText (source : Text) : Except PatternError Pattern :=
  (read 0 none .outside [] source).map fun tokens => ⟨source, tokens⟩

/-! ## Matching -/

/-- How an attempt to match ends. -/
inductive Attempt where
  /-- It matches. -/
  | hit
  /-- It does not, but a run before it may try again. -/
  | miss
  /-- There is not enough text left for any attempt. -/
  | hopeless
deriving DecidableEq, Repr

/-- Matching one character against a token that takes one. -/
def accepts : Wildcard → Char → Bool
  | .literal a, c => a == c
  | .anyChar, c => c != '/'
  | .anyOf negated set, c => c != '/' && (set.any fun r => r.holds c) != negated
  | .anyRun, _ => false
  | .anyNames, _ => false

/-- A run of characters other than slashes before what `rest` matches. -/
def run (rest : Text → Attempt) : Text → Attempt
  | [] => rest []
  | c :: text =>
    match rest (c :: text) with
    | .miss => if c = '/' then .miss else run rest text
    | done => done

/-- Whole names before what `rest` matches: it is tried after each slash, and at
the end of the text. -/
def afterSlash (rest : Text → Attempt) : Text → Attempt
  | [] => rest []
  | c :: text =>
    if c = '/' then
      match rest text with
      | .miss => afterSlash rest text
      | done => done
    else afterSlash rest text

/-- Matching tokens against a text from left to right. -/
def attempt : List Wildcard → Text → Attempt
  | [], [] => .hit
  | [], _ :: _ => .miss
  | .anyRun :: tokens, text => run (attempt tokens) text
  | .anyNames :: tokens, text =>
    match attempt tokens text with
    | .miss => afterSlash (attempt tokens) text
    | done => done
  | _ :: _, [] => .hopeless
  | token :: tokens, c :: text => if accepts token c then attempt tokens text else .miss

/-- **Whether a pattern matches a whole text.** -/
def covers (p : Pattern) (text : Text) : Bool := attempt p.tokens text == .hit

end Pattern

end LicenseHeader
