import LicenseHeader.Text.Basic

/-!
# Texts as bytes

The bytes of a file are UTF-8. `Utf8.encode` writes a text, `Utf8.decode` reads
one and says, when the bytes are no text, where the first fault stands: the
length of the part before it that is a text, and how many bytes the fault takes
up, or that the bytes just end too early.

Reading is one pass over the bytes. A byte below 0x80 is a character; any other
byte begins a character of two to four bytes, which `Utf8.Begun` carries until
its last byte is read.
-/

namespace LicenseHeader

/-- The content of a file. -/
abbrev Bytes := List UInt8

/-- Why bytes are not a text. -/
inductive Utf8Error where
  /-- After `validUpTo` good bytes, `length` bytes cannot start or go on as a
  character. -/
  | invalid (validUpTo length : Nat)
  /-- After `validUpTo` good bytes, the last character is cut off by the end. -/
  | incomplete (validUpTo : Nat)
deriving DecidableEq, Repr

namespace Utf8Error

/-- The wording of a fault. -/
def message : Utf8Error → String
  | invalid validUpTo length =>
    s!"invalid utf-8 sequence of {length} bytes from index {validUpTo}"
  | incomplete validUpTo => s!"incomplete utf-8 byte sequence from index {validUpTo}"

end Utf8Error

namespace Utf8

/-- The bytes of one character, by the size of its code point. -/
def encodeChar (c : Char) : Bytes :=
  let n := c.toNat
  if n < 0x80 then [.ofNat n]
  else if n < 0x800 then [.ofNat (0xC0 + n / 64), .ofNat (0x80 + n % 64)]
  else if n < 0x10000 then
    [.ofNat (0xE0 + n / 4096), .ofNat (0x80 + n / 64 % 64), .ofNat (0x80 + n % 64)]
  else
    [.ofNat (0xF0 + n / 262144), .ofNat (0x80 + n / 4096 % 64), .ofNat (0x80 + n / 64 % 64),
      .ofNat (0x80 + n % 64)]

/-- The bytes of a text. -/
def encode (t : Text) : Bytes := t.flatMap encodeChar

/-- A character of several bytes that has begun. -/
structure Begun where
  /-- Its first byte. -/
  first : UInt8
  /-- The bits of its code point so far. -/
  value : Nat
  /-- How many of its bytes are read. -/
  taken : Nat
  /-- How many are still to come. -/
  wanted : Nat
deriving DecidableEq, Repr

/-- The character that a first byte begins: the byte tells its length. -/
def begin? (first : UInt8) : Option Begun :=
  let n := first.toNat
  if n < 0xC2 then none
  else if n < 0xE0 then some ⟨first, n - 0xC0, 1, 1⟩
  else if n < 0xF0 then some ⟨first, n - 0xE0, 1, 2⟩
  else if n < 0xF5 then some ⟨first, n - 0xF0, 1, 3⟩
  else none

/-- Whether a byte goes on a character that has begun. The narrower ranges for a
second byte keep out overlong forms, surrogates and what lies above the last
code point. -/
def Begun.accepts (g : Begun) (b : UInt8) : Bool :=
  let n := b.toNat
  let low := if g.taken = 1 ∧ g.first = 0xE0 then 0xA0
    else if g.taken = 1 ∧ g.first = 0xF0 then 0x90 else 0x80
  let high := if g.taken = 1 ∧ g.first = 0xED then 0xA0
    else if g.taken = 1 ∧ g.first = 0xF4 then 0x90 else 0xC0
  low ≤ n && n < high

/-- The code point so far with the bits of one more byte. -/
def Begun.valueWith (g : Begun) (b : UInt8) : Nat := g.value * 64 + (b.toNat - 0x80)

/-- Reading bytes after `done` good ones, with a character possibly begun. -/
def decodeFrom : (done : Nat) → Option Begun → Bytes → Except Utf8Error Text
  | _, none, [] => .ok []
  | done, some _, [] => .error (.incomplete done)
  | done, none, b :: rest =>
    if b.toNat < 0x80 then
      (decodeFrom (done + 1) none rest).map (Char.ofNat b.toNat :: ·)
    else
      match begin? b with
      | none => .error (.invalid done 1)
      | some g => decodeFrom done (some g) rest
  | done, some g, b :: rest =>
    if g.accepts b then
      if g.wanted = 1 then
        (decodeFrom (done + g.taken + 1) none rest).map (Char.ofNat (g.valueWith b) :: ·)
      else
        decodeFrom done (some ⟨g.first, g.valueWith b, g.taken + 1, g.wanted - 1⟩) rest
    else .error (.invalid done g.taken)

/-- The text that bytes hold. -/
def decode (bytes : Bytes) : Except Utf8Error Text := decodeFrom 0 none bytes

end Utf8

end LicenseHeader
