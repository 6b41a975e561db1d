/-!
# Texts, blank characters and tokens

A text is the list of its characters (Unicode scalar values), and a line is a
text too: every count and every position of the program is a count of
characters. This module holds what the rest of the library asks of a text
without looking at lines: which characters are blank, how blanks are trimmed,
and where a token stands.

A token is matched literally. `Text.after?` finds it at the start of a text and
`Text.cut?` at its first occurrence; the two lemmas `Text.after?_eq_some_iff`
and `Text.append_of_cut?` say that what they return is the text taken apart.
-/

namespace LicenseHeader

/-- A text, a line or a token: its characters in order. -/
abbrev Text := List Char

/-! ## Blank characters -/

/-- **The blank characters**: those with the White_Space property. The
zero-width space and the byte-order mark are not among them. -/
def isSpace (c : Char) : Bool :=
  let n := c.toNat
  (9 ≤ n && n ≤ 13) || n = 0x20 || n = 0x85 || n = 0xA0 || n = 0x1680 ||
    (0x2000 ≤ n && n ≤ 0x200A) || n = 0x2028 || n = 0x2029 || n = 0x202F ||
    n = 0x205F || n = 0x3000

namespace Text

/-- A text of blank characters only; the empty text is one. -/
def isBlank (t : Text) : Bool := t.all isSpace

/-- The text without its leading blanks. -/
def trimStart (t : Text) : Text := t.dropWhile isSpace

/-- The text without its trailing blanks. -/
def trimEnd (t : Text) : Text := (t.reverse.dropWhile isSpace).reverse

/-- The text without the blanks around it. -/
def trim (t : Text) : Text := trimEnd (trimStart t)

/-- The text without its leading blanks, of which at most `width` are taken. -/
def trimUpTo : Nat → Text → Text
  | 0, t => t
  | _ + 1, [] => []
  | width + 1, c :: rest => if isSpace c then trimUpTo width rest else c :: rest

/-- A run of plain spaces. -/
def spaces (n : Nat) : Text := List.replicate n ' '

/-- The order of texts: character by character, by code points, a text coming after
its own start. It is also the order of their bytes in UTF-8. -/
def precedes : Text → Text → Bool
  | [], _ => true
  | _ :: _, [] => false
  | a :: s, b :: t => a.toNat < b.toNat || (a == b && precedes s t)

/-! ## Tokens -/

/-- What follows `token` when the text starts with it. -/
def after? : (token text : Text) → Option Text
  | [], text => some text
  | _ :: _, [] => none
  | a :: token, b :: text => if a = b then after? token text else none

/-- **A token is found exactly where it stands.** -/
theorem after?_eq_some_iff {token text rest : Text} :
    after? token text = some rest ↔ text = token ++ rest := by
  fun_induction after? token text with
  | case1 text => simp [eq_comm]
  | case2 => simp
  | case3 token b text ih => simp [ih]
  | case4 a token b text hab => simp [hab, eq_comm]

/-- The text before and after the first occurrence of `token`. -/
def cut? (token : Text) : Text → Option (Text × Text)
  | [] => (after? token []).map fun rest => ([], rest)
  | c :: text =>
    match after? token (c :: text) with
    | some rest => some ([], rest)
    | none => (cut? token text).map fun (before, rest) => (c :: before, rest)

/-- Cutting at a token loses nothing but the token. -/
theorem append_of_cut? {token text before rest : Text}
    (h : cut? token text = some (before, rest)) : text = before ++ token ++ rest := by
  fun_induction cut? token text generalizing before with
  | case1 =>
    obtain ⟨r, hr, heq⟩ := Option.map_eq_some_iff.1 h
    obtain ⟨rfl, rfl⟩ := Prod.mk.inj heq
    simpa using after?_eq_some_iff.1 hr
  | case2 c text r hr =>
    obtain ⟨rfl, rfl⟩ := Prod.mk.inj (Option.some.inj h)
    simpa using after?_eq_some_iff.1 hr
  | case3 c text _ ih =>
    obtain ⟨⟨b, r⟩, hr, heq⟩ := Option.map_eq_some_iff.1 h
    obtain ⟨rfl, rfl⟩ := Prod.mk.inj heq
    simp [ih hr]

/-- Whether the text ends with `token`. -/
def endsWith (token text : Text) : Bool := (after? token.reverse text.reverse).isSome

/-- Whether the last character of the text is `c`. -/
def endsWithChar (c : Char) (text : Text) : Bool := text.getLast? == some c

end Text

end LicenseHeader
