import LicenseHeader.Text.Basic

/-!
# Cutting a text into lines

Two ways of cutting are used, and they differ in what they keep. A *raw line*
keeps its terminator, so the raw lines of a text concatenate to the text
(`Text.flatten_rawLines`). `Text.lines` gives the lines as a reader sees them:
the newline goes, and with it a carriage return right before it, while a
carriage return at the very end of the text stays.
-/

namespace LicenseHeader.Text

/-- The raw lines of a text: it is cut after every newline. -/
def rawLines : Text → List Text
  | [] => []
  | c :: rest =>
    if c = '\n' then [c] :: rawLines rest
    else
      match rawLines rest with
      | [] => [[c]]
      | line :: more => (c :: line) :: more

/-- **The raw lines concatenate to the text.** -/
theorem flatten_rawLines (t : Text) : (rawLines t).flatten = t := by
  fun_induction rawLines t with
  | case1 => rfl
  | case2 rest ih => simp [ih]
  | case3 c rest _ hnil ih => simp_all
  | case4 c rest _ line more heq ih => simp_all

/-- The text without `c` at its end, where it has one. -/
def dropFinal (c : Char) (t : Text) : Text := if endsWithChar c t then t.dropLast else t

/-- A raw line without its newline; a carriage return before it stays. -/
def stripTerminator (raw : Text) : Text := dropFinal '\n' raw

/-- One raw line as a reader sees it: without its newline and without a carriage
return before that newline. -/
def visibleLine (raw : Text) : Text :=
  if endsWithChar '\n' raw then dropFinal '\r' raw.dropLast else raw

/-- The lines of a text without their terminators. -/
def lines (t : Text) : List Text := (rawLines t).map visibleLine

/-- Lines written one under another, each with its newline. -/
def unlines (ls : List Text) : Text := (ls.map (· ++ ['\n'])).flatten

end LicenseHeader.Text
