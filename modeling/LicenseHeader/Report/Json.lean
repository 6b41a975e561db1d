/-!
# JSON

Values of JSON and their text: one field or item a line, two spaces for each level,
fields in the order in which they are given. Empty lists and objects take one line.
-/

namespace LicenseHeader

/-- **A JSON value.** -/
inductive Json where
  | null
  | bool (b : Bool)
  | nat (n : Nat)
  /-- A number with a fraction, given by its digits. -/
  | decimal (digits : String)
  | str (s : String)
  | arr (items : List Json)
  | obj (fields : List (String × Json))

namespace Json

/-- A hexadecimal digit. -/
def hexDigit (n : Nat) : Char := Nat.digitChar (n % 16)

/-- A character inside a quoted text. -/
def quoteChar (c : Char) : List Char :=
  match c with
  | '"' => ['\\', '"']
  | '\\' => ['\\', '\\']
  | '\n' => ['\\', 'n']
  | '\r' => ['\\', 'r']
  | '\t' => ['\\', 't']
  | '\x08' => ['\\', 'b']
  | '\x0c' => ['\\', 'f']
  | _ =>
    if c.toNat < 0x20 then ['\\', 'u', '0', '0', hexDigit (c.toNat / 16), hexDigit c.toNat]
    else [c]

/-- A quoted text. -/
def quote (s : String) : String := "\"" ++ String.ofList (s.toList.flatMap quoteChar) ++ "\""

/-- The start of a line at a level. -/
def newLine (level : Nat) : String := "\n" ++ String.ofList (List.replicate (2 * level) ' ')

mutual

/-- The text of a value that starts at a level. -/
def render (level : Nat) : Json → String
  | null => "null"
  | bool true => "true"
  | bool false => "false"
  | nat n => toString n
  | decimal digits => digits
  | str s => quote s
  | arr [] => "[]"
  | arr (item :: items) =>
    "[" ++ newLine (level + 1) ++ render (level + 1) item ++ renderItems (level + 1) items ++
      newLine level ++ "]"
  | obj [] => "\x7b\x7d"
  | obj ((name, value) :: fields) =>
    "\x7b" ++ newLine (level + 1) ++ quote name ++ ": " ++ render (level + 1) value ++
      renderFields (level + 1) fields ++ newLine level ++ "\x7d"

/-- The items of a list after the first. -/
def renderItems (level : Nat) : List Json → String
  | [] => ""
  | item :: items => "," ++ newLine level ++ render level item ++ renderItems level items

/-- The fields of an object after the first. -/
def renderFields (level : Nat) : List (String × Json) → String
  | [] => ""
  | (name, value) :: fields =>
    "," ++ newLine level ++ quote name ++ ": " ++ render level value ++ renderFields level fields

end

end Json

end LicenseHeader
