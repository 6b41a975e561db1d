import LicenseHeader.Text.Basic

/-!
# Comment grammars

A grammar says how one kind of file writes its comments: a token that opens a
block, one that closes it, a leader at the start of every line and a trailer at
its end, each of them optional, and five widths used when a comment is written
out.

**A grammar that opens blocks can end them.** An opener without a closer needs a
leader, since otherwise nothing says where the block ends; that is the proof
field `Grammar.bounded`, and `Grammar.ofTokens` refuses the rest. A grammar with
a leader and no opener opens its blocks with the leader, so the opener in force
is `Grammar.opener`, not the one that was declared.

The opener stands on a line of its own (`Grammar.openerAlone`) when a closer ends
the block, or when the opener is not itself a comment line. Everything else is
about one line without its terminator: `openerMargin?`, `closes`, `leaderRest?`
and `beforeTrailer?`. Whitespace around a token is matched as far as it goes and
given back only where the token would not be found otherwise, which is what
`Grammar.marginThen?` does.
-/

namespace LicenseHeader

/-- Widths, in spaces, used when a comment is written out. -/
structure Indent where
  /-- Before the opener. -/
  beforeOpener : Nat := 0
  /-- Before the leader of a line. -/
  beforeLeader : Nat := 0
  /-- The least gap between the leader and the text of a line. -/
  afterLeader : Nat := 0
  /-- Before the trailer of a line. -/
  beforeTrailer : Nat := 0
  /-- Before the closer. -/
  beforeCloser : Nat := 0
deriving DecidableEq, Repr

/-- **The comment syntax of a kind of file.** -/
structure Grammar where
  /-- The opener that was declared, if any. -/
  declaredOpener : Option Text := none
  /-- The token that ends a block. -/
  closer : Option Text := none
  /-- The token at the start of each line of a block. -/
  leader : Option Text := none
  /-- The token at the end of each line of a block. -/
  trailer : Option Text := none
  /-- The widths used when writing. -/
  indent : Indent := {}
  /-- A declared opener comes with a closer or a leader. -/
  bounded : declaredOpener.isSome → closer.isSome ∨ leader.isSome := by decide
deriving DecidableEq

/-- Why tokens do not make a grammar. -/
inductive GrammarError where
  /-- The opener has neither a closer nor a leader. -/
  | unboundedOpener (opener : Text)
deriving DecidableEq, Repr

namespace GrammarError

/-- The wording of the error. -/
def message : GrammarError → String
  | unboundedOpener opener =>
    s!"Invalid grammar: opener '{String.ofList opener}' needs a closer or a leader"

end GrammarError

namespace Grammar

/-- The grammar of files without any comment syntax. -/
def plain : Grammar := {}

/-- The grammar with the given tokens and widths. -/
def ofTokens (opener closer leader trailer : Option Text) (indent : Indent) :
    Except GrammarError Grammar :=
  match opener, closer, leader with
  | some o, none, none => .error (.unboundedOpener o)
  | some o, some c, l => .ok ⟨some o, some c, l, trailer, indent, by simp⟩
  | some o, none, some l => .ok ⟨some o, none, some l, trailer, indent, by simp⟩
  | none, c, l => .ok ⟨none, c, l, trailer, indent, by simp⟩

/-! ## Matching around whitespace -/

/-- **A margin, then something else.** The longest run of leading blanks after
which `accept` takes the rest, with what it makes of it. -/
def marginThen? {α : Type} (accept : Text → Option α) : Text → Option (Text × α)
  | [] => (accept []).map fun a => ([], a)
  | c :: rest =>
    match if isSpace c then marginThen? accept rest else none with
    | some (margin, a) => some (c :: margin, a)
    | none => (accept (c :: rest)).map fun a => ([], a)

/-- What follows `token`, if it is blank. -/
def afterThenBlank? (token text : Text) : Option Text :=
  (Text.after? token text).filter Text.isBlank

/-- What follows `token`, if it holds no newline. -/
def afterOnLine? (token text : Text) : Option Text :=
  (Text.after? token text).filter fun rest => !rest.contains '\n'

/-- Whether a line ends with `token` and blanks. -/
def endsWithToken (token : Text) : Text → Bool
  | [] => (afterThenBlank? token []).isSome
  | c :: rest => (afterThenBlank? token (c :: rest)).isSome || endsWithToken token rest

/-- The shortest start of a line, without a newline, after which there is only
`token` with blanks around it. -/
def beforeToken? (token : Text) : Text → Option Text
  | [] => if (marginThen? (afterThenBlank? token) []).isSome then some [] else none
  | c :: rest =>
    if (marginThen? (afterThenBlank? token) (c :: rest)).isSome then some []
    else if c = '\n' then none
    else (beforeToken? token rest).map (c :: ·)

/-! ## The tokens of a grammar on a line -/

variable (g : Grammar)

/-- The opener in force: the declared one, or else the leader. -/
def opener : Option Text := g.declaredOpener <|> g.leader

/-- Whether the grammar writes comments at all. -/
def hasComments : Bool := g.opener.isSome

/-- The margin and the rest of a line that starts with the leader. -/
def leaderRest? (line : Text) : Option (Text × Text) :=
  g.leader.bind fun token => marginThen? (afterOnLine? token) line

/-- Whether a line starts with the leader. -/
def leads (line : Text) : Bool := (g.leaderRest? line).isSome

/-- Whether the opener takes a line of its own: always when a closer ends the
block, and otherwise when the opener is not itself a line with the leader. -/
def openerAlone : Bool :=
  g.opener.any fun token => g.closer.isSome || !g.leads token

/-- The margin of a line that opens a block. -/
def openerMargin? (line : Text) : Option Text :=
  g.opener.bind fun token =>
    (marginThen? (if g.openerAlone then afterThenBlank? token else Text.after? token) line).map
      Prod.fst

/-- Whether a line opens a block. -/
def opens (line : Text) : Bool := (g.openerMargin? line).isSome

/-- Whether a line closes a block: it ends with the closer. -/
def closes (line : Text) : Bool := g.closer.any fun token => endsWithToken token line

/-- A line without its trailer and the blanks before it, if it has one. -/
def beforeTrailer? (line : Text) : Option Text :=
  g.trailer.bind fun token => beforeToken? token line

end Grammar

end LicenseHeader
