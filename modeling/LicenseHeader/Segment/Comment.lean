import LicenseHeader.Grammar
import LicenseHeader.Text.Line

/-!
# Comment blocks

A comment block is the content of a comment with its tokens taken off, together
with what is needed to put them back: the grammar, the margin before the first
token, which of the two ends were seen, and whether those two lines ended in a
carriage return.

Lines are fed in one at a time. `CommentBlock.push` ignores what comes before the
opener and after the closer, keeps no line that is only a token, and takes the
leader and the trailer off the others, so `CommentBlock.ofLines` reads the first
comment of a whole file. `CommentBlock.render` writes a block in the layout its
grammar prescribes; the one subtle number in it is `leaderGap`.
-/

namespace LicenseHeader

/-- **A comment block**: its content lines, and what writes them back. -/
structure CommentBlock where
  /-- The syntax the block is written in. -/
  grammar : Grammar
  /-- The blanks before the first token of the block. -/
  margin : Text := []
  /-- Whether the start of the block was seen. -/
  opened : Bool := false
  /-- Whether its end was seen. -/
  closed : Bool := false
  /-- Whether the opener line ended in a carriage return. -/
  openerReturn : Bool := false
  /-- Whether the closer line ended in a carriage return. -/
  closerReturn : Bool := false
  /-- The content lines as they stood after the leader, gap included. -/
  lines : List Text := []
deriving DecidableEq

namespace CommentBlock

/-! ## Reading -/

/-- The content of a line that has the leader: without leader and trailer. -/
def contentOf (g : Grammar) (rest : Text) : Text := (g.beforeTrailer? rest).getD rest

/-- A content line is kept while the block is open. -/
def keep (b : CommentBlock) (content : Text) : CommentBlock :=
  if b.opened && !b.closed then { b with lines := b.lines ++ [content] } else b

/-- A line that is neither a lone opener nor a closer. Without a closer the first
line with the leader opens the block and the first without it ends it; without
any syntax the first line that is not blank opens it. -/
def pushContent (b : CommentBlock) (line : Text) : CommentBlock :=
  let g := b.grammar
  if g.leader.isSome then
    match g.leaderRest? line with
    | some (margin, rest) =>
      let b := if g.closer.isNone && !b.opened then { b with margin, opened := true } else b
      b.keep (contentOf g rest)
    | none =>
      let b := if g.closer.isNone && b.opened then { b with closed := true } else b
      b.keep line
  else
    let b := if !g.hasComments && !Text.isBlank line then { b with opened := true } else b
    b.keep line

/-- Whether a line is the lone opener that the block still waits for; its margin. -/
def openerFor? (b : CommentBlock) (line : Text) : Option Text :=
  if b.grammar.openerAlone && !b.opened then b.grammar.openerMargin? line else none

/-- **One more line**, without its terminator. -/
def push (b : CommentBlock) (line : Text) : CommentBlock :=
  match b.openerFor? line with
  | some margin =>
    { b with margin, opened := true, openerReturn := Text.endsWithChar '\r' line }
  | none =>
    if b.grammar.closes line then
      { b with closed := true, closerReturn := Text.endsWithChar '\r' line }
    else b.pushContent line

/-- The first comment block among raw lines. -/
def ofLines (g : Grammar) (raws : List Text) : CommentBlock :=
  raws.foldl (fun b raw => b.push (Text.stripTerminator raw)) { grammar := g }

/-- The same content under another syntax. -/
def retarget (b : CommentBlock) (g : Grammar) : CommentBlock := { b with grammar := g }

/-! ## Content -/

/-- The content lines without the gap after the leader. -/
def body (b : CommentBlock) : List Text :=
  b.lines.map (Text.trimUpTo (if b.grammar.leader.isSome then b.grammar.indent.afterLeader else 0))

/-- The content as one text: the lines, with the gaps they keep, joined by single
spaces. -/
def prose (b : CommentBlock) : Text := [' '].intercalate b.lines

/-- Whether the block holds nothing to write. A lone opener line counts as
something, since it stood in the file. -/
def isEmpty (b : CommentBlock) : Bool :=
  b.lines.isEmpty && !(b.opened && b.grammar.openerAlone)

/-! ## Writing -/

/-- **The number of spaces between the leader and a line's content.** It starts at
`width` and goes down by one for each blank the content starts with. The last
character counts as a blank, so a content of one character gets no gap. -/
def leaderGap : (content : Text) → (width : Nat) → Nat
  | [], _ => 0
  | [_], _ => 0
  | _, 0 => 0
  | c :: d :: rest, width + 1 =>
    if isSpace c then leaderGap (d :: rest) width else width + 1

/-- The end of an opener or closer line. -/
def terminator (carriageReturn : Bool) : Text := if carriageReturn then ['\r', '\n'] else ['\n']

/-- A line with the opener alone, where the grammar has such lines. -/
def renderOpener (b : CommentBlock) : Text :=
  match b.grammar.opener with
  | some token =>
    if b.grammar.openerAlone then
      b.margin ++ Text.spaces b.grammar.indent.beforeOpener ++ token ++ terminator b.openerReturn
    else []
  | none => []

/-- What stands before the content of a line: margin, leader and gap. -/
def renderLeader (b : CommentBlock) (content : Text) : Text :=
  match b.grammar.leader with
  | some token =>
    b.margin ++ Text.spaces b.grammar.indent.beforeLeader ++ token ++
      Text.spaces (leaderGap content b.grammar.indent.afterLeader)
  | none => []

/-- What stands after the content of a line: the trailer. -/
def renderTrailer (b : CommentBlock) : Text :=
  match b.grammar.trailer with
  | some token => Text.spaces b.grammar.indent.beforeTrailer ++ token
  | none => []

/-- A content line between its tokens. -/
def renderLine (b : CommentBlock) (content : Text) : Text :=
  b.renderLeader content ++ content ++ b.renderTrailer ++ ['\n']

/-- A line with the closer, where the grammar has one. -/
def renderCloser (b : CommentBlock) : Text :=
  match b.grammar.closer with
  | some token =>
    b.margin ++ Text.spaces b.grammar.indent.beforeCloser ++ token ++ terminator b.closerReturn
  | none => []

/-- **The block as text**, in the layout of its grammar. -/
def render (b : CommentBlock) : Text :=
  b.renderOpener ++ b.lines.flatMap b.renderLine ++ b.renderCloser

end CommentBlock

end LicenseHeader
