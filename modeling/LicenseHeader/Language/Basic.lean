import LicenseHeader.Grammar

/-!
# Languages and their comment syntax

The kinds of file the program knows, their tags, and the grammar of each. The
grammars come in four shapes: markup blocks with an opener and a closer, blocks
with a leader on every line, line comments whose leader opens the block, and the
batch files, which open a block with a command that is not a comment line.
-/

namespace LicenseHeader

/-- A kind of file. -/
inductive Language where
  | xml | sgml | html | jsp | c | javascript | java | jelly
  | sh | perl | python | properties | dos | sql | velocity | text
deriving DecidableEq, Repr

namespace Language

/-- Every language. -/
def all : List Language :=
  [xml, sgml, html, jsp, c, javascript, java, jelly, sh, perl, python, properties, dos, sql,
    velocity, text]

/-- Every language is in the list of all of them. -/
theorem mem_all (l : Language) : l ∈ all := by cases l <;> decide

/-- The name a language is asked for and reported by. -/
def tag : Language → String
  | xml => "xml" | sgml => "sgml" | html => "html" | jsp => "jsp"
  | c => "c" | javascript => "javascript" | java => "java" | jelly => "jelly"
  | sh => "sh" | perl => "perl" | python => "python" | properties => "properties"
  | dos => "dos" | sql => "sql" | velocity => "velocity" | text => "text"

/-- The language with a given tag, written exactly as `tag` writes it. -/
def ofTag? (name : String) : Option Language := all.find? fun l => l.tag == name

/-- The tag of a language finds that language. -/
theorem ofTag?_tag (l : Language) : ofTag? l.tag = some l := by cases l <;> decide

/-- Blocks of markup between two tokens. -/
def markup (opener closer : Text) : Grammar where
  declaredOpener := some opener
  closer := some closer
  indent := { afterLeader := 2 }
  bounded := fun _ => .inl rfl

/-- Blocks between two tokens with a leader on every line in between. -/
def starred : Grammar where
  declaredOpener := some "/*".toList
  closer := some "*/".toList
  leader := some "*".toList
  indent := { beforeLeader := 1, afterLeader := 1, beforeCloser := 1 }
  bounded := fun _ => .inl rfl

/-- Line comments: every line of a block has the leader, the first one opens it. -/
def lineComments (opener leader : Text) : Grammar where
  declaredOpener := some opener
  leader := some leader
  indent := { afterLeader := 1 }
  bounded := fun _ => .inr rfl

/-- **The comment syntax of a language.** Plain text has none. -/
def grammar : Language → Grammar
  | xml | sgml | html | jelly => markup "<!--".toList "-->".toList
  | jsp => markup "<%--".toList "--%>".toList
  | c | javascript | java => starred
  | sh | perl | python | properties => lineComments "#".toList "#".toList
  | dos => lineComments "@echo off".toList "rem".toList
  | sql => lineComments "--".toList "--".toList
  | velocity => lineComments "##".toList "##".toList
  | text => .plain

end Language

/-- The grammar of a file whose language may be unknown. -/
def grammarOf (language : Option Language) : Grammar :=
  language.elim .plain Language.grammar

/-- The grammar a tag asks for; an unknown tag asks for no comment syntax. -/
def grammarOfTag (tag : String) : Grammar := grammarOf (Language.ofTag? tag)

end LicenseHeader
