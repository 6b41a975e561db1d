import LicenseHeader.Language.Basic

/-!
# The language of a file name

A name belongs to a language by its ending, or, for two names, as a whole. The
table is data: `Language.namePatterns` lists the patterns with their languages in
the order in which they are tried, and `Language.ofFileName?` takes the first
that fits.
-/

namespace LicenseHeader

/-- What a file name must look like. -/
inductive NamePattern where
  /-- The name ends with a dot and this extension. -/
  | extension (ext : String)
  /-- The name is exactly this. -/
  | whole (name : String)
deriving DecidableEq, Repr

namespace NamePattern

/-- Whether a name fits a pattern. -/
def fits : NamePattern → Text → Bool
  | extension ext, name => Text.endsWith ('.' :: ext.toList) name
  | whole full, name => name == full.toList

end NamePattern

namespace Language

/-- The extensions of a language. -/
def extensions : Language → List String
  | xml =>
    ["xml", "xsl", "xslt", "xcat", "xmap", "xconf", "xroles", "roles", "xsp", "xlog",
      "xsamples", "xtest", "xweb", "xwelcome", "samplesxconf", "samplesxpipe", "svg", "xhtml",
      "jdo", "gt", "jx", "jxt", "meta", "pagesheet", "stx", "xegrm", "xgrm", "xlex", "xmi",
      "xsd", "rng", "rdf", "rdfs", "xul", "tld", "xxe", "ft", "fv", "xhtm", "launch"]
  | sgml => ["dtd", "mod", "sgml", "sgm"]
  | html => ["html", "htm", "ihtml"]
  | jsp => ["jsp"]
  | c => ["c", "h", "cpp", "cc", "cs", "css", "egrm", "grm"]
  | javascript => ["js", "javascript"]
  | java => ["java", "groovy", "gy", "jj", "jjt"]
  | jelly => ["jelly"]
  | sh => ["sh", "ccf"]
  | perl => ["pl", "pm"]
  | python => ["py"]
  | properties => ["properties", "rnc", "rnx", "properties.tmpl", "props"]
  | dos => ["bat", "cmd"]
  | sql => ["sql"]
  | velocity => ["vm", "vsl"]
  | text => ["txt"]

/-- The names that belong to a language as a whole. -/
def wholeNames : Language → List String
  | xml => [".classpath", ".project"]
  | _ => []

/-- **The file-name table**: each pattern with its language, in the order in which
they are tried. -/
def namePatterns : List (NamePattern × Language) :=
  all.flatMap fun l =>
    l.extensions.map (fun ext => (.extension ext, l)) ++
      l.wholeNames.map fun name => (.whole name, l)

/-- The language that a table of patterns gives a name: that of the first pattern
that fits. -/
def lookUp (table : List (NamePattern × Language)) (name : Text) : Option Language :=
  (table.find? fun entry => entry.1.fits name).map Prod.snd

/-- **The language of a file name**, given without its directory. -/
def ofFileName? (name : Text) : Option Language := lookUp namePatterns name

end Language

end LicenseHeader
