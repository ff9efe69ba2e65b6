import DocComment.Language
import DocComment.Text.Case

/-!
# Known tags

The documentation tags of each dialect with the template of what follows them, and the lookup of a
tag that has been typed in part.
-/

namespace DocComment

/-- A tag and the snippet that follows it. -/
structure KnownTag where
  name : Text
  template : Text
  deriving DecidableEq

namespace KnownTag

/-- Writes a snippet in full: each word in angle brackets becomes a tab stop, numbered from `n`
on. -/
def expand (n : Nat) : Text → Text
  | [] => []
  | '<' :: rest => '$' :: '{' :: Text.ofNat n ++ ':' :: expand n rest
  | '>' :: rest => '}' :: expand (n + 1) rest
  | c :: rest => c :: expand n rest

/-- A known tag, given by its name and its template with the tab stops in angle brackets, numbered
from `first` on. -/
def entry (name : String) (template : String := "") (first : Nat := 0) : KnownTag :=
  ⟨name.toList, expand first template.toList⟩

/-- The tag and its template, as inserted after the introducer. -/
def snippet (t : KnownTag) : Text :=
  if t.template.isEmpty then t.name else t.name ++ ' ' :: t.template

/-- The sections of Rust documentation. -/
def rustSections : List KnownTag := [
  entry "Aborts" "<description>", entry "Errors" "<description>",
  entry "Examples" "\x60\x60\x60\n<description>\n\x60\x60\x60", entry "Panics" "<description>",
  entry "Safety" "<description>", entry "Undefined Behavior" "<description>"]

/-- The tags of JSDoc. -/
def jsdoc : List KnownTag := [
  entry "abstract", entry "access" "<package|private|protected|public>",
  entry "alias" "<aliasNamepath>", entry "async", entry "author" "<name> <email>",
  entry "borrows" "<namepath> as <namepath>", entry "callback" "<namepath>",
  entry "class" "<name>", entry "classdesc" "<description>", entry "const" "\x7b<type>\x7d",
  entry "constructs" "<name>", entry "copyright" "<copyright>", entry "default" "<value>",
  entry "deprecated" "<description>", entry "desc" "<description>", entry "enum" "\x7b<type>\x7d",
  entry "event" "<eventName>", entry "example" "<example>", entry "exports" "<moduleName>",
  entry "extends" "<namepath>", entry "external" "<name>", entry "file" "<description>",
  entry "fires" "<eventName>", entry "function" "<functionName>", entry "generator",
  entry "global", entry "hideconstructor", entry "ignore",
  entry "implements" "\x7b<typeExpression>\x7d", entry "inheritdoc", entry "inner",
  entry "instance", entry "interface" "<name>", entry "kind" "<kindName>",
  entry "lends" "<namepath>", entry "license" "<identifier>", entry "listens" "<eventName>",
  entry "memberof" "<parentNamepath>", entry "mixes" "<otherObjectPath>",
  entry "mixin" "<MixinName>", entry "module" "<moduleName>", entry "name" "<namepath>",
  entry "namespace" "<name>", entry "override", entry "package",
  entry "param" "\x7b<type>\x7d <name> - <description>", entry "private",
  entry "property" "\x7b<type>\x7d <name> - <description>", entry "protected", entry "public",
  entry "readonly", entry "requires" "<moduleName>",
  entry "returns" "\x7b<type>\x7d - <description>", entry "see" "<namepath>",
  entry "since" "<versionDescription>", entry "static", entry "this" "<namePath>",
  entry "throws" "\x7b<type>\x7d - <description>", entry "todo" "<description>",
  entry "tutorial" "<description>", entry "type" "\x7b<type>\x7d",
  entry "typedef" "\x7b<type>\x7d <namepath>", entry "variation" "<variationNumber>",
  entry "version" "<version>", entry "yields" "\x7b<type>\x7d - <description>"]

/-- The tags of PHPDoc. -/
def phpdoc : List KnownTag := [
  entry "api", entry "author" "<name> <email>", entry "deprecated" "<version> <description>",
  entry "copyright" "<description>", entry "example" "<example>", entry "filesource",
  entry "ignore" "<description>", entry "internal" "<description>", entry "license" "<name>",
  entry "link" "<URI> <description>", entry "method" "<description>",
  entry "package" "<description>", entry "param" "<type> <name> <description>",
  entry "property" "<type> <name> <description>", entry "return" "<type> <description>",
  entry "see" "<URI|FQSEN> <description>", entry "since" "<version> <description>",
  entry "throws" "<type> <description>", entry "todo" "<description>",
  entry "uses" "<FQSEN> <description>", entry "var" "<type>",
  entry "version" "<version> <description>"]

/-- The tags of Javadoc. -/
def javadoc : List KnownTag := [
  entry "author" "<name>", entry "version" "<version>", entry "since" "<version>",
  entry "see" "<reference>", entry "serial", entry "serialField",
  entry "param" "<name> <description>", entry "return" "<description>",
  entry "exception" "<classname> <description>", entry "throws" "<classname> <description>",
  entry "deprecated" "<description>", entry "inheritDoc", entry "link" "<reference>",
  entry "linkPlain" "<reference>", entry "value", entry "docRoot", entry "code", entry "literal"]

/-- The tags of Doxygen. -/
def doxygen : List KnownTag := [
  entry "addtogroup" "<name> <title>", entry "callgraph", entry "hidecallgraph",
  entry "callergraph", entry "hidecallergraph", entry "showrefby", entry "hiderefby",
  entry "showrefs", entry "hiderefs", entry "class" "<name> <header file> <header name>",
  entry "concept" "<name>", entry "def" "<name>", entry "defgroup" "<name> <group> <title>",
  entry "dir" "<path> <fragment>", entry "enum" "<name>", entry "example" "<lineno>, <file name>",
  entry "endinternal", entry "extends" "<name>", entry "file" "<name>", entry "fn",
  entry "headerfile" "<header file> <header name>" 1, entry "hideinitializer",
  entry "idlexcept" "<name>", entry "implements" "<name>", entry "ingroup" "<groupname>",
  entry "interface" "<name> <header file> <header name>", entry "internal",
  entry "mainpage" "<title>", entry "memberof" "<name>", entry "name" "<header>",
  entry "namespace" "<name>", entry "nosubgrouping", entry "overload" "<function declaration>",
  entry "page" "<name> <title>", entry "private", entry "privatesection", entry "property",
  entry "protected", entry "protectedsection",
  entry "protocol" "<name> <header file> <header name>", entry "public", entry "publicsection",
  entry "pure", entry "relates" "<name>", entry "related" "<name>", entry "relatesalso" "<name>",
  entry "relatedalso" "<name>", entry "showinitializer", entry "static",
  entry "struct" "<name> <header file> <header name>", entry "typedef",
  entry "union" "<name> <header file> <header name>", entry "var",
  entry "weakgroup" "<name> <title>", entry "author" "<author>", entry "brief" "<description>",
  entry "bug" "<description>", entry "copyright" "<copyright>", entry "date" "<date>",
  entry "deprecated" "<description>", entry "details" "<description>", entry "noop",
  entry "raisewarning", entry "note" "<text>", entry "param" "<name> <description>",
  entry "result" "<description>", entry "return" "<description>", entry "retval" "<description>",
  entry "see" "<references>", entry "since" "<text>", entry "throw" "<exception description>",
  entry "throws" "<exception description>", entry "todo" "<text>", entry "version" "<version>",
  entry "warning" "<message>"]

/-- The tags of HeaderDoc. -/
def headerdoc : List KnownTag := [
  entry "abstract" "<description>", entry "apiuid" "<description>", entry "attribute",
  entry "attributelist", entry "attributeblock", entry "availability" "<description>",
  entry "brief" "<description>", entry "discussion" "<description>", entry "indexgroup" "<name>",
  entry "internal", entry "link" "<link>", entry "namespace" "<namespace>", entry "see" "<link>",
  entry "seealso" "<link>", entry "updated" "<description>",
  entry "frameworkcopyright" "<year> <description>", entry "frameworkpath" "<path>",
  entry "frameworkuid" "<UID>", entry "headerpath" "<path>", entry "author" "<author>",
  entry "charset" "<charset>", entry "compilerflag" "<flags>", entry "copyright" "<copyright>",
  entry "CFBundleIdentifier" "<bundle>", entry "encoding" "<charset>", entry "flag" "<flags>",
  entry "ignore" "<description>", entry "ignorefuncmacro" "<description>", entry "preprocinfo",
  entry "related" "<description>", entry "unsorted", entry "version" "<version>",
  entry "whyinclude" "<description>", entry "classdesign" "<description>",
  entry "coclass" "<class> <description>", entry "dependency" "<description>",
  entry "deprecated" "<description>", entry "helper" "<class>", entry "helperclass" "<class>",
  entry "helps" "<description>", entry "instancesize" "<description>",
  entry "ownership" "<description>", entry "performance" "<description>",
  entry "security" "<description>", entry "superclass" "<class>",
  entry "templatefield" "<field> <description>", entry "var" "<var>",
  entry "param" "<name> <description>", entry "result" "<description>",
  entry "return" "<description>", entry "throws" "<description>",
  entry "callback" "<function> <description>", entry "field" "<field> <description>",
  entry "constant" "<name> <description>", entry "const" "<name> <description>",
  entry "define" "<name>", entry "defined" "<name>", entry "noParse", entry "parseOnly"]

/-- The tags of YARD. -/
def yard : List KnownTag := [
  entry "abstract" "<description>", entry "api" "<description>", entry "author" "<description>",
  entry "deprecated" "<description>", entry "example", entry "note" "<description>",
  entry "option" "[<type>] <name> <description>", entry "overload" "<description>",
  entry "param" "[<type>] <name> <description>", entry "private",
  entry "raise" "[<type>] <description>", entry "return" "[<type>] <description>",
  entry "see" "<name> <description>", entry "since" "<description>", entry "todo" "<description>",
  entry "version" "<description>", entry "yield" "[<parameters>] <description>",
  entry "yieldparam" "[<type>] <name> <description>",
  entry "yieldreturn" "[<type>] <description>"]

/-- The callouts of Swift markup. -/
def swiftMarkup : List KnownTag := [
  entry "attention" "<description>", entry "author" "<description>",
  entry "authors" "<description>", entry "bug" "<description>",
  entry "complexity" "<description>", entry "copyright" "<description>",
  entry "date" "<description>", entry "example" "<description>",
  entry "experiment" "<description>", entry "important" "<description>",
  entry "invariant" "<description>", entry "note" "<description>",
  entry "parameter" "<name> <description>", entry "postcondition" "<description>",
  entry "precondition" "<description>", entry "remark" "<description>",
  entry "remarks" "<description>", entry "requires" "<description>",
  entry "returns" "<description>", entry "see" "<description>", entry "since" "<description>",
  entry "throws" "<description>", entry "todo" "<description>", entry "version" "<description>",
  entry "warning" "<description>"]

/-- How a typed text is compared with the names of a table. -/
inductive Matching where
  /-- The name starts with the text. -/
  | fromStart
  /-- The text occurs in the name. -/
  | anywhere
  /-- The text in title case occurs in the name. -/
  | titleCase
  deriving DecidableEq

/-- The tags of a language. -/
def table : Language → List KnownTag
  | .javascript | .typescript => jsdoc
  | .php => phpdoc
  | .java => javadoc
  | .cpp => doxygen
  | .objc => headerdoc
  | .ruby => yard
  | .rust => rustSections
  | .swift => swiftMarkup

/-- How the tags of a language are looked up. -/
def matching : Language → Matching
  | .javascript | .typescript => .fromStart
  | .rust => .titleCase
  | _ => .anywhere

/-- Whether a name agrees with a typed text. -/
def Matching.accepts (m : Matching) (typed name : Text) : Bool :=
  match m with
  | fromStart => typed.isPrefixOf name
  | anywhere => Text.occurs typed name
  | titleCase => Text.occurs (Text.titleCase typed) name

/-- A character that introduces a tag in some dialect. -/
def isIntroducer (c : Char) : Bool := "@\\#-".toList.contains c

/-- What was typed, without blanks around it and the introducers before it. -/
def typedName (typed : Text) : Text :=
  Text.trimStart ((Text.trim typed).dropWhile isIntroducer)

/-- The tags of a language that agree with what was typed, in the order of the table. -/
def lookup (language : Language) (typed : Text) : List KnownTag :=
  (table language).filter fun t => (matching language).accepts (typedName typed) t.name

end KnownTag

end DocComment
