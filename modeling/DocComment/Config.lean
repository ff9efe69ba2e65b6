import DocComment.Language

/-!
# Configuration

What a user can choose, and the defaults.
-/

namespace DocComment

/-- Where empty separator lines go. -/
inductive EmptyLines where
  | none
  | afterSummary
  /-- After the summary and wherever the leading tag changes. -/
  | betweenGroups
  deriving DecidableEq, Repr

namespace EmptyLines

/-- The name of a policy in a configuration. -/
def id : EmptyLines → Text
  | none => "none"
  | afterSummary => "after-summary"
  | betweenGroups => "between-groups"

/-- The policy with a given name. -/
def ofId? (id : Text) : Option EmptyLines :=
  [none, afterSummary, betweenGroups].find? fun p => p.id == id

end EmptyLines

/-- The opener of block comments where the dialect leaves a choice. -/
inductive CommentStyle where
  /-- A block opens with two asterisks. -/
  | javadoc
  /-- A block opens with an exclamation mark. -/
  | qt
  deriving DecidableEq, Repr

namespace CommentStyle

/-- The name of a style in a configuration. -/
def id : CommentStyle → Text
  | javadoc => "javadoc"
  | qt => "qt"

/-- The style with a given name. -/
def ofId? (id : Text) : Option CommentStyle := [javadoc, qt].find? fun s => s.id == id

end CommentStyle

/-- The documentation dialect of Ruby. -/
inductive RubyStyle where
  | rdoc
  | yard
  deriving DecidableEq, Repr

namespace RubyStyle

/-- The name of a style in a configuration. -/
def id : RubyStyle → Text
  | rdoc => "rdoc"
  | yard => "yard"

/-- The style with a given name. -/
def ofId? (id : Text) : Option RubyStyle := [rdoc, yard].find? fun s => s.id == id

end RubyStyle

/-- The choices for one language. -/
structure LanguageConfig where
  enabled : Bool := true
  emptyLines : Option EmptyLines := none
  deriving DecidableEq

/-- A configuration. -/
structure Config where
  /-- How many leading columns (tag, type, name) are padded to a common width. -/
  alignTags : Nat := 0
  commentStyle : CommentStyle := .javadoc
  rubyStyle : RubyStyle := .rdoc
  /-- Further lines of a file header. -/
  customTags : List Text := []
  wrapWidth : Nat := 80
  /-- The languages that have choices of their own, each at most once. -/
  languages : List (Language × LanguageConfig) := []
  deriving DecidableEq

namespace Config

/-- A language is enabled unless the configuration disables it. -/
def isEnabled (config : Config) (language : Language) : Bool :=
  (config.languages.lookup language).all LanguageConfig.enabled

/-- The policy of a language that is not configured. -/
def defaultEmptyLines : Language → EmptyLines
  | .cpp | .java | .objc | .ruby => .afterSummary
  | .php => .betweenGroups
  | .javascript | .typescript | .rust | .swift => .none

/-- The policy of a language. -/
def emptyLines (config : Config) (language : Language) : EmptyLines :=
  ((config.languages.lookup language).bind LanguageConfig.emptyLines).getD
    (defaultEmptyLines language)

end Config

end DocComment
