import DocComment.Config
import DocComment.TypeGuess

/-!
# Profiles

The comment dialect and the tags of a language under a configuration.
-/

namespace DocComment

/-- The frame of a comment whose lines are a table of tags. -/
structure Delimiters where
  opener : Text
  /-- What every inner line starts with. -/
  marker : Text
  closer : Option Text
  deriving DecidableEq

/-- A comment dialect. -/
inductive Dialect where
  /-- Rows of tags between delimiters. -/
  | table (delimiters : Delimiters)
  /-- Markdown with a section for arguments, errors and the result. -/
  | rustdoc
  /-- Lists of parameters and callouts. -/
  | swiftMarkup
  /-- Headings for parameters, exceptions and the result. -/
  | rdoc
  deriving DecidableEq

/-- How the type column of a structured tag is written. -/
inductive TypeColumn where
  /-- There is no type column. -/
  | absent
  /-- The type stands alone. -/
  | bare
  /-- The type stands between two characters. -/
  | bracketed (opener closer : Char)
  deriving DecidableEq

/-- The tags of a dialect. -/
structure Tags where
  /-- The default of the summary. -/
  summary : Text
  param : Text
  result : Text
  throws : Text
  binding : Option Text
  yields : Option Text
  member : Option Text
  parents : Option Text
  deriving DecidableEq

/-- The columns a structured tag has besides tag and description. -/
structure Columns where
  type : Bool
  name : Bool
  deriving DecidableEq

/-- The settings for one language. -/
structure Profile where
  language : Language
  dialect : Dialect
  typeColumn : TypeColumn
  tags : Tags
  /-- Whether each super type has a row of its own. -/
  multipleSuperTypes : Bool
  /-- What stands before a description that follows a name. -/
  separator : Text
  numbers : NumberTypes
  /-- The characters a tag can start with. -/
  introducers : Text
  emptyLines : EmptyLines
  deriving DecidableEq

/-- Block comments that open with two asterisks. -/
def Delimiters.javadoc : Delimiters := ⟨"/**", " *", some " */"⟩

/-- Block comments that open with an exclamation mark. -/
def Delimiters.qt : Delimiters := ⟨"/*!", " *", some " */"⟩

/-- Line comments after a line of two number signs. -/
def Delimiters.yard : Delimiters := ⟨"##", "#", none⟩

/-- The delimiters of a comment style. -/
def CommentStyle.delimiters : CommentStyle → Delimiters
  | javadoc => Delimiters.javadoc
  | qt => Delimiters.qt

/-- The tags of JSDoc, from which the other tables differ little. -/
def Tags.jsdoc : Tags where
  summary := "summary"
  param := "@param"
  result := "@returns"
  throws := "@throws"
  binding := some "@type"
  yields := some "@yields"
  member := some "@memberof"
  parents := some "@extends"

/-- The tags by which prose dialects sort rows into sections. -/
def Tags.prose : Tags where
  summary := "description"
  param := "@param"
  result := "@returns"
  throws := "@throws"
  binding := none
  yields := none
  member := none
  parents := none

namespace Profile

/-- The profile of a language under a configuration. -/
def of (language : Language) (config : Config) : Profile :=
  let base : Profile := {
    language
    dialect := .table .javadoc
    typeColumn := .absent
    tags := .jsdoc
    multipleSuperTypes := false
    separator := " "
    numbers := .number
    introducers := "@"
    emptyLines := config.emptyLines language }
  match language with
  | .javascript | .typescript =>
    { base with typeColumn := .bracketed '{' '}', separator := " - " }
  | .php =>
    { base with
      typeColumn := .bare
      numbers := .integerFloat
      tags := { Tags.jsdoc with
        result := "@return", binding := some "@var", yields := none, member := none } }
  | .java =>
    { base with
      tags := { Tags.jsdoc with
        result := "@return", binding := none, yields := none, member := none, parents := none } }
  | .cpp =>
    { base with
      dialect := .table config.commentStyle.delimiters
      tags := { Tags.jsdoc with
        summary := "brief", result := "@return", binding := some "@var", yields := none
        member := none }
      multipleSuperTypes := true
      introducers := "@\\" }
  | .objc =>
    { base with
      dialect := .table config.commentStyle.delimiters
      tags := { Tags.jsdoc with
        result := "@return", binding := some "@var", yields := none, member := none
        parents := some "@superclass" }
      introducers := "@\\" }
  | .rust => { base with dialect := .rustdoc, tags := .prose }
  | .swift => { base with dialect := .swiftMarkup, tags := .prose }
  | .ruby =>
    let tags := { Tags.prose with result := "@return", throws := "@raise" }
    match config.rubyStyle with
    | .rdoc => { base with dialect := .rdoc, tags }
    | .yard => { base with dialect := .table .yard, typeColumn := .bracketed '[' ']', tags }

/-- Whether structured tags have a type column. -/
def hasTypeColumn (p : Profile) : Bool := p.typeColumn != .absent

/-- The delimiters of a tag table. -/
def delimiters? (p : Profile) : Option Delimiters :=
  match p.dialect with
  | .table d => some d
  | _ => none

/-- A type as the type column shows it. -/
def formatType (p : Profile) (type : Text) : Text :=
  match p.typeColumn with
  | .bracketed opener closer => opener :: type ++ [closer]
  | _ => type

/-- The characters around a type in the type column. -/
def typeBrackets? (p : Profile) : Option (Char × Char) :=
  match p.typeColumn with
  | .bracketed opener closer => some (opener, closer)
  | _ => none

/-- Whether a tag can start with a character. -/
def isIntroducer (p : Profile) (c : Char) : Bool := p.introducers.contains c

/-- Tags with a name column. -/
def paramTags : List Text :=
  ["param", "arg", "argument", "property", "prop", "option", "yieldparam", "field"].map
    String.toList

/-- Tags for results. -/
def resultTags : List Text :=
  ["return", "returns", "yield", "yields", "yieldreturn", "result"].map String.toList

/-- Tags for exceptions. -/
def throwTags : List Text := ["throws", "throw", "exception", "raise"].map String.toList

/-- The columns of a structured tag, or none for a tag with a free value.  Without a type column an
exception is named in the name column. -/
def columns? (p : Profile) (tag : Text) : Option Columns :=
  let bare := tag.dropWhile p.isIntroducer
  let type := p.hasTypeColumn
  if paramTags.contains bare then some { type, name := true }
  else if resultTags.contains bare then some { type, name := false }
  else if throwTags.contains bare then some { type, name := !type }
  else if p.tags.binding == some tag then some { type, name := false }
  else none

end Profile

end DocComment
