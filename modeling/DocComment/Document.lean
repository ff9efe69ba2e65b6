import DocComment.Layout
import DocComment.Synthesis

/-!
# Documenting what follows the cursor

The entry points for generating documentation: find the declaration after the cursor, build its block
and lay it out.
-/

namespace DocComment

/-- The language a user means, unless it is unknown or disabled. -/
def Config.language? (config : Config) (name : Text) : Option Language :=
  (Language.ofName? name).filter config.isEnabled

/-- A declaration with the block that documents it. -/
structure Documented where
  language : Language
  declaration : Declaration
  block : Block
  deriving DecidableEq

/-- Whether a bare comment should be inserted instead: nothing follows, another comment follows, or
two empty lines come first. -/
def needsFallback (following : Text) : Bool :=
  let trimmed := Text.trim following
  trimmed.isEmpty ||
    ["/*", "//", "#"].any (fun opener => (Text.after? opener trimmed).isSome) ||
    match Text.lines following with
    | first :: second :: _ => (Text.trim first).isEmpty && (Text.trim second).isEmpty
    | _ => false

/-- The declaration that follows, with its block. -/
def document (language : Language) (config : Config) (following : Text) : Option Documented :=
  let grammar := language.grammar
  if needsFallback following then none
  else
    let definition := grammar.definition (Text.lines following)
    if definition.isEmpty then none
    else
      (grammar.declaration definition).bind fun declaration =>
        (Synthesis.block? (Profile.of language config) grammar declaration).map fun block =>
          { language, declaration, block }

/-- The outcome of generating documentation. -/
inductive Generated where
  /-- The lines of a documentation block. -/
  | block (lines : List Text)
  /-- There is nothing to document; a bare comment is called for. -/
  | fallback
  deriving DecidableEq

/-- The documentation of what follows; none when the language is unknown or disabled. -/
def generate (config : Config) (lang following : Text) (asSnippet : Bool) : Option Generated :=
  (config.language? lang).map fun language =>
    match document language config following with
    | none => .fallback
    | some documented =>
      let p := Profile.of language config
      .block (documented.block.format p (LayoutOptions.of p config asSnippet))

/-- A bare comment with one tab stop. -/
def fallbackLines (p : Profile) (asSnippet : Bool) : List Text :=
  let comment := (Field.stop "comment" 0).1.render asSnippet
  if p.language = .ruby then ["=begin", comment, "=end"]
  else
    match p.dialect with
    | .table d => d.opener :: (d.marker ++ ' ' :: comment) :: d.closer.toList
    | .rustdoc | .swiftMarkup | .rdoc => ["/// ".toList ++ comment]

end DocComment
