import DocComment.Grammar.Basic

/-!
# Declarations of Rust

Lifetimes are taken out of a definition first, because their apostrophes would pass for quotes.
-/

namespace DocComment.Grammar.Rust

open Pattern

/-- Attributes and visibility. -/
def preamble : Pattern :=
  start ++ blanks ++ star (lit "#[" ++ star (noneOf "]") ++ lit "]" ++ blanks) ++
    opt (lit "pub" ++ opt (blanks ++ enclosed '(' ')') ++ blanks1)

/-- Type parameters, in which angle brackets may nest once. -/
def typeParameters : Pattern :=
  lit "<" ++ star (noneOf "<>" ||| lit "<" ++ star (noneOf "<>") ++ lit ">") ++ lit ">"

/-- A structure, trait, enumeration or union with its bounds. -/
def classPattern : Pattern :=
  preamble ++ opt (keyword "unsafe") ++ keywordOf ["struct", "trait", "enum", "union"] ++
    group .name plainName ++ opt (blanks ++ typeParameters) ++
    opt (blanks ++ lit ":" ++ blanks ++ group .parents (plus (noneOf "\x7b;=")))

/-- A function. -/
def functionPattern : Pattern :=
  preamble ++ modifiers ["const", "async", "unsafe", "default"] ++
    opt (keyword "extern" ++ opt (enclosed '"' '"' ++ blanks1)) ++ keyword "fn" ++
    group .name plainName ++ blanks ++ opt typeParameters ++ blanks ++ parameterList ++
    opt (blanks ++ lit "->" ++ blanks ++ group .result (plus (noneOf "\x7b;")))

/-- A local variable, constant or static. -/
def bindingPattern : Pattern :=
  preamble ++
    (lit "let" ++ opt (blanks1 ++ lit "mut") ||| lit "const" |||
      lit "static" ++ opt (blanks1 ++ lit "mut")) ++
    blanks1 ++ group .name plainName ++ blanks ++
    opt (lit ":" ++ blanks ++ group .type (lazyPlus (noneOf "=;"))) ++ blanks ++
    opt (lit "=" ++ blanks ++ group .value (star (noneOf ";"))) ++ opt (lit ";") ++ blanks ++ finish

/-- A clause of bounds at the end of a type. -/
def whereClause : Pattern := blanks1 ++ lit "where" ++ boundary ++ star anyChar ++ finish

/-- A lifetime and the character after it, which is no apostrophe. -/
def lifetime : Pattern :=
  lit "'" ++ plainName ++
    group .kept (one (fun c => c != '\'' && !isNameChar c) ||| finish)

/-- A line without its lifetimes. -/
def dropLifetimes (line : Text) : Text := lifetime.replaceAll (fun m => m.get .kept) line

/-- Whether an argument is the receiver of a method. -/
def isReceiver (arg : Text) : Bool :=
  let arg := Text.compact arg
  (["self", "&self", "&mutself", "mutself"].map String.toList).contains arg ||
    (Text.after? "self:" arg).isSome

/-- Recognises a class-like declaration; its bounds count as super types. -/
def classLike (line : Text) : Option Declaration :=
  (classPattern.find line).map fun m =>
    .classLike (m.get .name) (Text.listOn '+' (whereClause.replaceFirst [] (m.get .parents)))

/-- Recognises a function. -/
def callable (line : Text) : Option Declaration :=
  (functionPattern.find line).map fun m =>
    .callable {
      name := m.get .name
      rawArgs := m.trimmed? .parameters
      returnType := (m.get? .result).bind fun type =>
        (Text.trim (whereClause.replaceFirst [] type)).nonempty? }

/-- Recognises a local variable, constant or static. -/
def binding (line : Text) : Option Declaration :=
  (bindingPattern.find line).map fun m =>
    .binding (m.get .name) ((m.get? .type).map Text.trim) (m.trimmed? .value)

/-- Takes one argument apart. -/
def argument (raw : Text) : Argument :=
  match Text.splitFirst? ':' raw with
  | some (pattern, type) =>
    let pattern := Text.trim pattern
    { name := Text.trim ((Text.after? "mut " pattern).getD pattern)
      type := some (Text.trim type) }
  | none => { name := Text.trim raw }

end Rust

/-- The grammar of Rust. -/
def rust : Grammar where
  classLike := Rust.classLike
  callable := Rust.callable
  binding := Rust.binding
  argument := Rust.argument
  arguments := fun raw =>
    ((rawArguments raw).filter fun arg => !Rust.isReceiver arg).map Rust.argument
  definition := fun lines => Definition.ofLines (lines.map Rust.dropLifetimes)

end DocComment.Grammar
