import DocComment.Grammar.Basic

/-!
# Declarations of Swift

An initializer counts as a constructor, and a throwing function throws an `Error`.
-/

namespace DocComment.Grammar.Swift

open Pattern

/-- Attributes and modifiers. -/
def declarationModifiers : Pattern :=
  star ((lit "@" ++ plus (one isWordChar) ++ opt (enclosed '(' ')') |||
    words ["public", "private", "fileprivate", "internal", "open", "final", "static", "class",
      "override", "mutating", "nonmutating", "convenience", "required", "lazy", "weak", "unowned",
      "nonisolated"]) ++ blanks1)

/-- A type with what it inherits from. -/
def classPattern : Pattern :=
  start ++ blanks ++ declarationModifiers ++
    keywordOf ["class", "struct", "enum", "protocol", "actor", "extension"] ++
    group .name (identifier Char.isUpper isNameChar) ++ opt (enclosed '<' '>') ++
    opt (blanks ++ lit ":" ++ blanks ++ group .parents (plus (noneOf "\x7b")))

/-- A function or initializer. -/
def functionPattern : Pattern :=
  (boundary ++ keyword "func" ++ group .name plainName |||
    boundary ++ lit "init" ++ opt (oneOf "?!")) ++
    blanks ++ opt (enclosed '<' '>') ++ blanks ++ parameterList ++ blanks ++
    opt (keyword "async") ++ opt (group .throws (words ["throws", "rethrows"])) ++
    opt (blanks ++ lit "->" ++ blanks ++ group .result (plus (noneOf "\x7b")))

/-- A variable or constant. -/
def bindingPattern : Pattern :=
  start ++ blanks ++ declarationModifiers ++ keywordOf ["let", "var"] ++
    group .name plainName ++ blanks ++
    opt (lit ":" ++ blanks ++ group .type (lazyPlus (noneOf "=\x7b"))) ++ blanks ++
    opt (lit "=" ++ blanks ++ group .value (lazyPlus (noneOf "\x7b"))) ++ blanks ++
    opt (lit "\x7b") ++ blanks ++ finish

/-- A parameter with a possible outer label. -/
def argumentPattern : Pattern :=
  start ++ opt (plainName ++ blanks1) ++ group .name plainName ++ blanks ++ lit ":" ++ blanks ++
    star (lit "@" ++ plus (one isWordChar) ++ blanks1) ++ opt (keyword "inout") ++
    group .type (lazyPlus (noneOf "=")) ++ blanks ++
    opt (lit "=" ++ blanks ++ group .value (plus anyChar)) ++ finish

/-- Recognises a class-like declaration. -/
def classLike (line : Text) : Option Declaration :=
  (classPattern.find line).map fun m =>
    .classLike (m.get .name) (Text.listOn ',' (m.get .parents))

/-- Recognises a function or initializer. -/
def callable (line : Text) : Option Declaration :=
  (functionPattern.find line).map fun m =>
    .callable {
      name := (m.get? .name).getD "init"
      kind := if m.has .name then .plain else .constructor
      rawArgs := m.trimmed? .parameters
      returnType := m.trimmed? .result
      throws := if m.has .throws then some ["Error"] else none }

/-- Recognises a variable or constant. -/
def binding (line : Text) : Option Declaration :=
  (bindingPattern.find line).map fun m =>
    .binding (m.get .name) ((m.get? .type).map Text.trim) ((m.get? .value).map Text.trim)

/-- Takes one argument apart. -/
def argument (raw : Text) : Argument :=
  match argumentPattern.find (Text.trim raw) with
  | none => { name := Text.trim raw }
  | some m =>
    { name := m.get .name
      type := some (Text.trim (m.get .type))
      value := (m.get? .value).map Text.trim }

end Swift

/-- The grammar of Swift. -/
def swift : Grammar where
  classLike := Swift.classLike
  callable := Swift.callable
  binding := Swift.binding
  argument := Swift.argument

end DocComment.Grammar
