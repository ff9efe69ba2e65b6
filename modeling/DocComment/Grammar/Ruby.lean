import DocComment.Grammar.Basic

/-!
# Declarations of Ruby

A method whose name ends in a question mark answers a Boolean.
-/

namespace DocComment.Grammar.Ruby

open Pattern

/-- A constant. -/
def constant : Pattern := identifier Char.isUpper isNameChar

/-- A constant with the modules around it. -/
def qualifiedConstant : Pattern := constant ++ star (lit "::" ++ constant)

/-- A class or module with its superclass. -/
def classPattern : Pattern :=
  start ++ blanks ++ keywordOf ["class", "module"] ++ group .name qualifiedConstant ++
    opt (blanks ++ lit "<" ++ blanks ++ group .parents qualifiedConstant)

/-- A method, with or without parentheses around its parameters. -/
def methodPattern : Pattern :=
  start ++ blanks ++ keyword "def" ++ opt (lit "self.") ++
    group .name (plainName ++ opt (oneOf "!?=")) ++
    opt (blanks ++ parameterList ||| blanks1 ++ group .bare (plus (noneOf ";#")))

/-- An assignment. -/
def bindingPattern : Pattern :=
  start ++ blanks ++
    group .name (opt (lit "@" ++ opt (lit "@") ||| lit "$") ++ plainName) ++ blanks ++
    lit "=" ++ blanks ++ group .value (noneOf "=" ++ lazyStar anyChar) ++ blanks ++ finish

/-- A parameter. -/
def argumentPattern : Pattern :=
  start ++ opt (group .sigil (words ["**", "*", "&"])) ++ group .name plainName ++ blanks ++
    opt (oneOf ":=" ++ blanks ++ group .value (star anyChar)) ++ finish

/-- Recognises a class or module. -/
def classLike (line : Text) : Option Declaration :=
  (classPattern.find line).map fun m => .classLike (m.get .name) m.parent

/-- Recognises a method. -/
def callable (line : Text) : Option Declaration :=
  (methodPattern.find line).map fun m =>
    let name := m.get .name
    let isConstructor := name = "initialize".toList
    .callable {
      name
      kind := if isConstructor then .constructor else .plain
      rawArgs := ((m.get? .parameters).orElse fun _ => m.get? .bare).bind
        fun args => (Text.trim args).nonempty?
      returnType := if name.getLast? == some '?' then some "Boolean" else none }

/-- Recognises an assignment. -/
def binding (line : Text) : Option Declaration :=
  (bindingPattern.find line).map fun m => .binding (m.get .name) none (m.get? .value)

/-- The type that a sigil gives a parameter. -/
def sigilType (sigil : Text) : Text :=
  if sigil = "**".toList then "Hash" else if sigil = "*".toList then "Array" else "Proc"

/-- Takes one argument apart. -/
def argument (raw : Text) : Argument :=
  match argumentPattern.find (Text.trim raw) with
  | none => { name := Text.trim raw }
  | some m =>
    { name := m.get .name
      type := (m.get? .sigil).map sigilType
      value := m.trimmed? .value }

end Ruby

/-- The grammar of Ruby. -/
def ruby : Grammar where
  classLike := Ruby.classLike
  callable := Ruby.callable
  binding := Ruby.binding
  argument := Ruby.argument

end DocComment.Grammar
