import DocComment.Grammar.Basic

/-!
# Declarations of C and C++

A callable without a return type is a constructor or destructor.
-/

namespace DocComment.Grammar.Cpp

open Pattern

/-- Words that stand where a type would, in a statement. -/
def notTypes : List Text :=
  ["return", "else", "new", "delete", "throw", "case", "goto"].map String.toList

/-- A qualified identifier with possible template arguments. -/
def qualifiedName : Pattern :=
  plainName ++ star (lit "::" ++ plainName) ++
    opt (blanks ++ lit "<" ++ star (noneOf "<>;()") ++ lit ">")

/-- A class, structure or union with its base classes. -/
def classPattern : Pattern :=
  start ++ blanks ++ opt (lit "template" ++ blanks ++ enclosed '<' '>' ++ blanks) ++
    keywordOf ["class", "struct", "union"] ++
    star (lit "[[" ++ star (noneOf "]") ++ lit "]]" ++ blanks |||
      lit "alignas" ++ enclosed '(' ')' ++ blanks |||
      identifier (fun c => c.isUpper || c == '_') (fun c => c.isUpper || c.isDigit || c == '_') ++
        blanks1) ++
    group .name plainName ++ blanks ++ opt (lit "final" ++ blanks) ++
    opt (lit ":" ++ blanks ++ group .parents (plus (noneOf "\x7b;")))

/-- A base class after its access keywords. -/
def basePattern : Pattern :=
  start ++ modifiers ["public", "protected", "private", "virtual"] ++
    group .name (plus anyChar) ++ finish

/-- Pointer and reference marks with the blanks around them. -/
def isMark (c : Char) : Bool := c == '&' || c == '*' || isBlank c

/-- A function. -/
def functionPattern : Pattern :=
  modifiers ["static", "inline", "virtual", "explicit", "constexpr", "extern", "friend", "const"] ++
    opt (group .result qualifiedName ++ group .pointer (plus (one isMark))) ++
    group .name (opt (lit "~") ++ qualifiedName) ++ blanks ++ parameterList

/-- A variable. -/
def bindingPattern : Pattern :=
  start ++ blanks ++
    modifiers ["static", "const", "constexpr", "extern", "volatile", "mutable", "inline"] ++
    group .type qualifiedName ++ group .pointer (plus (one isMark)) ++ group .name plainName ++
    opt (enclosed '[' ']') ++ blanks ++
    opt (lit "=" ++ blanks ++ group .value (star (noneOf ";"))) ++ opt (lit ";") ++ blanks ++ finish

/-- A parameter. -/
def argumentPattern : Pattern :=
  start ++ group .type (lazyStar anyChar) ++ group .pointer (star (one isMark)) ++
    group .name plainName ++ blanks ++ opt (group .array (enclosed '[' ']')) ++ blanks ++
    opt (lit "=" ++ blanks ++ group .value (star anyChar)) ++ finish

/-- Recognises a class-like declaration with every base class. -/
def classLike (line : Text) : Option Declaration :=
  (classPattern.find line).map fun m =>
    .classLike (m.get .name)
      ((ArgumentList.split (m.get .parents)).filterMap fun base =>
        (basePattern.find base).map fun b => Text.trim (b.get .name))

/-- Recognises a function. -/
def callable (line : Text) : Option Declaration :=
  (functionPattern.find line).bind fun m =>
    let result := (m.get? .result).map fun base => pointerType base (m.get .pointer)
    if result.any notTypes.contains then none
    else
      some (.callable {
        name := m.get .name
        kind := if result.isNone then .constructor else .plain
        rawArgs := m.trimmed? .parameters
        returnType := result })

/-- Recognises a variable. -/
def binding (line : Text) : Option Declaration :=
  (bindingPattern.find line).bind fun m =>
    if notTypes.contains (m.get .type) then none
    else
      some (.binding (m.get .name) (some (pointerType (m.get .type) (m.get .pointer)))
        (m.trimmed? .value))

/-- Takes one argument apart. -/
def argument (raw : Text) : Argument :=
  match argumentPattern.find (Text.trim raw) with
  | none => { name := Text.trim raw }
  | some m =>
    let type : Option Text :=
      if (Text.trim (m.get .type)).isEmpty then none
      else
        some (pointerType (m.get .type) (m.get .pointer) ++
          if m.has .array then ['[', ']'] else [])
    { name := m.get .name, type, value := m.trimmed? .value }

/-- Pieces of a parameter list that are no parameters. -/
def notArguments : List Text := ["void", "..."].map String.toList

end Cpp

/-- The grammar of C and C++. -/
def cpp : Grammar where
  classLike := Cpp.classLike
  callable := Cpp.callable
  binding := Cpp.binding
  argument := Cpp.argument
  arguments := fun raw =>
    ((rawArguments raw).filter fun arg => !Cpp.notArguments.contains arg).map Cpp.argument

end DocComment.Grammar
