import DocComment.Grammar.Basic

/-!
# Declarations of PHP

A function without a declared return type documents as returning nothing.
-/

namespace DocComment.Grammar.Php

open Pattern

/-- Words that stand before a variable without being its type. -/
def notTypes : List Text :=
  ["return", "echo", "print", "new", "use", "namespace", "throw", "yield", "include", "require",
    "global", "clone", "case", "goto"].map String.toList

/-- A character from delete to the end of the Latin-1 block. -/
def isHighLatin (c : Char) : Bool := 0x7F ≤ c.toNat && c.toNat ≤ 0xFF

/-- An identifier. -/
def phpName : Pattern :=
  identifier (fun c => isDollarStart c || isHighLatin c) (fun c => isDollarChar c || isHighLatin c)

/-- A variable or a path of properties. -/
def variablePath : Pattern := phpName ++ star (lit "->" ++ phpName)

/-- The start of a type name. -/
def isTypeStart (c : Char) : Bool := isNameStart c || c == '\\'

/-- A character of a type name or union. -/
def isTypeChar (c : Char) : Bool := isNameChar c || c == '\\' || c == '|'

/-- A type name or union. -/
def typeName : Pattern := identifier isTypeStart isTypeChar

/-- A class, interface, trait or enumeration with the class it extends. -/
def classPattern : Pattern :=
  start ++ blanks ++ modifiers ["abstract", "final", "readonly"] ++
    keywordOf ["class", "interface", "trait", "enum"] ++ group .name phpName ++
    opt (blanks1 ++ keyword "extends" ++
      group .parents (opt (lit "\\") ++
        identifier isNameStart (fun c => isNameChar c || c == '\\')))

/-- A function or method. -/
def functionPattern : Pattern :=
  start ++ blanks ++
    modifiers ["final", "abstract", "public", "protected", "private", "static"] ++
    keyword "function" ++ opt (lit "&") ++ blanks ++ group .name phpName ++ blanks ++
    parameterList ++
    opt (blanks ++ lit ":" ++ blanks ++ opt (group .nullable (lit "?")) ++
      group .result (plus (one isTypeChar)))

/-- A variable, constant, property or array entry. -/
def bindingPattern : Pattern :=
  start ++ blanks ++
    modifiers ["var", "static", "const", "final", "public", "private", "protected", "readonly"] ++
    opt (opt (group .nullable (lit "?")) ++ group .type typeName ++ blanks1) ++
    group .name (opt (lit "$") ++ variablePath) ++
    opt (blanks ++ lit "=" ++ opt (lit ">") ++ blanks ++ group .value (lazyStar anyChar) ++
      blanks ++ (oneOf ";," ||| finish))

/-- The modifiers of a constructor parameter that declares a property. -/
def promotion : Pattern := start ++ modifiers ["public", "private", "protected", "readonly"]

/-- A parameter with a declared type. -/
def typedArgument : Pattern :=
  start ++ opt (group .nullable (lit "?")) ++ group .type typeName ++ blanks1 ++ opt (lit "&") ++
    opt (group .splat (lit "...")) ++ group .name (lit "$" ++ phpName) ++
    opt (blanks ++ lit "=" ++ blanks ++ group .value (star anyChar))

/-- A parameter that takes all further arguments. -/
def splatArgument : Pattern :=
  opt (lit "&") ++ lit "..." ++ group .name (opt (lit "$") ++ variablePath)

/-- A parameter with a possible default value. -/
def plainArgument : Pattern :=
  opt (lit "&") ++ group .name (opt (lit "$") ++ variablePath) ++
    opt (blanks ++ lit "=" ++ blanks ++ group .value (star anyChar))

/-- A type that may also be null. -/
def orNull (type : Text) (nullable : Bool) : Text :=
  if nullable then type ++ "|null".toList else type

/-- Recognises a class-like declaration. -/
def classLike (line : Text) : Option Declaration :=
  (classPattern.find line).map fun m => .classLike (m.get .name) m.parent

/-- Recognises a function or method. -/
def callable (line : Text) : Option Declaration :=
  (functionPattern.find line).map fun m =>
    let isConstructor := m.get .name = "__construct".toList
    let result := orNull ((m.get? .result).getD "void") (m.has .nullable)
    .callable {
      name := m.get .name
      kind := if isConstructor then .constructor else .plain
      rawArgs := m.trimmed? .parameters
      returnType := if isConstructor then none else some result }

/-- Recognises a variable, constant, property or array entry. -/
def binding (line : Text) : Option Declaration :=
  (bindingPattern.find line).bind fun m =>
    if (m.get? .type).any notTypes.contains then none
    else
      some (.binding (m.get .name) ((m.get? .type).map (orNull · (m.has .nullable)))
        (m.trimmed? .value))

/-- Takes one argument apart. -/
def argument (raw : Text) : Argument :=
  let raw := promotion.replaceFirst [] (Text.trim raw)
  match typedArgument.find raw with
  | some m =>
    let type := m.get .type ++ if m.has .splat then ['[', ']'] else []
    { name := m.get .name
      type := some (orNull type (m.has .nullable))
      value := (m.get? .value).map Text.trim }
  | none =>
    match splatArgument.find raw with
    | some m => { name := m.get .name, type := some "Array" }
    | none =>
      match plainArgument.find raw with
      | some m => { name := m.get .name, value := (m.get? .value).map Text.trim }
      | none => { name := raw }

end Php

/-- The grammar of PHP. -/
def php : Grammar where
  classLike := Php.classLike
  callable := Php.callable
  binding := Php.binding
  argument := Php.argument

end DocComment.Grammar
