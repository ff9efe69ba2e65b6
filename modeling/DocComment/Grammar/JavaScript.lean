import DocComment.Grammar.Basic

/-!
# Declarations of JavaScript

Functions, methods, accessors and arrow functions are told apart by four patterns that are tried in
this order.
-/

namespace DocComment.Grammar.JavaScript

open Pattern

/-- Modifiers of a function or method; an asynchronous one returns a promise. -/
def functionModifiers : Pattern :=
  opt (boundary ++ keyword "static") ++ opt (group .promise (boundary ++ keyword "async"))

/-- What may stand before a function: `return`, an export or declaration keyword, and the variable
or property that the function is assigned to. -/
def beforeFunction : Pattern :=
  start ++ blanks ++
    opt (keyword "return" |||
      opt (keyword "export" ++ opt (keyword "default")) ++
        opt (keywordOf ["var", "let", "const"])) ++
    opt (opt (one isDollarStart ++ star (one fun c => isDollarChar c || c == '.') ++ lit ".") ++
      group .target dollarName ++ blanks ++ oneOf ":=" ++ blanks)

/-- A class with the class it extends. -/
def classPattern : Pattern :=
  start ++ blanks ++ opt (keyword "export" ++ opt (keyword "default")) ++ keyword "class" ++
    group .name dollarName ++
    opt (blanks1 ++ keyword "extends" ++
      group .parents (dollarName ++ star (lit "." ++ dollarName)))

/-- A function with the `function` keyword. -/
def functionPattern : Pattern :=
  beforeFunction ++ functionModifiers ++ lit "function" ++
    opt (group .generator (blanks ++ lit "*")) ++ blanks ++
    opt (boundary ++ group .name dollarName) ++ blanks ++ parameterList

/-- A method in a class or object body. -/
def methodPattern : Pattern :=
  start ++ blanks ++ functionModifiers ++ opt (group .generator (lit "*")) ++ blanks ++
    group .name dollarName ++ blanks ++ parameterList ++ blanks ++ lit "\x7b"

/-- A getter or setter. -/
def accessorPattern : Pattern :=
  start ++ blanks ++ opt (keyword "static") ++ group .accessor (words ["get", "set"]) ++ blanks1 ++
    group .name dollarName ++ blanks ++ parameterList ++ blanks ++ lit "\x7b"

/-- An arrow function. -/
def arrowPattern : Pattern :=
  beforeFunction ++ opt (group .promise (keyword "async")) ++
    (group .parameter dollarName ||| parameterList) ++ blanks ++ lit "=>"

/-- An assignment or a property of an object literal. -/
def bindingPattern : Pattern :=
  group .name dollarName ++ blanks ++ oneOf "=:" ++ blanks ++ group .value (lazyStar anyChar) ++
    (oneOf ";," ||| finish)

/-- A parameter that takes all further arguments. -/
def restArgument : Pattern := lit "..." ++ group .name dollarName

/-- A parameter that is an object or array pattern. -/
def destructuredArgument : Pattern :=
  start ++
    (group .object (lit "\x7b" ++ star anyChar ++ lit "\x7d") |||
      group .array (lit "[" ++ star anyChar ++ lit "]"))

/-- A parameter with a possible default value. -/
def plainArgument : Pattern :=
  group .name dollarName ++ opt (blanks ++ lit "=" ++ blanks ++ group .value (star anyChar))

/-- Recognises a class. -/
def classLike (line : Text) : Option Declaration :=
  (classPattern.find line).map fun m => .classLike (m.get .name) m.parent

/-- The declaration of a callable that was matched as a given kind. -/
def callableOf (kind : Match → CallableKind) (m : Match) : Declaration :=
  .callable {
    name := ((m.get? .target).orElse fun _ => m.get? .name).getD []
    kind := if m.has .generator then .generator else kind m
    rawArgs := ((m.get? .parameters).orElse fun _ => m.get? .parameter).bind
      fun args => (Text.trim args).nonempty?
    returnType := if m.has .promise then some "Promise" else none }

/-- The kind of a method: its name makes it a constructor. -/
def methodKind (m : Match) : CallableKind :=
  if m.get .name = "constructor".toList then .constructor else .member

/-- The kind of an accessor. -/
def accessorKind (m : Match) : CallableKind :=
  if m.get .accessor = "get".toList then .getter else .plain

/-- Recognises a function, method, accessor or arrow function. -/
def callable (line : Text) : Option Declaration :=
  (((functionPattern.find line).map (callableOf fun _ => .plain)).orElse fun _ =>
    (methodPattern.find line).map (callableOf methodKind)).orElse fun _ =>
      ((accessorPattern.find line).map (callableOf accessorKind)).orElse fun _ =>
        (arrowPattern.find line).map (callableOf fun _ => .plain)

/-- Recognises an assignment or property. -/
def binding (line : Text) : Option Declaration :=
  (bindingPattern.find line).map fun m => .binding (m.get .name) none (m.trimmed? .value)

/-- Takes one argument apart. -/
def argument (raw : Text) : Argument :=
  match restArgument.find raw with
  | some m => { name := m.get .name, type := some "Array" }
  | none =>
    match destructuredArgument.find raw with
    | some m => { name := [], type := some (if m.has .object then "Object" else "Array") }
    | none =>
      match plainArgument.find raw with
      | some m => { name := m.get .name, value := (m.get? .value).map Text.trim }
      | none => { name := Text.trim raw }

end JavaScript

/-- The grammar of JavaScript. -/
def javaScript : Grammar where
  classLike := JavaScript.classLike
  callable := JavaScript.callable
  binding := JavaScript.binding
  argument := JavaScript.argument

end DocComment.Grammar
