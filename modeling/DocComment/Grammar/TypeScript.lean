import DocComment.Grammar.Basic

/-!
# Declarations of TypeScript

Types are declared, so they are read off the source; a nullable union is written with a leading
question mark and any other union in parentheses.
-/

namespace DocComment.Grammar.TypeScript

open Pattern

/-- A qualified name, possibly an array of it. -/
def baseType : Pattern := dollarName ++ star (lit "." ++ dollarName) ++ opt (lit "[]")

/-- A base type with possible type arguments. -/
def parametricType : Pattern :=
  baseType ++
    opt (blanks ++ lit "<" ++ blanks ++ baseType ++
      star (blanks ++ lit "," ++ blanks ++ baseType ++ blanks) ++ lit ">")

/-- A parametric type or a union of them. -/
def unionType : Pattern :=
  parametricType ++ star (blanks ++ lit "|" ++ blanks ++ parametricType)

/-- A class with the class it extends. -/
def classPattern : Pattern :=
  start ++ blanks ++ opt (keyword "export") ++ opt (keyword "default") ++
    opt (keyword "abstract") ++ keyword "class" ++ group .name dollarName ++
    opt (blanks ++ enclosed '<' '>') ++
    opt (blanks1 ++ keyword "extends" ++
      group .parents (dollarName ++ star (lit "." ++ dollarName)))

/-- An arrow function assigned to a name. -/
def arrowPattern : Pattern :=
  start ++ blanks ++ opt (keyword "export") ++ opt (keywordOf ["const", "let", "var"]) ++
    group .name dollarName ++ blanks ++ opt (lit ":" ++ star (noneOf "=")) ++ lit "=" ++ blanks ++
    opt (group .promise (keyword "async")) ++ opt (enclosed '<' '>' ++ blanks) ++
    parameterList ++ opt (blanks ++ lit ":" ++ blanks ++ group .result unionType) ++
    blanks ++ lit "=>"

/-- A function or method. -/
def functionPattern : Pattern :=
  modifiers ["public", "private", "protected", "static", "readonly", "abstract", "override",
    "export", "default"] ++
    opt (group .promise (keyword "async")) ++
    opt (lit "function" ++ blanks ++ opt (lit "*") ++ blanks) ++
    group .name dollarName ++ blanks ++
    opt (lit "<" ++ plus (noneOf ">") ++ lit ">") ++ blanks ++ parameterList ++ blanks ++
    opt (lit ":" ++ blanks ++ group .result unionType)

/-- A variable or property. -/
def bindingPattern : Pattern :=
  start ++ blanks ++
    modifiers ["public", "private", "protected", "static", "readonly", "declare", "export", "var",
      "let", "const"] ++
    group .name dollarName ++ opt (oneOf "?!") ++ blanks ++
    opt (lit ":" ++ blanks ++ group .type parametricType) ++
    opt (blanks ++ lit "=" ++ blanks ++ group .value (lazyStar anyChar)) ++ blanks ++
    (oneOf ";," ||| finish)

/-- A modifier in front of a parameter. -/
def parameterModifier : Pattern :=
  boundary ++ keywordOf ["public", "private", "protected", "readonly"]

/-- A declared type without blanks, with unions marked. -/
def normalizeType (raw : Text) : Text :=
  let type := Text.compact raw
  match Text.before? "|null" type with
  | some base => '?' :: base
  | none => if type.contains '|' then '(' :: type ++ [')'] else type

/-- The kind of type that an argument's declared type is shown as. -/
def argumentType (raw : Text) : Option Text :=
  let type := normalizeType raw
  match type with
  | [] => none
  | '[' :: _ => some "Array"
  | '{' :: _ => some "Object"
  | '(' :: _ => if type.contains '|' then some type else some "Function"
  | _ => some type

/-- The text before and after the first equals sign that does not open an arrow. -/
def splitDefault? : Text → Option (Text × Text)
  | [] => none
  | c :: rest =>
    if c = '=' && rest.head? != some '>' then some ([], rest)
    else (splitDefault? rest).map fun (left, right) => (c :: left, right)

/-- Recognises a class. -/
def classLike (line : Text) : Option Declaration :=
  (classPattern.find line).map fun m => .classLike (m.get .name) m.parent

/-- Recognises an arrow function, function or method. -/
def callable (line : Text) : Option Declaration :=
  ((arrowPattern.find line).orElse fun _ => functionPattern.find line).map fun m =>
    let isConstructor := m.get .name = "constructor".toList
    let promised : Option Text := if m.has .promise then some "Promise" else none
    .callable {
      name := m.get .name
      kind := if isConstructor then .constructor else .plain
      rawArgs := m.trimmed? .parameters
      returnType :=
        if isConstructor then none
        else ((m.get? .result).map normalizeType).orElse fun _ => promised }

/-- Recognises a variable or property. -/
def binding (line : Text) : Option Declaration :=
  (bindingPattern.find line).map fun m =>
    .binding (m.get .name) ((m.get? .type).map normalizeType) (m.trimmed? .value)

/-- Takes one argument apart. -/
def argument (raw : Text) : Argument :=
  let (declared, value) := match splitDefault? raw with
    | some (declared, value) => (declared, (Text.trim value).nonempty?)
    | none => (raw, none)
  let (name, type) := match Text.splitFirst? ':' declared with
    | some (name, type) => (name, argumentType type)
    | none => (declared, none)
  let name := (parameterModifier.replaceAll (fun _ => []) name).filter
    fun c => !isBlank c && c != '?'
  match Text.after? "..." name with
  | some name => { name, type := type.orElse fun _ => some "Array", value }
  | none => { name, type, value }

end TypeScript

/-- The grammar of TypeScript. -/
def typeScript : Grammar where
  classLike := TypeScript.classLike
  callable := TypeScript.callable
  binding := TypeScript.binding
  argument := TypeScript.argument

end DocComment.Grammar
