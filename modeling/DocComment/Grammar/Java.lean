import DocComment.Grammar.Basic

/-!
# Declarations of Java

Fields are not documented, so the grammar has no bindings.
-/

namespace DocComment.Grammar.Java

open Pattern

/-- Words that stand where a return type would, in a statement. -/
def notTypes : List Text := ["new", "return", "throw", "else"].map String.toList

/-- A class, interface, enumeration or record with the class it extends. -/
def classPattern : Pattern :=
  start ++ blanks ++
    star (lit "@" ++ plus (one isWordChar) ++ opt (enclosed '(' ')') ++ blanks1) ++
    modifiers ["public", "protected", "private", "static", "abstract", "final", "sealed",
      "non-sealed", "strictfp"] ++
    keywordOf ["class", "interface", "enum", "record"] ++ group .name dollarName ++
    opt (blanks ++ enclosed '<' '>') ++
    opt (blanks1 ++ keyword "extends" ++ group .parents dollarName)

/-- A method or constructor. -/
def methodPattern : Pattern :=
  modifiers ["public", "protected", "private", "static", "abstract", "final", "transient",
    "synchronized", "native", "strictfp", "default"] ++
    opt (enclosed '<' '>' ++ blanks1) ++
    opt (group .result (one isDollarStart ++
      plus (one fun c => isDollarChar c || "<>., []".toList.contains c)) ++ blanks1) ++
    group .name dollarName ++ blanks ++ parameterList ++ blanks ++
    opt (keyword "throws" ++
      group .throws (star (one fun c => isDollarChar c || c == '.' || c == ',' || isBlank c)))

/-- Recognises a class-like declaration. -/
def classLike (line : Text) : Option Declaration :=
  (classPattern.find line).map fun m => .classLike (m.get .name) m.parent

/-- Recognises a method.  Without a return type, a capital initial marks a constructor. -/
def callable (line : Text) : Option Declaration :=
  (methodPattern.find line).bind fun m =>
    let name := m.get .name
    let result := (m.get? .result).map Text.compact
    if result.any notTypes.contains then none
    else
      let thrown := (m.get? .throws).map (Text.listOn ',')
      some (.callable {
        name
        kind := if result.isNone && name.head?.any Char.isUpper then .constructor else .plain
        rawArgs := m.trimmed? .parameters
        returnType := result
        throws := thrown.filter fun types => !types.isEmpty })

/-- Takes one argument apart: annotations and `final` aside, the last word is the name. -/
def argument (raw : Text) : Argument :=
  let ws := (Text.words raw).filter fun w => w.head? != some '@' && w != "final".toList
  match ws.getLast? with
  | none => { name := Text.trim raw }
  | some name =>
    match ws.dropLast with
    | [] => { name }
    | type => { name, type := some (Text.unwords type) }

end Java

/-- The grammar of Java. -/
def java : Grammar where
  classLike := Java.classLike
  callable := Java.callable
  binding := fun _ => none
  argument := Java.argument

end DocComment.Grammar
