import DocComment.Grammar.Basic

/-!
# Declarations of Objective-C

The name of a method is its selector, put together from the keywords between the arguments: the
method `- (void)setName:(NSString *)name forKey:(id)key` is named `setName:forKey:`.  Its arguments
are kept one to a line.  Plain C functions are recognised as well.
-/

namespace DocComment.Grammar.ObjectiveC

open Pattern

/-- An interface, implementation or protocol with its superclass. -/
def classPattern : Pattern :=
  start ++ blanks ++ lit "@" ++ keywordOf ["interface", "implementation", "protocol"] ++
    group .name dollarName ++ opt (blanks ++ lit ":" ++ blanks ++ group .parents dollarName)

/-- A method. -/
def methodPattern : Pattern :=
  start ++ blanks ++ oneOf "-+" ++ blanks ++ lit "(" ++ blanks ++
    group .result (dollarName ++ blanks ++ star (lit "*")) ++ blanks ++ lit ")" ++ blanks ++
    group .name dollarName ++ blanks ++
    opt (lit ":" ++ group .parameters (star (noneOf "\x7b;")))

/-- Pointer marks with the blanks around them. -/
def isMark (c : Char) : Bool := c == '*' || isBlank c

/-- A plain C function. -/
def functionPattern : Pattern :=
  start ++ blanks ++ modifiers ["static", "inline", "extern", "const"] ++
    group .result dollarName ++ group .pointer (plus (one isMark)) ++
    group .name dollarName ++ blanks ++ parameterList

/-- A property. -/
def propertyPattern : Pattern :=
  start ++ blanks ++ lit "@property" ++ blanks ++ opt (enclosed '(' ')' ++ blanks) ++
    group .type (dollarName ++ opt (blanks ++ enclosed '<' '>')) ++
    group .pointer (plus (one isMark)) ++ group .name dollarName ++ blanks ++ opt (lit ";")

/-- The colon between a keyword and its argument. -/
def selectorColon : Pattern := blanks ++ lit ":" ++ blanks

/-- Recognises a class-like declaration. -/
def classLike (line : Text) : Option Declaration :=
  (classPattern.find line).map fun m => .classLike (m.get .name) m.parent

/-- The rest of a selector and the arguments, given the pieces between the colons.  Each piece but
the last holds an argument and, after a blank, the next keyword. -/
def selectorParts : List Text → Text × List Text
  | [] => ([':'], [])
  | [last] => ([':'], [Text.trim last])
  | piece :: more =>
    let (keyword, param) := match Text.splitLast? isBlank (Text.trim piece) with
      | some (param, keyword) => (keyword, Text.trim param)
      | none => ([], Text.trim piece)
    let (selector, params) := selectorParts more
    (':' :: keyword ++ selector, param :: params)

/-- The selector that starts with a keyword, and its arguments. -/
def selector (name args : Text) : Text × List Text :=
  let (tail, params) := selectorParts (selectorColon.split (Text.trim args))
  (name ++ tail, params)

/-- The declaration of a method. -/
def methodOf (m : Match) : Declaration :=
  let (name, params) := match m.trimmed? .parameters with
    | some args => selector (m.get .name) args
    | none => (m.get .name, [])
  let params := params.filter fun p => !p.isEmpty
  .callable {
    name
    rawArgs := if params.isEmpty then none else some (Text.unlines params)
    returnType := some (Text.compact (m.get .result)) }

/-- The declaration of a plain function. -/
def functionOf (m : Match) : Declaration :=
  .callable {
    name := m.get .name
    rawArgs := m.trimmed? .parameters
    returnType := some (pointerType (m.get .result) (m.get .pointer)) }

/-- Recognises a method or a plain function. -/
def callable (line : Text) : Option Declaration :=
  ((methodPattern.find line).map methodOf).orElse fun _ =>
    (functionPattern.find line).map functionOf

/-- Recognises a property. -/
def binding (line : Text) : Option Declaration :=
  (propertyPattern.find line).map fun m =>
    .binding (m.get .name) (some (pointerType (m.get .type) (m.get .pointer))) none

/-- The text between the first opening and the last closing parenthesis, and the text after it. -/
def parenthesized? (raw : Text) : Option (Text × Text) :=
  (Text.splitFirst? '(' raw).bind fun (_, tail) => Text.splitLast? (· == ')') tail

/-- Takes one argument apart: either a type in parentheses and a name, or a type, a blank and a
name that may carry the pointer marks. -/
def argument (raw : Text) : Argument :=
  let raw := Text.trim raw
  match parenthesized? raw with
  | some (inner, name) =>
    { name := Text.trim name
      type := some (pointerType (inner.filter (· != '*')) (inner.filter (· == '*'))) }
  | none =>
    match Text.splitLast? isBlank raw with
    | some (type, name) =>
      { name := name.dropWhile (· == '*')
        type := some (pointerType type (name.takeWhile (· == '*'))) }
    | none => { name := raw }

/-- Takes a parameter list apart.  Arguments of a method stand on lines of their own or start with
a parenthesis; arguments of a function are separated by commas. -/
def arguments (raw : Text) : List Argument :=
  if raw.contains '\n' || (Text.trimStart raw).head? == some '(' then
    ((Text.lines raw).map Text.trim |>.filter fun arg => !arg.isEmpty).map argument
  else ((rawArguments raw).filter (· != "void".toList)).map argument

end ObjectiveC

/-- The grammar of Objective-C. -/
def objectiveC : Grammar where
  classLike := ObjectiveC.classLike
  callable := ObjectiveC.callable
  binding := ObjectiveC.binding
  argument := ObjectiveC.argument
  arguments := ObjectiveC.arguments

end DocComment.Grammar
