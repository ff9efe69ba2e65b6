import DocComment.Pattern.Forms

/-!
# Guessing types

The type of a parameter or variable is what the source declares; failing that, what the shape of its
value suggests; failing that, what its name suggests.
-/

namespace DocComment

/-- How a dialect names the types of numbers. -/
inductive NumberTypes where
  /-- Every number is a `number`. -/
  | number
  /-- A number with a decimal point is a `float`, any other an `integer`. -/
  | integerFloat
  deriving DecidableEq, Repr

namespace TypeGuess

open Pattern

/-- The digits of a notation, given the lower-cased mark that opens it. -/
def radixMarks : List (Text × (Char → Bool)) :=
  [("0x", fun c => c.isDigit || ('a' ≤ c && c ≤ 'f')),
   ("0o", fun c => '0' ≤ c && c ≤ '7'),
   ("0b", fun c => c == '0' || c == '1')]

/-- An exponent, or nothing at all. -/
def isExponent : Text → Bool
  | [] => true
  | e :: t =>
    let digits := match t with
      | '+' :: d => d
      | '-' :: d => d
      | d => d
    (e == 'e' || e == 'E') && !digits.isEmpty && digits.all Char.isDigit

/-- An unsigned decimal number: digits with at most one point, at least one digit, and possibly an
exponent. -/
def isDecimal (t : Text) : Bool :=
  let whole := t.takeWhile Char.isDigit
  match t.dropWhile Char.isDigit with
  | '.' :: t =>
    let fraction := t.takeWhile Char.isDigit
    !(whole.isEmpty && fraction.isEmpty) && isExponent (t.dropWhile Char.isDigit)
  | t => !whole.isEmpty && isExponent t

/-- A number in one of the common notations, with at most one sign. -/
def isNumeric (value : Text) : Bool :=
  let unsigned := match value with
    | '-' :: t => t
    | '+' :: t => t
    | t => t
  let lower := Text.asciiLower unsigned
  match radixMarks.findSome? fun (mark, digit) => (Text.after? mark lower).map (·, digit) with
  | some (digits, digit) => !digits.isEmpty && digits.all digit
  | none => isDecimal unsigned

/-- A regular expression object or literal. -/
def regexpValue : Pattern :=
  start ++ lit "RegExp" |||
    start ++ lit "/" ++ noneOf "/*" ++ star anyChar ++ lit "/" ++ star (one Char.isLower) ++ finish

/-- A constructor call; the class may be qualified. -/
def newValue : Pattern :=
  start ++ keyword "new" ++
    group .type (opt (lit "\\") ++ one isDollarStart ++
      star (one fun c => isDollarChar c || c == '\\' || c == '.'))

/-- A name that reads like a question: `is` or `has` before a capital or an underscore. -/
def questionName : Pattern :=
  start ++ opt (oneOf "$_") ++ words ["is", "has"] ++ one fun c => c.isUpper || c == '_'

/-- A conventional name of a callback. -/
def callbackName : Pattern :=
  start ++ opt (oneOf "$_") ++ words ["cb", "callback", "done", "next", "fn"] ++ finish

/-- The type that the shape of a value suggests. -/
def ofValue (value : Text) (numbers : NumberTypes) : Option Text :=
  let value := Text.trim value
  match value with
  | [] => none
  | first :: _ =>
    if isNumeric value then
      match numbers with
      | .number => some "number"
      | .integerFloat => some (if value.contains '.' then "float" else "integer")
    else if first == '\'' || first == '"' || first == '\x60' then some "string"
    else if (Text.after? "array" value).isSome || first == '[' then some "Array"
    else if first == '{' then some "Object"
    else if Text.asciiLower value = "true".toList || Text.asciiLower value = "false".toList then
      some "boolean"
    else if regexpValue.occursIn value then some "RegExp"
    else (newValue.find value).map (·.get .type)

/-- The type that a name suggests. -/
def ofName (name : Text) : Option Text :=
  if questionName.occursIn name then some "boolean"
  else if callbackName.occursIn name then some "function"
  else none

/-- The declared type, or the best guess, or the word `type`. -/
def resolve (declared value : Option Text) (name : Text) (numbers : NumberTypes) : Text :=
  let declared := declared.bind fun t => (Text.trim t).nonempty?
  ((declared.orElse fun _ => value.bind (ofValue · numbers)).orElse fun _ => ofName name).getD
    "type"

end TypeGuess

end DocComment
