import DocComment.Text.Basic

/-!
# JSON

Values whose objects keep the order of their members, and two ways to write them: compactly, and
with each member on a line of its own, indented by two spaces.
-/

namespace DocComment

/-- A JSON value without fractions. -/
inductive Json where
  | null
  | bool (b : Bool)
  | number (n : Int)
  | string (t : Text)
  | array (items : List Json)
  | object (members : List (Text × Json))

namespace Json

/-- The value of an optional one; absence is null. -/
def ofOption {α : Type} (f : α → Json) (value : Option α) : Json := (value.map f).getD .null

/-- A list of texts. -/
def strings (ts : List Text) : Json := .array (ts.map .string)

/-- The short escape of a character, if it has one. -/
def shortEscape? : Char → Option Char
  | '"' => some '"'
  | '\\' => some '\\'
  | '\n' => some 'n'
  | '\r' => some 'r'
  | '\t' => some 't'
  | '\x08' => some 'b'
  | '\x0c' => some 'f'
  | _ => none

/-- A character inside quotes.  Other control characters are written with four hexadecimal
digits. -/
def escapeChar (c : Char) : Text :=
  match shortEscape? c with
  | some e => ['\\', e]
  | none =>
    if c.toNat < 0x20 then
      "\\u00".toList ++ [Nat.digitChar (c.toNat / 16), Nat.digitChar (c.toNat % 16)]
    else [c]

/-- A text in quotes. -/
def quote (t : Text) : Text := '"' :: t.flatMap escapeChar ++ ['"']

mutual

/-- The value on one line without blanks. -/
def compact : Json → Text
  | null => "null"
  | bool b => if b then "true" else "false"
  | number n => Text.ofInt n
  | string t => quote t
  | array items => '[' :: compactItems items ++ [']']
  | object members => '{' :: compactMembers members ++ ['}']

/-- The items of an array with commas between them. -/
def compactItems : List Json → Text
  | [] => []
  | [v] => compact v
  | v :: rest => compact v ++ ',' :: compactItems rest

/-- The members of an object with commas between them. -/
def compactMembers : List (Text × Json) → Text
  | [] => []
  | [(key, v)] => quote key ++ ':' :: compact v
  | (key, v) :: rest => quote key ++ ':' :: compact v ++ ',' :: compactMembers rest

end

/-- A new line indented to a depth. -/
def newline (depth : Nat) : Text := '\n' :: List.replicate (2 * depth) ' '

mutual

/-- The value with items and members on lines of their own, at a given depth. -/
def prettyAt (depth : Nat) : Json → Text
  | null => "null"
  | bool b => if b then "true" else "false"
  | number n => Text.ofInt n
  | string t => quote t
  | array [] => "[]"
  | array (v :: rest) => '[' :: prettyItems (depth + 1) (v :: rest) ++ newline depth ++ [']']
  | object [] => ['{', '}']
  | object (m :: rest) => '{' :: prettyMembers (depth + 1) (m :: rest) ++ newline depth ++ ['}']

/-- The items of an array, each on a line of its own. -/
def prettyItems (depth : Nat) : List Json → Text
  | [] => []
  | [v] => newline depth ++ prettyAt depth v
  | v :: rest => newline depth ++ prettyAt depth v ++ ',' :: prettyItems depth rest

/-- The members of an object, each on a line of its own. -/
def prettyMembers (depth : Nat) : List (Text × Json) → Text
  | [] => []
  | [(key, v)] => newline depth ++ quote key ++ ": ".toList ++ prettyAt depth v
  | (key, v) :: rest =>
    newline depth ++ quote key ++ ": ".toList ++ prettyAt depth v ++ ',' :: prettyMembers depth rest

end

/-- The value over several lines. -/
def pretty (v : Json) : Text := prettyAt 0 v

end Json

end DocComment
