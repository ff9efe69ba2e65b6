import DocComment.Text.Basic

/-!
# Strings and keys of TOML

Each reader takes the text after an opening quote and gives the string and the text after the closing
quote.
-/

namespace DocComment.Toml

/-- A character that may stand in a comment and, quotes and backslashes aside, in a string: a tab or
anything that is not a control character. -/
def isPrintable (c : Char) : Bool := c == '\t' || (0x20 ≤ c.toNat && c.toNat != 0x7F)

/-- The value of a hexadecimal digit. -/
def hexValue? (c : Char) : Option Nat :=
  if c.isDigit then some (c.toNat - '0'.toNat)
  else if 'a' ≤ c && c ≤ 'f' then some (c.toNat - 'a'.toNat + 10)
  else if 'A' ≤ c && c ≤ 'F' then some (c.toNat - 'A'.toNat + 10)
  else none

/-- The character whose code is given by exactly `n` hexadecimal digits, and the text after them. -/
def codePoint? (n : Nat) (t : Text) : Option (Char × Text) :=
  let digits := t.take n
  if digits.length < n then none
  else
    (digits.mapM hexValue?).bind fun values =>
      let code := values.foldl (fun acc v => acc * 16 + v) 0
      if code.isValidChar then some (Char.ofNat code, t.drop n) else none

/-- The character that an escape stands for, read after its backslash, and the text after it. -/
def escape? : Text → Option (Char × Text)
  | 'b' :: t => some ('\x08', t)
  | 't' :: t => some ('\t', t)
  | 'n' :: t => some ('\n', t)
  | 'f' :: t => some ('\x0c', t)
  | 'r' :: t => some ('\r', t)
  | '"' :: t => some ('"', t)
  | '\\' :: t => some ('\\', t)
  | 'u' :: t => codePoint? 4 t
  | 'U' :: t => codePoint? 8 t
  | _ => none

/-- A string on one line with escapes. -/
def basic : (fuel : Nat) → Text → Option (Text × Text)
  | 0, _ => none
  | fuel + 1, t =>
    match t with
    | [] => none
    | '"' :: rest => some ([], rest)
    | '\\' :: rest =>
      (escape? rest).bind fun (c, rest) =>
        (basic fuel rest).map fun (s, tail) => (c :: s, tail)
    | c :: rest =>
      if isPrintable c then (basic fuel rest).map fun (s, tail) => (c :: s, tail) else none

/-- A string on one line without escapes. -/
def literal : Text → Option (Text × Text)
  | [] => none
  | c :: rest =>
    if c = '\'' then some ([], rest)
    else if isPrintable c then (literal rest).map fun (s, tail) => (c :: s, tail)
    else none

/-- The text without a line break at its start. -/
def dropNewline : Text → Text
  | '\n' :: t => t
  | '\r' :: '\n' :: t => t
  | t => t

/-- The text after the rest of a line without anything but spaces and tabs on it, and after all
blanks and line breaks that follow. -/
def afterLineEnd? (t : Text) : Option Text :=
  match t.dropWhile fun c => c == ' ' || c == '\t' with
  | '\n' :: rest => some (dropBlanks rest)
  | '\r' :: '\n' :: rest => some (dropBlanks rest)
  | _ => none
where
  /-- The text after spaces, tabs and line breaks. -/
  dropBlanks : Text → Text
    | ' ' :: t => dropBlanks t
    | '\t' :: t => dropBlanks t
    | '\n' :: t => dropBlanks t
    | '\r' :: '\n' :: t => dropBlanks t
    | t => t

/-- The number of quotes at the start of a text. -/
def quoteRun (quote : Char) (t : Text) : Nat := (t.takeWhile (· == quote)).length

/-- A string over several lines.  Up to two quotes may stand right before the closing three.  With
escapes, a backslash at the end of a line drops the line break and the blanks after it.  A line
break counts as a line feed. -/
def multiLine (quote : Char) (escapes : Bool) : (fuel : Nat) → Text → Option (Text × Text)
  | 0, _ => none
  | fuel + 1, t =>
    let continue' (c : Char) (rest : Text) :=
      (multiLine quote escapes fuel rest).map fun (s, tail) => (c :: s, tail)
    match t with
    | [] => none
    | '\r' :: '\n' :: rest => continue' '\n' rest
    | c :: rest =>
      if c = quote then
        let run := min (quoteRun quote t) 5
        if 3 ≤ run then some (List.replicate (run - 3) quote, t.drop run) else continue' c rest
      else if escapes && c = '\\' then
        match afterLineEnd? rest with
        | some rest => multiLine quote escapes fuel rest
        | none => (escape? rest).bind fun (c, rest) => continue' c rest
      else if c = '\n' || isPrintable c then continue' c rest
      else none

/-- A string that starts with a quote at the start of the text. -/
def quoted? (t : Text) : Option (Text × Text) :=
  match t with
  | '"' :: '"' :: '"' :: rest => multiLine '"' true (t.length + 1) (dropNewline rest)
  | '\'' :: '\'' :: '\'' :: rest => multiLine '\'' false (t.length + 1) (dropNewline rest)
  | '"' :: rest => basic (t.length + 1) rest
  | '\'' :: rest => literal rest
  | _ => none

/-- A character of a key without quotes. -/
def isBareKey (c : Char) : Bool := c.isAlphanum || c == '_' || c == '-'

/-- A key without dots, and the text after it. -/
def simpleKey? (t : Text) : Option (Text × Text) :=
  match t with
  | '"' :: rest => basic (t.length + 1) rest
  | '\'' :: rest => literal rest
  | _ =>
    let key := t.takeWhile isBareKey
    if key.isEmpty then none else some (key, t.dropWhile isBareKey)

/-- The text without spaces and tabs at its start. -/
def dropSpaces (t : Text) : Text := t.dropWhile fun c => c == ' ' || c == '\t'

/-- A dotted key: the path before its last part, that part, and the text after it. -/
def key? : (fuel : Nat) → Text → Option (List Text × Text × Text)
  | 0, _ => none
  | fuel + 1, t =>
    (simpleKey? (dropSpaces t)).bind fun (key, rest) =>
      match dropSpaces rest with
      | '.' :: rest => (key? fuel rest).map fun (path, last, tail) => (key :: path, last, tail)
      | rest => some ([], key, rest)

end DocComment.Toml
