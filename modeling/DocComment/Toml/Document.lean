import DocComment.Toml.Number
import DocComment.Toml.Quoted

/-!
# TOML documents

A reader for documents of TOML 1.0.  It gives the entries of the document, or nothing when the
document is malformed.
-/

namespace DocComment.Toml

/-- The text after a line break. -/
def afterNewline? : Text → Option Text
  | '\n' :: t => some t
  | '\r' :: '\n' :: t => some t
  | _ => none

/-- The text after a comment, if one starts here. -/
def dropComment : Text → Text
  | '#' :: t => t.dropWhile isPrintable
  | t => t

/-- The text after spaces, line breaks and comments that end in one. -/
def dropGap : (fuel : Nat) → Text → Text
  | 0, t => t
  | fuel + 1, t =>
    match afterNewline? (dropComment (dropSpaces t)) with
    | some rest => dropGap fuel rest
    | none => dropSpaces t

mutual

/-- A value at the start of a text, and the text after it. -/
def value? : (fuel : Nat) → Text → Option (Value × Text)
  | 0, _ => none
  | fuel + 1, t =>
    match t with
    | '[' :: rest => (items? fuel rest).map fun (items, tail) => (.array items, tail)
    | '{' :: rest =>
      match dropSpaces rest with
      | '}' :: tail => some (.table .inline [], tail)
      | _ => (pairs? fuel [] rest).map fun (entries, tail) => (.table .inline entries, tail)
    | '"' :: _ | '\'' :: _ => (quoted? t).map fun (s, tail) => (.string s, tail)
    | _ => scalar? t

/-- The items of an array up to its closing bracket. -/
def items? : (fuel : Nat) → Text → Option (List Value × Text)
  | 0, _ => none
  | fuel + 1, t =>
    match dropGap t.length t with
    | ']' :: tail => some ([], tail)
    | t =>
      (value? fuel t).bind fun (v, rest) =>
        match dropGap rest.length rest with
        | ',' :: rest => (items? fuel rest).map fun (vs, tail) => (v :: vs, tail)
        | ']' :: tail => some ([v], tail)
        | _ => none

/-- The pairs of an inline table up to its closing brace, added to the entries so far. -/
def pairs? : (fuel : Nat) → Entries → Text → Option (Entries × Text)
  | 0, _, _ => none
  | fuel + 1, entries, t =>
    (pair? fuel t).bind fun (path, key, v, rest) =>
      (insert path key v .header entries).bind fun entries =>
        match dropSpaces rest with
        | ',' :: rest => pairs? fuel entries rest
        | '}' :: tail => some (entries, tail)
        | _ => none

/-- A key and its value: the path before the last part of the key, that part, the value, and the
text after it. -/
def pair? : (fuel : Nat) → Text → Option (List Text × Text × Value × Text)
  | 0, _ => none
  | fuel + 1, t =>
    (key? t.length t).bind fun (path, key, rest) =>
      match dropSpaces rest with
      | '=' :: rest =>
        (value? fuel (dropSpaces rest)).map fun (v, tail) => (path, key, v, tail)
      | _ => none

end

/-- Reads a header: whether it is one in double brackets, its path, and the text after it. -/
def header? (t : Text) : Option (Bool × List Text × Text × Text) :=
  match t with
  | '[' :: '[' :: rest =>
    (key? rest.length rest).bind fun (path, key, rest) =>
      match dropSpaces rest with
      | ']' :: ']' :: tail => some (true, path, key, tail)
      | _ => none
  | '[' :: rest =>
    (key? rest.length rest).bind fun (path, key, rest) =>
      match dropSpaces rest with
      | ']' :: tail => some (false, path, key, tail)
      | _ => none
  | _ => none

/-- Reads one expression: nothing, a header, or a pair that goes into the table of the latest header.
Gives that header, the entries of the document, and the text after the expression. -/
def expression? (current : List Text) (entries : Entries) (t : Text) :
    Option (List Text × Entries × Text) :=
  match t with
  | [] => some (current, entries, [])
  | '\n' :: _ | '\r' :: _ | '#' :: _ => some (current, entries, t)
  | '[' :: _ =>
    (header? t).bind fun (isMany, path, key, tail) =>
      let open' := if isMany then openTables key else openTable key
      (descend .implied open' path .header entries).map fun entries =>
        (path ++ [key], entries, tail)
  | _ =>
    (pair? (2 * t.length + 4) t).bind fun (path, key, v, tail) =>
      (descend .implied (insert path key v) current .header entries).map fun entries =>
        (current, entries, tail)

/-- Reads the expressions of a document, each on a line of its own. -/
def expressions? : (fuel : Nat) → List Text → Entries → Text → Option Entries
  | 0, _, _, _ => none
  | fuel + 1, current, entries, t =>
    (expression? current entries (dropSpaces t)).bind fun (current, entries, rest) =>
      match dropComment (dropSpaces rest) with
      | [] => some entries
      | rest => (afterNewline? rest).bind (expressions? fuel current entries)

/-- The entries of a document.  A byte order mark may stand at its start. -/
def parse? (document : Text) : Option Entries :=
  let document := match document with
    | '\uFEFF' :: t => t
    | t => t
  expressions? (document.length + 1) [] [] document

end DocComment.Toml
