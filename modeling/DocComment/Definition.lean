import DocComment.Pattern.Forms

/-!
# The definition after the cursor

The lines after the cursor are joined into one line for the recognisers to look at.  Comments and
the contents of string literals are taken out of each line first, so that what they hold cannot be
mistaken for code.  Reading stops after a line that ends a statement, after a line that closes more
parentheses than were opened, and after a fixed number of lines with something on them.
-/

namespace DocComment.Definition

open Pattern

/-- A comment that lasts to the end of the line. -/
def lineComment : Pattern := lit "//" ++ star anyChar ++ finish

/-- Everything from the first comment opener of a line to the last comment closer. -/
def blockComment : Pattern := lit "/*" ++ star anyChar ++ lit "*/"

/-- A literal between two equal quotes, in which a backslash escapes the next character. -/
def quoted (quote : Char) : Pattern :=
  one (· == quote) ++
    star (lit "\\" ++ anyChar ||| one fun c => c != quote && c != '\\') ++
    one (· == quote)

/-- A line without comments, string contents and outer blanks. -/
def strip (line : Text) : Text :=
  let line := lineComment.replaceFirst [] line
  let line := blockComment.replaceAll (fun _ => []) line
  let line := (quoted '\'').replaceAll (fun _ => ['\'', '\'']) line
  let line := (quoted '"').replaceAll (fun _ => ['"', '"']) line
  Text.trim line

/-- Opening minus closing parentheses. -/
def balance (line : Text) : Int := line.count '(' - line.count ')'

/-- How many lines with something on them are read. -/
def maxLines : Nat := 11

/-- The stripped lines that belong to the definition, when `left` more lines with something on them
may be read and `depth` parentheses are open. -/
def scanned (left : Nat) (depth : Int) : List Text → List Text
  | [] => []
  | line :: rest =>
    let depth := depth + balance line
    if line.isEmpty then
      if depth < 0 then [] else scanned left depth rest
    else if line.getLast? == some ';' || left ≤ 1 || depth < 0 then [line]
    else line :: scanned (left - 1) depth rest

/-- Two lines joined, with a space where two words would otherwise run together. -/
def join (left right : Text) : Text :=
  if left.getLast?.any isIdentChar && right.head?.any isIdentChar then left ++ ' ' :: right
  else left ++ right

/-- The definition at the start of the given lines. -/
def ofLines (lines : List Text) : Text :=
  (scanned maxLines 0 (lines.map strip)).foldl join []

end DocComment.Definition
