import DocComment.Text.Basic

/-!
# Fields with tab stops

A field is literal text mixed with numbered tab stops.  It can be shown as plain text, in which a
tab stop shows its default, or as a snippet, in which it is written `${n:default}` and the characters
that mean something to a snippet are escaped.

The numbers of tab stops are given out by a counter that goes through everything that makes a block
(`Numbered`): each new stop takes the next free number and leaves the one after it.
-/

namespace DocComment

/-- A piece of a field. -/
inductive Segment where
  | text (content : Text)
  /-- A tab stop. -/
  | stop (index : Nat) (default : Text)
  deriving DecidableEq

namespace Segment

/-- The text that a reader sees. -/
def plain : Segment → Text
  | text content => content
  | stop _ default => default

end Segment

/-- A value whose tab stops take their numbers from a counter: from the next free number, the value
and the number that is free after it. -/
abbrev Numbered (α : Type) : Type := StateM Nat α

/-- A tab stop with the next free number. -/
def Segment.newStop (default : Text) : Numbered Segment := fun n => (.stop n default, n + 1)

/-- A field of a documentation row. -/
structure Field where
  segments : List Segment := []
  deriving DecidableEq

/-- Names that the host editor expands and that escaping therefore leaves alone. -/
def reservedTokens : List Text :=
  ["FILENAME", "FILEPATH", "WORKSPACE_NAME", "USER_NAME", "DATE"].map String.toList

/-- The reserved token at the start of a text.  It must not go on with a capital or underscore. -/
def reservedToken? (t : Text) : Option Text :=
  reservedTokens.find? fun token =>
    (Text.after? token t).any fun rest => !rest.head?.any fun c => c.isUpper || c == '_'

/-- Whether a snippet gives the character a meaning. -/
def isSnippetMeta (c : Char) : Bool := c == '\\' || c == '$' || c == '}'

/-- The text with a backslash before every character that means something to a snippet.  The dollar
sign of a reserved token is kept as it is; the token itself holds nothing to escape. -/
def escape : Text → Text
  | [] => []
  | c :: rest =>
    if c = '$' && (reservedToken? rest).isSome then c :: escape rest
    else if isSnippetMeta c then '\\' :: c :: escape rest
    else c :: escape rest

/-- The snippet form of a segment. -/
def Segment.snippet : Segment → Text
  | text content => escape content
  | stop index default => '$' :: '{' :: Text.ofNat index ++ ':' :: escape default ++ ['}']

namespace Field

/-- A field of literal text. -/
def text (t : Text) : Field := ⟨[.text t]⟩

/-- A field that is one tab stop. -/
def stop (default : Text) : Numbered Field := do return ⟨[← Segment.newStop default]⟩

/-- A field that is one tab stop, if it is wanted. -/
def stopIf (wanted : Bool) (default : Text) : Numbered (Option Field) :=
  if wanted then some <$> stop default else pure none

/-- The field as plain text. -/
def plain (f : Field) : Text := f.segments.flatMap Segment.plain

/-- The field as a snippet. -/
def snippet (f : Field) : Text := f.segments.flatMap Segment.snippet

/-- The field as a snippet or as plain text. -/
def render (f : Field) (asSnippet : Bool) : Text := if asSnippet then f.snippet else f.plain

/-- The number of characters of the plain text. -/
def width (f : Field) : Nat := f.plain.length

/-- Whether the plain text is empty. -/
def isEmpty (f : Field) : Bool := f.segments.all fun s => s.plain.isEmpty

/-- The field with its tab stops turned into literal text. -/
def toPlain (f : Field) : Field := text f.plain

/-- Literal text in front of further segments, unless it is empty. -/
def literal (t : Text) (rest : List Segment) : List Segment :=
  if t.isEmpty then rest else .text t :: rest

/-- The default of a tab stop written `${body}`: the body without its leading digits and the colon
after them. -/
def stopDefault (body : Text) : Text :=
  let afterDigits := body.dropWhile Char.isDigit
  (Text.after? ":" afterDigits).getD afterDigits

/-- The text before the first `${`, the body of that tab stop, and the text after its closing brace,
if there is such a stop and it is closed. -/
def firstStop? : Text → Option (Text × Text × Text)
  | '$' :: '{' :: rest =>
    (Text.splitFirst? '}' rest).map fun (body, rest) => ([], body, rest)
  | c :: rest => (firstStop? rest).map fun (before, tail) => (c :: before, tail)
  | [] => none

/-- The segments of a template with at most `k` tab stops. -/
def templateSegments : (k : Nat) → Text → Numbered (List Segment)
  | 0, t => return literal t []
  | k + 1, t =>
    match firstStop? t with
    | none => return literal t []
    | some (before, body, rest) => do
      let stop ← Segment.newStop (stopDefault body)
      let more ← templateSegments k rest
      return literal before (stop :: more)

/-- Reads a template such as `${0:type} ${1:name}`.  The numbers written in it do not count: its tab
stops take theirs from the counter.  A tab stop that is not closed is literal text. -/
def template (t : Text) : Numbered Field := do return ⟨← templateSegments t.length t⟩

end Field

end DocComment
