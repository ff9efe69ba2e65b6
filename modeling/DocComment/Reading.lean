import DocComment.Block
import DocComment.TagLine

/-!
# Reading a comment back

The text of a comment in a tag-table dialect becomes rows again.  Delimiters and markers are taken
off each line, a line that does not start with a tag continues the one before it, and the columns of
each tag line are cut apart.  Prose dialects have no columns to recover.
-/

namespace DocComment.Reading

/-- A comment line after its continuations are joined to it. -/
inductive Logical where
  | text (content : Text)
  | tag (content : Text)
  | blank
  deriving DecidableEq

/-- A line without its markers: the opener, if it is the first line, the closer, and the marker. -/
def lineContent (d : Delimiters) (isFirst : Bool) (line : Text) : Text :=
  let line := Text.trim line
  let line := if isFirst then (Text.after? d.opener line).getD line else line
  let line := match d.closer with
    | some closer => Text.trimEnd ((Text.before? (Text.trim closer) line).getD line)
    | none => line
  let line := Text.trimStart line
  Text.trim ((Text.after? (Text.trim d.marker) line).getD line)

/-- The contents of the lines of a comment. -/
def contents (d : Delimiters) (raw : Text) : List Text :=
  match Text.lines raw with
  | [] => []
  | first :: rest => lineContent d true first :: rest.map (lineContent d false)

/-- Adds the content of a line to the logical lines so far, the latest first.  Empty lines collapse,
a tag starts a new logical line, and other text continues the latest one.  A first sentence that
ends in a period is complete. -/
def addLine (p : Profile) (soFar : List Logical) (content : Text) : List Logical :=
  if content.isEmpty then
    match soFar with
    | [] | .blank :: _ => soFar
    | _ => .blank :: soFar
  else if (TagLine.ofText? p content).isSome then .tag content :: soFar
  else
    match soFar with
    | .text previous :: older =>
      if older.isEmpty && previous.getLast? == some '.' then .text content :: soFar
      else .text (previous ++ ' ' :: content) :: older
    | .tag previous :: older => .tag (previous ++ ' ' :: content) :: older
    | _ => .text content :: soFar

/-- The logical lines of a comment, without an empty one at the end. -/
def logicalLines (p : Profile) (contents : List Text) : List Logical :=
  match contents.foldl (addLine p) [] with
  | .blank :: older => older.reverse
  | all => all.reverse

/-- The row of a logical line. -/
def rowOf (p : Profile) : Logical → Row
  | .blank => .blank
  | .text content => .text (.text content)
  | .tag content =>
    match TagLine.ofText? p content with
    | none => .text (.text content)
    | some line =>
      if line.structured then
        .entry line.tag (line.type.map Field.text) (line.name.map Field.text)
          (line.description.map Field.text)
      else .tag line.tag (line.description.map Field.text)

/-- The block that a comment holds; none for a prose dialect and for an empty comment. -/
def block? (p : Profile) (raw : Text) : Option Block :=
  p.delimiters?.bind fun d =>
    match (logicalLines p (contents d raw)).map (rowOf p) with
    | [] => none
    | rows => some ⟨rows⟩

end DocComment.Reading
