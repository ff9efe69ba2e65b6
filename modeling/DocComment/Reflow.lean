import DocComment.TagLine

/-!
# Re-flowing comment lines

A line that is too wide is broken between words.  A tag line keeps its tag, type and name on the
first line, and its description goes on under the place where it started.  Words are never broken,
so a line with a single long word can still be too wide.
-/

namespace DocComment.Reflow

/-- What every inner line of a comment starts with. -/
def lineMarker (p : Profile) : Text :=
  match p.dialect with
  | .table d => d.marker
  | .rustdoc | .swiftMarkup => "///"
  | .rdoc => "#"

/-- Whether a line is nothing but an opener or closer. -/
def isDelimiter (p : Profile) (line : Text) : Bool :=
  let line := Text.trim line
  match p.delimiters? with
  | some d => line == Text.trim d.opener || d.closer.any fun closer => line == Text.trim closer
  | none => (["##", "=begin", "=end"].map String.toList).contains line

/-- Distributes words over lines of a given width whose text starts at `column`, when the current
line is `used` wide.  Gives the words that still fit on the current line and the lines after it. -/
def fill (width column : Nat) : (used : Nat) → List Text → List Text × List (List Text)
  | _, [] => ([], [])
  | used, w :: ws =>
    if width < used + 1 + w.length then
      let (line, more) := fill width column (column + w.length) ws
      ([], (w :: line) :: more)
    else
      let (line, more) := fill width column (used + 1 + w.length) ws
      (w :: line, more)

/-- Distributes words over lines, each taking as many as fit and at least one. -/
def pack (width column : Nat) : List Text → List (List Text)
  | [] => [[]]
  | w :: ws =>
    let (line, more) := fill width column (column + w.length) ws
    (w :: line) :: more

/-- The lines of words after a head.  Further lines start with the marker and go on at the column
where the head ends. -/
def flow (marker head : Text) (width : Nat) (words : List Text) : List Text :=
  match pack width head.length words with
  | [] => []
  | first :: more =>
    let continuation := marker ++ List.replicate (head.length - marker.length) ' '
    Text.trimEnd (head ++ Text.unwords first) ::
      more.map fun line => Text.trimEnd (continuation ++ Text.unwords line)

/-- The lines that one line becomes.  A line stays as it is when it fits, when it is a delimiter,
when it does not start with the marker, and when it is a tag line without a description. -/
def wrapLine (p : Profile) (width : Nat) (line : Text) : List Text :=
  let marker := lineMarker p
  if line.length ≤ width || isDelimiter p line then [line]
  else
    match Text.after? marker line with
    | none => [line]
    | some content =>
      let lead := marker ++ content.takeWhile isBlank
      let body := Text.trimStart content
      match TagLine.ofText? p body with
      | none => flow marker lead width (Text.words body)
      | some tagLine =>
        match tagLine.description with
        | none => [line]
        | some description => flow marker (lead ++ tagLine.lead) width (Text.words description)

/-- Re-flows lines to a width. -/
def wrap (p : Profile) (width : Nat) (lines : List Text) : List Text :=
  lines.flatMap (wrapLine p width)

end DocComment.Reflow
