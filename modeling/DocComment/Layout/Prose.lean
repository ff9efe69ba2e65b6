import DocComment.Layout.Options
import DocComment.Text.Case

/-!
# Prose dialects

Prose dialects have no columns.  The free text comes first, and the other rows are sorted into
sections for parameters, exceptions and the result.  A header is written row by row instead.
-/

namespace DocComment.Prose

/-- The name of a tag without its introducers. -/
def tagName (tag : Text) : Text := tag.dropWhile fun c => c == '@' || c == '\\'

/-- The sections that structured rows are sorted into. -/
inductive Section where
  | parameters
  | exceptions
  | result
  | other
  deriving DecidableEq

/-- The section of a tag. -/
def sectionOf (tag : Text) : Section :=
  let name := tagName tag
  if (["param", "arg", "argument"].map String.toList).contains name then .parameters
  else if (["throws", "throw", "raise", "exception"].map String.toList).contains name then
    .exceptions
  else if (["return", "returns"].map String.toList).contains name then .result
  else .other

/-- The names and descriptions of the structured rows of a section. -/
def entries (asSnippet : Bool) (wanted : Section) (rows : List Row) : List (Text × Text) :=
  rows.filterMap fun
    | .entry tag _ name description =>
      if sectionOf tag = wanted then some (cell name asSnippet, cell description asSnippet)
      else none
    | _ => none

/-- The tags and values of the rows that belong to no section. -/
def others (asSnippet : Bool) (rows : List Row) : List (Text × Text) :=
  rows.filterMap fun
    | .tag tag value => some (tagName tag, cell value asSnippet)
    | .entry tag _ _ description =>
      if sectionOf tag = .other then some (tagName tag, cell description asSnippet) else none
    | _ => none

/-- The description of the result; the last one counts. -/
def result? (asSnippet : Bool) (rows : List Row) : Option Text :=
  (entries asSnippet .result rows).getLast?.map Prod.snd

/-- A line of text after a marker. -/
def line (marker text : Text) : Text := Text.trimEnd (marker ++ ' ' :: text)

/-- The lines of the free text, empty lines included. -/
def textLines (marker : Text) (asSnippet : Bool) (rows : List Row) : List Text :=
  rows.filterMap fun
    | .text field => some (line marker (field.render asSnippet))
    | .blank => some marker
    | _ => none

/-- The lines that a section has when its rows are not empty. -/
def sectionLines (heading : List Text) (body : List Text) : List Text :=
  if body.isEmpty then [] else heading ++ body

/-- A tag and its value with a mark between them. -/
def labelled (tag mark value : Text) : Text := Text.capitalize tag ++ mark ++ value

/-- The marker of Markdown and callout comments. -/
def slashes : Text := "///"

/-- The marker of comments that document a whole module. -/
def bangSlashes : Text := "//!"

/-- The marker of number sign comments. -/
def numberSign : Text := "#"

/-- The heading of a Markdown section between empty lines. -/
def markdownHeading (title : Text) : List Text :=
  [slashes, line slashes ("# ".toList ++ title), slashes]

/-- The lines of a block in Markdown. -/
def rustdocLines (asSnippet : Bool) (rows : List Row) : List Text :=
  let item : Text × Text → Text := fun (name, description) =>
    line slashes ("* \x60".toList ++ name ++ "\x60 - ".toList ++ description)
  textLines slashes asSnippet rows ++
    sectionLines (markdownHeading "Arguments") ((entries asSnippet .parameters rows).map item) ++
    sectionLines (markdownHeading "Errors")
      ((entries asSnippet .exceptions rows).map fun (_, description) =>
        line slashes description) ++
    sectionLines (markdownHeading "Returns")
      ((result? asSnippet rows).toList.map (line slashes)) ++
    (others asSnippet rows).flatMap fun (tag, value) =>
      markdownHeading (Text.capitalize tag) ++ [line slashes value]

/-- The lines for the parameters of a callout list: one parameter stands alone. -/
def parameterCallouts : List (Text × Text) → List Text
  | [] => []
  | [(name, description)] =>
    [line slashes ("- Parameter ".toList ++ name ++ ": ".toList ++ description)]
  | many =>
    line slashes "- Parameters:" ::
      many.map fun (name, description) =>
        line slashes ("  - ".toList ++ name ++ ": ".toList ++ description)

/-- The lines of the callouts after the free text. -/
def callouts (asSnippet : Bool) (rows : List Row) : List Text :=
  (others asSnippet rows).map (fun (tag, value) =>
      line slashes ("- ".toList ++ labelled tag ": " value)) ++
    parameterCallouts (entries asSnippet .parameters rows) ++
    (entries asSnippet .exceptions rows).map (fun (_, description) =>
      line slashes ("- Throws: ".toList ++ description)) ++
    (result? asSnippet rows).toList.map fun description =>
      line slashes ("- Returns: ".toList ++ description)

/-- The lines of a block as text and callouts. -/
def swiftLines (asSnippet : Bool) (rows : List Row) : List Text :=
  textLines slashes asSnippet rows ++ sectionLines [slashes] (callouts asSnippet rows)

/-- A heading of number sign comments after an empty line. -/
def rdocHeading (title : Text) : List Text :=
  [numberSign, line numberSign ("== ".toList ++ title ++ [':'])]

/-- The lines of a block with number sign headings. -/
def rdocLines (asSnippet : Bool) (rows : List Row) : List Text :=
  let item : Text × Text → Text := fun (name, description) =>
    line numberSign ('+' :: name ++ "+:: ".toList ++ description)
  "##".toList :: textLines numberSign asSnippet rows ++
    sectionLines (rdocHeading "Parameters") ((entries asSnippet .parameters rows).map item) ++
    sectionLines (rdocHeading "Raises") ((entries asSnippet .exceptions rows).map item) ++
    sectionLines (rdocHeading "Returns")
      ((result? asSnippet rows).toList.map (line numberSign)) ++
    (others asSnippet rows).map fun (tag, value) => line numberSign (labelled tag ":: " value)

/-- The lines of a module header in Markdown. -/
def rustdocHeader (asSnippet : Bool) (rows : List Row) : List Text :=
  rows.map fun
    | .text field => line bangSlashes (field.render asSnippet)
    | .blank => bangSlashes
    | .tag tag value => line bangSlashes (labelled (tagName tag) ": " (cell value asSnippet))
    | .entry tag _ _ description =>
      line bangSlashes (labelled (tagName tag) ": " (cell description asSnippet))

/-- The lines of a header row as text or callout; structured rows are left out. -/
def swiftHeaderRow (asSnippet : Bool) : Row → List Text
  | .text field => [line slashes (field.render asSnippet)]
  | .blank => [slashes]
  | .tag tag value =>
    [line slashes ("- ".toList ++ labelled (tagName tag) ": " (cell value asSnippet))]
  | .entry .. => []

/-- The lines of a header as text and callouts.  An empty line sets the first row off. -/
def swiftHeader (asSnippet : Bool) : List Row → List Text
  | [] => []
  | first :: rest =>
    swiftHeaderRow asSnippet first ++
      (if rest.head?.any fun next => !next.isBlank then [slashes] else []) ++
      rest.flatMap (swiftHeaderRow asSnippet)

/-- The lines of a header in number sign comments; structured rows are left out. -/
def rdocHeader (asSnippet : Bool) (rows : List Row) : List Text :=
  rows.filterMap fun
    | .text field => some (line numberSign (field.render asSnippet))
    | .blank => some numberSign
    | .tag tag value =>
      some (line numberSign (labelled (tagName tag) ":: " (cell value asSnippet)))
    | .entry .. => none

end DocComment.Prose
