import DocComment.Block
import DocComment.KnownTag
import DocComment.Pattern.Forms
import DocComment.Profile

/-!
# File headers

A header names the file and the workspace and adds the configured lines.
-/

namespace DocComment.Header

open Pattern

/-- What a header is made for.  A name that is not known leaves the token that the host editor
expands. -/
structure Context where
  year : Int
  fileName : Option Text := none
  workspaceName : Option Text := none
  deriving DecidableEq

/-- The token for the year with the character after it, which is no capital. -/
def yearToken : Pattern :=
  lit "$YEAR" ++ group .kept (one (fun c => !c.isUpper) ||| finish)

/-- The text with the year put in. -/
def substituteYear (year : Int) (t : Text) : Text :=
  yearToken.replaceAll (fun m => Text.ofInt year ++ m.get .kept) t

/-- A configured line that starts with a tag. -/
def tagPattern : Pattern :=
  start ++ group .tag (oneOf "@\\" ++ plus (one fun c => !isBlank c)) ++
    opt (blanks ++ group .remainder (plus anyChar)) ++ finish

/-- The known tag that a bare tag stands for: the one of that name, or else the first one that
agrees with it. -/
def knownTag? (language : Language) (tag : Text) : Option KnownTag :=
  let known := KnownTag.lookup language tag
  let bare := tag.dropWhile fun c => c == '@' || c == '\\'
  (known.find? fun t => t.name == bare).orElse fun _ => known.head?

/-- The value that a known tag has to offer: its template, unless that is empty. -/
def offeredValue (known : KnownTag) : Numbered (Option Field) :=
  if known.template.isEmpty then pure none else some <$> Field.template known.template

/-- The row of a configured line. -/
def customRow (language : Language) (raw : Text) : Numbered Row :=
  match tagPattern.find raw with
  | none => Row.text <$> Field.template raw
  | some m =>
    match m.get? .remainder with
    | some remainder => do return .tag (m.get .tag) (some (← Field.template remainder))
    | none =>
      match knownTag? language (m.get .tag) with
      | some known => do return .tag ('@' :: known.name) (← offeredValue known)
      | none => Row.text <$> Field.template raw

/-- The rows of the configured lines, after an empty one. -/
def customRows (language : Language) (year : Int) (customTags : List Text) : Numbered (List Row) :=
  if customTags.isEmpty then return []
  else do
    let rows ← customTags.mapM fun raw => customRow language (substituteYear year raw)
    return .blank :: rows

/-- The rows of a header: the two names and the configured lines. -/
def rows (p : Profile) (customTags : List Text) (context : Context) : Numbered (List Row) := do
  let custom ← customRows p.language context.year customTags
  return .text (.text (context.fileName.getD "$FILENAME")) ::
    .text (.text (context.workspaceName.getD "$WORKSPACE_NAME")) :: custom

/-- The header block of a file, with its tab stops numbered from zero. -/
def block (p : Profile) (customTags : List Text) (context : Context) : Block :=
  ⟨(rows p customTags context 0).1⟩

end DocComment.Header
