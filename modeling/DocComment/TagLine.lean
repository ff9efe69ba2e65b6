import DocComment.Profile

/-!
# Tag lines

A line that starts with a tag is cut back into its columns.  The line wrapper needs the text before
the description, the reader every column.  The cut goes from one `Place` of the line to the next and
counts the octets it passes, so that the last place is the offset of the description.
-/

namespace DocComment

/-- The columns of a line that starts with a tag. -/
structure TagLine where
  tag : Text
  /-- The type without the characters around it. -/
  type : Option Text := none
  name : Option Text := none
  description : Option Text := none
  /-- Where the description starts, in octets of UTF-8. -/
  descriptionOffset? : Option Nat := none
  /-- Everything before the description, blanks and separator included. -/
  lead : Text
  /-- Whether the tag is a structured one. -/
  structured : Bool
  deriving DecidableEq

namespace TagLine

/-- The text up to the first blank. -/
def word (t : Text) : Text := t.takeWhile fun c => !isBlank c

/-- The text up to the closer that brings the count of open brackets to zero, and the text after
that closer. -/
def balanced? (opener closer : Char) (depth : Nat) : Text → Option (Text × Text)
  | [] => none
  | c :: rest =>
    let next (depth : Nat) :=
      (balanced? opener closer depth rest).map fun (inner, tail) => (c :: inner, tail)
    if c = opener then next (depth + 1)
    else if c = closer then if depth ≤ 1 then some ([], rest) else next (depth - 1)
    else next depth

/-- A place in a line: the octets before it, and the line from there on. -/
structure Place where
  position : Nat
  rest : Text
  deriving DecidableEq

namespace Place

/-- The place behind a run of blanks. -/
def skipBlanks (s : Place) : Place where
  position := s.position + Text.octets (s.rest.takeWhile isBlank)
  rest := Text.trimStart s.rest

/-- The place behind the first word and the blanks after it. -/
def skipWord (s : Place) : Place :=
  skipBlanks ⟨s.position + Text.octets (word s.rest), s.rest.dropWhile fun c => !isBlank c⟩

/-- The type at a place, if there is one, and the place behind it. -/
def takeType (p : Profile) (s : Place) : Option Text × Place :=
  match p.typeBrackets?, s.rest with
  | _, [] => (none, s)
  | none, t => (some (word t), s.skipWord)
  | some (opener, closer), c :: rest =>
    if c = opener then
      match balanced? opener closer 1 rest with
      | some (type, tail) =>
        let closing := s.position + opener.utf8Size + Text.octets type
        (some type, skipBlanks ⟨closing + closer.utf8Size, tail⟩)
      | none => (none, s)
    else (none, s)

/-- The name at a place, unless a separating dash stands there, and the place behind it. -/
def takeName (s : Place) : Option Text × Place :=
  if s.rest.isEmpty || (Text.after? "- " s.rest).isSome then (none, s)
  else (some (word s.rest), s.skipWord)

/-- The place behind a separating dash, if one stands there. -/
def dropDash (s : Place) : Place :=
  if Text.trimEnd s.rest = ['-'] || (Text.after? "- " s.rest).isSome then
    skipBlanks ⟨s.position + 1, s.rest.drop 1⟩
  else s

end Place

/-- The description that a line holds from a place on. -/
def describeAt (line : TagLine) (content : Text) (s : Place) : TagLine :=
  let description := (Text.trimEnd s.rest).nonempty?
  { line with
    description
    descriptionOffset? := description.map fun _ => s.position
    lead := content.take (content.length - s.rest.length) }

/-- Cuts a line, without its comment marker, into columns; none if it does not start with a tag.
A tag is an introducer with at least one more character. -/
def ofText? (p : Profile) (content : Text) : Option TagLine :=
  let tag := word content
  if !content.head?.any p.isIntroducer || tag.length ≤ 1 then none
  else
    let place := Place.skipWord ⟨0, content⟩
    match p.columns? tag with
    | none => some (describeAt { tag, lead := [], structured := false } content place)
    | some columns =>
      let (type, place) := if columns.type then place.takeType p else (none, place)
      let (name, place) := if columns.name then place.takeName else (none, place)
      some (describeAt { tag, type, name, lead := [], structured := true } content place.dropDash)

end TagLine

end DocComment
