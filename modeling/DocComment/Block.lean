import DocComment.Field

/-!
# Documentation blocks

A block is a list of rows, the summary first.  A structured row has the columns tag, type, name and
description in this order; whether a tag has a type and a name column is for the profile of the
language to say.
-/

namespace DocComment

/-- One row of a documentation block. -/
inductive Row where
  /-- Free text. -/
  | text (field : Field)
  /-- An empty line. -/
  | blank
  /-- A tag with a free value. -/
  | tag (tag : Text) (value : Option Field)
  /-- A structured tag. -/
  | entry (tag : Text) (type name description : Option Field)
  deriving DecidableEq

namespace Row

/-- The leading tag, if the row has one. -/
def tag? : Row → Option Text
  | tag t _ => some t
  | entry t _ _ _ => some t
  | _ => none

/-- Whether the row is an empty line. -/
def isBlank : Row → Bool
  | blank => true
  | _ => false

/-- Whether the row is structured. -/
def isEntry : Row → Bool
  | entry .. => true
  | _ => false

/-- The row with every tab stop turned into literal text. -/
def toPlain : Row → Row
  | text f => text f.toPlain
  | blank => blank
  | tag t value => tag t (value.map Field.toPlain)
  | entry t type name description =>
    entry t (type.map Field.toPlain) (name.map Field.toPlain) (description.map Field.toPlain)

end Row

/-- A documentation block. -/
structure Block where
  rows : List Row := []
  deriving DecidableEq

namespace Block

/-- The rows that are not empty lines. -/
def content (b : Block) : List Row := b.rows.filter fun r => !r.isBlank

/-- The block with every tab stop turned into literal text. -/
def toPlain (b : Block) : Block := ⟨b.rows.map Row.toPlain⟩

end Block

end DocComment
