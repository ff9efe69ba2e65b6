import DocComment.Document
import DocComment.Json
import DocComment.KnownTag

/-!
# Reports

The JSON form of documented declarations and of known tags.
-/

namespace DocComment

/-- The form of a segment. -/
def Segment.toJson : Segment → Json
  | text content => .object [("kind", .string "text"), ("text", .string content)]
  | stop index default =>
    .object [("kind", .string "placeholder"), ("index", .number index),
      ("default", .string default)]

/-- The form of the segments of a field. -/
def Field.segmentsJson (f : Field) : Json := .array (f.segments.map Segment.toJson)

/-- The form of a field. -/
def Field.toJson (f : Field) : Json := .object [("segments", f.segmentsJson)]

/-- The form of a row.  A text row carries the segments of its field directly. -/
def Row.toJson : Row → Json
  | text f => .object [("row", .string "text"), ("segments", f.segmentsJson)]
  | blank => .object [("row", .string "blank")]
  | tag t value =>
    .object [("row", .string "tag"), ("tag", .string t), ("value", .ofOption Field.toJson value)]
  | entry t type name description =>
    .object [("row", .string "entry"), ("tag", .string t), ("ty", .ofOption Field.toJson type),
      ("name", .ofOption Field.toJson name),
      ("description", .ofOption Field.toJson description)]

/-- The form of the rows of a block. -/
def Block.rowsJson (b : Block) : Json := .array (b.rows.map Row.toJson)

/-- The form of a block. -/
def Block.toJson (b : Block) : Json := .object [("rows", b.rowsJson)]

/-- The name of a kind of callable. -/
def CallableKind.id : CallableKind → Text
  | plain => "plain"
  | constructor => "constructor"
  | getter => "getter"
  | generator => "generator"
  | member => "member"

/-- The kind with a given name. -/
def CallableKind.ofId? (id : Text) : Option CallableKind :=
  [plain, constructor, getter, generator, member].find? fun k => k.id == id

/-- The form of a declaration. -/
def Declaration.toJson : Declaration → Json
  | classLike name superTypes =>
    .object [("shape", .string "class"), ("name", .string name),
      ("super_types", .strings superTypes)]
  | callable c =>
    .object [("shape", .string "callable"), ("name", .string c.name),
      ("kind", .string c.kind.id), ("raw_args", .ofOption .string c.rawArgs),
      ("return_type", .ofOption .string c.returnType), ("throws", .ofOption .strings c.throws)]
  | binding name declaredType initializer =>
    .object [("shape", .string "variable"), ("name", .string name),
      ("declared_type", .ofOption .string declaredType),
      ("initializer", .ofOption .string initializer)]

/-- The form of a documented declaration. -/
def Documented.toJson (d : Documented) : Json :=
  .object [("language", .string d.language.id), ("declaration", d.declaration.toJson),
    ("block", d.block.toJson)]

/-- The form of a known tag. -/
def KnownTag.toJson (t : KnownTag) : Json :=
  .object [("tag", .string t.name), ("template", .string t.template)]

end DocComment
