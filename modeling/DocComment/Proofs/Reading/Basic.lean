import DocComment.Proofs.TagLine.Split
import DocComment.Reading

/-!
# The rows of logical lines
-/

namespace DocComment.Reading

open Text

@[simp] theorem plain_text (t : Text) : (Field.text t).plain = t := by
  simp [Field.text, Field.plain, Segment.plain]

section RowOf

variable {p : Profile} {content : Text} {line : TagLine}

/-- A logical line that does not start with a tag is free text. -/
theorem rowOf_tag_of_none (h : TagLine.ofText? p content = none) :
    rowOf p (.tag content) = .text (.text content) := by
  simp [rowOf, h]

/-- A structured tag line is the row of its columns. -/
theorem rowOf_tag_of_structured (h : TagLine.ofText? p content = some line)
    (hs : line.structured = true) :
    rowOf p (.tag content) =
      .entry line.tag (line.type.map Field.text) (line.name.map Field.text)
        (line.description.map Field.text) := by
  simp [rowOf, h, hs]

/-- A tag line without a known layout is the row of its tag and its value. -/
theorem rowOf_tag_of_free (h : TagLine.ofText? p content = some line)
    (hs : line.structured = false) :
    rowOf p (.tag content) = .tag line.tag (line.description.map Field.text) := by
  simp [rowOf, h, hs]

end RowOf

end DocComment.Reading
