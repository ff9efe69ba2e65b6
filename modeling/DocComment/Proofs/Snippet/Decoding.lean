import DocComment.Proofs.Snippet.Reader

/-!
# Snippets determine their fields

Two fields can have the same snippet although their segments differ: literal text may be cut into
segments in many ways, and a segment of empty text leaves no trace.  Nothing else is lost.  The host
reads a snippet back as characters and stops, and putting the characters together again gives the
field with adjacent literal texts merged and empty ones dropped (`decode_snippet`).  So a dollar
sign that one segment leaves alone for the sake of a reserved token never collides with what
another segment escapes.
-/

namespace DocComment

/-- Literal text in front of segments.  It runs into the literal text that they start with, and
empty text leaves no segment. -/
def Segment.prepend (t : Text) (segments : List Segment) : List Segment :=
  match t, segments with
  | [], _ => segments
  | c :: t, .text u :: rest => .text (c :: t ++ u) :: rest
  | c :: t, _ => .text (c :: t) :: segments

/-- The segments with adjacent literal texts merged and empty ones dropped. -/
def Segment.merge : List Segment → List Segment
  | [] => []
  | .text t :: rest => prepend t (merge rest)
  | .stop index default :: rest => .stop index default :: merge rest

namespace Segment

theorem prepend_prepend (s t : Text) (segments : List Segment) :
    prepend s (prepend t segments) = prepend (s ++ t) segments := by
  cases s with
  | nil => rfl
  | cons c s =>
    cases t with
    | nil => rw [List.append_nil]; rfl
    | cons d t =>
      cases segments with
      | nil => rfl
      | cons segment rest => cases segment <;> simp [prepend]

theorem flatMap_plain_prepend (t : Text) (segments : List Segment) :
    (prepend t segments).flatMap plain = t ++ segments.flatMap plain := by
  cases t with
  | nil => rfl
  | cons c t =>
    cases segments with
    | nil => rfl
    | cons segment rest => cases segment <;> simp [prepend, plain]

/-- Merging does not change what a reader sees. -/
theorem flatMap_plain_merge (segments : List Segment) :
    (merge segments).flatMap plain = segments.flatMap plain := by
  induction segments with
  | nil => rfl
  | cons segment rest ih =>
    cases segment with
    | text t => rw [merge, flatMap_plain_prepend, ih]; rfl
    | stop index default => rw [merge, List.flatMap_cons, List.flatMap_cons, ih]

end Segment

namespace Snippet

open Segment

/-- The segments that the pieces of a snippet come from, with each run of characters as one literal
text. -/
def ofPieces : List Piece → List Segment
  | [] => []
  | .char c :: rest => prepend [c] (ofPieces rest)
  | .stop index default :: rest => .stop index default :: ofPieces rest

/-- The segments that a snippet was made of. -/
def decode (t : Text) : List Segment := ofPieces (read t)

theorem ofPieces_chars_append (t : Text) (rest : List Piece) :
    ofPieces (t.map Piece.char ++ rest) = prepend t (ofPieces rest) := by
  induction t with
  | nil => rfl
  | cons c t ih =>
    rw [List.map_cons, List.cons_append, ofPieces, ih, prepend_prepend]
    rfl

theorem ofPieces_flatMap_ofSegment (segments : List Segment) :
    ofPieces (segments.flatMap ofSegment) = merge segments := by
  induction segments with
  | nil => rfl
  | cons segment rest ih =>
    cases segment with
    | text t => rw [List.flatMap_cons, ofSegment, ofPieces_chars_append, ih, merge]
    | stop index default =>
      rw [List.flatMap_cons, ofSegment, List.singleton_append, ofPieces, ih, merge]

/-- **A snippet is decoded into the merged segments of its field.** -/
theorem decode_snippet (f : Field) : decode f.snippet = merge f.segments := by
  have hread := read_snippet_append f []
  rw [List.append_nil, read_nil, List.append_nil] at hread
  rw [decode, hread, ofPieces_flatMap_ofSegment]

/-- **Snippets are uniquely decodable.**  Fields with the same snippet have the same tab stops, with
the same numbers and defaults, and the same literal text between them; in plain they are equal. -/
theorem merge_eq_of_snippet_eq {f g : Field} (h : f.snippet = g.snippet) :
    merge f.segments = merge g.segments ∧ f.plain = g.plain := by
  have hmerge : merge f.segments = merge g.segments := by
    rw [← decode_snippet f, ← decode_snippet g, h]
  refine ⟨hmerge, ?_⟩
  calc f.plain = (merge f.segments).flatMap plain := (flatMap_plain_merge f.segments).symm
    _ = (merge g.segments).flatMap plain := by rw [hmerge]
    _ = g.plain := flatMap_plain_merge g.segments

/-- A token that is reserved only because its segment ends after it, and a default with a brace. -/
def datedField : Field := ⟨[.text "on $DATE", .text "S: ", .stop 2 "a\x7db"]⟩

/-- The same snippet cut elsewhere. -/
def datedPieces : Field := ⟨[.text "on $DATE", .text [], .text "S", .text ": ", .stop 2 "a\x7db"]⟩

theorem merge_eq_of_snippet_eq_datedField :
    datedField ≠ datedPieces ∧ datedField.snippet = datedPieces.snippet ∧
      merge datedField.segments = merge datedPieces.segments ∧
      datedField.plain = datedPieces.plain := by
  have hsnippet : datedField.snippet = datedPieces.snippet := by decide
  exact ⟨by decide, hsnippet, merge_eq_of_snippet_eq hsnippet⟩

end Snippet

end DocComment
