import DocComment.Block
import DocComment.Layout.Options
import DocComment.Proofs.Snippet.Reader
import DocComment.Proofs.Text.Lines

/-!
# The tab stops that a text carries

A layout glues fields together with markers, padding and separators and trims the end of each
line.  `Carries t ns` says that the host reads exactly the stops `ns` in `t`, whatever follows
it and whether or not its end is trimmed.  The predicate is closed under everything a layout
does: concatenation, trimming and joining lines.
-/

namespace DocComment

/-- The number of a segment that is a tab stop. -/
def Segment.index? : Segment → Option Nat
  | text _ => none
  | stop index _ => some index

/-- The numbers of the tab stops of a field, from left to right. -/
def Field.indices (f : Field) : List Nat := f.segments.filterMap Segment.index?

/-- The numbers of the tab stops of an optional field. -/
def indicesOf (field : Option Field) : List Nat := (field.map Field.indices).getD []

/-- The numbers of the tab stops of a row, from left to right. -/
def Row.indices : Row → List Nat
  | text field => field.indices
  | blank => []
  | tag _ value => indicesOf value
  | entry _ type name description => indicesOf type ++ indicesOf name ++ indicesOf description

/-- The numbers of the tab stops of a block, row by row. -/
def Block.indices (b : Block) : List Nat := b.rows.flatMap Row.indices

namespace Snippet

open Text

/-- A text in which no character has a meaning to the host. -/
def Harmless (t : Text) : Prop := ∀ c ∈ t, c ≠ '\\' ∧ c ≠ '$'

instance (t : Text) : Decidable (Harmless t) :=
  List.decidableBAll _ t

/-- The host reads the stops `ns` in the text, trimmed or not, whatever follows. -/
structure Carries (t : Text) (ns : List Nat) : Prop where
  full : ∀ rest, indices (t ++ rest) = ns ++ indices rest
  trimmed : ∀ rest, indices (trimEnd t ++ rest) = ns ++ indices rest

theorem indices_nil : indices [] = [] := by
  rw [indices, read_nil]
  rfl

/-- Harmless text shows no stop. -/
theorem indices_harmless_append {t : Text} (ht : Harmless t) (rest : Text) :
    indices (t ++ rest) = indices rest := by
  induction t with
  | nil => rfl
  | cons c t ih =>
    obtain ⟨hslash, hdollar⟩ := ht c List.mem_cons_self
    have hrest := ih fun d hd => ht d (List.mem_cons_of_mem _ hd)
    rw [List.cons_append, indices, read_literal hslash hdollar, List.filterMap_cons]
    exact hrest

/-- A text that carries some stops has these and no others. -/
theorem Carries.indices_eq {t : Text} {ns : List Nat} (h : Carries t ns) : indices t = ns := by
  have := h.full []
  rwa [List.append_nil, indices_nil, List.append_nil] at this

theorem carries_nil : Carries [] [] := ⟨fun _ => rfl, fun _ => rfl⟩

/-- An empty text carries nothing else. -/
theorem Carries.eq_nil {ns : List Nat} (h : Carries [] ns) : ns = [] := by
  rw [← h.indices_eq, indices_nil]

/-- Harmless text carries no stops. -/
theorem carries_of_harmless {t : Text} (ht : Harmless t) : Carries t [] := by
  refine ⟨indices_harmless_append ht, indices_harmless_append ?_⟩
  obtain ⟨s, -, hs⟩ := exists_trimEnd_append_blanks t
  intro c hc
  exact ht c (by rw [hs]; exact List.mem_append_left _ hc)

/-- Blanks are harmless. -/
theorem harmless_of_blanks {t : Text} (ht : Blanks t) : Harmless t := by
  intro c hc
  have hb := ht c hc
  constructor <;> rintro rfl <;> revert hb <;> decide

/-- What two texts carry, they carry together. -/
theorem Carries.append {s t : Text} {ms ns : List Nat} (hs : Carries s ms) (ht : Carries t ns) :
    Carries (s ++ t) (ms ++ ns) := by
  constructor
  · intro rest
    rw [List.append_assoc, hs.full, ht.full, List.append_assoc]
  · intro rest
    by_cases hne : trimEnd t = []
    · -- Only blanks follow the first text, so its own end is trimmed.
      have hblank : Blanks t := trimEnd_eq_nil_iff.mp hne
      have hnone : ns = [] := by
        have h := ht.trimmed []
        rw [hne, List.nil_append, indices_nil, List.append_nil] at h
        exact h.symm
      rw [trimEnd_append_of_blanks hblank, hs.trimmed, hnone, List.append_nil]
    · rw [trimEnd_append hne, List.append_assoc, hs.full, ht.trimmed, List.append_assoc]

/-- Trimming takes no stops away. -/
theorem Carries.trimEnd {t : Text} {ns : List Nat} (h : Carries t ns) :
    Carries (Text.trimEnd t) ns := by
  refine ⟨h.trimmed, ?_⟩
  rw [trimEnd_of_endsTight (endsTight_trimEnd t)]
  exact h.trimmed

/-- Harmless glue in front of a text. -/
theorem Carries.after {s t : Text} {ns : List Nat} (h : Carries t ns) (hs : Harmless s) :
    Carries (s ++ t) ns :=
  (carries_of_harmless hs).append h

/-- Harmless glue behind a text. -/
theorem Carries.before {s t : Text} {ns : List Nat} (h : Carries t ns) (hs : Harmless s) :
    Carries (t ++ s) ns := by
  have := h.append (carries_of_harmless hs)
  rwa [List.append_nil] at this

/-! ## Fields -/

/-- Escaped text carries no stops. -/
theorem carries_escape (t : Text) : Carries (escape t) [] := by
  have hnone : ∀ u rest, indices (escape u ++ rest) = [] ++ indices rest := by
    intro u rest
    have hchars : (u.map Piece.char).filterMap Piece.index? = [] := by
      simp [List.filterMap_eq_nil_iff, Piece.index?]
    rw [indices, read_escape_append, List.filterMap_append, hchars]
    rfl
  exact ⟨hnone t, fun rest => by rw [trimEnd_escape]; exact hnone _ rest⟩

/-- A segment carries its own stop, if it has one. -/
theorem carries_segment (s : Segment) : Carries s.snippet s.index?.toList := by
  cases s with
  | text content => exact carries_escape content
  | stop index default =>
    have hread : ∀ rest, indices (Segment.snippet (.stop index default) ++ rest) =
        [index] ++ indices rest := by
      intro rest
      rw [indices, read_segment_append]
      rfl
    have htight : EndsTight (Segment.snippet (.stop index default)) := by
      rw [Segment.snippet, endsTight_concat]
      decide
    exact ⟨hread, by rw [trimEnd_of_endsTight htight]; exact hread⟩

/-- **A field carries its tab stops.** -/
theorem carries_snippet (f : Field) : Carries f.snippet f.indices := by
  obtain ⟨segments⟩ := f
  induction segments with
  | nil => exact carries_nil
  | cons s segments ih =>
    have hindices : Field.indices ⟨s :: segments⟩ =
        s.index?.toList ++ Field.indices ⟨segments⟩ := by
      unfold Field.indices
      cases h : s.index? <;> simp [h]
    rw [hindices]
    exact (carries_segment s).append ih

/-- A cell carries the stops of its field. -/
theorem carries_cell (field : Option Field) : Carries (cell field true) (indicesOf field) := by
  cases field with
  | none => exact carries_nil
  | some f => exact carries_snippet f

/-! ## Lines -/

/-- The stops that lines carry one after the other. -/
inductive LinesCarry : List Text → List Nat → Prop
  | nil : LinesCarry [] []
  | cons {line : Text} {lines : List Text} {ms ns : List Nat} (head : Carries line ms)
      (tail : LinesCarry lines ns) : LinesCarry (line :: lines) (ms ++ ns)

theorem LinesCarry.singleton {line : Text} {ns : List Nat} (h : Carries line ns) :
    LinesCarry [line] ns := by
  have := LinesCarry.cons h .nil
  rwa [List.append_nil] at this

/-- Lines one after the other carry their stops one after the other. -/
theorem LinesCarry.append {ks ls : List Text} {ms ns : List Nat} (hk : LinesCarry ks ms)
    (hl : LinesCarry ls ns) : LinesCarry (ks ++ ls) (ms ++ ns) := by
  induction hk with
  | nil => exact hl
  | cons head _ ih =>
    rw [List.append_assoc]
    exact .cons head ih

/-- Lines made one by one carry what each of them carries. -/
theorem linesCarry_map {α : Type} {xs : List α} {f : α → Text} {g : α → List Nat}
    (h : ∀ x ∈ xs, Carries (f x) (g x)) : LinesCarry (xs.map f) (xs.flatMap g) := by
  induction xs with
  | nil => exact .nil
  | cons x xs ih =>
    rw [List.map_cons, List.flatMap_cons]
    exact .cons (h x List.mem_cons_self) (ih fun y hy => h y (List.mem_cons_of_mem _ hy))

/-- Harmless lines carry no stops. -/
theorem linesCarry_of_harmless {lines : List Text} (h : ∀ line ∈ lines, Harmless line) :
    LinesCarry lines [] := by
  have := linesCarry_map (f := id) (g := fun _ => []) fun line hline =>
    carries_of_harmless (h line hline)
  rwa [List.map_id, List.flatMap_eq_nil_iff.mpr fun _ _ => rfl] at this

/-- **The stops of a text are those of its lines.** -/
theorem LinesCarry.indices_unlines {lines : List Text} {ns : List Nat}
    (h : LinesCarry lines ns) : indices (unlines lines) = ns := by
  induction h with
  | nil => exact indices_nil
  | @cons line lines ms ns head tail ih =>
    by_cases hne : lines = []
    · subst hne
      cases tail
      rw [unlines_singleton, head.indices_eq, List.append_nil]
    · have hfeed : Harmless ['\n'] := by decide
      rw [unlines_cons hne, head.full, ← List.singleton_append, indices_harmless_append hfeed, ih]

end Snippet

end DocComment
