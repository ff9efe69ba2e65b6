import DocComment.Proofs.Reading.Basic
import Mathlib.Data.List.Forall2

/-!
# Reading a comment loses no text

Reading joins lines, cuts them into columns and throws markers away.  Apart from blanks it
neither loses nor invents a character: the contents of the lines and the rows that are read
from them have the same compact form.

The argument follows the reader.  One line added to the logical lines adds exactly its own
characters (`compact_gathered_addLine`), so a whole run adds the characters of all lines, and
each logical line is spelled out by its row (`exists_flattens_rowOf`).
-/

namespace DocComment

/-- The text of a row, its columns one after the other.  A type stands in the form in which the
type column shows it, and a structured row can have one dash before its description. -/
inductive Row.Flattens (p : Profile) : Row → Text → Prop
  | text (field : Field) : Flattens p (.text field) field.plain
  | blank : Flattens p .blank []
  | tag (tag : Text) (value : Option Field) :
      Flattens p (.tag tag value) (tag ++ (value.map Field.plain).getD [])
  | entry (tag : Text) (type name description : Option Field) (dash : Text)
      (hdash : dash = [] ∨ dash = ['-']) :
      Flattens p (.entry tag type name description)
        (tag ++ (type.map fun f => p.formatType f.plain).getD [] ++
          (name.map Field.plain).getD [] ++ dash ++ (description.map Field.plain).getD [])

namespace Reading

open Text

/-- The text of a logical line. -/
def Logical.content : Logical → Text
  | .text content => content
  | .tag content => content
  | .blank => []

/-- The text of logical lines that are held latest first. -/
def gathered (soFar : List Logical) : Text := soFar.reverse.flatMap Logical.content

theorem gathered_cons (line : Logical) (soFar : List Logical) :
    gathered (line :: soFar) = gathered soFar ++ line.content := by
  simp [gathered]

/-- **One line adds its own characters.**  A continuation is set off by a blank only. -/
theorem compact_gathered_addLine (p : Profile) (soFar : List Logical) (content : Text) :
    compact (gathered (addLine p soFar content)) =
      compact (gathered soFar) ++ compact content := by
  have hpush : ∀ line : Logical, line.content = content →
      compact (gathered (line :: soFar)) = compact (gathered soFar) ++ compact content := by
    intro line hline
    rw [gathered_cons, compact_append, hline]
  have hjoin : ∀ previous : Text,
      compact (previous ++ ' ' :: content) = compact previous ++ compact content := by
    intro previous
    rw [compact_append]
    rfl
  unfold addLine
  split
  · next hempty =>
    rw [List.isEmpty_iff.mp hempty]
    split
    · simp [compact]
    · simp [compact]
    · simp [gathered_cons, Logical.content, compact]
  · split
    · exact hpush _ rfl
    · split
      · split
        · exact hpush _ rfl
        · simp only [gathered_cons, compact_append, Logical.content, hjoin, List.append_assoc]
      · simp only [gathered_cons, compact_append, Logical.content, hjoin, List.append_assoc]
      · exact hpush _ rfl

/-- A run over lines adds the characters of all of them. -/
theorem compact_gathered_foldl (p : Profile) (contents : List Text) (soFar : List Logical) :
    compact (gathered (contents.foldl (addLine p) soFar)) =
      compact (gathered soFar) ++ compact contents.flatten := by
  induction contents generalizing soFar with
  | nil => simp [compact]
  | cons content contents ih =>
    rw [List.foldl_cons, ih, compact_gathered_addLine, List.flatten_cons, compact_append,
      List.append_assoc]

/-- The logical lines of a comment hold the characters of its lines. -/
theorem compact_logicalLines (p : Profile) (contents : List Text) :
    compact ((logicalLines p contents).flatMap Logical.content) = compact contents.flatten := by
  have hrun := compact_gathered_foldl p contents []
  rw [show gathered [] = [] from rfl, show compact [] = [] from rfl, List.nil_append] at hrun
  rw [← hrun]
  unfold logicalLines
  split
  · next older heq =>
    rw [heq, gathered_cons, Logical.content, List.append_nil]
    rfl
  · rfl

/-- The text of a tag line in its columns. -/
theorem compact_of_spells {p : Profile} {line : TagLine} {dash content : Text}
    (h : TagLine.Spells p line dash content) :
    compact content = compact (line.tag ++ (line.type.map p.formatType).getD [] ++
      line.name.getD [] ++ dash ++ line.description.getD []) := by
  obtain ⟨s₀, s₁, s₂, s₃, s₄, ⟨h₀, h₁, h₂, h₃, h₄⟩, rfl⟩ := h
  simp only [compact_append, compact_of_blanks h₀, compact_of_blanks h₁, compact_of_blanks h₂,
    compact_of_blanks h₃, compact_of_blanks h₄, List.append_nil]

theorem getD_map_plain_text (t : Option Text) :
    ((t.map Field.text).map Field.plain).getD [] = t.getD [] := by
  cases t <;> simp [plain_text]

theorem getD_map_formatType_text (p : Profile) (t : Option Text) :
    ((t.map Field.text).map fun f => p.formatType f.plain).getD [] =
      (t.map p.formatType).getD [] := by
  cases t <;> simp [plain_text]

/-- **A row spells out its logical line.** -/
theorem exists_flattens_rowOf (p : Profile) (line : Logical) :
    ∃ t, Row.Flattens p (rowOf p line) t ∧ compact t = compact line.content := by
  cases line with
  | blank => exact ⟨[], .blank, rfl⟩
  | text content =>
    exact ⟨(Field.text content).plain, .text _, by rw [plain_text]; rfl⟩
  | tag content =>
    cases hline : TagLine.ofText? p content with
    | none =>
      rw [rowOf_tag_of_none hline]
      exact ⟨(Field.text content).plain, .text _, by rw [plain_text]; rfl⟩
    | some line =>
      obtain ⟨dash, hdash, hspells⟩ := TagLine.exists_of_ofText? hline
      have hcompact := compact_of_spells hspells
      cases hs : line.structured with
      | true =>
        have hdash' : dash = [] ∨ dash = ['-'] := hdash.imp id And.right
        rw [rowOf_tag_of_structured hline hs]
        refine ⟨_, .entry _ _ _ _ dash hdash', ?_⟩
        rw [getD_map_formatType_text, getD_map_plain_text, getD_map_plain_text]
        exact hcompact.symm
      | false =>
        obtain ⟨htype, hname⟩ := TagLine.type_name_of_not_structured hline hs
        have hdash' : dash = [] := hdash.resolve_right fun h => by simp [hs] at h
        rw [rowOf_tag_of_free hline hs]
        refine ⟨_, .tag _ _, ?_⟩
        rw [getD_map_plain_text]
        simpa [htype, hname, hdash', Logical.content] using hcompact.symm

/-- Rows spell out their logical lines one by one. -/
theorem exists_flattens_map_rowOf (p : Profile) (lines : List Logical) :
    ∃ texts, List.Forall₂ (Row.Flattens p) (lines.map (rowOf p)) texts ∧
      compact texts.flatten = compact (lines.flatMap Logical.content) := by
  induction lines with
  | nil => exact ⟨[], .nil, rfl⟩
  | cons line lines ih =>
    obtain ⟨texts, hall, htexts⟩ := ih
    obtain ⟨t, ht, hline⟩ := exists_flattens_rowOf p line
    refine ⟨t :: texts, .cons ht hall, ?_⟩
    rw [List.flatten_cons, List.flatMap_cons, compact_append, compact_append, hline, htexts]

/-- Every content is trimmed. -/
theorem startsTight_of_mem_contents {d : Delimiters} {raw content : Text}
    (h : content ∈ contents d raw) : StartsTight content := by
  have hline : ∀ first line, StartsTight (lineContent d first line) := fun first line =>
    startsTight_trim _
  unfold contents at h
  split at h
  · cases h
  · rcases List.mem_cons.mp h with rfl | h
    · exact hline _ _
    · obtain ⟨line, -, rfl⟩ := List.mem_map.mp h
      exact hline _ _

/-- **Reading neither loses nor invents text.**  Blanks apart, the rows that are read from a
comment spell out the contents of its lines in order; when nothing is read, the contents are
empty. -/
theorem block?_conserves_text {p : Profile} {d : Delimiters} (hd : p.delimiters? = some d)
    (raw : Text) :
    (∀ b, block? p raw = some b →
      ∃ texts, List.Forall₂ (Row.Flattens p) b.rows texts ∧
        compact (contents d raw).flatten = compact texts.flatten) ∧
    (block? p raw = none → ∀ content ∈ contents d raw, content = []) := by
  obtain ⟨texts, hall, htexts⟩ :=
    exists_flattens_map_rowOf p (logicalLines p (contents d raw))
  rw [compact_logicalLines] at htexts
  constructor
  · intro b hb
    simp only [block?, hd, Option.bind_some] at hb
    split at hb
    · cases hb
    · cases hb
      exact ⟨texts, hall, htexts.symm⟩
  · intro hnone content hmem
    simp only [block?, hd, Option.bind_some] at hnone
    split at hnone
    · next hrows =>
      -- No row was read, so no character stands in any line.
      rw [hrows] at hall
      cases hall
      have hsub : (compact content).Sublist (compact (contents d raw).flatten) :=
        (List.sublist_flatten_of_mem hmem).filter _
      rw [← htexts] at hsub
      have hempty : compact content = [] := List.sublist_nil.mp hsub
      exact eq_nil_of_compact_eq_nil (startsTight_of_mem_contents hmem) hempty
    · cases hnone

/-- A parameter whose type holds a blank and whose description goes on in a second line: the
dash is dropped, and nothing else. -/
theorem block?_conserves_text_of_param :
    (Profile.of .javascript {}).delimiters? = some .javadoc ∧
      ∃ b texts, block? (Profile.of .javascript {})
          "/**\n * @param {a b} m - per\n *   key\n */" = some b ∧
        List.Forall₂ (Row.Flattens (Profile.of .javascript {})) b.rows texts ∧
        compact texts.flatten = "@param{ab}m-perkey".toList := by
  refine ⟨rfl, ?_⟩
  obtain ⟨b, hb⟩ := Option.isSome_iff_exists.mp (by decide +kernel :
    (block? (Profile.of .javascript {})
      "/**\n * @param {a b} m - per\n *   key\n */").isSome = true)
  obtain ⟨texts, hall, htexts⟩ := (block?_conserves_text rfl _).1 b hb
  exact ⟨b, texts, hb, hall, htexts.symm.trans (by decide +kernel)⟩

end Reading

end DocComment
