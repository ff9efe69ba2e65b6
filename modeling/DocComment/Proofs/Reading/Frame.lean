import DocComment.Proofs.Layout.Table
import DocComment.Proofs.Reading.Lines

/-!
# Framed comments

What a tag-table profile promises about its delimiters, its separator and its brackets, collected in
`Profile.Framed`.  Nothing else about the single languages is used when a comment is read back.
-/

namespace DocComment

open Text TagLine

/-- A profile whose comments stand between delimiters. -/
structure Profile.Framed (p : Profile) (d : Delimiters) : Prop where
  delimiters : p.delimiters? = some d
  /-- The marker is a character that is not blank after spaces. -/
  marker : ∃ s m, d.marker = s ++ [m] ∧ Table.Spaces s ∧ isBlank m = false
  marker_open : ∀ closer ∈ d.closer, ¬ trim closer <:+ d.marker
  not_delimiter : ∀ t, Reflow.isDelimiter p (d.marker ++ ' ' :: t) = false
  marker_not_delimiter : Reflow.isDelimiter p d.marker = false
  /-- Where a closer ends a comment, no line within it opens another one. -/
  marker_not_opener : ∀ closer ∈ d.closer, (∀ t, ¬ d.opener <+: trim (d.marker ++ t)) ∧
    ¬ d.opener <+: trim closer
  opener_delimiter : Reflow.isDelimiter p d.opener = true
  closer_delimiter : ∀ closer ∈ d.closer, Reflow.isDelimiter p closer = true
  opener_line : IsLine d.opener
  closer_line : ∀ closer ∈ d.closer, closer ≠ [] ∧ EndsTight closer ∧ OneLine closer
  opener_content : Reading.lineContent d true d.opener = []
  closer_content : ∀ closer ∈ d.closer, Reading.lineContent d false closer = []
  separator : p.separator = [' '] ∨ p.separator = [' ', '-', ' ']
  brackets : ∀ o c, p.typeBrackets? = some (o, c) →
    isBlank o = false ∧ isBlank c = false ∧ o ≠ c ∧ o ≠ '-' ∧ c ≠ '-' ∧ o ≠ '\n' ∧ c ≠ '\n'
  binding_long : ∀ tag ∈ p.tags.binding, 1 < tag.length

theorem Profile.Framed.endsTight_marker {p : Profile} {d : Delimiters} (hp : p.Framed d) :
    EndsTight d.marker := by
  obtain ⟨s, m, hmarker, -, hm⟩ := hp.marker
  rw [hmarker]
  exact endsTight_concat.mpr hm

theorem trimEnd_space_cons (t : Text) :
    trimEnd (' ' :: t) = [] ∨ ∃ u, trimEnd (' ' :: t) = ' ' :: u := by
  by_cases h : trimEnd t = []
  · have hspace : Blanks [' '] := blanks_replicate 1
    have hall : Blanks ([' '] ++ t) := blanks_append.mpr ⟨hspace, trimEnd_eq_nil_iff.mp h⟩
    exact Or.inl (trimEnd_of_blanks hall)
  · exact Or.inr ⟨trimEnd t, trimEnd_append h [' ']⟩

/-- The marker alone, or the marker and a space before the rest of the line. -/
def MarkedLine (d : Delimiters) (line : Text) : Prop :=
  line = d.marker ∨ ∃ t, line = d.marker ++ ' ' :: t

theorem markedLine_trimEnd {p : Profile} {d : Delimiters} (hp : p.Framed d) (t : Text) :
    MarkedLine d (trimEnd (d.marker ++ ' ' :: t)) := by
  rcases trimEnd_space_cons t with hnil | ⟨u, hu⟩
  · rw [trimEnd_append_of_blanks (trimEnd_eq_nil_iff.mp hnil),
      trimEnd_of_endsTight hp.endsTight_marker]
    exact Or.inl rfl
  · rw [trimEnd_append (by rw [hu]; exact List.cons_ne_nil _ _), hu]
    exact Or.inr ⟨u, rfl⟩

theorem trim_star_append (t : Text) : trim (" *".toList ++ t) = '*' :: trimEnd t := by
  have hspace : Blanks [' '] := blanks_replicate 1
  exact Reading.trim_marker_append (by decide) hspace t

theorem trim_sign_append (t : Text) : trim ("#".toList ++ t) = '#' :: trimEnd t :=
  Reading.trim_marker_append (by decide) blanks_nil t

/-- A marker line is no delimiter: after its marker comes a blank or nothing. -/
theorem Profile.isDelimiter_marker_append {p : Profile} {d : Delimiters}
    (h : p.delimiters? = some d) (hd : d = .javadoc ∨ d = .qt ∨ d = .yard) (t : Text) :
    Reflow.isDelimiter p (d.marker ++ ' ' :: t) = false := by
  rcases hd with rfl | rfl | rfl
  · have hline : trim (Delimiters.javadoc.marker ++ ' ' :: t) = '*' :: trimEnd (' ' :: t) :=
      trim_star_append _
    simp only [Reflow.isDelimiter, h, hline]
    rcases trimEnd_space_cons t with hu | ⟨u, hu⟩ <;> rw [hu] <;> rfl
  · have hline : trim (Delimiters.qt.marker ++ ' ' :: t) = '*' :: trimEnd (' ' :: t) :=
      trim_star_append _
    simp only [Reflow.isDelimiter, h, hline]
    rcases trimEnd_space_cons t with hu | ⟨u, hu⟩ <;> rw [hu] <;> rfl
  · have hline : trim (Delimiters.yard.marker ++ ' ' :: t) = '#' :: trimEnd (' ' :: t) :=
      trim_sign_append _
    simp only [Reflow.isDelimiter, h, hline]
    rcases trimEnd_space_cons t with hu | ⟨u, hu⟩ <;> rw [hu] <;> rfl

/-- A line behind its marker does not start like a comment, nor does a closer. -/
theorem not_opener_isPrefix {d : Delimiters} (hd : d = .javadoc ∨ d = .qt ∨ d = .yard) :
    ∀ closer ∈ d.closer, (∀ t, ¬ d.opener <+: trim (d.marker ++ t)) ∧
      ¬ d.opener <+: trim closer := by
  rintro closer hcloser
  rcases hd with rfl | rfl | rfl
  · obtain rfl : " */".toList = closer := Option.some.inj hcloser
    refine ⟨fun t hopener => ?_, by decide⟩
    rw [show Delimiters.javadoc.marker = " *".toList from rfl, trim_star_append] at hopener
    exact absurd (List.cons_prefix_cons.mp hopener).1 (by decide)
  · obtain rfl : " */".toList = closer := Option.some.inj hcloser
    refine ⟨fun t hopener => ?_, by decide⟩
    rw [show Delimiters.qt.marker = " *".toList from rfl, trim_star_append] at hopener
    exact absurd (List.cons_prefix_cons.mp hopener).1 (by decide)
  · cases hcloser

/-- **Every tag-table profile is framed.** -/
theorem Profile.framed_of {language : Language} {config : Config} {d : Delimiters}
    (h : (of language config).delimiters? = some d) : (of language config).Framed d := by
  have hd := delimiters_of h
  have hopener : Reflow.isDelimiter (of language config) d.opener = true := by
    rcases hd with rfl | rfl | rfl <;> simp only [Reflow.isDelimiter, h] <;> decide
  have hcloser : ∀ closer ∈ d.closer, Reflow.isDelimiter (of language config) closer = true := by
    rcases hd with rfl | rfl | rfl <;> simp only [Reflow.isDelimiter, h] <;> decide
  have hbrackets : ∀ o c, (of language config).typeBrackets? = some (o, c) →
      isBlank o = false ∧ isBlank c = false ∧ o ≠ c ∧ o ≠ '-' ∧ c ≠ '-' ∧ o ≠ '\n' ∧
        c ≠ '\n' := by
    intro o c hb
    unfold typeBrackets? at hb
    rcases typeColumn_of language config with ht | ht | ht | ht <;> rw [ht] at hb <;> cases hb <;>
      decide
  have hbinding : ∀ tag ∈ (of language config).tags.binding, 1 < tag.length := by
    rcases binding_of language config with hb | hb | hb <;> rw [hb] <;> decide
  have hmarkerDelimiter : Reflow.isDelimiter (of language config) d.marker = false := by
    rcases hd with rfl | rfl | rfl <;> simp only [Reflow.isDelimiter, h] <;> decide
  refine
    { delimiters := h
      marker := ?_
      marker_open := ?_
      not_delimiter := isDelimiter_marker_append h hd
      marker_not_delimiter := hmarkerDelimiter
      marker_not_opener := not_opener_isPrefix hd
      opener_delimiter := hopener
      closer_delimiter := hcloser
      opener_line := ?_
      closer_line := ?_
      opener_content := ?_
      closer_content := ?_
      separator := separator_of language config
      brackets := hbrackets
      binding_long := hbinding }
  · rcases hd with rfl | rfl | rfl
    · exact ⟨[' '], '*', rfl, Table.spaces_replicate 1, by decide⟩
    · exact ⟨[' '], '*', rfl, Table.spaces_replicate 1, by decide⟩
    · exact ⟨[], '#', rfl, Table.spaces_nil, by decide⟩
  all_goals rcases hd with rfl | rfl | rfl <;> decide

end DocComment
