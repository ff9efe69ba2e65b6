import DocComment.Proofs.Reading.Settled

/-!
# The normal form of a comment

A block that was read holds no trace of how its comment was broken into lines.  Empty lines stand
one at a time and only between other rows, free text stands apart from what comes before it, and
every column is one piece of text without blanks at its ends (`Block.NormalForm`).

Two facts about reading meet here.  The logical lines are orderly after every line of the comment
(`normal_of_block?`), which settles how the rows follow one another; and a tag line is cut at the
blanks between its columns, which settles what stands in a row (`normalForm_rowOf`).
-/

namespace DocComment

open Text TagLine Reading

/-! ## The form -/

/-- A field of one piece of literal text that fills a line from end to end. -/
def Field.FillsLine (f : Field) : Prop := ∃ t, f = .text t ∧ IsLine t

/-- A row in normal form.  A tag has columns exactly if the profile knows it as a structured one, and
then no others than the profile gives it; a type fills a line together with its brackets. -/
def Row.NormalForm (p : Profile) : Row → Prop
  | .text f => f.FillsLine
  | .blank => True
  | .tag t value => p.columns? t = none ∧ ∀ f ∈ value, f.FillsLine
  | .entry t type name description =>
    ∃ columns, p.columns? t = some columns ∧
      (type.isSome = true → columns.type = true) ∧ (name.isSome = true → columns.name = true) ∧
      (∀ f ∈ type, ∃ u, f = .text u ∧ IsLine (p.formatType u)) ∧
      (∀ f ∈ name, f.FillsLine) ∧ ∀ f ∈ description, f.FillsLine

/-- A block in normal form. -/
structure Block.NormalForm (p : Profile) (b : Block) : Prop where
  ne_nil : b.rows ≠ []
  head : b.rows.head? ≠ some .blank
  last : b.rows.getLast? ≠ some .blank
  /-- No two empty lines follow one another. -/
  single_blanks : ∀ i, b.rows[i]? = some .blank → b.rows[i + 1]? ≠ some .blank
  /-- Free text directly after a row that is not empty is the second row, and the first one is a
  sentence. -/
  set_off : ∀ i row f, b.rows[i]? = some row → row ≠ .blank → b.rows[i + 1]? = some (.text f) →
    i = 0 ∧ ∃ g, row = .text g ∧ g.plain.getLast? = some '.'
  rows : ∀ row ∈ b.rows, row.NormalForm p

/-! ## One row -/

section Row

variable {p : Profile} {d : Delimiters}

theorem fillsLine_of_mem_map {o : Option Text} (h : ∀ t ∈ o, IsLine t) :
    ∀ f ∈ o.map Field.text, f.FillsLine := by
  intro f hf
  obtain ⟨t, ht, rfl⟩ := Option.map_eq_some_iff.mp hf
  exact ⟨t, rfl, h t ht⟩

/-- The columns that a line was cut into are in normal form. -/
theorem TagLine.CutInto.normalForm (hp : p.Framed d) {tag rest description : Text}
    {columns : Columns} {type name : Option Text} (hcolumns : p.columns? tag = some columns)
    (h : CutInto p columns rest type name description) (hone : OneLine rest) :
    (Row.entry tag (type.map Field.text) (name.map Field.text)
      (description.nonempty?.map Field.text)).NormalForm p := by
  refine ⟨columns, hcolumns, ?_, ?_, ?_, fillsLine_of_mem_map ?_,
    fillsLine_of_mem_map (h.isLine_description hone)⟩
  · intro hsome
    cases type with
    | none => cases hsome
    | some t => exact h.takeType_again.1
  · intro hsome
    cases name with
    | none => cases hsome
    | some n => exact (h.isWord_name n rfl).2
  · intro f hf
    obtain ⟨t, ht, rfl⟩ := Option.map_eq_some_iff.mp hf
    exact ⟨t, rfl, h.isLine_formatType hp hone t ht⟩
  · intro n hn
    have hword := (h.isWord_name n hn).1
    exact ⟨hword.1, hword.startsTight, hword.endsTight, oneLine_of_forall_not_blank hword.2⟩

/-- **A logical line becomes a row in normal form.** -/
theorem normalForm_rowOf (hp : p.Framed d) {l : Logical} (h : l.Normal p) :
    (rowOf p l).NormalForm p := by
  cases l with
  | blank => trivial
  | text t => exact ⟨t, rfl, h.1⟩
  | tag t =>
    obtain ⟨hline, hsome⟩ := h
    obtain ⟨line, hcut⟩ := Option.isSome_iff_exists.mp hsome
    cases hs : line.structured with
    | false =>
      obtain ⟨-, hcolumns, hvalue⟩ := legible_of_free hline hcut hs
      rw [rowOf_tag_of_free hcut hs]
      refine ⟨hcolumns, fillsLine_of_mem_map fun u hu => ?_⟩
      have hu' := hvalue (.text u) (Option.mem_map_of_mem Field.text hu)
      rwa [plain_text] at hu'
    | true =>
      obtain ⟨columns, rest, description, hcolumns, rfl, hdescription, hinto⟩ :=
        cutInto_of_ofText? hcut hs
      rw [rowOf_tag_of_structured hcut hs, hdescription]
      exact hinto.normalForm hp hcolumns (oneLine_afterWord hline.oneLine)

end Row

/-! ## One row after the other -/

section Rows

variable {rows : List Row} {row : Row} {f : Field} {i : Nat}

/-- Free text that is set off may stand after all the rows before it. -/
theorem SetOff.opens_take (h : SetOff [] rows) (hi : rows[i]? = some (.text f)) :
    Row.Opens (rows.take i) := by
  obtain ⟨hlt, hrow⟩ := List.getElem?_eq_some_iff.mp hi
  rw [← List.take_append_drop i rows, List.drop_eq_getElem_cons hlt, setOff_append] at h
  exact h.2.1 f hrow

/-- Text may directly follow a row that is not empty only if that row is all there is and ends in a
period. -/
theorem Row.Opens.first_sentence (h : Row.Opens (rows.take (i + 1)))
    (hhead : rows.head? ≠ some .blank) (hi : rows[i]? = some row) (hrow : row ≠ .blank) :
    i = 0 ∧ ∃ g, row = .text g ∧ g.plain.getLast? = some '.' := by
  obtain ⟨first, rest, rfl⟩ : ∃ first rest, rows = first :: rest := by
    cases rows with
    | nil => cases hi
    | cons first rest => exact ⟨first, rest, rfl⟩
  have hlast : ((first :: rest).take (i + 1)).getLast? = some row := by
    obtain ⟨hlt, -⟩ := List.getElem?_eq_some_iff.mp hi
    have hlength : ((first :: rest).take (i + 1)).length = i + 1 :=
      List.length_take_of_le (by omega)
    rw [List.getLast?_eq_getElem?, hlength, Nat.add_sub_cancel,
      List.getElem?_take_of_lt (Nat.lt_succ_self i), hi]
  rcases h with hnil | hblank | ⟨g, hfilter, hperiod⟩
  · cases hnil
  · rw [hlast] at hblank
    exact absurd (Option.some.inj hblank) hrow
  · have hfirst : first.isBlank = false := by
      rw [← Bool.not_eq_true, isBlank_eq_true_iff]
      rintro rfl
      exact hhead rfl
    rw [List.take_succ_cons, List.filter_cons_of_pos (by simp [hfirst])] at hfilter
    obtain ⟨rfl, hrest⟩ := List.cons.inj hfilter
    cases i with
    | zero => exact ⟨rfl, g, (Option.some.inj hi).symm, hperiod⟩
    | succ i =>
      -- The row before the text would be a second one that is not empty.
      rw [List.filter_eq_nil_iff] at hrest
      have hmem : row ∈ rest.take (i + 1) := by
        rw [List.getElem?_cons_succ] at hi
        rw [← List.getElem?_take_of_lt (Nat.lt_succ_self i)] at hi
        exact List.mem_of_getElem? hi
      have hnot := hrest row hmem
      simp only [Bool.not_eq_true', Bool.not_eq_false] at hnot
      exact absurd (isBlank_eq_true_iff.mp hnot) hrow

end Rows

/-! ## The block -/

/-- **What is read is in normal form**, whatever stands in the comment. -/
theorem normalForm_of_block? {language : Language} {config : Config} {raw : Text} {b : Block}
    (h : block? (Profile.of language config) raw = some b) :
    b.NormalForm (Profile.of language config) := by
  obtain ⟨d, hd, -⟩ := Option.bind_eq_some_iff.mp h
  have hp := Profile.framed_of hd
  have hnormal := normal_of_block? hd h
  refine ⟨hnormal.ne_nil, hnormal.spaced.head, hnormal.last, ?_, ?_, ?_⟩
  · intro i hi hnext
    obtain ⟨hlt, hrow⟩ := List.getElem?_eq_some_iff.mp hi
    obtain ⟨hlt', hrow'⟩ := List.getElem?_eq_some_iff.mp hnext
    exact List.isChain_iff_getElem.mp hnormal.spaced.chain i hlt' ⟨hrow, hrow'⟩
  · intro i row f hi hrow hnext
    exact (hnormal.set_off.opens_take hnext).first_sentence hnormal.spaced.head hi hrow
  · intro row hrow
    obtain ⟨l, hl, rfl⟩ := hnormal.row row hrow
    exact normalForm_rowOf hp hl

/-- A comment with a first sentence, empty lines in a row and at both ends, a description that goes on
in a second line, and a structured tag without columns. -/
def unevenComment : Text :=
  unlines ["/**", " *", " * Sums up.", " * Both of them", " *", " *  ", " * @param {a b} m - per",
    " *   key", " * @see   the sum", " * @returns", " *", " */"]

/-- The block that is read from it. -/
def unevenBlock : Block :=
  ⟨[.text (.text "Sums up."), .text (.text "Both of them"), .blank,
    .entry "@param" (some (.text "a b")) (some (.text "m")) (some (.text "per key")),
    .tag "@see" (some (.text "the sum")), .entry "@returns" none none none]⟩

theorem normalForm_unevenBlock :
    block? (Profile.of .javascript {}) unevenComment = some unevenBlock ∧
      unevenBlock.NormalForm (Profile.of .javascript {}) := by
  have hblock : block? (Profile.of .javascript {}) unevenComment = some unevenBlock := by
    decide +kernel
  exact ⟨hblock, normalForm_of_block? hblock⟩

end DocComment
