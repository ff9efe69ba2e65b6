import DocComment.Proofs.Reading.Settled

/-!
# A second layout

A block that was read, laid out and read again has the rows that the first layout showed, with its
separators (`block?_format_of_settled`).  Separating them once more adds nothing, and their lines
are the same, so the second layout is the first.
-/

namespace DocComment

open Text TagLine Reading Table

/-! ## Separators -/

section Separate

variable {policy : EmptyLines}

/-- Next to a blank row no other is put in. -/
theorem separates_eq_false_of_blank (policy : EmptyLines) (i : Nat) (row : Row) :
    separates policy i .blank row = false ∧ separates policy i row .blank = false := by
  simp [separates, Row.isBlank]

/-- The position of a row counts only if it is the second. -/
theorem separates_congr (policy : EmptyLines) {i j : Nat} (h : i = 1 ↔ j = 1)
    (previous row : Row) :
    separates policy i previous row = separates policy j previous row := by
  have hbeq : (i == 1) = (j == 1) := by
    rw [Bool.eq_iff_iff, beq_iff_eq, beq_iff_eq]
    exact h
  simp only [separates, hbeq]

/-- Where separators stand already, none is added. -/
theorem separateFrom_separateFrom {i j : Nat} (hi : 1 ≤ i) (hj : 1 ≤ j) (h : i = 1 ↔ j = 1)
    (previous : Row) (rows : List Row) :
    separateFrom policy i previous (separateFrom policy j previous rows) =
      separateFrom policy j previous rows := by
  induction rows generalizing i j previous with
  | nil => rfl
  | cons row rows ih =>
    by_cases hsep : separates policy j previous row = true
    · have hrest := ih (i := i + 1 + 1) (j := j + 1) (by omega) (by omega)
        (by constructor <;> intro <;> omega) row
      obtain ⟨-, hblank⟩ := separates_eq_false_of_blank policy i previous
      obtain ⟨hrow, -⟩ := separates_eq_false_of_blank policy (i + 1) row
      simp only [separateFrom, hsep, if_true, List.cons_append, List.nil_append, hblank, hrow,
        Bool.false_eq_true, if_false, hrest]
    · have hrest := ih (i := i + 1) (j := j + 1) (by omega) (by omega)
        (by constructor <;> intro <;> omega) row
      rw [Bool.not_eq_true] at hsep
      have hsame := (separates_congr policy h previous row).trans hsep
      simp only [separateFrom, hsep, hsame, Bool.false_eq_true, if_false, List.cons_append,
        List.nil_append, hrest]

/-- Groups that are separated are not separated again. -/
theorem separate_separate (policy : EmptyLines) (rows : List Row) :
    separate policy (separate policy rows) = separate policy rows := by
  cases rows with
  | nil => rfl
  | cons row rows =>
    simp only [separate]
    rw [separateFrom_separateFrom (Nat.le_refl 1) (Nat.le_refl 1) Iff.rfl]

/-- Separators depend on the tags of the rows and on which of them are empty. -/
theorem separateFrom_map {g : Row → Row} (htag : ∀ row, (g row).tag? = row.tag?)
    (hblank : ∀ row, (g row).isBlank = row.isBlank) (hg : g .blank = .blank) (i : Nat)
    (previous : Row) (rows : List Row) :
    separateFrom policy i (g previous) (rows.map g) =
      (separateFrom policy i previous rows).map g := by
  induction rows generalizing i previous with
  | nil => rfl
  | cons row rows ih =>
    have hsep : separates policy i (g previous) (g row) = separates policy i previous row := by
      simp only [separates, htag, hblank]
    simp only [List.map_cons, separateFrom, hsep, ih, List.map_append]
    split <;> simp [hg]

/-- Where groups are separated depends on the tags of the rows and on which are blank, on nothing
else. -/
theorem separate_map {g : Row → Row} (htag : ∀ row, (g row).tag? = row.tag?)
    (hblank : ∀ row, (g row).isBlank = row.isBlank) (hg : g .blank = .blank) (rows : List Row) :
    separate policy (rows.map g) = (separate policy rows).map g := by
  cases rows with
  | nil => rfl
  | cons row rows => simp only [List.map_cons, separate, separateFrom_map htag hblank hg]

/-- Separating groups leaves the last row where it is, also from the middle of a block. -/
theorem getLast?_separateFrom (i : Nat) (previous : Row) (rows : List Row) :
    (separateFrom policy i previous rows).getLast? = rows.getLast? := by
  induction rows generalizing i previous with
  | nil => rfl
  | cons row rows ih =>
    rw [separateFrom, List.getLast?_append, ih, List.getLast?_cons]
    cases rows.getLast? with
    | some last => rfl
    | none => split <;> rfl

/-- Separating groups leaves the last row where it is. -/
theorem getLast?_separate (policy : EmptyLines) (rows : List Row) :
    (separate policy rows).getLast? = rows.getLast? := by
  cases rows with
  | nil => rfl
  | cons row rows => rw [separate, List.getLast?_cons, getLast?_separateFrom, List.getLast?_cons]

/-- Free text may follow rows if it may follow them without some of their separators. -/
theorem Row.Opens.of_filter {before before' : List Row} (h : Row.Opens before)
    (hnil : before = [] → before' = []) (hlast : before ≠ [] → before'.getLast? = before.getLast?)
    (hfilter : before'.filter (fun r => !r.isBlank) = before.filter fun r => !r.isBlank) :
    Row.Opens before' := by
  rcases h with h | h | ⟨f, hf, hperiod⟩
  · exact Or.inl (hnil h)
  · have hne : before ≠ [] := by
      rintro rfl
      cases h
    exact Or.inr (Or.inl ((hlast hne).trans h))
  · exact Or.inr (Or.inr ⟨f, hfilter.trans hf, hperiod⟩)

/-- Free text is set off after separation if it was before, also from the middle of a block. -/
theorem setOff_separateFrom {before before' : List Row} {previous : Row} {rows : List Row}
    (h : SetOff (before ++ [previous]) rows)
    (hfilter : before'.filter (fun r => !r.isBlank) = before.filter fun r => !r.isBlank) (i : Nat) :
    SetOff (before' ++ [previous]) (separateFrom policy i previous rows) := by
  induction rows generalizing before before' previous i with
  | nil => trivial
  | cons row rows ih =>
    obtain ⟨hrow, hrest⟩ := h
    have hfilter' : (before' ++ [previous]).filter (fun r => !r.isBlank) =
        (before ++ [previous]).filter fun r => !r.isBlank := by
      rw [List.filter_append, List.filter_append, hfilter]
    rw [separateFrom]
    split
    · -- The separator sets the row off whatever it is.
      refine ⟨?_, fun _ _ => Or.inr (Or.inl (by simp)), ih hrest ?_ (i + 1)⟩
      · intro f hf
        cases hf
      · rw [List.filter_append, hfilter']
        simp [Row.isBlank]
    · refine ⟨fun f hf => (hrow f hf).of_filter (by simp) (by simp) hfilter', ?_⟩
      exact ih hrest hfilter' (i + 1)

/-- Free text is set off after separation if it was before. -/
theorem setOff_separate (policy : EmptyLines) {rows : List Row} (h : SetOff [] rows) :
    SetOff [] (separate policy rows) := by
  cases rows with
  | nil => trivial
  | cons row rows =>
    have hrest : SetOff ([] ++ [row]) rows := h.2
    exact ⟨fun _ _ => Or.inl rfl, setOff_separateFrom hrest rfl 1⟩

/-- Separation puts no two blank rows together, also from the middle of a block. -/
theorem isChain_separateFrom {previous : Row} {rows : List Row} (i : Nat)
    (h : (previous :: rows).IsChain fun r s => ¬ (r = .blank ∧ s = .blank)) :
    (previous :: separateFrom policy i previous rows).IsChain
      fun r s => ¬ (r = .blank ∧ s = .blank) := by
  induction rows generalizing previous i with
  | nil => exact h
  | cons row rows ih =>
    obtain ⟨hfirst, hrest⟩ := List.isChain_cons_cons.mp h
    have hchain := ih (i + 1) hrest
    rw [separateFrom]
    split
    · next hsep =>
      have hboth : previous.isBlank = false ∧ row.isBlank = false := by
        simp only [separates, Bool.and_eq_true, Bool.not_eq_true'] at hsep
        exact hsep.1
      refine List.isChain_cons_cons.mpr ⟨?_, List.isChain_cons_cons.mpr ⟨?_, hchain⟩⟩
      · rintro ⟨rfl, -⟩
        cases hboth.1
      · rintro ⟨-, rfl⟩
        cases hboth.2
    · exact List.isChain_cons_cons.mpr ⟨hfirst, hchain⟩

/-- Separation keeps blank rows apart and away from the ends. -/
theorem spaced_separate (policy : EmptyLines) {rows : List Row} (h : Spaced rows) :
    Spaced (separate policy rows) := by
  cases rows with
  | nil => exact h
  | cons row rows => exact ⟨h.head, isChain_separateFrom 1 h.chain⟩

end Separate

/-! ## Rows as they are shown -/

section Shown

variable {p : Profile} {d : Delimiters} {options : LayoutOptions} {rows rows' : List Row} {row : Row}

/-- A field without its placeholders has the same plain text. -/
theorem plain_toPlain (f : Field) : f.toPlain.plain = f.plain := plain_text f.plain

/-- Another value leaves the kind of a row as it is. -/
theorem isSome_withValue (row : Row) (v : Text) :
    (row.withValue v).tag? = row.tag? ∧ (row.withValue v).isBlank = row.isBlank ∧
      (row.withValue v).isEntry = row.isEntry := by
  cases row <;> exact ⟨rfl, rfl, rfl⟩

/-- The slots of a row do not depend on its value. -/
theorem slots_withValue (row : Row) (v : Text) :
    slots p false (row.withValue v) = slots p false row := by
  cases row with
  | text f => rfl
  | blank => rfl
  | tag t value => rfl
  | entry t type name description =>
    have htype : typeSlot p false (type.map Field.toPlain) = typeSlot p false type := by
      cases type with
      | none => rfl
      | some f => simp [typeSlot, Field.render, plain_toPlain]
    have hname : nameSlot false (name.map Field.toPlain) = nameSlot false name := by
      cases name with
      | none => rfl
      | some f => simp [nameSlot, cell, Field.render, Field.width, plain_toPlain]
    simp only [slots, Row.withValue, Option.isSome_map, htype, hname]

/-- The columns of the rows shown are as wide as those of the block. -/
theorem columnWidths_map_shownRow (policy : EmptyLines) :
    columnWidths p ((separate policy rows).map (shownRow p d options rows)) =
      columnWidths p rows := by
  have hentry : (Row.isEntry ∘ shownRow p d options rows) = Row.isEntry := by
    funext row
    exact (isSome_withValue row _).2.2
  unfold columnWidths
  rw [List.filter_map, hentry, filter_separate rfl, List.foldl_map]
  simp only [shownRow, slots_withValue]

/-- The columns and the separator of a row do not depend on its value. -/
theorem columnsText_withValue (hplain : options.asSnippet = false) (widths : List Nat) (row : Row)
    (v : Text) :
    columnsText p options widths (row.withValue v) = columnsText p options widths row ∧
      separatorOf p options (row.withValue v) = separatorOf p options row := by
  have hslots := slots_withValue (p := p) row v
  rw [← hplain] at hslots
  cases row with
  | text f => exact ⟨rfl, rfl⟩
  | blank => exact ⟨rfl, rfl⟩
  | tag t value => exact ⟨rfl, rfl⟩
  | entry t type name description =>
    simp only [Row.withValue] at hslots
    simp only [columnsText, separatorOf, Row.withValue, hslots, and_self]

/-- What stands before the value does not depend on it. -/
theorem rowLead_withValue (hplain : options.asSnippet = false) (widths : List Nat) (row : Row)
    (v : Text) : rowLead p options widths (row.withValue v) = rowLead p options widths row := by
  obtain ⟨hcolumns, hseparator⟩ := columnsText_withValue (p := p) hplain widths row v
  rw [rowLead, rowLead, hcolumns, hseparator]

/-- A row has the value it was given, if it had one before. -/
theorem value_withValue (hne : row.value ≠ []) (v : Text) : (row.withValue v).value = v := by
  cases row with
  | text f => exact plain_text v
  | blank => exact absurd rfl hne
  | tag t value =>
    cases value with
    | none => exact absurd rfl hne
    | some f => exact plain_text v
  | entry t type name description =>
    cases description with
    | none => exact absurd rfl hne
    | some f => exact plain_text v

/-- A row given its own value has it. -/
theorem value_withValue_value (row : Row) : (row.withValue row.value).value = row.value := by
  cases row with
  | text f => exact plain_text f.plain
  | blank => rfl
  | tag t value =>
    cases value with
    | none => rfl
    | some f => exact plain_text f.plain
  | entry t type name description =>
    cases description with
    | none => rfl
    | some f => exact plain_text f.plain

/-- A row given its own value has the same line. -/
theorem rowLine_withValue_value (hplain : options.asSnippet = false) (widths : List Nat)
    (row : Row) (marker : Text) :
    rowLine p options marker widths (row.withValue row.value) =
      rowLine p options marker widths row := by
  have htext : rowText p options widths (row.withValue row.value) =
      rowText p options widths row := by
    cases htag : row.tag?.isSome with
    | true =>
      obtain ⟨hcolumns, hseparator⟩ := columnsText_withValue (p := p) hplain widths row row.value
      have htag' : (row.withValue row.value).tag?.isSome = true := by
        rwa [(isSome_withValue row _).1]
      rw [rowText_of_tagged hplain htag, rowText_of_tagged hplain htag', hcolumns, hseparator,
        value_withValue_value]
    | false =>
      cases row with
      | text f => simp [Row.withValue, Row.value, rowText, Field.render, hplain]
      | blank => rfl
      | tag t value => cases htag
      | entry t type name description => cases htag
  rw [rowLine, rowLine, htext]

/-- **The lines of a row are the lines of what they show.** -/
theorem rowLines_shownRow (hp : p.Framed d) (hplain : options.asSnippet = false)
    (hrow : row.Legible p) (hwidths : columnWidths p rows' = columnWidths p rows) :
    rowLines p d options rows' (shownRow p d options rows row) =
      rowLines p d options rows row := by
  have hsame : ∀ v, rowLines p d options rows' (row.withValue v) =
      rowLines p d options rows (row.withValue v) := by
    intro v
    simp only [rowLines, hwidths]
  have hline : rowLines p d options rows (row.withValue row.value) =
      rowLines p d options rows row := by
    simp only [rowLines, rowLine_withValue_value hplain]
  rw [shownRow, hsame]
  by_cases hnil : row.value = []
  · rw [shownValue_of_nil hnil, ← hline, hnil]
  by_cases hfits : Fits options (rowLine p options d.marker (columnWidths p rows) row)
  · rw [shownValue, if_pos hfits, hline]
  · -- The words are the same, so they flow into the same lines.
    have hvalue := hrow.isLine_value hnil
    have hwords : words row.value ≠ [] := words_ne_nil hvalue.ne_nil hvalue.startsTight
    have hshown : IsLine (unwords (words row.value)) := isLine_unwords hwords (isWord_words _)
    have hshownWords : words (unwords (words row.value)) = words row.value :=
      words_unwords (isWord_words _)
    obtain ⟨lead, hled⟩ := hrow.exists_led rows hp hplain hnil
    obtain ⟨width, hwidth, hwide, hrows⟩ := exists_rowLines_of_not_fits hfits
    rw [hled.rowLine_eq hplain hvalue] at hwide hrows
    rw [wrapLine_of_cutsAt hp (hled.startsTight_append hvalue.startsTight)
      (hled.cutsAt _ hvalue rfl) hwide] at hrows
    have hrowLine : rowLine p options d.marker (columnWidths p rows)
        (row.withValue (unwords (words row.value))) =
          d.marker ++ ([' '] ++ (lead ++ unwords (words row.value))) := by
      have hv := value_withValue hnil (unwords (words row.value))
      rw [rowLine_of_value hplain _ (by rw [hv]; exact hshown.ne_nil)
        (by rw [hv]; exact hshown.endsTight), rowLead_withValue hplain, hled.lead_eq, hv]
      rfl
    rw [shownValue, if_neg hfits, hrows]
    simp only [rowLines, hwidth, hrowLine]
    by_cases hle : (d.marker ++ ([' '] ++ (lead ++ unwords (words row.value)))).length ≤ width
    · rw [Reflow.wrapLine_of_le hle, Reflow.flow_of_fits hwords (isWord_words _)]
      · simp only [List.append_assoc]
      · simpa only [List.append_assoc] using hle
    · rw [wrapLine_of_cutsAt hp (hled.startsTight_append hshown.startsTight)
        (hled.cutsAt _ hshown hshownWords) (Nat.lt_of_not_le hle), hshownWords]

end Shown

/-! ## The second layout -/

/-- A block whose layout is read back so that it is laid out in the same way.  Where no empty lines
are added, free text at the start may be broken after a period if no other text comes next. -/
structure Block.Settled (p : Profile) (d : Delimiters) (options : LayoutOptions) (b : Block) :
    Prop where
  clear : ∀ row ∈ b.rows, ClearLines p d options b.rows row
  whole : WholeSentence p d options b.rows ∨
    options.emptyLines = .none ∧ ∀ f, b.rows[1]? ≠ some (.text f)
  apart : ∀ row ∈ b.rows, row.Apart p

instance (p : Profile) (d : Delimiters) (options : LayoutOptions) (b : Block) :
    Decidable (b.Settled p d options) :=
  have := decidableText (fun _ => False) b.rows[1]?
  decidable_of_iff ((∀ row ∈ b.rows, ClearLines p d options b.rows row) ∧
      (WholeSentence p d options b.rows ∨
        options.emptyLines = .none ∧ ∀ f, b.rows[1]? = some (.text f) → False) ∧
      ∀ row ∈ b.rows, row.Apart p)
    ⟨fun ⟨h₁, h₂, h₃⟩ => ⟨h₁, h₂, h₃⟩, fun h => ⟨h.1, h.2, h.3⟩⟩

/-- The block that a layout shows: its rows with their separators. -/
def Table.shownBlock (p : Profile) (d : Delimiters) (options : LayoutOptions) (b : Block) : Block :=
  ⟨(separate options.emptyLines b.rows).map (shownRow p d options b.rows)⟩

section Second

variable {p : Profile} {d : Delimiters} {options : LayoutOptions} {b : Block} {indent : Text}

/-- The rows of a normal block whose layout is settled can be read back. -/
theorem Block.Normal.legible (hp : p.Framed d) (h : b.Normal p) (hsettled : b.Settled p d options) :
    ∀ row ∈ b.rows, row.Legible p := by
  intro row hrow
  obtain ⟨l, hl, rfl⟩ := h.row row hrow
  exact hl.legible hp (hsettled.apart _ hrow)

/-- **The layout of a block without runs of empty lines is read as the block that it shows.** -/
theorem block?_format_of_spaced (hp : p.Framed d) (hplain : options.asSnippet = false)
    (hlegible : ∀ row ∈ b.rows, row.Legible p)
    (hclear : ∀ row ∈ b.rows, ClearLines p d options b.rows row) (hset : SetOff [] b.rows)
    (hspaced : Spaced b.rows) (hne : b.rows ≠ []) (hlast : b.rows.getLast? ≠ some .blank)
    (hwhole : WholeSentence p d options b.rows) (hindent : Blanks indent) (hone : OneLine indent) :
    block? p (unlines ((b.format p options).map (indent ++ ·))) =
      some (shownBlock p d options b) := by
  obtain ⟨soFar, hgathers, hlogical⟩ := exists_logicalLines_format hp hplain
    hlegible hclear (setOff_separate options.emptyLines hset) hwhole hindent hone
  have hseparated := spaced_separate options.emptyLines hspaced
  have hshown : Spaced ((separate options.emptyLines b.rows).map (shownRow p d options b.rows)) := by
    constructor
    · rw [List.head?_map]
      intro hhead
      obtain ⟨row, hrow, hblank⟩ := Option.map_eq_some_iff.mp hhead
      exact hseparated.head (shownRow_eq_blank_iff.mp hblank ▸ hrow)
    · rw [List.isChain_map]
      refine hseparated.chain.imp ?_
      rintro r s hne ⟨hr, hs⟩
      exact hne ⟨shownRow_eq_blank_iff.mp hr, shownRow_eq_blank_iff.mp hs⟩
  have hrows := hgathers.eq_of_spaced hshown
  have hkeep : dropBlank soFar = soFar := by
    rcases soFar with _ | ⟨l, older⟩
    · rfl
    · cases l with
      | text t => rfl
      | tag t => rfl
      | blank =>
        exfalso
        have hblank := congrArg List.getLast? hrows
        rw [List.reverse_cons, List.map_append, List.map_singleton, List.getLast?_concat,
          List.getLast?_map, getLast?_separate] at hblank
        obtain ⟨row, hrow, hshownBlank⟩ := Option.map_eq_some_iff.mp hblank.symm
        exact hlast (shownRow_eq_blank_iff.mp hshownBlank ▸ hrow)
  rw [hkeep] at hlogical
  unfold block?
  rw [hp.delimiters, Option.bind_some, hlogical, hrows]
  have hshownNe : (separate options.emptyLines b.rows).map (shownRow p d options b.rows) ≠ [] := by
    cases hb : b.rows with
    | nil => exact absurd hb hne
    | cons row rows => simp [separate]
  unfold shownBlock
  generalize (separate options.emptyLines b.rows).map (shownRow p d options b.rows) = rows
    at hshownNe ⊢
  cases rows with
  | nil => exact absurd rfl hshownNe
  | cons row rows => rfl

/-- **The layout of a settled block is read as the block that it shows**, if its first sentence is
whole. -/
theorem block?_format_of_settled (hp : p.Framed d) (hplain : options.asSnippet = false)
    (hnormal : b.Normal p) (hsettled : b.Settled p d options)
    (hwhole : WholeSentence p d options b.rows) (hindent : Blanks indent) (hone : OneLine indent) :
    block? p (unlines ((b.format p options).map (indent ++ ·))) =
      some (shownBlock p d options b) :=
  block?_format_of_spaced hp hplain (hnormal.legible hp hsettled) hsettled.clear hnormal.set_off
    hnormal.spaced hnormal.ne_nil hnormal.last hwhole hindent hone

/-- Laying out what a layout shows gives that layout. -/
theorem format_of_shown (hp : p.Framed d) (hplain : options.asSnippet = false)
    (hlegible : ∀ row ∈ b.rows, row.Legible p) :
    (shownBlock p d options b).format p options = b.format p options := by
  have hseparate : separate options.emptyLines
      ((separate options.emptyLines b.rows).map (shownRow p d options b.rows)) =
        (separate options.emptyLines b.rows).map (shownRow p d options b.rows) := by
    have htag : ∀ row, (shownRow p d options b.rows row).tag? = row.tag? := fun row =>
      (isSome_withValue row _).1
    rw [separate_map htag isBlank_shownRow rfl, separate_separate]
  rw [format_eq_rowLines hp.delimiters hp.opener_delimiter hp.closer_delimiter,
    format_eq_rowLines hp.delimiters hp.opener_delimiter hp.closer_delimiter, shownBlock,
    hseparate, List.flatMap_map]
  congr 2
  apply List.flatMap_congr
  intro row hrow
  apply rowLines_shownRow hp hplain ?_ (columnWidths_map_shownRow options.emptyLines)
  rcases mem_separate hrow with hmem | rfl
  · exact hlegible row hmem
  · trivial

end Second

end DocComment
