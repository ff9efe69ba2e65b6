import DocComment.Layout
import DocComment.Proofs.Profile
import DocComment.Proofs.Reflow
import DocComment.Proofs.TagLine.Cut
import DocComment.Proofs.Text.Lines

/-!
# The lines of a table, row by row

A row is written as a **lead** and a **value**: the lead holds the columns, and the value is the
free text or the description, which is what re-flowing breaks.  The lead of a structured row is its
columns with gaps of spaces between them (`exists_gaps_of_lead`), in the form that cutting a tag
line takes apart.  Separators change neither the rows nor their widths, and separating again adds
none.
-/

namespace DocComment

open Text TagLine

namespace Row

/-- What follows the columns of a row: free text, a value or a description. -/
def value : Row → Text
  | text f => f.plain
  | blank => []
  | tag _ v => (v.map Field.plain).getD []
  | entry _ _ _ description => (description.map Field.plain).getD []

/-- The row with another value in the place of its own. -/
def withValue (v : Text) : Row → Row
  | text _ => text (.text v)
  | blank => blank
  | tag t value => tag t (value.map fun _ => .text v)
  | entry t type name description =>
    entry t (type.map Field.toPlain) (name.map Field.toPlain) (description.map fun _ => .text v)

end Row

namespace Table

/-! ## Slots -/

section Slots

/-- A text of spaces only. -/
def Spaces (s : Text) : Prop := ∀ c ∈ s, c = ' '

theorem spaces_nil : Spaces [] := by simp [Spaces]

theorem spaces_append {s t : Text} (hs : Spaces s) (ht : Spaces t) : Spaces (s ++ t) := by
  intro c hc
  rcases List.mem_append.mp hc with h | h
  · exact hs c h
  · exact ht c h

theorem spaces_replicate (n : Nat) : Spaces (List.replicate n ' ') := fun _ hc =>
  (List.mem_replicate.mp hc).2

/-- Spaces are blank. -/
theorem Spaces.blanks {s : Text} (hs : Spaces s) : Blanks s := by
  intro c hc
  rw [hs c hc]
  decide

/-- Spaces do not end a line. -/
theorem Spaces.oneLine {s : Text} (hs : Spaces s) : OneLine s := by
  intro h
  exact absurd (hs _ h) (by decide)

/-- The text of a slot, empty where there is none. -/
def slotCell (slot : Option Slot) : Text := (slot.map Slot.text).getD []

/-- A slot is its text between spaces.  A text that is not empty has one space before it. -/
theorem exists_slotText_cons (entry : Bool) (align : Nat) (widths : List Nat) (i : Nat)
    (slot : Option Slot) (rest : List (Option Slot)) :
    ∃ u v, Spaces u ∧ Spaces v ∧ (slotCell slot ≠ [] → u ≠ []) ∧
      slotText entry align widths i (slot :: rest) =
        u ++ slotCell slot ++ v ++ slotText entry align widths (i + 1) rest := by
  cases slot with
  | none => exact ⟨[], [], spaces_nil, spaces_nil, fun h => absurd rfl h, rfl⟩
  | some slot =>
    rw [slotText]
    split
    · next hhidden =>
      have hempty : slot.text = [] := by simp at hhidden; exact hhidden.1
      exact ⟨[], [], spaces_nil, spaces_nil, fun h => absurd hempty h, by simp [slotCell, hempty]⟩
    · refine ⟨[' '], _, spaces_replicate 1, ?_, fun _ => by simp, rfl⟩
      exact spaces_replicate _

/-- Slots start with a space, so a text behind them starts blank with or without them. -/
theorem startsBlank_slotText_append (entry : Bool) (align : Nat) (widths : List Nat)
    (slots : List (Option Slot)) {s : Text} (hs : StartsBlank s) :
    ∀ i, StartsBlank (slotText entry align widths i slots ++ s) := by
  induction slots with
  | nil => exact fun _ => hs
  | cons slot slots ih =>
    intro i
    cases slot with
    | none => exact ih (i + 1)
    | some slot =>
      rw [slotText]
      split
      · exact ih (i + 1)
      · exact startsBlank_cons.mpr (by decide)

/-- A value starts with the space of its separator. -/
theorem startsBlank_valueText (separator value : Text) :
    StartsBlank (valueText (' ' :: separator) value) := by
  unfold valueText
  split
  · exact startsBlank_nil
  · exact startsBlank_cons.mpr (by decide)

end Slots

section Lead

variable {p : Profile} {options : LayoutOptions} {widths : List Nat}

/-- The columns of a row. -/
def columnsText (p : Profile) (options : LayoutOptions) (widths : List Nat) : Row → Text
  | .text _ | .blank => []
  | row@(.tag ..) => slotText false options.align widths 0 (slots p options.asSnippet row)
  | row@(.entry ..) => slotText true options.align widths 0 (slots p options.asSnippet row)

/-- What stands between the columns of a row and its value. -/
def separatorOf (p : Profile) (options : LayoutOptions) : Row → Text
  | row@(.entry ..) =>
    if ((slots p options.asSnippet row).getLast?.bind id).isSome then p.separator else [' ']
  | _ => [' ']

/-- What stands before the value of a row. -/
def rowLead (p : Profile) (options : LayoutOptions) (widths : List Nat) (row : Row) : Text :=
  columnsText p options widths row ++ separatorOf p options row

/-- In plain text a cell is the plain text of its field. -/
theorem cell_false (field : Option Field) : cell field false = (field.map Field.plain).getD [] := by
  cases field <;> rfl

/-- A tagged row is its columns and, behind a separator, its value. -/
theorem rowText_of_tagged (hplain : options.asSnippet = false) {row : Row}
    (htag : row.tag?.isSome = true) :
    rowText p options widths row =
      columnsText p options widths row ++ valueText (separatorOf p options row) row.value := by
  cases row with
  | text f => cases htag
  | blank => cases htag
  | tag t v => simp [rowText, columnsText, separatorOf, Row.value, hplain, cell_false]
  | entry t type name description =>
    simp [rowText, columnsText, separatorOf, Row.value, hplain, cell_false]

/-- A row with a value is its lead and the value. -/
theorem rowText_of_value (hplain : options.asSnippet = false) {row : Row} (h : row.value ≠ []) :
    rowText p options widths row = rowLead p options widths row ++ row.value := by
  have hne : row.value.isEmpty = false := by simpa using h
  cases row with
  | blank => exact absurd rfl h
  | text f => simp [rowText, rowLead, columnsText, separatorOf, Row.value, Field.render, hplain]
  | tag t v =>
    rw [rowText_of_tagged hplain (by rfl), valueText, hne, rowLead, List.append_assoc]
    rfl
  | entry t type name description =>
    rw [rowText_of_tagged hplain (by rfl), valueText, hne, rowLead, List.append_assoc]
    rfl

/-- A tagged row without a value is its columns. -/
theorem rowText_of_no_value (hplain : options.asSnippet = false) {row : Row}
    (h : row.value = []) (htag : row.tag?.isSome = true) :
    rowText p options widths row = columnsText p options widths row := by
  simp [rowText_of_tagged hplain htag, h, valueText]

/-- The columns of a free tag are a space and the tag. -/
theorem columnsText_tag (t : Text) (v : Option Field) (ht : t ≠ []) :
    columnsText p options widths (.tag t v) = ' ' :: t := by
  simp [columnsText, slots, slotText, tagSlot, ht]

/-- A type and a name as they are written. -/
def typeCell (p : Profile) (type : Option Field) : Text :=
  (type.map fun f => p.formatType f.plain).getD []

def nameCell (name : Option Field) : Text := (name.map Field.plain).getD []

/-- The cell of a column that is there if its field is given, and may be there if it is not. -/
theorem slotCell_ite (b : Bool) (field : Option Field) {slot : Slot} {t : Text}
    (hslot : slot.text = t) (hnone : field = none → t = []) :
    slotCell (if (b || field.isSome) = true then some slot else none) = t := by
  split
  · exact hslot
  · next h =>
    rw [Bool.or_eq_true, not_or, Option.not_isSome_iff_eq_none] at h
    exact (hnone h.2).symm

/-- A tag is written in full, and spaces follow it. -/
theorem exists_slotText_tag (align : Nat) (widths : List Nat) {tag : Text} (htag : tag ≠ [])
    (rest : List (Option Slot)) :
    ∃ v, Spaces v ∧ slotText true align widths 0 (some (tagSlot tag) :: rest) =
      ' ' :: tag ++ v ++ slotText true align widths 1 rest := by
  have hshown : ((tagSlot tag).text.isEmpty) = false := by simpa [tagSlot] using htag
  simp only [slotText, hshown, Bool.false_and]
  exact ⟨_, spaces_replicate _, rfl⟩

/-- The columns of a structured row stand between spaces, and each one that is not empty has a space
before it. -/
theorem exists_columnsText_entry (hplain : options.asSnippet = false) (widths : List Nat)
    {tag : Text} {type : Option Field} (name description : Option Field) (htag : tag ≠ [])
    (htype : type.isSome = true → p.hasTypeColumn = true) :
    ∃ v₀ u₁ v₁ u₂ v₂, (Spaces v₀ ∧ Spaces u₁ ∧ Spaces v₁ ∧ Spaces u₂ ∧ Spaces v₂) ∧
      (typeCell p type ≠ [] → u₁ ≠ []) ∧ (nameCell name ≠ [] → u₂ ≠ []) ∧
      columnsText p options widths (.entry tag type name description) =
        ' ' :: tag ++ v₀ ++ (u₁ ++ typeCell p type ++ v₁) ++ (u₂ ++ nameCell name ++ v₂) := by
  have htypeSlot : (typeSlot p false type).text = typeCell p type := by cases type <;> rfl
  have hnameSlot : (nameSlot false name).text = nameCell name := cell_false name
  simp only [columnsText, slots, hplain]
  generalize (p.columns? tag).getD ⟨type.isSome, name.isSome⟩ = columns
  have hnamed := slotCell_ite columns.name name hnameSlot (by rintro rfl; rfl)
  cases hcolumn : p.hasTypeColumn with
  | true =>
    have htyped := slotCell_ite columns.type type htypeSlot (by rintro rfl; rfl)
    obtain ⟨v₀, hv₀, htag'⟩ := exists_slotText_tag options.align widths htag
      [if (columns.type || type.isSome) = true then some (typeSlot p false type) else none,
        if (columns.name || name.isSome) = true then some (nameSlot false name) else none]
    obtain ⟨u₁, v₁, hu₁, hv₁, hgap₁, htype'⟩ := exists_slotText_cons true options.align widths 1
      (if (columns.type || type.isSome) = true then some (typeSlot p false type) else none)
      [if (columns.name || name.isSome) = true then some (nameSlot false name) else none]
    obtain ⟨u₂, v₂, hu₂, hv₂, hgap₂, hname'⟩ := exists_slotText_cons true options.align widths 2
      (if (columns.name || name.isSome) = true then some (nameSlot false name) else none) []
    rw [htyped] at hgap₁ htype'
    rw [hnamed] at hgap₂ hname'
    refine ⟨v₀, u₁, v₁, u₂, v₂, ⟨hv₀, hu₁, hv₁, hu₂, hv₂⟩, hgap₁, hgap₂, ?_⟩
    simp only [if_true, List.cons_append, List.nil_append]
    rw [htag', htype', hname']
    simp [slotText]
  | false =>
    have hnone : typeCell p type = [] := by
      cases type with
      | none => rfl
      | some f => simp [hcolumn] at htype
    obtain ⟨v₀, hv₀, htag'⟩ := exists_slotText_tag options.align widths htag
      [if (columns.name || name.isSome) = true then some (nameSlot false name) else none]
    obtain ⟨u₂, v₂, hu₂, hv₂, hgap₂, hname'⟩ := exists_slotText_cons true options.align widths 1
      (if (columns.name || name.isSome) = true then some (nameSlot false name) else none) []
    rw [hnamed] at hgap₂ hname'
    refine ⟨v₀, [], [], u₂, v₂, ⟨hv₀, spaces_nil, spaces_nil, hu₂, hv₂⟩,
      fun h => absurd hnone h, hgap₂, ?_⟩
    simp only [Bool.false_eq_true, if_false, List.cons_append, List.nil_append]
    rw [htag', hname', hnone]
    simp [slotText]

/-- A cell at the end of a line stays, and the spaces behind it go. -/
theorem trimEnd_append_cell {s u cell v : Text} (hv : Spaces v) (hne : cell ≠ [])
    (htight : EndsTight cell) : trimEnd (s ++ (u ++ cell ++ v)) = s ++ (u ++ cell) := by
  rw [← List.append_assoc, trimEnd_append_of_blanks hv.blanks]
  apply trimEnd_of_endsTight
  rw [← List.append_assoc]
  exact (endsTight_append hne).mpr htight

/-- Where a type or a name is given, its cell is not empty. -/
theorem typeCell_ne_nil {type : Option Field} (htype : ∀ f ∈ type, IsLine (p.formatType f.plain))
    (h : type.isSome = true) : typeCell p type ≠ [] ∧ EndsTight (typeCell p type) := by
  obtain ⟨f, rfl⟩ := Option.isSome_iff_exists.mp h
  exact ⟨(htype f rfl).ne_nil, (htype f rfl).endsTight⟩

/-- A cell with a name is one word. -/
theorem isWord_nameCell {name : Option Field} (hname : ∀ f ∈ name, IsWord f.plain)
    (h : name.isSome = true) : IsWord (nameCell name) := by
  obtain ⟨f, rfl⟩ := Option.isSome_iff_exists.mp h
  exact hname f rfl

section Entry

variable {tag : Text} {type name : Option Field} (hplain : options.asSnippet = false)
  (widths : List Nat) (description : Option Field) (htag : IsWord tag)
  (hcolumn : type.isSome = true → p.hasTypeColumn = true)
  (htype : ∀ f ∈ type, IsLine (p.formatType f.plain)) (hname : ∀ f ∈ name, IsWord f.plain)

include hplain htag hcolumn htype hname

/-- The lead of a structured row: gaps between all columns, and a dash behind a name in some
dialects. -/
theorem exists_gaps_of_lead {dash : Text}
    (hseparator : separatorOf p options (.entry tag type name description) = ' ' :: dash) :
    ∃ s₀ s₁ s₂, (Spaces s₀ ∧ Spaces s₁ ∧ Spaces s₂) ∧ s₀ ≠ [] ∧
      (type.isSome = true → s₁ ≠ []) ∧ (name.isSome = true → s₂ ≠ []) ∧
      rowLead p options widths (.entry tag type name description) = ' ' :: (tag ++ s₀ ++
        typeRest p (type.map Field.plain) s₁ (nameRest (name.map Field.plain) s₂ dash)) := by
  obtain ⟨v₀, u₁, v₁, u₂, v₂, ⟨hv₀, hu₁, hv₁, hu₂, hv₂⟩, hgap₁, hgap₂, hcolumns⟩ :=
    exists_columnsText_entry hplain widths name description htag.1 hcolumn
  have hspace : Spaces [' '] := spaces_replicate 1
  rw [rowLead, hcolumns, hseparator]
  cases type with
  | some type =>
    have hs₀ : v₀ ++ u₁ ≠ [] := by simp [hgap₁ (typeCell_ne_nil htype rfl).1]
    cases name with
    | some name =>
      have hs₁ : v₁ ++ u₂ ≠ [] := by simp [hgap₂ (isWord_nameCell hname rfl).1]
      refine ⟨v₀ ++ u₁, v₁ ++ u₂, v₂ ++ [' '], ⟨spaces_append hv₀ hu₁, spaces_append hv₁ hu₂,
        spaces_append hv₂ hspace⟩, hs₀, fun _ => hs₁, fun _ => by simp, ?_⟩
      simp [typeCell, nameCell, typeRest, nameRest]
    | none =>
      refine ⟨v₀ ++ u₁, v₁ ++ u₂ ++ v₂ ++ [' '], [], ⟨spaces_append hv₀ hu₁, spaces_append
        (spaces_append (spaces_append hv₁ hu₂) hv₂) hspace, spaces_nil⟩, hs₀, fun _ => by simp,
        fun h => absurd h Bool.false_ne_true, ?_⟩
      simp [typeCell, nameCell, typeRest, nameRest]
  | none =>
    cases name with
    | some name =>
      have hs₀ : v₀ ++ u₁ ++ v₁ ++ u₂ ≠ [] := by simp [hgap₂ (isWord_nameCell hname rfl).1]
      refine ⟨v₀ ++ u₁ ++ v₁ ++ u₂, [], v₂ ++ [' '], ⟨spaces_append (spaces_append
        (spaces_append hv₀ hu₁) hv₁) hu₂, spaces_nil, spaces_append hv₂ hspace⟩,
        hs₀, fun h => absurd h Bool.false_ne_true, fun _ => by simp, ?_⟩
      simp [typeCell, nameCell, typeRest, nameRest]
    | none =>
      refine ⟨v₀ ++ u₁ ++ v₁ ++ u₂ ++ v₂ ++ [' '], [], [], ⟨spaces_append (spaces_append
        (spaces_append (spaces_append (spaces_append hv₀ hu₁) hv₁) hu₂) hv₂) hspace, spaces_nil,
        spaces_nil⟩, by simp, fun h => absurd h Bool.false_ne_true,
        fun h => absurd h Bool.false_ne_true, ?_⟩
      simp [typeCell, nameCell, typeRest, nameRest]

/-- The columns of a structured row without a description: gaps between all columns, and none
behind the last. -/
theorem exists_gaps_of_columns :
    ∃ s₀ s₁, (Spaces s₀ ∧ Spaces s₁) ∧
      (typeRest p (type.map Field.plain) s₁ (nameRest (name.map Field.plain) [] []) ≠ [] →
        s₀ ≠ []) ∧
      (type.isSome = true → nameRest (name.map Field.plain) [] [] ≠ [] → s₁ ≠ []) ∧
      trimEnd (columnsText p options widths (.entry tag type name description)) =
        ' ' :: (tag ++ s₀ ++
          typeRest p (type.map Field.plain) s₁ (nameRest (name.map Field.plain) [] [])) := by
  obtain ⟨v₀, u₁, v₁, u₂, v₂, ⟨hv₀, hu₁, hv₁, hu₂, hv₂⟩, hgap₁, hgap₂, hcolumns⟩ :=
    exists_columnsText_entry hplain widths name description htag.1 hcolumn
  rw [hcolumns]
  cases name with
  | some name =>
    have hword := isWord_nameCell hname rfl
    rw [trimEnd_append_cell hv₂ hword.1 hword.endsTight]
    cases type with
    | some type =>
      have hs₀ : v₀ ++ u₁ ≠ [] := by simp [hgap₁ (typeCell_ne_nil htype rfl).1]
      have hs₁ : v₁ ++ u₂ ≠ [] := by simp [hgap₂ hword.1]
      refine ⟨v₀ ++ u₁, v₁ ++ u₂, ⟨spaces_append hv₀ hu₁, spaces_append hv₁ hu₂⟩, fun _ => hs₀,
        fun _ _ => hs₁, ?_⟩
      simp [typeCell, nameCell, typeRest, nameRest]
    | none =>
      have hs₀ : v₀ ++ u₁ ++ v₁ ++ u₂ ≠ [] := by simp [hgap₂ hword.1]
      refine ⟨v₀ ++ u₁ ++ v₁ ++ u₂, [], ⟨spaces_append (spaces_append
        (spaces_append hv₀ hu₁) hv₁) hu₂, spaces_nil⟩, fun _ => hs₀,
        fun h => absurd h Bool.false_ne_true, ?_⟩
      simp [typeCell, nameCell, typeRest, nameRest]
  | none =>
    have hempty : Spaces (u₂ ++ nameCell none ++ v₂) :=
      spaces_append (spaces_append hu₂ spaces_nil) hv₂
    rw [trimEnd_append_of_blanks hempty.blanks]
    cases type with
    | some type =>
      obtain ⟨hne, htight⟩ := typeCell_ne_nil htype rfl
      have hs₀ : v₀ ++ u₁ ≠ [] := by simp [hgap₁ hne]
      rw [trimEnd_append_cell hv₁ hne htight]
      refine ⟨v₀ ++ u₁, [], ⟨spaces_append hv₀ hu₁, spaces_nil⟩, fun _ => hs₀,
        fun _ h => absurd rfl h, ?_⟩
      simp [typeCell, typeRest, nameRest]
    | none =>
      have hempty' : Spaces (v₀ ++ (u₁ ++ typeCell p none ++ v₁)) :=
        spaces_append hv₀ (spaces_append (spaces_append hu₁ spaces_nil) hv₁)
      have hend : EndsTight ([' '] ++ tag) := (endsTight_append htag.1).mpr htag.endsTight
      rw [List.append_assoc, trimEnd_append_of_blanks hempty'.blanks]
      refine ⟨[], [], ⟨spaces_nil, spaces_nil⟩, fun h => absurd rfl h,
        fun h => absurd h Bool.false_ne_true, ?_⟩
      simpa [typeRest, nameRest] using trimEnd_of_endsTight hend

end Entry

end Lead

/-! ## Lines -/

section Lines

/-- The lines of a row of a block that has the given rows. -/
def rowLines (p : Profile) (d : Delimiters) (options : LayoutOptions) (rows : List Row)
    (row : Row) : List Text :=
  let line := rowLine p options d.marker (columnWidths p rows) row
  match options.width with
  | none => [line]
  | some width => Reflow.wrapLine p width line

/-- Whether a line needs no re-flowing. -/
def Fits (options : LayoutOptions) (line : Text) : Prop :=
  ∀ width ∈ options.width, line.length ≤ width

instance (options : LayoutOptions) (line : Text) : Decidable (Fits options line) :=
  inferInstanceAs (Decidable (∀ width ∈ options.width, line.length ≤ width))

variable {p : Profile} {d : Delimiters} {options : LayoutOptions} {rows : List Row} {row : Row}

/-- A row that fits is one line. -/
theorem rowLines_of_fits
    (h : Fits options (rowLine p options d.marker (columnWidths p rows) row)) :
    rowLines p d options rows row = [rowLine p options d.marker (columnWidths p rows) row] := by
  unfold rowLines
  cases hwidth : options.width with
  | none => rfl
  | some width => exact Reflow.wrapLine_of_le (h width hwidth)

/-- A row that does not fit is broken at the width it is too wide for. -/
theorem exists_rowLines_of_not_fits
    (h : ¬ Fits options (rowLine p options d.marker (columnWidths p rows) row)) :
    ∃ width, options.width = some width ∧
      width < (rowLine p options d.marker (columnWidths p rows) row).length ∧
      rowLines p d options rows row =
        Reflow.wrapLine p width (rowLine p options d.marker (columnWidths p rows) row) := by
  cases hwidth : options.width with
  | none =>
    refine absurd (fun width hmem => ?_) h
    rw [hwidth] at hmem
    cases hmem
  | some width =>
    refine ⟨width, rfl, ?_, by rw [rowLines, hwidth]⟩
    by_contra hle
    refine h fun width' hmem => ?_
    rw [hwidth] at hmem
    cases hmem
    omega

/-- The line of a row with a value ends with it. -/
theorem rowLine_of_value (hplain : options.asSnippet = false) (widths : List Nat)
    (hne : row.value ≠ []) (htight : EndsTight row.value) (marker : Text) :
    rowLine p options marker widths row =
      marker ++ (rowLead p options widths row ++ row.value) := by
  rw [rowLine, rowText_of_value hplain hne, trimEnd_of_endsTight]
  rw [← List.append_assoc]
  exact (endsTight_append hne).mpr htight

/-- A line of a row is the whole row, or one that breaking it gave. -/
theorem mem_rowLines {l : Text} (h : l ∈ rowLines p d options rows row) :
    l = rowLine p options d.marker (columnWidths p rows) row ∨
      ∃ width, l ∈ Reflow.wrapLine p width
        (rowLine p options d.marker (columnWidths p rows) row) := by
  unfold rowLines at h
  split at h
  · exact Or.inl (List.mem_singleton.mp h)
  · exact Or.inr ⟨_, h⟩

section Shape

variable (hd : p.delimiters? = some d) {l : Text} (h : l ∈ rowLines p d options rows row)

include hd h

/-- The lines of a row end tight. -/
theorem endsTight_of_mem_rowLines : EndsTight l := by
  have hline : EndsTight (rowLine p options d.marker (columnWidths p rows) row) :=
    endsTight_trimEnd _
  rcases mem_rowLines h with rfl | ⟨width, h⟩
  · exact hline
  · exact Reflow.endsTight_of_mem_wrapLine hd h hline

/-- The lines of a row are single lines. -/
theorem oneLine_of_mem_rowLines (hmarker : OneLine d.marker)
    (hline : OneLine (rowLine p options d.marker (columnWidths p rows) row)) : OneLine l := by
  rcases mem_rowLines h with rfl | ⟨width, h⟩
  · exact hline
  · exact Reflow.oneLine_of_mem_wrapLine hd h hline hmarker

/-- The lines of a row start with the marker. -/
theorem marker_isPrefix_of_mem_rowLines (hmarker : EndsTight d.marker) : d.marker <+: l := by
  have hline : d.marker <+: rowLine p options d.marker (columnWidths p rows) row :=
    isPrefix_trimEnd hmarker (List.prefix_append _ _)
  rcases mem_rowLines h with rfl | ⟨width, h⟩
  · exact hline
  · exact Reflow.marker_isPrefix_of_mem_wrapLine hd h hmarker hline

end Shape

/-- The lines of a block are those of its rows between the delimiters. -/
theorem format_eq_rowLines {b : Block} (h : p.delimiters? = some d)
    (hopener : Reflow.isDelimiter p d.opener = true)
    (hcloser : ∀ closer ∈ d.closer, Reflow.isDelimiter p closer = true) :
    b.format p options = d.opener ::
      (separate options.emptyLines b.rows).flatMap (rowLines p d options b.rows) ++
        d.closer.toList := by
  have hdialect : p.dialect = .table d := by
    unfold Profile.delimiters? at h
    split at h
    · next hd => rw [hd, Option.some.inj h]
    · cases h
  have hlayout : b.layout p options = lines p d options b := by
    rw [Block.layout, hdialect]
  unfold Block.format
  simp only [hlayout, lines]
  cases hwidth : options.width with
  | none =>
    have hrow : rowLines p d options b.rows = fun row =>
        [rowLine p options d.marker (columnWidths p b.rows) row] := by
      funext row
      rw [rowLines, hwidth]
    rw [hrow, List.map_eq_flatMap]
  | some width =>
    have hrow : rowLines p d options b.rows = fun row =>
        Reflow.wrapLine p width (rowLine p options d.marker (columnWidths p b.rows) row) := by
      funext row
      rw [rowLines, hwidth]
    have hend : d.closer.toList.flatMap (Reflow.wrapLine p width) = d.closer.toList := by
      cases hc : d.closer with
      | none => rfl
      | some closer => simp [Reflow.wrapLine_of_isDelimiter (hcloser closer (by simp [hc]))]
    simp only [Reflow.wrap, List.flatMap_append, List.flatMap_cons, List.flatMap_map, hend, hrow,
      Reflow.wrapLine_of_isDelimiter hopener]
    rfl

end Lines

/-! ## Separators -/

section Separate

variable {policy : EmptyLines}

/-- Separating puts in nothing but empty lines. -/
theorem mem_separateFrom {index : Nat} {previous row : Row} {rows : List Row}
    (h : row ∈ separateFrom policy index previous rows) : row ∈ rows ∨ row = .blank := by
  induction rows generalizing index previous with
  | nil => cases h
  | cons next rows ih =>
    rw [separateFrom, List.mem_append] at h
    rcases h with h | h
    · have hmem : row = .blank ∨ row = next := by
        split at h
        · simpa using h
        · exact Or.inr (by simpa using h)
      rcases hmem with rfl | rfl
      · exact Or.inr rfl
      · exact Or.inl List.mem_cons_self
    · exact (ih h).imp (List.mem_cons_of_mem _) id

theorem mem_separate {row : Row} {rows : List Row} (h : row ∈ separate policy rows) :
    row ∈ rows ∨ row = .blank := by
  cases rows with
  | nil => cases h
  | cons first rows =>
    rcases List.mem_cons.mp h with rfl | h
    · exact Or.inl List.mem_cons_self
    · exact (mem_separateFrom h).imp (List.mem_cons_of_mem _) id

/-- What is true of no empty line is not affected by separators. -/
theorem filter_separateFrom {q : Row → Bool} (hq : q .blank = false) (index : Nat) (previous : Row)
    (rows : List Row) : (separateFrom policy index previous rows).filter q = rows.filter q := by
  induction rows generalizing index previous with
  | nil => rfl
  | cons row rows ih =>
    rw [separateFrom, List.filter_append, ih, List.filter_cons]
    split <;> split <;> simp_all

/-- Separating groups changes no rows of a kind that has no blank ones. -/
theorem filter_separate {q : Row → Bool} (hq : q .blank = false) (rows : List Row) :
    (separate policy rows).filter q = rows.filter q := by
  cases rows with
  | nil => rfl
  | cons row rows => rw [separate, List.filter_cons, filter_separateFrom hq, List.filter_cons]

end Separate

end Table

end DocComment
