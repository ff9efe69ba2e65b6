import DocComment.Proofs.Layout.Table

/-!
# Alignment

Alignment pads.  The words of a line do not depend on how many columns are aligned, and a line that
is not of a structured row does not depend on it at all.  With all columns aligned, a slot takes the
room of the widest one at its place, whatever is written in it: so the columns of a structured row
are as wide as the places that are present in it (`length_slotText`), and the descriptions of rows
with the same columns start below each other.
-/

namespace DocComment.Table

open Text

/-! ## The widths of columns -/

section Widths

/-- The width at a position, which is zero behind the last one. -/
def widthAt (widths : List Nat) (i : Nat) : Nat := (widths[i]?).getD 0

theorem widthAt_maxWidths (vs ws : List Nat) (i : Nat) :
    widthAt (maxWidths vs ws) i = max (widthAt vs i) (widthAt ws i) := by
  fun_induction maxWidths vs ws generalizing i with
  | case1 ws => simp [widthAt]
  | case2 vs => simp [widthAt]
  | case3 v vs w ws ih =>
    cases i with
    | zero => rfl
    | succ i => exact ih i

/-- Taking in rows one after the other, no width gets smaller, and every row finds its place. -/
theorem widthAt_le_foldl (f : Row → List Nat) (rows : List Row) (widths : List Nat) (i : Nat) :
    widthAt widths i ≤ widthAt (rows.foldl (fun ws row => maxWidths ws (f row)) widths) i ∧
      ∀ row ∈ rows,
        widthAt (f row) i ≤ widthAt (rows.foldl (fun ws row => maxWidths ws (f row)) widths) i := by
  induction rows generalizing widths with
  | nil => exact ⟨Nat.le_refl _, nofun⟩
  | cons row rows ih =>
    obtain ⟨hbefore, hrows⟩ := ih (maxWidths widths (f row))
    rw [widthAt_maxWidths] at hbefore
    rw [List.foldl_cons]
    exact ⟨by omega, List.forall_mem_cons.mpr ⟨by omega, hrows⟩⟩

variable {p : Profile} {rows : List Row} {row : Row}

/-- No slot is wider than its column. -/
theorem width_le_columnWidths (hrow : row ∈ rows) (hentry : row.isEntry = true) {i : Nat}
    {slot : Slot} (hslot : (slots p false row)[i]? = some (some slot)) :
    slot.width ≤ widthAt (columnWidths p rows) i := by
  have hle := (widthAt_le_foldl
    (fun row => (slots p false row).map fun slot => (slot.map Slot.width).getD 0)
    (rows.filter Row.isEntry) [] i).2 row (List.mem_filter.mpr ⟨hrow, hentry⟩)
  have hwidth : widthAt ((slots p false row).map fun slot => (slot.map Slot.width).getD 0) i =
      slot.width := by
    simp [widthAt, List.getElem?_map, hslot]
  rwa [hwidth] at hle

/-- In plain text, the width of a slot is the length of what is written. -/
theorem length_text_of_mem_slots {slot : Slot} (h : some slot ∈ slots p false row) :
    slot.text.length = slot.width := by
  have htype : ∀ type : Option Field,
      (typeSlot p false type).text.length = (typeSlot p false type).width := by
    intro type
    cases type <;> rfl
  have hname : ∀ name : Option Field,
      (nameSlot false name).text.length = (nameSlot false name).width := by
    intro name
    cases name <;> rfl
  cases row with
  | text f => cases h
  | blank => cases h
  | tag t v =>
    obtain rfl := Option.some.inj (List.mem_singleton.mp h)
    rfl
  | entry t type name description =>
    have hcases : slot = tagSlot t ∨ slot = typeSlot p false type ∨
        slot = nameSlot false name := by
      grind [slots]
    rcases hcases with rfl | rfl | rfl
    · rfl
    · exact htype type
    · exact hname name

end Widths

/-! ## The room of the slots -/

section Room

variable {align : Nat} {widths : List Nat}

/-- The room of padded slots from position `i` on, when it is known which of them are present.  A
column in which nothing is written takes no room. -/
def room (widths : List Nat) : Nat → List Bool → Nat
  | _, [] => 0
  | i, present :: rest =>
    (if present && 0 < widthAt widths i then widthAt widths i + 1 else 0) +
      room widths (i + 1) rest

section Slot

variable {i : Nat} (slot : Slot) (rest : List (Option Slot))

/-- A padded slot is filled up to the width of its column. -/
theorem slotText_padded (hi : i < align) (hwidest : 0 < widthAt widths i) :
    slotText true align widths i (some slot :: rest) =
      ' ' :: slot.text ++ List.replicate (widthAt widths i - slot.width) ' ' ++
        slotText true align widths (i + 1) rest := by
  rw [widthAt] at hwidest ⊢
  simp [slotText, hi, hwidest]

/-- In a column without a width nothing is written. -/
theorem slotText_unwritten (hwidest : widthAt widths i = 0) (hempty : slot.text = []) :
    slotText true align widths i (some slot :: rest) =
      slotText true align widths (i + 1) rest := by
  rw [widthAt] at hwidest
  simp [slotText, hwidest, hempty]

end Slot

/-- **Padded slots take the room of their columns.** -/
theorem length_slotText {i : Nat} {slots : List (Option Slot)} (halign : i + slots.length ≤ align)
    (hlength : ∀ slot, some slot ∈ slots → slot.text.length = slot.width)
    (hwidth : ∀ k slot, slots[k]? = some (some slot) → slot.width ≤ widthAt widths (i + k)) :
    (slotText true align widths i slots).length = room widths i (slots.map Option.isSome) := by
  induction slots generalizing i with
  | nil => rfl
  | cons slot rest ih =>
    rw [List.length_cons] at halign
    have hrest := ih (i := i + 1) (by omega)
      (fun slot hslot => hlength slot (List.mem_cons_of_mem _ hslot)) fun k slot hslot => by
        have hnext := hwidth (k + 1) slot hslot
        rwa [← Nat.add_assoc, Nat.add_right_comm] at hnext
    rw [List.map_cons, room, ← hrest]
    cases slot with
    | none => simp [slotText]
    | some slot =>
      have hslot : slot.text.length = slot.width := hlength slot List.mem_cons_self
      have hfits : slot.width ≤ widthAt widths i := hwidth 0 slot rfl
      by_cases hwidest : 0 < widthAt widths i
      · rw [slotText_padded slot rest (by omega) hwidest, if_pos (by simpa using hwidest)]
        simp only [List.length_append, List.length_cons, List.length_replicate]
        omega
      · have hempty : slot.text = [] := List.length_eq_zero_iff.mp (by omega)
        rw [slotText_unwritten slot rest (by omega) hempty, if_neg (by simpa using hwidest),
          Nat.zero_add]

end Room

/-! ## The words of the slots -/

section SlotWords

variable {align : Nat} {widths : List Nat}

/-- The words of slots are the words of what is written in them. -/
theorem words_slotText_append (entry : Bool) (slots : List (Option Slot)) {s : Text}
    (hs : StartsBlank s) (i : Nat) :
    words (slotText entry align widths i slots ++ s) =
      (slots.flatMap fun slot => words (slotCell slot)) ++ words s := by
  induction slots generalizing i with
  | nil => rfl
  | cons slot rest ih =>
    obtain ⟨u, v, hu, hv, -, htext⟩ := exists_slotText_cons entry align widths i slot rest
    have hrest := startsBlank_slotText_append entry align widths rest hs (i + 1)
    rw [htext, List.append_assoc, words_append_of_startsBlank hrest, words_append_blanks hv.blanks,
      words_blanks_append hu.blanks, ih, List.flatMap_cons, List.append_assoc]

/-- Without padding it makes no difference how many columns are aligned. -/
theorem slotText_false (m n i : Nat) (slots : List (Option Slot)) :
    slotText false m widths i slots = slotText false n widths i slots := by
  induction slots generalizing i with
  | nil => rfl
  | cons slot rest ih =>
    cases slot with
    | none => exact ih (i + 1)
    | some slot => simp only [slotText, Bool.false_and, ih (i + 1)]

end SlotWords

/-! ## Lines -/

section Lines

variable {p : Profile} {policy : EmptyLines} {marker : Text} {widths : List Nat} {row : Row}

/-- The options of a layout in plain text that is not re-flowed. -/
def plainly (policy : EmptyLines) (align : Nat) : LayoutOptions :=
  { align, emptyLines := policy }

/-- A line without a structured row does not depend on the alignment. -/
theorem rowLine_of_not_isEntry (h : row.isEntry = false) (m n : Nat) :
    rowLine p (plainly policy m) marker widths row =
      rowLine p (plainly policy n) marker widths row := by
  cases row with
  | text f => rfl
  | blank => rfl
  | tag t v =>
    simp only [rowLine, rowText, plainly]
    rw [slotText_false m n]
  | entry t type name description => cases h

/-- The separator of a row starts with a space. -/
theorem exists_separatorOf (hseparator : ∃ dash, p.separator = ' ' :: dash)
    (options : LayoutOptions) (row : Row) : ∃ dash, separatorOf p options row = ' ' :: dash := by
  unfold separatorOf
  split
  · split
    · exact hseparator
    · exact ⟨[], rfl⟩
  · exact ⟨[], rfl⟩

/-- The words of a structured row: those of its columns and those of its description. -/
theorem words_rowLine_of_isEntry (hseparator : ∃ dash, p.separator = ' ' :: dash)
    (h : row.isEntry = true) (align : Nat) :
    words (rowLine p (plainly policy align) marker widths row) =
      words marker ++ ((slots p false row).flatMap fun slot => words (slotCell slot)) ++
        words (valueText (separatorOf p (plainly policy align) row) row.value) := by
  obtain ⟨dash, hdash⟩ := exists_separatorOf hseparator (plainly policy align) row
  have hvalue := startsBlank_valueText dash row.value
  cases row with
  | text f => cases h
  | blank => cases h
  | tag t v => cases h
  | entry t type name description =>
    rw [rowLine, words_trimEnd, rowText_of_tagged rfl rfl, hdash, columnsText,
      words_append_of_startsBlank (startsBlank_slotText_append _ _ _ _ hvalue 0),
      words_slotText_append true _ hvalue, List.append_assoc]
    rfl

/-- **Alignment keeps the words of a line.** -/
theorem words_rowLine (hseparator : ∃ dash, p.separator = ' ' :: dash) (m n : Nat) :
    words (rowLine p (plainly policy m) marker widths row) =
      words (rowLine p (plainly policy n) marker widths row) := by
  cases hentry : row.isEntry with
  | false => rw [rowLine_of_not_isEntry hentry m n]
  | true =>
    rw [words_rowLine_of_isEntry hseparator hentry, words_rowLine_of_isEntry hseparator hentry]
    cases row <;> rfl

/-- Which of its columns a row has. -/
def presence (p : Profile) (row : Row) : List Bool := (slots p false row).map Option.isSome

theorem length_slots_le (p : Profile) (asSnippet : Bool) (row : Row) :
    (slots p asSnippet row).length ≤ 3 := by
  cases row with
  | text f => exact Nat.zero_le 3
  | blank => exact Nat.zero_le 3
  | tag t v => simp [slots]
  | entry t type name description =>
    simp only [slots]
    split <;> simp

/-- The separator depends on the presence of the last column. -/
theorem separatorOf_of_isEntry (h : row.isEntry = true) (align : Nat) :
    separatorOf p (plainly policy align) row =
      if (presence p row).getLast?.getD false then p.separator else [' '] := by
  cases row with
  | text f => cases h
  | blank => cases h
  | tag t v => cases h
  | entry t type name description =>
    have hlast : ∀ last : Option (Option Slot),
        (last.bind id).isSome = (last.map Option.isSome).getD false := by
      intro last
      cases last <;> rfl
    simp only [separatorOf, presence, List.getLast?_map, plainly, hlast]

/-- **The lead of a row whose columns are all padded** has the width that the columns present in it
ask for. -/
theorem length_rowLead {rows : List Row} (hrow : row ∈ rows) (h : row.isEntry = true)
    {align : Nat} (halign : 3 ≤ align) :
    (rowLead p (plainly policy align) (columnWidths p rows) row).length =
      room (columnWidths p rows) 0 (presence p row) +
        (if (presence p row).getLast?.getD false then p.separator else [' ']).length := by
  have hall := length_slots_le p false row
  have hroom : (slotText true align (columnWidths p rows) 0 (slots p false row)).length =
      room (columnWidths p rows) 0 (presence p row) :=
    length_slotText (by omega) (fun slot => length_text_of_mem_slots) fun k slot hslot => by
      rw [Nat.zero_add]
      exact width_le_columnWidths hrow h hslot
  rw [rowLead, List.length_append, separatorOf_of_isEntry h]
  cases row with
  | text f => cases h
  | blank => cases h
  | tag t v => cases h
  | entry t type name description =>
    rw [columnsText]
    exact congrArg (· + _) hroom

/-- Whether a text starts at a column of a line, apart from blanks at the end of the line. -/
def StartsAt (column : Nat) (text line : Text) : Prop :=
  ∃ head, head.length = column ∧ line = trimEnd (head ++ text)

/-- The value of a row starts behind the marker and the lead. -/
theorem startsAt_rowLine (h : row.value ≠ []) (align : Nat) :
    StartsAt (marker.length + (rowLead p (plainly policy align) widths row).length) row.value
      (rowLine p (plainly policy align) marker widths row) := by
  refine ⟨marker ++ rowLead p (plainly policy align) widths row, List.length_append, ?_⟩
  rw [rowLine, rowText_of_value rfl h, List.append_assoc]

end Lines

/-! ## Blocks -/

section Blocks

variable {p : Profile} {d : Delimiters} {policy : EmptyLines} {b : Block}

/-- The lines of a block that is not re-flowed. -/
theorem format_plainly (h : p.delimiters? = some d) (align : Nat) :
    b.format p (plainly policy align) = lines p d (plainly policy align) b := by
  unfold Profile.delimiters? at h
  split at h
  · next hdialect =>
    obtain rfl := Option.some.inj h
    rw [Block.format, Block.layout, hdialect]
    rfl
  · cases h

/-- The line of a row. -/
theorem getElem?_format (h : p.delimiters? = some d) (align : Nat) {i : Nat} {row : Row}
    (hrow : (separate policy b.rows)[i]? = some row) :
    (b.format p (plainly policy align))[i + 1]? =
      some (rowLine p (plainly policy align) d.marker (columnWidths p b.rows) row) := by
  have hmap : ((separate policy b.rows).map
      (rowLine p (plainly policy align) d.marker (columnWidths p b.rows)))[i]? =
        some (rowLine p (plainly policy align) d.marker (columnWidths p b.rows) row) := by
    rw [List.getElem?_map, hrow]
    rfl
  obtain ⟨hi, -⟩ := List.getElem?_eq_some_iff.mp hmap
  rw [format_plainly h, lines, List.cons_append, List.getElem?_cons_succ, ← hmap]
  exact List.getElem?_append_left hi

/-- The lines of a block have the same words whatever is aligned. -/
theorem map_words_format (h : p.delimiters? = some d)
    (hseparator : ∃ dash, p.separator = ' ' :: dash) (m n : Nat) :
    (b.format p (plainly policy m)).map words = (b.format p (plainly policy n)).map words := by
  rw [format_plainly h, format_plainly h, lines, lines]
  simp only [List.map_append, List.map_cons, List.map_map]
  congr 2
  apply List.map_congr_left
  intro row _
  exact words_rowLine hseparator m n

/-- Fully aligned, rows with the same columns have their values at the same place. -/
theorem exists_column (h : p.delimiters? = some d) {align : Nat} (halign : 3 ≤ align) {i j : Nat}
    {row row' : Row} (hrow : (separate policy b.rows)[i]? = some row)
    (hrow' : (separate policy b.rows)[j]? = some row') (hentry : row.isEntry = true)
    (hentry' : row'.isEntry = true) (hpresence : presence p row = presence p row')
    (hvalue : row.value ≠ []) (hvalue' : row'.value ≠ []) :
    ∃ column line line', (b.format p (plainly policy align))[i + 1]? = some line ∧
      (b.format p (plainly policy align))[j + 1]? = some line' ∧
      StartsAt column row.value line ∧ StartsAt column row'.value line' := by
  -- An empty line that separates rows is not structured, so both rows are counted in the widths.
  have hmem : ∀ (k : Nat) (r : Row), (separate policy b.rows)[k]? = some r →
      r.isEntry = true → r ∈ b.rows := by
    intro k r hr hentry
    rcases mem_separate (List.mem_of_getElem? hr) with hmem | rfl
    · exact hmem
    · cases hentry
  have hlead : (rowLead p (plainly policy align) (columnWidths p b.rows) row).length =
      (rowLead p (plainly policy align) (columnWidths p b.rows) row').length := by
    rw [length_rowLead (hmem i row hrow hentry) hentry halign,
      length_rowLead (hmem j row' hrow' hentry') hentry' halign, hpresence]
  refine ⟨_, _, _, getElem?_format h align hrow, getElem?_format h align hrow',
    startsAt_rowLine hvalue align, ?_⟩
  rw [hlead]
  exact startsAt_rowLine hvalue' align

/-- **Alignment only pads, and lines descriptions up.**  However many columns are aligned, a block
has the same number of lines with the same words in each, and the lines that are not of structured
rows are the same.  With all columns aligned, the descriptions of any two rows that have the same
columns start at the same place. -/
theorem format_aligned {language : Language} {config : Config}
    (h : (Profile.of language config).delimiters? = some d) (b : Block) (policy : EmptyLines) :
    (∀ m n, (b.format (Profile.of language config) (plainly policy m)).map words =
      (b.format (Profile.of language config) (plainly policy n)).map words) ∧
    (∀ i row, (separate policy b.rows)[i]? = some row → row.isEntry = false →
      ∃ line, ∀ align,
        (b.format (Profile.of language config) (plainly policy align))[i + 1]? = some line) ∧
    ∀ align, 3 ≤ align → ∀ i j row row', (separate policy b.rows)[i]? = some row →
      (separate policy b.rows)[j]? = some row' → row.isEntry = true → row'.isEntry = true →
      presence (Profile.of language config) row = presence (Profile.of language config) row' →
      row.value ≠ [] → row'.value ≠ [] →
      ∃ column line line',
        (b.format (Profile.of language config) (plainly policy align))[i + 1]? = some line ∧
        (b.format (Profile.of language config) (plainly policy align))[j + 1]? = some line' ∧
        StartsAt column row.value line ∧ StartsAt column row'.value line' := by
  have hseparator : ∃ dash, (Profile.of language config).separator = ' ' :: dash := by
    rcases Profile.separator_of language config with hspace | hdash
    · exact ⟨[], hspace⟩
    · exact ⟨['-', ' '], hdash⟩
  refine ⟨map_words_format h hseparator, fun i row hrow hentry => ?_, ?_⟩
  · refine ⟨rowLine (Profile.of language config) (plainly policy 0) d.marker
      (columnWidths (Profile.of language config) b.rows) row, fun align => ?_⟩
    rw [getElem?_format h align hrow, rowLine_of_not_isEntry hentry align 0]
  · intro align halign i j row row' hrow hrow' hentry hentry' hpresence hvalue hvalue'
    exact exists_column h halign hrow hrow' hentry hentry' hpresence hvalue hvalue'

/-- A block with two parameters of different widths. -/
def moveBlock : Block where
  rows := [.text (.text "Move a point."),
    .entry "@param" (some (.text "number")) (some (.text "x")) (some (.text "how far")),
    .entry "@param" (some (.text "Object")) (some (.text "target")) (some (.text "what to move")),
    .entry "@returns" (some (.text "boolean")) none (some (.text "whether it moved"))]

/-- The descriptions of both parameters start at the same place. -/
theorem format_aligned_moveBlock :
    (Profile.of .javascript {}).delimiters? = some .javadoc ∧
      moveBlock.format (Profile.of .javascript {}) (plainly .none 3) = ["/**", " * Move a point.",
        " * @param   \x7bnumber\x7d  x      - how far",
        " * @param   \x7bObject\x7d  target - what to move",
        " * @returns \x7bboolean\x7d whether it moved", " */"] ∧
      ∃ column line line',
        (moveBlock.format (Profile.of .javascript {}) (plainly .none 3))[2]? = some line ∧
        (moveBlock.format (Profile.of .javascript {}) (plainly .none 3))[3]? = some line' ∧
        StartsAt column "how far" line ∧ StartsAt column "what to move" line' := by
  refine ⟨rfl, by decide +kernel, ?_⟩
  obtain ⟨-, -, hcolumn⟩ := @format_aligned .javadoc .javascript {} rfl moveBlock .none
  exact hcolumn 3 (by decide) 1 2 _ _ rfl rfl rfl rfl (by decide +kernel) (by decide +kernel)
    (by decide +kernel)

end Blocks

end DocComment.Table
