import DocComment.Proofs.Reading.Frame

/-!
# Reading the lines of a row back

A **legible** row is one whose columns can be told apart once they are written out.  The contents of
its lines are gathered into one logical line, and the row of that line is the row itself, except
that re-flowing leaves single spaces between the words of its value (`exists_reads_rowLines`).
-/

namespace DocComment

open Text TagLine Reading Table

/-! ## Legible rows -/

/-- What a dialect puts between a name and a description, besides the space. -/
def Profile.dash (p : Profile) (columns : Columns) : Text :=
  if columns.name then p.separator.drop 1 else []

/-- A description after a dash, or nothing at all. -/
def dashed (dash description : Text) : Text :=
  if description.isEmpty then [] else dash ++ description

/-- The columns of a structured row can be told apart, also after its description is re-flowed. -/
structure LegibleColumns (p : Profile) (columns : Columns) (type name description : Option Field) :
    Prop where
  typed : type.isSome = true → columns.type = true
  named : name.isSome = true → columns.name = true
  type_line : ∀ f ∈ type, IsLine (p.formatType f.plain)
  name_word : ∀ f ∈ name, IsWord f.plain
  description_line : ∀ f ∈ description, IsLine f.plain
  recovers : ∀ t, StartsTight t → EndsTight t →
    words t = words ((description.map Field.plain).getD []) →
    Recovers p columns (type.map Field.plain) (name.map Field.plain)
      (dashed (p.dash columns) t) t

/-- A row that can be read back from its lines. -/
def Row.Legible (p : Profile) : Row → Prop
  | .text f => IsLine f.plain ∧ ofText? p f.plain = none
  | .blank => True
  | .tag t v => IsTag p t ∧ p.columns? t = none ∧ ∀ f ∈ v, IsLine f.plain
  | .entry t type name description => IsTag p t ∧
      ∃ columns, p.columns? t = some columns ∧ LegibleColumns p columns type name description

/-- The value of a row as its lines show it: re-flowing leaves single spaces between the words. -/
def Table.shownValue (p : Profile) (d : Delimiters) (options : LayoutOptions) (rows : List Row)
    (row : Row) : Text :=
  if Fits options (rowLine p options d.marker (columnWidths p rows) row) then row.value
  else unwords (words row.value)

/-- The row that its lines show. -/
def Table.shownRow (p : Profile) (d : Delimiters) (options : LayoutOptions) (rows : List Row)
    (row : Row) : Row :=
  row.withValue (shownValue p d options rows row)

/-- No line of a row ends in the closer. -/
def Table.Unclosed (p : Profile) (d : Delimiters) (options : LayoutOptions) (rows : List Row)
    (row : Row) : Prop :=
  ∀ line ∈ rowLines p d options rows row, ∀ closer ∈ d.closer, ¬ trim closer <:+ line

/-- No line of a row ends in the closer, and none but the first starts with a tag. -/
structure Table.ClearLines (p : Profile) (d : Delimiters) (options : LayoutOptions)
    (rows : List Row) (row : Row) : Prop where
  no_closer : Unclosed p d options rows row
  no_tag : ∀ line ∈ (rowLines p d options rows row).tail, ofText? p (lineContent d false line) = none

instance (p : Profile) (d : Delimiters) (options : LayoutOptions) (rows : List Row) (row : Row) :
    Decidable (Unclosed p d options rows row) :=
  inferInstanceAs (Decidable (∀ line ∈ _, ∀ closer ∈ d.closer, ¬ trim closer <:+ line))

instance (p : Profile) (d : Delimiters) (options : LayoutOptions) (rows : List Row) (row : Row) :
    Decidable (ClearLines p d options rows row) :=
  decidable_of_iff (Unclosed p d options rows row ∧
      ∀ line ∈ (rowLines p d options rows row).tail, ofText? p (lineContent d false line) = none)
    ⟨fun ⟨h₁, h₂⟩ => ⟨h₁, h₂⟩, fun h => ⟨h.1, h.2⟩⟩

/-- A logical line and its row are of one kind. -/
def Row.Matches : Row → Logical → Prop
  | .text f, .text t => t = f.plain
  | .blank, .blank => True
  | .tag .., .tag _ => True
  | .entry .., .tag _ => True
  | _, _ => False

/-- The logical line of a row. -/
def ReadAs (p : Profile) (l : Logical) (row : Row) : Prop := rowOf p l = row ∧ row.Matches l

/-- The type and the name of a legible row can stand in a line. -/
theorem LegibleColumns.cells {p : Profile} {columns : Columns} {type name description : Option Field}
    (h : LegibleColumns p columns type name description) :
    (∀ t ∈ type.map Field.plain, IsLine (p.formatType t)) ∧
      ∀ n ∈ name.map Field.plain, IsWord n := by
  constructor
  · intro t ht
    obtain ⟨f, hf, rfl⟩ := Option.map_eq_some_iff.mp ht
    exact h.type_line f hf
  · intro n hn
    obtain ⟨f, hf, rfl⟩ := Option.map_eq_some_iff.mp hn
    exact h.name_word f hf

section Values

variable {p : Profile} {d : Delimiters} {options : LayoutOptions} {rows : List Row} {row : Row}

/-- The value of a legible row can stand at the end of a line, if there is one. -/
theorem Row.Legible.isLine_value (h : row.Legible p) (hne : row.value ≠ []) :
    IsLine row.value := by
  cases row with
  | text f => exact h.1
  | blank => exact absurd rfl hne
  | tag t v =>
    cases v with
    | none => exact absurd rfl hne
    | some f => exact h.2.2 f rfl
  | entry t type name description =>
    obtain ⟨-, columns, -, hcolumns⟩ := h
    cases description with
    | none => exact absurd rfl hne
    | some f => exact hcolumns.description_line f rfl

theorem isWord_words (t : Text) : ∀ w ∈ words t, IsWord w := fun _ hw => isWord_of_mem_words hw

/-- Words joined by spaces make a line. -/
theorem isLine_unwords {ws : List Text} (hne : ws ≠ []) (hws : ∀ w ∈ ws, IsWord w) :
    IsLine (unwords ws) := by
  refine ⟨unwords_ne_nil hne hws, startsTight_unwords hws, endsTight_unwords hws, ?_⟩
  intro hmem
  rcases mem_unwords hmem with h | ⟨w, hw, hc⟩
  · exact absurd h (by decide)
  · have hblank := (hws w hw).2 _ hc
    exact absurd hblank (by decide)

/-- A value that can stand in a line is shown as one. -/
theorem isLine_shownValue (h : IsLine row.value) :
    IsLine (shownValue p d options rows row) := by
  unfold shownValue
  split
  · exact h
  · exact isLine_unwords (words_ne_nil h.ne_nil h.startsTight) (isWord_words _)

/-- Re-flowing keeps the words of the value. -/
theorem words_shownValue : words (shownValue p d options rows row) = words row.value := by
  unfold shownValue
  split
  · rfl
  · exact words_unwords (isWord_words _)

/-- A row without a value shows none. -/
theorem shownValue_of_nil (h : row.value = []) : shownValue p d options rows row = [] := by
  unfold shownValue
  split
  · exact h
  · rw [h]
    rfl

end Values

/-! ## The contents of the lines -/

section Contents

/-- What stands in front of the first word stands in front of the joined text. -/
theorem unwords_append_cons (s v : Text) (ws : List Text) :
    unwords ((s ++ v) :: ws) = s ++ unwords (v :: ws) := by
  by_cases h : ws = []
  · subst h
    simp
  · rw [unwords_cons h, unwords_cons h, List.append_assoc]

/-- Joining lines of words joins the words. -/
theorem unwords_map_unwords {first : List Text} {more : List (List Text)} (hfirst : first ≠ [])
    (hmore : ∀ line ∈ more, line ≠ []) :
    unwords (unwords first :: more.map unwords) = unwords (first ++ more.flatten) := by
  induction more generalizing first with
  | nil => simp
  | cons line more ih =>
    have hline : line ≠ [] := hmore line List.mem_cons_self
    have hrest := ih hline fun l hl => hmore l (List.mem_cons_of_mem _ hl)
    have hne : line ++ more.flatten ≠ [] := by simp [hline]
    rw [List.map_cons, unwords_cons (by simp), hrest, List.flatten_cons, unwords_append hfirst hne]

variable {p : Profile} {d : Delimiters} {options : LayoutOptions} {rows : List Row} {row : Row}
  {lead v : Text} {more : List (List Text)}

/-- A line put together from a lead and a value is cut between them when it is broken. -/
def CutsAt (p : Profile) (lead value : Text) : Prop :=
  match ofText? p (lead ++ value) with
  | none => lead = []
  | some line => line.lead = lead ∧ line.description = some value

/-- A line that is too wide and cut behind its lead is broken as words that flow behind that
lead. -/
theorem wrapLine_of_cutsAt (hp : p.Framed d) {value : Text} (hstart : StartsTight (lead ++ value))
    (hcuts : CutsAt p lead value) {width : Nat}
    (hwide : width < (d.marker ++ ([' '] ++ (lead ++ value))).length) :
    Reflow.wrapLine p width (d.marker ++ ([' '] ++ (lead ++ value))) =
      Reflow.flow d.marker (d.marker ++ [' '] ++ lead) width (words value) := by
  have hspace : Blanks [' '] := blanks_replicate 1
  unfold CutsAt at hcuts
  cases hline : ofText? p (lead ++ value) with
  | none =>
    rw [hline] at hcuts
    obtain rfl : lead = [] := hcuts
    rw [Reflow.wrapLine_of_text hp.delimiters hspace hstart hwide (hp.not_delimiter _) hline,
      List.append_nil, List.nil_append]
  | some line =>
    rw [hline] at hcuts
    obtain ⟨hlead, hdescription⟩ := hcuts
    rw [Reflow.wrapLine_of_description hp.delimiters hspace hstart hwide (hp.not_delimiter _) hline
      hdescription, hlead]

/-- What stands before the value of a row, whose lines are cut between the two. -/
structure Table.Led (p : Profile) (options : LayoutOptions) (rows : List Row) (row : Row)
    (lead : Text) : Prop where
  lead_eq : rowLead p options (columnWidths p rows) row = ' ' :: lead
  startsTight : StartsTight lead
  cutsAt : ∀ t, IsLine t → words t = words row.value → CutsAt p lead t

/-- The content of a line starts tight if its value does, also where the lead is empty. -/
theorem Table.Led.startsTight_append (h : Led p options rows row lead) {t : Text}
    (ht : StartsTight t) : StartsTight (lead ++ t) := by
  by_cases hne : lead = []
  · rw [hne]
    exact ht
  · exact (Text.startsTight_append hne).mpr h.startsTight

/-- The line of a row is the marker, a space, the lead and the value. -/
theorem Table.Led.rowLine_eq (h : Led p options rows row lead) (hplain : options.asSnippet = false)
    (hvalue : IsLine row.value) :
    rowLine p options d.marker (columnWidths p rows) row =
      d.marker ++ ([' '] ++ (lead ++ row.value)) := by
  rw [rowLine_of_value hplain _ hvalue.ne_nil hvalue.endsTight, h.lead_eq]
  rfl

/-- The words of a value are spread over the lines of its row: the first ones, `v`, come after the
lead, and `more` are the words of the lines after that. -/
structure Table.Spread (p : Profile) (d : Delimiters) (options : LayoutOptions) (rows : List Row)
    (row : Row) (lead v : Text) (more : List (List Text)) : Prop where
  lines_eq : rowLines p d options rows row = (d.marker ++ ([' '] ++ (lead ++ v))) ::
    more.map fun ws => d.marker ++ (List.replicate (lead.length + 1) ' ' ++ unwords ws)
  ne_nil : v ≠ []
  startsTight : StartsTight v
  endsTight : EndsTight v
  more_ne_nil : ∀ ws ∈ more, ws ≠ []
  words_eq : words v ++ more.flatten = words row.value
  unwords_eq : unwords (v :: more.map unwords) = shownValue p d options rows row

/-- The words of a value are spread over the lines of its row, however many the width asks for. -/
theorem Table.Led.exists_spread (h : Led p options rows row lead) (hp : p.Framed d)
    (hplain : options.asSnippet = false) (hvalue : IsLine row.value) :
    ∃ v more, Spread p d options rows row lead v more := by
  have hline := h.rowLine_eq (d := d) hplain hvalue
  by_cases hfits : Fits options (rowLine p options d.marker (columnWidths p rows) row)
  · refine ⟨row.value, [], ?_, hvalue.ne_nil, hvalue.startsTight, hvalue.endsTight, by simp,
      by simp, ?_⟩
    · rw [rowLines_of_fits hfits, hline]
      rfl
    · rw [List.map_nil, unwords_singleton, shownValue, if_pos hfits]
  · obtain ⟨width, -, hwide, hrows⟩ := exists_rowLines_of_not_fits hfits
    rw [hline] at hwide hrows
    rw [wrapLine_of_cutsAt hp (h.startsTight_append hvalue.startsTight)
      (h.cutsAt row.value hvalue rfl) hwide] at hrows
    have hwords : words row.value ≠ [] := words_ne_nil hvalue.ne_nil hvalue.startsTight
    obtain ⟨first, more, -, hfirst, hmore, hflatten, hlines⟩ :=
      Reflow.exists_flow d.marker (d.marker ++ [' '] ++ lead) width hwords (isWord_words _)
    have hfirstWords : ∀ w ∈ first, IsWord w := by
      intro w hw
      apply isWord_words row.value
      rw [← hflatten]
      exact List.mem_append_left _ hw
    have hcolumn : (d.marker ++ [' '] ++ lead).length - d.marker.length = lead.length + 1 := by
      simp only [List.length_append, List.length_singleton]
      omega
    refine ⟨unwords first, more, ?_, unwords_ne_nil hfirst hfirstWords,
      startsTight_unwords hfirstWords, endsTight_unwords hfirstWords, hmore, ?_, ?_⟩
    · rw [hrows, hlines]
      simp only [Reflow.continuation, hcolumn]
      simp only [List.append_assoc]
    · rw [words_unwords hfirstWords, hflatten]
    · rw [unwords_map_unwords hfirst hmore, hflatten, shownValue, if_neg hfits]

/-- What follows the marker on a line of a row is its content, up to the blanks around it. -/
theorem lineContent_of_mem_rowLines (hp : p.Framed d) {t : Text}
    (hopen : Unclosed p d options rows row) (hmem : d.marker ++ t ∈ rowLines p d options rows row) :
    lineContent d false (d.marker ++ t) = trim t := by
  obtain ⟨s, m, hmarker, hs, hm⟩ := hp.marker
  have hnone : ∀ closer ∈ d.closer, ¬ trim closer <:+ trimEnd (d.marker ++ t) := by
    rw [trimEnd_of_endsTight (endsTight_of_mem_rowLines hp.delimiters hmem)]
    exact hopen _ hmem
  have hcontent := lineContent_marker hmarker hs.blanks hm blanks_nil hnone
  rwa [List.nil_append] at hcontent

/-- The words of the further lines are words. -/
theorem Table.Spread.isWord (h : Spread p d options rows row lead v more) {ws : List Text}
    (hws : ws ∈ more) : ∀ w ∈ ws, IsWord w := by
  intro w hw
  apply isWord_words row.value
  rw [← h.words_eq]
  exact List.mem_append_right _ (List.mem_flatten.mpr ⟨ws, hws, hw⟩)

/-- The contents of the lines of a row with a value: the lead with the first words, then the other
words. -/
theorem Table.Spread.contents_eq (h : Spread p d options rows row lead v more) (hp : p.Framed d)
    (hlead : Led p options rows row lead) (hopen : Unclosed p d options rows row) :
    (rowLines p d options rows row).map (lineContent d false) =
      (lead ++ v) :: more.map unwords := by
  have hrows := h.lines_eq
  have hspace : Blanks [' '] := blanks_replicate 1
  have hcontent : ∀ u t, Blanks u → StartsTight t → EndsTight t →
      d.marker ++ (u ++ t) ∈ rowLines p d options rows row →
      lineContent d false (d.marker ++ (u ++ t)) = t := by
    intro u t hu hts hte hmem
    rw [lineContent_of_mem_rowLines hp hopen hmem, trim_append_of_blanks hu, trim_of_tight hts hte]
  rw [hrows, List.map_cons, List.map_map]
  congr 1
  · apply hcontent [' '] _ hspace (hlead.startsTight_append h.startsTight)
      ((endsTight_append h.ne_nil).mpr h.endsTight)
    rw [hrows]
    exact List.mem_cons_self
  · apply List.map_congr_left
    intro ws hws
    have hwords := h.isWord hws
    apply hcontent _ _ (blanks_replicate _) (startsTight_unwords hwords) (endsTight_unwords hwords)
    rw [hrows]
    exact List.mem_cons_of_mem _ (List.mem_map_of_mem hws)

/-- None of the further lines is empty. -/
theorem Table.Spread.unwords_ne_nil (h : Spread p d options rows row lead v more) :
    ∀ c ∈ more.map unwords, c ≠ [] := by
  intro c hc
  obtain ⟨ws, hws, rfl⟩ := List.mem_map.mp hc
  exact Text.unwords_ne_nil (h.more_ne_nil ws hws) (h.isWord hws)

/-- The first line has the first word of the value. -/
theorem Table.Spread.word_eq (h : Spread p d options rows row lead v more)
    (hvalue : IsLine row.value) : word v = word row.value := by
  have hwords := h.words_eq
  rw [words_eq_word_cons h.ne_nil h.startsTight,
    words_eq_word_cons hvalue.ne_nil hvalue.startsTight] at hwords
  exact (List.cons.inj hwords).1

end Contents

/-! ## One row -/

section Row

variable {p : Profile} {d : Delimiters} {options : LayoutOptions} {rows : List Row} {row : Row}
  {lead : Text}

/-- In a row with clear lines no line but the first reads as a tag line. -/
theorem Table.ClearLines.not_tag_of_contents (hclear : ClearLines p d options rows row) {c₀ : Text}
    {cs : List Text}
    (hcontents : (rowLines p d options rows row).map (lineContent d false) = c₀ :: cs)
    (hcs : ∀ c ∈ cs, c ≠ []) : ∀ c ∈ cs, c ≠ [] ∧ ofText? p c = none := by
  intro c hc
  have hmem : c ∈ ((rowLines p d options rows row).map (lineContent d false)).tail := by
    rw [hcontents]
    exact hc
  rw [← List.map_tail] at hmem
  obtain ⟨line, hl, rfl⟩ := List.mem_map.mp hmem
  exact ⟨hcs _ hc, hclear.no_tag line hl⟩

/-- The only line of a row of which nothing is re-flowed. -/
theorem contents_of_single_line (hp : p.Framed d) {t : Text}
    (hrows : rowLines p d options rows row = [d.marker ++ t])
    (hopen : Unclosed p d options rows row) :
    (rowLines p d options rows row).map (lineContent d false) = [trim t] := by
  have hmem : d.marker ++ t ∈ rowLines p d options rows row := by
    rw [hrows]
    exact List.mem_singleton_self _
  have hcontent := lineContent_of_mem_rowLines hp hopen hmem
  rw [hrows, List.map_singleton, hcontent]

/-- A blank row is the bare marker. -/
theorem rowLines_blank (hp : p.Framed d) : rowLines p d options rows .blank = [d.marker] := by
  have hline : rowLine p options d.marker (columnWidths p rows) .blank = d.marker := by
    rw [rowLine, rowText, List.append_nil, trimEnd_of_endsTight hp.endsTight_marker]
  unfold rowLines
  rw [hline]
  cases options.width with
  | none => rfl
  | some width => exact Reflow.wrapLine_marker hp.delimiters hp.endsTight_marker

/-- A blank row is read back as one. -/
theorem exists_reads_blank (hp : p.Framed d)
    (hclear : ClearLines p d options rows .blank) :
    ∃ l, Reads p ((rowLines p d options rows .blank).map (lineContent d false)) l ∧
      ReadAs p l (shownRow p d options rows .blank) := by
  have hrows : rowLines p d options rows .blank = [d.marker ++ []] := by
    rw [List.append_nil]
    exact rowLines_blank hp
  exact ⟨.blank, contents_of_single_line hp hrows hclear.no_closer, rfl, trivial⟩

theorem head?_word {t : Text} (hne : t ≠ []) (ht : StartsTight t) : (word t).head? = t.head? := by
  obtain ⟨r, -, -, hsplit, -⟩ := exists_word_append t
  conv_rhs => rw [hsplit, List.append_assoc]
  exact (List.head?_append_of_ne_nil _ (isWord_word hne ht).1).symm

/-- Two lines with the same first word both start with a tag or both do not. -/
theorem ofText?_eq_none_of_word {s t : Text} (hs : s ≠ []) (hstart : StartsTight s) (ht : t ≠ [])
    (htight : StartsTight t) (hword : word t = word s) (h : ofText? p s = none) :
    ofText? p t = none := by
  rw [← Option.not_isSome_iff_eq_none, isSome_ofText?_iff] at h ⊢
  rwa [← head?_word ht htight, hword, head?_word hs hstart]

/-- Lines of the same words have the same first word. -/
theorem word_eq_of_words {s t : Text} (hs : IsLine s) (ht : IsLine t) (h : words t = words s) :
    word t = word s := by
  rw [words_eq_word_cons hs.ne_nil hs.startsTight, words_eq_word_cons ht.ne_nil ht.startsTight] at h
  exact (List.cons.inj h).1

/-- Free text has no lead. -/
theorem led_text {f : Field} (hline : IsLine f.plain) (hnone : ofText? p f.plain = none) :
    Led p options rows (.text f) [] := by
  refine ⟨rfl, startsTight_nil, ?_⟩
  intro t ht hwords
  have hword : word t = word f.plain := word_eq_of_words hline ht hwords
  have hfree : ofText? p ([] ++ t) = none :=
    ofText?_eq_none_of_word hline.ne_nil hline.startsTight ht.ne_nil ht.startsTight hword hnone
  rw [CutsAt, hfree]

/-- Free text is read back as the text that its lines show. -/
theorem exists_reads_text (hp : p.Framed d) (hplain : options.asSnippet = false) {f : Field}
    (hline : IsLine f.plain) (hnone : ofText? p f.plain = none)
    (hclear : ClearLines p d options rows (.text f)) :
    ∃ l, Reads p ((rowLines p d options rows (.text f)).map (lineContent d false)) l ∧
      ReadAs p l (shownRow p d options rows (.text f)) := by
  have hled : Led p options rows (.text f) [] := led_text hline hnone
  obtain ⟨v, more, hspread⟩ := hled.exists_spread hp hplain hline
  have hcontents := hspread.contents_eq hp hled hclear.no_closer
  have hfirst : ofText? p v = none :=
    ofText?_eq_none_of_word hline.ne_nil hline.startsTight hspread.ne_nil hspread.startsTight
      (hspread.word_eq hline) hnone
  have hothers := hclear.not_tag_of_contents hcontents hspread.unwords_ne_nil
  refine ⟨.text (shownValue p d options rows (.text f)), ?_, rfl, (plain_text _).symm⟩
  rw [hcontents]
  refine ⟨List.cons_ne_nil _ _, ?_, hspread.unwords_eq.symm⟩
  intro c hc
  rcases List.mem_cons.mp hc with rfl | hc
  · exact ⟨hspread.ne_nil, hfirst⟩
  · exact hothers c hc

/-- The lead of a tagged row: a line with this lead and a value of the same words is cut into the
columns of the row. -/
structure Table.TagLead (p : Profile) (options : LayoutOptions) (rows : List Row) (row : Row)
    (lead : Text) : Prop extends Led p options rows row lead where
  ne_nil : lead ≠ []
  tagged : ∀ t, (ofText? p (lead ++ t)).isSome = true
  rowOf_eq : ∀ t, IsLine t → words t = words row.value →
    rowOf p (.tag (lead ++ t)) = row.withValue t

/-- A tagged row with a value. -/
theorem Table.TagLead.exists_reads (hlead : TagLead p options rows row lead) (hp : p.Framed d)
    (hplain : options.asSnippet = false) (hvalue : IsLine row.value)
    (hmatches : ∀ v t, (row.withValue v).Matches (.tag t))
    (hclear : ClearLines p d options rows row) :
    ∃ l, Reads p ((rowLines p d options rows row).map (lineContent d false)) l ∧
      ReadAs p l (shownRow p d options rows row) := by
  obtain ⟨v, more, hspread⟩ := hlead.exists_spread hp hplain hvalue
  have hcontents := hspread.contents_eq hp hlead.toLed hclear.no_closer
  have hothers := hclear.not_tag_of_contents hcontents hspread.unwords_ne_nil
  have hshown : words (shownValue p d options rows row) = words row.value := words_shownValue
  have hrow := hlead.rowOf_eq _ (isLine_shownValue hvalue) hshown
  refine ⟨.tag (lead ++ shownValue p d options rows row), ?_, hrow, hmatches _ _⟩
  rw [hcontents]
  refine ⟨lead ++ v, more.map unwords, rfl, by simp [hlead.ne_nil], hlead.tagged v, hothers, ?_⟩
  rw [unwords_append_cons, hspread.unwords_eq]

/-- The line of a tagged row without a value, which is cut into the columns of the row. -/
structure Table.Bare (p : Profile) (options : LayoutOptions) (rows : List Row) (row : Row)
    (t : Text) : Prop where
  columns_eq : trimEnd (columnsText p options (columnWidths p rows) row) = ' ' :: t
  ne_nil : t ≠ []
  startsTight : StartsTight t
  cut : ∃ line, ofText? p t = some line ∧ line.description = none
  rowOf_eq : rowOf p (.tag t) = row.withValue []

/-- A tagged row without a value is one line, whatever the width. -/
theorem Table.Bare.rowLines_eq {t : Text} (h : Bare p options rows row t) (hp : p.Framed d)
    (hplain : options.asSnippet = false) (hvalue : row.value = [])
    (htagged : row.tag?.isSome = true) :
    rowLines p d options rows row = [d.marker ++ ([' '] ++ t)] := by
  have hspace : Blanks [' '] := blanks_replicate 1
  have hrowLine : rowLine p options d.marker (columnWidths p rows) row =
      d.marker ++ ([' '] ++ t) := by
    have hcols : trimEnd (columnsText p options (columnWidths p rows) row) ≠ [] := by
      rw [h.columns_eq]
      exact List.cons_ne_nil _ _
    rw [rowLine, rowText_of_no_value hplain hvalue htagged, trimEnd_append hcols, h.columns_eq]
    rfl
  unfold rowLines
  rw [hrowLine]
  cases options.width with
  | none => rfl
  | some width =>
    obtain ⟨line, hline, hdescription⟩ := h.cut
    exact Reflow.wrapLine_of_no_description hp.delimiters hspace h.startsTight hline hdescription

/-- A tagged row without a value. -/
theorem Table.Bare.exists_reads {t : Text} (h : Bare p options rows row t) (hp : p.Framed d)
    (hplain : options.asSnippet = false) (hvalue : row.value = [])
    (htagged : row.tag?.isSome = true) (hmatches : (row.withValue []).Matches (.tag t))
    (hclear : ClearLines p d options rows row) :
    ∃ l, Reads p ((rowLines p d options rows row).map (lineContent d false)) l ∧
      ReadAs p l (shownRow p d options rows row) := by
  have hspace : Blanks [' '] := blanks_replicate 1
  obtain ⟨line, hline, -⟩ := h.cut
  have hend : EndsTight t := by
    have htight := endsTight_trimEnd (columnsText p options (columnWidths p rows) row)
    rw [h.columns_eq, ← List.singleton_append] at htight
    exact (endsTight_append h.ne_nil).mp htight
  have hcontents :=
    contents_of_single_line hp (h.rowLines_eq hp hplain hvalue htagged) hclear.no_closer
  rw [trim_append_of_blanks hspace, trim_of_tight h.startsTight hend] at hcontents
  refine ⟨.tag t, ?_, ?_, ?_⟩
  · rw [hcontents]
    exact ⟨t, [], rfl, h.ne_nil, by rw [hline]; rfl, by simp, by simp⟩
  · rw [h.rowOf_eq, shownRow, shownValue_of_nil hvalue]
  · rw [shownRow, shownValue_of_nil hvalue]
    exact hmatches

/-- The lead of a free tag is the tag and a space. -/
theorem tagLead_tag {t : Text} {f : Field} (ht : IsTag p t) (hcolumns : p.columns? t = none) :
    TagLead p options rows (.tag t (some f)) (t ++ [' ']) := by
  have hspace : Blanks [' '] := blanks_replicate 1
  have hline : ∀ u, IsLine u → ofText? p (t ++ [' '] ++ u) =
      some (ofTag t u (t ++ [' '])) := fun u hu =>
    ofText?_of_free_cut ht hcolumns hspace (by simp) hu.startsTight hu.endsTight
  refine
    { lead_eq := ?_
      startsTight := (startsTight_append ht.word.1).mpr ht.word.startsTight
      cutsAt := ?_
      ne_nil := by simp
      tagged := ?_
      rowOf_eq := ?_ }
  · rw [rowLead, columnsText_tag t _ ht.word.1]
    rfl
  · intro u hu _
    rw [CutsAt, hline u hu]
    exact ⟨rfl, nonempty?_eq_some hu.ne_nil⟩
  · intro u
    have hblank : StartsBlank ([' '] ++ u) := startsBlank_cons.mpr (by decide)
    rw [isSome_ofText?_iff, List.append_assoc, word_append ht.word.2 hblank]
    exact ⟨ht.head?_append _, ht.long⟩
  · intro u hu _
    rw [rowOf_tag_of_free (hline u hu) rfl, ofTag, nonempty?_eq_some hu.ne_nil]
    rfl

/-- A free tag without a value stands alone in its line. -/
theorem bare_tag {t : Text} (ht : IsTag p t) (hcolumns : p.columns? t = none) :
    Bare p options rows (.tag t none) t := by
  have hline : ofText? p (t ++ [] ++ []) =
      some (ofTag t [] (t ++ [])) :=
    ofText?_of_free_cut ht hcolumns blanks_nil (fun h => absurd rfl h) startsTight_nil
      endsTight_nil
  rw [List.append_nil, List.append_nil] at hline
  refine ⟨?_, ht.word.1, ht.word.startsTight, ⟨_, hline, rfl⟩, rowOf_tag_of_free hline rfl⟩
  rw [columnsText_tag t none ht.word.1, ← List.singleton_append]
  exact trimEnd_of_endsTight ((endsTight_append ht.word.1).mpr ht.word.endsTight)

/-- The text from a name on starts tight, with or without the name. -/
theorem startsTight_nameRest {name : Option Text} {s₂ value : Text} (hname : ∀ n ∈ name, IsWord n)
    (hvalue : StartsTight value) : StartsTight (nameRest name s₂ value) := by
  cases name with
  | some n =>
    have hn := hname n rfl
    rw [nameRest, List.append_assoc]
    exact (startsTight_append hn.1).mpr hn.startsTight
  | none => exact hvalue

/-- Wherever a type or a name stands, the text before the value starts tight. -/
theorem startsTight_typeRest {type name : Option Text} {s₁ s₂ value : Text}
    (htype : ∀ t ∈ type, IsLine (p.formatType t)) (hname : ∀ n ∈ name, IsWord n)
    (hvalue : StartsTight value) :
    StartsTight (typeRest p type s₁ (nameRest name s₂ value)) := by
  cases type with
  | some t =>
    have ht := htype t rfl
    rw [typeRest, List.append_assoc]
    exact (startsTight_append ht.ne_nil).mpr ht.startsTight
  | none => exact startsTight_nameRest hname hvalue

/-- A structured tag has a type column wherever the dialect has one. -/
theorem type_of_columns? {t : Text} {columns : Columns} (h : p.columns? t = some columns) :
    columns.type = p.hasTypeColumn := by
  unfold Profile.columns? at h
  simp only at h
  split at h
  · cases h; rfl
  · split at h
    · cases h; rfl
    · split at h
      · cases h; rfl
      · split at h
        · cases h; rfl
        · cases h

/-- A structured tag is more than an introducer. -/
theorem Profile.Framed.long_of_columns? (hp : p.Framed d) {t : Text} {columns : Columns}
    (h : p.columns? t = some columns) : 1 < t.length := by
  have hsuffix : t.dropWhile p.isIntroducer <:+ t := List.dropWhile_suffix _
  have hlist : ∀ names : List Text, (∀ name ∈ names, 1 < name.length) →
      names.contains (t.dropWhile p.isIntroducer) = true → 1 < t.length := by
    intro names hnames hmem
    have hlong := hnames _ (by simpa using hmem)
    have hle := hsuffix.length_le
    omega
  unfold Profile.columns? at h
  simp only at h
  split at h
  · next hmem => exact hlist Profile.paramTags (by decide) hmem
  · split at h
    · next hmem => exact hlist Profile.resultTags (by decide) hmem
    · split at h
      · next hmem => exact hlist Profile.throwTags (by decide) hmem
      · split at h
        · next hbinding => exact hp.binding_long t (by simpa using hbinding)
        · cases h

/-- In front of the description of a structured row there is a space and the dash of its dialect. -/
theorem separatorOf_entry (hp : p.Framed d) {t : Text} {columns : Columns}
    {type name description : Option Field} (hcolumns : p.columns? t = some columns)
    (hnamed : name.isSome = true → columns.name = true) :
    separatorOf p options (.entry t type name description) = ' ' :: p.dash columns := by
  have hlast : ((slots p options.asSnippet (.entry t type name description)).getLast?.bind id).isSome
      = columns.name := by
    simp only [slots, hcolumns, Option.getD_some, List.getLast?_concat, Option.bind_some, id]
    cases hn : columns.name with
    | true => rfl
    | false =>
      have hnone : name = none := by
        cases name with
        | none => rfl
        | some f => rw [hnamed rfl] at hn; cases hn
      simp [hnone]
  simp only [separatorOf, hlast, Profile.dash]
  cases columns.name with
  | false => rfl
  | true => rcases hp.separator with h | h <;> simp [h]

/-- A dialect has a dash and a space there, or nothing. -/
theorem Profile.Framed.dash_eq (hp : p.Framed d) (columns : Columns) :
    p.dash columns = [] ∨ p.dash columns = ['-', ' '] := by
  unfold Profile.dash
  split
  · rcases hp.separator with h | h <;> rw [h]
    · exact Or.inl rfl
    · exact Or.inr rfl
  · exact Or.inl rfl

/-- A description starts tight with or without its dash. -/
theorem startsTight_dashed (hp : p.Framed d) (columns : Columns) {t : Text} (ht : StartsTight t) :
    StartsTight (dashed (p.dash columns) t) := by
  unfold dashed
  split
  · exact startsTight_nil
  · rcases hp.dash_eq columns with h | h <;> rw [h]
    · exact ht
    · exact startsTight_cons.mpr (by decide)

/-- A dash before a description is dropped again; without one the description must not look as if
there was one. -/
theorem dropDash_dashed (hp : p.Framed d) (columns : Columns) {t : Text} (ht : StartsTight t)
    (h : p.dash columns = [] → (words t).head? ≠ some ['-']) :
    dropDash (dashed (p.dash columns) t) = t := by
  unfold dashed
  split
  · next hnil =>
    obtain rfl : t = [] := by simpa using hnil
    exact dropDash_of_ne startsTight_nil (by simp)
  · rcases hp.dash_eq columns with hdash | hdash <;> rw [hdash]
    · exact dropDash_of_ne ht (h hdash)
    · exact dropDash_dash ht

section Entry

variable {t : Text} {columns : Columns} {type name description : Option Field}

/-- A structured line with these columns is read as the row of these columns. -/
theorem rowOf_entry {content lead value : Text}
    (hline : ofText? p content =
      some (ofColumns t (type.map Field.plain) (name.map Field.plain) value lead))
    (hvalue : value.nonempty? = description.map fun _ => value) :
    rowOf p (.tag content) = (Row.entry t type name description).withValue value := by
  rw [rowOf_tag_of_structured hline rfl, Row.withValue, ofColumns, hvalue]
  congr 1
  · cases type <;> rfl
  · cases name <;> rfl
  · cases description <;> rfl

/-- The columns of a structured row with a description are its lead, and a line with this lead is
cut into them. -/
theorem exists_tagLead_entry (hp : p.Framed d) (hplain : options.asSnippet = false)
    (ht : IsTag p t) (hcolumns : p.columns? t = some columns) {f : Field}
    (hlegible : LegibleColumns p columns type name (some f)) :
    ∃ lead, TagLead p options rows (.entry t type name (some f)) lead := by
  obtain ⟨htypes, hnames⟩ := hlegible.cells
  obtain ⟨s₀, s₁, s₂, ⟨hs₀, hs₁, hs₂⟩, hgap₀, hgap₁, hgap₂, hlead⟩ :=
    exists_gaps_of_lead hplain (columnWidths p rows) (some f) ht.word
      (fun h => type_of_columns? hcolumns ▸ hlegible.typed h) hlegible.type_line
      hlegible.name_word (separatorOf_entry hp hcolumns hlegible.named)
  -- Any description with the same words in the place of the original one.
  have hcut : ∀ u, IsLine u → words u = words f.plain →
      ofText? p (t ++ s₀ ++ typeRest p (type.map Field.plain) s₁
          (nameRest (name.map Field.plain) s₂ (p.dash columns)) ++ u) =
        some (ofColumns t (type.map Field.plain) (name.map Field.plain) u
          (t ++ s₀ ++ typeRest p (type.map Field.plain) s₁
            (nameRest (name.map Field.plain) s₂ (p.dash columns)))) := by
    intro u hu hwords
    have hrecovers := hlegible.recovers u hu.startsTight hu.endsTight hwords
    have hdashed := startsTight_dashed hp columns hu.startsTight
    rw [show dashed (p.dash columns) u = p.dash columns ++ u by simp [dashed, hu.ne_nil]]
      at hrecovers hdashed
    have hgaps : Gaps (type.map Field.plain) (name.map Field.plain) (p.dash columns ++ u) s₁ s₂ :=
      { blanks₁ := hs₁.blanks
        blanks₂ := hs₂.blanks
        after_type := fun h _ => hgap₁ (by simpa using h)
        after_name := fun h _ => hgap₂ (by simpa using h)
        at_end := fun h => absurd h (by simp [hu.ne_nil]) }
    have hcontent : t ++ s₀ ++ typeRest p (type.map Field.plain) s₁
          (nameRest (name.map Field.plain) s₂ (p.dash columns ++ u)) =
        t ++ s₀ ++ typeRest p (type.map Field.plain) s₁
          (nameRest (name.map Field.plain) s₂ (p.dash columns)) ++ u := by
      rw [nameRest_append, typeRest_append, List.append_assoc (t ++ s₀)]
    have hline := ofText?_of_recovers ht hcolumns hs₀.blanks (fun _ => hgap₀)
      (startsTight_typeRest htypes hnames hdashed) hrecovers hgaps hu.endsTight hcontent
    rwa [hcontent] at hline
  refine ⟨_,
    { lead_eq := hlead
      startsTight := ?_
      cutsAt := ?_
      ne_nil := by simp [ht.word.1]
      tagged := ?_
      rowOf_eq := ?_ }⟩
  · rw [List.append_assoc]
    exact (startsTight_append ht.word.1).mpr ht.word.startsTight
  · intro u hu hwords
    rw [CutsAt, hcut u hu hwords]
    exact ⟨rfl, nonempty?_eq_some hu.ne_nil⟩
  · intro u
    have hblank : ∀ v, StartsBlank (s₀ ++ v) := fun v =>
      startsBlank_append_of_ne_nil hs₀.blanks fun _ => hgap₀
    rw [isSome_ofText?_iff, List.append_assoc, List.append_assoc, word_append ht.word.2 (hblank _)]
    exact ⟨ht.head?_append _, ht.long⟩
  · intro u hu hwords
    exact rowOf_entry (hcut u hu hwords) (nonempty?_eq_some hu.ne_nil)

/-- The columns of a structured row without a description are its line, which is cut into them. -/
theorem exists_bare_entry (hplain : options.asSnippet = false)
    (ht : IsTag p t) (hcolumns : p.columns? t = some columns)
    (hlegible : LegibleColumns p columns type name none) :
    ∃ content, Bare p options rows (.entry t type name none) content := by
  obtain ⟨htypes, hnames⟩ := hlegible.cells
  obtain ⟨s₀, s₁, ⟨hs₀, hs₁⟩, hgap₀, hgap₁, htrim⟩ :=
    exists_gaps_of_columns hplain (columnWidths p rows) none ht.word
      (fun h => type_of_columns? hcolumns ▸ hlegible.typed h) hlegible.type_line
      hlegible.name_word
  have hgaps : Gaps (type.map Field.plain) (name.map Field.plain) [] s₁ [] :=
    { blanks₁ := hs₁.blanks
      blanks₂ := blanks_nil
      after_type := fun h => hgap₁ (by simpa using h)
      after_name := fun _ h => absurd rfl h
      at_end := fun _ => rfl }
  have hrecovers := hlegible.recovers [] startsTight_nil endsTight_nil rfl
  have hline := ofText?_of_recovers ht hcolumns hs₀.blanks hgap₀
    (startsTight_typeRest htypes hnames startsTight_nil) hrecovers hgaps endsTight_nil
    (List.append_nil _).symm
  refine ⟨_, htrim, by simp [ht.word.1], ?_, ⟨_, hline, rfl⟩, rowOf_entry hline rfl⟩
  rw [List.append_assoc]
  exact (startsTight_append ht.word.1).mpr ht.word.startsTight

end Entry

/-- What a legible row shows: free text, nothing, a lead with a value, or its columns alone. -/
theorem Row.Legible.shape (rows : List Row) (hp : p.Framed d) (hplain : options.asSnippet = false)
    (hrow : row.Legible p) :
    row = .blank ∨ (∃ f, row = .text f) ∨
      (row.tag?.isSome = true ∧ row.value ≠ [] ∧ ∃ lead, TagLead p options rows row lead) ∨
      (row.tag?.isSome = true ∧ row.value = [] ∧ ∃ t, Bare p options rows row t) := by
  cases row with
  | text f => exact Or.inr (Or.inl ⟨f, rfl⟩)
  | blank => exact Or.inl rfl
  | tag t v =>
    obtain ⟨ht, hcolumns, hvalue⟩ := hrow
    cases v with
    | none => exact Or.inr (Or.inr (Or.inr ⟨rfl, rfl, t, bare_tag ht hcolumns⟩))
    | some f =>
      exact Or.inr (Or.inr (Or.inl ⟨rfl, (hvalue f rfl).ne_nil, _, tagLead_tag ht hcolumns⟩))
  | entry t type name description =>
    obtain ⟨ht, columns, hcolumns, hlegible⟩ := hrow
    cases description with
    | none =>
      exact Or.inr (Or.inr (Or.inr ⟨rfl, rfl, exists_bare_entry hplain ht hcolumns hlegible⟩))
    | some f =>
      exact Or.inr (Or.inr (Or.inl ⟨rfl, (hlegible.description_line f rfl).ne_nil,
        exists_tagLead_entry hp hplain ht hcolumns hlegible⟩))

/-- A tagged row is read from a line that starts with its tag, whatever its value. -/
theorem matches_withValue (h : row.tag?.isSome = true) (v t : Text) :
    (row.withValue v).Matches (.tag t) := by
  cases row with
  | text f => cases h
  | blank => cases h
  | tag _ _ => trivial
  | entry _ _ _ _ => trivial

/-- **The lines of a legible row are read back as the row that they show.** -/
theorem exists_reads_rowLines (hp : p.Framed d) (hplain : options.asSnippet = false)
    (hrow : row.Legible p) (hclear : ClearLines p d options rows row) :
    ∃ l, Reads p ((rowLines p d options rows row).map (lineContent d false)) l ∧
      ReadAs p l (shownRow p d options rows row) := by
  rcases hrow.shape rows hp hplain with rfl | ⟨f, rfl⟩ | ⟨htag, hvalue, lead, hlead⟩ |
    ⟨htag, hvalue, t, hbare⟩
  · exact exists_reads_blank hp hclear
  · exact exists_reads_text hp hplain hrow.1 hrow.2 hclear
  · exact hlead.exists_reads hp hplain (hrow.isLine_value hvalue) (matches_withValue htag) hclear
  · exact hbare.exists_reads hp hplain hvalue htag (matches_withValue htag _ _) hclear

/-- The value of a legible row comes after a lead. -/
theorem Row.Legible.exists_led (rows : List Row) (hrow : row.Legible p) (hp : p.Framed d)
    (hplain : options.asSnippet = false) (hvalue : row.value ≠ []) :
    ∃ lead, Led p options rows row lead := by
  rcases hrow.shape rows hp hplain with rfl | ⟨f, rfl⟩ | ⟨-, -, lead, hlead⟩ | ⟨-, hnil, -⟩
  · exact absurd rfl hvalue
  · exact ⟨[], led_text hrow.1 hrow.2⟩
  · exact ⟨lead, hlead.toLed⟩
  · exact absurd hnil hvalue

/-- A row without a value has a single line. -/
theorem Row.Legible.exists_rowLines_of_no_value (hrow : row.Legible p) (hp : p.Framed d)
    (hplain : options.asSnippet = false) (hvalue : row.value = []) :
    ∃ line, rowLines p d options rows row = [line] ∧
      (line = d.marker ∨ ∃ t, line = d.marker ++ ' ' :: t) := by
  rcases hrow.shape rows hp hplain with rfl | ⟨f, rfl⟩ | ⟨-, hne, -⟩ | ⟨htag, -, t, hbare⟩
  · exact ⟨d.marker, rowLines_blank hp, Or.inl rfl⟩
  · exact absurd hvalue hrow.1.ne_nil
  · exact absurd hvalue hne
  · exact ⟨_, hbare.rowLines_eq hp hplain hvalue htag, Or.inr ⟨t, rfl⟩⟩

/-- A row has a line, and each of its lines is a marker or goes on after it with a space. -/
theorem Row.Legible.rowLines_shape (rows : List Row) (hrow : row.Legible p) (hp : p.Framed d)
    (hplain : options.asSnippet = false) :
    rowLines p d options rows row ≠ [] ∧ ∀ line ∈ rowLines p d options rows row,
      line = d.marker ∨ ∃ t, line = d.marker ++ ' ' :: t := by
  by_cases hvalue : row.value = []
  · obtain ⟨line, hrows, hline⟩ := hrow.exists_rowLines_of_no_value hp hplain hvalue
    rw [hrows]
    exact ⟨List.cons_ne_nil _ _, fun l hl => List.mem_singleton.mp hl ▸ hline⟩
  · obtain ⟨lead, hled⟩ := hrow.exists_led rows hp hplain hvalue
    obtain ⟨v, more, hspread⟩ := hled.exists_spread hp hplain (hrow.isLine_value hvalue)
    rw [hspread.lines_eq]
    refine ⟨List.cons_ne_nil _ _, fun line hline => Or.inr ?_⟩
    rcases List.mem_cons.mp hline with rfl | hline
    · exact ⟨lead ++ v, rfl⟩
    · obtain ⟨ws, -, rfl⟩ := List.mem_map.mp hline
      exact ⟨List.replicate lead.length ' ' ++ unwords ws, rfl⟩

end Row

end DocComment
