import DocComment.Proofs.Reading.Rows
import Mathlib.Data.List.Chain

/-!
# Reading a whole comment back

The lines of a block are gathered row by row.  What is gathered so far is a function of the logical
lines of the rows before (`gathered`), so one step of the induction adds one row.  Free text needs
to be **set off** from the rows before it, since it would continue them otherwise.
-/

namespace DocComment

open Text TagLine Reading Table

/-! ## One line each -/

section OneLine

variable {p : Profile} {d : Delimiters} {options : LayoutOptions} {row : Row}

/-- The marker of a dialect is a single line. -/
theorem Profile.Framed.oneLine_marker (hp : p.Framed d) : OneLine d.marker := by
  obtain ⟨s, m, hmarker, hs, hm⟩ := hp.marker
  rw [hmarker]
  exact oneLine_append hs.oneLine (oneLine_of_forall_not_blank (by simpa using hm))

/-- The columns of a legible row are a single line. -/
theorem oneLine_columnsText (hplain : options.asSnippet = false) (hrow : row.Legible p)
    (widths : List Nat) : OneLine (columnsText p options widths row) := by
  have hspace : OneLine [' '] := by decide
  cases row with
  | text f => exact List.not_mem_nil
  | blank => exact List.not_mem_nil
  | tag t v =>
    rw [columnsText_tag t v hrow.1.word.1]
    exact oneLine_append hspace (oneLine_of_forall_not_blank hrow.1.word.2)
  | entry t type name description =>
    obtain ⟨ht, columns, hcolumns, hlegible⟩ := hrow
    obtain ⟨v₀, u₁, v₁, u₂, v₂, ⟨hv₀, hu₁, hv₁, hu₂, hv₂⟩, -, -, htext⟩ :=
      exists_columnsText_entry hplain widths name description ht.word.1
        (fun h => type_of_columns? hcolumns ▸ hlegible.typed h)
    have htype : OneLine (typeCell p type) := by
      cases type with
      | none => exact List.not_mem_nil
      | some f => exact (hlegible.type_line f rfl).oneLine
    have hname : OneLine (nameCell name) := by
      cases name with
      | none => exact List.not_mem_nil
      | some f => exact oneLine_of_forall_not_blank (hlegible.name_word f rfl).2
    have htag : OneLine (' ' :: t) :=
      oneLine_append hspace (oneLine_of_forall_not_blank ht.word.2)
    rw [htext]
    exact oneLine_append (oneLine_append (oneLine_append htag hv₀.oneLine)
      (oneLine_append (oneLine_append hu₁.oneLine htype) hv₁.oneLine))
      (oneLine_append (oneLine_append hu₂.oneLine hname) hv₂.oneLine)

/-- The whole of a legible row is a single line. -/
theorem oneLine_rowLine (hp : p.Framed d) (hplain : options.asSnippet = false)
    (hrow : row.Legible p) (widths : List Nat) :
    OneLine (rowLine p options d.marker widths row) := by
  have hspace : OneLine [' '] := by decide
  have hseparator : OneLine (separatorOf p options row) := by
    unfold separatorOf
    split
    · split
      · rcases hp.separator with h | h <;> rw [h] <;> decide
      · exact hspace
    · exact hspace
  refine oneLine_trimEnd (oneLine_append hp.oneLine_marker ?_)
  by_cases hvalue : row.value = []
  · cases row with
    | text f => exact absurd hvalue hrow.1.ne_nil
    | blank => exact List.not_mem_nil
    | tag t v =>
      rw [rowText_of_no_value hplain hvalue rfl]
      exact oneLine_columnsText hplain hrow widths
    | entry t type name description =>
      rw [rowText_of_no_value hplain hvalue rfl]
      exact oneLine_columnsText hplain hrow widths
  · rw [rowText_of_value hplain hvalue]
    exact oneLine_append (oneLine_append (oneLine_columnsText hplain hrow widths) hseparator)
      (hrow.isLine_value hvalue).oneLine

end OneLine

/-! ## Free text stands apart -/

/-- Free text may follow these rows: there are none, an empty line is the last of them, or they are
no more than a first sentence. -/
def Row.Opens (before : List Row) : Prop :=
  before = [] ∨ before.getLast? = some .blank ∨
    ∃ f, before.filter (fun r => !r.isBlank) = [.text f] ∧ f.plain.getLast? = some '.'

/-- All free text of some rows may stand where it does, after the rows before. -/
def SetOff (before : List Row) : List Row → Prop
  | [] => True
  | row :: rest => (∀ f, row = .text f → Row.Opens before) ∧ SetOff (before ++ [row]) rest

/-- The logical lines gathered from rows, the latest first. -/
inductive Gathers (p : Profile) : List Row → List Logical → Prop
  | nil : Gathers p [] []
  | concat {before : List Row} {soFar : List Logical} {row : Row} {l : Logical}
      (init : Gathers p before soFar) (last : ReadAs p l row) :
      Gathers p (before ++ [row]) (addLogical soFar l)

/-- A logical line that is not blank is added. -/
theorem addLogical_of_ne_blank {l : Logical} (h : l ≠ .blank) (soFar : List Logical) :
    addLogical soFar l = l :: soFar := by
  cases l <;> first | rfl | exact absurd rfl h

/-- A blank line is dropped at the start and behind another one. -/
theorem addLogical_blank (soFar : List Logical) :
    addLogical soFar .blank = soFar ∧ (soFar = [] ∨ soFar.head? = some .blank) ∨
      addLogical soFar .blank = .blank :: soFar ∧ soFar ≠ [] ∧ soFar.head? ≠ some .blank := by
  rcases soFar with _ | ⟨l, soFar⟩
  · exact Or.inl ⟨rfl, Or.inl rfl⟩
  · cases l with
    | blank => exact Or.inl ⟨rfl, Or.inr rfl⟩
    | text t => exact Or.inr ⟨rfl, by simp, by simp⟩
    | tag t => exact Or.inr ⟨rfl, by simp, by simp⟩

section Gathers

variable {p : Profile} {before : List Row} {soFar : List Logical}

/-- A blank line is read as a blank row, and no other is. -/
theorem eq_blank_iff_of_readAs {l : Logical} {row : Row} (h : ReadAs p l row) :
    l = .blank ↔ row = .blank := by
  obtain ⟨-, hmatches⟩ := h
  cases l <;> cases row <;> simp_all [Row.Matches]

theorem isBlank_eq_true_iff {row : Row} : row.isBlank = true ↔ row = .blank := by
  cases row <;> simp [Row.isBlank]

/-- Nothing is gathered from blank rows at the start. -/
theorem Gathers.eq_nil_of_blanks (h : Gathers p before soFar)
    (hb : before.filter (fun r => !r.isBlank) = []) : soFar = [] := by
  induction h with
  | nil => rfl
  | @concat before soFar row l _ hl ih =>
    rw [List.filter_append, List.append_eq_nil_iff] at hb
    have hrow : row = .blank := by
      rw [← isBlank_eq_true_iff]
      simpa using hb.2
    rw [ih hb.1, (eq_blank_iff_of_readAs hl).mpr hrow]
    rfl

/-- Where free text may follow the rows, it may follow what is gathered from them. -/
theorem Gathers.opens (h : Gathers p before soFar) (ho : Row.Opens before) : Opens soFar := by
  cases h with
  | nil => exact Or.inl rfl
  | @concat before soFar row l hinit hl =>
    rcases ho with ho | ho | ⟨f, hf, hperiod⟩
    · simp at ho
    · have hrow : row = .blank := by simpa using ho
      rw [(eq_blank_iff_of_readAs hl).mpr hrow]
      rcases addLogical_blank soFar with ⟨hadd, hsoFar⟩ | ⟨hadd, -, -⟩ <;> rw [hadd]
      · exact hsoFar.imp_right Or.inl
      · exact Or.inr (Or.inl rfl)
    · rw [List.filter_append] at hf
      by_cases hrow : row = .blank
      · rw [(eq_blank_iff_of_readAs hl).mpr hrow]
        rcases addLogical_blank soFar with ⟨hadd, hsoFar⟩ | ⟨hadd, -, -⟩ <;> rw [hadd]
        · exact hsoFar.imp_right Or.inl
        · exact Or.inr (Or.inl rfl)
      · -- The sentence is the last row, and only empty lines come before it.
        have hkeep : [row].filter (fun r => !r.isBlank) = [row] := by
          have : row.isBlank = false := by
            rw [← Bool.not_eq_true, isBlank_eq_true_iff]
            exact hrow
          simp [this]
        rw [hkeep] at hf
        have hempty : before.filter (fun r => !r.isBlank) = [] := by
          have hlen := congrArg List.length hf
          simp only [List.length_append, List.length_singleton] at hlen
          exact List.length_eq_zero_iff.mp (by omega)
        rw [hempty, List.nil_append] at hf
        obtain rfl : row = .text f := by simpa using hf
        obtain ⟨t, rfl⟩ : ∃ t, l = .text t := by
          obtain ⟨-, hmatches⟩ := hl
          cases l <;> simp_all [Row.Matches]
        obtain rfl : t = f.plain := hl.2
        rw [hinit.eq_nil_of_blanks hempty]
        exact Or.inr (Or.inr ⟨f.plain, rfl, hperiod⟩)

/-- Gathering drops empty lines and nothing else. -/
theorem Gathers.content_eq (h : Gathers p before soFar) :
    (soFar.reverse.map (rowOf p)).filter (fun r => !r.isBlank) =
      before.filter fun r => !r.isBlank := by
  induction h with
  | nil => rfl
  | @concat before soFar row l _ hl ih =>
    rw [List.filter_append, ← ih]
    by_cases hrow : row = .blank
    · have hdrop : [row].filter (fun r => !r.isBlank) = [] := by simp [hrow, Row.isBlank]
      rw [hdrop, List.append_nil, (eq_blank_iff_of_readAs hl).mpr hrow]
      rcases addLogical_blank soFar with ⟨hadd, -⟩ | ⟨hadd, -, -⟩ <;> rw [hadd]
      simp [rowOf, Row.isBlank]
    · have hne : l ≠ .blank := fun h => hrow ((eq_blank_iff_of_readAs hl).mp h)
      rw [addLogical_of_ne_blank hne, List.reverse_cons, List.map_append, List.filter_append,
        List.map_singleton, hl.1]

/-- Rows without empty lines at the start and without two in a row. -/
structure Spaced (rows : List Row) : Prop where
  head : rows.head? ≠ some .blank
  chain : rows.IsChain fun r s => ¬ (r = .blank ∧ s = .blank)

/-- From spaced rows no line is dropped. -/
theorem Gathers.eq_of_spaced (h : Gathers p before soFar) (hs : Spaced before) :
    soFar.reverse.map (rowOf p) = before := by
  induction h with
  | nil => rfl
  | @concat before soFar row l hinit hl ih =>
    obtain ⟨hchain, -, hlast⟩ := List.isChain_append.mp hs.chain
    have hhead : before.head? ≠ some .blank := by
      intro hb
      apply hs.head
      rw [List.head?_append, hb]
      rfl
    have hbefore := ih ⟨hhead, hchain⟩
    have hadd : addLogical soFar l = l :: soFar := by
      by_cases hrow : row = .blank
      · rw [(eq_blank_iff_of_readAs hl).mpr hrow]
        rcases addLogical_blank soFar with ⟨-, hsoFar⟩ | ⟨hadd, -, -⟩
        · exfalso
          rcases hsoFar with rfl | hsoFar
          · -- There is nothing before, so the rows would start with an empty line.
            rw [← hbefore] at hs
            exact hs.head (by simp [hrow])
          · obtain ⟨older, rfl⟩ := List.head?_eq_some_iff.mp hsoFar
            have hblank : before.getLast? = some .blank := by
              rw [← hbefore]
              simp [rowOf]
            exact hlast .blank hblank row (by simp) ⟨rfl, hrow⟩
        · exact hadd
      · exact addLogical_of_ne_blank
          (fun h => hrow ((eq_blank_iff_of_readAs hl).mp h)) soFar
    rw [hadd, List.reverse_cons, List.map_append, hbefore, List.map_singleton, hl.1]

end Gathers

/-! ## Row after row -/

section Run

variable {p : Profile} {d : Delimiters} {options : LayoutOptions} {rows : List Row}

/-- A value is shown with the same last character. -/
theorem getLast?_shownValue {row : Row} (h : EndsTight row.value) :
    (shownValue p d options rows row).getLast? = row.value.getLast? := by
  unfold shownValue
  split
  · rfl
  · exact getLast?_unwords_words h

/-- A blank row is shown as one, and no other is. -/
theorem shownRow_eq_blank_iff {row : Row} : shownRow p d options rows row = .blank ↔ row = .blank := by
  cases row <;> simp [shownRow, Row.withValue]

theorem isBlank_shownRow (row : Row) :
    (shownRow p d options rows row).isBlank = row.isBlank := by
  cases row <;> rfl

/-- The rows shown have the same blank ones among them. -/
theorem filter_map_shownRow (before : List Row) :
    (before.map (shownRow p d options rows)).filter (fun r => !r.isBlank) =
      (before.filter fun r => !r.isBlank).map (shownRow p d options rows) := by
  rw [List.filter_map]
  congr 1
  apply List.filter_congr
  intro row _
  simp [isBlank_shownRow]

/-- Free text may stand after the rows shown if it may stand after the rows. -/
theorem Row.Opens.map_shownRow {before : List Row} (hlegible : ∀ row ∈ before, row.Legible p)
    (h : Row.Opens before) : Row.Opens (before.map (shownRow p d options rows)) := by
  rcases h with rfl | h | ⟨f, hf, hperiod⟩
  · exact Or.inl rfl
  · refine Or.inr (Or.inl ?_)
    rw [List.getLast?_map, h]
    rfl
  · refine Or.inr (Or.inr ⟨.text (shownValue p d options rows (.text f)), ?_, ?_⟩)
    · rw [filter_map_shownRow, hf]
      rfl
    · have hmem : Row.text f ∈ before := by
        have : Row.text f ∈ before.filter fun r => !r.isBlank := by simp [hf]
        exact List.mem_of_mem_filter this
      have hend : EndsTight (Row.text f).value := (hlegible _ hmem).1.endsTight
      rw [plain_text, getLast?_shownValue hend]
      exact hperiod

/-- Free text that opens a comment is not broken after a period. -/
def WholeSentence (p : Profile) (d : Delimiters) (options : LayoutOptions) (rows : List Row) :
    Prop :=
  ∀ f, (rows.filter fun r => !r.isBlank).head? = some (.text f) →
    ∀ line ∈ (rowLines p d options rows (.text f)).dropLast, line.getLast? ≠ some '.'

/-- A condition on a row that may be free text. -/
def decidableText (c : Field → Prop) [DecidablePred c] :
    (row : Option Row) → Decidable (∀ f, row = some (.text f) → c f)
  | some (.text f) => decidable_of_iff (c f) ⟨fun h _ hf => Row.text.inj (Option.some.inj hf) ▸ h,
      fun h => h f rfl⟩
  | none | some .blank | some (.tag ..) | some (.entry ..) => isTrue nofun

instance (p : Profile) (d : Delimiters) (options : LayoutOptions) (rows : List Row) :
    Decidable (WholeSentence p d options rows) :=
  decidableText _ _

/-- The content of a line ends as the line does. -/
theorem getLast?_lineContent {row : Row} (hd : p.delimiters? = some d)
    (hclear : ClearLines p d options rows row) {line : Text}
    (hline : line ∈ rowLines p d options rows row) (hperiod : line.getLast? ≠ some '.') :
    (lineContent d false line).getLast? ≠ some '.' := by
  have htight := endsTight_of_mem_rowLines hd hline
  have htrim : trim line <:+ line := by
    rw [← trimStart_trimEnd, trimEnd_of_endsTight htight]
    exact List.dropWhile_suffix _
  have hsuffix : lineContent d false line <:+ line :=
    (lineContent_isSuffix fun closer hc hs =>
      hclear.no_closer line hline closer hc (hs.trans htrim)).trans htrim
  intro hlast
  obtain ⟨u, hu⟩ := hsuffix
  apply hperiod
  rw [← hu, List.getLast?_append, hlast]
  rfl

/-- **Reading the rows one after the other.**  The rows before are gathered already; the contents of
the lines of the others add these one by one. -/
theorem gathers_rowLines (hp : p.Framed d) (hplain : options.asSnippet = false)
    (hsentence : WholeSentence p d options rows) {before rest : List Row} {soFar : List Logical}
    (hcontent : (before ++ rest).filter (fun r => !r.isBlank) = rows.filter fun r => !r.isBlank)
    (hlegible : ∀ row ∈ before ++ rest, row.Legible p)
    (hclear : ∀ row ∈ rest, ClearLines p d options rows row) (hset : SetOff before rest)
    (hsoFar : Gathers p (before.map (shownRow p d options rows)) soFar) :
    Gathers p ((before ++ rest).map (shownRow p d options rows))
      ((rest.flatMap fun row => (rowLines p d options rows row).map (lineContent d false)).foldl
        (addLine p) soFar) := by
  induction rest generalizing before soFar with
  | nil => simpa using hsoFar
  | cons row rest ih =>
    have hassoc : before ++ row :: rest = before ++ [row] ++ rest := by simp
    obtain ⟨l, hreads, hreadAs⟩ := exists_reads_rowLines hp hplain (hlegible row (by simp))
      (hclear row List.mem_cons_self)
    -- Only the line of a text row is a text line.
    have htext : ∀ t, l = .text t → ∃ f, row = .text f := by
      rintro t rfl
      obtain ⟨-, hmatches⟩ := hreadAs
      cases row with
      | text f => exact ⟨f, rfl⟩
      | blank => cases hmatches
      | tag _ _ => cases hmatches
      | entry _ _ _ _ => cases hmatches
    have hopens : ∀ t, l = .text t → Opens soFar := by
      intro t ht
      obtain ⟨f, hf⟩ := htext t ht
      exact hsoFar.opens ((hset.1 f hf).map_shownRow fun r hr => hlegible r (by simp [hr]))
    have hperiod : ∀ t, l = .text t → soFar = [] →
        ∀ c ∈ ((rowLines p d options rows row).map (lineContent d false)).dropLast,
          c.getLast? ≠ some '.' := by
      rintro t ht rfl c hc
      obtain ⟨f, rfl⟩ := htext t ht
      have hnone : before.filter (fun r => !r.isBlank) = [] := by
        have h := hsoFar.content_eq
        rw [filter_map_shownRow] at h
        simpa using h.symm
      have hfirst : (rows.filter fun r => !r.isBlank).head? = some (.text f) := by
        rw [← hcontent, List.filter_append, hnone]
        rfl
      rw [← List.map_dropLast] at hc
      obtain ⟨line, hline, rfl⟩ := List.mem_map.mp hc
      exact getLast?_lineContent hp.delimiters (hclear _ List.mem_cons_self)
        (List.dropLast_subset _ hline) (hsentence f hfirst line hline)
    have hadd := foldl_addLine_of_reads hreads hopens hperiod
    rw [List.flatMap_cons, List.foldl_append, hadd, hassoc]
    apply ih
    · rw [← hassoc]
      exact hcontent
    · rw [← hassoc]
      exact hlegible
    · exact fun r hr => hclear r (List.mem_cons_of_mem _ hr)
    · exact hset.2
    · rw [List.map_append]
      exact hsoFar.concat hreadAs

end Run

/-! ## The whole comment -/

section Comment

variable {p : Profile} {d : Delimiters} {options : LayoutOptions} {rows : List Row} {b : Block}

/-- The logical lines without an empty one at the end, the latest first. -/
def dropBlank (soFar : List Logical) : List Logical :=
  match soFar with
  | .blank :: older => older
  | all => all

/-- The logical lines are gathered one by one, without a blank one at the end. -/
theorem logicalLines_eq (p : Profile) (cs : List Text) :
    logicalLines p cs = (dropBlank (cs.foldl (addLine p) [])).reverse := by
  unfold logicalLines
  generalize cs.foldl (addLine p) [] = soFar
  rcases soFar with _ | ⟨l, soFar⟩
  · rfl
  · cases l <;> rfl

/-- A blank line at the end is not kept. -/
theorem dropBlank_addLogical_blank (soFar : List Logical) :
    dropBlank (addLogical soFar .blank) = dropBlank soFar := by
  rcases soFar with _ | ⟨l, soFar⟩
  · rfl
  · cases l <;> rfl

/-- A blank row has clear lines. -/
theorem clearLines_blank (hp : p.Framed d) : ClearLines p d options rows .blank := by
  constructor
  · intro line hline closer hcloser
    rw [rowLines_blank hp] at hline
    obtain rfl := List.mem_singleton.mp hline
    exact hp.marker_open closer hcloser
  · rw [rowLines_blank hp]
    intro line hline
    cases hline

/-- What the lines of a comment are like: none is empty or holds a line feed, and none ends with a
blank. -/
theorem isLine_of_mem_format (hp : p.Framed d) (hplain : options.asSnippet = false)
    (hlegible : ∀ row ∈ b.rows, row.Legible p) {line : Text} (h : line ∈ b.format p options) :
    line ≠ [] ∧ EndsTight line ∧ OneLine line := by
  rw [format_eq_rowLines hp.delimiters hp.opener_delimiter hp.closer_delimiter, List.mem_append,
    List.mem_cons, List.mem_flatMap] at h
  rcases h with (rfl | ⟨row, hrow, hline⟩) | h
  · exact ⟨hp.opener_line.ne_nil, hp.opener_line.endsTight, hp.opener_line.oneLine⟩
  · have hrowLegible : row.Legible p := by
      rcases mem_separate hrow with hmem | rfl
      · exact hlegible row hmem
      · trivial
    refine ⟨?_, endsTight_of_mem_rowLines hp.delimiters hline,
      oneLine_of_mem_rowLines hp.delimiters hline hp.oneLine_marker
        (oneLine_rowLine hp hplain hrowLegible _)⟩
    obtain ⟨s, m, hmarker, -, -⟩ := hp.marker
    obtain ⟨t, rfl⟩ := marker_isPrefix_of_mem_rowLines hp.delimiters hline hp.endsTight_marker
    simp [hmarker]
  · exact hp.closer_line line (by simpa using h)

/-- The lines of a block are single lines, are not empty and end tight, behind any indentation. -/
theorem isLine_of_mem_indented (hp : p.Framed d) (hplain : options.asSnippet = false)
    (hlegible : ∀ row ∈ b.rows, row.Legible p) {indent : Text} (hindent : OneLine indent) :
    ∀ l ∈ (b.format p options).map (indent ++ ·), l ≠ [] ∧ EndsTight l ∧ OneLine l := by
  intro l hl
  obtain ⟨line, hline, rfl⟩ := List.mem_map.mp hl
  obtain ⟨hne, hend, hone⟩ := isLine_of_mem_format hp hplain hlegible hline
  exact ⟨by simp [hne], (endsTight_append hne).mpr hend, oneLine_append hindent hone⟩

/-- The lines of a comment are split where they were joined, also when they are indented. -/
theorem lines_unlines_format (hp : p.Framed d) (hplain : options.asSnippet = false)
    (hlegible : ∀ row ∈ b.rows, row.Legible p) {indent : Text} (hindent : OneLine indent) :
    lines (unlines ((b.format p options).map (indent ++ ·))) =
      (b.format p options).map (indent ++ ·) := by
  have hne : (b.format p options).map (indent ++ ·) ≠ [] := by
    rw [format_eq_rowLines hp.delimiters hp.opener_delimiter hp.closer_delimiter]
    simp
  have hrejoins := rejoins_of_endsTight hne
    (isLine_of_mem_indented hp hplain hlegible hindent) false
  simpa [lineFeed] using hrejoins.lines_unlines

/-- **A comment is read back row by row.** -/
theorem exists_logicalLines_format (hp : p.Framed d) (hplain : options.asSnippet = false)
    (hlegible : ∀ row ∈ b.rows, row.Legible p)
    (hclear : ∀ row ∈ b.rows, ClearLines p d options b.rows row)
    (hset : SetOff [] (separate options.emptyLines b.rows))
    (hsentence : WholeSentence p d options b.rows) {indent : Text} (hindent : Blanks indent)
    (hone : OneLine indent) :
    ∃ soFar, Gathers p ((separate options.emptyLines b.rows).map (shownRow p d options b.rows))
        soFar ∧
      logicalLines p (contents d (unlines ((b.format p options).map (indent ++ ·)))) =
        (dropBlank soFar).reverse := by
  have hcontent : ([] ++ separate options.emptyLines b.rows).filter (fun r => !r.isBlank) =
      b.rows.filter fun r => !r.isBlank := filter_separate rfl b.rows
  have hrows : ∀ row ∈ separate options.emptyLines b.rows,
      row.Legible p ∧ ClearLines p d options b.rows row := by
    intro row hrow
    rcases mem_separate hrow with hmem | rfl
    · exact ⟨hlegible row hmem, hclear row hmem⟩
    · exact ⟨trivial, clearLines_blank hp⟩
  have hgathers := gathers_rowLines hp hplain hsentence hcontent
    (fun row hrow => (hrows row hrow).1) (fun row hrow => (hrows row hrow).2) hset .nil
  refine ⟨_, hgathers, ?_⟩
  have hlines := lines_unlines_format hp hplain hlegible hone
  have hformat : (b.format p options).map (indent ++ ·) = (indent ++ d.opener) ::
      ((separate options.emptyLines b.rows).flatMap (rowLines p d options b.rows) ++
        d.closer.toList).map (indent ++ ·) := by
    rw [format_eq_rowLines hp.delimiters hp.opener_delimiter hp.closer_delimiter]
    rfl
  have hmap : ∀ ls : List Text, (ls.map (indent ++ ·)).map (lineContent d false) =
      ls.map (lineContent d false) := by
    intro ls
    rw [List.map_map]
    exact List.map_congr_left fun l _ => lineContent_indent false hindent l
  have hend : d.closer.toList.map (lineContent d false) = d.closer.toList.map fun _ => [] := by
    apply List.map_congr_left
    intro closer hcloser
    exact hp.closer_content closer (by simpa using hcloser)
  unfold contents
  rw [hlines, hformat]
  simp only
  rw [lineContent_indent true hindent, hp.opener_content, hmap, List.map_append, List.map_flatMap,
    hend, logicalLines_eq, List.foldl_cons, List.foldl_append]
  have hstart : addLine p [] [] = [] := rfl
  rw [hstart]
  cases d.closer with
  | none => rfl
  | some closer =>
    rw [Option.toList_some, List.map_singleton, List.foldl_cons, List.foldl_nil, addLine_nil,
      dropBlank_addLogical_blank]

end Comment

end DocComment
