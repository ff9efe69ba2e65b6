import DocComment.Proofs.Reading.Blocks
import Mathlib.Data.List.Infix

/-!
# Canonical blocks

A **canonical** block has words with single spaces between them wherever it has prose, and fills
just the columns that its tags have.  Such a block is legible, re-flowing does not change it, and its
lines are read back as its rows (`roundTrips_of_canonical`).
-/

namespace DocComment

open Text TagLine Reading Table

/-! ## Definitions -/

/-- Words joined by single spaces, none of which starts like a tag. -/
def IsProse (p : Profile) (t : Text) : Prop :=
  t ≠ [] ∧ unwords (words t) = t ∧ ∀ w ∈ words t, w.head?.any p.isIntroducer = false

/-- A type that can be told from what follows it: balanced between brackets, else a single word. -/
def IsTypeText (p : Profile) (t : Text) : Prop :=
  OneLine t ∧ (∀ b ∈ p.typeBrackets?, Balanced b.1 b.2 t) ∧ (p.typeBrackets? = none → IsWord t)

/-- The fields of a structured row whose tag has these columns. -/
structure CanonicalColumns (p : Profile) (columns : Columns)
    (type name description : Option Field) : Prop where
  typed : type.isSome = columns.type
  named : name.isSome = columns.name
  type_text : ∀ f ∈ type, IsTypeText p f.plain
  name_word : ∀ f ∈ name, IsWord f.plain ∧ f.plain ≠ ['-']
  description_prose : ∀ f ∈ description, IsProse p f.plain
  description_dash : ∀ f ∈ description, (words f.plain).head? ≠ some ['-']

/-- A row in the form in which reading leaves it. -/
def Row.Canonical (p : Profile) : Row → Prop
  | .text f => IsProse p f.plain
  | .blank => True
  | .tag t v => IsTag p t ∧ p.columns? t = none ∧ ∀ f ∈ v, IsProse p f.plain
  | .entry t type name description => IsWord t ∧ t.head?.any p.isIntroducer = true ∧
      ∃ columns ∈ p.columns? t, CanonicalColumns p columns type name description

/-- The comment of a block is read back with the same content. -/
def Block.RoundTrips (p : Profile) (options : LayoutOptions) (b : Block) : Prop :=
  ∃ b' ∈ block? p (unlines (b.format p options)), b'.content = b.toPlain.content

instance (opener closer : Char) (t : Text) : Decidable (Balanced opener closer t) :=
  decidable_of_iff
    ((∀ u ∈ t.inits, u.count closer ≤ u.count opener) ∧ t.count closer = t.count opener)
    (by simp only [TagLine.Balanced, List.mem_inits])

instance (p : Profile) (t : Text) : Decidable (IsProse p t) :=
  inferInstanceAs (Decidable (_ ∧ _ ∧ _))

instance (p : Profile) (t : Text) : Decidable (IsTypeText p t) :=
  inferInstanceAs (Decidable (_ ∧ _ ∧ (_ → _)))

instance (p : Profile) (t : Text) : Decidable (IsTag p t) :=
  decidable_of_iff (IsWord t ∧ t.head?.any p.isIntroducer = true ∧ 1 < t.length)
    ⟨fun ⟨h₁, h₂, h₃⟩ => ⟨h₁, h₂, h₃⟩, fun h => ⟨h.1, h.2, h.3⟩⟩

instance (p : Profile) (columns : Columns) (type name description : Option Field) :
    Decidable (CanonicalColumns p columns type name description) :=
  decidable_of_iff
    (type.isSome = columns.type ∧ name.isSome = columns.name ∧ (∀ f ∈ type, IsTypeText p f.plain) ∧
      (∀ f ∈ name, IsWord f.plain ∧ f.plain ≠ ['-']) ∧ (∀ f ∈ description, IsProse p f.plain) ∧
      ∀ f ∈ description, (words f.plain).head? ≠ some ['-'])
    ⟨fun ⟨h₁, h₂, h₃, h₄, h₅, h₆⟩ => ⟨h₁, h₂, h₃, h₄, h₅, h₆⟩,
      fun h => ⟨h.1, h.2, h.3, h.4, h.5, h.6⟩⟩

instance (p : Profile) : (row : Row) → Decidable (row.Canonical p)
  | .text _ => inferInstanceAs (Decidable (IsProse ..))
  | .blank => inferInstanceAs (Decidable True)
  | .tag .. => inferInstanceAs (Decidable (_ ∧ _ ∧ _))
  | .entry .. => inferInstanceAs (Decidable (_ ∧ _ ∧ _))

instance (p : Profile) (options : LayoutOptions) (b : Block) :
    Decidable (b.RoundTrips p options) :=
  inferInstanceAs (Decidable (∃ b' ∈ _, _))

/-! ## Prose -/

section Prose

variable {p : Profile} {t : Text}

/-- Prose has a word. -/
theorem IsProse.words_ne_nil (h : IsProse p t) : words t ≠ [] := by
  intro hnil
  have ht := h.2.1
  rw [hnil, unwords_nil] at ht
  exact h.1 ht.symm

/-- Prose is a line. -/
theorem IsProse.isLine (h : IsProse p t) : IsLine t := by
  rw [← h.2.1]
  exact isLine_unwords h.words_ne_nil (isWord_words t)

/-- A line that does not start with an introducer does not start with a tag. -/
theorem ofText?_eq_none_of_head (h : t.head?.any p.isIntroducer = false) : ofText? p t = none := by
  rw [← Option.not_isSome_iff_eq_none, isSome_ofText?_iff, h]
  simp

/-- Joined words start with the first character of the first. -/
theorem head?_unwords_cons {w : Text} {ws : List Text} (hw : w ≠ []) :
    (unwords (w :: ws)).head? = w.head? := by
  by_cases hws : ws = []
  · rw [hws, unwords_singleton]
  · rw [unwords_cons hws, List.head?_append_of_ne_nil _ hw]

/-- No words of prose start a tag line. -/
theorem IsProse.ofText?_unwords (h : IsProse p t) {ws : List Text} (hne : ws ≠ [])
    (hws : ∀ w ∈ ws, w ∈ words t) : ofText? p (unwords ws) = none := by
  obtain ⟨w, ws, rfl⟩ := List.exists_cons_of_ne_nil hne
  have hw := hws w List.mem_cons_self
  apply ofText?_eq_none_of_head
  rw [head?_unwords_cons (isWord_of_mem_words hw).1]
  exact h.2.2 w hw

/-- No line of prose starts with a tag. -/
theorem IsProse.ofText?_eq_none (h : IsProse p t) : ofText? p t = none := by
  have hnone := h.ofText?_unwords h.words_ne_nil fun _ hw => hw
  rwa [h.2.1] at hnone

end Prose

/-! ## Canonical rows are legible -/

section Legible

variable {p : Profile} {d : Delimiters} {columns : Columns} {type name description : Option Field}

/-- A type that can be told from what follows it can stand in a line. -/
theorem IsTypeText.isLine_formatType (hp : p.Framed d) {t : Text} (h : IsTypeText p t) :
    IsLine (p.formatType t) := by
  obtain ⟨hone, -, hword⟩ := h
  cases hb : p.typeBrackets? with
  | none =>
    have ht := hword hb
    rw [formatType_of_unbracketed hb]
    exact ⟨ht.1, ht.startsTight, ht.endsTight, hone⟩
  | some brackets =>
    obtain ⟨o, c⟩ := brackets
    obtain ⟨ho, hc, -, -, -, hoLine, hcLine⟩ := hp.brackets o c hb
    rw [formatType_of_bracketed hb]
    refine ⟨by simp, startsTight_cons.mpr ho, endsTight_concat.mpr hc, ?_⟩
    simp only [OneLine, List.cons_append, List.mem_cons, List.mem_append, List.not_mem_nil, or_false,
      not_or]
    exact ⟨Ne.symm hoLine, hone, Ne.symm hcLine⟩

/-- A type is cut off what follows it. -/
theorem IsTypeText.takeType_append (hp : p.Framed d) {t s rest : Text} (h : IsTypeText p t)
    (hs : Blanks s) (hgap : rest ≠ [] → s ≠ []) (hrest : StartsTight rest) :
    takeType p (p.formatType t ++ s ++ rest) = (some t, rest) := by
  obtain ⟨-, hbalanced, hword⟩ := h
  cases hb : p.typeBrackets? with
  | none => exact takeType_word_append hb (hword hb) hs hgap hrest
  | some brackets =>
    obtain ⟨o, c⟩ := brackets
    obtain ⟨-, -, hne, -⟩ := hp.brackets o c hb
    have ht : Balanced o c t := hbalanced _ hb
    exact takeType_formatType_append hb (fun tail => ht.balanced?_append hne tail) hs hrest

/-- The name of a canonical row is a word, and not a dash. -/
theorem CanonicalColumns.isWord_name (h : CanonicalColumns p columns type name description) :
    ∀ n ∈ name.map Field.plain, IsWord n ∧ n ≠ ['-'] := by
  intro n hn
  obtain ⟨f, hf, rfl⟩ := Option.map_eq_some_iff.mp hn
  exact h.name_word f hf

/-- The type of a canonical row can be told from what follows it. -/
theorem CanonicalColumns.isTypeText (h : CanonicalColumns p columns type name description) :
    ∀ t ∈ type.map Field.plain, IsTypeText p t := by
  intro t ht
  obtain ⟨f, hf, rfl⟩ := Option.map_eq_some_iff.mp ht
  exact h.type_text f hf

/-- The columns of a canonical row are recovered, whatever description with the same words they
stand before. -/
theorem CanonicalColumns.recovers (hp : p.Framed d)
    (h : CanonicalColumns p columns type name description) {t : Text} (ht : StartsTight t)
    (hwords : words t = words ((description.map Field.plain).getD [])) :
    Recovers p columns (type.map Field.plain) (name.map Field.plain)
      (dashed (p.dash columns) t) t := by
  have htypes := h.isTypeText
  have hnames := h.isWord_name
  have htyped : (type.map Field.plain).isSome = columns.type := by simpa using h.typed
  have hnamed : (name.map Field.plain).isSome = columns.name := by simpa using h.named
  have hdashed := startsTight_dashed hp columns ht
  have hdash : (words t).head? ≠ some ['-'] := by
    rw [hwords]
    cases description with
    | none => simp
    | some f => exact h.description_dash f rfl
  generalize type.map Field.plain = type at htypes htyped ⊢
  generalize name.map Field.plain = name at hnames hnamed ⊢
  intro s₁ s₂ hgaps
  have hrest : StartsTight (nameRest name s₂ (dashed (p.dash columns) t)) :=
    startsTight_nameRest (fun n hn => (hnames n hn).1) hdashed
  refine ⟨?_, ?_, dropDash_dashed hp columns ht fun _ => hdash⟩
  · cases type with
    | none => rw [← htyped]; rfl
    | some u =>
      rw [← htyped]
      exact (htypes u rfl).takeType_append hp hgaps.blanks₁ (hgaps.after_type rfl) hrest
  · cases name with
    | none => rw [← hnamed]; rfl
    | some n =>
      obtain ⟨hn, hne⟩ := hnames n rfl
      rw [← hnamed]
      exact takeName_word_append hn hgaps.blanks₂ (hgaps.after_name rfl) hgaps.at_end hdashed
        fun h => absurd h hne

/-- The columns of a canonical row can be told apart. -/
theorem CanonicalColumns.legible (hp : p.Framed d)
    (h : CanonicalColumns p columns type name description) :
    LegibleColumns p columns type name description where
  typed hsome := h.typed ▸ hsome
  named hsome := h.named ▸ hsome
  type_line f hf := (h.type_text f hf).isLine_formatType hp
  name_word f hf := (h.name_word f hf).1
  description_line f hf := (h.description_prose f hf).isLine
  recovers _ ht _ hwords := h.recovers hp ht hwords

/-- A canonical row can be read back from its lines. -/
theorem Row.Canonical.legible (hp : p.Framed d) {row : Row} (h : row.Canonical p) :
    row.Legible p := by
  cases row with
  | text f => exact ⟨IsProse.isLine h, IsProse.ofText?_eq_none h⟩
  | blank => trivial
  | tag t v => exact ⟨h.1, h.2.1, fun f hf => (h.2.2 f hf).isLine⟩
  | entry t type name description =>
    obtain ⟨hword, hintroduced, columns, hcolumns, hfields⟩ := h
    exact ⟨⟨hword, hintroduced, hp.long_of_columns? hcolumns⟩, columns, hcolumns,
      hfields.legible hp⟩

end Legible

/-! ## Re-flowing leaves canonical rows as they are -/

section Shown

variable {p : Profile} {d : Delimiters} {options : LayoutOptions} {rows : List Row} {row : Row}

/-- The value of a canonical row is prose, if there is one. -/
theorem Row.Canonical.isProse_value (h : row.Canonical p) (hne : row.value ≠ []) :
    IsProse p row.value := by
  cases row with
  | text f => exact h
  | blank => exact absurd rfl hne
  | tag t v =>
    cases v with
    | none => exact absurd rfl hne
    | some f => exact h.2.2 f rfl
  | entry t type name description =>
    obtain ⟨-, -, columns, -, hfields⟩ := h
    cases description with
    | none => exact absurd rfl hne
    | some f => exact hfields.description_prose f rfl

/-- A row given its own value is the row without placeholders. -/
theorem withValue_value (row : Row) : row.withValue row.value = row.toPlain := by
  cases row with
  | text f => rfl
  | blank => rfl
  | tag t v => cases v <;> rfl
  | entry t type name description => cases description <;> rfl

/-- A canonical row is shown as it is, since its words are already apart by single spaces. -/
theorem shownRow_of_canonical (h : row.Canonical p) :
    shownRow p d options rows row = row.toPlain := by
  rw [← withValue_value, shownRow]
  congr 1
  by_cases hne : row.value = []
  · rw [shownValue_of_nil hne, hne]
  · unfold shownValue
    split
    · rfl
    · exact (h.isProse_value hne).2.1

/-- The further lines of a canonical row hold words of prose, so none of them starts a tag. -/
theorem clearLines_of_canonical (hp : p.Framed d) (hplain : options.asSnippet = false)
    (h : row.Canonical p) (hopen : Unclosed p d options rows row) :
    ClearLines p d options rows row := by
  have hlegible := h.legible hp
  refine ⟨hopen, ?_⟩
  intro line hline
  by_cases hvalue : row.value = []
  · obtain ⟨single, hrows, -⟩ := hlegible.exists_rowLines_of_no_value hp hplain hvalue
    rw [hrows] at hline
    cases hline
  · have hprose := h.isProse_value hvalue
    obtain ⟨lead, hled⟩ := hlegible.exists_led rows hp hplain hvalue
    obtain ⟨v, more, hspread⟩ := hled.exists_spread hp hplain hprose.isLine
    have hmem : lineContent d false line ∈ more.map unwords := by
      have htail := List.mem_map_of_mem (f := lineContent d false) hline
      rwa [List.map_tail, hspread.contents_eq hp hled hopen, List.tail_cons] at htail
    obtain ⟨ws, hws, hcontent⟩ := List.mem_map.mp hmem
    rw [← hcontent]
    apply hprose.ofText?_unwords (hspread.more_ne_nil ws hws)
    intro w hw
    rw [← hspread.words_eq]
    exact List.mem_append_right _ (List.mem_flatten.mpr ⟨ws, hws, hw⟩)

end Shown

/-! ## The round trip -/

section RoundTrip

variable {p : Profile} {d : Delimiters} {options : LayoutOptions} {b : Block}

/-- Only empty lines are dropped at the end. -/
theorem filter_dropBlank (p : Profile) (soFar : List Logical) :
    ((dropBlank soFar).reverse.map (rowOf p)).filter (fun r => !r.isBlank) =
      (soFar.reverse.map (rowOf p)).filter fun r => !r.isBlank := by
  rcases soFar with _ | ⟨l, soFar⟩
  · rfl
  · cases l with
    | blank => simp [dropBlank, rowOf, Row.isBlank]
    | text t => rfl
    | tag t => rfl

/-- The content of a plain block is the plain content. -/
theorem content_toPlain (b : Block) : b.toPlain.content = b.content.map Row.toPlain := by
  have hblank : (fun r : Row => !r.isBlank) ∘ Row.toPlain = fun r => !r.isBlank := by
    funext row
    cases row <;> rfl
  rw [Block.content, Block.toPlain, List.filter_map, hblank]
  rfl

/-- **Reading undoes the layout of a canonical block.**  Free text must be set off from what comes
before it, no line but the closing one may end in the closer, and a first sentence must stay on one
line. -/
theorem roundTrips_of_canonical {language : Language} {config : Config}
    (hd : (Profile.of language config).delimiters? = some d) (hplain : options.asSnippet = false)
    (hcanonical : ∀ row ∈ b.rows, row.Canonical (Profile.of language config))
    (hcontent : b.content ≠ [])
    (hset : SetOff [] (separate options.emptyLines b.rows))
    (hopen : ∀ row ∈ b.rows, Unclosed (Profile.of language config) d options b.rows row)
    (hsentence : WholeSentence (Profile.of language config) d options b.rows) :
    b.RoundTrips (Profile.of language config) options := by
  have hp := Profile.framed_of hd
  generalize Profile.of language config = p at *
  obtain ⟨soFar, hgathers, hlogical⟩ := exists_logicalLines_format hp hplain
    (fun row hrow => (hcanonical row hrow).legible hp)
    (fun row hrow => clearLines_of_canonical hp hplain (hcanonical row hrow) (hopen row hrow))
    hset hsentence blanks_nil List.not_mem_nil
  rw [List.map_congr_left (fun l _ => List.nil_append l), List.map_id'] at hlogical
  have hshown : ((dropBlank soFar).reverse.map (rowOf p)).filter (fun r => !r.isBlank) =
      b.toPlain.content := by
    calc ((dropBlank soFar).reverse.map (rowOf p)).filter (fun r => !r.isBlank)
        = (soFar.reverse.map (rowOf p)).filter fun r => !r.isBlank := filter_dropBlank p soFar
      _ = ((separate options.emptyLines b.rows).map (shownRow p d options b.rows)).filter
            fun r => !r.isBlank := hgathers.content_eq
      _ = b.content.map (shownRow p d options b.rows) := by
          rw [filter_map_shownRow, filter_separate rfl, Block.content]
      _ = b.content.map Row.toPlain := List.map_congr_left fun row hrow =>
          shownRow_of_canonical (hcanonical row (List.mem_of_mem_filter hrow))
      _ = b.toPlain.content := (content_toPlain b).symm
  refine ⟨⟨(dropBlank soFar).reverse.map (rowOf p)⟩, ?_, hshown⟩
  have hne : (dropBlank soFar).reverse.map (rowOf p) ≠ [] := by
    intro hnil
    rw [hnil, List.filter_nil, content_toPlain] at hshown
    exact hcontent (List.map_eq_nil_iff.mp hshown.symm)
  unfold block?
  rw [hd, Option.bind_some, hlogical]
  generalize (dropBlank soFar).reverse.map (rowOf p) = rows at hne ⊢
  cases rows with
  | nil => exact absurd rfl hne
  | cons row rows => rfl

end RoundTrip

/-- Two sentences and two structured rows, of which the first has a type with brackets inside. -/
def sumBlock : Block where
  rows :=
    [.text (.text "Sums up."), .text (.text "Takes the values one after another"),
      .entry "@param" (some (.text "\x7ba: b\x7d | c")) (some (.text "values"))
        (some (.text "what to add up, in order")),
      .entry "@returns" (some (.text "number")) none (some (.text "the sum"))]

theorem roundTrips_of_sumBlock :
    (∀ row ∈ sumBlock.rows, row.Canonical (Profile.of .javascript {})) ∧
      sumBlock.RoundTrips (Profile.of .javascript {}) { align := 2, width := some 24 } := by
  have hcanonical : ∀ row ∈ sumBlock.rows, row.Canonical (Profile.of .javascript {}) := by
    decide +kernel
  have hset : SetOff [] (separate .none sumBlock.rows) :=
    ⟨fun _ _ => Or.inl rfl, fun _ _ => Or.inr (Or.inr ⟨_, rfl, rfl⟩), nofun, nofun, trivial⟩
  have hopen : ∀ row ∈ sumBlock.rows, Unclosed (Profile.of .javascript {}) .javadoc
      { align := 2, width := some 24 } sumBlock.rows row := by
    unfold Unclosed
    decide +kernel
  have hsentence : WholeSentence (Profile.of .javascript {}) .javadoc
      { align := 2, width := some 24 } sumBlock.rows := by
    intro f hf
    obtain rfl : Field.text "Sums up." = f := by simpa [sumBlock, Row.isBlank] using hf
    decide +kernel
  exact ⟨hcanonical, roundTrips_of_canonical rfl rfl hcanonical (by decide) hset hopen hsentence⟩

/-- Free text right after free text. -/
def runOnBlock : Block where
  rows := [.text (.text "Sums."), .text (.text "Adds numbers"), .text (.text "one by one")]

/-- A line that ends in the closer. -/
def starSlashBlock : Block where
  rows := [.text (.text "matches src/*/"), .tag "@since" (some (.text "2"))]

/-- Two sentences in a single row. -/
def twoSentencesBlock : Block where
  rows := [.text (.text "Adds. Never fails")]

/-- A type of two words, which has no brackets around it in PHP. -/
def wordyTypeBlock : Block where
  rows := [.entry "@param" (some (.text "int string")) (some (.text "$a")) (some (.text "the sum"))]

/-- Being canonical is not enough.  Text goes on the line before it, a closer is taken off wherever a
line ends in it, a broken first sentence becomes two rows, and a type without brackets ends at a
blank. -/
theorem not_roundTrips_of_canonical :
    ((∀ row ∈ runOnBlock.rows, row.Canonical (Profile.of .javascript {})) ∧
      ¬ runOnBlock.RoundTrips (Profile.of .javascript {}) {}) ∧
    ((∀ row ∈ starSlashBlock.rows, row.Canonical (Profile.of .javascript {})) ∧
      ¬ starSlashBlock.RoundTrips (Profile.of .javascript {}) {}) ∧
    ((∀ row ∈ twoSentencesBlock.rows, row.Canonical (Profile.of .javascript {})) ∧
      ¬ twoSentencesBlock.RoundTrips (Profile.of .javascript {}) { width := some 12 }) ∧
    ((Profile.of .php {}).typeBrackets? = none ∧
      ¬ wordyTypeBlock.RoundTrips (Profile.of .php {}) {}) := by
  decide +kernel

end DocComment
