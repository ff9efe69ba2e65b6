import DocComment.Document
import DocComment.Proofs.Grammar.Types
import DocComment.Proofs.Reading.Canonical
import DocComment.Proofs.Reading.Heredity
import DocComment.Proofs.Reading.Stable
import DocComment.Proofs.Synthesis.Rows

/-!
# Reading a generated comment

A grammar that cannot take an argument apart makes the whole of it the name, and then nobody can
tell where the name ends.  A row is **separable** if its name is a single word, its type is balanced
and its value does not end like a comment.  The proof has two halves that meet at legible rows: what
the grammars read off a declaration makes separable rows legible, and a block of legible rows is
read back (`roundTrips_of_document`).
-/

namespace DocComment

open Text TagLine Reading Table

/-! ## Definitions -/

/-- The columns of a row that documents a declaration can be told apart. -/
def Row.Separable (p : Profile) (d : Delimiters) : Row → Prop
  | .text _ => True
  | .blank => True
  | .tag _ value => ∀ f ∈ value, ∀ closer ∈ d.closer, ¬ trim closer <:+ f.plain
  | .entry t type name _ =>
    (t = p.tags.param → ∀ f ∈ type, ∀ b ∈ p.typeBrackets?, Balanced b.1 b.2 f.plain) ∧
      ∀ f ∈ name, IsWord f.plain ∧ f.plain ≠ ['-']

instance (p : Profile) (d : Delimiters) : (row : Row) → Decidable (row.Separable p d)
  | .text _ => inferInstanceAs (Decidable True)
  | .blank => inferInstanceAs (Decidable True)
  | .tag _ value =>
    inferInstanceAs (Decidable (∀ f ∈ value, ∀ closer ∈ d.closer, ¬ trim closer <:+ f.plain))
  | .entry t type name _ =>
    inferInstanceAs (Decidable ((t = p.tags.param → ∀ f ∈ type, ∀ b ∈ p.typeBrackets?,
      Balanced b.1 b.2 f.plain) ∧ ∀ f ∈ name, IsWord f.plain ∧ f.plain ≠ ['-']))

/-- The tags of a dialect, with the columns that synthesized rows fill. -/
structure Profile.Tabular (p : Profile) : Prop where
  prose : ∀ t ∈ [p.tags.summary, "description", "parent"], IsProse p t ∧ '/' ∉ t
  param : IsTag p p.tags.param ∧ p.columns? p.tags.param = some ⟨p.hasTypeColumn, true⟩
  throws : IsTag p p.tags.throws ∧
    p.columns? p.tags.throws = some ⟨p.hasTypeColumn, !p.hasTypeColumn⟩
  /-- Tags with a type and no name. -/
  nameless : ∀ t ∈ p.tags.result :: (p.tags.binding.toList ++ p.tags.yields.toList),
    IsTag p t ∧ p.columns? t = some ⟨p.hasTypeColumn, false⟩ ∧ '/' ∉ t
  /-- Tags with a free value. -/
  free : ∀ t ∈ p.tags.member.toList ++ p.tags.parents.toList, IsTag p t ∧ p.columns? t = none

namespace Profile

namespace Tabular

variable {p : Profile} (h : p.Tabular) {t : Text}

include h

/-- The tag of a parent is a free one. -/
theorem of_mem_parents (ht : t ∈ p.tags.parents) : IsTag p t ∧ p.columns? t = none :=
  h.free t (List.mem_append_right _ (Option.mem_toList.mpr ht))

/-- The tag of a class member is a free one. -/
theorem of_mem_member (ht : t ∈ p.tags.member) : IsTag p t ∧ p.columns? t = none :=
  h.free t (List.mem_append_left _ (Option.mem_toList.mpr ht))

/-- The tag of a binding has a type column, but no name column. -/
theorem of_mem_binding (ht : t ∈ p.tags.binding) :
    IsTag p t ∧ p.columns? t = some ⟨p.hasTypeColumn, false⟩ ∧ '/' ∉ t :=
  h.nameless t (List.mem_cons_of_mem _ (List.mem_append_left _ (Option.mem_toList.mpr ht)))

end Tabular

/-- Whether a dialect is tabular depends on its tags, its introducers and its type column. -/
theorem Tabular.congr {p q : Profile} (h : p.Tabular) (hcolumn : q.typeColumn = p.typeColumn)
    (htags : q.tags = p.tags) (hintroducers : q.introducers = p.introducers) : q.Tabular := by
  have hintroducer : q.isIntroducer = p.isIntroducer := by
    funext c
    rw [isIntroducer, isIntroducer, hintroducers]
  have hhas : q.hasTypeColumn = p.hasTypeColumn := by rw [hasTypeColumn, hasTypeColumn, hcolumn]
  have hcolumns : q.columns? = p.columns? := by
    funext t
    simp only [columns?, hintroducer, hhas, htags]
  have htag : ∀ t, IsTag p t → IsTag q t :=
    fun t ht => ⟨ht.word, hintroducer ▸ ht.introduced, ht.long⟩
  have hprose : ∀ t, IsProse p t → IsProse q t :=
    fun t ht => ⟨ht.1, ht.2.1, hintroducer ▸ ht.2.2⟩
  constructor <;> simp only [htags, hcolumns, hhas]
  · exact fun t ht => (h.prose t ht).imp_left (hprose t)
  · exact h.param.imp_left (htag _)
  · exact h.throws.imp_left (htag _)
  · exact fun t ht => (h.nameless t ht).imp_left (htag t)
  · exact fun t ht => (h.free t ht).imp_left (htag t)

/-- The tags of every language are tabular. -/
theorem tabular_of (language : Language) (config : Config) : (of language config).Tabular := by
  cases language with
  | ruby =>
    cases hruby : config.rubyStyle with
    | rdoc =>
      have h : (of .ruby { rubyStyle := .rdoc }).Tabular := by constructor <;> decide
      refine h.congr ?_ ?_ ?_ <;> simp only [of, hruby]
    | yard =>
      have h : (of .ruby { rubyStyle := .yard }).Tabular := by constructor <;> decide
      refine h.congr ?_ ?_ ?_ <;> simp only [of, hruby]
  | rust =>
    have h : (of .rust {}).Tabular := by constructor <;> decide
    exact h.congr rfl rfl rfl
  | swift =>
    have h : (of .swift {}).Tabular := by constructor <;> decide
    exact h.congr rfl rfl rfl
  | javascript =>
    have h : (of .javascript {}).Tabular := by constructor <;> decide
    exact h.congr rfl rfl rfl
  | typescript =>
    have h : (of .typescript {}).Tabular := by constructor <;> decide
    exact h.congr rfl rfl rfl
  | php =>
    have h : (of .php {}).Tabular := by constructor <;> decide
    exact h.congr rfl rfl rfl
  | java =>
    have h : (of .java {}).Tabular := by constructor <;> decide
    exact h.congr rfl rfl rfl
  | cpp =>
    have h : (of .cpp {}).Tabular := by constructor <;> decide
    exact h.congr rfl rfl rfl
  | objc =>
    have h : (of .objc {}).Tabular := by constructor <;> decide
    exact h.congr rfl rfl rfl

end Profile

/-! ## Rows that are read back -/

/-- What it takes to read a row back from its line: the row is legible, and either its value does
not end in the closer or there is no slash in the row at all. -/
structure Row.ReadsBack (p : Profile) (d : Delimiters) (row : Row) : Prop where
  legible : row.Legible p
  open_end : (row.value ≠ [] ∧ ∀ closer ∈ d.closer, ¬ trim closer <:+ row.value) ∨
    row.Holds p ('/' ∉ ·)

section ReadsBack

variable {p : Profile} {d : Delimiters} {options : LayoutOptions} {rows : List Row} {row : Row}

/-- A space stands before the value of every row. -/
theorem exists_rowLead_eq (hp : p.Framed d) (options : LayoutOptions) (widths : List Nat)
    (row : Row) : ∃ u, rowLead p options widths row = u ++ [' '] := by
  have hseparator : ∃ u, separatorOf p options row = u ++ [' '] := by
    unfold separatorOf
    split
    · split
      · rcases hp.separator with h | h <;> rw [h]
        · exact ⟨[], rfl⟩
        · exact ⟨[' ', '-'], rfl⟩
      · exact ⟨[], rfl⟩
    · exact ⟨[], rfl⟩
  obtain ⟨u, hu⟩ := hseparator
  exact ⟨columnsText p options widths row ++ u, by rw [rowLead, hu, List.append_assoc]⟩

/-- No line of a row that is read back ends in the closer. -/
theorem Row.ReadsBack.unclosed (hp : p.Framed d) (hmarker : '/' ∉ d.marker)
    (hcloser : ∀ closer ∈ d.closer, closer = " */".toList) (hplain : options.asSnippet = false)
    (hwidth : options.width = none) (h : row.ReadsBack p d) : Unclosed p d options rows row := by
  intro line hline closer hmem hsuffix
  have htrim : trim closer = "*/".toList := by rw [hcloser closer hmem]; decide
  rcases h.open_end with ⟨hne, hvalue⟩ | hholds
  · obtain ⟨u, hu⟩ := exists_rowLead_eq hp options (columnWidths p rows) row
    have hrow : line = d.marker ++ u ++ ' ' :: row.value := by
      rw [rowLines, hwidth] at hline
      rw [List.mem_singleton.mp hline, rowLine_of_value hplain _ hne
        (h.legible.isLine_value hne).endsTight, hu]
      simp
    apply hvalue closer hmem
    rw [htrim] at hsuffix ⊢
    exact isSuffix_of_isSuffix_append (by decide) (hrow ▸ hsuffix)
  · have hslash : '/' ∉ line :=
      ((hereditary_not_mem (by decide)).of_mem_rowLines (by decide) hp hmarker hplain hholds hline).1
    rw [htrim] at hsuffix
    exact hslash (hsuffix.subset (by decide))

/-- Tagged rows need nothing to set them off. -/
theorem setOff_of_tagged (h : ∀ row ∈ rows, row.tag?.isSome = true) (before : List Row) :
    SetOff before rows := by
  induction rows generalizing before with
  | nil => trivial
  | cons row rows ih =>
    obtain ⟨hrow, hrows⟩ := List.forall_mem_cons.mp h
    refine ⟨?_, ih hrows _⟩
    rintro f rfl
    cases hrow

/-- **A block of such rows is read back**, free text first and tagged rows after it. -/
theorem Block.roundTrips_of_readsBack (hp : p.Framed d) (hmarker : '/' ∉ d.marker)
    (hcloser : ∀ closer ∈ d.closer, closer = " */".toList) (hplain : options.asSnippet = false)
    (hwidth : options.width = none) {b : Block} {f : Field} (hrows : b.rows = .text f :: rows)
    (htagged : ∀ row ∈ rows, row.tag?.isSome = true)
    (h : ∀ row ∈ b.rows, row.ReadsBack p d) : b.RoundTrips p options := by
  have hfits : ∀ line, Fits options line := by
    intro line width hmem
    rw [hwidth] at hmem
    cases hmem
  have hsingle : ∀ row, ∃ line, rowLines p d options b.rows row = [line] :=
    fun row => ⟨_, rowLines_of_fits (hfits _)⟩
  have hclear : ∀ row ∈ b.rows, ClearLines p d options b.rows row := by
    intro row hrow
    refine ⟨(h row hrow).unclosed hp hmarker hcloser hplain hwidth, ?_⟩
    obtain ⟨line, hline⟩ := hsingle row
    rw [hline]
    exact nofun
  have hwhole : WholeSentence p d options b.rows := by
    intro g _
    obtain ⟨line, hline⟩ := hsingle (.text g)
    rw [hline]
    exact nofun
  have hset : SetOff [] b.rows := by
    rw [hrows]
    exact ⟨fun _ _ => Or.inl rfl, setOff_of_tagged htagged _⟩
  have hsolid : ∀ row ∈ b.rows, row ≠ .blank := by
    rw [hrows]
    refine List.forall_mem_cons.mpr ⟨nofun, fun row hrow hblank => ?_⟩
    have hsome := htagged row hrow
    rw [hblank] at hsome
    cases hsome
  have hspaced : Spaced b.rows := by
    refine ⟨fun hhead => hsolid _ (List.mem_of_head? hhead) rfl, List.Pairwise.isChain ?_⟩
    exact List.pairwise_of_forall_mem_list fun r hr _ _ hblank => hsolid r hr hblank.1
  have hread := block?_format_of_spaced hp hplain (fun row hrow => (h row hrow).legible) hclear hset
    hspaced (by rw [hrows]; exact List.cons_ne_nil _ _)
    (fun hlast => hsolid _ (List.mem_of_getLast? hlast) rfl) hwhole blanks_nil List.not_mem_nil
  rw [List.map_congr_left (fun l _ => List.nil_append l), List.map_id'] at hread
  have hshown : ∀ row, shownRow p d options b.rows row = row.toPlain := by
    intro row
    rw [shownRow, shownValue, if_pos (hfits _), withValue_value]
  refine ⟨_, hread, ?_⟩
  rw [shownBlock, Block.content, filter_map_shownRow, filter_separate rfl, content_toPlain,
    Block.content]
  exact List.map_congr_left fun row _ => hshown row

end ReadsBack

/-! ## Synthesized rows -/

/-- A new stop shows its default. -/
theorem Field.plain_stop (t : Text) (n : Nat) : (Field.stop t n).1.plain = t := by
  change (Field.mk [.stop n t]).plain = t
  simp [Field.plain, Segment.plain]

/-- A plain type can be told from what follows it. -/
theorem IsPlainType.isTypeText {p : Profile} {t : Text} (h : IsPlainType p t) : IsTypeText p t := by
  refine ⟨oneLine_of_forall_not_blank h.isWord.2, fun b hb => ?_, fun _ => h.isWord⟩
  have hfree : ∀ c, c = b.1 ∨ c = b.2 → c ∉ t := by
    intro c hc hmem
    have hplain := h.2 c hmem
    rw [Option.mem_def] at hb
    simp only [Profile.isPlain, hb, Option.all_some, Bool.and_eq_true, bne_iff_ne] at hplain
    exact hc.elim hplain.2.1 hplain.2.2
  have hcount : ∀ u : Text, u ⊆ t → u.count b.2 = 0 ∧ u.count b.1 = 0 := fun u hu =>
    ⟨List.count_eq_zero.mpr fun hmem => hfree b.2 (Or.inr rfl) (hu hmem),
      List.count_eq_zero.mpr fun hmem => hfree b.1 (Or.inl rfl) (hu hmem)⟩
  refine ⟨fun u hu => ?_, ?_⟩
  · rw [(hcount u hu.subset).1]
    exact Nat.zero_le _
  · rw [(hcount t (List.Subset.refl t)).1, (hcount t (List.Subset.refl t)).2]

/-- A plain type has no slash, with or without its wrapper. -/
theorem Profile.slash_not_mem_formatType {language : Language} {config : Config} {t : Text}
    (h : IsPlainType (of language config) t) : '/' ∉ (of language config).formatType t := by
  have ht : '/' ∉ t := by
    intro hmem
    have hplain := h.2 _ hmem
    simp [isPlain] at hplain
  rcases formatType_of language config with h | h | h <;> rw [h]
  · exact ht
  · simpa using ht
  · simpa using ht

/-- What the proofs below use of a dialect. -/
structure Profile.Documents (p : Profile) (d : Delimiters) : Prop where
  framed : p.Framed d
  tabular : p.Tabular
  marker : '/' ∉ d.marker
  closer : ∀ closer ∈ d.closer, closer = " */".toList
  resolved : ∀ declared value name,
    (∃ t ∈ declared, TypeGuess.resolve declared value name p.numbers = trim t) ∨
      IsPlainType p (TypeGuess.resolve declared value name p.numbers)
  guessed : ∀ name, ∀ t ∈ TypeGuess.ofName name, IsPlainType p t
  bracketed : ∀ t, IsPlainType p t → '/' ∉ p.formatType t

/-- Every language that writes tables documents its declarations so. -/
theorem Profile.documents_of {language : Language} {config : Config} {d : Delimiters}
    (hd : (of language config).delimiters? = some d) : (of language config).Documents d where
  framed := framed_of hd
  tabular := tabular_of language config
  marker := by rcases delimiters_of hd with rfl | rfl | rfl <;> decide
  closer := (closer_of hd).2.2
  resolved declared value name := TypeGuess.resolve_cases language config declared value name _
  guessed := TypeGuess.isPlainType_ofName language config
  bracketed _ := slash_not_mem_formatType

section Documents

variable {p : Profile} {d : Delimiters} (hp : p.Documents d)

include hp

/-- A text without a slash does not end in the closer. -/
theorem Profile.Documents.not_isSuffix {t : Text} (h : '/' ∉ t) :
    ∀ closer ∈ d.closer, ¬ trim closer <:+ t := by
  intro closer hmem hsuffix
  have hslash : '/' ∈ trim closer := by rw [hp.closer closer hmem]; decide
  exact h (hsuffix.subset hslash)

/-- A type is plain if the declared one is; those that are guessed always are. -/
theorem Profile.Documents.isPlainType_resolve {declared : Option Text}
    (h : ∀ t ∈ declared, IsPlainType p t) (value : Option Text) (name : Text) :
    IsPlainType p (TypeGuess.resolve declared value name p.numbers) := by
  rcases hp.resolved declared value name with ⟨t, ht, hresolve⟩ | hplain
  · have hword := (h t ht).isWord
    rw [hresolve, trim_of_tight hword.startsTight hword.endsTight]
    exact h t ht
  · exact hplain

/-- A type is a word if the declared one is. -/
theorem Profile.Documents.isWord_resolve {declared : Option Text} (h : ∀ t ∈ declared, IsWord t)
    (value : Option Text) (name : Text) :
    IsWord (TypeGuess.resolve declared value name p.numbers) := by
  rcases hp.resolved declared value name with ⟨t, ht, hresolve⟩ | hplain
  · have hword := h t ht
    rwa [hresolve, trim_of_tight hword.startsTight hword.endsTight]
  · exact hplain.isWord

end Documents

namespace Synthesis

section Shapes

variable {p : Profile} {d : Delimiters} {columns : Columns} {t : Text} {type name : Option Field}

/-- A described row is read back. -/
theorem readsBack_described (hp : p.Documents d) (ht : IsTag p t ∧ p.columns? t = some columns)
    (htyped : type.isSome = columns.type) (hnamed : name.isSome = columns.name)
    (htype : ∀ f ∈ type, IsTypeText p f.plain)
    (hname : ∀ f ∈ name, IsWord f.plain ∧ f.plain ≠ ['-']) (n : Nat) :
    (Row.entry t type name (some (Field.stop "description" n).1)).ReadsBack p d := by
  obtain ⟨hprose, hslash⟩ := hp.tabular.prose "description" (by simp)
  have hplain : ∀ f ∈ some (Field.stop "description" n).1, f.plain = "description".toList := by
    rintro f ⟨⟩
    exact Field.plain_stop _ n
  have hcanonical : CanonicalColumns p columns type name (some (Field.stop "description" n).1) :=
    { typed := htyped
      named := hnamed
      type_text := htype
      name_word := hname
      description_prose := fun f hf => (hplain f hf).symm ▸ hprose
      description_dash := fun f hf => by rw [hplain f hf]; decide }
  refine ⟨⟨ht.1, columns, ht.2, hcanonical.legible hp.framed⟩, Or.inl ?_⟩
  have hvalue : (Row.entry t type name (some (Field.stop "description" n).1)).value =
      "description".toList := Field.plain_stop _ n
  rw [hvalue]
  exact ⟨by decide, hp.not_isSuffix hslash⟩

/-- A row of a tag and a type is read back. -/
theorem readsBack_undescribed (hp : p.Documents d)
    (ht : IsTag p t ∧ p.columns? t = some ⟨p.hasTypeColumn, false⟩ ∧ '/' ∉ t)
    (htyped : type.isSome = p.hasTypeColumn) (htype : ∀ f ∈ type, IsPlainType p f.plain) :
    (Row.entry t type none none).ReadsBack p d := by
  have hcanonical : CanonicalColumns p ⟨p.hasTypeColumn, false⟩ type none none :=
    ⟨htyped, rfl, fun f hf => (htype f hf).isTypeText, nofun, nofun, nofun⟩
  exact ⟨⟨ht.1, _, ht.2.1, hcanonical.legible hp.framed⟩,
    Or.inr ⟨ht.2.2, fun f hf => hp.bracketed _ (htype f hf), nofun, nofun⟩⟩

/-- A tag with a value is read back. -/
theorem readsBack_tag (ht : IsTag p t ∧ p.columns? t = none) {f : Field} (hline : IsLine f.plain)
    (hopen : ∀ closer ∈ d.closer, ¬ trim closer <:+ f.plain) :
    (Row.tag t (some f)).ReadsBack p d := by
  refine ⟨⟨ht.1, ht.2, ?_⟩, Or.inl ⟨hline.ne_nil, hopen⟩⟩
  rintro f ⟨⟩
  exact hline

/-- A stop that is made only if it is wanted shows its default. -/
theorem forall_mem_stopIf {P : Text → Prop} {wanted : Bool} {default : Text}
    (h : wanted = true → P default) (n : Nat) :
    ∀ f ∈ (Field.stopIf wanted default n).1, P f.plain := by
  intro f hf
  cases wanted with
  | true =>
    obtain rfl : (Field.stop default n).1 = f := Option.some.inj hf
    rw [Field.plain_stop]
    exact h rfl
  | false => cases hf

end Shapes

section Rows

variable {p : Profile} {d : Delimiters} (hp : p.Documents d) {r : Row}

include hp

/-- A parent of a class is read back. -/
theorem readsBack_memberRow {t : Text} (ht : t ∈ p.tags.member) (n : Nat) :
    (Row.tag t (some (Field.stop "parent" n).1)).ReadsBack p d := by
  obtain ⟨hprose, hslash⟩ := hp.tabular.prose "parent" (by simp)
  have hparent : (Field.stop "parent" n).1.plain = "parent".toList := Field.plain_stop _ n
  refine readsBack_tag (hp.tabular.of_mem_member ht) ?_ ?_
  · rw [hparent]
    exact hprose.isLine
  · rw [hparent]
    exact hp.not_isSuffix hslash

/-- A parameter is read back if its name can be told from its type. -/
theorem readsBack_argumentRow {arg : Argument} {n : Nat}
    (harg : p.hasTypeColumn = true → ∀ type ∈ arg.type, IsWord type)
    (hs : (argumentRow p arg n).1.Separable p d) : (argumentRow p arg n).1.ReadsBack p d := by
  obtain ⟨i, j, hrow⟩ := exists_argumentRow_eq p arg n
  rw [hrow] at hs ⊢
  obtain ⟨hbalanced, hname⟩ := hs
  refine readsBack_described hp hp.tabular.param (isSome_stopIf _ _ n) rfl ?_ hname j
  intro f hf
  have hword : IsWord f.plain :=
    forall_mem_stopIf (fun hcolumn => hp.isWord_resolve (harg hcolumn) arg.value arg.name) n f hf
  exact ⟨oneLine_of_forall_not_blank hword.2, hbalanced rfl f hf, fun _ => hword⟩

/-- An exception is read back if it is written without a type column. -/
theorem readsBack_exceptionRow {exception : Text} {n : Nat} (hcolumn : p.hasTypeColumn = false)
    (hs : (exceptionRow p exception n).1.Separable p d) :
    (exceptionRow p exception n).1.ReadsBack p d := by
  have hthrows := hp.tabular.throws
  rw [hcolumn] at hthrows
  rw [exceptionRow_of_no_column hcolumn] at hs ⊢
  exact readsBack_described hp hthrows rfl rfl (fun _ hf => by cases hf) hs.2 n

/-- The type of a result is plain. -/
theorem isPlainType_of_resultType? {c : Callable} (hreturn : ∀ t ∈ c.returnType, IsPlainType p t)
    {t type : Text} (h : resultType? p c = some (t, type)) : IsPlainType p type := by
  have hresolved := hp.isPlainType_resolve hreturn none c.name
  unfold resultType? at h
  split at h
  · cases h
  · exact (Prod.mk.inj (Option.some.inj h)).2 ▸ hresolved
  · exact (Prod.mk.inj (Option.some.inj h)).2 ▸ hresolved
  all_goals
    obtain ⟨u, hu, hpair⟩ := Option.map_eq_some_iff.mp h
    obtain ⟨-, rfl⟩ := Prod.mk.inj hpair
    rw [Option.orElse_eq_or, Option.or_eq_some_iff] at hu
    rcases hu with hu | ⟨-, hu⟩
    · exact hreturn u hu
    · exact hp.guessed c.name u hu

/-- A result is read back, with or without its type. -/
theorem readsBack_resultRow {c : Callable} {t type : Text} {description : Option Field}
    (hreturn : p.hasTypeColumn = true → ∀ t ∈ c.returnType, IsPlainType p t)
    (h : resultType? p c = some (t, type))
    (hdescription : description = none ∨ ∃ k, description = some (Field.stop "description" k).1)
    (n : Nat) :
    (Row.entry t (Field.stopIf p.hasTypeColumn type n).1 none description).ReadsBack p d := by
  have ht := hp.tabular.nameless t (tag_mem_of_resultType? h)
  have hplain : ∀ f ∈ (Field.stopIf p.hasTypeColumn type n).1, IsPlainType p f.plain :=
    forall_mem_stopIf (fun hcolumn => isPlainType_of_resultType? hp (hreturn hcolumn) h) n
  rcases hdescription with rfl | ⟨k, rfl⟩
  · exact readsBack_undescribed hp ht (isSome_stopIf _ _ n) hplain
  · exact readsBack_described hp ⟨ht.1, ht.2.1⟩ (isSome_stopIf _ _ n) rfl
      (fun f hf => (hplain f hf).isTypeText) (fun _ hf => by cases hf) k

/-- **Every separable row that documents a declaration is read back.** -/
theorem readsBack_of_mem_detailRows {g : Grammar} (hg : g.Fits p) {declaration : Declaration}
    {n : Nat} (hfits : declaration.Fits p) (h : r ∈ (detailRows p g declaration n).1)
    (hs : r.Separable p d) : r.ReadsBack p d := by
  cases details_of_mem h with
  | @parent _ _ type _ htag htype =>
    have hline : IsLine (Field.text type).plain := by
      rw [plain_text]
      exact hfits (Option.isSome_of_mem htag) type htype
    exact readsBack_tag (hp.tabular.of_mem_parents htag) hline (hs _ rfl)
  | @binding name _ declaredType initializer htag hcolumn =>
    refine readsBack_undescribed hp (hp.tabular.of_mem_binding htag) hcolumn.symm ?_
    rintro f ⟨⟩
    rw [Field.plain_stop]
    exact hp.isPlainType_resolve (hfits hcolumn) initializer name
  | member htag n => exact readsBack_memberRow hp htag n
  | argument _ harg =>
    exact readsBack_argumentRow hp (fun hcolumn => hg.arguments hcolumn _ _ harg) hs
  | exception hthrows _ =>
    refine readsBack_exceptionRow hp ?_ hs
    by_contra hcolumn
    rw [(hfits (by simpa using hcolumn)).1] at hthrows
    cases hthrows
  | result htype hdescription n =>
    exact readsBack_resultRow hp (fun hcolumn => (hfits hcolumn).2) htype hdescription n

end Rows

/-- Every row behind the summary has a tag. -/
theorem isSome_tag?_of_mem_detailRows {p : Profile} {g : Grammar} {declaration : Declaration}
    {n : Nat} {r : Row} (h : r ∈ (detailRows p g declaration n).1) : r.tag?.isSome = true := by
  cases details_of_mem h <;> rfl

end Synthesis

/-- The block of what follows is synthesized from a declaration that the grammar reads. -/
theorem exists_of_document {language : Language} {config : Config} {following : Text}
    {doc : Documented} (h : document language config following = some doc) :
    ∃ definition declaration, language.grammar.declaration definition = some declaration ∧
      Synthesis.block? (Profile.of language config) language.grammar declaration =
        some doc.block := by
  unfold document at h
  simp only at h
  split at h
  · cases h
  · split at h
    · cases h
    · obtain ⟨declaration, hdeclaration, hmap⟩ := Option.bind_eq_some_iff.mp h
      obtain ⟨block, hblock, rfl⟩ := Option.map_eq_some_iff.mp hmap
      exact ⟨_, declaration, hdeclaration, hblock⟩

/-- **A generated comment is read back**, in every tag table, for every source text and every
alignment, if the columns of its rows can be told apart. -/
theorem roundTrips_of_document {language : Language} {config : Config} {d : Delimiters}
    (hd : (Profile.of language config).delimiters? = some d) {following : Text} {doc : Documented}
    (h : document language config following = some doc)
    (hs : ∀ row ∈ doc.block.rows, row.Separable (Profile.of language config) d)
    (align : Nat) (emptyLines : EmptyLines) :
    doc.block.RoundTrips (Profile.of language config) { align, emptyLines } := by
  have hp := Profile.documents_of hd
  obtain ⟨definition, declaration, hdeclaration, hblock⟩ := exists_of_document h
  have hgrammar := language.fits_grammar config
  have hfits := hgrammar.declaration hdeclaration
  have hrows := congrArg Block.rows (Synthesis.eq_of_block? hblock)
  generalize Profile.of language config = p at *
  refine Block.roundTrips_of_readsBack hp.framed hp.marker hp.closer rfl rfl hrows ?_ ?_
  · exact fun row => Synthesis.isSome_tag?_of_mem_detailRows
  · intro row hrow
    have hseparable := hs row hrow
    rw [hrows] at hrow
    rcases List.mem_cons.mp hrow with rfl | hrow
    · obtain ⟨hprose, hslash⟩ := hp.tabular.prose p.tags.summary List.mem_cons_self
      have hsummary := Field.plain_stop p.tags.summary 0
      refine ⟨?_, Or.inr ?_⟩
      · show IsLine (Field.stop p.tags.summary 0).1.plain ∧
          ofText? p (Field.stop p.tags.summary 0).1.plain = none
        rw [hsummary]
        exact ⟨hprose.isLine, hprose.ofText?_eq_none⟩
      · show '/' ∉ (Field.stop p.tags.summary 0).1.plain
        rwa [hsummary]
    · exact Synthesis.readsBack_of_mem_detailRows hp hgrammar hfits hrow hseparable

/-- A function with brackets in the type of its first parameter. -/
def pairSource : Text := "function f(x: Pair<\x7ba: b\x7d>, n = 3): string | null \x7b"

theorem roundTrips_of_document_pairSource :
    ∃ doc, document .typescript {} pairSource = some doc ∧
      (∀ row ∈ doc.block.rows, row.Separable (Profile.of .typescript {}) .javadoc) ∧
      doc.block.format (Profile.of .typescript {}) { align := 2, emptyLines := .afterSummary } =
        ["/**", " * summary", " *", " * @param   \x7bPair<\x7ba:b\x7d>\x7d x - description",
          " * @param   \x7bnumber\x7d      n - description",
          " * @returns \x7b?string\x7d     description", " */"].map String.toList ∧
      doc.block.RoundTrips (Profile.of .typescript {})
        { align := 2, emptyLines := .afterSummary } := by
  have hsome : (document .typescript {} pairSource).isSome = true := by decide +kernel
  have hrows : ∀ doc ∈ document .typescript {} pairSource,
      (∀ row ∈ doc.block.rows, row.Separable (Profile.of .typescript {}) .javadoc) ∧
        doc.block.format (Profile.of .typescript {}) { align := 2, emptyLines := .afterSummary } =
          ["/**", " * summary", " *", " * @param   \x7bPair<\x7ba:b\x7d>\x7d x - description",
            " * @param   \x7bnumber\x7d      n - description",
            " * @returns \x7b?string\x7d     description", " */"].map String.toList := by
    decide +kernel
  obtain ⟨doc, hdoc⟩ := Option.isSome_iff_exists.mp hsome
  obtain ⟨hs, hformat⟩ := hrows doc hdoc
  exact ⟨doc, hdoc, hs, hformat, roundTrips_of_document rfl hdoc hs 2 .afterSummary⟩

/-- Not every generated comment is read back.  A parameter that is a pointer to a function has its
whole text for a name, a name can be a lone dash, a malformed type can close its bracket too early,
and a malformed base class can end like a comment. -/
theorem not_roundTrips_of_document :
    (∃ doc ∈ document .cpp {} "void f(int (*cb)(int))",
      ¬ doc.block.RoundTrips (Profile.of .cpp {}) {}) ∧
    (∃ doc ∈ document .javascript {} "function f(-) \x7b",
      ¬ doc.block.RoundTrips (Profile.of .javascript {}) {}) ∧
    (∃ doc ∈ document .typescript {} "function f(x: Foo\x7d) \x7b",
      ¬ doc.block.RoundTrips (Profile.of .typescript {}) {}) ∧
    ∃ doc ∈ document .cpp {} "class A : public B*/ \x7b",
      ¬ doc.block.RoundTrips (Profile.of .cpp {}) {} := by
  decide +kernel

end DocComment
