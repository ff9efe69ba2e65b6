import DocComment.Proofs.Reading.Conservation
import DocComment.Proofs.Reading.Normal
import DocComment.Proofs.Text.Occurrence

/-!
# What lines inherit from the comment they were read from

Reading takes a comment apart and joins contents by spaces, a layout joins columns by spaces, and
re-flowing joins words by spaces.  A property that goes over to the parts of a text and to two texts
joined by a space (`Hereditary`) therefore goes over from the contents of a comment to every line of
its layout, whatever the columns and the width are (`Hereditary.of_mem_rowLines`).
-/

namespace DocComment

open Text TagLine Reading Table

/-- A property of texts that goes over to their parts and to two of them joined by a space. -/
structure Text.Hereditary (P : Text → Prop) : Prop where
  nil : P []
  part : ∀ {s t : Text}, P t → s <:+: t → P s
  glue : ∀ {s t : Text}, P s → P t → P (s ++ ' ' :: t)

/-- Text without a word stays free of it when it is broken and joined at spaces. -/
theorem Text.hereditary_free {w : Text} (hw : IsWord w) : Hereditary (Free w) where
  nil := free_of_blanks hw blanks_nil
  part h hs := h.of_isInfix hs
  glue {s t} hs ht := by
    have hspace : Blanks [' '] := blanks_replicate 1
    exact free_append hw hs (free_blanks_append hw hspace ht) (startsBlank_cons.mpr (by decide))

/-- Text without a character other than the space stays so. -/
theorem Text.hereditary_not_mem {c : Char} (hc : c ≠ ' ') : Hereditary (c ∉ ·) where
  nil := List.not_mem_nil
  part h hs hmem := h (hs.subset hmem)
  glue hs ht hmem := by
    rcases List.mem_append.mp hmem with hmem | hmem
    · exact hs hmem
    · exact (List.mem_cons.mp hmem).elim hc ht

/-- Single lines stay single. -/
theorem Text.hereditary_oneLine : Hereditary OneLine := hereditary_not_mem (by decide)

/-- The closer is the same in every dialect that has one. -/
theorem Profile.closer_of {language : Language} {config : Config} {d : Delimiters}
    (hd : (Profile.of language config).delimiters? = some d) :
    Free "*/" d.opener ∧ Free "*/" d.marker ∧ ∀ closer ∈ d.closer, closer = " */".toList := by
  rcases delimiters_of hd with rfl | rfl | rfl <;> decide

/-- A space is the first character of the text, if it has any. -/
def Text.StartsSpace (t : Text) : Prop := ∀ c ∈ t.head?, c = ' '

theorem Text.startsSpace_nil : StartsSpace [] := nofun

/-- A text behind a space starts with one. -/
theorem Text.startsSpace_cons (t : Text) : StartsSpace (' ' :: t) :=
  fun _ hc => (Option.some.inj hc).symm

/-- Two texts that start with a space do so one after the other, also if the first is empty. -/
theorem Text.StartsSpace.append {s t : Text} (hs : StartsSpace s) (ht : StartsSpace t) :
    StartsSpace (s ++ t) := by
  cases s with
  | nil => exact ht
  | cons c s => exact fun d hd => hs d hd

section Joining

variable {P : Text → Prop} (hP : Hereditary P) {s t : Text}

include hP

/-- A space may stand in front. -/
theorem Text.Hereditary.space_cons (ht : P t) : P (' ' :: t) := hP.glue hP.nil ht

/-- What starts with a space may stand behind. -/
theorem Text.Hereditary.append (hs : P s) (ht : P t) (hstart : StartsSpace t) :
    P (s ++ t) := by
  cases t with
  | nil => rwa [List.append_nil]
  | cons c t =>
    obtain rfl := hstart c rfl
    exact hP.glue hs (hP.part ht (List.suffix_cons _ _).isInfix)

/-- Spaces have the property. -/
theorem Text.Hereditary.spaces (n : Nat) : P (List.replicate n ' ') := by
  induction n with
  | zero => exact hP.nil
  | succ n ih => exact hP.space_cons ih

/-- Spaces may stand behind. -/
theorem Text.Hereditary.append_spaces (hs : P s) (n : Nat) : P (s ++ List.replicate n ' ') := by
  refine hP.append hs (hP.spaces n) fun c hc => ?_
  exact (List.mem_replicate.mp (List.mem_of_mem_head? hc)).2

/-- Words may stand behind the last word of a text. -/
theorem Text.Hereditary.unwords_cons {w : Text} {ws : List Text} (hw : P (s ++ w))
    (hws : ∀ v ∈ ws, P v) : P (s ++ unwords (w :: ws)) := by
  induction ws generalizing s w with
  | nil => rwa [unwords_singleton]
  | cons v ws ih =>
    have hrest : P ([] ++ unwords (v :: ws)) :=
      ih (hws v List.mem_cons_self) fun u hu => hws u (List.mem_cons_of_mem _ hu)
    rw [Text.unwords_cons (List.cons_ne_nil v ws), ← List.append_assoc]
    exact hP.glue hw hrest

/-- Joined words have the property if the words do. -/
theorem Text.Hereditary.unwords {ws : List Text} (hws : ∀ v ∈ ws, P v) : P (unwords ws) := by
  cases ws with
  | nil => exact hP.nil
  | cons w ws =>
    exact hP.unwords_cons (s := []) (hws w List.mem_cons_self)
      fun v hv => hws v (List.mem_cons_of_mem _ hv)

end Joining

/-! ## Reading -/

/-- What stands in a row, as it is written, has the property. -/
def Row.Holds (p : Profile) (P : Text → Prop) : Row → Prop
  | .text f => P f.plain
  | .blank => True
  | .tag t value => P t ∧ ∀ f ∈ value, P f.plain
  | .entry t type name description =>
    P t ∧ (∀ f ∈ type, P (p.formatType f.plain)) ∧ (∀ f ∈ name, P f.plain) ∧
      ∀ f ∈ description, P f.plain

/-- The columns of a tag line are parts of it. -/
theorem TagLine.columns_isInfix_of_ofText? {p : Profile} {content : Text} {line : TagLine}
    (h : ofText? p content = some line) :
    line.tag <:+: content ∧ (line.type.map p.formatType).getD [] <:+: content ∧
      line.name.getD [] <:+: content ∧ line.description.getD [] <:+: content := by
  obtain ⟨dash, -, s₀, s₁, s₂, s₃, s₄, -, hspells⟩ := exists_of_ofText? h
  generalize (line.type.map p.formatType).getD [] = type at hspells ⊢
  generalize line.name.getD [] = name at hspells ⊢
  generalize line.description.getD [] = description at hspells ⊢
  rw [hspells]
  refine ⟨⟨[], s₀ ++ type ++ s₁ ++ name ++ s₂ ++ dash ++ s₃ ++ description ++ s₄, ?_⟩,
    ⟨line.tag ++ s₀, s₁ ++ name ++ s₂ ++ dash ++ s₃ ++ description ++ s₄, ?_⟩,
    ⟨line.tag ++ s₀ ++ type ++ s₁, s₂ ++ dash ++ s₃ ++ description ++ s₄, ?_⟩,
    List.infix_append _ _ _⟩ <;> simp only [List.nil_append, List.append_assoc]

section Reading

variable {P : Text → Prop} (hP : Hereditary P) {p : Profile}

include hP

/-- One content more. -/
theorem Text.Hereditary.addLine {soFar : List Logical} (h : ∀ l ∈ soFar, P l.content) {c : Text}
    (hc : P c) : ∀ l ∈ addLine p soFar c, P l.content := by
  have hcons : ∀ (l : Logical) (ls : List Logical), P l.content → (∀ m ∈ ls, P m.content) →
      ∀ m ∈ l :: ls, P m.content := fun l ls hl hls => List.forall_mem_cons.mpr ⟨hl, hls⟩
  rcases addLine_cases p soFar c with ⟨-, heq⟩ | ⟨-, heq, -⟩ | ⟨-, -, heq⟩ | ⟨-, -, -, heq⟩ |
    ⟨-, t, older, rfl, heq⟩ | ⟨-, t, older, rfl, heq⟩ <;> rw [heq]
  · exact h
  · exact hcons _ _ hP.nil h
  · exact hcons _ _ hc h
  · exact hcons _ _ hc h
  · obtain ⟨ht, holder⟩ := List.forall_mem_cons.mp h
    exact hcons _ _ (hP.glue ht hc) holder
  · obtain ⟨ht, holder⟩ := List.forall_mem_cons.mp h
    exact hcons _ _ (hP.glue ht hc) holder

/-- Joining lines to logical ones keeps the property. -/
theorem Text.Hereditary.foldl_addLine {soFar : List Logical} (h : ∀ l ∈ soFar, P l.content)
    {cs : List Text} (hcs : ∀ c ∈ cs, P c) :
    ∀ l ∈ cs.foldl (Reading.addLine p) soFar, P l.content := by
  induction cs generalizing soFar with
  | nil => exact h
  | cons c cs ih =>
    obtain ⟨hc, hcs⟩ := List.forall_mem_cons.mp hcs
    exact ih (hP.addLine h hc) hcs

/-- Cutting a logical line into columns keeps the property. -/
theorem Text.Hereditary.rowOf {l : Logical} (h : P l.content) : (rowOf p l).Holds p P := by
  cases l with
  | blank => trivial
  | text t =>
    show P (Field.text t).plain
    rwa [plain_text]
  | tag t =>
    cases hline : ofText? p t with
    | none =>
      rw [rowOf_tag_of_none hline]
      show P (Field.text t).plain
      rwa [plain_text]
    | some line =>
      obtain ⟨htag, htype, hname, hdescription⟩ := columns_isInfix_of_ofText? hline
      have hfield : ∀ column : Option Text, P (column.getD []) →
          ∀ f ∈ column.map Field.text, P f.plain := by
        intro column hcolumn f hf
        obtain ⟨u, rfl, rfl⟩ := Option.map_eq_some_iff.mp hf
        rwa [plain_text]
      cases hs : line.structured with
      | false =>
        rw [rowOf_tag_of_free hline hs]
        exact ⟨hP.part h htag, hfield _ (hP.part h hdescription)⟩
      | true =>
        rw [rowOf_tag_of_structured hline hs]
        refine ⟨hP.part h htag, ?_, hfield _ (hP.part h hname), hfield _ (hP.part h hdescription)⟩
        intro f hf
        obtain ⟨u, hu, rfl⟩ := Option.map_eq_some_iff.mp hf
        rw [hu] at htype
        rw [plain_text]
        exact hP.part h htype

/-- **The rows of a comment inherit from its contents.** -/
theorem Text.Hereditary.block? {d : Delimiters} (hd : p.delimiters? = some d) {raw : Text}
    (hcontents : ∀ c ∈ contents d raw, P c) {b : Block} (h : block? p raw = some b) :
    ∀ row ∈ b.rows, row.Holds p P := by
  have hsub : ∀ soFar : List Logical, dropBlank soFar ⊆ soFar := by
    intro soFar
    unfold dropBlank
    split
    · exact List.subset_cons_self _ _
    · exact List.Subset.refl _
  have hlines : ∀ l ∈ logicalLines p (contents d raw), P l.content := by
    intro l hl
    have hnone : ∀ l ∈ ([] : List Logical), P l.content := nofun
    rw [logicalLines_eq, List.mem_reverse] at hl
    exact hP.foldl_addLine hnone hcontents l (hsub _ hl)
  unfold Reading.block? at h
  rw [hd, Option.bind_some] at h
  split at h
  · cases h
  · obtain rfl := Option.some.inj h
    intro row hrow
    obtain ⟨l, hl, rfl⟩ := List.mem_map.mp hrow
    exact hP.rowOf (hlines l hl)

end Reading

/-! ## Re-flowing -/

namespace Reflow

/-- A line goes on under its first word, behind as many spaces as stand over it. -/
theorem continuation_append_cons (marker u : Text) :
    continuation marker (marker ++ ' ' :: u) = marker ++ ' ' :: List.replicate u.length ' ' := by
  have hroom : (marker ++ ' ' :: u).length - marker.length = u.length + 1 := by
    rw [List.length_append, List.length_cons]
    omega
  rw [continuation, hroom, List.replicate_succ]

/-- A line that was re-flowed is the line itself, a beginning of it with the first words behind, or
words of it after spaces. -/
theorem cases_of_mem_wrapLine {p : Profile} {d : Delimiters} (hd : p.delimiters? = some d)
    {width : Nat} {t l : Text} (h : l ∈ wrapLine p width (d.marker ++ ' ' :: t)) :
    l = d.marker ++ ' ' :: t ∨
      (∃ lead rest first, t = lead ++ rest ∧ StartsTight rest ∧ first <+: words rest ∧
        l = trimEnd (d.marker ++ ' ' :: (lead ++ unwords first))) ∨
      ∃ n more, (∀ w ∈ more, w <:+: t) ∧
        l = trimEnd (d.marker ++ ' ' :: (List.replicate n ' ' ++ unwords more)) := by
  rcases wrapLine_eq_singleton_or_flow hd width (d.marker ++ ' ' :: t) with
    hwrap | ⟨lead, rest, hline, htight, hwrap⟩
  · rw [hwrap] at h
    exact Or.inl (List.mem_singleton.mp h)
  · have hcut : ' ' :: t = lead ++ rest := List.append_cancel_left hline
    cases lead with
    | nil =>
      rw [List.nil_append] at hcut
      rw [← hcut] at htight
      exact absurd (startsTight_cons.mp htight) (by decide)
    | cons c lead =>
      obtain ⟨rfl, ht⟩ := List.cons.inj hcut
      rw [hwrap] at h
      rcases cases_of_mem_flow h with ⟨first, hfirst, rfl⟩ | ⟨more, hmore, rfl⟩
      · refine Or.inr (Or.inl ⟨lead, rest, first, ht, htight, hfirst, ?_⟩)
        rw [List.append_assoc, List.cons_append]
      · refine Or.inr (Or.inr ⟨lead.length, more, fun w hw => ?_, ?_⟩)
        · rw [ht]
          exact (isInfix_of_mem_words (hmore hw)).trans (List.suffix_append _ _).isInfix
        · rw [continuation_append_cons, List.append_assoc, List.cons_append]

end Reflow

/-! ## Laying out -/

/-- A row has a line. -/
theorem Table.rowLines_ne_nil (p : Profile) (d : Delimiters) (options : LayoutOptions)
    (rows : List Row) (row : Row) : rowLines p d options rows row ≠ [] := by
  unfold rowLines
  simp only
  split
  · exact List.cons_ne_nil _ _
  · exact Reflow.wrapLine_ne_nil _ _ _

section Layout

variable {P : Text → Prop} (hP : Hereditary P) {p : Profile} {d : Delimiters}
  {options : LayoutOptions} {row : Row}

include hP

/-- The slots of a row have the property if their cells do. -/
theorem Text.Hereditary.slotText (entry : Bool) (align : Nat) (widths : List Nat)
    {slots : List (Option Slot)} (h : ∀ slot ∈ slots, P (slotCell slot)) :
    ∀ i, P (slotText entry align widths i slots) ∧
      StartsSpace (Table.slotText entry align widths i slots) := by
  induction slots with
  | nil => exact fun _ => ⟨hP.nil, startsSpace_nil⟩
  | cons slot slots ih =>
    obtain ⟨hslot, hslots⟩ := List.forall_mem_cons.mp h
    intro i
    obtain ⟨hrest, hstart⟩ := ih hslots (i + 1)
    cases slot with
    | none => exact ⟨hrest, hstart⟩
    | some slot =>
      rw [Table.slotText]
      split
      · exact ⟨hrest, hstart⟩
      · exact ⟨hP.append (hP.append_spaces (hP.space_cons hslot) _) hrest hstart,
          startsSpace_cons _⟩

/-- The slots of a row hold what the row holds. -/
theorem Text.Hereditary.slots (hrow : row.Holds p P) :
    ∀ slot ∈ slots p false row, P (slotCell slot) := by
  have hshown : ∀ (b : Bool) (slot : Slot), P slot.text →
      P (slotCell (if b = true then some slot else none)) := by
    intro b slot h
    cases b
    · exact hP.nil
    · exact h
  have hcell : ∀ field : Option Field, (∀ f ∈ field, P f.plain) → P (cell field false) := by
    intro field h
    cases field with
    | none => exact hP.nil
    | some f => exact h f rfl
  cases row with
  | text _ | blank => nofun
  | tag t _ => exact List.forall_mem_singleton.mpr hrow.1
  | entry t type name description =>
    obtain ⟨htag, htype, hname, -⟩ := hrow
    have htypeSlot : P (typeSlot p false type).text := by
      cases type with
      | none => exact hP.nil
      | some f => exact htype f rfl
    simp only [Table.slots]
    split
    · exact List.forall_mem_cons.mpr ⟨htag, List.forall_mem_cons.mpr ⟨hshown _ _ htypeSlot,
        List.forall_mem_singleton.mpr (hshown _ _ (hcell name hname))⟩⟩
    · exact List.forall_mem_cons.mpr
        ⟨htag, List.forall_mem_singleton.mpr (hshown _ _ (hcell name hname))⟩

/-- A value behind its separator has the property if the value and the dash do. -/
theorem Text.Hereditary.valueText (hdash : P ['-'])
    {separator value : Text} (hseparator : separator = [' '] ∨ separator = [' ', '-', ' '])
    (hvalue : P value) :
    P (valueText separator value) ∧ StartsSpace (Table.valueText separator value) := by
  unfold Table.valueText
  split
  · exact ⟨hP.nil, startsSpace_nil⟩
  · rcases hseparator with rfl | rfl
    · exact ⟨hP.space_cons hvalue, startsSpace_cons _⟩
    · exact ⟨hP.space_cons (hP.glue hdash hvalue), startsSpace_cons _⟩

/-- What stands after the marker of a line. -/
theorem Text.Hereditary.rowText (hdash : P ['-']) (hp : p.Framed d)
    (hplain : options.asSnippet = false) (widths : List Nat) (hrow : row.Holds p P) :
    P (rowText p options widths row) ∧ StartsSpace (Table.rowText p options widths row) := by
  have hslots := hP.slots hrow
  -- Columns and the value after them, both of which a space starts.
  have htagged : ∀ (entry : Bool) (separator : Text) (value : Option Field),
      (separator = [' '] ∨ separator = [' ', '-', ' ']) → (∀ f ∈ value, P f.plain) →
      P (Table.slotText entry options.align widths 0 (Table.slots p false row) ++
          Table.valueText separator (cell value false)) ∧
        StartsSpace (Table.slotText entry options.align widths 0 (Table.slots p false row) ++
          Table.valueText separator (cell value false)) := by
    intro entry separator value hseparator hvalue
    have hcell : P (cell value false) := by
      cases value with
      | none => exact hP.nil
      | some f => exact hvalue f rfl
    obtain ⟨hcolumns, hstart⟩ := hP.slotText entry options.align widths hslots 0
    obtain ⟨htext, hspace⟩ := hP.valueText hdash hseparator hcell
    exact ⟨hP.append hcolumns htext hspace, hstart.append hspace⟩
  cases row with
  | blank => exact ⟨hP.nil, startsSpace_nil⟩
  | text f =>
    simp only [Table.rowText, hplain]
    exact ⟨hP.space_cons hrow, startsSpace_cons _⟩
  | tag t value =>
    simp only [Table.rowText, hplain]
    exact htagged false [' '] value (Or.inl rfl) hrow.2
  | entry t type name description =>
    simp only [Table.rowText, hplain]
    refine htagged true _ description ?_ hrow.2.2.2
    split
    · exact hp.separator
    · exact Or.inl rfl

/-- The line of a row before it is re-flowed. -/
theorem Text.Hereditary.rowLine (hdash : P ['-']) (hp : p.Framed d) (hmarker : P d.marker)
    (hplain : options.asSnippet = false) (widths : List Nat) (hrow : row.Holds p P) :
    P (rowLine p options d.marker widths row) ∧
      MarkedLine d (Table.rowLine p options d.marker widths row) := by
  obtain ⟨htext, hstart⟩ := hP.rowText hdash hp hplain widths hrow
  refine ⟨hP.part (hP.append hmarker htext hstart) (trimEnd_isInfix _), ?_⟩
  rw [Table.rowLine]
  generalize Table.rowText p options widths row = t at hstart
  cases t with
  | nil =>
    rw [List.append_nil, trimEnd_of_endsTight hp.endsTight_marker]
    exact Or.inl rfl
  | cons c t =>
    obtain rfl := hstart c rfl
    exact markedLine_trimEnd hp t

/-- A line that was re-flowed. -/
theorem Text.Hereditary.of_mem_wrapLine (hp : p.Framed d) (hmarker : P d.marker) {width : Nat}
    {t l : Text} (hline : P (d.marker ++ ' ' :: t))
    (h : l ∈ Reflow.wrapLine p width (d.marker ++ ' ' :: t)) : P l ∧ MarkedLine d l := by
  have ht : P t :=
    hP.part hline ((List.suffix_cons _ _).trans (List.suffix_append _ _)).isInfix
  rcases Reflow.cases_of_mem_wrapLine hp.delimiters h with rfl |
    ⟨lead, rest, first, rfl, htight, hfirst, rfl⟩ | ⟨n, more, hmore, rfl⟩
  · exact ⟨hline, Or.inr ⟨t, rfl⟩⟩
  · refine ⟨hP.part (hP.glue hmarker ?_) (trimEnd_isInfix _), markedLine_trimEnd hp _⟩
    have hwords : ∀ w ∈ words rest, P w := fun w hw =>
      hP.part ht ((isInfix_of_mem_words hw).trans (List.suffix_append _ _).isInfix)
    cases first with
    | nil =>
      rw [unwords_nil, List.append_nil]
      exact hP.part ht (List.prefix_append _ _).isInfix
    | cons w first =>
      -- The first word stands behind the lead as it did before.
      have hne : rest ≠ [] := by
        rintro rfl
        exact absurd (hfirst.subset List.mem_cons_self) (by simp)
      have hword : w = word rest := by
        rw [words_eq_word_cons hne htight] at hfirst
        exact (List.cons_prefix_cons.mp hfirst).1
      have hlead : lead ++ w <+: lead ++ rest := by
        rw [hword]
        exact (List.prefix_append_right_inj _).mpr (List.takeWhile_prefix _)
      exact hP.unwords_cons (hP.part ht hlead.isInfix) fun v hv =>
        hwords v (hfirst.subset (List.mem_cons_of_mem _ hv))
  · refine ⟨hP.part (hP.glue hmarker ?_) (trimEnd_isInfix _), markedLine_trimEnd hp _⟩
    have hmore := hP.unwords fun w hw => hP.part ht (hmore w hw)
    cases n with
    | zero => exact hmore
    | succ n =>
      rw [List.replicate_succ', List.append_assoc]
      exact hP.glue (hP.spaces n) hmore

/-- **The lines of a row inherit from the row.** -/
theorem Text.Hereditary.of_mem_rowLines (hdash : P ['-']) (hp : p.Framed d) (hmarker : P d.marker)
    (hplain : options.asSnippet = false) {rows : List Row} (hrow : row.Holds p P) {l : Text}
    (h : l ∈ rowLines p d options rows row) : P l ∧ MarkedLine d l := by
  have hline := hP.rowLine hdash hp hmarker hplain (columnWidths p rows) hrow
  rcases mem_rowLines h with rfl | ⟨width, h⟩
  · exact hline
  · obtain ⟨hl, hshape | ⟨t, ht⟩⟩ := hline
    · rw [hshape, Reflow.wrapLine_marker hp.delimiters hp.endsTight_marker] at h
      obtain rfl := List.mem_singleton.mp h
      exact ⟨hmarker, Or.inl rfl⟩
    · rw [ht] at h hl
      exact hP.of_mem_wrapLine hp hmarker hl h

end Layout

end DocComment
