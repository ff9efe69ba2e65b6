import DocComment.Proofs.Reading.Normal

/-!
# Reading a layout of what was read

The rows of a comment that was read are laid out and read once more.  They are legible if every
description is **apart** from the columns before it (`Row.Apart`), since the cuts of the first reading
are then found again: a type is closed by the same bracket, and what had no type has none still.
-/

namespace DocComment

open Text TagLine Reading Table

/-! ## Cutting the same columns again -/

namespace TagLine

/-- The text after a tag is cut into a type, a name and a description. -/
structure CutInto (p : Profile) (columns : Columns) (rest : Text) (type name : Option Text)
    (description : Text) : Prop where
  startsTight : StartsTight rest
  cuts : ∃ r₁ r₂, cutType p columns.type rest = (type, r₁) ∧
    cutName columns.name r₁ = (name, r₂) ∧ trimEnd (dropDash r₂) = description

section CutInto

variable {p : Profile} {columns : Columns} {rest description : Text} {type name : Option Text}

/-- The columns in order, with blanks and at most one dash between them. -/
theorem CutInto.exists_split (h : CutInto p columns rest type name description) :
    ∃ dash s₁ s₂ s₃ s₄, (dash = [] ∨ dash = ['-']) ∧
      (Blanks s₁ ∧ Blanks s₂ ∧ Blanks s₃ ∧ Blanks s₄) ∧
      rest = (type.map p.formatType).getD [] ++ (s₁ ++ (name.getD [] ++ (s₂ ++
        (dash ++ (s₃ ++ (description ++ s₄)))))) := by
  obtain ⟨r₁, r₂, htype, hname, rfl⟩ := h.cuts
  obtain ⟨s₁, hs₁, htight₁, hsplit₁⟩ := exists_of_cutType (p := p) columns.type h.startsTight
  rw [htype] at htight₁ hsplit₁
  obtain ⟨s₂, hs₂, htight₂, hsplit₂⟩ := exists_of_cutName columns.name htight₁
  rw [hname] at htight₂ hsplit₂
  obtain ⟨dash, s₃, hdash, hs₃, -, hsplit₃⟩ := exists_of_dropDash htight₂
  obtain ⟨s₄, hs₄, hrest⟩ := exists_trimEnd_append_blanks (dropDash r₂)
  refine ⟨dash, s₁, s₂, s₃, s₄, hdash, ⟨hs₁, hs₂, hs₃, hs₄⟩, ?_⟩
  rw [← hrest, ← List.append_assoc dash, ← hsplit₃, ← List.append_assoc (name.getD []), ← hsplit₂,
    ← List.append_assoc]
  exact hsplit₁

/-- A description that was cut off is tight at both ends. -/
theorem CutInto.startsTight_description (h : CutInto p columns rest type name description) :
    StartsTight description ∧ EndsTight description := by
  obtain ⟨r₁, r₂, htype, hname, rfl⟩ := h.cuts
  obtain ⟨-, -, htight₁, -⟩ := exists_of_cutType (p := p) columns.type h.startsTight
  rw [htype] at htight₁
  obtain ⟨-, -, htight₂, -⟩ := exists_of_cutName columns.name htight₁
  rw [hname] at htight₂
  obtain ⟨-, -, -, -, htight₃, -⟩ := exists_of_dropDash htight₂
  exact ⟨startsTight_trimEnd htight₃, endsTight_trimEnd _⟩

/-- A name that was cut off is a word, and its tag has a name column. -/
theorem CutInto.isWord_name (h : CutInto p columns rest type name description) :
    ∀ n ∈ name, IsWord n ∧ columns.name = true := by
  intro n hn
  obtain ⟨r₁, r₂, htype, hname, -⟩ := h.cuts
  obtain ⟨-, -, htight₁, -⟩ := exists_of_cutType (p := p) columns.type h.startsTight
  rw [htype] at htight₁
  cases hc : columns.name with
  | false =>
    rw [hc] at hname
    obtain ⟨rfl, -⟩ := Prod.mk.inj hname
    cases hn
  | true =>
    rw [hc, cutName, if_pos rfl, takeName] at hname
    split at hname
    · obtain ⟨rfl, -⟩ := Prod.mk.inj hname
      cases hn
    · next hcond =>
      obtain ⟨rfl, -⟩ := Prod.mk.inj hname
      obtain rfl : word r₁ = n := Option.some.inj hn
      have hne : r₁ ≠ [] := by
        rintro rfl
        exact hcond rfl
      exact ⟨isWord_word hne htight₁, rfl⟩

/-- Without a type, everything after the tag is left for the name. -/
theorem CutInto.of_no_type (h : CutInto p columns rest none name description) :
    cutType p columns.type rest = (none, rest) := by
  obtain ⟨r₁, r₂, htype, -, -⟩ := h.cuts
  cases hc : columns.type with
  | false => rfl
  | true =>
    rw [hc, cutType, if_pos rfl] at htype
    rw [cutType, if_pos rfl]
    cases hb : p.typeBrackets? with
    | none =>
      cases rest with
      | nil => exact takeType_nil
      | cons c rest =>
        rw [takeType_of_unbracketed hb (List.cons_ne_nil c rest)] at htype
        cases htype
    | some brackets =>
      obtain ⟨o, c⟩ := brackets
      exact takeType_of_typeless hb (typeless_of_takeType hb (by rw [htype]))

/-- A type that was cut off is cut off whatever follows it. -/
theorem CutInto.takeType_again {t : Text} (h : CutInto p columns rest (some t) name description) :
    columns.type = true ∧ (p.typeBrackets? = none → IsWord t) ∧
      ∀ s r, Blanks s → (r ≠ [] → s ≠ []) → StartsTight r →
        takeType p (p.formatType t ++ s ++ r) = (some t, r) := by
  obtain ⟨r₁, r₂, htype, -, -⟩ := h.cuts
  cases hc : columns.type with
  | false =>
    rw [hc] at htype
    cases htype
  | true =>
    rw [hc, cutType, if_pos rfl] at htype
    have hne : rest ≠ [] := by
      rintro rfl
      rw [takeType_nil] at htype
      cases htype
    cases hb : p.typeBrackets? with
    | none =>
      rw [takeType_of_unbracketed hb hne] at htype
      obtain rfl : word rest = t := Option.some.inj (Prod.mk.inj htype).1
      have hword := isWord_word hne h.startsTight
      exact ⟨rfl, fun _ => hword, fun s r hs hgap hr => takeType_word_append hb hword hs hgap hr⟩
    | some brackets =>
      obtain ⟨o, c⟩ := brackets
      obtain ⟨e, rest, rfl⟩ := List.exists_cons_of_ne_nil hne
      by_cases he : e = o
      · subst he
        cases hbal : balanced? e c 1 rest with
        | none =>
          rw [takeType_of_unbalanced hb hbal] at htype
          cases htype
        | some cut =>
          obtain ⟨inner, tail⟩ := cut
          rw [takeType_of_balanced hb hbal] at htype
          obtain rfl : inner = t := Option.some.inj (Prod.mk.inj htype).1
          refine ⟨rfl, fun hnone => absurd hnone (Option.some_ne_none _), ?_⟩
          intro s r hs _ hr
          exact takeType_formatType_append hb (balanced?_replay hbal) hs hr
      · rw [takeType_of_ne_opener hb he] at htype
        cases htype

end CutInto

section Brackets

variable {o c : Char} (ho : isBlank o = false) (hc : isBlank c = false)

include ho hc

/-- Taking out the blanks of a text takes out no brackets. -/
theorem brackets_compact (t : Text) : brackets o c (compact t) = brackets o c t := by
  unfold brackets compact
  rw [List.filter_filter]
  apply List.filter_congr
  intro e _
  by_cases heo : e = o
  · simp [heo, ho]
  · by_cases hec : e = c
    · simp [hec, hc]
    · simp [heo, hec]

/-- Blanks are no brackets. -/
theorem brackets_of_blanks {s : Text} (hs : Blanks s) : brackets o c s = [] := by
  rw [← brackets_compact ho hc, compact_of_blanks hs]
  rfl

/-- Two texts of the same words have the same brackets. -/
theorem brackets_eq_of_words {s t : Text} (h : words s = words t) :
    brackets o c s = brackets o c t := by
  rw [← brackets_compact ho hc s, ← brackets_compact ho hc t, ← flatten_words, ← flatten_words, h]

end Brackets

end TagLine

/-- A description stands apart from the columns before it: after a dash, or else it cannot be taken
for a dash, a name or a type itself. -/
structure TagLine.Apart (p : Profile) (columns : Columns) (type name : Option Text)
    (description : Text) : Prop where
  name_ne : name ≠ some ['-']
  apart : p.dash columns ≠ [] ∨ (words description).head? ≠ some ['-'] ∧
    (columns.name = true → name.isSome = true) ∧
    (type.isSome = true ∨ name.isSome = true ∨ columns.type = false ∨
      (takeType p description).1 = none)

instance (p : Profile) (columns : Columns) (type name : Option Text) (description : Text) :
    Decidable (TagLine.Apart p columns type name description) :=
  decidable_of_iff (name ≠ some ['-'] ∧ (p.dash columns ≠ [] ∨
      (words description).head? ≠ some ['-'] ∧ (columns.name = true → name.isSome = true) ∧
        (type.isSome = true ∨ name.isSome = true ∨ columns.type = false ∨
          (takeType p description).1 = none)))
    ⟨fun ⟨h₁, h₂⟩ => ⟨h₁, h₂⟩, fun h => ⟨h.1, h.2⟩⟩

section Recovers

variable {p : Profile} {d : Delimiters} {columns : Columns} {rest description t s₂ : Text}
  {type name : Option Text}

/-- The dash adds no brackets. -/
theorem brackets_dashed (hp : p.Framed d) {o c : Char} (hb : p.typeBrackets? = some (o, c))
    (t : Text) : brackets o c (dashed (p.dash columns) t) = brackets o c t := by
  obtain ⟨ho, hc, -, hodash, hcdash, -, -⟩ := hp.brackets o c hb
  have hspace : brackets o c [' '] = [] := brackets_of_blanks ho hc (blanks_replicate 1)
  have hdash : brackets o c ['-'] = [] := by simp [brackets, Ne.symm hodash, Ne.symm hcdash]
  unfold dashed
  split
  · next hnil =>
    obtain rfl : t = [] := by simpa using hnil
    rfl
  · rcases hp.dash_eq columns with h | h <;> rw [h]
    · rfl
    · rw [show ['-', ' '] = ['-'] ++ [' '] from rfl, brackets_append, brackets_append, hdash,
        hspace]
      rfl

theorem eq_nil_of_words (ht : StartsTight t) (h : words t = []) : t = [] := by
  by_contra hne
  exact words_ne_nil hne ht h

theorem dashed_nil (dash : Text) : dashed dash [] = [] := rfl

theorem dashed_of_ne_nil (dash : Text) (ht : t ≠ []) : dashed dash t = dash ++ t := by
  simp [dashed, ht]

/-- Two texts of the same words start with the same character. -/
theorem head?_eq_of_words {s : Text} (hs : StartsTight s) (ht : StartsTight t)
    (h : words t = words s) : t.head? = s.head? := by
  by_cases hnil : s = []
  · subst hnil
    rw [eq_nil_of_words ht (by rw [h]; rfl)]
  · have hne : t ≠ [] := by
      rintro rfl
      exact words_ne_nil hnil hs h.symm
    rw [words_eq_word_cons hnil hs, words_eq_word_cons hne ht] at h
    rw [← head?_word hne ht, ← head?_word hnil hs, (List.cons.inj h).1]

/-- What had a name but no type has no type when the name stands at its start again. -/
theorem TagLine.CutInto.typeless_of_name (hp : p.Framed d) {n : Text}
    (h : CutInto p columns rest none (some n) description) {o c : Char}
    (hb : p.typeBrackets? = some (o, c)) (hless : Typeless o c rest)
    (hwords : words t = words description) (hs₂ : Blanks s₂) :
    Typeless o c (nameRest (some n) s₂ (dashed (p.dash columns) t)) := by
  obtain ⟨ho, hc, -, hodash, hcdash, -, -⟩ := hp.brackets o c hb
  obtain ⟨dash, s₁, s, s₃, s₄, hdash, ⟨hs₁, hs, hs₃, hs₄⟩, hsplit⟩ := h.exists_split
  have hnone : brackets o c dash = [] := by
    rcases hdash with rfl | rfl
    · rfl
    · simp [brackets, Ne.symm hodash, Ne.symm hcdash]
  have hne : n ≠ [] := (h.isWord_name n rfl).1.1
  obtain rfl : s₁ = [] := by
    by_contra hne₁
    obtain ⟨e, s₁, rfl⟩ := List.exists_cons_of_ne_nil hne₁
    have hblank := hs₁ e List.mem_cons_self
    have htight := h.startsTight
    rw [hsplit] at htight
    rw [startsTight_cons.mp htight] at hblank
    cases hblank
  refine hless.congr ?_ ?_
  · rw [hsplit, nameRest, List.append_assoc]
    simp only [Option.map_none, Option.getD_none, Option.getD_some, List.nil_append]
    rw [List.head?_append_of_ne_nil _ hne, List.head?_append_of_ne_nil _ hne]
  · rw [hsplit, nameRest]
    simp only [Option.map_none, Option.getD_none, Option.getD_some, List.nil_append,
      brackets_append, brackets_of_blanks ho hc hs, brackets_of_blanks ho hc hs₂,
      brackets_of_blanks ho hc hs₃, brackets_of_blanks ho hc hs₄, hnone, List.append_nil,
      brackets_dashed hp hb]
    rw [brackets_eq_of_words ho hc hwords]

/-- What had no type has none in the new line. -/
theorem TagLine.CutInto.cutType_again_none (hp : p.Framed d)
    (h : CutInto p columns rest none name description)
    (hapart : description ≠ [] → Apart p columns none name description) (ht : StartsTight t)
    (hwords : words t = words description) (hs₂ : Blanks s₂) :
    cutType p columns.type (nameRest name s₂ (dashed (p.dash columns) t)) =
      (none, nameRest name s₂ (dashed (p.dash columns) t)) := by
  have hnone := h.of_no_type
  cases hcolumn : columns.type with
  | false => rfl
  | true =>
    rw [hcolumn, cutType, if_pos rfl] at hnone
    rw [cutType, if_pos rfl]
    cases hb : p.typeBrackets? with
    | none =>
      -- A type without brackets is missing only where nothing follows the tag.
      have hrest : rest = [] := by
        by_contra hne
        rw [takeType_of_unbracketed hb hne] at hnone
        cases hnone
      obtain ⟨dash, s₁, s, s₃, s₄, -, -, hsplit⟩ := h.exists_split
      rw [hrest] at hsplit
      have hparts := hsplit.symm
      simp only [List.append_eq_nil_iff] at hparts
      obtain ⟨-, -, hname, -, -, -, hdescription, -⟩ := hparts
      have hname : name = none := by
        cases name with
        | none => rfl
        | some n => exact absurd hname (h.isWord_name n rfl).1.1
      rw [hdescription] at hwords
      rw [hname, eq_nil_of_words ht hwords]
      exact takeType_nil
    | some brackets =>
      obtain ⟨o, c⟩ := brackets
      obtain ⟨ho, hc, -, hodash, -⟩ := hp.brackets o c hb
      apply takeType_of_typeless hb
      have hless : Typeless o c rest := typeless_of_takeType hb (by rw [hnone])
      cases name with
      | some n => exact h.typeless_of_name hp hb hless hwords hs₂
      | none =>
        by_cases hnil : t = []
        · exact Or.inl (by simp [hnil, nameRest, dashed_nil])
        · have hdescription : description ≠ [] := by
            rintro rfl
            exact hnil (eq_nil_of_words ht hwords)
          rw [nameRest, dashed_of_ne_nil _ hnil]
          rcases hp.dash_eq columns with hdash | hdash
          · -- Nothing stands before the description, which must not look like a type.
            have happart := (hapart hdescription).apart.resolve_left (fun hne => hne hdash)
            have htype : (takeType p description).1 = none := by
              rcases happart.2.2 with h | h | h | h
              · cases h
              · cases h
              · rw [hcolumn] at h
                cases h
              · exact h
            rw [hdash]
            have hhead := head?_eq_of_words h.startsTight_description.1 ht hwords
            exact (typeless_of_takeType hb htype).congr hhead (brackets_eq_of_words ho hc hwords)
          · rw [hdash]
            exact Or.inl (by simpa using Ne.symm hodash)

/-- A name that was cut off once is cut off again, also from before another description of the same
words. -/
theorem TagLine.CutInto.cutName_again (hp : p.Framed d)
    (h : CutInto p columns rest type name description)
    (hapart : description ≠ [] → Apart p columns type name description) (ht : StartsTight t)
    (hwords : words t = words description) {s₁ : Text}
    (hgaps : Gaps type name (dashed (p.dash columns) t) s₁ s₂) :
    cutName columns.name (nameRest name s₂ (dashed (p.dash columns) t)) =
      (name, dashed (p.dash columns) t) := by
  have hdescription : t ≠ [] → description ≠ [] := by
    rintro hne rfl
    exact hne (eq_nil_of_words ht hwords)
  cases hcolumn : columns.name with
  | false =>
    cases name with
    | none => rfl
    | some n =>
      have htrue := (h.isWord_name n rfl).2
      rw [hcolumn] at htrue
      cases htrue
  | true =>
    rw [cutName, if_pos rfl]
    cases name with
    | some n =>
      refine takeName_word_append (h.isWord_name n rfl).1 hgaps.blanks₂ (hgaps.after_name rfl)
        hgaps.at_end (startsTight_dashed hp columns ht) ?_
      rintro rfl
      by_contra hvalue
      have hne : t ≠ [] := fun hnil => hvalue (by rw [hnil, dashed_nil])
      exact (hapart (hdescription hne)).name_ne rfl
    | none =>
      by_cases hnil : t = []
      · rw [hnil]
        rfl
      · rw [nameRest, dashed_of_ne_nil _ hnil]
        rcases hp.dash_eq columns with hdash | hdash
        · have happart := (hapart (hdescription hnil)).apart.resolve_left (fun hne => hne hdash)
          cases happart.2.1 hcolumn
        · rw [hdash]
          exact takeName_dash t

/-- The columns that were cut out are recovered from a new line of them. -/
theorem TagLine.CutInto.recovers (hp : p.Framed d)
    (h : CutInto p columns rest type name description)
    (hapart : description ≠ [] → Apart p columns type name description) (ht : StartsTight t)
    (hwords : words t = words description) :
    Recovers p columns type name (dashed (p.dash columns) t) t := by
  intro s₁ s₂ hgaps
  have hdashed := startsTight_dashed hp columns ht
  have hname : StartsTight (nameRest name s₂ (dashed (p.dash columns) t)) :=
    startsTight_nameRest (fun n hn => (h.isWord_name n hn).1) hdashed
  refine ⟨?_, h.cutName_again hp hapart ht hwords hgaps, dropDash_dashed hp columns ht ?_⟩
  · cases type with
    | none => exact h.cutType_again_none hp hapart ht hwords hgaps.blanks₂
    | some u =>
      obtain ⟨hcolumn, -, hagain⟩ := h.takeType_again
      rw [hcolumn]
      exact hagain s₁ _ hgaps.blanks₁ (hgaps.after_type rfl) hname
  · intro hdash
    rw [hwords]
    by_cases hnil : description = []
    · simp [hnil]
    · exact ((hapart hnil).apart.resolve_left (fun hne => hne hdash)).1

end Recovers

/-! ## Rows that were read are legible -/

/-- The description of a structured row stands apart. -/
def Row.Apart (p : Profile) : Row → Prop
  | .entry t type name (some f) => ∀ columns ∈ p.columns? t,
      TagLine.Apart p columns (type.map Field.plain) (name.map Field.plain) f.plain
  | _ => True

instance (p : Profile) : (row : Row) → Decidable (row.Apart p)
  | .entry _ _ _ (some _) => inferInstanceAs (Decidable (∀ columns ∈ _, _))
  | .text _ | .blank | .tag .. | .entry _ _ _ none => inferInstanceAs (Decidable True)

section Legible

variable {p : Profile} {d : Delimiters} {columns : Columns} {rest description content : Text}
  {type name : Option Text}

/-- A type that was cut off can stand in a line. -/
theorem TagLine.CutInto.isLine_formatType (hp : p.Framed d)
    (h : CutInto p columns rest type name description) (hone : OneLine rest) :
    ∀ t ∈ type, IsLine (p.formatType t) := by
  rintro t rfl
  cases hb : p.typeBrackets? with
  | none =>
    have hword := h.takeType_again.2.1 hb
    rw [formatType_of_unbracketed hb]
    exact ⟨hword.1, hword.startsTight, hword.endsTight, oneLine_of_forall_not_blank hword.2⟩
  | some brackets =>
    obtain ⟨o, c⟩ := brackets
    obtain ⟨ho, hc, -⟩ := hp.brackets o c hb
    obtain ⟨dash, s₁, s₂, s₃, s₄, -, -, hsplit⟩ := h.exists_split
    have hwritten : OneLine (p.formatType t) := by
      intro hmem
      apply hone
      rw [hsplit]
      exact List.mem_append_left _ hmem
    rw [formatType_of_bracketed hb] at hwritten ⊢
    exact ⟨by simp, startsTight_cons.mpr ho, endsTight_concat.mpr hc, hwritten⟩

/-- A single line that is tight and not empty is a line. -/
theorem isLine_of_nonempty? {t u : Text} (hs : StartsTight t) (he : EndsTight t) (ho : OneLine t)
    (h : t.nonempty? = some u) : IsLine u := by
  obtain ⟨rfl, hne⟩ := TagLine.eq_of_nonempty? h
  exact ⟨hne, hs, he, ho⟩

/-- A description that is cut off a line fills a line itself. -/
theorem TagLine.CutInto.isLine_description (h : CutInto p columns rest type name description)
    (hone : OneLine rest) : ∀ t ∈ description.nonempty?, IsLine t := by
  intro t ht
  obtain ⟨hstart, hend⟩ := h.startsTight_description
  obtain ⟨dash, s₁, s₂, s₃, s₄, -, -, hsplit⟩ := h.exists_split
  have hdescription : OneLine description := by
    intro hc
    apply hone
    rw [hsplit]
    simp [hc]
  exact isLine_of_nonempty? hstart hend hdescription ht

theorem map_plain_map_text (o : Option Text) : (o.map Field.text).map Field.plain = o := by
  cases o <;> simp

/-- Columns that were cut off a line can be told apart again. -/
theorem TagLine.CutInto.legible (hp : p.Framed d)
    (h : CutInto p columns rest type name description) (hone : OneLine rest)
    (hapart : description ≠ [] → Apart p columns type name description) :
    LegibleColumns p columns (type.map Field.text) (name.map Field.text)
      (description.nonempty?.map Field.text) := by
  have hmem : ∀ (o : Option Text) f, f ∈ o.map Field.text → f.plain ∈ o := by
    intro o f hf
    obtain ⟨t, ht, rfl⟩ := Option.map_eq_some_iff.mp hf
    rwa [plain_text]
  constructor
  · intro hsome
    cases type with
    | none => cases hsome
    | some t => exact h.takeType_again.1
  · intro hsome
    cases name with
    | none => cases hsome
    | some n => exact (h.isWord_name n rfl).2
  · exact fun f hf => h.isLine_formatType hp hone f.plain (hmem type f hf)
  · exact fun f hf => (h.isWord_name f.plain (hmem name f hf)).1
  · exact fun f hf => h.isLine_description hone f.plain (hmem _ f hf)
  · intro t ht _ hwords
    rw [map_plain_map_text, getD_nonempty?] at hwords
    rw [map_plain_map_text, map_plain_map_text]
    exact h.recovers hp hapart ht hwords

/-- A tag line is cut into columns. -/
theorem TagLine.cutInto_of_ofText? {line : TagLine} (h : ofText? p content = some line)
    (hs : line.structured = true) :
    ∃ columns rest description, p.columns? line.tag = some columns ∧ rest = afterWord content ∧
      line.description = description.nonempty? ∧
      CutInto p columns rest line.type line.name description := by
  obtain ⟨-, -, -, -, htight⟩ := exists_word_append content
  cases cutsTo_of_ofText? h with
  | free => cases hs
  | structured hcols => exact ⟨_, _, _, hcols, rfl, rfl, htight, _, _, rfl, rfl, rfl⟩

/-- What a line is cut at is a tag. -/
theorem TagLine.isTag_of_ofText? {line : TagLine} (hcontent : IsLine content)
    (h : ofText? p content = some line) : IsTag p line.tag := by
  obtain ⟨hintro, hlen⟩ := isSome_ofText?_iff.mp (Option.isSome_of_eq_some h)
  have htag : line.tag = word content := by cases cutsTo_of_ofText? h <;> rfl
  rw [htag]
  refine ⟨isWord_word hcontent.ne_nil hcontent.startsTight, ?_, hlen⟩
  rwa [head?_word hcontent.ne_nil hcontent.startsTight]

/-- What follows the first word of a single line is a single line. -/
theorem oneLine_afterWord (h : OneLine content) : OneLine (afterWord content) := by
  obtain ⟨s, -, -, hsplit, -⟩ := exists_word_append content
  intro hmem
  apply h
  rw [hsplit]
  exact List.mem_append_right _ hmem

/-- The row of a tag with a free value. -/
theorem legible_of_free {line : TagLine} (hcontent : IsLine content)
    (h : ofText? p content = some line) (hs : line.structured = false) :
    (Row.tag line.tag (line.description.map Field.text)).Legible p := by
  refine ⟨isTag_of_ofText? hcontent h, ?_⟩
  cases cutsTo_of_ofText? h with
  | structured => cases hs
  | free hcols =>
    refine ⟨hcols, fun f hf => ?_⟩
    obtain ⟨-, -, -, -, htight⟩ := exists_word_append content
    obtain ⟨u, hu, rfl⟩ := Option.map_eq_some_iff.mp hf
    rw [plain_text]
    exact isLine_of_nonempty? (startsTight_trimEnd htight) (endsTight_trimEnd _)
      (oneLine_trimEnd (oneLine_afterWord hcontent.oneLine)) hu

/-- **A row that was read is legible**, if its description stands apart. -/
theorem Reading.Logical.Normal.legible (hp : p.Framed d) {l : Logical} (h : l.Normal p)
    (hapart : (rowOf p l).Apart p) : (rowOf p l).Legible p := by
  cases l with
  | blank => trivial
  | text t =>
    refine ⟨?_, ?_⟩
    · rw [plain_text]
      exact h.1
    · rw [plain_text]
      exact h.2
  | tag t =>
    obtain ⟨hline, hsome⟩ := h
    obtain ⟨line, hcut⟩ := Option.isSome_iff_exists.mp hsome
    cases hs : line.structured with
    | false =>
      rw [rowOf_tag_of_free hcut hs]
      exact legible_of_free hline hcut hs
    | true =>
      rw [rowOf_tag_of_structured hcut hs] at hapart ⊢
      obtain ⟨columns, rest, description, hcolumns, hrest, hdescription, hinto⟩ :=
        cutInto_of_ofText? hcut hs
      rw [hdescription] at hapart ⊢
      refine ⟨isTag_of_ofText? hline hcut, columns, hcolumns, hinto.legible hp ?_ ?_⟩
      · rw [hrest]
        exact oneLine_afterWord hline.oneLine
      · intro hne
        have hsome := nonempty?_eq_some hne
        rw [hsome] at hapart
        have happart := hapart columns hcolumns
        rwa [map_plain_map_text, map_plain_map_text, plain_text] at happart

end Legible

end DocComment
