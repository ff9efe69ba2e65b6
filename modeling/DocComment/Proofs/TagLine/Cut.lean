import DocComment.Proofs.TagLine.Split

/-!
# Cutting a line that was put together

The reverse of `Split`: a line that is put together from a tag, a type, a name and a description
is cut into just these columns.  Each cut is undone on its own, and `ofText?_of_cuts` joins them.
A column is recovered only if what follows cannot be taken for it, which is what the hypotheses
of the single cuts say.
-/

namespace DocComment.TagLine

open Text

/-! ## Blanks between columns -/

/-- A gap makes what it stands before start blank, if there is anything to stand before. -/
theorem startsBlank_append_of_ne_nil {s t : Text} (hs : Blanks s) (h : t ≠ [] → s ≠ []) :
    StartsBlank (s ++ t) := by
  by_cases hne : t = []
  · subst hne
    exact hs.startsBlank_append startsBlank_nil
  · obtain ⟨c, s, rfl⟩ := List.exists_cons_of_ne_nil (h hne)
    exact startsBlank_cons.mpr (hs c List.mem_cons_self)

/-- Trimming takes off the gap and nothing else. -/
theorem trimStart_blanks_append {s t : Text} (hs : Blanks s) (ht : StartsTight t) :
    trimStart (s ++ t) = t := by
  rw [trimStart_append_of_blanks hs, trimStart_of_startsTight ht]

/-- The text from a name on: the name, if there is one, a gap and the value. -/
def nameRest (name : Option Text) (s value : Text) : Text :=
  match name with
  | none => value
  | some n => n ++ s ++ value

/-- The text from a type on: the type, if there is one, a gap and what follows. -/
def typeRest (p : Profile) (type : Option Text) (s rest : Text) : Text :=
  match type with
  | none => rest
  | some t => p.formatType t ++ s ++ rest

/-- What is behind the value is behind the text from the name on. -/
theorem nameRest_append (name : Option Text) (s v w : Text) :
    nameRest name s (v ++ w) = nameRest name s v ++ w := by
  cases name <;> simp [nameRest]

/-- What is behind the rest is behind the text from the type on. -/
theorem typeRest_append (p : Profile) (type : Option Text) (s v w : Text) :
    typeRest p type s (v ++ w) = typeRest p type s v ++ w := by
  cases type <;> simp [typeRest]

/-- The gaps after a type and after a name.  There is one wherever something follows, and none at
the end of the line. -/
structure Gaps (type name : Option Text) (value s₁ s₂ : Text) : Prop where
  blanks₁ : Blanks s₁
  blanks₂ : Blanks s₂
  after_type : type.isSome = true → nameRest name s₂ value ≠ [] → s₁ ≠ []
  after_name : name.isSome = true → value ≠ [] → s₂ ≠ []
  at_end : value = [] → s₂ = []

/-- The columns are recovered from a line, whatever its gaps are. -/
def Recovers (p : Profile) (columns : Columns) (type name : Option Text)
    (value description : Text) : Prop :=
  ∀ s₁ s₂, Gaps type name value s₁ s₂ →
    cutType p columns.type (typeRest p type s₁ (nameRest name s₂ value)) =
        (type, nameRest name s₂ value) ∧
      cutName columns.name (nameRest name s₂ value) = (name, value) ∧
      dropDash value = description

/-! ## Bracketed types -/

section Balanced

variable {opener closer : Char}

/-- Every closer has its opener before it, and every opener its closer behind it. -/
def Balanced (opener closer : Char) (t : Text) : Prop :=
  (∀ u, u <+: t → u.count closer ≤ u.count opener) ∧ t.count closer = t.count opener

/-- A bracketed text is cut off at the closer that brings the count to zero, and at no earlier
one. -/
theorem balanced?_append_closer (hne : opener ≠ closer) {t : Text} {depth : Nat}
    (hopen : ∀ u, u <+: t → u.count closer < depth + u.count opener)
    (hcount : t.count closer + 1 = depth + t.count opener) (tail : Text) :
    balanced? opener closer depth (t ++ closer :: tail) = some (t, tail) := by
  induction t generalizing depth with
  | nil =>
    have hdepth : depth ≤ 1 := by simp at hcount; omega
    simp [balanced?, Ne.symm hne, hdepth]
  | cons c t ih =>
    have hfirst := hopen [c] ⟨t, rfl⟩
    -- Going on after the first character, whatever it does to the depth.
    have hrest : ∀ n, (∀ u, u <+: t → u.count closer < n + u.count opener) →
        t.count closer + 1 = n + t.count opener →
        (balanced? opener closer n (t ++ closer :: tail)).map (fun cut => (c :: cut.1, cut.2)) =
          some (c :: t, tail) := by
      intro n hn hc
      rw [ih hn hc]
      rfl
    have hcons : ∀ u, u <+: t →
        (c :: u).count closer < depth + (c :: u).count opener := fun u hu =>
      hopen (c :: u) (List.cons_prefix_cons.mpr ⟨rfl, hu⟩)
    rw [List.cons_append, balanced?]
    by_cases ho : c = opener
    · subst ho
      rw [if_pos rfl]
      apply hrest
      · intro u hu
        have := hcons u hu
        simp only [List.count_cons_self, List.count_cons_of_ne hne] at this
        omega
      · simp only [List.count_cons_self, List.count_cons_of_ne hne] at hcount
        omega
    · by_cases hc : c = closer
      · subst hc
        have hdeep : ¬ depth ≤ 1 := by
          simp only [List.count_cons_self, List.count_cons_of_ne ho, List.count_nil] at hfirst
          omega
        rw [if_neg ho, if_pos rfl, if_neg hdeep]
        apply hrest
        · intro u hu
          have := hcons u hu
          simp only [List.count_cons_self, List.count_cons_of_ne ho] at this
          omega
        · simp only [List.count_cons_self, List.count_cons_of_ne ho] at hcount
          omega
      · rw [if_neg ho, if_neg hc]
        apply hrest
        · intro u hu
          have := hcons u hu
          simpa only [List.count_cons_of_ne ho, List.count_cons_of_ne hc] using this
        · simpa only [List.count_cons_of_ne ho, List.count_cons_of_ne hc] using hcount

/-- A type whose brackets match is closed by the first closer after it. -/
theorem Balanced.balanced?_append {t : Text} (h : Balanced opener closer t) (hne : opener ≠ closer)
    (tail : Text) : balanced? opener closer 1 (t ++ closer :: tail) = some (t, tail) := by
  apply balanced?_append_closer hne
  · intro u hu
    have := h.1 u hu
    omega
  · have := h.2
    omega

/-- A type that was cut out is cut out again, whatever follows it. -/
theorem balanced?_replay {depth : Nat} {t inner tail : Text}
    (h : balanced? opener closer depth t = some (inner, tail)) (tail' : Text) :
    balanced? opener closer depth (inner ++ closer :: tail') = some (inner, tail') := by
  induction t generalizing depth inner with
  | nil => simp [balanced?] at h
  | cons c t ih =>
    have hnext : ∀ n, (balanced? opener closer n t).map (fun cut => (c :: cut.1, cut.2)) =
        some (inner, tail) → ∃ j, inner = c :: j ∧
          (balanced? opener closer n (j ++ closer :: tail')).map (fun cut => (c :: cut.1, cut.2)) =
            some (c :: j, tail') := by
      intro n hn
      obtain ⟨⟨j, tl⟩, hj, heq⟩ := Option.map_eq_some_iff.mp hn
      obtain ⟨rfl, rfl⟩ := Prod.mk.inj heq
      exact ⟨j, rfl, by rw [ih hj]; rfl⟩
    rw [balanced?] at h
    by_cases ho : c = opener
    · rw [if_pos ho] at h
      obtain ⟨j, rfl, hj⟩ := hnext _ h
      rw [List.cons_append, balanced?, if_pos ho]
      exact hj
    · rw [if_neg ho] at h
      by_cases hc : c = closer
      · rw [if_pos hc] at h
        by_cases hdepth : depth ≤ 1
        · rw [if_pos hdepth] at h
          obtain ⟨rfl, -⟩ := Prod.mk.inj (Option.some.inj h)
          rw [List.nil_append, balanced?, if_neg (hc ▸ ho), if_pos rfl, if_pos hdepth]
        · rw [if_neg hdepth] at h
          obtain ⟨j, rfl, hj⟩ := hnext _ h
          rw [List.cons_append, balanced?, if_neg ho, if_pos hc, if_neg hdepth]
          exact hj
      · rw [if_neg hc] at h
        obtain ⟨j, rfl, hj⟩ := hnext _ h
        rw [List.cons_append, balanced?, if_neg ho, if_neg hc]
        exact hj

/-- The brackets of a text. -/
def brackets (opener closer : Char) (t : Text) : Text :=
  t.filter fun c => c == opener || c == closer

/-- The brackets of a text are gathered part by part. -/
theorem brackets_append (s t : Text) :
    brackets opener closer (s ++ t) = brackets opener closer s ++ brackets opener closer t := by
  simp [brackets]

/-- Whether the first bracket is closed depends on the brackets alone. -/
theorem isSome_balanced?_brackets (depth : Nat) (t : Text) :
    (balanced? opener closer depth (brackets opener closer t)).isSome =
      (balanced? opener closer depth t).isSome := by
  induction t generalizing depth with
  | nil => rfl
  | cons c t ih =>
    by_cases ho : c = opener
    · have hcons : brackets opener closer (c :: t) = c :: brackets opener closer t := by
        simp [brackets, ho]
      rw [hcons, balanced?, balanced?, if_pos ho, if_pos ho]
      simp [ih]
    · by_cases hc : c = closer
      · have hcons : brackets opener closer (c :: t) = c :: brackets opener closer t := by
          simp [brackets, hc]
        rw [hcons, balanced?, balanced?, if_neg ho, if_neg ho, if_pos hc, if_pos hc]
        split
        · rfl
        · simp [ih]
      · have hcons : brackets opener closer (c :: t) = brackets opener closer t := by
          simp [brackets, ho, hc]
        rw [hcons, balanced?, if_neg ho, if_neg hc]
        simp [ih]

end Balanced

/-! ## Types -/

section CutType

variable {p : Profile} {opener closer : Char} {s rest type : Text}

/-- A type in brackets is recovered if its own closer is the one that ends it. -/
theorem takeType_formatType_append (hb : p.typeBrackets? = some (opener, closer))
    (htype : ∀ tail, balanced? opener closer 1 (type ++ closer :: tail) = some (type, tail))
    (hs : Blanks s) (hrest : StartsTight rest) :
    takeType p (p.formatType type ++ s ++ rest) = (some type, rest) := by
  have hsplit : p.formatType type ++ s ++ rest = opener :: (type ++ closer :: (s ++ rest)) := by
    rw [formatType_of_bracketed hb]
    simp
  rw [hsplit, takeType_of_balanced hb (htype _), trimStart_blanks_append hs hrest]

/-- A type without brackets is recovered if it is a word. -/
theorem takeType_word_append (hb : p.typeBrackets? = none) (htype : IsWord type) (hs : Blanks s)
    (hgap : rest ≠ [] → s ≠ []) (hrest : StartsTight rest) :
    takeType p (p.formatType type ++ s ++ rest) = (some type, rest) := by
  have hblank : StartsBlank (s ++ rest) := startsBlank_append_of_ne_nil hs hgap
  have hne : type ++ (s ++ rest) ≠ [] := by simp [htype.1]
  rw [formatType_of_unbracketed hb, List.append_assoc, takeType_of_unbracketed hb hne,
    word_append htype.2 hblank, afterWord_append htype.2 hblank, trimStart_blanks_append hs hrest]

/-- A text that does not open a bracket, or opens one that is never closed, has no type. -/
def Typeless (opener closer : Char) (t : Text) : Prop :=
  t.head? ≠ some opener ∨ balanced? opener closer 1 (t.drop 1) = none

/-- Where no type starts, none is taken. -/
theorem takeType_of_typeless (hb : p.typeBrackets? = some (opener, closer))
    (h : Typeless opener closer rest) : takeType p rest = (none, rest) := by
  cases rest with
  | nil => exact takeType_nil
  | cons c rest =>
    by_cases hc : c = opener
    · subst hc
      rcases h with h | h
      · exact absurd rfl h
      · exact takeType_of_unbalanced hb h
    · exact takeType_of_ne_opener hb hc rest

/-- Where no type is taken, none starts. -/
theorem typeless_of_takeType (hb : p.typeBrackets? = some (opener, closer))
    (h : (takeType p rest).1 = none) : Typeless opener closer rest := by
  cases rest with
  | nil => exact Or.inl (by simp)
  | cons c rest =>
    by_cases hc : c = opener
    · subst hc
      right
      cases hbal : balanced? c closer 1 rest with
      | none => exact hbal
      | some cut => rw [takeType_of_balanced hb hbal] at h; cases h
    · exact Or.inl (by simpa using hc)

/-- What is no type stays none when the text changes only between its brackets. -/
theorem Typeless.congr {t u : Text} (h : Typeless opener closer t) (hhead : u.head? = t.head?)
    (hbrackets : brackets opener closer u = brackets opener closer t) :
    Typeless opener closer u := by
  rcases h with h | h
  · exact Or.inl (hhead ▸ h)
  · by_cases ho : u.head? = some opener
    · right
      have hdrop : ∀ v : Text, v.head? = some opener →
          brackets opener closer v = opener :: brackets opener closer (v.drop 1) := by
        intro v hv
        obtain ⟨v, rfl⟩ := List.head?_eq_some_iff.mp hv
        simp [brackets]
      have hsame := hdrop u ho ▸ hdrop t (hhead ▸ ho) ▸ hbrackets
      have hrest := (List.cons.inj hsame).2
      rw [← Option.not_isSome_iff_eq_none, ← isSome_balanced?_brackets, hrest,
        isSome_balanced?_brackets, h]
      simp
    · exact Or.inl ho

end CutType

/-! ## Names and dashes -/

section CutName

variable {s value name : Text}

/-- A text whose first word is no dash has none to drop. -/
theorem not_after?_dash_of_ne {t : Text} (h : word t ≠ ['-']) : after? ['-', ' '] t = none := by
  cases hafter : after? ['-', ' '] t with
  | none => rfl
  | some rest =>
    have hblank : StartsBlank (' ' :: rest) := startsBlank_cons.mpr (by decide)
    have hdash : IsWord ['-'] := by decide
    have ht : t = ['-', ' '] ++ rest := eq_append_of_after? hafter
    have hword : word t = ['-'] := ht ▸ word_append hdash.2 hblank
    exact absurd hword h

/-- A name is recovered if it is a word and not taken for the dash. -/
theorem takeName_word_append (hname : IsWord name) (hs : Blanks s) (hgap : value ≠ [] → s ≠ [])
    (hend : value = [] → s = []) (hvalue : StartsTight value) (hdash : name = ['-'] → value = []) :
    takeName (name ++ s ++ value) = (some name, value) := by
  have hblank : StartsBlank (s ++ value) := startsBlank_append_of_ne_nil hs hgap
  have hword : word (name ++ (s ++ value)) = name := word_append hname.2 hblank
  have hnone : after? ['-', ' '] (name ++ (s ++ value)) = none := by
    by_cases h : name = ['-']
    · rw [h, hdash h, hend (hdash h)]
      decide
    · exact not_after?_dash_of_ne (hword.symm ▸ h)
  have hcond : ¬ ((name ++ (s ++ value)).isEmpty ||
      (after? "- " (name ++ (s ++ value))).isSome) = true := by
    simp [hnone, hname.1]
  rw [List.append_assoc, takeName, if_neg hcond, hword, afterWord_append hname.2 hblank,
    trimStart_blanks_append hs hvalue]

/-- A dash is not a name. -/
theorem takeName_dash (t : Text) : takeName ('-' :: ' ' :: t) = (none, '-' :: ' ' :: t) := by
  have hafter : after? ['-', ' '] ('-' :: ' ' :: t) = some t := after?_append ['-', ' '] t
  simp [takeName, hafter]

/-- A dash in front of a description is dropped. -/
theorem dropDash_dash {t : Text} (ht : StartsTight t) : dropDash ('-' :: ' ' :: t) = t := by
  have hafter : after? ['-', ' '] ('-' :: ' ' :: t) = some t := after?_append ['-', ' '] t
  have hspace : Blanks [' '] := blanks_replicate 1
  have hdrop : dropDash ('-' :: ' ' :: t) = trimStart ([' '] ++ t) := by simp [dropDash, hafter]
  rw [hdrop, trimStart_blanks_append hspace ht]

/-- A description that does not start with a dash keeps all its words. -/
theorem dropDash_of_ne {t : Text} (ht : StartsTight t) (h : (words t).head? ≠ some ['-']) :
    dropDash t = t := by
  by_cases hne : t = []
  · subst hne
    decide
  · have hword : word t ≠ ['-'] := by
      rw [words_eq_word_cons hne ht] at h
      simpa using h
    have htrim : trimEnd t ≠ ['-'] := by
      intro htrim
      obtain ⟨s, hs, hsplit⟩ := exists_trimEnd_append_blanks t
      have hdash : IsWord ['-'] := by decide
      rw [htrim] at hsplit
      apply hword
      rw [hsplit]
      have hstart : StartsBlank s := by simpa using hs.startsBlank_append startsBlank_nil
      exact word_append hdash.2 hstart
    simp [dropDash, htrim, not_after?_dash_of_ne hword]

end CutName

/-! ## The whole line -/

section OfText

variable {p : Profile} {tag s₀ rest lead description : Text}

/-- A word that a tag can be. -/
structure IsTag (p : Profile) (tag : Text) : Prop where
  word : IsWord tag
  introduced : tag.head?.any p.isIntroducer = true
  long : 1 < tag.length

/-- A line that starts with a tag starts with its introducer. -/
theorem IsTag.head?_append (h : IsTag p tag) (t : Text) :
    (tag ++ t).head?.any p.isIntroducer = true := by
  obtain ⟨c, tag, rfl⟩ := List.exists_cons_of_ne_nil h.word.1
  exact h.introduced

/-- A line of a tag, a gap and more starts with this tag. -/
theorem IsTag.starts (h : IsTag p tag) (hs : Blanks s₀) (hgap : rest ≠ [] → s₀ ≠ [])
    (hrest : StartsTight rest) :
    (tag ++ s₀ ++ rest).head?.any p.isIntroducer = true ∧
      TagLine.word (tag ++ s₀ ++ rest) = tag ∧ afterWord (tag ++ s₀ ++ rest) = rest := by
  have hblank : StartsBlank (s₀ ++ rest) := startsBlank_append_of_ne_nil hs hgap
  rw [List.append_assoc]
  exact ⟨h.head?_append _, word_append h.word.2 hblank,
    (afterWord_append h.word.2 hblank).trans (trimStart_blanks_append hs hrest)⟩

/-- The line of a structured tag with these columns and a description behind `lead`. -/
def ofColumns (tag : Text) (type name : Option Text) (description lead : Text) : TagLine where
  tag := tag
  type := type
  name := name
  description := description.nonempty?
  descriptionOffset? := description.nonempty?.map fun _ => octets lead
  lead := lead
  structured := true

/-- The line of a free tag with a description behind `lead`. -/
def ofTag (tag description lead : Text) : TagLine where
  tag := tag
  description := description.nonempty?
  descriptionOffset? := description.nonempty?.map fun _ => octets lead
  lead := lead
  structured := false

/-- **A line of a tag and its columns is cut into these columns.** -/
theorem ofText?_of_cuts {columns : Columns} {type name : Option Text} {afterType value : Text}
    (htag : IsTag p tag) (hcols : p.columns? tag = some columns) (hs : Blanks s₀)
    (hgap : rest ≠ [] → s₀ ≠ []) (hrest : StartsTight rest)
    (htype : cutType p columns.type rest = (type, afterType))
    (hname : cutName columns.name afterType = (name, value))
    (hvalue : dropDash value = description) (hend : EndsTight description)
    (hlead : tag ++ s₀ ++ rest = lead ++ description) :
    ofText? p (tag ++ s₀ ++ rest) =
      some (ofColumns tag type name description lead) := by
  obtain ⟨hintro, hword, hafter⟩ := htag.starts hs hgap hrest
  rw [ofText?_of_structured hintro (hword.symm ▸ htag.long) (hword.symm ▸ hcols)]
  simp only [hafter, htype, hname, hvalue, hword, describe, trimEnd_of_endsTight hend, ofColumns]
  rw [hlead, take_append_sub_length]

/-- A line is cut into its columns if they can be recovered from what is behind the tag. -/
theorem ofText?_of_recovers {columns : Columns} {type name : Option Text} {value s₁ s₂ : Text}
    (htag : IsTag p tag) (hcols : p.columns? tag = some columns) (hs : Blanks s₀)
    (hgap : typeRest p type s₁ (nameRest name s₂ value) ≠ [] → s₀ ≠ [])
    (hrest : StartsTight (typeRest p type s₁ (nameRest name s₂ value)))
    (hrecovers : Recovers p columns type name value description)
    (hgaps : Gaps type name value s₁ s₂) (hend : EndsTight description)
    (hlead : tag ++ s₀ ++ typeRest p type s₁ (nameRest name s₂ value) = lead ++ description) :
    ofText? p (tag ++ s₀ ++ typeRest p type s₁ (nameRest name s₂ value)) =
      some (ofColumns tag type name description lead) := by
  obtain ⟨htype, hname, hvalue⟩ := hrecovers s₁ s₂ hgaps
  exact ofText?_of_cuts htag hcols hs hgap hrest htype hname hvalue hend hlead

/-- A line of a free tag is cut into the tag and its value. -/
theorem ofText?_of_free_cut (htag : IsTag p tag) (hcols : p.columns? tag = none) (hs : Blanks s₀)
    (hgap : rest ≠ [] → s₀ ≠ []) (hrest : StartsTight rest) (hend : EndsTight rest) :
    ofText? p (tag ++ s₀ ++ rest) =
      some (ofTag tag rest (tag ++ s₀)) := by
  obtain ⟨hintro, hword, hafter⟩ := htag.starts hs hgap hrest
  rw [ofText?_of_free hintro (hword.symm ▸ htag.long) (hword.symm ▸ hcols)]
  simp only [hafter, hword, describe, trimEnd_of_endsTight hend, ofTag]
  rw [take_append_sub_length]

end OfText

end DocComment.TagLine
