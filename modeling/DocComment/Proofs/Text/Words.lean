import DocComment.Proofs.Text.Trim

/-!
# Words

The words of a text are its maximal runs of characters that are not blank.  Joining words
by single spaces and splitting again gives the same words back (`words_unwords`), blanks at
the ends of a text belong to no word, and a text of joined words is tight at both ends.
-/

namespace DocComment.Text

/-- A text that is one word. -/
def IsWord (w : Text) : Prop := w ≠ [] ∧ ∀ c ∈ w, isBlank c = false

/-- A text that is empty or starts with a blank. -/
def StartsBlank (t : Text) : Prop := ∀ c ∈ t.head?, isBlank c = true

instance (w : Text) : Decidable (IsWord w) :=
  have := List.decidableBAll (fun c => isBlank c = false) w
  inferInstanceAs (Decidable (_ ∧ _))

@[simp] theorem startsBlank_nil : StartsBlank [] := by simp [StartsBlank]

/-- A text starts blank if its first character is a blank. -/
@[simp] theorem startsBlank_cons {c : Char} {t : Text} :
    StartsBlank (c :: t) ↔ isBlank c = true := by
  simp [StartsBlank]

/-- A text that starts blank does so behind blanks. -/
theorem Blanks.startsBlank_append {s t : Text} (hs : Blanks s) (ht : StartsBlank t) :
    StartsBlank (s ++ t) := by
  cases s with
  | nil => exact ht
  | cons c s => exact startsBlank_cons.mpr (hs c List.mem_cons_self)

theorem isWord_of_mem_words {t w : Text} (h : w ∈ words t) : IsWord w := mem_words h

/-- A word starts tight. -/
theorem IsWord.startsTight {w : Text} (hw : IsWord w) : StartsTight w := fun c hc =>
  hw.2 c (List.mem_of_mem_head? hc)

/-- A word ends tight. -/
theorem IsWord.endsTight {w : Text} (hw : IsWord w) : EndsTight w := fun c hc =>
  hw.2 c (List.mem_of_mem_getLast? hc)

/-- No separator, no split. -/
theorem splitWhere_of_forall_not {p : Char → Bool} {t : Text} (ht : ∀ c ∈ t, p c = false) :
    splitWhere p t = [t] := by
  induction t with
  | nil => rfl
  | cons c t ih =>
    have hc : p c = false := ht c List.mem_cons_self
    have hrest := ih fun d hd => ht d (List.mem_cons_of_mem _ hd)
    simp [splitWhere, hc, hrest]

@[simp] theorem words_nil : words [] = [] := rfl

/-- A word has itself as its only word. -/
theorem words_of_isWord {w : Text} (hw : IsWord w) : words w = [w] := by
  rw [words, splitWhere_of_forall_not hw.2]
  simp [hw.1]

/-- A blank in front adds no word. -/
theorem words_cons_of_blank {c : Char} (hc : isBlank c = true) (t : Text) :
    words (c :: t) = words t := by
  simpa using words_append_cons hc [] t

/-- Blanks in front of a text belong to no word. -/
theorem words_blanks_append {s : Text} (hs : Blanks s) (t : Text) :
    words (s ++ t) = words t := by
  induction s with
  | nil => rfl
  | cons c s ih =>
    obtain ⟨hc, hs⟩ := blanks_cons.mp hs
    rw [List.cons_append, words_cons_of_blank hc, ih hs]

/-- Words on both sides of a blank are separate. -/
theorem words_append_of_startsBlank {t : Text} (ht : StartsBlank t) (s : Text) :
    words (s ++ t) = words s ++ words t := by
  cases t with
  | nil => rw [List.append_nil, words_nil, List.append_nil]
  | cons c t =>
    have hc := startsBlank_cons.mp ht
    rw [words_append_cons hc, words_cons_of_blank hc]

/-- A word that a blank or the end follows is the first word of the text. -/
theorem words_isWord_append {w t : Text} (hw : IsWord w) (ht : StartsBlank t) :
    words (w ++ t) = w :: words t := by
  rw [words_append_of_startsBlank ht, words_of_isWord hw, List.singleton_append]

/-- Blanks behind a text belong to no word. -/
theorem words_append_blanks {s : Text} (hs : Blanks s) (t : Text) :
    words (t ++ s) = words t := by
  cases s with
  | nil => rw [List.append_nil]
  | cons c s =>
    obtain ⟨hc, hs⟩ := blanks_cons.mp hs
    have hnone : words s = [] := by simpa using words_blanks_append hs []
    rw [words_append_cons hc, hnone, List.append_nil]

/-- Trimming the start keeps the words. -/
@[simp] theorem words_trimStart (t : Text) : words (trimStart t) = words t := by
  obtain ⟨s, hs, ht⟩ := exists_blanks_append_trimStart t
  conv_rhs => rw [ht, words_blanks_append hs]

/-- Trimming the end keeps the words. -/
@[simp] theorem words_trimEnd (t : Text) : words (trimEnd t) = words t := by
  obtain ⟨s, hs, ht⟩ := exists_trimEnd_append_blanks t
  conv_rhs => rw [ht, words_append_blanks hs]

/-! ## Joined words -/

@[simp] theorem unwords_nil : unwords [] = [] := rfl

@[simp] theorem unwords_singleton (w : Text) : unwords [w] = w := by
  simp [unwords]

/-- Words are joined by a space. -/
theorem unwords_cons {w : Text} {ws : List Text} (h : ws ≠ []) :
    unwords (w :: ws) = w ++ ' ' :: unwords ws := by
  rw [unwords, List.intercalate_cons_of_ne_nil h]
  simp [unwords]

/-- Two runs of words are joined by a space. -/
theorem unwords_append {vs ws : List Text} (hv : vs ≠ []) (hw : ws ≠ []) :
    unwords (vs ++ ws) = unwords vs ++ ' ' :: unwords ws := by
  induction vs with
  | nil => exact absurd rfl hv
  | cons v vs ih =>
    by_cases hvs : vs = []
    · subst hvs
      rw [List.singleton_append, unwords_cons hw, unwords_singleton]
    · rw [List.cons_append, unwords_cons (by simp [hvs]), ih hvs, unwords_cons hvs]
      simp

/-- Joining two of the words beforehand makes no difference. -/
theorem unwords_joined_cons (v w : Text) (ws : List Text) :
    unwords ((v ++ ' ' :: w) :: ws) = unwords (v :: w :: ws) := by
  rw [unwords_cons (List.cons_ne_nil w ws)]
  by_cases h : ws = []
  · subst h
    simp
  · rw [unwords_cons h, unwords_cons h]
    simp

/-- A character of joined words is a space or stands in one of them. -/
theorem mem_unwords {c : Char} {ws : List Text} (h : c ∈ unwords ws) :
    c = ' ' ∨ ∃ w ∈ ws, c ∈ w := by
  induction ws with
  | nil => simp at h
  | cons w ws ih =>
    by_cases hws : ws = []
    · subst hws
      exact Or.inr ⟨w, List.mem_cons_self, by simpa using h⟩
    · rw [unwords_cons hws, List.mem_append, List.mem_cons] at h
      rcases h with h | rfl | h
      · exact Or.inr ⟨w, List.mem_cons_self, h⟩
      · exact Or.inl rfl
      · rcases ih h with h | ⟨v, hv, hc⟩
        · exact Or.inl h
        · exact Or.inr ⟨v, List.mem_cons_of_mem _ hv, hc⟩

variable {ws : List Text}

/-- Joined words are not empty. -/
theorem unwords_ne_nil (hne : ws ≠ []) (hws : ∀ w ∈ ws, IsWord w) : unwords ws ≠ [] := by
  obtain ⟨w, ws, rfl⟩ := List.exists_cons_of_ne_nil hne
  have hw := (hws w List.mem_cons_self).1
  by_cases h : ws = []
  · subst h
    simpa using hw
  · rw [unwords_cons h]
    simp

/-- Joined words start with a word. -/
theorem startsTight_unwords (hws : ∀ w ∈ ws, IsWord w) : StartsTight (unwords ws) := by
  cases ws with
  | nil => simp
  | cons w ws =>
    have hw := hws w List.mem_cons_self
    by_cases h : ws = []
    · subst h
      simpa using hw.startsTight
    · rw [unwords_cons h, startsTight_append hw.1]
      exact hw.startsTight

/-- Joined words end with a word. -/
theorem endsTight_unwords (hws : ∀ w ∈ ws, IsWord w) : EndsTight (unwords ws) := by
  induction ws with
  | nil => simp
  | cons w ws ih =>
    have hrest : ∀ v ∈ ws, IsWord v := fun v hv => hws v (List.mem_cons_of_mem _ hv)
    by_cases h : ws = []
    · subst h
      simpa using (hws w List.mem_cons_self).endsTight
    · have hne : ([' '] ++ unwords ws) ≠ [] := by simp
      rw [unwords_cons h, ← List.singleton_append, endsTight_append hne,
        endsTight_append (unwords_ne_nil h hrest)]
      exact ih hrest

/-- **Joined words split into themselves.** -/
theorem words_unwords (hws : ∀ w ∈ ws, IsWord w) : words (unwords ws) = ws := by
  induction ws with
  | nil => rfl
  | cons w ws ih =>
    have hw := hws w List.mem_cons_self
    have hrest := ih fun v hv => hws v (List.mem_cons_of_mem _ hv)
    by_cases h : ws = []
    · subst h
      rw [unwords_singleton, words_of_isWord hw]
    · have hblank : isBlank ' ' = true := by decide
      rw [unwords_cons h, words_append_cons hblank, words_of_isWord hw, hrest]
      rfl

/-- A text that ends tight keeps its last character when its blanks are taken out. -/
theorem getLast?_compact {t : Text} (ht : EndsTight t) : (compact t).getLast? = t.getLast? := by
  rcases List.eq_nil_or_concat t with rfl | ⟨t, c, rfl⟩
  · rfl
  · rw [List.concat_eq_append] at ht ⊢
    have hc := endsTight_concat.mp ht
    simp [compact, hc]

/-- Joining the words of a text anew keeps its last character. -/
theorem getLast?_unwords_words {t : Text} (ht : EndsTight t) :
    (unwords (words t)).getLast? = t.getLast? := by
  have hws : ∀ w ∈ words t, IsWord w := fun _ hw => isWord_of_mem_words hw
  have hcompact : compact (unwords (words t)) = compact t := by
    rw [← flatten_words, words_unwords hws, flatten_words]
  rw [← getLast?_compact (endsTight_unwords hws), hcompact, getLast?_compact ht]

/-- A tight text that is not empty has a word. -/
theorem words_ne_nil {t : Text} (hne : t ≠ []) (ht : StartsTight t) : words t ≠ [] := by
  intro h
  have hcompact : compact t = [] := by rw [← flatten_words, h]; rfl
  exact hne (eq_nil_of_compact_eq_nil ht hcompact)

end DocComment.Text
