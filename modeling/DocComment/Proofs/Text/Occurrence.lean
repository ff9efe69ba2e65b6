import DocComment.Proofs.Text.Lines
import DocComment.Proofs.Text.Words

/-!
# Where a word occurs

A word does not lie across a character that it does not hold (`isInfix_of_isInfix_append`), and so
not across a blank.  Texts in which a word does not occur can therefore be joined at a blank, and a
text in which it occurs at the end at most can be joined to them.  Where a word occurs at all it has
a first and a last occurrence (`exists_first`, `exists_last`).  The lines and the words of a text
are parts of it, and so is what is left without a known beginning or ending.
-/

namespace DocComment.Text

/-- The word does not occur in the text. -/
def Free (w t : Text) : Prop := ¬ w <:+: t

/-- The word occurs in the text at its end, if at all. -/
def OnlyAtEnd (w t : Text) : Prop := ∀ before after, t = before ++ w ++ after → after = []

instance (w t : Text) : Decidable (Free w t) := inferInstanceAs (Decidable (¬ w <:+: t))

/-- A word that does not occur in a text does not occur in a part of it. -/
theorem Free.of_isInfix {w s t : Text} (h : Free w t) (hs : s <:+: t) : Free w s :=
  fun hw => h (hw.trans hs)

/-- A character of two texts put together stands in one of the two. -/
theorem append_eq_append_cons_cases {a b u d : Text} {c : Char} (h : a ++ b = u ++ c :: d) :
    (∃ v, a = u ++ c :: v ∧ d = v ++ b) ∨ ∃ v, u = a ++ v ∧ b = v ++ c :: d := by
  rcases List.append_eq_append_iff.mp h with ⟨v, hu, hb⟩ | ⟨v, ha, hv⟩
  · exact Or.inr ⟨v, hu, hb⟩
  · cases v with
    | nil => exact Or.inr ⟨[], by simp [ha], hv.symm⟩
    | cons x v =>
      obtain ⟨rfl, hd⟩ := List.cons.inj hv
      exact Or.inl ⟨v, ha, hd⟩

/-- A character that is not in the first half of a text is in the second. -/
theorem exists_of_append_eq_append_cons {a b u d : Text} {c : Char} (hc : c ∉ a)
    (h : a ++ b = u ++ c :: d) : ∃ v, u = a ++ v ∧ b = v ++ c :: d := by
  refine (append_eq_append_cons_cases h).resolve_left fun ⟨v, hv, _⟩ => hc ?_
  rw [hv]
  exact List.mem_append_right u List.mem_cons_self

/-- **A word does not lie across a character that it does not hold.** -/
theorem isInfix_of_isInfix_append {w s t : Text} (ht : ∀ c ∈ t.head?, c ∉ w) (h : w <:+: s ++ t) :
    w <:+: s ∨ w <:+: t := by
  obtain ⟨a, b, hab⟩ := h
  rcases List.append_eq_append_iff.mp hab with ⟨u, hs, -⟩ | ⟨u, haw, hub⟩
  · exact Or.inl ⟨a, u, hs.symm⟩
  · rcases List.append_eq_append_iff.mp haw with ⟨v, hs, hv⟩ | ⟨v, -, hv⟩
    · -- The word would start in the first text and end in the second, behind its first character.
      cases u with
      | nil =>
        rw [List.append_nil] at hv
        exact Or.inl ⟨a, [], by rw [List.append_nil, hs, hv]⟩
      | cons c u =>
        have hmem : c ∈ w := by
          rw [hv]
          simp
        exact absurd hmem (ht c (by rw [hub]; rfl))
    · exact Or.inr ⟨v, b, by rw [hub, hv]⟩

/-- A word does not lie across a blank. -/
theorem isInfix_append {w s t : Text} (hw : IsWord w) (ht : StartsBlank t) (h : w <:+: s ++ t) :
    w <:+: s ∨ w <:+: t := by
  refine isInfix_of_isInfix_append (fun c hc hmem => ?_) h
  have hblank := ht c hc
  rw [hw.2 c hmem] at hblank
  cases hblank

/-- A word lies on one side of a blank, so it occurs in neither half or not at all. -/
theorem free_append {w s t : Text} (hw : IsWord w) (hs : Free w s) (ht : Free w t)
    (hblank : StartsBlank t) : Free w (s ++ t) := by
  intro h
  rcases isInfix_append hw hblank h with h | h
  · exact hs h
  · exact ht h

/-- No word occurs in a run of blanks. -/
theorem free_of_blanks {w t : Text} (hw : IsWord w) (ht : Blanks t) : Free w t := by
  intro h
  obtain ⟨c, rest, rfl⟩ := List.exists_cons_of_ne_nil hw.1
  have hblank := ht c (h.subset List.mem_cons_self)
  rw [hw.2 c List.mem_cons_self] at hblank
  cases hblank

/-- Blanks in front add no occurrence of a word. -/
theorem free_blanks_append {w s t : Text} (hw : IsWord w) (hs : Blanks s) (ht : Free w t) :
    Free w (s ++ t) := by
  induction s with
  | nil => exact ht
  | cons c s ih =>
    obtain ⟨hc, hs⟩ := blanks_cons.mp hs
    intro h
    rcases List.infix_cons_iff.mp h with hstart | hrest
    · -- The word would start with a blank.
      obtain ⟨d, w, rfl⟩ := List.exists_cons_of_ne_nil hw.1
      obtain rfl := (List.cons_prefix_cons.mp hstart).1
      rw [hw.2 d List.mem_cons_self] at hc
      cases hc
    · exact ih hs hrest

/-- Texts free of a word can be joined at a character that the word does not hold. -/
theorem Free.append_cons {w s t : Text} {c : Char} (hs : Free w s) (hc : c ∉ w) (ht : Free w t) :
    Free w (s ++ c :: t) := by
  intro h
  rcases isInfix_of_isInfix_append (fun d hd => Option.some.inj hd ▸ hc) h with h | h
  · exact hs h
  · rcases List.infix_cons_iff.mp h with hstart | hrest
    · cases w with
      | nil => exact hs List.nil_infix
      | cons d w => exact hc ((List.cons_prefix_cons.mp hstart).1 ▸ List.mem_cons_self)
    · exact ht hrest

/-- A text without the first character of a word can stand before a text free of the word. -/
theorem Free.append_left {w s t : Text} {c : Char} (ht : Free (c :: w) t) (hs : c ∉ s) :
    Free (c :: w) (s ++ t) := by
  induction s with
  | nil => exact ht
  | cons d s ih =>
    rw [List.mem_cons, not_or] at hs
    intro h
    rcases List.infix_cons_iff.mp h with hstart | hrest
    · exact hs.1 (List.cons_prefix_cons.mp hstart).1
    · exact ih hs.2 hrest

/-! ## The first and the last occurrence -/

section Occurrences

variable {w : Text}

/-- A word does not occur in its own beginning. -/
theorem free_dropLast (hw : w ≠ []) : Free w w.dropLast := by
  intro h
  have hlength := h.length_le
  have hpos := List.length_pos_iff.mpr hw
  rw [List.length_dropLast] at hlength
  omega

/-- **The first occurrence of a word** is no later than any other: the word does not occur in what
stands before, not even with all of it but its last character. -/
theorem exists_first (hw : w ≠ []) (a b : Text) :
    ∃ u v, a ++ w ++ b = u ++ w ++ v ∧ u <+: a ∧ Free w (u ++ w.dropLast) := by
  induction a with
  | nil => exact ⟨[], b, rfl, List.nil_prefix, free_dropLast hw⟩
  | cons c a ih =>
    by_cases hstart : w <+: c :: (a ++ w ++ b)
    · obtain ⟨v, hv⟩ := hstart
      exact ⟨[], v, hv.symm, List.nil_prefix, free_dropLast hw⟩
    · obtain ⟨u, v, heq, hu, hfree⟩ := ih
      have hshort : u ++ w.dropLast <+: a ++ w ++ b := by
        rw [heq, List.append_assoc, List.prefix_append_right_inj]
        exact (List.dropLast_prefix w).trans (List.prefix_append w v)
      refine ⟨c :: u, v, congrArg (c :: ·) heq, List.cons_prefix_cons.mpr ⟨rfl, hu⟩, fun h => ?_⟩
      rcases List.infix_cons_iff.mp h with hstarts | hrest
      · exact hstart (hstarts.trans (List.cons_prefix_cons.mpr ⟨rfl, hshort⟩))
      · exact hfree hrest

/-- **The last occurrence of a word** is no earlier than any other. -/
theorem exists_last (hw : w ≠ []) (a b : Text) :
    ∃ u v, a ++ w ++ b = u ++ w ++ v ∧ v <:+ b ∧ Free w (w.tail ++ v) := by
  obtain ⟨u, v, heq, hu, hfree⟩ :=
    exists_first (List.reverse_ne_nil_iff.mpr hw) b.reverse a.reverse
  refine ⟨v.reverse, u.reverse, ?_, ?_, fun h => hfree ?_⟩
  · have hreverse := congrArg List.reverse heq
    simpa only [List.reverse_append, List.reverse_reverse, List.append_assoc] using hreverse
  · rw [← List.reverse_prefix, List.reverse_reverse]
    exact hu
  · rw [← List.reverse_infix, List.reverse_append, List.reverse_reverse, ← List.tail_reverse,
      List.reverse_reverse]
    exact h

/-- Before its first occurrence a word does not start. -/
theorem Free.not_isPrefix {a u : Text} (h : Free w (a ++ w.dropLast)) (hne : u ≠ []) (hu : u <:+ a)
    (r : Text) : ¬ w <+: u ++ (w ++ r) := by
  intro hprefix
  have hpos := List.length_pos_iff.mpr hne
  have hshort : w <+: u ++ w.dropLast := by
    apply List.prefix_of_prefix_length_le hprefix
    · rw [List.prefix_append_right_inj]
      exact (List.dropLast_prefix w).trans (List.prefix_append w r)
    · rw [List.length_append, List.length_dropLast]
      omega
  obtain ⟨b, rfl⟩ := hu
  apply h
  rw [List.append_assoc]
  exact hshort.isInfix.trans (List.suffix_append b _).isInfix

end Occurrences

/-! ## At the end at most -/

section OnlyAtEnd

variable {w s t : Text}

/-- A word occurs at the end only if it does not occur before the last character. -/
theorem onlyAtEnd_iff (hw : w ≠ []) : OnlyAtEnd w t ↔ Free w t.dropLast := by
  constructor
  · rintro h ⟨a, b, hab⟩
    have hne : t ≠ [] := by
      rintro rfl
      rw [List.dropLast_nil, List.append_eq_nil_iff, List.append_eq_nil_iff] at hab
      exact hw hab.1.2
    have ht : t = a ++ w ++ (b ++ [t.getLast hne]) := by
      rw [← List.append_assoc, hab, List.dropLast_append_getLast]
    exact absurd (h a _ ht) (by simp)
  · intro h before after ht
    by_contra hne
    obtain ⟨rest, c, rfl⟩ := (List.eq_nil_or_concat' after).resolve_left hne
    refine h ⟨before, rest, ?_⟩
    rw [ht, ← List.append_assoc, List.dropLast_concat]

/-- A word that occurs only at the end of a text does so in every end of it. -/
theorem OnlyAtEnd.of_isSuffix (h : OnlyAtEnd w t) (hs : s <:+ t) : OnlyAtEnd w s := by
  obtain ⟨r, rfl⟩ := hs
  intro before after heq
  exact h (r ++ before) after (by rw [heq]; simp only [List.append_assoc])

/-- Without the word at its end the text is free of it. -/
theorem OnlyAtEnd.free (h : OnlyAtEnd w t) (hend : ¬ w <:+ t) : Free w t := by
  rintro ⟨a, b, hab⟩
  obtain rfl := h a b hab.symm
  exact hend ⟨a, by rw [← hab, List.append_nil]⟩

/-- What stands before the only occurrence is free of the word. -/
theorem OnlyAtEnd.free_left (h : OnlyAtEnd w (s ++ w)) (hw : w ≠ []) : Free w s := by
  rintro ⟨a, b, hab⟩
  have hafter := h a (b ++ w) (by rw [← hab]; simp only [List.append_assoc])
  exact hw (List.append_eq_nil_iff.mp hafter).2

/-- A word that does not occur occurs nowhere but at the end. -/
theorem Free.onlyAtEnd (h : Free w t) : OnlyAtEnd w t := by
  rintro before after rfl
  exact absurd ⟨before, after, rfl⟩ h

/-- A text free of the word may stand in front, if a blank keeps the two apart. -/
theorem OnlyAtEnd.prepend (hw : IsWord w) (hs : Free w s) (ht : OnlyAtEnd w t)
    (hblank : StartsBlank t) : OnlyAtEnd w (s ++ t) := by
  by_cases hne : t = []
  · subst hne
    rw [List.append_nil]
    exact hs.onlyAtEnd
  · rw [onlyAtEnd_iff hw.1] at ht ⊢
    rw [List.dropLast_append_of_ne_nil hne]
    refine free_append hw hs ht ?_
    obtain ⟨c, t, rfl⟩ := List.exists_cons_of_ne_nil hne
    cases t with
    | nil => exact startsBlank_nil
    | cons d t => exact startsBlank_cons.mpr (startsBlank_cons.mp hblank)

/-- Blanks may stand in front. -/
theorem OnlyAtEnd.blanks_append (hw : IsWord w) (hs : Blanks s) (ht : OnlyAtEnd w t) :
    OnlyAtEnd w (s ++ t) := by
  by_cases hne : t = []
  · subst hne
    rw [List.append_nil]
    exact (free_of_blanks hw hs).onlyAtEnd
  · rw [onlyAtEnd_iff hw.1] at ht ⊢
    rw [List.dropLast_append_of_ne_nil hne]
    exact free_blanks_append hw hs ht

/-- Only the last of several lines may end in the word. -/
theorem onlyAtEnd_unlines (hw : IsWord w) {ls : List Text} {last : Text}
    (hls : ∀ l ∈ ls, Free w l) (hlast : OnlyAtEnd w last) :
    OnlyAtEnd w (unlines (ls ++ [last])) := by
  induction ls with
  | nil => rwa [List.nil_append, unlines_singleton]
  | cons l ls ih =>
    obtain ⟨hl, hls⟩ := List.forall_mem_cons.mp hls
    have hfeed : Blanks ['\n'] := by decide
    rw [List.cons_append, unlines_cons (by simp)]
    exact .prepend hw hl ((ih hls).blanks_append hw hfeed) (startsBlank_cons.mpr (by decide))

/-- Joined lines end with the last of them. -/
theorem isSuffix_unlines (ls : List Text) (last : Text) : last <:+ unlines (ls ++ [last]) := by
  induction ls with
  | nil => simpa only [List.nil_append, unlines_singleton] using List.suffix_refl last
  | cons l ls ih =>
    rw [List.cons_append, unlines_cons (by simp)]
    exact (ih.trans (List.suffix_cons _ _)).trans (List.suffix_append _ _)

/-- Joined lines start with the first of them. -/
theorem isPrefix_unlines (first : Text) (ls : List Text) : first <+: unlines (first :: ls) := by
  by_cases h : ls = []
  · simp [h]
  · rw [unlines_cons h]
    exact List.prefix_append _ _

/-- A word at the end of a text lies behind every space. -/
theorem isSuffix_of_isSuffix_append {w s t : Text} (hw : IsWord w) (h : w <:+ s ++ ' ' :: t) :
    w <:+ t := by
  have hspace : ' ' ∉ w := fun hmem => absurd (hw.2 _ hmem) (by decide)
  rcases List.suffix_or_suffix_of_suffix h (List.suffix_append s _) with hsuffix | ⟨u, hu⟩
  · rcases List.suffix_cons_iff.mp hsuffix with heq | hsuffix
    · exact absurd (heq ▸ List.mem_cons_self) hspace
    · exact hsuffix
  · exact absurd (hu ▸ List.mem_append_right u List.mem_cons_self) hspace

/-- Trimming leaves a word where it is. -/
theorem trim_append_word (hw : IsWord w) (a b : Text) :
    trim (a ++ w ++ b) = trimStart a ++ w ++ trimEnd b := by
  obtain ⟨r, hr, ha⟩ := exists_blanks_append_trimStart a
  obtain ⟨u, hu, hb⟩ := exists_trimEnd_append_blanks b
  have hstart : StartsTight (trimStart a ++ w ++ trimEnd b) := by
    by_cases hne : trimStart a = []
    · rw [hne, List.nil_append, startsTight_append hw.1]
      exact hw.startsTight
    · rw [List.append_assoc, startsTight_append hne]
      exact startsTight_trimStart a
  have hend : EndsTight (trimStart a ++ w ++ trimEnd b) := by
    by_cases hne : trimEnd b = []
    · rw [hne, List.append_nil, endsTight_append hw.1]
      exact hw.endsTight
    · rw [endsTight_append hne]
      exact endsTight_trimEnd b
  calc trim (a ++ w ++ b)
      = trim (r ++ ((trimStart a ++ w ++ trimEnd b) ++ u)) := by
        conv_lhs => rw [ha, hb]
        simp only [List.append_assoc]
    _ = trim (trimStart a ++ w ++ trimEnd b) := by
        rw [trim_append_of_blanks hr, trim_append_blanks hu]
    _ = trimStart a ++ w ++ trimEnd b := trim_of_tight hstart hend

/-- What a text starts with after its blanks, it starts with whatever comes behind it. -/
theorem isPrefix_trim_append (hw : IsWord w) (h : w <+: trim s) (t : Text) :
    w <+: trim (s ++ t) := by
  obtain ⟨u, hu⟩ := h
  obtain ⟨b, e, hb, -, hs⟩ := exists_blanks_trim s
  have htext : s ++ t = b ++ w ++ (u ++ e ++ t) := by
    rw [← hu] at hs
    rw [hs]
    simp only [List.append_assoc]
  rw [htext, trim_append_word hw, trimStart_of_blanks hb, List.nil_append]
  exact List.prefix_append _ _

/-- What a text ends in before its blanks, it ends in whatever comes before it. -/
theorem isSuffix_trim_append (hw : IsWord w) (h : w <:+ trim t) (s : Text) :
    w <:+ trim (s ++ t) := by
  obtain ⟨u, hu⟩ := h
  obtain ⟨b, e, -, he, ht⟩ := exists_blanks_trim t
  have htext : s ++ t = s ++ b ++ u ++ w ++ e := by
    rw [← hu] at ht
    rw [ht]
    simp only [List.append_assoc]
  rw [htext, trim_append_word hw, trimEnd_of_blanks he, List.append_nil]
  exact List.suffix_append _ _

end OnlyAtEnd

/-! ## Cuts at a character -/

section Cuts

variable {s t : Text}

/-- A character of a class is none outside of it. -/
theorem ne_of_class {k : Char → Bool} {c d : Char} (hc : k c = true) (hd : k d = false) :
    c ≠ d := by
  rintro rfl
  rw [hc] at hd
  cases hd

/-- A text is split at a character that does not occur before. -/
theorem splitFirst?_append_cons {c : Char} (hs : c ∉ s) (t : Text) :
    splitFirst? c (s ++ c :: t) = some (s, t) := by
  induction s with
  | nil => rw [List.nil_append, splitFirst?, if_pos rfl]
  | cons d s ih =>
    obtain ⟨hd, hs⟩ := not_or.mp (mt List.mem_cons.mpr hs)
    rw [List.cons_append, splitFirst?, if_neg (Ne.symm hd), ih hs]
    rfl

/-- A text without such a character is not split. -/
theorem splitLast?_eq_none {k : Char → Bool} (ht : ∀ d ∈ t, k d = false) :
    splitLast? k t = none := by
  induction t with
  | nil => rfl
  | cons d t ih =>
    obtain ⟨hd, ht⟩ := List.forall_mem_cons.mp ht
    simp [splitLast?, ih ht, hd]

/-- A text is split at a character behind which there is no other of its kind. -/
theorem splitLast?_append_cons {k : Char → Bool} {c : Char} (hc : k c = true)
    (ht : ∀ d ∈ t, k d = false) (s : Text) : splitLast? k (s ++ c :: t) = some (s, t) := by
  induction s with
  | nil => simp [splitLast?, splitLast?_eq_none ht, hc]
  | cons d s ih => rw [List.cons_append, splitLast?, ih]

end Cuts

/-! ## Parts of a text -/

/-- The lines of a text are parts of it, and the first is its beginning. -/
theorem isInfix_of_mem_lines {t : Text} :
    (∀ l ∈ lines t, l <:+: t) ∧ ∀ l ∈ (lines t).head?, l <+: t := by
  fun_induction lines t with
  | case1 => simp
  | case2 rest ih =>
    refine ⟨fun l hl => ?_, by simp⟩
    rcases List.mem_cons.mp hl with rfl | hl
    · exact List.nil_infix
    · exact (ih.1 l hl).trans (List.suffix_cons _ _).isInfix
  | case3 rest ih =>
    refine ⟨fun l hl => ?_, by simp⟩
    rcases List.mem_cons.mp hl with rfl | hl
    · exact List.nil_infix
    · exact (ih.1 l hl).trans ((List.suffix_cons _ _).trans (List.suffix_cons _ _)).isInfix
  | case4 c rest _ _ hrest ih =>
    have hprefix : [c] <+: c :: rest := List.cons_prefix_cons.mpr ⟨rfl, List.nil_prefix⟩
    simpa using And.intro hprefix.isInfix hprefix
  | case5 c rest _ _ line more hrest ih =>
    rw [hrest] at ih
    have hprefix : c :: line <+: c :: rest := List.cons_prefix_cons.mpr ⟨rfl, ih.2 line rfl⟩
    refine ⟨fun l hl => ?_, fun l hl => Option.some.inj hl ▸ hprefix⟩
    rcases List.mem_cons.mp hl with rfl | hl
    · exact hprefix.isInfix
    · exact (ih.1 l (List.mem_cons_of_mem _ hl)).trans (List.suffix_cons _ _).isInfix

/-- The pieces between any characters are parts of the text, and the first is its beginning. -/
theorem isInfix_of_mem_splitWhere {p : Char → Bool} {t : Text} :
    (∀ piece ∈ splitWhere p t, piece <:+: t) ∧ ∀ piece ∈ (splitWhere p t).head?, piece <+: t := by
  induction t with
  | nil => simp [splitWhere]
  | cons c t ih =>
    rw [splitWhere]
    split
    · refine ⟨fun piece hp => ?_, by simp⟩
      rcases List.mem_cons.mp hp with rfl | hp
      · exact List.nil_infix
      · exact (ih.1 piece hp).trans (List.suffix_cons _ _).isInfix
    · obtain ⟨first, more, ht⟩ := List.exists_cons_of_ne_nil (splitWhere_ne_nil p t)
      rw [ht] at ih ⊢
      have hprefix : c :: first <+: c :: t := List.cons_prefix_cons.mpr ⟨rfl, ih.2 first rfl⟩
      refine ⟨fun piece hp => ?_, fun piece hp => Option.some.inj hp ▸ hprefix⟩
      rcases List.mem_cons.mp hp with rfl | hp
      · exact hprefix.isInfix
      · exact (ih.1 piece (List.mem_cons_of_mem _ hp)).trans (List.suffix_cons _ _).isInfix

/-- The words of a text are parts of it. -/
theorem isInfix_of_mem_words {t w : Text} (h : w ∈ words t) : w <:+: t :=
  isInfix_of_mem_splitWhere.1 w (List.mem_filter.mp h).1

/-- There is something after a beginning exactly if the text starts with it. -/
theorem isSome_after?_iff {start t : Text} : (after? start t).isSome = true ↔ start <+: t := by
  rw [Option.isSome_iff_exists]
  constructor
  · intro h
    obtain ⟨rest, hrest⟩ := h
    exact ⟨rest, (eq_append_of_after? hrest).symm⟩
  · intro h
    obtain ⟨rest, rfl⟩ := h
    exact ⟨rest, after?_append start rest⟩

/-- What is found before an ending makes up the text with it. -/
theorem eq_append_of_before? {ending t rest : Text} (h : before? ending t = some rest) :
    t = rest ++ ending := by
  obtain ⟨r, hr, rfl⟩ := Option.map_eq_some_iff.mp h
  have ht := congrArg List.reverse (eq_append_of_after? hr)
  rwa [List.reverse_reverse, List.reverse_append, List.reverse_reverse] at ht

/-- If nothing is found before an ending, the text does not end in it. -/
theorem not_isSuffix_of_before? {ending t : Text} (h : before? ending t = none) :
    ¬ ending <:+ t := by
  rintro ⟨r, rfl⟩
  rw [before?, List.reverse_append, after?_append] at h
  cases h

/-- What is left behind a beginning, or without one, is an end of the text. -/
theorem getD_after?_isSuffix (start t : Text) : (after? start t).getD t <:+ t := by
  cases h : after? start t with
  | none => exact List.suffix_rfl
  | some rest => exact ⟨start, (eq_append_of_after? h).symm⟩

/-- Trimming the start cuts a part out of a text. -/
theorem trimStart_isInfix (t : Text) : trimStart t <:+: t := (List.dropWhile_suffix _).isInfix

/-- Trimming the end cuts a part out of a text. -/
theorem trimEnd_isInfix (t : Text) : trimEnd t <:+: t := by
  obtain ⟨s, -, hs⟩ := exists_trimEnd_append_blanks t
  exact ⟨[], s, hs.symm⟩

/-- Trimming both ends cuts a part out of a text. -/
theorem trim_isInfix (t : Text) : trim t <:+: t := (trimEnd_isInfix _).trans (trimStart_isInfix t)

end DocComment.Text
