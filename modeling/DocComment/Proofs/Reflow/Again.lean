import DocComment.Proofs.Reflow.Breaking
import DocComment.Proofs.TagLine.CutOff

/-!
# Re-flowing twice

Re-flowed lines are re-flowed to themselves (`wrap_wrap`).  A line that came of a broken one fits,
or it carries a single flowing word.  Behind the marker and spaces that word is all there is.
Behind a head it is the first word of the flowing text, and a line that ends there is read like the
whole line but for this: a description that is a lone dash is no description.  Either way there is
no place left to break the line at (`Unbreakable`).
-/

namespace DocComment.Reflow

open Text

section Again

variable {p : Profile} {width : Nat} {line head text : Text}

/-- A line with at most one flowing word. -/
def Unbreakable (p : Profile) (line : Text) : Prop :=
  ∀ head text, flowing? p line = some (head, text) → (words text).length ≤ 1

theorem endsTight_append_word {w : Text} (hw : IsWord w) (s : Text) : EndsTight (s ++ w) :=
  (endsTight_append hw.1).mpr hw.endsTight

theorem startsTight_of_flowing? (h : flowing? p line = some (head, text)) : StartsTight text := by
  obtain ⟨-, -, -, -, htight, -⟩ := exists_of_flowing? h
  exact htight

/-- A tight text of a single word is that word and blanks. -/
theorem trimEnd_of_words_eq {t w : Text} (ht : StartsTight t) (h : words t = [w]) :
    trimEnd t = w := by
  have hne : t ≠ [] := by
    rintro rfl
    cases h
  rw [TagLine.words_eq_word_cons hne ht] at h
  obtain ⟨hword, hnone⟩ := List.cons.inj h
  obtain ⟨s, hs, -, hsplit, htight⟩ := TagLine.exists_word_append t
  have hafter : TagLine.afterWord t = [] := by
    by_contra hrest
    exact words_ne_nil hrest htight hnone
  have hw : IsWord w := hword ▸ TagLine.isWord_word hne ht
  rw [hsplit, hafter, hword, List.append_nil, trimEnd_append_of_blanks hs,
    trimEnd_of_endsTight hw.endsTight]

/-- A single word is broken into a single row. -/
theorem Breaking.eq_singleton {column : Nat} {ws first : List Text} {more : List (List Text)}
    (h : Breaking width column ws (first :: more)) (hle : ws.length ≤ 1) :
    ∃ w, ws = [w] ∧ first = [w] ∧ more = [] := by
  have hfirst := List.length_pos_iff.mpr (h.ne_nil first List.mem_cons_self)
  have hmore : more = [] := by
    cases more with
    | nil => rfl
    | cons row more =>
      have hrow := List.length_pos_iff.mpr
        (h.ne_nil row (List.mem_cons_of_mem _ List.mem_cons_self))
      rw [← h.flatten_eq, List.flatten_cons, List.flatten_cons, List.length_append,
        List.length_append] at hle
      omega
  subst hmore
  have hws : first = ws := by simpa using h.flatten_eq
  subst hws
  obtain ⟨w, rfl⟩ := List.length_eq_one_iff.mp (by omega : first.length = 1)
  exact ⟨w, rfl, rfl, rfl⟩

/-- A line that cannot be broken stays as it is. -/
theorem wrapLine_of_unbreakable (hmarker : EndsTight (lineMarker p)) (hend : EndsTight line)
    (h : Unbreakable p line) (width : Nat) : wrapLine p width line = [line] := by
  rcases wrapLine_cases hmarker width line with
    ⟨hwrap, -⟩ | ⟨head, hflow, hwrap⟩ | ⟨head, text, first, more, hflow, hbreak, hwrap⟩
  · exact hwrap
  · obtain ⟨lead, s, rfl, rfl, -, hs, hlead⟩ := exists_of_flowing? hflow
    have hblanks : Blanks (lead ++ s) := blanks_append.mpr ⟨hlead rfl, hs⟩
    have htrim := trimEnd_of_endsTight hend
    rw [List.append_nil, List.append_assoc, trimEnd_append_of_blanks hblanks,
      trimEnd_of_endsTight hmarker] at htrim
    rw [hwrap, List.append_nil, List.append_assoc, ← htrim]
  · obtain ⟨lead, s, -, rfl, htight, hs, -⟩ := exists_of_flowing? hflow
    obtain ⟨w, hwords, rfl, rfl⟩ := hbreak.eq_singleton (h head text hflow)
    have hword := trimEnd_of_words_eq htight hwords
    have hw : IsWord w := isWord_of_mem_words (hwords ▸ List.mem_singleton_self w)
    have hline : head ++ text ++ s = head ++ w := by
      rw [← trimEnd_of_endsTight hend, trimEnd_append_of_blanks hs,
        trimEnd_append (by rw [hword]; exact hw.1), hword]
    rw [hwrap, hline, unwords_singleton]
    rfl

/-- Behind the marker and blanks, a single word cannot be broken. -/
theorem unbreakable_of_isWord {s w : Text} (hs : Blanks s) (hw : IsWord w) :
    Unbreakable p (lineMarker p ++ s ++ w) := by
  intro head text hflow
  rw [List.append_assoc, flowing?, after?_append, Option.bind_some,
    trimStart_append_of_blanks hs, trimStart_of_startsTight hw.startsTight] at hflow
  cases htag : TagLine.ofText? p w with
  | none =>
    rw [htag] at hflow
    obtain ⟨-, rfl⟩ := Prod.mk.inj (Option.some.inj hflow)
    rw [words_of_isWord hw, List.length_singleton]
  | some tagLine =>
    simp only [htag, TagLine.description_of_isWord hw htag, Option.map_none] at hflow
    cases hflow

theorem unbreakable_lineMarker : Unbreakable p (lineMarker p) := by
  intro head text hflow
  have hafter : after? (lineMarker p) (lineMarker p) = some [] := after?_eq_some_iff.mpr (by simp)
  have hnone : TagLine.ofText? p (trimStart []) = none := by simp [trimStart, TagLine.ofText?]
  rw [flowing?, hafter, Option.bind_some, hnone] at hflow
  obtain ⟨-, rfl⟩ := Prod.mk.inj (Option.some.inj hflow)
  exact Nat.zero_le 1

/-- Behind its head, the first word of the flowing text cannot be broken off. -/
theorem unbreakable_head (hflow : flowing? p line = some (head, text)) (hne : text ≠ []) :
    Unbreakable p (head ++ TagLine.word text) := by
  obtain ⟨content, hcontent, hcut⟩ := Option.bind_eq_some_iff.mp hflow
  have hblanks : Blanks (content.takeWhile isBlank) := fun c hc => List.mem_takeWhile_imp hc
  cases htag : TagLine.ofText? p (trimStart content) with
  | none =>
    rw [htag] at hcut
    obtain ⟨rfl, rfl⟩ := Prod.mk.inj (Option.some.inj hcut)
    exact unbreakable_of_isWord hblanks (TagLine.isWord_word hne (startsTight_trimStart content))
  | some tagLine =>
    rw [htag] at hcut
    obtain ⟨description, hdescription, hcut⟩ := Option.map_eq_some_iff.mp hcut
    obtain ⟨rfl, rfl⟩ := Prod.mk.inj hcut
    obtain ⟨rest, hsplit, -, -⟩ := TagLine.exists_rest_of_ofText? htag
    obtain ⟨again, hagain, hshort⟩ := TagLine.ofText?_cutOff htag hdescription
    have hw : IsWord (TagLine.word description) :=
      TagLine.isWord_word hne (startsTight_of_flowing? hflow)
    have htight : StartsTight (tagLine.lead ++ TagLine.word description) := by
      have hbody := startsTight_trimStart content
      by_cases hlead : tagLine.lead = []
      · rw [hlead]
        exact hw.startsTight
      · rw [hsplit, startsTight_append hlead] at hbody
        exact (startsTight_append hlead).mpr hbody
    intro head' text' hflow'
    rw [List.append_assoc, List.append_assoc, flowing?, after?_append, Option.bind_some,
      trimStart_append_of_blanks hblanks, trimStart_of_startsTight htight, hagain] at hflow'
    obtain ⟨description', hdescription', hcut'⟩ := Option.map_eq_some_iff.mp hflow'
    obtain ⟨-, rfl⟩ := Prod.mk.inj hcut'
    rcases hshort with hshort | hshort
    · rw [hshort] at hdescription'
      cases hdescription'
    · rw [hshort] at hdescription'
      obtain rfl := Option.some.inj hdescription'
      rw [words_of_isWord hw, List.length_singleton]

/-- **A line that was re-flowed stays as it is.** -/
theorem wrapLine_of_mem_wrapLine (hmarker : EndsTight (lineMarker p)) {l : Text}
    (h : l ∈ wrapLine p width line) : wrapLine p width l = [l] := by
  by_cases hle : l.length ≤ width
  · exact wrapLine_of_le hle
  rcases wrapLine_cases hmarker width line with
    ⟨hwrap, -⟩ | ⟨head, hflow, hwrap⟩ | ⟨head, text, first, more, hflow, hbreak, hwrap⟩
  · rw [hwrap] at h
    obtain rfl := List.mem_singleton.mp h
    exact hwrap
  · rw [hwrap] at h
    obtain rfl := List.mem_singleton.mp h
    exact wrapLine_of_unbreakable hmarker hmarker unbreakable_lineMarker width
  · obtain ⟨lead, s, hhead, -, htight, -, -⟩ := exists_of_flowing? hflow
    have hprefix : lineMarker p <+: head := hhead ▸ List.prefix_append _ _
    -- A line that does not fit carries a single word.
    have hsingle : ∀ row ∈ first :: more, ¬ head.length + (unwords row).length ≤ width →
        ∃ w, row = [w] ∧ IsWord w := by
      intro row hrow hwide
      have hone : row.length = 1 := by
        rw [length_unwords] at hwide
        exact (hbreak.fits row hrow).resolve_right hwide
      obtain ⟨w, rfl⟩ := List.length_eq_one_iff.mp hone
      refine ⟨w, rfl, isWord_of_mem_words (t := text) ?_⟩
      rw [← hbreak.flatten_eq]
      exact List.mem_flatten.mpr ⟨[w], hrow, List.mem_singleton_self w⟩
    rw [hwrap] at h
    rcases List.mem_cons.mp h with rfl | hmem
    · rw [List.length_append] at hle
      obtain ⟨w, rfl, hw⟩ := hsingle first List.mem_cons_self hle
      have hne : text ≠ [] := by
        rintro rfl
        cases hbreak.flatten_eq
      obtain rfl : w = TagLine.word text := by
        have hwords := hbreak.flatten_eq.trans (TagLine.words_eq_word_cons hne htight)
        exact (List.cons.inj hwords).1
      rw [unwords_singleton]
      exact wrapLine_of_unbreakable hmarker (endsTight_append_word hw _)
        (unbreakable_head hflow hne) width
    · obtain ⟨row, hrow, rfl⟩ := List.mem_map.mp hmem
      rw [List.length_append, length_continuation hprefix] at hle
      obtain ⟨w, rfl, hw⟩ := hsingle row (List.mem_cons_of_mem _ hrow) hle
      rw [unwords_singleton]
      exact wrapLine_of_unbreakable hmarker (endsTight_append_word hw _)
        (unbreakable_of_isWord (blanks_replicate _) hw) width

/-- **Re-flowing twice is re-flowing once.** -/
theorem wrap_wrap (language : Language) (config : Config) (width : Nat) (lines : List Text) :
    wrap (Profile.of language config) width (wrap (Profile.of language config) width lines) =
      wrap (Profile.of language config) width lines := by
  have hmarker := endsTight_lineMarker language config
  rw [wrap, wrap, List.flatMap_assoc]
  apply List.flatMap_congr
  intro line _
  have hagain : ∀ l ∈ wrapLine (Profile.of language config) width line,
      wrapLine (Profile.of language config) width l = [l] := fun l hl =>
    wrapLine_of_mem_wrapLine hmarker hl
  rw [List.flatMap_congr hagain, List.flatMap_singleton']

end Again

end DocComment.Reflow
