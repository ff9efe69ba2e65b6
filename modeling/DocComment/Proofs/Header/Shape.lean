import DocComment.Header
import DocComment.Proofs.Pattern.Covering
import DocComment.Proofs.TagLine.Split
import DocComment.Proofs.Text.Lines

/-!
# The shape of a configured line

A configured line is a bare tag, a tag with a remainder behind it, or free text, and which of them it
is can be told without the pattern that takes it apart.  A tag is a word; what follows it is a gap of
blanks and a remainder on the same line (`Divides`).  Blanks at the end are no remainder as long as
there is anything else, so of blanks alone only the last one is left to be one.  The search finds
exactly these parts (`find_tagPattern`).
-/

namespace DocComment.Header

open Pattern Text

/-- A word that starts like a tag and goes on. -/
def IsTagWord (t : Text) : Prop := ∃ c u, t = c :: u ∧ (c = '@' ∨ c = '\\') ∧ IsWord u

/-- A line that starts with a tag has something behind it. -/
structure Divides (raw tag gap remainder : Text) : Prop where
  raw_eq : raw = tag ++ (gap ++ remainder)
  tag : IsTagWord tag
  /-- The tag is a whole word. -/
  separate : StartsBlank (gap ++ remainder)
  gap : Blanks gap
  nonempty : remainder ≠ []
  oneLine : OneLine remainder
  /-- The gap is as long as can be. -/
  whole : StartsTight remainder ∨ ∃ c, isBlank c = true ∧ remainder = [c]

/-! ## What the search covers -/

section Covers

variable {raw tag gap remainder rest : Text} {last : Option Char}

/-- The search takes the whole word for the tag. -/
theorem covers_tag (htag : IsTagWord tag) (hrest : StartsBlank rest) :
    Covers (start ++ group .tag (oneOf "@\\" ++ plus (one fun c => !isBlank c))) none tag rest
      [(.tag, tag)] := by
  obtain ⟨c, u, rfl, hc, hne, hu⟩ := htag
  obtain ⟨d, u, rfl⟩ := List.exists_cons_of_ne_nil hne
  obtain ⟨hd, hu⟩ := List.forall_mem_cons.mp hu
  have hopener : (fun c => "@\\".toList.contains c) c = true := by
    rcases hc with rfl | rfl <;> rfl
  have hword : ∀ last, Covers (plus (one fun c => !isBlank c)) last (d :: u) rest [] := by
    intro last
    apply covers_identifier
    · rw [hd]
      rfl
    · intro e he
      rw [hu e he]
      rfl
    · intro e he
      rw [hrest e he]
      rfl
  exact covers_start.append fun _ => ((covers_one hopener).append fun _ => hword _).group .tag

/-- Behind a tag the search takes the longest gap that leaves a remainder. -/
theorem covers_remainder (h : Divides raw tag gap remainder) :
    Covers (blanks ++ group .remainder (plus anyChar)) last (gap ++ remainder) []
      [(.remainder, remainder)] := by
  have hline : ∀ mid, Covers (group .remainder (plus anyChar)) mid remainder []
      [(.remainder, remainder)] := by
    intro mid
    obtain ⟨c, t, hremainder⟩ := List.exists_cons_of_ne_nil h.nonempty
    have hchars : ∀ d ∈ c :: t, (d != '\n') = true := by
      intro d hd
      rw [bne_iff_ne]
      rintro rfl
      exact h.oneLine (hremainder ▸ hd)
    obtain ⟨hc, ht⟩ := List.forall_mem_cons.mp hchars
    have hplus : Covers (plus anyChar) mid (c :: t) [] [] := by
      apply covers_identifier
      · exact hc
      · exact ht
      · exact nofun
    rw [hremainder]
    exact hplus.group .remainder
  refine Covers.run_append h.gap fun mid => ?_
  rcases h.whole with htight | ⟨c, hc, rfl⟩
  · exact (covers_blanks blanks_nil ((List.append_nil remainder).symm ▸ htight)).append
      fun mid => hline mid
  · -- Blanks alone: the last of them is given back, since a remainder is not empty.
    exact Covers.give_back hc (hline mid) fun _ => ends_eq_nil rfl nofun

/-- A tag with a remainder is found with both. -/
theorem find_tagPattern_of_divides (h : Divides raw tag gap remainder) :
    tagPattern.find raw = some ⟨[], raw, [], [(.remainder, remainder), (.tag, tag)]⟩ := by
  have hseparate : StartsBlank ((gap ++ remainder) ++ []) := by
    rw [List.append_nil]
    exact h.separate
  have hline := ((covers_tag h.tag hseparate).append fun _ => (covers_remainder h).left (q := empty)).append
    fun _ => covers_finish
  have hfind := Covers.find_eq (p := tagPattern) hline
  rwa [List.append_nil, List.append_nil, ← h.raw_eq] at hfind

/-- A bare tag is found with nothing behind it. -/
theorem find_tagPattern_of_isTagWord (h : IsTagWord tag) :
    tagPattern.find tag = some ⟨[], tag, [], [(.tag, tag)]⟩ := by
  have hnone : ∀ mid, Covers (opt (blanks ++ group .remainder (plus anyChar))) mid [] [] [] :=
    fun _ => covers_empty.right fun _ => ends_eq_nil rfl nofun
  have hline := ((covers_tag h startsBlank_nil).append fun _ => hnone _).append
    fun _ => covers_finish
  have hfind := Covers.find_eq (p := tagPattern) hline
  rwa [List.append_nil, List.append_nil, List.append_nil] at hfind

end Covers

/-! ## What the search does not find -/

section Missed

variable {raw tag gap remainder rest : Text}

theorem IsTagWord.append (h : IsTagWord tag) (hrest : ∀ c ∈ rest, isBlank c = false) :
    IsTagWord (tag ++ rest) := by
  obtain ⟨c, u, rfl, hc, hne, hu⟩ := h
  refine ⟨c, u ++ rest, rfl, hc, ?_, ?_⟩
  · exact List.append_ne_nil_of_left_ne_nil hne rest
  · exact fun d hd => (List.mem_append.mp hd).elim (hu d) (hrest d)

/-- A match takes a line apart, if not yet in the preferred way. -/
theorem exists_parts_of_describes (h : tagPattern.Describes raw) :
    ∃ tag gap remainder, raw = tag ++ (gap ++ remainder) ∧ IsTagWord tag ∧ Blanks gap ∧
      OneLine remainder ∧ (remainder = [] → gap = []) := by
  obtain ⟨_, _, ⟨_, _, ⟨_, tag, rfl, ⟨_, v, ⟨c, hc, rfl⟩, hv, rfl⟩, rfl⟩, hbehind, rfl⟩, rfl, rfl⟩ := h
  have hword : ∀ d ∈ v, isBlank d = false := by
    intro d hd
    simpa using hv.forall_mem (k := fun d => !isBlank d) ⟨fun _ => id, fun _ => id⟩ d hd
  have htag : IsTagWord ([c] ++ v) := by
    refine ⟨c, v, rfl, by simpa using hc, ?_, hword⟩
    obtain ⟨_, _, ⟨d, -, rfl⟩, -, rfl⟩ := hv
    exact List.cons_ne_nil d _
  rcases hbehind with ⟨gap, remainder, hgap, hremainder, rfl⟩ | rfl
  · refine ⟨[c] ++ v, gap, remainder, by simp, htag, ?_, ?_, ?_⟩
    · exact hgap.forall_mem (fun _ => id)
    · intro hmem
      have hline := hremainder.forall_mem (k := (· != '\n')) ⟨fun _ => id, fun _ => id⟩ _ hmem
      cases hline
    · rintro rfl
      obtain ⟨_, _, ⟨d, -, rfl⟩, -, hnil⟩ := hremainder
      cases hnil
  · exact ⟨[c] ++ v, [], [], by simp, htag, blanks_nil, List.not_mem_nil, fun _ => rfl⟩

/-- Behind the gap there is nothing but the remainder, also if the gap has been taken for longer. -/
theorem trimStart_isSuffix (hgap : Blanks gap) (hrest : rest <:+ gap ++ remainder) :
    trimStart rest <:+ remainder := by
  induction gap generalizing rest with
  | nil => exact (List.dropWhile_suffix _).trans hrest
  | cons c gap ih =>
    obtain ⟨hc, hgap⟩ := blanks_cons.mp hgap
    rcases List.suffix_cons_iff.mp hrest with rfl | hrest
    · have htrim : trimStart (c :: (gap ++ remainder)) = trimStart (gap ++ remainder) :=
        List.dropWhile_cons_of_pos hc
      exact htrim ▸ ih hgap List.suffix_rfl
    · exact ih hgap hrest

/-- The last blank of a line is a remainder if it is no line feed. -/
theorem divides_of_blanks (htag : IsTagWord tag) (hne : rest ≠ []) (hrest : Blanks rest)
    (hline : ∀ c ∈ rest.getLast?, c ≠ '\n') :
    Divides (tag ++ rest) tag rest.dropLast [rest.getLast hne] := by
  have hsplit : rest.dropLast ++ [rest.getLast hne] = rest := List.dropLast_append_getLast hne
  have hlast : rest.getLast hne ∈ rest.getLast? := List.getLast?_eq_some_getLast hne
  refine ⟨by rw [hsplit], htag, ?_, ?_, List.cons_ne_nil _ _, ?_, Or.inr ⟨_, ?_, rfl⟩⟩
  · rw [hsplit]
    exact fun c hc => hrest c (List.mem_of_mem_head? hc)
  · exact fun c hc => hrest c (List.dropLast_subset rest hc)
  · intro hmem
    exact hline _ hlast (List.mem_singleton.mp hmem).symm
  · exact hrest _ (List.getLast_mem hne)

/-- However a line can be taken apart, it is a bare tag or a tag with a remainder. -/
theorem isTagWord_or_divides (htag : IsTagWord tag) (hgap : Blanks gap) (hline : OneLine remainder)
    (hempty : remainder = [] → gap = []) :
    IsTagWord (tag ++ (gap ++ remainder)) ∨
      ∃ tag' gap' remainder', Divides (tag ++ (gap ++ remainder)) tag' gap' remainder' := by
  let rest := (gap ++ remainder).dropWhile fun c => !isBlank c
  have hsuffix : rest <:+ gap ++ remainder := List.dropWhile_suffix _
  have hwhole : tag ++ (gap ++ remainder) = tag ++ TagLine.word (gap ++ remainder) ++ rest := by
    rw [List.append_assoc]
    exact congrArg (tag ++ ·) List.takeWhile_append_dropWhile.symm
  have hword : IsTagWord (tag ++ TagLine.word (gap ++ remainder)) :=
    htag.append fun c => TagLine.isBlank_of_mem_word
  have hstarts : StartsBlank rest := TagLine.startsBlank_dropWhile _
  rw [hwhole]
  by_cases hnil : rest = []
  · rw [hnil, List.append_nil]
    exact Or.inl hword
  refine Or.inr ?_
  obtain ⟨s, hs, hrest⟩ := exists_blanks_append_trimStart rest
  by_cases hblanks : trimStart rest = []
  · have hlast : ∀ c ∈ rest.getLast?, c ≠ '\n' := by
      rintro c hc rfl
      have hne : remainder ≠ [] := by
        intro hremainder
        rw [hremainder, hempty hremainder] at hsuffix
        exact hnil (List.suffix_nil.mp hsuffix)
      have hmem : '\n' ∈ remainder.getLast? := by
        obtain ⟨before, hbefore⟩ := hsuffix
        rw [← List.getLast?_append_of_ne_nil gap hne, ← hbefore,
          List.getLast?_append_of_ne_nil before hnil]
        exact hc
      exact hline (List.mem_of_mem_getLast? hmem)
    rw [hblanks, List.append_nil] at hrest
    exact ⟨_, _, _, divides_of_blanks hword hnil (hrest ▸ hs) hlast⟩
  · have hremainder := trimStart_isSuffix hgap hsuffix
    refine ⟨_, s, trimStart rest, ⟨by rw [← hrest], hword, hrest ▸ hstarts, hs, hblanks, ?_,
      Or.inl (startsTight_trimStart rest)⟩⟩
    exact fun hmem => hline (hremainder.subset hmem)

/-- What is neither a bare tag nor a tag with a remainder is not found. -/
theorem find_tagPattern_eq_none (hbare : ¬ IsTagWord raw)
    (hdivides : ∀ tag gap remainder, ¬ Divides raw tag gap remainder) :
    tagPattern.find raw = none := by
  apply find_eq_none_of_at? rfl
  rw [at?_eq_head?, List.head?_eq_none_iff, List.eq_nil_iff_forall_not_mem]
  intro later hlater
  have hpassed := passed_append_rest (rest_suffix_of_mem_ends _ hlater)
  have hend : later.rest = [] := by
    obtain ⟨mid, -, hfinish⟩ := List.mem_flatMap.mp hlater
    rw [ends] at hfinish
    split at hfinish
    · next hmid =>
      rw [List.mem_singleton.mp hfinish]
      exact List.isEmpty_iff.mp hmid
    · cases hfinish
  rw [hend, List.append_nil] at hpassed
  obtain ⟨tag, gap, remainder, hraw, htag, hgap, hline, hempty⟩ :=
    exists_parts_of_describes (hpassed ▸ describes_of_mem_ends _ hlater)
  change raw = _ at hraw
  subst hraw
  rcases isTagWord_or_divides htag hgap hline hempty with hword | ⟨_, _, _, hparts⟩
  · exact hbare hword
  · exact hdivides _ _ _ hparts

end Missed

end DocComment.Header
