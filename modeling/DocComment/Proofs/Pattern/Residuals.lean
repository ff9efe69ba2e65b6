import DocComment.Proofs.Pattern.Leads

/-!
# What a beginning leaves of a pattern

After a character has been matched, a few patterns are left to match the rest (`residuals`).  Taking
the residuals along a known beginning shows whether any match can start there: if none of the
patterns on the way can end, and none is left at the end, the pattern **rejects** the beginning
(`rejects`), whatever follows it.  This is decided by evaluation.  A search therefore does not find
a pattern at a rejected place (`at?_eq_none_of_rejects`), and a pattern that is tied to the
beginning of the text is not found at all (`find_eq_none_of_rejects`).
-/

namespace DocComment.Pattern

open Text

/-- The patterns that are left to match after a character. -/
def residuals (c : Char) : Pattern → List Pattern
  | empty | start | finish | boundary | lit [] => []
  | lit (d :: t) => if d = c then [lit t] else []
  | one k => if k c then [empty] else []
  | seq p q => (p.residuals c).map (seq · q) ++ if p.nullable then q.residuals c else []
  | alt p q => p.residuals c ++ q.residuals c
  | star p => (p.residuals c).map (seq · (star p))
  | lazyStar p => (p.residuals c).map (seq · (lazyStar p))
  | group _ p => p.residuals c

/-- Whether none of the patterns describes a text that stands at the start of `u`, or that goes on
after it. -/
def rejectAll : List Pattern → Text → Bool
  | ps, [] => ps.isEmpty
  | ps, c :: u => ps.all (fun p => !p.nullable) && rejectAll (ps.flatMap (residuals c)) u

/-- Whether no match can begin where `u` stands. -/
def rejects (p : Pattern) (u : Text) : Bool := rejectAll [p] u

section Described

variable {p : Pattern} {t u v : Text} {c : Char}

/-- **What follows the first character is described by a residual.** -/
theorem exists_residual (h : p.Describes (c :: t)) : ∃ q ∈ p.residuals c, q.Describes t := by
  induction p generalizing t with
  | empty | start | finish | boundary => cases h
  | lit u =>
    obtain rfl : c :: t = u := h
    exact ⟨lit t, by simp [residuals], rfl⟩
  | one k =>
    obtain ⟨d, hd, hcons⟩ := h
    obtain ⟨rfl, rfl⟩ := List.cons.inj hcons
    exact ⟨empty, by simp [residuals, hd], rfl⟩
  | seq p q ihp ihq =>
    obtain ⟨u, v, hu, hv, huv⟩ := h
    cases u with
    | nil =>
      obtain rfl : c :: t = v := huv
      obtain ⟨r, hr, hdescribes⟩ := ihq hv
      refine ⟨r, List.mem_append_right _ ?_, hdescribes⟩
      rw [if_pos (nullable_of_describes_nil hu)]
      exact hr
    | cons d u =>
      obtain ⟨rfl, rfl⟩ := List.cons.inj huv
      obtain ⟨r, hr, hdescribes⟩ := ihp hu
      exact ⟨seq r q, List.mem_append_left _ (List.mem_map_of_mem hr), u, v, hdescribes, hv, rfl⟩
  | alt p q ihp ihq =>
    rcases h with h | h
    · obtain ⟨r, hr, hdescribes⟩ := ihp h
      exact ⟨r, List.mem_append_left _ hr, hdescribes⟩
    · obtain ⟨r, hr, hdescribes⟩ := ihq h
      exact ⟨r, List.mem_append_right _ hr, hdescribes⟩
  | star p ih | lazyStar p ih =>
    obtain ⟨us, hus, hflat⟩ := h
    obtain ⟨u, vs, hu, hvs, rfl⟩ := exists_cons_append_of_flatten hus hflat.symm
    obtain ⟨r, hr, hdescribes⟩ := ih hu
    exact ⟨_, List.mem_map_of_mem hr, u, vs.flatten, hdescribes, ⟨vs, hvs, rfl⟩, rfl⟩
  | group part p ih => exact ih h

theorem not_isPrefix_of_rejectAll {ps : List Pattern} (h : rejectAll ps u = true) (hp : p ∈ ps)
    (ht : p.Describes t) : ¬ t <+: u ++ v := by
  induction u generalizing ps p t with
  | nil =>
    rw [rejectAll, List.isEmpty_iff] at h
    rw [h] at hp
    cases hp
  | cons c u ih =>
    rw [rejectAll, Bool.and_eq_true, List.all_eq_true] at h
    obtain ⟨hnullable, hrest⟩ := h
    intro hprefix
    cases t with
    | nil =>
      have hnot := hnullable p hp
      rw [nullable_of_describes_nil ht] at hnot
      cases hnot
    | cons d t =>
      rw [List.cons_append, List.cons_prefix_cons] at hprefix
      obtain ⟨rfl, hprefix⟩ := hprefix
      obtain ⟨q, hq, hdescribes⟩ := exists_residual ht
      exact ih hrest (List.mem_flatMap.mpr ⟨p, hp, hq⟩) hdescribes hprefix

end Described

section Search

variable {p : Pattern} {last : Option Char} {t u v : Text}

/-- No match begins at a place that is rejected. -/
theorem at?_eq_none_of_rejects (h : p.rejects u = true) : p.at? last (u ++ v) = none := by
  rw [at?_eq_head?, List.head?_eq_none_iff, List.eq_nil_iff_forall_not_mem]
  intro later hlater
  have hprefix : Cursor.passed ⟨last, u ++ v, []⟩ later <+: u ++ v :=
    ⟨later.rest, passed_append_rest (rest_suffix_of_mem_ends p hlater)⟩
  exact not_isPrefix_of_rejectAll h (List.mem_singleton.mpr rfl) (describes_of_mem_ends p hlater)
    hprefix

/-- **A pattern tied to the beginning is not found in a text whose beginning it rejects.** -/
theorem find_eq_none_of_rejects (hanchored : p.anchored = true) (h : p.rejects u = true) :
    p.find (u ++ v) = none :=
  find_eq_none_of_at? hanchored (at?_eq_none_of_rejects h)

/-- A search finds nothing if every place of a beginning is rejected and nothing is found behind
it. -/
theorem findFrom_append_eq_none (hu : ∀ w, w ≠ [] → w <:+ u → p.rejects w = true)
    (hv : ∀ last, p.findFrom last v = none) : p.findFrom last (u ++ v) = none := by
  induction u generalizing last with
  | nil => exact hv last
  | cons c u ih =>
    have hat : p.at? last (c :: u ++ v) = none :=
      at?_eq_none_of_rejects (hu _ (List.cons_ne_nil c u) List.suffix_rfl)
    have hrest : p.findFrom (some c) (u ++ v) = none :=
      ih fun w hw hsuffix => hu w hw (hsuffix.trans (List.suffix_cons c u))
    rw [List.cons_append] at hat ⊢
    rw [findFrom, hat, hrest]
    rfl

/-- A pattern that needs a character of a class is not found where there is none. -/
theorem findFrom_eq_none_of_meets {k : Char → Bool} (hp : p.Meets k)
    (ht : ∀ c ∈ t, k c = false) : p.findFrom last t = none := by
  rw [Option.eq_none_iff_forall_ne_some]
  intro m hm
  obtain ⟨s, later, hsuffix, -, hmem, -⟩ := exists_mem_ends_of_findFrom hm
  obtain ⟨c, hc, hk⟩ := (describes_of_mem_ends p hmem).exists_mem hp
  have hrest : c ∈ s.rest := by
    rw [← passed_append_rest (rest_suffix_of_mem_ends p hmem)]
    exact List.mem_append_left _ hc
  rw [ht c (hsuffix.subset hrest)] at hk
  cases hk

end Search

end DocComment.Pattern
