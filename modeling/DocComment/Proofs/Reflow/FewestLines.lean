import DocComment.Proofs.Reflow.Breaking
import Mathlib.Order.Bounds.Basic

/-!
# Packing takes the fewest lines

Packing puts as many words on each line as fit.  Compared with any other way to break the words,
it is never behind: when the other way ends a row, packing has placed at least the words of that
row, so what it has left is an end of what the other way has left (`length_pack_le`).  The number
of lines that a line becomes is therefore the least possible one (`isLeast_length_wrap`).
-/

namespace DocComment.Reflow

open Text

section Packing

variable {width column : Nat}

/-- The lines after the current one are the words that are left, packed. -/
theorem fill_snd_cases (width column used : Nat) (ws : List Text) :
    (fill width column used ws).2 = [] ∨
      ∃ rest, rest ≠ [] ∧ rest <:+ ws ∧
        (fill width column used ws).2 = pack width column rest := by
  induction ws generalizing used with
  | nil => exact Or.inl rfl
  | cons w ws ih =>
    rw [fill]
    split
    · exact Or.inr ⟨w :: ws, List.cons_ne_nil w ws, List.suffix_rfl, rfl⟩
    · rcases ih (used + 1 + w.length) with hnil | ⟨rest, hne, hsuffix, hrest⟩
      · exact Or.inl hnil
      · exact Or.inr ⟨rest, hne, hsuffix.trans (List.suffix_cons w ws), hrest⟩

/-- Words that fit on the current line go there, whatever follows. -/
theorem fill_append_snd {used : Nat} {vs : List Text} (h : used + extent vs ≤ width)
    (ws : List Text) :
    (fill width column used (vs ++ ws)).2 = (fill width column (used + extent vs) ws).2 := by
  induction vs generalizing used with
  | nil => rfl
  | cons v vs ih =>
    rw [extent] at h
    have hfirst : ¬ width < used + 1 + v.length := by omega
    have hrest : (fill width column (used + 1 + v.length) (vs ++ ws)).2 =
        (fill width column (used + 1 + v.length + extent vs) ws).2 := ih (by omega)
    have hsum : used + 1 + v.length + extent vs = used + extent (v :: vs) := by
      rw [extent]
      omega
    rw [List.cons_append, fill, if_neg hfirst, hrest, hsum]

/-- The end of a row that fits does so too. -/
theorem fits_of_append {vs row : List Text} (hne : row ≠ [])
    (h : (vs ++ row).length = 1 ∨ column + rowWidth (vs ++ row) ≤ width) :
    row.length = 1 ∨ column + rowWidth row ≤ width := by
  have hpos := List.length_pos_iff.mpr hne
  simp only [rowWidth, List.flatten_append, List.length_append] at h ⊢
  omega

/-- Packing gets at least as far on its first line as any row. -/
theorem pack_append_cases {row : List Text} (hne : row ≠ [])
    (hfits : row.length = 1 ∨ column + rowWidth row ≤ width) (ws : List Text) :
    (pack width column (row ++ ws)).length = 1 ∨
      ∃ rest, rest ≠ [] ∧ rest <:+ ws ∧
        (pack width column (row ++ ws)).length = (pack width column rest).length + 1 := by
  obtain ⟨w, vs, rfl⟩ := List.exists_cons_of_ne_nil hne
  have hfill : (fill width column (column + w.length) (vs ++ ws)).2 =
      (fill width column (column + w.length + extent vs) ws).2 := by
    rcases hfits with hone | hle
    · obtain rfl : vs = [] := by simpa using hone
      rfl
    · rw [rowWidth_cons] at hle
      exact fill_append_snd (by omega) ws
  rw [List.cons_append, pack, List.length_cons, hfill]
  rcases fill_snd_cases width column (column + w.length + extent vs) ws with
    hnil | ⟨rest, hrest, hsuffix, heq⟩
  · exact Or.inl (by rw [hnil]; rfl)
  · exact Or.inr ⟨rest, hrest, hsuffix, by rw [heq]⟩

/-- **Packing stays ahead.**  An end of some words is packed into no more lines than any way to
break all of them has rows. -/
theorem length_pack_le {us ws : List Text} {rows : List (List Text)}
    (hrows : Breaking width column us rows) (hne : ws ≠ []) (hsuffix : ws <:+ us) :
    (pack width column ws).length ≤ rows.length := by
  induction rows generalizing us ws with
  | nil =>
    obtain rfl : us = [] := hrows.flatten_eq.symm
    exact absurd (List.suffix_nil.mp hsuffix) hne
  | cons row rows ih =>
    obtain ⟨-, hrowsNe⟩ := List.forall_mem_cons.mp hrows.ne_nil
    obtain ⟨hfits, hrowsFit⟩ := List.forall_mem_cons.mp hrows.fits
    have hrest : Breaking width column rows.flatten rows := ⟨rfl, hrowsNe, hrowsFit⟩
    obtain ⟨passed, hpassed⟩ := hsuffix
    rw [← hrows.flatten_eq, List.flatten_cons] at hpassed
    rw [List.length_cons]
    -- Either packing has passed the first row already, or a part of the row is still to come.
    rcases List.append_eq_append_iff.mp hpassed with ⟨left, hleft, hws⟩ | ⟨more, -, hmore⟩
    · by_cases hnil : left = []
      · rw [hnil, List.nil_append] at hws
        have hle := ih hrest hne (hws ▸ List.suffix_rfl)
        omega
      · have hleftFits := fits_of_append hnil (hleft ▸ hfits)
        rw [hws]
        rcases pack_append_cases hnil hleftFits rows.flatten with hone | ⟨rest, hrestNe, hsuf, hlen⟩
        · omega
        · have hle := ih hrest hrestNe hsuf
          omega
    · have hle := ih hrest hne ⟨more, hmore.symm⟩
      omega

end Packing

theorem length_flow (marker head : Text) (width : Nat) (ws : List Text) :
    (flow marker head width ws).length = (pack width head.length ws).length := by
  unfold flow
  split
  · next hpack => rw [hpack]; rfl
  · next hpack => rw [hpack, List.length_cons, List.length_cons, List.length_map]

/-- **A line is broken into the fewest lines.**  The lines that a line with flowing words becomes
are as many as the rows of some way to break the words behind the head, and no way has fewer. -/
theorem isLeast_length_wrap {p : Profile} {width : Nat} {line head text : Text}
    (hwide : width < line.length) (hdelim : isDelimiter p line = false)
    (hflow : flowing? p line = some (head, text)) (hne : words text ≠ []) :
    IsLeast {n | ∃ rows, Breaking width head.length (words text) rows ∧ rows.length = n}
      (wrap p width [line]).length := by
  have hlength : (wrap p width [line]).length = (pack width head.length (words text)).length := by
    rw [wrap, List.flatMap_singleton, wrapLine_of_flowing? hwide hdelim hflow, length_flow]
  rw [hlength]
  constructor
  · exact ⟨_, breaking_pack width head.length hne, rfl⟩
  · rintro n ⟨rows, hrows, rfl⟩
    exact length_pack_le hrows hne List.suffix_rfl

/-- The columns of a parameter before its description. -/
def addressHead : Text := " * @param \x7bURL\x7d to - "

/-- A description that holds an address. -/
def addressText : Text := "see https://example.com for a list"

/-- An address that is wider than the line stands alone, and the words after it take two lines. -/
theorem isLeast_length_wrap_address :
    flowing? (Profile.of .javascript {}) (addressHead ++ addressText) =
        some (addressHead, addressText) ∧
      IsLeast {n | ∃ rows, Breaking 28 addressHead.length (words addressText) rows ∧
        rows.length = n} 4 := by
  have hflow : flowing? (Profile.of .javascript {}) (addressHead ++ addressText) =
      some (addressHead, addressText) := by
    decide +kernel
  have hlength :
      (wrap (Profile.of .javascript {}) 28 [addressHead ++ addressText]).length = 4 := by
    decide +kernel
  have hwide : 28 < (addressHead ++ addressText).length := by decide
  have hdelim : isDelimiter (Profile.of .javascript {}) (addressHead ++ addressText) = false := by
    decide +kernel
  refine ⟨hflow, ?_⟩
  rw [← hlength]
  exact isLeast_length_wrap hwide hdelim hflow (by decide +kernel)

end DocComment.Reflow
