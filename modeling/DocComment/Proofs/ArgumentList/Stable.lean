import DocComment.Proofs.ArgumentList.Joined

/-!
# What splitting keeps

Splitting takes blanks off the ends of the arguments and drops the commas that separate and the
backslashes that escape.  Every other character of the list stands in one of the arguments, in the
order of the list (`split_conserves`).

Without a backslash nothing is escaped, and blanks at the ends of a piece change nothing of what is
open in it.  Each argument is therefore scanned on its own as it was scanned in the list: it is
split into itself, and the arguments joined again are split into the same arguments
(`split_split`).  No bracket has to be balanced and no quote closed for this; what is left open is
left open by the last argument, which has no neighbour behind it.
-/

namespace DocComment.ArgumentList

open Text

/-! ## No character is lost -/

/-- The characters that splitting never drops: neither blanks nor commas nor backslashes. -/
def bare (t : Text) : Text := (compact t).filter fun c => c != ',' && c != '\\'

@[simp] theorem bare_nil : bare [] = [] := rfl

@[simp] theorem bare_append (s t : Text) : bare (s ++ t) = bare s ++ bare t := by
  simp [bare]

/-- Characters are stripped one by one. -/
theorem bare_cons (c : Char) (t : Text) : bare (c :: t) = bare [c] ++ bare t :=
  bare_append [c] t

/-- Trimming takes no bare characters away. -/
@[simp] theorem bare_trim (t : Text) : bare (trim t) = bare t := by
  rw [bare, compact_trim, bare]

section Conserved

variable {m : Nesting} {c : Char}

/-- Only an escaping backslash is dropped. -/
theorem eq_backslash_of_drop (h : (m.next c).1 = .drop) : c = '\\' := by
  rw [Nesting.fate_next] at h
  split at h
  · cases h
  · split at h
    · next hc => exact hc.1
    · cases h

/-- Only a comma separates. -/
theorem eq_comma_of_cut (h : (m.next c).1 = .cut) : c = ',' := by
  rw [Nesting.fate_next] at h
  split at h
  · next hc => exact hc.1
  · split at h <;> cases h

/-- The pieces hold every character but commas and backslashes. -/
theorem bare_pieces (m : Nesting) (t : Text) :
    bare ((pieces m t).1 ++ (pieces m t).2.flatten) = bare t := by
  induction t generalizing m with
  | nil => rfl
  | cons c t ih =>
    have hrest := ih (m.next c).2
    rw [pieces]
    cases hfate : (m.next c).1 with
    | keep =>
      simp only [hfate, List.cons_append]
      rw [bare_cons, hrest, ← bare_cons]
    | drop =>
      obtain rfl := eq_backslash_of_drop hfate
      simp only [hfate]
      rw [hrest, bare_cons]
      rfl
    | cut =>
      obtain rfl := eq_comma_of_cut hfate
      simp only [hfate, List.nil_append, List.flatten_cons]
      rw [hrest, bare_cons]
      rfl

/-- A piece is an argument as it stands between its blanks; a piece of blanks is none. -/
theorem bare_flatten_arguments (ps : List Text) : bare (arguments ps).flatten = bare ps.flatten := by
  induction ps with
  | nil => rfl
  | cons t ps ih =>
    by_cases ht : trim t = []
    · have hnone : arguments (t :: ps) = arguments ps := by simp [arguments, ht]
      rw [hnone, ih, List.flatten_cons, bare_append, ← bare_trim t, ht, bare_nil, List.nil_append]
    · rw [arguments_cons ht, List.flatten_cons, bare_append, bare_trim, ih, List.flatten_cons,
        bare_append]

end Conserved

/-- An argument is not empty and has no blanks at its ends. -/
theorem tight_of_mem_split {raw a : Text} (h : a ∈ split raw) :
    a ≠ [] ∧ StartsTight a ∧ EndsTight a := by
  obtain ⟨hmem, hne⟩ := List.mem_filter.mp h
  obtain ⟨piece, -, rfl⟩ := List.mem_map.mp hmem
  exact ⟨by simpa using hne, startsTight_trim piece, endsTight_trim piece⟩

/-- **Splitting loses no character of an argument.**  Blanks, commas and backslashes aside, the
arguments one after the other are the list that they were split from, and each of them is trimmed
and not empty. -/
theorem split_conserves (raw : Text) :
    bare (split raw).flatten = bare raw ∧
      ∀ a ∈ split raw, a ≠ [] ∧ StartsTight a ∧ EndsTight a := by
  refine ⟨?_, fun a ha => tight_of_mem_split ha⟩
  have hpieces := bare_pieces {} raw
  rw [← List.flatten_cons] at hpieces
  rw [← hpieces]
  exact bare_flatten_arguments _

/-- A list with an escaped quote, an empty argument and a bracket that is never closed. -/
def escapedArguments : Text := "a = \"x\\\", y\",, [b, c "

/-- The first argument has lost its backslash, and the last one keeps its comma. -/
theorem split_conserves_escapedArguments :
    split escapedArguments = ["a = \"x\", y\"".toList, "[b, c".toList] ∧
      bare (split escapedArguments).flatten = "a=\"x\"y\"[bc".toList ∧
      ("[b, c".toList ≠ [] ∧ StartsTight "[b, c" ∧ EndsTight "[b, c") := by
  have hsplit : split escapedArguments = ["a = \"x\", y\"".toList, "[b, c".toList] := by
    decide +kernel
  obtain ⟨hbare, htight⟩ := split_conserves escapedArguments
  refine ⟨hsplit, hbare.trans (by decide +kernel), htight _ ?_⟩
  rw [hsplit]
  exact List.mem_cons_of_mem _ List.mem_cons_self

/-! ## Blanks at the ends of a piece -/

/-- What can be open in a text without a backslash: no escape, and no run that a blank closes. -/
structure Nesting.Calm (m : Nesting) : Prop where
  not_escaped : m.escaped = false
  closer : ∀ k ∈ m.closer, isBlank k = false

section Calm

variable {m : Nesting} {c : Char} {t : Text}

/-- At the start nothing is escaped and no run is open. -/
theorem Nesting.calm_initial : Calm {} := ⟨rfl, nofun⟩

theorem isBlank_of_runCloser? {k : Char} (h : runCloser? c = some k) : isBlank k = false := by
  unfold runCloser? at h
  split at h <;> cases h <;> decide

/-- Only a backslash ends the calm. -/
theorem Nesting.Calm.next (hm : m.Calm) (hc : c ≠ '\\') : (m.next c).2.Calm := by
  obtain ⟨closer, escaped, squares, braces⟩ := m
  obtain ⟨rfl, hcloser⟩ := hm
  unfold Nesting.next
  simp only [Bool.false_eq_true, if_false]
  cases closer with
  | some k =>
    simp only [if_neg hc]
    split
    · exact ⟨rfl, nofun⟩
    · exact ⟨rfl, hcloser⟩
  | none =>
    cases hrun : runCloser? c with
    | some k =>
      refine ⟨rfl, fun e he => ?_⟩
      obtain rfl := Option.some.inj he
      exact isBlank_of_runCloser? hrun
    | none =>
      -- Brackets are counted; nothing is opened.
      simp only
      repeat' split
      all_goals exact ⟨rfl, nofun⟩

/-- A text without a backslash keeps the nesting calm. -/
theorem Nesting.Calm.after (hm : m.Calm) (ht : '\\' ∉ t) : (m.after t).Calm := by
  induction t generalizing m with
  | nil => exact hm
  | cons c t ih =>
    rw [List.mem_cons, not_or] at ht
    exact ih (hm.next (Ne.symm ht.1)) ht.2

/-- Where it is calm, a blank changes nothing. -/
theorem Nesting.Calm.next_blank (hm : m.Calm) (hc : isBlank c = true) : (m.next c).2 = m := by
  have hne : ∀ e : Char, isBlank e = false → c ≠ e := by
    rintro e he rfl
    rw [hc] at he
    cases he
  unfold Nesting.next
  rw [if_neg (by simp [hm.not_escaped])]
  cases hk : m.closer with
  | some k => simp only [if_neg (hne '\\' (by decide)), if_neg (hne k (hm.closer k hk))]
  | none =>
    have hrun : runCloser? c = none := by
      unfold runCloser?
      split
      · exact absurd rfl (hne '"' (by decide))
      · exact absurd rfl (hne '\'' (by decide))
      · exact absurd rfl (hne '<' (by decide))
      · exact absurd rfl (hne '(' (by decide))
      · rfl
    simp only [hrun, if_neg (hne '[' (by decide)), if_neg (hne ']' (by decide)),
      if_neg (hne '\x7b' (by decide)), if_neg (hne '\x7d' (by decide)), hne ',' (by decide),
      decide_false, Bool.false_and, Bool.false_eq_true, if_false]

/-- Blanks do nothing to a calm nesting. -/
theorem Nesting.Calm.after_blanks {s : Text} (hm : m.Calm) (hs : Blanks s) : m.after s = m := by
  induction s with
  | nil => rfl
  | cons c s ih =>
    obtain ⟨hc, hs⟩ := blanks_cons.mp hs
    have hstep : m.after (c :: s) = (m.next c).2.after s := rfl
    rw [hstep, hm.next_blank hc, ih hs]

/-- A trimmed piece leaves open what the piece leaves open. -/
theorem after_trim (ht : '\\' ∉ t) : Nesting.after {} (trim t) = Nesting.after {} t := by
  obtain ⟨s, e, hs, he, heq⟩ := exists_blanks_trim t
  have htrim : '\\' ∉ trim t := fun hmem => ht ((sublist_trim t).subset hmem)
  conv_rhs => rw [heq]
  rw [Nesting.after_append, Nesting.after_append, Nesting.calm_initial.after_blanks hs,
    (Nesting.calm_initial.after htrim).after_blanks he]

/-- In a trimmed piece no comma separates if none does in the piece. -/
theorem Undivided.trim (h : Undivided t) : Undivided (trim t) := by
  obtain ⟨s, e, hs, -, heq⟩ := exists_blanks_trim t
  intro u v huv
  have hneutral := h (s ++ u) (v ++ e) (by rw [heq, huv]; simp)
  rwa [Nesting.after_append, Nesting.calm_initial.after_blanks hs] at hneutral

/-- A piece in which no comma separates is an argument when its blanks are taken off. -/
theorem Undivided.proper_trim (h : Undivided t) (hne : Text.trim t ≠ []) (ht : '\\' ∉ t) :
    Proper (Text.trim t) where
  ne_nil := hne
  startsTight := startsTight_trim t
  endsTight := endsTight_trim t
  no_backslash hmem := ht ((sublist_trim t).subset hmem)
  no_comma hhead := by
    obtain ⟨v, hv⟩ := List.head?_eq_some_iff.mp hhead
    cases h.trim [] v hv

end Calm

/-! ## Splitting again -/

/-- A text is one piece, or it has a first comma that separates. -/
theorem exists_first_cut (t : Text) :
    Undivided t ∨
      ∃ u v, t = u ++ ',' :: v ∧ Undivided u ∧ (Nesting.after {} u).isNeutral = true := by
  induction t using List.reverseRecOn with
  | nil => exact Or.inl fun u v h => by simp at h
  | append_singleton t c ih =>
    rcases ih with hwhole | ⟨u, v, rfl, hu, hneutral⟩
    · by_cases hcut : c = ',' ∧ (Nesting.after {} t).isNeutral = true
      · obtain ⟨rfl, hneutral⟩ := hcut
        exact Or.inr ⟨t, [], rfl, hwhole, hneutral⟩
      · refine Or.inl fun u v huv => ?_
        rcases List.eq_nil_or_concat' v with rfl | ⟨v, d, rfl⟩
        · -- The comma is the last character, which does not separate.
          obtain ⟨rfl, hc⟩ := List.append_inj' huv rfl
          rw [← Bool.not_eq_true]
          exact fun hneutral => hcut ⟨List.singleton_inj.mp hc, hneutral⟩
        · rw [← List.cons_append, ← List.append_assoc] at huv
          exact hwhole u v (List.append_inj' huv rfl).1
    · exact Or.inr ⟨u, v ++ [c], by simp, hu, hneutral⟩

/-- The arguments of a piece in which no comma separates: one, or none if the piece is blank. -/
theorem split_of_piece {t : Text} (hbackslash : '\\' ∉ t) (h : Undivided t) :
    split t = if trim t = [] then [] else [trim t] := by
  rw [split_eq_arguments, scan_of_undivided hbackslash h]
  by_cases hne : trim t = [] <;> simp [arguments, hne]

/-- **Arguments stay whole.**  No comma inside an argument that splitting gives separates, and only
the last one can leave something open.  The induction goes from one separating comma to the
next. -/
theorem stayWhole_split {raw : Text} (h : '\\' ∉ raw) :
    (∀ a ∈ split raw, Proper a) ∧ StayWhole (split raw) := by
  induction hn : raw.length using Nat.strong_induction_on generalizing raw with
  | _ n ih =>
    rcases exists_first_cut raw with hwhole | ⟨u, v, rfl, hu, hneutral⟩
    · rw [split_of_piece h hwhole]
      split
      · exact ⟨nofun, nofun, nofun⟩
      · next hne =>
        exact ⟨List.forall_mem_singleton.mpr (hwhole.proper_trim hne h),
          List.forall_mem_singleton.mpr hwhole.trim, nofun⟩
    · simp only [List.mem_append, List.mem_cons, not_or] at h
      obtain ⟨hbackslash, -, hrest⟩ := h
      rw [List.length_append, List.length_cons] at hn
      obtain ⟨hproper, hstay⟩ := ih v.length (by omega) hrest rfl
      rw [split_append_of_isNeutral hneutral, split_of_piece hbackslash hu]
      split
      · exact ⟨hproper, hstay⟩
      · next hne =>
        refine ⟨List.forall_mem_cons.mpr ⟨hu.proper_trim hne hbackslash, hproper⟩, ?_⟩
        rw [List.singleton_append]
        by_cases hlast : split v = []
        · rw [hlast]
          exact ⟨List.forall_mem_singleton.mpr hu.trim, nofun⟩
        · exact (stayWhole_cons hlast).mpr ⟨hu.trim, by rwa [after_trim hbackslash], hstay⟩

/-- **Splitting again changes nothing.**  Each argument of a list without backslashes is its own
only argument, and the arguments joined by commas are split into the same arguments. -/
theorem split_split {raw : Text} (h : '\\' ∉ raw) :
    (∀ a ∈ split raw, split a = [a]) ∧ split (joined (split raw)) = split raw := by
  obtain ⟨hproper, hstay⟩ := stayWhole_split h
  exact ⟨fun a ha => split_of_undivided (hproper a ha) (hstay.undivided a ha),
    (split_joined_eq_iff hproper).mpr hstay⟩

/-- A list with an empty argument, a closing bracket that nothing opened and a quote that is never
closed. -/
def unbalancedArguments : Text := " f(1, 2) ,, d], e = \"g , h "

/-- Behind the closing bracket no comma separates any more. -/
theorem split_split_unbalancedArguments :
    '\\' ∉ unbalancedArguments ∧
      split unbalancedArguments = ["f(1, 2)".toList, "d], e = \"g , h".toList] ∧
      split "d], e = \"g , h" = ["d], e = \"g , h".toList] ∧
      split (joined (split unbalancedArguments)) = split unbalancedArguments := by
  have hbackslash : '\\' ∉ unbalancedArguments := by decide +kernel
  have hsplit : split unbalancedArguments = ["f(1, 2)".toList, "d], e = \"g , h".toList] := by
    decide +kernel
  obtain ⟨heach, hjoined⟩ := split_split hbackslash
  refine ⟨hbackslash, hsplit, heach _ ?_, hjoined⟩
  rw [hsplit]
  exact List.mem_cons_of_mem _ List.mem_cons_self

end DocComment.ArgumentList
