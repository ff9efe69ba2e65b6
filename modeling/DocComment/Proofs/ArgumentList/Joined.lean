import DocComment.Proofs.ArgumentList.Scan
import DocComment.Proofs.Text.Trim

/-!
# Splitting joined arguments

Arguments that are joined by commas are found again exactly if no comma inside one of them separates
and nothing is left open between them (`split_joined_eq_iff`).  Both conditions are read off the
scan of a single argument: what is open inside it never depends on its neighbours, because the scan
starts anew behind every separating comma.
-/

namespace DocComment.ArgumentList

open Text

/-! ## What splitting gives -/

section Split

variable {m : Nesting} {t u piece : Text}

/-- Every piece is what is left of a part of the text. -/
theorem sublist_of_mem_pieces (h : piece ∈ (pieces m t).1 :: (pieces m t).2) :
    piece.Sublist t := by
  induction t generalizing m piece with
  | nil =>
    obtain rfl : piece = [] := by simpa [pieces] using h
    exact List.Sublist.refl _
  | cons c t ih =>
    have hmore : ∀ piece ∈ (pieces (m.next c).2 t).2, piece.Sublist (c :: t) := fun piece hmem =>
      (ih (List.mem_cons_of_mem _ hmem)).trans (List.sublist_cons_self c t)
    have hfirst : (pieces (m.next c).2 t).1.Sublist t := ih List.mem_cons_self
    rw [pieces] at h
    cases hfate : (m.next c).1 with
    | keep =>
      simp only [hfate] at h
      rcases List.mem_cons.mp h with rfl | hmem
      · exact hfirst.cons_cons c
      · exact hmore piece hmem
    | drop =>
      simp only [hfate] at h
      rcases List.mem_cons.mp h with rfl | hmem
      · exact hfirst.trans (List.sublist_cons_self c t)
      · exact hmore piece hmem
    | cut =>
      simp only [hfate] at h
      rcases List.mem_cons.mp h with rfl | hmem
      · exact List.nil_sublist _
      · rcases List.mem_cons.mp hmem with rfl | hmem
        · exact hfirst.trans (List.sublist_cons_self c t)
        · exact hmore piece hmem

theorem sublist_trim (t : Text) : (trim t).Sublist t := by
  obtain ⟨s, -, hs⟩ := exists_blanks_append_trimStart t
  obtain ⟨e, -, he⟩ := exists_trimEnd_append_blanks (trimStart t)
  have hend : (trim t).Sublist (trimStart t) := List.IsPrefix.sublist ⟨e, he.symm⟩
  have hstart : (trimStart t).Sublist t := List.IsSuffix.sublist ⟨s, hs.symm⟩
  exact hend.trans hstart

/-- No argument is longer than the list that it was split from. -/
theorem length_le_of_mem_split (h : piece ∈ split t) : piece.length ≤ t.length := by
  obtain ⟨hmem, -⟩ := List.mem_filter.mp h
  obtain ⟨whole, hwhole, rfl⟩ := List.mem_map.mp hmem
  exact ((sublist_trim whole).trans (sublist_of_mem_pieces hwhole)).length_le

/-- A piece that starts tight is an argument, or the beginning of one. -/
theorem arguments_cons (ht : trim t ≠ []) (ps : List Text) :
    arguments (t :: ps) = trim t :: arguments ps := by
  simp [arguments, ht]

theorem arguments_singleton (hne : t ≠ []) (hs : StartsTight t) (he : EndsTight t) :
    arguments [t] = [t] := by
  have htrim := trim_of_tight hs he
  rw [arguments_cons (by rwa [htrim]), htrim]
  rfl

/-- The first piece starts with what was read of it before. -/
theorem exists_arguments_run (s : Scan) (hdone : s.done = []) (t : Text) :
    ∃ rest more, arguments ((s.run t).done ++ [(s.run t).current]) =
      arguments ((s.current ++ rest) :: more) := by
  rw [Scan.pieces_run, hdone]
  exact ⟨_, _, rfl⟩

/-- Blanks in front of the list do not matter. -/
theorem split_space_cons (t : Text) : split (' ' :: t) = split t := by
  have hnext : Nesting.next {} ' ' = (.keep, {}) := by decide
  have hpieces : pieces {} (' ' :: t) = (' ' :: (pieces {} t).1, (pieces {} t).2) := by
    rw [pieces, hnext]
  have htrim : trim (' ' :: (pieces {} t).1) = trim (pieces {} t).1 :=
    trim_append_of_blanks (blanks_replicate 1) _
  simp only [split, hpieces, List.map_cons, htrim]

end Split

/-! ## One argument -/

/-- An argument as it stands in a list: a trimmed text without a backslash, which does not start
with a comma. -/
structure Proper (a : Text) : Prop where
  ne_nil : a ≠ []
  startsTight : StartsTight a
  endsTight : EndsTight a
  no_backslash : '\\' ∉ a
  no_comma : a.head? ≠ some ','

/-- A text in which no comma separates. -/
def Undivided (a : Text) : Prop :=
  ∀ u v, a = u ++ ',' :: v → (Nesting.after {} u).isNeutral = false

section Argument

variable {a u v : Text}

/-- A text in which no comma separates is one piece. -/
theorem scan_of_undivided (hbackslash : '\\' ∉ a) (h : Undivided a) :
    scan a = ⟨Nesting.after {} a, [], a⟩ := by
  induction a using List.reverseRecOn with
  | nil => rfl
  | append_singleton a c ih =>
    have hc : c ≠ '\\' := by
      rintro rfl
      exact hbackslash (by simp)
    have hrest : scan a = ⟨Nesting.after {} a, [], a⟩ := by
      refine ih (fun hmem => hbackslash (List.mem_append_left _ hmem)) fun u v huv => ?_
      exact h u (v ++ [c]) (by rw [huv]; simp)
    have hopen : c = ',' → (scan a).nesting ≠ {} := by
      rintro rfl hinitial
      rw [nesting_scan] at hinitial
      have hneutral := Nesting.isNeutral_iff.mpr hinitial
      rw [h a [] rfl] at hneutral
      cases hneutral
    have hfeed : scan (a ++ [c]) = (scan a).feed c := scan_append a [c]
    rw [hfeed, Scan.feed_of_keep (Nesting.next_eq_keep hc hopen), hrest, Nesting.after_append]
    rfl

theorem split_of_undivided (ha : Proper a) (h : Undivided a) : split a = [a] := by
  rw [split_eq_arguments, scan_of_undivided ha.no_backslash h, List.nil_append]
  exact arguments_singleton ha.ne_nil ha.startsTight ha.endsTight

/-- What stands before the first separating comma of an argument is no empty argument. -/
theorem split_ne_nil (ha : Proper a) (hsplit : a = u ++ ',' :: v) : split u ≠ [] := by
  obtain ⟨c, t, rfl⟩ := List.exists_cons_of_ne_nil ha.ne_nil
  cases u with
  | nil =>
    obtain ⟨rfl, -⟩ := List.cons.inj hsplit
    exact absurd rfl ha.no_comma
  | cons d u =>
    obtain ⟨rfl, rfl⟩ := List.cons.inj hsplit
    have hbackslash : c ≠ '\\' := by
      rintro rfl
      exact ha.no_backslash List.mem_cons_self
    have hcomma : c = ',' → ({} : Nesting) ≠ {} := by
      rintro rfl
      exact absurd rfl ha.no_comma
    have hfeed : scan [c] = ⟨(Nesting.next {} c).2, [], [c]⟩ :=
      Scan.feed_of_keep (Nesting.next_eq_keep hbackslash hcomma)
    have hscan : scan (c :: u) = (scan [c]).run u := scan_append [c] u
    obtain ⟨rest, more, harguments⟩ := exists_arguments_run (scan [c]) (by rw [hfeed]) u
    have htight : trim (c :: rest) ≠ [] := by
      intro hnil
      have hcompact : compact (c :: rest) = [] := by rw [← compact_trim, hnil]; rfl
      have hstart : StartsTight (c :: rest) :=
        startsTight_cons.mpr (startsTight_cons.mp ha.startsTight)
      exact List.cons_ne_nil _ _ (eq_nil_of_compact_eq_nil hstart hcompact)
    rw [split_eq_arguments, hscan, harguments, hfeed, List.singleton_append, arguments_cons htight]
    exact List.cons_ne_nil _ _

/-- An argument in which a comma separates is not the first one that splitting gives. -/
theorem undivided_of_split_append (ha : Proper a) {b : Text} {args : List Text}
    (h : split (a ++ b) = a :: args) : Undivided a := by
  intro u v huv
  by_contra hneutral
  rw [Bool.not_eq_false] at hneutral
  obtain ⟨first, more, hfirst⟩ := List.exists_cons_of_ne_nil (split_ne_nil ha huv)
  have hsplit : split (a ++ b) = split u ++ split (v ++ b) := by
    rw [huv, List.append_assoc, List.cons_append]
    exact split_append_of_isNeutral hneutral _
  rw [hsplit, hfirst, List.cons_append] at h
  have hmem : a ∈ split u := by
    rw [hfirst, (List.cons.inj h).1]
    exact List.mem_cons_self
  have hle := length_le_of_mem_split hmem
  have hlength := congrArg List.length huv
  rw [List.length_append, List.length_cons] at hlength
  omega

/-- An argument that leaves something open takes the comma behind it along. -/
theorem isNeutral_of_split_comma (ha : Proper a) (hundivided : Undivided a) {b : Text}
    {args : List Text} (h : split (a ++ ',' :: b) = a :: args) :
    (Nesting.after {} a).isNeutral = true := by
  by_contra hopen
  rw [Bool.not_eq_true] at hopen
  obtain ⟨hdone, hcurrent⟩ := scan_append_kept_comma hopen
  rw [scan_of_undivided ha.no_backslash hundivided] at hdone hcurrent
  have hscan : scan (a ++ ',' :: b) = (scan (a ++ [','])).run b := by
    rw [← scan_append, List.append_assoc, List.singleton_append]
  obtain ⟨rest, more, harguments⟩ := exists_arguments_run _ hdone b
  have hstart : StartsTight (a ++ [','] ++ rest) := by
    rw [List.append_assoc, startsTight_append ha.ne_nil]
    exact ha.startsTight
  have hend : EndsTight (a ++ [',']) := endsTight_concat.mpr (by decide)
  have hprefix : a ++ [','] <+: trim (a ++ [','] ++ rest) := by
    rw [trim, trimStart_of_startsTight hstart]
    exact isPrefix_trimEnd hend (List.prefix_append _ _)
  have hne : trim (a ++ [','] ++ rest) ≠ [] := by
    intro hnil
    rw [hnil, List.prefix_nil] at hprefix
    exact List.cons_ne_nil _ _ (List.append_eq_nil_iff.mp hprefix).2
  rw [split_eq_arguments, hscan, harguments, hcurrent, arguments_cons hne] at h
  rw [(List.cons.inj h).1] at hprefix
  have hle := hprefix.length_le
  rw [List.length_append, List.length_singleton] at hle
  omega

end Argument

/-! ## The whole list -/

/-- Arguments joined by commas. -/
def joined (args : List Text) : Text := List.intercalate [',', ' '] args

theorem joined_cons (a : Text) {args : List Text} (h : args ≠ []) :
    joined (a :: args) = a ++ ',' :: ' ' :: joined args := by
  rw [joined, List.intercalate_cons_of_ne_nil h, List.append_assoc]
  rfl

/-- Arguments that stay whole: no comma inside one of them separates, and nothing is open where the
next one starts. -/
structure StayWhole (args : List Text) : Prop where
  undivided : ∀ a ∈ args, Undivided a
  closed : ∀ a ∈ args.dropLast, (Nesting.after {} a).isNeutral = true

theorem stayWhole_cons {a : Text} {args : List Text} (h : args ≠ []) :
    StayWhole (a :: args) ↔
      Undivided a ∧ (Nesting.after {} a).isNeutral = true ∧ StayWhole args := by
  have hlast : (a :: args).dropLast = a :: args.dropLast := List.dropLast_cons_of_ne_nil h
  constructor
  · rintro ⟨hundivided, hclosed⟩
    rw [hlast] at hclosed
    exact ⟨hundivided a List.mem_cons_self, hclosed a List.mem_cons_self,
      fun b hb => hundivided b (List.mem_cons_of_mem _ hb),
      fun b hb => hclosed b (List.mem_cons_of_mem _ hb)⟩
  · rintro ⟨hundivided, hclosed, hargs⟩
    refine ⟨List.forall_mem_cons.mpr ⟨hundivided, hargs.undivided⟩, ?_⟩
    rw [hlast]
    exact List.forall_mem_cons.mpr ⟨hclosed, hargs.closed⟩

/-- **Joined arguments are found again exactly if they stay whole.** -/
theorem split_joined_eq_iff {args : List Text} (hargs : ∀ a ∈ args, Proper a) :
    split (joined args) = args ↔ StayWhole args := by
  induction args with
  | nil => exact iff_of_true (by decide) ⟨nofun, nofun⟩
  | cons a args ih =>
    obtain ⟨ha, hargs⟩ := List.forall_mem_cons.mp hargs
    by_cases hne : args = []
    · subst hne
      have hjoined : joined [a] = a := by simp [joined]
      rw [hjoined]
      constructor
      · intro h
        have hundivided := undivided_of_split_append ha (b := []) (by rw [List.append_nil, h])
        exact ⟨List.forall_mem_singleton.mpr hundivided, nofun⟩
      · rintro ⟨hundivided, -⟩
        exact split_of_undivided ha (hundivided a List.mem_cons_self)
    · rw [joined_cons a hne, stayWhole_cons hne, ← ih hargs]
      constructor
      · intro h
        have hundivided := undivided_of_split_append ha h
        have hclosed := isNeutral_of_split_comma ha hundivided h
        rw [split_append_of_isNeutral hclosed, split_space_cons,
          split_of_undivided ha hundivided] at h
        exact ⟨hundivided, hclosed, (List.cons.inj h).2⟩
      · rintro ⟨hundivided, hclosed, hrest⟩
        rw [split_append_of_isNeutral hclosed, split_space_cons, hrest,
          split_of_undivided ha hundivided]
        rfl

end DocComment.ArgumentList
