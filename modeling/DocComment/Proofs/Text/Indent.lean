import DocComment.Proofs.Text.Lines

/-!
# Indented texts

An indentation of spaces and tabs is put in front of every line of a text, while the line ends stay
as they are.  Each line of the new text is then a line of the old one behind the indentation
(`lines_indented`).  Of the text as a whole only its blanks change up to the first other character
(`trimStart_indentedFrom`), and what fills no more than one line stands at the start of both or of
neither (`isPrefix_indentedFrom_iff`).
-/

namespace DocComment.Text

/-- Spaces and tabs, by which a line is indented. -/
def IsIndent (s : Text) : Prop := ∀ c ∈ s, c = ' ' ∨ c = '\t'

instance (s : Text) : Decidable (IsIndent s) := List.decidableBAll _ s

/-- The rest of a text with `s` in front of every line that starts in it; `fresh` tells that one
starts with the rest. -/
def indentedFrom (s : Text) : (fresh : Bool) → Text → Text
  | _, [] => []
  | fresh, c :: t => (if fresh then s else []) ++ c :: indentedFrom s (c == '\n') t

/-- The text with `s` in front of every line. -/
def indented (s t : Text) : Text := indentedFrom s true t

/-- Lines with `s` in front of each, the first of them only if it starts where the text does. -/
def indentLines (s : Text) (fresh : Bool) : List Text → List Text
  | [] => []
  | l :: ls => ((if fresh then s else []) ++ l) :: ls.map (s ++ ·)

section Indent

variable {s : Text}

theorem IsIndent.blanks (hs : IsIndent s) : Blanks s := by
  intro c hc
  rcases hs c hc with rfl | rfl <;> decide

/-- An indentation does not end a line. -/
theorem IsIndent.oneLine (hs : IsIndent s) : OneLine s := by
  intro hc
  rcases hs '\n' hc with h | h <;> exact absurd h (by decide)

/-- Behind an indentation comes the one that the text has itself. -/
theorem IsIndent.takeWhile_append (hs : IsIndent s) (t : Text) :
    (s ++ t).takeWhile (fun c => c == ' ' || c == '\t') =
      s ++ t.takeWhile (fun c => c == ' ' || c == '\t') := by
  apply List.takeWhile_append_of_pos
  intro c hc
  simpa using hs c hc

/-! ## The lines -/

/-- An indentation in front of a text stands in front of its first line. -/
theorem lines_append_of_isIndent (hs : IsIndent s) {t : Text} (ht : t ≠ []) :
    lines (s ++ t) = (lines t).modifyHead (s ++ ·) := by
  obtain ⟨l, ls, hlines⟩ := List.exists_cons_of_ne_nil (lines_ne_nil ht)
  rw [hlines, List.modifyHead_cons]
  induction s with
  | nil => exact hlines
  | cons c s ih =>
    obtain ⟨hc, hs⟩ := List.forall_mem_cons.mp hs
    have hne : c ≠ '\n' ∧ c ≠ '\r' := by
      rcases hc with rfl | rfl <;> decide
    rw [List.cons_append, lines_cons hne.1 fun hcr => absurd hcr hne.2, ih hs]
    rfl

/-- Indenting the first line indents nothing else. -/
theorem lines_fresh {t : Text} (hs : IsIndent s) (fresh : Bool) (ht : t ≠ []) :
    lines ((if fresh then s else []) ++ t) =
      (lines t).modifyHead ((if fresh then s else []) ++ ·) := by
  cases fresh with
  | true => exact lines_append_of_isIndent hs ht
  | false => exact lines_append_of_isIndent (s := []) nofun ht

@[simp] theorem indentLines_true (ls : List Text) : indentLines s true ls = ls.map (s ++ ·) := by
  cases ls <;> rfl

/-- In the middle of a line nothing is put in front. -/
theorem head?_indentedFrom_false (t : Text) : (indentedFrom s false t).head? = t.head? := by
  cases t <;> rfl

/-- **The lines of an indented text are the lines of the text behind the indentation.** -/
theorem lines_indentedFrom (hs : IsIndent s) (fresh : Bool) (t : Text) :
    lines (indentedFrom s fresh t) = indentLines s fresh (lines t) := by
  induction t generalizing fresh with
  | nil => rfl
  | cons c t ih =>
    have hrest : lines (c :: indentedFrom s (c == '\n') t) =
        indentLines s false (lines (c :: t)) := by
      by_cases hc : c = '\n'
      · rw [hc, beq_self_eq_true, lines_newline_cons, lines_newline_cons, ih true,
          indentLines_true]
        rfl
      · rw [beq_eq_false_iff_ne.mpr hc]
        by_cases hcr : c = '\r' ∧ t.head? = some '\n'
        · -- The carriage return goes with the line feed after it.
          obtain ⟨rfl, hhead⟩ := hcr
          obtain ⟨rest, rfl⟩ := List.head?_eq_some_iff.mp hhead
          have hreturn : ∀ t, lines ('\r' :: '\n' :: t) = lines ('\n' :: t) := by simp [lines]
          rw [hreturn, ← ih false]
          exact hreturn (indentedFrom s true rest)
        · have hreturn : ∀ {u : Text}, u.head? = t.head? → c = '\r' → u.head? ≠ some '\n' := by
            intro u hu h hnewline
            exact hcr ⟨h, hu ▸ hnewline⟩
          rw [lines_cons hc (hreturn (head?_indentedFrom_false t)), lines_cons hc (hreturn rfl),
            ih false]
          cases lines t <;> simp [indentLines]
    rw [indentedFrom, lines_fresh hs fresh (List.cons_ne_nil _ _), hrest]
    obtain ⟨l, ls, hlines⟩ := List.exists_cons_of_ne_nil (lines_ne_nil (List.cons_ne_nil c t))
    rw [hlines]
    rfl

/-- The lines of an indented text are its lines, indented. -/
theorem lines_indented (hs : IsIndent s) (t : Text) :
    lines (indented s t) = (lines t).map (s ++ ·) := by
  rw [indented, lines_indentedFrom hs, indentLines_true]

/-! ## The text as a whole -/

/-- Past its first blanks a text is indented where its lines start. -/
theorem trimStart_indentedFrom (hs : Blanks s) (fresh : Bool) (t : Text) :
    trimStart (indentedFrom s fresh t) = indentedFrom s false (trimStart t) := by
  induction t generalizing fresh with
  | nil => rfl
  | cons c t ih =>
    have hfresh : Blanks (if fresh then s else []) := by
      cases fresh with
      | true => exact hs
      | false => exact blanks_nil
    rw [indentedFrom, trimStart_append_of_blanks hfresh]
    by_cases hc : isBlank c = true
    · have hskip : ∀ u, trimStart (c :: u) = trimStart u := fun u => by simp [trimStart, hc]
      rw [hskip, hskip, ih]
    · have hstart : ∀ u, trimStart (c :: u) = c :: u := fun u =>
        trimStart_of_startsTight (startsTight_cons.mpr (by simpa using hc))
      rw [hstart, hstart]
      rfl

/-- What fills no more than a line stands at the start of an indented text if it did before. -/
theorem isPrefix_indentedFrom_iff {w : Text} (hw : OneLine w) (t : Text) :
    w <+: indentedFrom s false t ↔ w <+: t := by
  induction w generalizing t with
  | nil => simp
  | cons d w ih =>
    cases t with
    | nil => rfl
    | cons c t =>
      obtain ⟨hd, hw⟩ : d ≠ '\n' ∧ OneLine w := by
        rw [OneLine, List.mem_cons, not_or] at hw
        exact ⟨Ne.symm hw.1, hw.2⟩
      change d :: w <+: c :: indentedFrom s (c == '\n') t ↔ _
      rw [List.cons_prefix_cons, List.cons_prefix_cons]
      apply and_congr_right
      intro heq
      rw [← heq, beq_eq_false_iff_ne.mpr hd]
      exact ih hw t

/-- A text is blank behind every indentation or without any. -/
theorem trim_indented_eq_nil_iff (hs : Blanks s) (t : Text) :
    trim (indented s t) = [] ↔ trim t = [] := by
  rw [trim_eq_nil_iff, trim_eq_nil_iff, indented, trimStart_indentedFrom hs]
  cases trimStart t with
  | nil => rfl
  | cons c t => exact iff_of_false (List.cons_ne_nil _ _) (List.cons_ne_nil _ _)

/-- A trimmed text starts with the same words behind every indentation. -/
theorem isPrefix_trim_indented_iff {w : Text} (hs : Blanks s) (hone : OneLine w)
    (htight : EndsTight w) (t : Text) : w <+: trim (indented s t) ↔ w <+: trim t := by
  rw [isPrefix_trim_iff htight, isPrefix_trim_iff htight, indented, trimStart_indentedFrom hs,
    isPrefix_indentedFrom_iff hone]

end Indent

end DocComment.Text
