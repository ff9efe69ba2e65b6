import DocComment.KnownTag
import DocComment.Proofs.Text.Trim

/-!
# Looking up what has been typed so far

Typing goes on at the end, so a lookup should only ever lose tags.  What is compared with the names
of a table is not the typed text itself: blanks around it and introducers before it are taken off,
and for some tables it is put into title case.  Each of these steps reads from left to right.  So
the name that has been typed so far is a beginning of the name that is typed later
(`typedName_isPrefix`), also after title casing (`Text.titleCase_mono`), and a table name that
agrees with a text agrees with every beginning of it (`Matching.accepts_of_isPrefix`).
-/

namespace DocComment

namespace Text

/-! ## Beginnings -/

/-- Title casing goes on from the state that the text before has left. -/
theorem exists_titleCaseFrom_append (wordStart : Bool) (s t : Text) :
    ∃ later, titleCaseFrom wordStart (s ++ t) =
      titleCaseFrom wordStart s ++ titleCaseFrom later t := by
  induction s generalizing wordStart with
  | nil => exact ⟨wordStart, rfl⟩
  | cons c s ih =>
    obtain ⟨later, hlater⟩ := ih (!(isAlphanumeric c || c == '_'))
    refine ⟨later, ?_⟩
    rw [List.cons_append, titleCaseFrom, hlater, titleCaseFrom, List.append_assoc]

/-- **Title case of a beginning** is a beginning in title case. -/
theorem titleCase_mono {s t : Text} (h : s <+: t) : titleCase s <+: titleCase t := by
  obtain ⟨u, rfl⟩ := h
  obtain ⟨later, hlater⟩ := exists_titleCaseFrom_append true s u
  exact ⟨titleCaseFrom later u, hlater.symm⟩

/-- Characters taken off the start of a beginning are taken off the start of the text. -/
theorem dropWhile_mono {k : Char → Bool} {s t : Text} (h : s <+: t) :
    s.dropWhile k <+: t.dropWhile k := by
  obtain ⟨u, rfl⟩ := h
  rw [List.dropWhile_append]
  split
  · next hnil =>
    rw [List.isEmpty_iff.mp hnil]
    exact List.nil_prefix
  · exact List.prefix_append _ _

theorem trim_mono {s t : Text} (h : s <+: t) : trim s <+: trim t := by
  have hend : trim s <+: trimStart s := List.rdropWhile_prefix isBlank _
  exact isPrefix_trimEnd (endsTight_trim s) (hend.trans (dropWhile_mono h))

/-- A word occurs where it is a part of the text. -/
theorem occurs_iff {w t : Text} : occurs w t = true ↔ w <:+: t := by
  induction t with
  | nil => rw [occurs, List.isEmpty_iff, List.infix_nil]
  | cons c t ih => rw [occurs, Bool.or_eq_true, List.isPrefixOf_iff_prefix, ih, List.infix_cons_iff]

end Text

namespace KnownTag

open Text

/-- **What has been typed so far** is a beginning of what is typed later. -/
theorem typedName_isPrefix (typed more : Text) : typedName typed <+: typedName (typed ++ more) := by
  have htrim : trim typed <+: trim (typed ++ more) := trim_mono (List.prefix_append typed more)
  exact dropWhile_mono (dropWhile_mono htrim)

/-- **A name that agrees with a text agrees with every beginning of it**, in each way of looking
up. -/
theorem Matching.accepts_of_isPrefix {m : Matching} {typed later name : Text}
    (h : typed <+: later) (hlater : m.accepts later name = true) :
    m.accepts typed name = true := by
  cases m with
  | fromStart =>
    rw [accepts, List.isPrefixOf_iff_prefix] at hlater ⊢
    exact h.trans hlater
  | anywhere =>
    rw [accepts, occurs_iff] at hlater ⊢
    exact h.isInfix.trans hlater
  | titleCase =>
    rw [accepts, occurs_iff] at hlater ⊢
    exact (titleCase_mono h).isInfix.trans hlater

/-- **Typing more never adds a tag.**  What a lookup lists after more has been typed, it has listed
before, in the same order. -/
theorem lookup_append_sublist (language : Language) (typed more : Text) :
    (lookup language (typed ++ more)).Sublist (lookup language typed) := by
  apply List.monotone_filter_right
  intro tag haccepts
  exact Matching.accepts_of_isPrefix (typedName_isPrefix typed more) haccepts

end KnownTag

end DocComment
