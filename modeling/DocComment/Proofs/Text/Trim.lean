import DocComment.Text.Basic
import Mathlib.Data.List.DropRight

/-!
# Trimming

Everything that later files need to know about blanks at the ends of a text.  A text is
**tight** at one end when no blank stands there; trimming takes away a run of blanks and
leaves a tight text, and a tight text is left alone.  Trimming never touches a character
that is not blank, so the compact form of a text does not change.
-/

namespace DocComment.Text

/-- A text of blanks only. -/
def Blanks (s : Text) : Prop := ∀ c ∈ s, isBlank c = true

/-- A text that does not start with a blank. -/
def StartsTight (t : Text) : Prop := ∀ c ∈ t.head?, isBlank c = false

/-- A text that does not end with a blank. -/
def EndsTight (t : Text) : Prop := ∀ c ∈ t.getLast?, isBlank c = false

instance (s : Text) : Decidable (Blanks s) :=
  List.decidableBAll _ s

instance (t : Text) : Decidable (StartsTight t) :=
  Option.decidableForallMem t.head?

instance (t : Text) : Decidable (EndsTight t) :=
  Option.decidableForallMem t.getLast?

@[simp] theorem blanks_nil : Blanks [] := by simp [Blanks]

theorem blanks_append {s t : Text} : Blanks (s ++ t) ↔ Blanks s ∧ Blanks t := by
  simp [Blanks, or_imp, forall_and]

theorem blanks_cons {c : Char} {s : Text} :
    Blanks (c :: s) ↔ isBlank c = true ∧ Blanks s := by
  simp [Blanks]

theorem blanks_replicate (n : Nat) : Blanks (List.replicate n ' ') := by
  intro c hc
  rw [(List.mem_replicate.mp hc).2]
  decide

@[simp] theorem startsTight_nil : StartsTight [] := by simp [StartsTight]

/-- A text starts tight if its first character is no blank. -/
@[simp] theorem startsTight_cons {c : Char} {t : Text} :
    StartsTight (c :: t) ↔ isBlank c = false := by
  simp [StartsTight]

/-- The start of a text does not depend on what follows it. -/
theorem startsTight_append {s t : Text} (hs : s ≠ []) :
    StartsTight (s ++ t) ↔ StartsTight s := by
  cases s with
  | nil => exact absurd rfl hs
  | cons c s => simp

@[simp] theorem endsTight_nil : EndsTight [] := by simp [EndsTight]

/-- A text ends tight if its last character is no blank. -/
@[simp] theorem endsTight_concat {c : Char} {t : Text} :
    EndsTight (t ++ [c]) ↔ isBlank c = false := by
  simp [EndsTight]

/-- The end of a text does not depend on what stands before it. -/
theorem endsTight_append {s t : Text} (ht : t ≠ []) :
    EndsTight (s ++ t) ↔ EndsTight t := by
  obtain ⟨t, c, rfl⟩ := List.eq_nil_or_concat t |>.resolve_left ht
  simp [← List.append_assoc]

/-! ## The start of a text -/

/-- Leading blanks do not count. -/
theorem trimStart_append_of_blanks {s : Text} (hs : Blanks s) (t : Text) :
    trimStart (s ++ t) = trimStart t :=
  List.dropWhile_append_of_pos hs

/-- A text that starts tight has nothing to trim there. -/
theorem trimStart_of_startsTight {t : Text} (ht : StartsTight t) : trimStart t = t := by
  cases t with
  | nil => rfl
  | cons c t => simp [trimStart, startsTight_cons.mp ht]

/-- A text whose leading blanks are gone starts tight. -/
theorem startsTight_trimStart (t : Text) : StartsTight (trimStart t) := by
  intro c hc
  have h := List.head?_dropWhile_not isBlank t
  unfold trimStart at hc
  rw [Option.mem_def] at hc
  rw [hc] at h
  simpa using h

/-- A text is a run of blanks and what trimming its start leaves. -/
theorem exists_blanks_append_trimStart (t : Text) :
    ∃ s, Blanks s ∧ t = s ++ trimStart t := by
  refine ⟨t.takeWhile isBlank, ?_, (List.takeWhile_append_dropWhile).symm⟩
  intro c hc
  exact List.mem_takeWhile_imp hc

/-- Of a run of blanks nothing is left. -/
theorem trimStart_of_blanks {t : Text} (ht : Blanks t) : trimStart t = [] := by
  have h := trimStart_append_of_blanks ht []
  rwa [List.append_nil] at h

/-! ## The end of a text -/

/-- Trimming the end is Mathlib's `rdropWhile`. -/
theorem trimEnd_eq_rdropWhile (t : Text) : trimEnd t = t.rdropWhile isBlank := rfl

/-- Trailing blanks do not count. -/
theorem trimEnd_append_of_blanks {s : Text} (hs : Blanks s) (t : Text) :
    trimEnd (t ++ s) = trimEnd t := by
  have hr : ∀ c ∈ s.reverse, isBlank c = true := fun c hc => hs c (by simpa using hc)
  rw [trimEnd, List.reverse_append, List.dropWhile_append_of_pos hr, trimEnd]

/-- A text that ends tight has nothing to trim there. -/
theorem trimEnd_of_endsTight {t : Text} (ht : EndsTight t) : trimEnd t = t := by
  rcases List.eq_nil_or_concat t with rfl | ⟨t, c, rfl⟩
  · rfl
  · rw [List.concat_eq_append] at ht ⊢
    have hc := endsTight_concat.mp ht
    rw [trimEnd_eq_rdropWhile, List.rdropWhile_concat_neg _ _ _ (by simp [hc])]

/-- A text whose trailing blanks are gone ends tight. -/
theorem endsTight_trimEnd (t : Text) : EndsTight (trimEnd t) := by
  intro c hc
  have h := startsTight_trimStart t.reverse c
  apply h
  simpa [trimEnd, trimStart] using hc

/-- A text is what trimming its end leaves and a run of blanks. -/
theorem exists_trimEnd_append_blanks (t : Text) :
    ∃ s, Blanks s ∧ t = trimEnd t ++ s := by
  obtain ⟨s, hs, ht⟩ := exists_blanks_append_trimStart t.reverse
  refine ⟨s.reverse, fun c hc => hs c (by simpa using hc), ?_⟩
  have h := congrArg List.reverse ht
  simpa [trimEnd, trimStart] using h

theorem trimEnd_of_blanks {t : Text} (ht : Blanks t) : trimEnd t = [] := by
  have h := trimEnd_append_of_blanks ht []
  rwa [List.nil_append] at h

/-- Only a text of blanks is trimmed away. -/
theorem trimEnd_eq_nil_iff {t : Text} : trimEnd t = [] ↔ Blanks t := by
  rw [trimEnd_eq_rdropWhile, List.rdropWhile_eq_nil_iff]
  rfl

/-- Trimming the end of a text with something in its last part stays in that part. -/
theorem trimEnd_append {t : Text} (ht : trimEnd t ≠ []) (s : Text) :
    trimEnd (s ++ t) = s ++ trimEnd t := by
  obtain ⟨u, hu, htu⟩ := exists_trimEnd_append_blanks t
  have htight : EndsTight (s ++ trimEnd t) := (endsTight_append ht).mpr (endsTight_trimEnd t)
  calc trimEnd (s ++ t)
      = trimEnd (s ++ trimEnd t ++ u) := by rw [List.append_assoc, ← htu]
    _ = trimEnd (s ++ trimEnd t) := trimEnd_append_of_blanks hu _
    _ = s ++ trimEnd t := trimEnd_of_endsTight htight

/-- Trimming does not reach a beginning that ends tight. -/
theorem isPrefix_trimEnd {s t : Text} (hs : EndsTight s) (h : s <+: t) : s <+: trimEnd t := by
  obtain ⟨u, rfl⟩ := h
  by_cases hu : trimEnd u = []
  · have htrim : trimEnd (s ++ u) = s := by
      rw [trimEnd_append_of_blanks (trimEnd_eq_nil_iff.mp hu), trimEnd_of_endsTight hs]
    exact ⟨[], by rw [List.append_nil, htrim]⟩
  · rw [trimEnd_append hu]
    exact List.prefix_append _ _

/-- Trimming both ends leaves what trimming the start does, if nothing is left. -/
theorem trim_eq_nil_iff {t : Text} : trim t = [] ↔ trimStart t = [] := by
  constructor
  · intro h
    have hblanks := trimEnd_eq_nil_iff.mp h
    rw [← trimStart_of_startsTight (startsTight_trimStart t), trimStart_of_blanks hblanks]
  · intro h
    rw [trim, h]
    rfl

/-- Trimming the end does not change which tight texts stand at the start. -/
theorem isPrefix_trim_iff {s t : Text} (hs : EndsTight s) : s <+: trim t ↔ s <+: trimStart t := by
  constructor
  · intro h
    obtain ⟨e, -, he⟩ := exists_trimEnd_append_blanks (trimStart t)
    rw [he]
    exact h.trans (List.prefix_append _ _)
  · intro h
    exact isPrefix_trimEnd hs h

/-- Trimming the end keeps a tight start. -/
theorem startsTight_trimEnd {t : Text} (ht : StartsTight t) : StartsTight (trimEnd t) := by
  obtain ⟨s, -, hs⟩ := exists_trimEnd_append_blanks t
  by_cases hne : trimEnd t = []
  · rw [hne]; simp
  · rw [hs, startsTight_append hne] at ht
    exact ht

/-! ## Both ends -/

theorem startsTight_trim (t : Text) : StartsTight (trim t) :=
  startsTight_trimEnd (startsTight_trimStart t)

theorem endsTight_trim (t : Text) : EndsTight (trim t) := endsTight_trimEnd _

/-- A text that is tight at both ends is left alone. -/
theorem trim_of_tight {t : Text} (hs : StartsTight t) (he : EndsTight t) : trim t = t := by
  rw [trim, trimStart_of_startsTight hs, trimEnd_of_endsTight he]

/-- Blanks in front have no share in the trimmed text. -/
theorem trim_append_of_blanks {s : Text} (hs : Blanks s) (t : Text) :
    trim (s ++ t) = trim t := by
  rw [trim, trimStart_append_of_blanks hs, trim]

/-- Trimming the start and trimming the end do not get in each other's way. -/
theorem trimStart_trimEnd (t : Text) : trimStart (trimEnd t) = trim t := by
  obtain ⟨s, hs, ht⟩ := exists_blanks_append_trimStart t
  by_cases hne : trimEnd (trimStart t) = []
  · have hblank : Blanks t := by
      rw [ht, blanks_append]
      exact ⟨hs, trimEnd_eq_nil_iff.mp hne⟩
    rw [trimEnd_of_blanks hblank, trim, hne]
    rfl
  · calc trimStart (trimEnd t)
        = trimStart (s ++ trimEnd (trimStart t)) := by
          rw [← trimEnd_append hne, ← ht]
      _ = trimStart (trimEnd (trimStart t)) := trimStart_append_of_blanks hs _
      _ = trim t := trimStart_of_startsTight (startsTight_trim t)

/-- Blanks behind have no share in the trimmed text. -/
theorem trim_append_blanks {s : Text} (hs : Blanks s) (t : Text) :
    trim (t ++ s) = trim t := by
  rw [← trimStart_trimEnd, trimEnd_append_of_blanks hs, trimStart_trimEnd]

theorem trim_of_blanks {t : Text} (ht : Blanks t) : trim t = [] := by
  rw [trim, trimStart_of_blanks ht]
  rfl

/-- Trimming one end before both changes nothing. -/
theorem trim_trimEnd (t : Text) : trim (trimEnd t) = trim t := by
  obtain ⟨s, hs, ht⟩ := exists_trimEnd_append_blanks t
  conv_rhs => rw [ht, trim_append_blanks hs]

/-- A text is what trimming leaves, between blanks. -/
theorem exists_blanks_trim (t : Text) : ∃ s e, Blanks s ∧ Blanks e ∧ t = s ++ trim t ++ e := by
  obtain ⟨s, hs, hstart⟩ := exists_blanks_append_trimStart t
  obtain ⟨e, he, hend⟩ := exists_trimEnd_append_blanks (trimStart t)
  refine ⟨s, e, hs, he, ?_⟩
  rw [List.append_assoc, trim, ← hend, ← hstart]

/-! ## What trimming keeps -/

/-- Blanks take no part in a compact text. -/
theorem compact_of_blanks {s : Text} (hs : Blanks s) : compact s = [] := by
  simpa [compact, List.filter_eq_nil_iff, Blanks] using hs

/-- A text without blanks is compact. -/
theorem compact_of_forall_not_blank {t : Text} (ht : ∀ c ∈ t, isBlank c = false) : compact t = t :=
  List.filter_eq_self.mpr fun c hc => by simp [ht c hc]

/-- Trimming the start keeps all that is not blank. -/
@[simp] theorem compact_trimStart (t : Text) : compact (trimStart t) = compact t := by
  obtain ⟨s, hs, ht⟩ := exists_blanks_append_trimStart t
  conv_rhs => rw [ht, compact_append, compact_of_blanks hs, List.nil_append]

/-- Trimming the end keeps all that is not blank. -/
@[simp] theorem compact_trimEnd (t : Text) : compact (trimEnd t) = compact t := by
  obtain ⟨s, hs, ht⟩ := exists_trimEnd_append_blanks t
  conv_rhs => rw [ht, compact_append, compact_of_blanks hs, List.append_nil]

/-- Trimming keeps all that is not blank. -/
@[simp] theorem compact_trim (t : Text) : compact (trim t) = compact t := by
  rw [trim, compact_trimEnd, compact_trimStart]

/-- A text that starts tight is empty once its compact form is. -/
theorem eq_nil_of_compact_eq_nil {t : Text} (ht : StartsTight t) (h : compact t = []) :
    t = [] := by
  cases t with
  | nil => rfl
  | cons c t => simp [compact, startsTight_cons.mp ht] at h

/-- A text of which nothing is left without its blanks is blank. -/
theorem blanks_of_compact_eq_nil {t : Text} (h : compact t = []) : Blanks t := by
  simpa [compact, List.filter_eq_nil_iff, Blanks] using h

/-- Between texts with something on them nothing is trimmed. -/
theorem trim_append_of_not_blanks {s t : Text} (hs : ¬ Blanks s) (ht : ¬ Blanks t) (m : Text) :
    trim (s ++ (m ++ t)) = trimStart s ++ (m ++ trimEnd t) := by
  have hend : trimEnd t ≠ [] := mt trimEnd_eq_nil_iff.mp ht
  obtain ⟨b, hb, hstart⟩ := exists_blanks_append_trimStart s
  have hne : trimStart s ≠ [] := by
    intro hnil
    rw [hstart, hnil, List.append_nil] at hs
    exact hs hb
  have htight : StartsTight (trimStart s ++ (m ++ t)) :=
    (startsTight_append hne).mpr (startsTight_trimStart s)
  conv_lhs => rw [hstart, List.append_assoc, trim_append_of_blanks hb]
  rw [trim, trimStart_of_startsTight htight, ← List.append_assoc, trimEnd_append hend,
    List.append_assoc]

/-- **What trimming does not see**: a text can be taken out of the middle of another one if it is
blank and all before it, or all behind it, is blank too. -/
theorem trim_append_eq_iff {s m t : Text} (hm : m ≠ []) :
    trim (s ++ t) = trim (s ++ (m ++ t)) ↔ Blanks m ∧ (Blanks s ∨ Blanks t) := by
  constructor
  · intro h
    have hblank : Blanks m := by
      have hcompact := congrArg compact h
      rw [compact_trim, compact_trim, compact_append, compact_append, compact_append,
        List.append_cancel_left_eq] at hcompact
      exact blanks_of_compact_eq_nil (List.self_eq_append_left.mp hcompact)
    refine ⟨hblank, ?_⟩
    by_contra hnot
    rw [not_or] at hnot
    have hleft := trim_append_of_not_blanks hnot.1 hnot.2 []
    rw [List.nil_append, List.nil_append] at hleft
    rw [hleft, trim_append_of_not_blanks hnot.1 hnot.2, List.append_cancel_left_eq] at h
    exact hm (List.self_eq_append_left.mp h)
  · intro ⟨hblank, hends⟩
    rcases hends with hs | ht
    · rw [trim_append_of_blanks hs, trim_append_of_blanks hs, trim_append_of_blanks hblank]
    · rw [trim_append_blanks ht, trim_append_blanks (blanks_append.mpr ⟨hblank, ht⟩)]

end DocComment.Text
