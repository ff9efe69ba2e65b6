import DocComment.Proofs.Reading.Basic
import DocComment.Proofs.Text.Lines

/-!
# From comment lines to logical lines

The marker comes off a comment line and leaves its trimmed content (`lineContent_marker`).  The
contents of consecutive lines are gathered into logical lines: `Reads p cs l` says that the contents
`cs` make up the logical line `l`, and `foldl_addLine_of_reads` that gathering them adds `l` to the
lines before, provided that free text stands apart from what precedes it.
-/

namespace DocComment

open Text

/-! ## The content of a line -/

namespace Reading

/-- Nothing is found before an ending that the text does not have. -/
theorem before?_eq_none {ending t : Text} (h : ¬ ending <:+ t) : before? ending t = none := by
  cases hbefore : before? ending t with
  | none => rfl
  | some rest =>
    obtain ⟨r, hr, rfl⟩ := Option.map_eq_some_iff.mp hbefore
    have ht := congrArg List.reverse (eq_append_of_after? hr)
    rw [List.reverse_reverse, List.reverse_append, List.reverse_reverse] at ht
    exact absurd ⟨r.reverse, ht.symm⟩ h

section LineContent

variable {d : Delimiters} {s indent t : Text} {m : Char}

/-- Trimming a line takes off the blanks before the marker and behind the text. -/
theorem trim_marker_append (hm : isBlank m = false) (hs : Blanks s) (t : Text) :
    trim (s ++ m :: t) = m :: trimEnd t := by
  have htight : StartsTight (m :: t) := startsTight_cons.mpr hm
  rw [trim_append_of_blanks hs, trim, trimStart_of_startsTight htight]
  by_cases hne : trimEnd t = []
  · have hend : EndsTight [m] := by simpa [EndsTight] using hm
    rw [hne, ← List.singleton_append, trimEnd_append_of_blanks (trimEnd_eq_nil_iff.mp hne),
      trimEnd_of_endsTight hend]
  · rw [← List.singleton_append, trimEnd_append hne]
    rfl

/-- **A marker comes off its line.**  A line that ends in the closer would lose that too. -/
theorem lineContent_marker (hmarker : d.marker = s ++ [m]) (hs : Blanks s)
    (hm : isBlank m = false) (hindent : Blanks indent)
    (hcloser : ∀ closer ∈ d.closer, ¬ trim closer <:+ trimEnd (d.marker ++ t)) :
    lineContent d false (indent ++ (d.marker ++ t)) = trim t := by
  have hmarked : d.marker ++ t = s ++ m :: t := by rw [hmarker]; simp
  have hline : trim (indent ++ (d.marker ++ t)) = m :: trimEnd t := by
    rw [hmarked, trim_append_of_blanks hindent, trim_marker_append hm hs]
  have htrim : trim d.marker = [m] := by
    rw [hmarker, trim_marker_append hm hs]
    rfl
  have htight : EndsTight (m :: trimEnd t) := by
    rw [← trim_marker_append hm hs]
    exact endsTight_trim _
  have hstart : trimStart (m :: trimEnd t) = m :: trimEnd t :=
    trimStart_of_startsTight (startsTight_cons.mpr hm)
  have hafter : after? [m] (m :: trimEnd t) = some (trimEnd t) := after?_append [m] _
  cases hc : d.closer with
  | none =>
    simp only [lineContent, hline, Bool.false_eq_true, if_false, hc, htrim, hstart, hafter,
      Option.getD_some, trim_trimEnd]
  | some closer =>
    have hnone : before? (trim closer) (m :: trimEnd t) = none := by
      apply before?_eq_none
      intro hsuffix
      apply hcloser closer (by simp [hc])
      have hend : m :: trimEnd t <:+ trimEnd (d.marker ++ t) := by
        rw [← trim_marker_append hm hs, ← hmarked, ← trimStart_trimEnd]
        exact List.dropWhile_suffix _
      exact hsuffix.trans hend
    simp only [lineContent, hline, Bool.false_eq_true, if_false, hc, hnone, Option.getD_none,
      trimEnd_of_endsTight htight, htrim, hstart, hafter, Option.getD_some, trim_trimEnd]

/-- Without a closer to take off, the content of a line is its end. -/
theorem lineContent_isSuffix {line : Text}
    (hcloser : ∀ closer ∈ d.closer, ¬ trim closer <:+ trim line) :
    lineContent d false line <:+ trim line := by
  have hmark : ∀ u, u <:+ trim line → EndsTight u →
      trim ((after? (trim d.marker) (trimStart u)).getD (trimStart u)) <:+ trim line := by
    intro u hu htight
    have hstart : trimStart u <:+ u := List.dropWhile_suffix _
    have htrim : ∀ v, v <:+ u → trim v <:+ u := by
      intro v hv
      have hend : EndsTight v := by
        intro c hc
        refine htight c ?_
        obtain ⟨w, rfl⟩ := hv
        rw [Option.mem_def] at hc ⊢
        rw [List.getLast?_append, hc]
        rfl
      rw [← trimStart_trimEnd, trimEnd_of_endsTight hend]
      exact (List.dropWhile_suffix _).trans hv
    cases hafter : after? (trim d.marker) (trimStart u) with
    | none => exact (htrim _ hstart).trans hu
    | some rest =>
      have hrest : rest <:+ trimStart u := ⟨_, (eq_append_of_after? hafter).symm⟩
      exact (htrim _ (hrest.trans hstart)).trans hu
  cases hc : d.closer with
  | none =>
    simp only [lineContent, Bool.false_eq_true, if_false, hc]
    exact hmark _ (List.suffix_refl _) (endsTight_trim line)
  | some closer =>
    have hnone : before? (trim closer) (trim line) = none :=
      before?_eq_none (hcloser closer (by simp [hc]))
    simp only [lineContent, Bool.false_eq_true, if_false, hc, hnone, Option.getD_none,
      trimEnd_of_endsTight (endsTight_trim line)]
    exact hmark _ (List.suffix_refl _) (endsTight_trim line)

/-- Indentation does not count. -/
theorem lineContent_indent (isFirst : Bool) (hindent : Blanks indent) (line : Text) :
    lineContent d isFirst (indent ++ line) = lineContent d isFirst line := by
  simp only [lineContent, trim_append_of_blanks hindent]

end LineContent

/-! ## Gathering contents -/

/-- The contents of the lines that make up a logical line. -/
def Reads (p : Profile) (cs : List Text) : Logical → Prop
  | .blank => cs = [[]]
  | .text t => cs ≠ [] ∧ (∀ c ∈ cs, c ≠ [] ∧ TagLine.ofText? p c = none) ∧ t = unwords cs
  | .tag t => ∃ c₀ rest, cs = c₀ :: rest ∧ c₀ ≠ [] ∧ (TagLine.ofText? p c₀).isSome = true ∧
      (∀ c ∈ rest, c ≠ [] ∧ TagLine.ofText? p c = none) ∧ t = unwords cs

/-- Free text may start here: at the beginning, after an empty line, or after a first sentence. -/
def Opens (soFar : List Logical) : Prop :=
  soFar = [] ∨ soFar.head? = some .blank ∨ ∃ t, soFar = [.text t] ∧ t.getLast? = some '.'

/-- Adds a logical line to those so far; empty lines collapse. -/
def addLogical (soFar : List Logical) (l : Logical) : List Logical :=
  match l with
  | .blank =>
    match soFar with
    | [] | .blank :: _ => soFar
    | _ => .blank :: soFar
  | l => l :: soFar

section Gather

variable {p : Profile} {soFar : List Logical} {c t : Text}

/-- An empty line is added as a blank one. -/
theorem addLine_nil : addLine p soFar [] = addLogical soFar .blank := by
  rcases soFar with _ | ⟨l, soFar⟩
  · rfl
  · cases l <;> rfl

/-- A line that starts with a tag is added as a tag line. -/
theorem addLine_of_isSome (hne : c ≠ []) (h : (TagLine.ofText? p c).isSome = true) :
    addLine p soFar c = .tag c :: soFar := by
  simp [addLine, hne, h]

/-- Where free text may stand, other text is added as free text. -/
theorem addLine_of_opens (hne : c ≠ []) (h : TagLine.ofText? p c = none) (ho : Opens soFar) :
    addLine p soFar c = .text c :: soFar := by
  rcases ho with rfl | ho | ⟨t, rfl, ht⟩
  · simp [addLine, hne, h]
  · obtain ⟨older, rfl⟩ := List.head?_eq_some_iff.mp ho
    simp [addLine, hne, h]
  · simp [addLine, hne, h, ht]

/-- Behind a tag line, other text goes on with it. -/
theorem addLine_to_tag (hne : c ≠ []) (h : TagLine.ofText? p c = none) :
    addLine p (.tag t :: soFar) c = .tag (t ++ ' ' :: c) :: soFar := by
  simp [addLine, hne, h]

/-- Behind free text, other text goes on with it, unless a sentence ended at the start. -/
theorem addLine_to_text (hne : c ≠ []) (h : TagLine.ofText? p c = none)
    (hperiod : soFar = [] → t.getLast? ≠ some '.') :
    addLine p (.text t :: soFar) c = .text (t ++ ' ' :: c) :: soFar := by
  have hcond : ¬ (soFar.isEmpty && t.getLast? == some '.') = true := by
    cases soFar with
    | nil => simpa using hperiod rfl
    | cons l soFar => simp
  simp only [addLine, List.isEmpty_iff, hne, if_false, h, Option.isSome_none, Bool.false_eq_true,
    if_neg hcond]

/-- Further contents go on a tag line. -/
theorem foldl_addLine_tag {cs : List Text}
    (hcs : ∀ c ∈ cs, c ≠ [] ∧ TagLine.ofText? p c = none) (t : Text) :
    cs.foldl (addLine p) (.tag t :: soFar) = .tag (unwords (t :: cs)) :: soFar := by
  induction cs generalizing t with
  | nil => simp
  | cons c cs ih =>
    obtain ⟨hne, hc⟩ := hcs c List.mem_cons_self
    rw [List.foldl_cons, addLine_to_tag hne hc, ih fun c hc => hcs c (List.mem_cons_of_mem _ hc)]
    rw [unwords_joined_cons]

/-- Further contents go on a text line, unless a period ends the first sentence before them. -/
theorem foldl_addLine_text {cs : List Text}
    (hcs : ∀ c ∈ cs, c ≠ [] ∧ TagLine.ofText? p c = none) (t : Text)
    (hperiod : soFar = [] → ∀ c ∈ (t :: cs).dropLast, c.getLast? ≠ some '.') :
    cs.foldl (addLine p) (.text t :: soFar) = .text (unwords (t :: cs)) :: soFar := by
  induction cs generalizing t with
  | nil => simp
  | cons c cs ih =>
    obtain ⟨hne, hc⟩ := hcs c List.mem_cons_self
    have hfirst : soFar = [] → t.getLast? ≠ some '.' := fun h =>
      hperiod h t (by simp)
    have hlast : (t ++ ' ' :: c).getLast? = c.getLast? := by
      rw [List.getLast?_append_of_ne_nil _ (List.cons_ne_nil ' ' c), List.getLast?_cons_of_ne_nil hne]
    rw [List.foldl_cons, addLine_to_text hne hc hfirst, ih]
    · rw [unwords_joined_cons]
    · exact fun c hc => hcs c (List.mem_cons_of_mem _ hc)
    · intro h e he
      have hdrop := hperiod h
      rw [List.dropLast_cons_of_ne_nil (List.cons_ne_nil c cs)] at hdrop
      cases cs with
      | nil => simp at he
      | cons c' cs =>
        rw [List.dropLast_cons_of_ne_nil (List.cons_ne_nil c' cs)] at he
        rw [List.dropLast_cons_of_ne_nil (List.cons_ne_nil c' cs)] at hdrop
        rcases List.mem_cons.mp he with rfl | he
        · rw [hlast]
          exact hdrop c (by simp)
        · exact hdrop e (by simp [he])

/-- **Gathering the contents of a logical line adds that line.** -/
theorem foldl_addLine_of_reads {cs : List Text} {l : Logical} (h : Reads p cs l)
    (hopens : ∀ t, l = .text t → Opens soFar)
    (hperiod : ∀ t, l = .text t → soFar = [] → ∀ c ∈ cs.dropLast, c.getLast? ≠ some '.') :
    cs.foldl (addLine p) soFar = addLogical soFar l := by
  cases l with
  | blank =>
    obtain rfl : cs = [[]] := h
    exact addLine_nil (p := p)
  | text t =>
    obtain ⟨hne, hcs, rfl⟩ := h
    obtain ⟨c, cs, rfl⟩ := List.exists_cons_of_ne_nil hne
    obtain ⟨hc, hnone⟩ := hcs c List.mem_cons_self
    rw [List.foldl_cons, addLine_of_opens hc hnone (hopens _ rfl),
      foldl_addLine_text (fun c hc => hcs c (List.mem_cons_of_mem _ hc)) c (hperiod _ rfl)]
    rfl
  | tag t =>
    obtain ⟨c, cs, rfl, hne, hsome, hcs, rfl⟩ := h
    rw [List.foldl_cons, addLine_of_isSome hne hsome, foldl_addLine_tag hcs c]
    rfl

end Gather

end Reading

end DocComment
