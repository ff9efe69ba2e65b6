import DocComment.Proofs.Text.Trim

/-!
# Lines

No line holds a line feed, and lines that hold none are given back by joining them and splitting
again, as long as no carriage return stands before a line feed (`Rejoins.lines_unlines`).
-/

namespace DocComment.Text

@[simp] theorem unlines_nil : unlines [] = [] := rfl

@[simp] theorem unlines_singleton (l : Text) : unlines [l] = l := by
  simp [unlines]

/-- Lines are joined by a line feed. -/
theorem unlines_cons {l : Text} {ls : List Text} (h : ls ≠ []) :
    unlines (l :: ls) = l ++ '\n' :: unlines ls := by
  rw [unlines, List.intercalate_cons_of_ne_nil h]
  simp [unlines]

/-- A text of one line, as far as the line feed that may follow it is concerned. -/
def OneLine (l : Text) : Prop := '\n' ∉ l

/-- A text that fills one line from end to end. -/
structure IsLine (t : Text) : Prop where
  ne_nil : t ≠ []
  startsTight : StartsTight t
  endsTight : EndsTight t
  oneLine : OneLine t

instance (l : Text) : Decidable (OneLine l) := inferInstanceAs (Decidable ('\n' ∉ l))

instance (t : Text) : Decidable (IsLine t) :=
  decidable_of_iff (t ≠ [] ∧ StartsTight t ∧ EndsTight t ∧ OneLine t)
    ⟨fun ⟨h₁, h₂, h₃, h₄⟩ => ⟨h₁, h₂, h₃, h₄⟩, fun ⟨h₁, h₂, h₃, h₄⟩ => ⟨h₁, h₂, h₃, h₄⟩⟩

theorem oneLine_append {s t : Text} (hs : OneLine s) (ht : OneLine t) : OneLine (s ++ t) := by
  intro h
  rcases List.mem_append.mp h with h | h
  · exact hs h
  · exact ht h

/-- Trimming keeps a single line single. -/
theorem oneLine_trimEnd {t : Text} (ht : OneLine t) : OneLine (trimEnd t) := by
  intro h
  obtain ⟨s, -, hs⟩ := exists_trimEnd_append_blanks t
  exact ht (by rw [hs]; exact List.mem_append_left _ h)

/-- A line feed is blank, so a text without blanks holds none. -/
theorem oneLine_of_forall_not_blank {t : Text} (ht : ∀ c ∈ t, isBlank c = false) : OneLine t := by
  intro h
  exact absurd (ht _ h) (by decide)

/-- A line feed in front makes an empty line. -/
theorem lines_newline_cons (t : Text) : lines ('\n' :: t) = [] :: lines t := by
  rw [lines]

/-- A character that starts no line end goes to the front of the first line. -/
theorem lines_cons {c : Char} {t : Text} (hc : c ≠ '\n')
    (hcr : c = '\r' → t.head? ≠ some '\n') :
    lines (c :: t) = (c :: (lines t).headD []) :: (lines t).tail := by
  rw [lines]
  · cases lines t <;> rfl
  · intro h
    exact absurd h hc
  · rintro rest rfl rfl
    exact absurd rfl (hcr rfl)

/-- No line holds a line feed. -/
theorem oneLine_of_mem_lines {t l : Text} (h : l ∈ lines t) : OneLine l := by
  fun_induction lines t generalizing l with
  | case1 => cases h
  | case2 rest ih =>
    rcases List.mem_cons.mp h with rfl | h
    · simp [OneLine]
    · exact ih h
  | case3 rest ih =>
    rcases List.mem_cons.mp h with rfl | h
    · simp [OneLine]
    · exact ih h
  | case4 c rest hnl hcr heq ih =>
    have hc : c ≠ '\n' := fun h => hnl h
    obtain rfl := List.mem_singleton.mp h
    simp [OneLine, Ne.symm hc]
  | case5 c rest hnl hcr line more heq ih =>
    have hc : c ≠ '\n' := fun h => hnl h
    rw [heq] at ih
    rcases List.mem_cons.mp h with rfl | h
    · have hline : OneLine line := ih List.mem_cons_self
      intro hmem
      rcases List.mem_cons.mp hmem with h | h
      · exact hc h.symm
      · exact hline h
    · exact ih (List.mem_cons_of_mem _ h)

/-- A line and the text after its line feed. -/
theorem lines_append_newline {l : Text} (hl : OneLine l) (hcr : l.getLast? ≠ some '\r')
    (t : Text) : lines (l ++ '\n' :: t) = l :: lines t := by
  induction l with
  | nil => exact lines_newline_cons t
  | cons c l ih =>
    have hc : c ≠ '\n' := fun h => hl (h ▸ List.mem_cons_self)
    have hrest : OneLine l := fun h => hl (List.mem_cons_of_mem _ h)
    have hlast : l.getLast? ≠ some '\r' := by
      cases l with
      | nil => simp
      | cons d l => rwa [List.getLast?_cons_cons] at hcr
    have hhead : c = '\r' → (l ++ '\n' :: t).head? ≠ some '\n' := by
      rintro rfl
      cases l with
      | nil => simp at hcr
      | cons d l =>
        intro h
        exact hrest (by simp at h; simp [h])
    rw [List.cons_append, lines_cons hc hhead, ih hrest hlast]
    rfl

/-- A text without a line feed is one line, unless it is empty. -/
theorem lines_of_oneLine {l : Text} (hl : OneLine l) (hne : l ≠ []) : lines l = [l] := by
  induction l with
  | nil => exact absurd rfl hne
  | cons c l ih =>
    have hc : c ≠ '\n' := fun h => hl (h ▸ List.mem_cons_self)
    have hrest : OneLine l := fun h => hl (List.mem_cons_of_mem _ h)
    have hhead : c = '\r' → l.head? ≠ some '\n' := by
      intro _ h
      exact hrest (List.mem_of_mem_head? h)
    rw [lines_cons hc hhead]
    by_cases h : l = []
    · subst h
      rfl
    · rw [ih hrest h]
      rfl

/-- Lines that can be joined and split again; `ended` tells that a line feed follows the last one.
No line before a line feed may end in a carriage return, and without a line feed after it nothing
would be left of an empty last line. -/
inductive Rejoins (ended : Bool) : List Text → Prop
  | nil (hended : ended = false) : Rejoins ended []
  | last {l : Text} (hone : OneLine l) (hcr : ended = true → l.getLast? ≠ some '\r')
      (hne : ended = false → l ≠ []) : Rejoins ended [l]
  | cons {l : Text} {ls : List Text} (hone : OneLine l) (hcr : l.getLast? ≠ some '\r')
      (hne : ls ≠ []) (hrest : Rejoins ended ls) : Rejoins ended (l :: ls)

/-- The line feed after the last line. -/
def lineFeed (ended : Bool) : Text := if ended then ['\n'] else []

/-- **Joined lines are split where they were joined.** -/
theorem Rejoins.lines_unlines {ended : Bool} {ls : List Text} (h : Rejoins ended ls) :
    lines (unlines ls ++ lineFeed ended) = ls := by
  induction h with
  | nil hended =>
    rw [hended]
    rfl
  | @last l hone hcr hne =>
    rw [unlines_singleton]
    cases ended with
    | true => exact lines_append_newline hone (hcr rfl) []
    | false =>
      rw [lineFeed, if_neg Bool.false_ne_true, List.append_nil]
      exact lines_of_oneLine hone (hne rfl)
  | cons hone hcr hne _ ih =>
    rw [unlines_cons hne, List.append_assoc, List.cons_append, lines_append_newline hone hcr, ih]

/-- The joined text ends in a line feed just if one was put there. -/
theorem Rejoins.getLast?_eq {ended : Bool} {ls : List Text} (h : Rejoins ended ls) :
    ((unlines ls ++ lineFeed ended).getLast? == some '\n') = ended := by
  induction h with
  | nil hended =>
    rw [hended]
    rfl
  | @last l hone hcr hne =>
    rw [unlines_singleton]
    cases ended with
    | true => simp [lineFeed]
    | false =>
      have hlast : l.getLast? ≠ some '\n' := fun hlast => hone (List.mem_of_getLast? hlast)
      simpa [lineFeed] using hlast
  | @cons l ls hone hcr hne hrest ih =>
    have hnil : unlines ls ++ lineFeed ended ≠ [] := by
      intro hnil
      have hlines := hrest.lines_unlines
      rw [hnil] at hlines
      exact hne hlines.symm
    rw [unlines_cons hne, List.append_assoc, List.cons_append,
      List.getLast?_append_of_ne_nil _ (List.cons_ne_nil _ _), List.getLast?_cons_of_ne_nil hnil, ih]

/-- Lines that are not empty and end tight can always be split again. -/
theorem rejoins_of_endsTight {ls : List Text} (hne : ls ≠ [])
    (h : ∀ l ∈ ls, l ≠ [] ∧ EndsTight l ∧ OneLine l) (ended : Bool) : Rejoins ended ls := by
  have hcr : ∀ l ∈ ls, l.getLast? ≠ some '\r' := by
    intro l hl hlast
    have hblank := (h l hl).2.1 _ hlast
    exact absurd hblank (by decide)
  induction ls with
  | nil => exact absurd rfl hne
  | cons l ls ih =>
    obtain ⟨hl, -, hone⟩ := h l List.mem_cons_self
    have hlast := hcr l List.mem_cons_self
    by_cases hrest : ls = []
    · subst hrest
      exact .last hone (fun _ => hlast) fun _ => hl
    · exact .cons hone hlast hrest (ih hrest (fun m hm => h m (List.mem_cons_of_mem _ hm))
        fun m hm => hcr m (List.mem_cons_of_mem _ hm))

/-- Lines can be joined and cut again if the first can, and the last. -/
theorem rejoins_append {ended : Bool} {ls ms : List Text} (hms : ms ≠ []) :
    Rejoins ended (ls ++ ms) ↔
      (∀ l ∈ ls, OneLine l ∧ l.getLast? ≠ some '\r') ∧ Rejoins ended ms := by
  induction ls with
  | nil => simp
  | cons l ls ih =>
    have hne : ls ++ ms ≠ [] := by simp [hms]
    rw [List.forall_mem_cons, and_assoc, ← ih, List.cons_append]
    generalize ls ++ ms = rest at hne ⊢
    constructor
    · intro h
      cases h with
      | last hone => exact absurd rfl hne
      | cons hone hcr _ hrest => exact ⟨⟨hone, hcr⟩, hrest⟩
    · rintro ⟨⟨hone, hcr⟩, hrest⟩
      exact .cons hone hcr hne hrest

/-- Lines in the middle may be exchanged for others that end tight. -/
theorem Rejoins.exchange {ended : Bool} {ls ms ms' ns : List Text}
    (h : Rejoins ended (ls ++ (ms ++ ns))) (hms : ms ≠ []) (hms' : ms' ≠ [])
    (htight : ∀ l ∈ ms', l ≠ [] ∧ EndsTight l ∧ OneLine l) :
    Rejoins ended (ls ++ (ms' ++ ns)) := by
  rw [rejoins_append (by simp [hms])] at h
  rw [rejoins_append (by simp [hms'])]
  refine ⟨h.1, ?_⟩
  by_cases hns : ns = []
  · rw [hns, List.append_nil]
    exact rejoins_of_endsTight hms' htight ended
  · rw [rejoins_append hns] at h ⊢
    refine ⟨fun l hl => ⟨(htight l hl).2.2, fun hlast => ?_⟩, h.2.2⟩
    have hblank := (htight l hl).2.1 _ hlast
    exact absurd hblank (by decide)

/-- What a character in front does to the lines. -/
theorem lines_cons_cases (c : Char) (t : Text) :
    (c = '\n' ∧ lines (c :: t) = [] :: lines t) ∨
      (∃ rest, c = '\r' ∧ t = '\n' :: rest ∧ lines (c :: t) = [] :: lines rest) ∨
      lines (c :: t) = (c :: (lines t).headD []) :: (lines t).tail := by
  by_cases hc : c = '\n'
  · subst hc
    exact Or.inl ⟨rfl, lines_newline_cons t⟩
  · by_cases hcr : c = '\r' ∧ t.head? = some '\n'
    · obtain ⟨rfl, hhead⟩ := hcr
      obtain ⟨rest, rfl⟩ := List.head?_eq_some_iff.mp hhead
      exact Or.inr (Or.inl ⟨rest, rfl, rfl, by simp [lines]⟩)
    · exact Or.inr (Or.inr (lines_cons hc fun h hhead => hcr ⟨h, hhead⟩))

/-- A text that is not empty has a line. -/
theorem lines_ne_nil {t : Text} (h : t ≠ []) : lines t ≠ [] := by
  obtain ⟨c, t, rfl⟩ := List.exists_cons_of_ne_nil h
  rcases lines_cons_cases c t with ⟨-, heq⟩ | ⟨rest, -, -, heq⟩ | heq <;> rw [heq] <;> simp

/-- A first line is empty only in front of a line feed. -/
theorem exists_of_lines_eq_nil_cons {t : Text} {more : List Text} (h : lines t = [] :: more) :
    (∃ rest, t = '\n' :: rest) ∨ ∃ rest, t = '\r' :: '\n' :: rest := by
  cases t with
  | nil => cases h
  | cons c t =>
    rcases lines_cons_cases c t with ⟨rfl, -⟩ | ⟨rest, rfl, rfl, -⟩ | heq
    · exact Or.inl ⟨t, rfl⟩
    · exact Or.inr ⟨rest, rfl⟩
    · rw [heq] at h
      cases h

/-- An empty line in front of further text. -/
theorem rejoins_nil_cons {s rest : Text} (hs : s.getLast? = some '\n')
    (h : Rejoins (rest.getLast? == some '\n') (lines rest)) :
    Rejoins ((s ++ rest).getLast? == some '\n') ([] :: lines rest) := by
  have hnil : OneLine [] := List.not_mem_nil
  by_cases hrest : rest = []
  · subst hrest
    have hended : ((s ++ []).getLast? == some '\n') = true := by simp [hs]
    rw [hended]
    exact .last hnil nofun nofun
  · rw [List.getLast?_append_of_ne_nil _ hrest]
    exact .cons hnil nofun (lines_ne_nil hrest) h

/-- **The lines of a text can be joined again**, unless two carriage returns stand before a line
feed: only the second belongs to it. -/
theorem rejoins_lines {t : Text} (h : ¬ "\r\r\n".toList <:+: t) :
    Rejoins (t.getLast? == some '\n') (lines t) := by
  have htail : ∀ s u : Text, ¬ "\r\r\n".toList <:+: s ++ u → ¬ "\r\r\n".toList <:+: u :=
    fun s u hnot hin => hnot (hin.trans (List.suffix_append s u).isInfix)
  fun_induction lines t with
  | case1 => exact .nil rfl
  | case2 rest ih => exact rejoins_nil_cons (s := ['\n']) rfl (ih (htail ['\n'] rest h))
  | case3 rest ih =>
    exact rejoins_nil_cons (s := ['\r', '\n']) rfl (ih (htail ['\r', '\n'] rest h))
  | case4 c rest hnl hcr heq ih =>
    have hc : c ≠ '\n' := fun hc => hnl hc
    obtain rfl : rest = [] := by
      by_contra hne
      exact lines_ne_nil hne heq
    have hended : ([c].getLast? == some '\n') = false := by simp [hc]
    rw [hended]
    exact .last (by simp [OneLine, Ne.symm hc]) nofun fun _ => List.cons_ne_nil c []
  | case5 c rest hnl hcr line more heq ih =>
    have hc : c ≠ '\n' := fun hc => hnl hc
    have hne : rest ≠ [] := by
      rintro rfl
      cases heq
    have hrest := ih (htail [c] rest h)
    rw [heq] at hrest
    rw [← List.singleton_append, List.getLast?_append_of_ne_nil _ hne]
    have hone : OneLine line → OneLine (c :: line) := fun hl hmem =>
      (List.mem_cons.mp hmem).elim (fun he => hc he.symm) hl
    -- A carriage return in front of an empty line would be one of two.
    have hreturn : line.getLast? ≠ some '\r' → (c :: line).getLast? ≠ some '\r' := by
      intro hline hlast
      by_cases hnil : line = []
      · subst hnil
        obtain rfl : c = '\r' := Option.some.inj hlast
        rcases exists_of_lines_eq_nil_cons heq with ⟨r, rfl⟩ | ⟨r, rfl⟩
        · exact hcr r rfl rfl
        · exact h ⟨[], r, rfl⟩
      · rw [List.getLast?_cons_of_ne_nil hnil] at hlast
        exact hline hlast
    cases hrest with
    | last hl hcr' _ =>
      exact .last (hone hl) (fun he => hreturn (hcr' he)) fun _ => List.cons_ne_nil c line
    | cons hl hcr' hmore hrest => exact .cons (hone hl) (hreturn hcr') hmore hrest

end DocComment.Text
