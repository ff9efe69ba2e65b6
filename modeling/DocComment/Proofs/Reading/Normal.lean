import DocComment.Proofs.Reading.Blocks

/-!
# What reading leaves

Every logical line that is read is a tight line of text or of a tag, empty lines neither start a
comment nor follow one another, and free text stands where it may start.  Each content that is
added keeps this so (`Orderly.addLine`), hence it holds of every block that is read
(`exists_orderly_of_block?`).
-/

namespace DocComment

open Text TagLine Reading Table

/-! ## Contents -/

section Contents

variable {d : Delimiters}

theorem mem_of_mem_trim {c : Char} {t : Text} (h : c ∈ trim t) : c ∈ t := by
  have hend : c ∈ trimStart t := by
    obtain ⟨s, -, hs⟩ := exists_trimEnd_append_blanks (trimStart t)
    rw [hs]
    exact List.mem_append_left _ h
  exact (List.dropWhile_suffix _).subset hend

theorem mem_of_mem_after? {c : Char} {start t : Text} (h : c ∈ (after? start t).getD t) :
    c ∈ t := by
  cases hafter : after? start t with
  | none => rwa [hafter] at h
  | some rest =>
    rw [hafter] at h
    rw [eq_append_of_after? hafter]
    exact List.mem_append_right _ h

theorem mem_of_mem_before? {c : Char} {ending t : Text} (h : c ∈ (before? ending t).getD t) :
    c ∈ t := by
  cases hbefore : before? ending t with
  | none => rwa [hbefore] at h
  | some rest =>
    rw [hbefore] at h
    obtain ⟨r, hr, rfl⟩ := Option.map_eq_some_iff.mp hbefore
    have hc : c ∈ r := List.mem_reverse.mp h
    rw [← List.mem_reverse, eq_append_of_after? hr]
    exact List.mem_append_right _ hc

/-- Taking markers off a line adds no character to it. -/
theorem mem_of_mem_lineContent {c : Char} {isFirst : Bool} {line : Text}
    (h : c ∈ lineContent d isFirst line) : c ∈ line := by
  have hopened : ∀ e : Char, e ∈ (if isFirst then (after? d.opener (trim line)).getD (trim line)
      else trim line) → e ∈ line := by
    intro e he
    split at he
    · exact mem_of_mem_trim (mem_of_mem_after? he)
    · exact mem_of_mem_trim he
  have hmarked := (List.dropWhile_suffix _).subset (mem_of_mem_after? (mem_of_mem_trim h))
  cases hc : d.closer with
  | none =>
    simp only [hc] at hmarked
    exact hopened c hmarked
  | some closer =>
    simp only [hc] at hmarked
    obtain ⟨s, -, hs⟩ := exists_trimEnd_append_blanks ((before? (trim closer)
      (if isFirst then (after? d.opener (trim line)).getD (trim line) else trim line)).getD
        (if isFirst then (after? d.opener (trim line)).getD (trim line) else trim line))
    apply hopened c
    apply mem_of_mem_before?
    rw [hs]
    exact List.mem_append_left _ hmarked

/-- The contents of lines are empty or tight lines themselves. -/
theorem isLine_of_mem_contents {raw c : Text} (h : c ∈ contents d raw) : c = [] ∨ IsLine c := by
  have hline : ∀ isFirst line, line ∈ lines raw →
      lineContent d isFirst line = [] ∨ IsLine (lineContent d isFirst line) := by
    intro isFirst line hmem
    by_cases hne : lineContent d isFirst line = []
    · exact Or.inl hne
    · refine Or.inr ⟨hne, startsTight_trim _, endsTight_trim _, ?_⟩
      exact fun hc => oneLine_of_mem_lines hmem (mem_of_mem_lineContent hc)
  unfold contents at h
  split at h
  · cases h
  · next first rest hlines =>
    rw [hlines] at hline
    rcases List.mem_cons.mp h with rfl | h
    · exact hline true first List.mem_cons_self
    · obtain ⟨line, hmem, rfl⟩ := List.mem_map.mp h
      exact hline false line (List.mem_cons_of_mem _ hmem)

end Contents

/-! ## One more content -/

/-- A logical line as reading leaves it. -/
def Reading.Logical.Normal (p : Profile) : Logical → Prop
  | .text t => IsLine t ∧ ofText? p t = none
  | .tag t => IsLine t ∧ (ofText? p t).isSome = true
  | .blank => True

/-- Logical lines, the latest first, as reading leaves them. -/
structure Orderly (p : Profile) (soFar : List Logical) : Prop where
  normal : ∀ l ∈ soFar, l.Normal p
  set_off : ∀ t older, .text t :: older <:+ soFar → Opens older
  first : soFar.getLast? ≠ some .blank
  chain : soFar.IsChain fun l m => ¬ (l = .blank ∧ m = .blank)

section Step

variable {p : Profile} {soFar : List Logical} {c t : Text}

/-- All that adding a content can do. -/
theorem addLine_cases (p : Profile) (soFar : List Logical) (c : Text) :
    (c = [] ∧ addLine p soFar c = soFar) ∨
    (c = [] ∧ addLine p soFar c = .blank :: soFar ∧ soFar ≠ [] ∧ soFar.head? ≠ some .blank) ∨
    (c ≠ [] ∧ (ofText? p c).isSome = true ∧ addLine p soFar c = .tag c :: soFar) ∨
    (c ≠ [] ∧ ofText? p c = none ∧ Opens soFar ∧ addLine p soFar c = .text c :: soFar) ∨
    (c ≠ [] ∧ ∃ t older, soFar = .text t :: older ∧
      addLine p soFar c = .text (t ++ ' ' :: c) :: older) ∨
    (c ≠ [] ∧ ∃ t older, soFar = .tag t :: older ∧
      addLine p soFar c = .tag (t ++ ' ' :: c) :: older) := by
  by_cases hc : c = []
  · subst hc
    rw [addLine_nil]
    rcases addLogical_blank soFar with ⟨hadd, -⟩ | ⟨hadd, hne, hhead⟩
    · exact Or.inl ⟨rfl, hadd⟩
    · exact Or.inr (Or.inl ⟨rfl, hadd, hne, hhead⟩)
  · cases htag : ofText? p c with
    | some line =>
      have hsome : (ofText? p c).isSome = true := by rw [htag]; rfl
      exact Or.inr (Or.inr (Or.inl ⟨hc, rfl, addLine_of_isSome hc hsome⟩))
    | none =>
      by_cases ho : Opens soFar
      · exact Or.inr (Or.inr (Or.inr (Or.inl ⟨hc, rfl, ho, addLine_of_opens hc htag ho⟩)))
      · rcases soFar with _ | ⟨l, older⟩
        · exact absurd (Or.inl rfl) ho
        · cases l with
          | blank => exact absurd (Or.inr (Or.inl rfl)) ho
          | tag t =>
            exact Or.inr (Or.inr (Or.inr (Or.inr (Or.inr
              ⟨hc, t, older, rfl, addLine_to_tag hc htag⟩))))
          | text t =>
            have hperiod : older = [] → t.getLast? ≠ some '.' := by
              rintro rfl hlast
              exact ho (Or.inr (Or.inr ⟨t, rfl, hlast⟩))
            exact Or.inr (Or.inr (Or.inr (Or.inr (Or.inl
              ⟨hc, t, older, rfl, addLine_to_text hc htag hperiod⟩))))

/-- Two lines joined by a space are a line. -/
theorem isLine_joined (ht : IsLine t) (hc : IsLine c) : IsLine (t ++ ' ' :: c) := by
  have hspace : OneLine [' '] := by decide
  refine ⟨by simp [ht.ne_nil], (startsTight_append ht.ne_nil).mpr ht.startsTight, ?_,
    oneLine_append ht.oneLine (oneLine_append hspace hc.oneLine)⟩
  rw [← List.singleton_append, ← List.append_assoc]
  exact (endsTight_append hc.ne_nil).mpr hc.endsTight

/-- Joining another line does not change the first word. -/
theorem word_joined (t c : Text) : word (t ++ ' ' :: c) = word t := by
  have hspace : isBlank ' ' = true := by decide
  induction t with
  | nil => simp [word, hspace]
  | cons e t ih =>
    by_cases he : isBlank e
    · simp [word, he]
    · simp only [word, List.cons_append, List.takeWhile_cons, he] at ih ⊢
      simp [ih]

/-- A longer line with the same first word is of the same kind. -/
theorem isSome_ofText?_joined (ht : IsLine t) (c : Text) :
    (ofText? p (t ++ ' ' :: c)).isSome = (ofText? p t).isSome := by
  rw [Bool.eq_iff_iff, isSome_ofText?_iff, isSome_ofText?_iff, word_joined,
    List.head?_append_of_ne_nil _ ht.ne_nil]

/-- Lines gathered in order were so before the latest. -/
theorem Orderly.tail {l : Logical} (h : Orderly p (l :: soFar)) : Orderly p soFar where
  normal m hm := h.normal m (List.mem_cons_of_mem _ hm)
  set_off t older hs := h.set_off t older (hs.trans (List.suffix_cons l soFar))
  first hlast := h.first (by
    rw [List.getLast?_cons, hlast]
    rfl)
  chain := h.chain.tail

/-- A logical line goes before orderly ones. -/
theorem Orderly.cons {l : Logical} (h : Orderly p soFar) (hl : l.Normal p)
    (hset : ∀ t, l = .text t → Opens soFar)
    (hblank : l = .blank → soFar ≠ [] ∧ soFar.head? ≠ some .blank) :
    Orderly p (l :: soFar) := by
  constructor
  · intro m hm
    rcases List.mem_cons.mp hm with rfl | hm
    · exact hl
    · exact h.normal m hm
  · intro t older hs
    rcases List.suffix_cons_iff.mp hs with heq | hs
    · obtain ⟨rfl, rfl⟩ := List.cons.inj heq
      exact hset t rfl
    · exact h.set_off t older hs
  · rw [List.getLast?_cons]
    intro hlast
    cases hold : soFar.getLast? with
    | none =>
      rw [hold] at hlast
      obtain rfl : soFar = [] := by simpa using hold
      exact (hblank (Option.some.inj hlast)).1 rfl
    | some m =>
      rw [hold] at hlast
      exact h.first (hold.trans hlast)
  · refine List.isChain_cons.mpr ⟨?_, h.chain⟩
    rintro m hm ⟨rfl, rfl⟩
    exact (hblank rfl).2 hm

/-- **Adding a content leaves the lines orderly.** -/
theorem Orderly.addLine (h : Orderly p soFar) (hc : c = [] ∨ IsLine c) :
    Orderly p (addLine p soFar c) := by
  rcases addLine_cases p soFar c with ⟨-, heq⟩ | ⟨-, heq, hne, hhead⟩ | ⟨hne, hsome, heq⟩ |
    ⟨hne, hnone, hopens, heq⟩ | ⟨hne, t, older, rfl, heq⟩ | ⟨hne, t, older, rfl, heq⟩ <;> rw [heq]
  · exact h
  · exact h.cons trivial nofun fun _ => ⟨hne, hhead⟩
  · exact h.cons ⟨hc.resolve_left hne, hsome⟩ nofun nofun
  · exact h.cons ⟨hc.resolve_left hne, hnone⟩ (fun _ _ => hopens) nofun
  · -- Text that goes on stays where it started.
    obtain ⟨hline, hnone⟩ := h.normal _ List.mem_cons_self
    have hjoined := isSome_ofText?_joined (p := p) hline c
    rw [hnone, Option.isSome_none, Option.isSome_eq_false_iff, Option.isNone_iff_eq_none] at hjoined
    exact h.tail.cons ⟨isLine_joined hline (hc.resolve_left hne), hjoined⟩
      (fun _ _ => h.set_off t older (List.suffix_refl _)) nofun
  · obtain ⟨hline, hsome⟩ := h.normal _ List.mem_cons_self
    exact h.tail.cons ⟨isLine_joined hline (hc.resolve_left hne),
      (isSome_ofText?_joined hline c).trans hsome⟩ nofun nofun

/-- **Gathering lines keeps them in order**, whatever comes next. -/
theorem Orderly.foldl (h : Orderly p soFar) {cs : List Text} (hcs : ∀ c ∈ cs, c = [] ∨ IsLine c) :
    Orderly p (cs.foldl (Reading.addLine p) soFar) := by
  induction cs generalizing soFar with
  | nil => exact h
  | cons c cs ih =>
    exact ih (h.addLine (hcs c List.mem_cons_self)) fun c hc => hcs c (List.mem_cons_of_mem _ hc)

end Step

/-! ## The rows of a block -/

/-- The rows of a block as reading leaves them. -/
structure Block.Normal (p : Profile) (b : Block) : Prop where
  ne_nil : b.rows ≠ []
  row : ∀ row ∈ b.rows, ∃ l : Logical, l.Normal p ∧ rowOf p l = row
  set_off : SetOff [] b.rows
  spaced : Spaced b.rows
  last : b.rows.getLast? ≠ some .blank

section Rows

variable {p : Profile} {soFar : List Logical}

/-- A normal line is blank or free text if its row is. -/
theorem Reading.Logical.Normal.eq_of_rowOf {l : Logical} (h : l.Normal p) :
    (rowOf p l = .blank → l = .blank) ∧ ∀ f, rowOf p l = .text f → ∃ t, l = .text t := by
  cases l with
  | text t => exact ⟨nofun, fun _ _ => ⟨t, rfl⟩⟩
  | blank => exact ⟨fun _ => rfl, nofun⟩
  | tag t =>
    obtain ⟨line, hline⟩ := Option.isSome_iff_exists.mp h.2
    cases hs : line.structured with
    | true =>
      rw [rowOf_tag_of_structured hline hs]
      exact ⟨nofun, nofun⟩
    | false =>
      rw [rowOf_tag_of_free hline hs]
      exact ⟨nofun, nofun⟩

/-- Rows are set off if the first are, and the others after them. -/
theorem setOff_append {before xs ys : List Row} :
    SetOff before (xs ++ ys) ↔ SetOff before xs ∧ SetOff (before ++ xs) ys := by
  induction xs generalizing before with
  | nil => simp [SetOff]
  | cons x xs ih =>
    simp only [List.cons_append, SetOff, ih, and_assoc, List.append_assoc, List.nil_append]

/-- Where free text may stand among lines, it may stand among their rows. -/
theorem opens_map_rowOf (h : Opens soFar) : Row.Opens (soFar.reverse.map (rowOf p)) := by
  rcases h with rfl | h | ⟨t, rfl, ht⟩
  · exact Or.inl rfl
  · obtain ⟨older, rfl⟩ := List.head?_eq_some_iff.mp h
    refine Or.inr (Or.inl ?_)
    rw [List.reverse_cons, List.map_append]
    exact List.getLast?_concat
  · exact Or.inr (Or.inr ⟨.text t, rfl, by rwa [plain_text]⟩)

/-- The rows of lines in order are set off. -/
theorem Orderly.setOff (h : Orderly p soFar) : SetOff [] (soFar.reverse.map (rowOf p)) := by
  induction soFar with
  | nil => trivial
  | cons l older ih =>
    rw [List.reverse_cons, List.map_append, setOff_append, List.nil_append]
    refine ⟨ih h.tail, ?_, trivial⟩
    intro f hf
    obtain ⟨t, rfl⟩ := (h.normal l List.mem_cons_self).eq_of_rowOf.2 f hf
    exact opens_map_rowOf (h.set_off t older (List.suffix_refl _))

/-- The rows of lines in order have their blank ones apart. -/
theorem Orderly.spaced (h : Orderly p soFar) : Spaced (soFar.reverse.map (rowOf p)) := by
  constructor
  · rw [List.head?_map, List.head?_reverse]
    intro hhead
    obtain ⟨l, hl, hrow⟩ := Option.map_eq_some_iff.mp hhead
    have hblank := (h.normal l (List.mem_of_getLast? hl)).eq_of_rowOf.1 hrow
    exact h.first (hblank ▸ hl)
  · rw [List.isChain_map, List.isChain_reverse]
    have hnormal : ∀ l ∈ soFar, l.Normal p := h.normal
    refine List.IsChain.imp_of_mem_imp ?_ h.chain
    rintro l m hl hm hne ⟨hrow, hrow'⟩
    exact hne ⟨(hnormal l hl).eq_of_rowOf.1 hrow', (hnormal m hm).eq_of_rowOf.1 hrow⟩

/-- Without a blank line at the end they are still in order. -/
theorem Orderly.dropBlank (h : Orderly p soFar) :
    Orderly p (dropBlank soFar) ∧ (dropBlank soFar).head? ≠ some .blank := by
  rcases soFar with _ | ⟨l, older⟩
  · exact ⟨h, nofun⟩
  · cases l with
    | text t => exact ⟨h, nofun⟩
    | tag t => exact ⟨h, nofun⟩
    | blank =>
      refine ⟨h.tail, fun hhead => ?_⟩
      obtain ⟨oldest, rfl⟩ := List.head?_eq_some_iff.mp hhead
      exact (List.isChain_cons_cons.mp h.chain).1 ⟨rfl, rfl⟩

/-- **Reading leaves normal blocks.** -/
theorem normal_of_block? {d : Delimiters} (hd : p.delimiters? = some d) {raw : Text} {b : Block}
    (h : block? p raw = some b) : b.Normal p := by
  have hnil : Orderly p [] := ⟨nofun, fun _ _ hs => by simp at hs, nofun, List.isChain_nil⟩
  have hcontents : ∀ c ∈ contents d raw, c = [] ∨ IsLine c := fun c hc => isLine_of_mem_contents hc
  obtain ⟨horderly, hhead⟩ := (hnil.foldl hcontents).dropBlank
  have hlogical := logicalLines_eq p (contents d raw)
  generalize DocComment.dropBlank ((contents d raw).foldl (addLine p) []) = soFar
    at horderly hhead hlogical
  unfold block? at h
  rw [hd, Option.bind_some, hlogical] at h
  have hrows : b.rows = soFar.reverse.map (rowOf p) ∧ b.rows ≠ [] := by
    split at h
    · cases h
    · next rows hne =>
      obtain rfl := Option.some.inj h
      exact ⟨rfl, hne⟩
  refine ⟨hrows.2, ?_, hrows.1 ▸ horderly.setOff, hrows.1 ▸ horderly.spaced, ?_⟩
  · intro row hrow
    rw [hrows.1] at hrow
    obtain ⟨l, hl, rfl⟩ := List.mem_map.mp hrow
    exact ⟨l, horderly.normal l (List.mem_reverse.mp hl), rfl⟩
  · rw [hrows.1, List.getLast?_map, List.getLast?_reverse]
    intro hlast
    obtain ⟨l, hl, hrow⟩ := Option.map_eq_some_iff.mp hlast
    have hblank := (horderly.normal l (List.mem_of_head? hl)).eq_of_rowOf.1 hrow
    exact hhead (hblank ▸ hl)

end Rows

end DocComment
