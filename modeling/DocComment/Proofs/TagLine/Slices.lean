import DocComment.Proofs.TagLine.Split

/-!
# The columns of a tag line as slices

The columns of a tag line are slices of it, in order, and what stands between them is blank but for
the characters around a type and one separating dash (`Accounts`).  The cuts of `Split` give the
columns, the blanks between them and the octets that the cut has counted; what is added here is
where these octets lead.  Whatever is left behind the columns starts tight, so the trimmed line
determines the text before it (`exists_lead_eq_append`).  The octets counted lead to a place between
two characters, and from there on the line is the description and nothing else
(`accounts_of_ofText?`).
-/

namespace DocComment

/-! ## Octets -/

/-- The text from an octet on, if a character starts there or the text ends there. -/
def Text.fromOctet? : Nat → Text → Option Text
  | 0, t => some t
  | _ + 1, [] => none
  | n + 1, c :: t => if c.utf8Size ≤ n + 1 then fromOctet? (n + 1 - c.utf8Size) t else none

theorem Text.octets_cons (c : Char) (t : Text) : octets (c :: t) = c.utf8Size + octets t := rfl

/-- The octets of a beginning lead to what follows it. -/
theorem Text.fromOctet?_octets_append (s t : Text) : fromOctet? (octets s) (s ++ t) = some t := by
  induction s with
  | nil => cases t <;> rfl
  | cons c s ih =>
    have hpos := c.utf8Size_pos
    obtain ⟨n, hn⟩ : ∃ n, octets (c :: s) = n + 1 := ⟨octets (c :: s) - 1, by
      rw [octets_cons]
      omega⟩
    have hle : c.utf8Size ≤ n + 1 := by
      rw [← hn, octets_cons]
      omega
    have hrest : n + 1 - c.utf8Size = octets s := by
      rw [← hn, octets_cons]
      omega
    rw [hn, List.cons_append, fromOctet?, if_pos hle, hrest, ih]

/-- Nothing else leads there: an octet inside a character leads nowhere. -/
theorem Text.fromOctet?_eq_some_iff {i : Nat} {t rest : Text} :
    fromOctet? i t = some rest ↔ ∃ s, octets s = i ∧ t = s ++ rest := by
  constructor
  · intro h
    fun_induction fromOctet? i t with
    | case1 t => exact ⟨[], rfl, Option.some.inj h⟩
    | case2 | case4 => cases h
    | case3 n c t hle ih =>
      obtain ⟨s, hs, rfl⟩ := ih h
      refine ⟨c :: s, ?_, rfl⟩
      rw [octets_cons, hs]
      omega
  · rintro ⟨s, rfl, rfl⟩
    exact fromOctet?_octets_append s rest

namespace TagLine

open Text

/-! ## What a line is made of -/

/-- The columns of a tag line are slices of it, in order, and account for all of it. -/
structure Accounts (p : Profile) (line : TagLine) (content : Text) : Prop where
  /-- Tag, type and name, each as it is written, stand before the description, with blanks between
  them and at most one dash behind them. -/
  lead : ∃ dash s₀ s₁ s₂ s₃, (dash = [] ∨ dash = ['-']) ∧
    (Blanks s₀ ∧ Blanks s₁ ∧ Blanks s₂ ∧ Blanks s₃) ∧
      line.lead = line.tag ++ s₀ ++ (line.type.map p.formatType).getD [] ++ s₁ ++
        line.name.getD [] ++ s₂ ++ dash ++ s₃
  /-- Behind the description there are blanks only. -/
  whole : ∃ s, Blanks s ∧ content = line.lead ++ line.description.getD [] ++ s
  /-- There is an offset if there is a description, and the line from there on is the description
  but for blanks at its end. -/
  offset : line.description = none ∧ line.descriptionOffset? = none ∨
    ∃ description i rest, line.description = some description ∧
      line.descriptionOffset? = some i ∧ fromOctet? i content = some rest ∧
        trimEnd rest = description ∧ description ≠ [] ∧ StartsTight description

section OfText

variable {p : Profile} {content : Text} {line : TagLine}

/-- What stands before a tight rest is determined by the line, up to blanks that end it. -/
theorem exists_lead_eq_append {lead rest before s : Text} (hrest : StartsTight rest) (hs : Blanks s)
    (h : lead ++ rest = before ++ trimEnd rest ++ s) : ∃ e, Blanks e ∧ lead = before ++ e := by
  by_cases hnil : trimEnd rest = []
  · have hempty : rest = [] := by
      rw [← trimStart_of_startsTight hrest]
      exact trimStart_of_blanks (trimEnd_eq_nil_iff.mp hnil)
    subst hempty
    exact ⟨s, hs, by simpa [hnil] using h⟩
  · have htrim := congrArg trimEnd h
    have hend : EndsTight (before ++ trimEnd rest) :=
      (endsTight_append hnil).mpr (endsTight_trimEnd rest)
    rw [trimEnd_append hnil, trimEnd_append_of_blanks hs, trimEnd_of_endsTight hend] at htrim
    exact ⟨[], blanks_nil, by rw [List.append_nil, List.append_cancel_right htrim]⟩

/-- **The columns of a tag line account for the whole line.** -/
theorem accounts_of_ofText? (h : ofText? p content = some line) : Accounts p line content := by
  obtain ⟨dash, hdash, s₀, s₁, s₂, s₃, s₄, ⟨hs₀, hs₁, hs₂, hs₃, hs₄⟩, hspelled⟩ :=
    exists_of_ofText? h
  obtain ⟨rest, hsplit, htight, hdescription⟩ := exists_rest_of_ofText? h
  obtain ⟨e, he, hend⟩ := exists_trimEnd_append_blanks rest
  have hgetD : line.description.getD [] = trimEnd rest := by rw [hdescription, getD_nonempty?]
  constructor
  · rw [hsplit, hgetD] at hspelled
    obtain ⟨s, hs, hlead⟩ := exists_lead_eq_append htight hs₄ hspelled
    refine ⟨dash, s₀, s₁, s₂, s₃ ++ s, hdash.imp id And.right, ⟨hs₀, hs₁, hs₂, ?_⟩, ?_⟩
    · exact blanks_append.mpr ⟨hs₃, hs⟩
    · rw [hlead, List.append_assoc _ s₃ s]
  · refine ⟨e, he, ?_⟩
    rw [hgetD, List.append_assoc, ← hend]
    exact hsplit
  · cases hcolumn : line.description with
    | none => exact Or.inl ⟨rfl, by rw [descriptionOffset?_of_ofText? h, hcolumn]; rfl⟩
    | some description =>
      obtain ⟨htrim, hne⟩ := eq_of_nonempty? (hdescription.symm.trans hcolumn)
      refine Or.inr ⟨description, octets line.lead, rest, rfl, ?_, ?_, htrim.symm, ?_, ?_⟩
      · rw [descriptionOffset?_of_ofText? h, hcolumn]
        rfl
      · exact fromOctet?_eq_some_iff.mpr ⟨line.lead, rfl, hsplit⟩
      · rw [htrim]
        exact hne
      · rw [htrim]
        exact startsTight_trimEnd htight

/-- A line with letters and a blank of several octets. -/
def sizeLine : Text := "@param \x7bGröße\x7d größe\u3000- die Größe ".toList

/-- The columns of that line. -/
def sizeColumns : TagLine where
  tag := "@param"
  type := some "Größe"
  name := some "größe"
  description := some "die Größe"
  descriptionOffset? := some 29
  lead := "@param \x7bGröße\x7d größe\u3000- "
  structured := true

theorem accounts_sizeColumns :
    ofText? (Profile.of .javascript {}) sizeLine = some sizeColumns ∧
      sizeColumns.descriptionOffset? = some 29 ∧
        Accounts (Profile.of .javascript {}) sizeColumns sizeLine := by
  have hcolumns : ofText? (Profile.of .javascript {}) sizeLine = some sizeColumns := by decide
  exact ⟨hcolumns, by decide, accounts_of_ofText? hcolumns⟩

end OfText

end TagLine

end DocComment
