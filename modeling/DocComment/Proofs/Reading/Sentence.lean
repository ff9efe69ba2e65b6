import DocComment.Proofs.Reading.Stable

/-!
# Free text broken after a sentence

If the text at the start of a comment is broken after a period, what follows is read as a text of its
own.  Both parts together have the lines that the text had (`exists_broken`), so where no empty line is
put between them the layout stays the same (`exists_whole`).
-/

namespace DocComment

open Text TagLine Reading Table

/-! ## The lines of free text -/

section Text

variable {p : Profile} {d : Delimiters} {options : LayoutOptions} {rows : List Row} {width : Nat}

/-- Two lines with the same first word both start with a tag or both do not. -/
theorem ofText?_eq_none_of_head?_words {s t : Text} (hs : IsLine s) (ht : IsLine t)
    (hhead : (words t).head? = (words s).head?) (h : ofText? p s = none) : ofText? p t = none := by
  rw [words_eq_word_cons hs.ne_nil hs.startsTight, words_eq_word_cons ht.ne_nil ht.startsTight]
    at hhead
  exact ofText?_eq_none_of_word hs.ne_nil hs.startsTight ht.ne_nil ht.startsTight
    (Option.some.inj hhead) h

/-- Words end as the last ones of them do. -/
theorem getLast?_unwords_append (vs : List Text) {ws : List Text} (hne : ws ≠ [])
    (hws : ∀ w ∈ ws, IsWord w) : (unwords (vs ++ ws)).getLast? = (unwords ws).getLast? := by
  by_cases hvs : vs = []
  · rw [hvs, List.nil_append]
  · rw [unwords_append hvs hne, List.append_cons,
      List.getLast?_append_of_ne_nil _ (unwords_ne_nil hne hws)]

/-- Free text that is too wide. -/
theorem rowLines_of_wide_text (hp : p.Framed d) (hplain : options.asSnippet = false)
    (hwidth : options.width = some width) {t : Text} (ht : IsLine t) (hnone : ofText? p t = none)
    (hwide : width < (d.marker ++ [' '] ++ t).length) :
    rowLines p d options rows (.text (.text t)) =
      (Reflow.pack width (d.marker ++ [' ']).length (words t)).map fun line =>
        d.marker ++ [' '] ++ unwords line := by
  have hvalue : (Row.text (.text t)).value = t := plain_text t
  have hled : Led p options rows (.text (.text t)) [] :=
    led_text (by rwa [plain_text]) (by rwa [plain_text])
  have hline := hled.rowLine_eq (d := d) hplain (by rwa [hvalue])
  rw [hvalue] at hline
  have hhead : Reflow.continuation d.marker (d.marker ++ [' ']) = d.marker ++ [' '] := by
    simp [Reflow.continuation]
  have hcuts : CutsAt p [] t := by rw [CutsAt, List.nil_append, hnone]
  rw [List.append_assoc] at hwide
  have hstart : StartsTight ([] ++ t) := ht.startsTight
  have hflow := wrapLine_of_cutsAt hp hstart hcuts hwide
  rw [rowLines, hwidth]
  simp only [hline, hflow, List.append_nil]
  exact Reflow.flow_eq_map hhead (words_ne_nil ht.ne_nil ht.startsTight) (isWord_words t)

/-- Words with single spaces between them, whether they are too wide or not. -/
theorem rowLines_of_words (hp : p.Framed d) (hplain : options.asSnippet = false)
    (hwidth : options.width = some width) {ws : List Text} (hne : ws ≠ [])
    (hws : ∀ w ∈ ws, IsWord w) (hnone : ofText? p (unwords ws) = none) :
    rowLines p d options rows (.text (.text (unwords ws))) =
      (Reflow.pack width (d.marker ++ [' ']).length ws).map fun line =>
        d.marker ++ [' '] ++ unwords line := by
  have ht := isLine_unwords hne hws
  by_cases hwide : width < (d.marker ++ [' '] ++ unwords ws).length
  · rw [rowLines_of_wide_text hp hplain hwidth ht hnone hwide, words_unwords hws]
  · have hled : Led p options rows (.text (.text (unwords ws))) [] :=
      led_text (by rwa [plain_text]) (by rwa [plain_text])
    have hvalue : (Row.text (.text (unwords ws))).value = unwords ws := plain_text _
    have hline := hled.rowLine_eq (d := d) hplain (by rwa [hvalue])
    rw [hvalue, List.nil_append, ← List.append_assoc] at hline
    rw [rowLines, hwidth]
    simp only [hline, Reflow.wrapLine_of_le (Nat.le_of_not_lt hwide)]
    rw [Reflow.pack_of_fits hne (by rw [← List.length_append]; exact Nat.le_of_not_lt hwide),
      List.map_singleton]

/-- A line of words that does not start with a tag. -/
structure FreeLine (p : Profile) (line : List Text) : Prop where
  ne_nil : line ≠ []
  isWord : ∀ w ∈ line, IsWord w
  not_tag : ofText? p (unwords line) = none

theorem FreeLine.isLine {line : List Text} (h : FreeLine p line) : IsLine (unwords line) :=
  isLine_unwords h.ne_nil h.isWord

/-- Lines that words are packed into are the lines of a text. -/
theorem rowLines_of_packed (hp : p.Framed d) (hplain : options.asSnippet = false)
    (hwidth : options.width = some width) {ls : List (List Text)} (hne : ls ≠ [])
    (hfree : ∀ line ∈ ls, FreeLine p line)
    (hpack : Reflow.pack width (d.marker ++ [' ']).length ls.flatten = ls) :
    FreeLine p ls.flatten ∧ rowLines p d options rows (.text (.text (unwords ls.flatten))) =
      ls.map fun line => d.marker ++ [' '] ++ unwords line := by
  obtain ⟨line, more, rfl⟩ := List.exists_cons_of_ne_nil hne
  have hline := hfree line List.mem_cons_self
  have hwords : ∀ w ∈ (line :: more).flatten, IsWord w := by
    intro w hw
    obtain ⟨l, hl, hmem⟩ := List.mem_flatten.mp hw
    exact (hfree l hl).isWord w hmem
  have hflatten : (line :: more).flatten ≠ [] := by simp [hline.ne_nil]
  have hhead : (words (unwords (line :: more).flatten)).head? = (words (unwords line)).head? := by
    rw [words_unwords hwords, words_unwords hline.isWord, List.flatten_cons,
      List.head?_append_of_ne_nil _ hline.ne_nil]
  have hnone := ofText?_eq_none_of_head?_words hline.isLine (isLine_unwords hflatten hwords) hhead
    hline.not_tag
  refine ⟨⟨hflatten, hwords, hnone⟩, ?_⟩
  rw [rowLines_of_words hp hplain hwidth hflatten hwords hnone, hpack]

/-- The lines that free text is packed into, if no further line starts with a tag. -/
theorem freeLine_of_mem_pack (hp : p.Framed d) {t : Text} (ht : IsLine t)
    (hnone : ofText? p t = none) (hclear : ClearLines p d options rows (.text (.text t)))
    (hlines : rowLines p d options rows (.text (.text t)) =
      (Reflow.pack width (d.marker ++ [' ']).length (words t)).map fun line =>
        d.marker ++ [' '] ++ unwords line) :
    ∀ line ∈ Reflow.pack width (d.marker ++ [' ']).length (words t), FreeLine p line := by
  obtain ⟨first, more, hpack, hfirst, hmore, hflatten⟩ := Reflow.exists_pack width
    (d.marker ++ [' ']).length (words_ne_nil ht.ne_nil ht.startsTight)
  rw [hpack] at hlines ⊢
  have hwords : ∀ line ∈ first :: more, ∀ w ∈ line, IsWord w := by
    intro line hline w hw
    apply isWord_words t
    rw [← hflatten, ← List.flatten_cons]
    exact List.mem_flatten.mpr ⟨line, hline, hw⟩
  intro line hline
  have hline' := hwords line hline
  rcases List.mem_cons.mp hline with rfl | hmem
  · refine ⟨hfirst, hline', ofText?_eq_none_of_head?_words ht (isLine_unwords hfirst hline') ?_ hnone⟩
    rw [words_unwords hline', ← hflatten, List.head?_append_of_ne_nil _ hfirst]
  · refine ⟨hmore line hmem, hline', ?_⟩
    have hspace : Blanks [' '] := blanks_replicate 1
    have htail : d.marker ++ ([' '] ++ unwords line) ∈
        (rowLines p d options rows (.text (.text t))).tail := by
      rw [hlines, ← List.append_assoc]
      exact List.mem_map_of_mem hmem
    have htag := hclear.no_tag _ htail
    rwa [lineContent_of_mem_rowLines hp hclear.no_closer (List.mem_of_mem_tail htail),
      trim_append_of_blanks hspace, trim_of_tight (startsTight_unwords hline')
        (endsTight_unwords hline')] at htag

end Text

/-! ## Where a sentence ends -/

section Broken

variable {p : Profile} {d : Delimiters} {options : LayoutOptions} {rows : List Row} {t : Text}

/-- The first of some elements that satisfy a condition, if it is not the last element. -/
theorem exists_first_of_mem_dropLast {α : Type} {c : α → Bool} {xs : List α}
    (h : ∃ x ∈ xs.dropLast, c x = true) :
    ∃ above x below, xs = above ++ [x] ++ below ∧ below ≠ [] ∧ c x = true ∧
      ∀ y ∈ above, c y = false := by
  obtain ⟨x, hx⟩ := Option.isSome_iff_exists.mp (List.find?_isSome.mpr h)
  obtain ⟨hc, above, below, hsplit, habove⟩ := List.find?_eq_some_iff_append.mp hx
  have hne : xs ≠ [] := by
    rintro rfl
    simp at hx
  refine ⟨above, x, below ++ [xs.getLast hne], ?_, by simp, hc, by simpa using habove⟩
  conv_lhs => rw [← List.dropLast_append_getLast hne, hsplit]
  simp

/-- **Free text that is broken after a period** has the lines of two texts, and the first of them is
whole. -/
theorem exists_broken (hp : p.Framed d) (hplain : options.asSnippet = false) (ht : IsLine t)
    (hnone : ofText? p t = none) (hclear : ClearLines p d options rows (.text (.text t)))
    (hbroken : ∃ line ∈ (rowLines p d options rows (.text (.text t))).dropLast,
      line.getLast? = some '.') :
    ∃ s r, (IsLine s ∧ ofText? p s = none) ∧ (IsLine r ∧ ofText? p r = none) ∧
      s.getLast? = some '.' ∧
      rowLines p d options rows (.text (.text t)) =
        rowLines p d options rows (.text (.text s)) ++
          rowLines p d options rows (.text (.text r)) ∧
      ∀ line ∈ (rowLines p d options rows (.text (.text s))).dropLast,
        line.getLast? ≠ some '.' := by
  have hfits : ¬ Fits options
      (rowLine p options d.marker (columnWidths p rows) (.text (.text t))) := by
    intro hfits
    rw [rowLines_of_fits hfits] at hbroken
    simp at hbroken
  obtain ⟨width, hwidth, hwide, -⟩ := exists_rowLines_of_not_fits hfits
  have hvalue : (Row.text (.text t)).value = t := plain_text t
  rw [(led_text (by rwa [plain_text]) (by rwa [plain_text])).rowLine_eq hplain (by rwa [hvalue]),
    hvalue, List.nil_append, ← List.append_assoc] at hwide
  have hlines : rowLines p d options rows (.text (.text t)) = _ :=
    rowLines_of_wide_text hp hplain hwidth ht hnone hwide
  have hfree := freeLine_of_mem_pack hp ht hnone hclear hlines
  rw [hlines, ← List.map_dropLast] at hbroken
  obtain ⟨line, hline, hperiod⟩ := hbroken
  obtain ⟨ws, hws, rfl⟩ := List.mem_map.mp hline
  obtain ⟨above, last, below, hsplit, hbelow, hlast, habove⟩ := exists_first_of_mem_dropLast
    (c := fun ws => (d.marker ++ [' '] ++ unwords ws).getLast? == some '.')
    ⟨ws, hws, by simpa using hperiod⟩
  have hne : above ++ [last] ≠ [] := by simp
  obtain ⟨hpackAbove, hpackBelow⟩ := Reflow.pack_of_append hsplit hne hbelow
  rw [hsplit] at hfree
  obtain ⟨hs, hsLines⟩ := rowLines_of_packed hp hplain hwidth hne
    (fun line hl => hfree line (List.mem_append_left _ hl)) hpackAbove
  obtain ⟨hr, hrLines⟩ := rowLines_of_packed hp hplain hwidth hbelow
    (fun line hl => hfree line (List.mem_append_right _ hl)) hpackBelow
  refine ⟨_, _, ⟨hs.isLine, hs.not_tag⟩, ⟨hr.isLine, hr.not_tag⟩, ?_, ?_, ?_⟩
  · have hlastLine := hfree last (by simp)
    rw [List.flatten_append, List.flatten_singleton,
      getLast?_unwords_append _ hlastLine.ne_nil hlastLine.isWord]
    rwa [beq_iff_eq, List.getLast?_append_of_ne_nil _
      (unwords_ne_nil hlastLine.ne_nil hlastLine.isWord)] at hlast
  · rw [hlines, hsLines, hrLines, hsplit, List.map_append]
  · rw [hsLines, ← List.map_dropLast, List.dropLast_concat]
    intro line hline
    obtain ⟨ws, hws, rfl⟩ := List.mem_map.mp hline
    simpa using habove ws hws

end Broken

/-! ## Two texts in place of one -/

section Whole

variable {p : Profile} {d : Delimiters} {options : LayoutOptions} {b : Block}

theorem separate_none (rows : List Row) : separate .none rows = rows := by
  have hfrom : ∀ i previous, ∀ rows : List Row, separateFrom .none i previous rows = rows := by
    intro i previous rows
    induction rows generalizing i previous with
    | nil => rfl
    | cons row rows ih => simp [separateFrom, separates, ih]
  cases rows with
  | nil => rfl
  | cons row rows => rw [separate, hfrom]

/-- Two rows with the lines of one are clear if it is. -/
theorem Table.ClearLines.of_append {rows rows' : List Row} {row above below : Row}
    (h : ClearLines p d options rows row)
    (hlines : rowLines p d options rows row =
      rowLines p d options rows' above ++ rowLines p d options rows' below)
    (hne : rowLines p d options rows' above ≠ []) :
    ClearLines p d options rows' above ∧ ClearLines p d options rows' below := by
  obtain ⟨hcloser, htag⟩ := h
  rw [Unclosed, hlines] at hcloser
  rw [hlines, List.tail_append_of_ne_nil hne] at htag
  refine ⟨⟨?_, ?_⟩, ⟨?_, ?_⟩⟩
  · exact fun line hline => hcloser line (List.mem_append_left _ hline)
  · exact fun line hline => htag line (List.mem_append_left _ hline)
  · exact fun line hline => hcloser line (List.mem_append_right _ hline)
  · exact fun line hline => htag line (List.mem_append_right _ (List.mem_of_mem_tail hline))

/-- After a row that is not the first, free text is set off by an empty line alone. -/
theorem setOff_of_two {f s r : Field} {between rest : List Row} (hne : between ≠ [])
    (h : SetOff (.text f :: between) rest) : SetOff (.text s :: .text r :: between) rest := by
  induction rest generalizing between with
  | nil => trivial
  | cons row rest ih =>
    obtain ⟨hrow, hrest⟩ := h
    refine ⟨?_, ih (by simp) hrest⟩
    intro g hg
    have hlast : between.getLast? = some .blank := by
      rcases hrow g hg with hnil | hblank | ⟨f', hf', -⟩
      · cases hnil
      · rwa [List.getLast?_cons_of_ne_nil hne] at hblank
      · rw [List.filter_cons_of_pos (by simp [Row.isBlank])] at hf'
        have hempty := (List.cons.inj hf').2
        rw [List.filter_eq_nil_iff] at hempty
        have hmem := List.getLast_mem hne
        rw [List.getLast?_eq_some_getLast hne]
        simpa [isBlank_eq_true_iff] using hempty _ hmem
    refine Or.inr (Or.inl ?_)
    rw [List.getLast?_cons_of_ne_nil (List.cons_ne_nil _ _), List.getLast?_cons_of_ne_nil hne, hlast]

/-- Putting two texts in the place of the first row, if that is a text and none comes next. -/
theorem Block.Normal.of_two {f : Field} {s r : Text} {rest : List Row}
    (h : Block.Normal p ⟨.text f :: rest⟩) (hnext : ∀ g, rest.head? ≠ some (.text g))
    (hs : IsLine s ∧ ofText? p s = none) (hr : IsLine r ∧ ofText? p r = none)
    (hperiod : s.getLast? = some '.') :
    Block.Normal p ⟨.text (.text s) :: .text (.text r) :: rest⟩ := by
  have hfilter : [Row.text (.text s)].filter (fun r => !r.isBlank) = [.text (.text s)] := rfl
  have hopens : Row.Opens [.text (.text s)] :=
    Or.inr (Or.inr ⟨_, hfilter, by rwa [plain_text]⟩)
  refine ⟨List.cons_ne_nil _ _, ?_, ⟨fun _ _ => Or.inl rfl, fun _ _ => hopens, ?_⟩,
    ⟨nofun, ?_⟩, ?_⟩
  · intro row hrow
    simp only [List.mem_cons] at hrow
    rcases hrow with rfl | rfl | hrow
    · exact ⟨.text s, hs, rfl⟩
    · exact ⟨.text r, hr, rfl⟩
    · exact h.row row (List.mem_cons_of_mem _ hrow)
  · have hset : SetOff [.text f] rest := h.set_off.2
    cases rest with
    | nil => trivial
    | cons row rest =>
      refine ⟨fun g hg => absurd (congrArg some hg) (hnext g), ?_⟩
      exact setOff_of_two (List.cons_ne_nil row []) hset.2
  · have hchain := h.spaced.chain
    cases rest with
    | nil => simp
    | cons row rest =>
      obtain ⟨-, hrest⟩ := List.isChain_cons_cons.mp hchain
      exact List.isChain_cons_cons.mpr ⟨nofun, List.isChain_cons_cons.mpr ⟨nofun, hrest⟩⟩
  · have hlast := h.last
    cases rest with
    | nil => simp
    | cons row rest => simpa [List.getLast?_cons_cons] using hlast

/-- **A settled block is laid out like one whose first sentence is whole.** -/
theorem exists_whole (hp : p.Framed d) (hplain : options.asSnippet = false) (hnormal : b.Normal p)
    (hsettled : b.Settled p d options) :
    ∃ b' : Block, b'.Normal p ∧ b'.Settled p d options ∧ WholeSentence p d options b'.rows ∧
      b'.format p options = b.format p options := by
  by_cases hwhole : WholeSentence p d options b.rows
  · exact ⟨b, hnormal, hsettled, hwhole, rfl⟩
  obtain ⟨hpolicy, hnext⟩ := hsettled.whole.resolve_left hwhole
  unfold WholeSentence at hwhole
  push Not at hwhole
  obtain ⟨f, hfirst, hbroken⟩ := hwhole
  obtain ⟨rows⟩ := b
  obtain ⟨row, rest, rfl⟩ := List.exists_cons_of_ne_nil hnormal.ne_nil
  obtain rfl : row = .text f := by
    have hrow : row ≠ .blank := fun h => hnormal.spaced.head (congrArg some h)
    rw [ne_eq, ← isBlank_eq_true_iff, Bool.not_eq_true] at hrow
    simpa [hrow] using hfirst
  obtain ⟨l, hl, hlrow⟩ := hnormal.row _ List.mem_cons_self
  obtain ⟨t, rfl⟩ := hl.eq_of_rowOf.2 f hlrow
  obtain rfl : Field.text t = f := Row.text.inj hlrow
  obtain ⟨s, r, hs, hr, hperiod, hlines, hwholeFirst⟩ := exists_broken hp hplain hl.1 hl.2
    (hsettled.clear _ List.mem_cons_self) hbroken
  have hnext' : ∀ g, rest.head? ≠ some (.text g) := by
    intro g hg
    rw [List.head?_eq_getElem?] at hg
    exact hnext g hg
  have hlegible : (Row.text (.text s)).Legible p := by
    rw [Row.Legible, plain_text]
    exact hs
  -- The columns are those of the entries, which are the same.
  have hsame : rowLines p d options (.text (.text t) :: rest) =
      rowLines p d options (.text (.text s) :: .text (.text r) :: rest) := rfl
  rw [hsame] at hlines hwholeFirst
  obtain ⟨hclearAbove, hclearBelow⟩ := (hsettled.clear _ List.mem_cons_self).of_append hlines
    (hlegible.rowLines_shape _ hp hplain).1
  have hwhole : WholeSentence p d options (.text (.text s) :: .text (.text r) :: rest) := by
    intro f hf
    obtain rfl : Field.text s = f := Row.text.inj (Option.some.inj hf)
    exact hwholeFirst
  refine ⟨_, hnormal.of_two hnext' hs hr hperiod, ⟨?_, Or.inl hwhole, ?_⟩, hwhole, ?_⟩
  · intro row hrow
    simp only [List.mem_cons] at hrow
    rcases hrow with rfl | rfl | hrow
    · exact hclearAbove
    · exact hclearBelow
    · obtain ⟨hcloser, htag⟩ := hsettled.clear row (List.mem_cons_of_mem _ hrow)
      exact ⟨hcloser, htag⟩
  · intro row hrow
    simp only [List.mem_cons] at hrow
    rcases hrow with rfl | rfl | hrow
    · trivial
    · trivial
    · exact hsettled.apart row (List.mem_cons_of_mem _ hrow)
  · rw [format_eq_rowLines hp.delimiters hp.opener_delimiter hp.closer_delimiter,
      format_eq_rowLines hp.delimiters hp.opener_delimiter hp.closer_delimiter, hpolicy,
      separate_none, separate_none]
    simp only [hsame, List.flatMap_cons, hlines, List.append_assoc]

end Whole

end DocComment
