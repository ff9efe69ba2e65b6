import DocComment.Proofs.Profile
import DocComment.Proofs.Reflow
import Mathlib.Data.List.Forall2

/-!
# How a line is broken

A comment line that is too wide has a head, which stays where it is, and a flowing text, whose words
are distributed over rows: the description of a tag line, or the whole text of any other line
(`flowing?`).  Packing makes rows of one word and rows that fit (`breaking_pack`), and the lines
that come of them are known in full (`wrapLine_cases`): the first row stands behind the head, and
every other row behind the marker and as many spaces as reach the column where the head ends.

From this it follows that no word is lost, cut, doubled or moved (`wrap_conserves_words`), and that
the lines fit and line up (`exists_arranged_wrap`).
-/

namespace DocComment.Reflow

open Text

/-! ## The flowing text -/

section Flowing

variable {p : Profile} {line head text : Text}

/-- What stays at the start of a comment line that is re-flowed, and the text that flows behind it:
the description of a tag line, or the whole text of a line that starts with no tag. -/
def flowing? (p : Profile) (line : Text) : Option (Text × Text) :=
  (after? (lineMarker p) line).bind fun content =>
    match TagLine.ofText? p (trimStart content) with
    | none => some (lineMarker p ++ content.takeWhile isBlank, trimStart content)
    | some tagLine => tagLine.description.map fun description =>
        (lineMarker p ++ content.takeWhile isBlank ++ tagLine.lead, description)

/-- The words that flow when a line is broken. -/
def flowingWords (p : Profile) (line : Text) : List Text :=
  ((flowing? p line).map fun cut => words cut.2).getD []

/-- Whether a comment line is a tag line without a description. -/
def isBareTag (p : Profile) (line : Text) : Bool :=
  (after? (lineMarker p) line).any fun content =>
    (TagLine.ofText? p (trimStart content)).any fun tagLine => tagLine.description.isNone

/-- The words that flow are those of the text behind the head. -/
theorem flowingWords_of_flowing? (h : flowing? p line = some (head, text)) :
    flowingWords p line = words text := by
  rw [flowingWords, h]
  rfl

/-- The head and the flowing text make up the line, apart from blanks at its end. -/
theorem exists_of_flowing? (h : flowing? p line = some (head, text)) :
    ∃ lead s, head = lineMarker p ++ lead ∧ line = head ++ text ++ s ∧ StartsTight text ∧
      Blanks s ∧ (text = [] → Blanks lead) := by
  obtain ⟨content, hcontent, hcut⟩ := Option.bind_eq_some_iff.mp h
  obtain rfl := eq_append_of_after? hcontent
  obtain ⟨hblanks, hsplit⟩ : Blanks (content.takeWhile isBlank) ∧
      content = content.takeWhile isBlank ++ trimStart content :=
    ⟨fun c hc => List.mem_takeWhile_imp hc, (List.takeWhile_append_dropWhile).symm⟩
  cases htag : TagLine.ofText? p (trimStart content) with
  | none =>
    rw [htag] at hcut
    obtain ⟨rfl, rfl⟩ := Prod.mk.inj (Option.some.inj hcut)
    refine ⟨_, [], rfl, ?_, startsTight_trimStart content, blanks_nil, fun _ => hblanks⟩
    rw [List.append_nil, List.append_assoc, ← hsplit]
  | some tagLine =>
    rw [htag] at hcut
    obtain ⟨description, hdescription, hcut⟩ := Option.map_eq_some_iff.mp hcut
    obtain ⟨rfl, rfl⟩ := Prod.mk.inj hcut
    obtain ⟨rest, hbody, htight, hrest⟩ := TagLine.exists_rest_of_ofText? htag
    obtain ⟨s, hs, htrim⟩ := exists_trimEnd_append_blanks rest
    rw [hrest] at hdescription
    obtain ⟨rfl, hne⟩ := TagLine.eq_of_nonempty? hdescription
    refine ⟨content.takeWhile isBlank ++ tagLine.lead, s, by rw [List.append_assoc], ?_,
      startsTight_trimEnd htight, hs, fun hnil => absurd hnil hne⟩
    calc lineMarker p ++ content
        = lineMarker p ++ (content.takeWhile isBlank ++ (tagLine.lead ++ rest)) := by
          rw [← hbody, ← hsplit]
      _ = lineMarker p ++ content.takeWhile isBlank ++ tagLine.lead ++ trimEnd rest ++ s := by
          conv_lhs => rw [htrim]
          simp only [List.append_assoc]

/-- Nothing flows in a line without the marker and in a tag line without a description. -/
theorem not_isPrefix_or_isBareTag (h : flowing? p line = none) :
    ¬ lineMarker p <+: line ∨ isBareTag p line = true := by
  cases hcontent : after? (lineMarker p) line with
  | none =>
    left
    rintro ⟨content, rfl⟩
    rw [after?_append] at hcontent
    cases hcontent
  | some content =>
    right
    rw [flowing?, hcontent, Option.bind_some] at h
    rw [isBareTag, hcontent, Option.any_some]
    cases htag : TagLine.ofText? p (trimStart content) with
    | none => simp [htag] at h
    | some tagLine => simpa [htag] using h

/-- A line without text that flows is left alone. -/
theorem wrapLine_of_flowing?_eq_none (h : flowing? p line = none) (width : Nat) :
    wrapLine p width line = [line] := by
  rw [flowing?, Option.bind_eq_none_iff] at h
  rw [wrapLine]
  split
  · rfl
  · cases hcontent : after? (lineMarker p) line with
    | none => rfl
    | some content =>
      have hnone := h content hcontent
      cases htag : TagLine.ofText? p (trimStart content) with
      | none => simp [htag] at hnone
      | some tagLine =>
        have hdescription : tagLine.description = none := by simpa [htag] using hnone
        simp only [htag, hdescription]

/-- A line that is too wide is broken as words that flow behind its head. -/
theorem wrapLine_of_flowing? {width : Nat} (hwide : width < line.length)
    (hdelim : isDelimiter p line = false) (h : flowing? p line = some (head, text)) :
    wrapLine p width line = flow (lineMarker p) head width (words text) := by
  have hlong : ¬ line.length ≤ width := by omega
  obtain ⟨content, hcontent, hcut⟩ := Option.bind_eq_some_iff.mp h
  rw [wrapLine, if_neg (by simpa [hdelim] using hlong)]
  simp only [hcontent]
  cases htag : TagLine.ofText? p (trimStart content) with
  | none =>
    rw [htag] at hcut
    obtain ⟨rfl, rfl⟩ := Prod.mk.inj (Option.some.inj hcut)
    rfl
  | some tagLine =>
    rw [htag] at hcut
    obtain ⟨description, hdescription, hcut⟩ := Option.map_eq_some_iff.mp hcut
    obtain ⟨rfl, rfl⟩ := Prod.mk.inj hcut
    simp only [hdescription]

end Flowing

/-! ## Rows of words -/

/-- The room that a row takes: its words and a space between any two of them. -/
def rowWidth (row : List Text) : Nat := row.flatten.length + (row.length - 1)

/-- A cut of words into rows that are not empty, behind a column: a row has a single word or ends
within the width. -/
structure Breaking (width column : Nat) (ws : List Text) (rows : List (List Text)) : Prop where
  flatten_eq : rows.flatten = ws
  ne_nil : ∀ row ∈ rows, row ≠ []
  fits : ∀ row ∈ rows, row.length = 1 ∨ column + rowWidth row ≤ width

/-- A row is as wide as its first word and the extent of the others. -/
theorem rowWidth_cons (w : Text) (ws : List Text) : rowWidth (w :: ws) = w.length + extent ws := by
  induction ws generalizing w with
  | nil => simp [rowWidth, extent]
  | cons v ws ih =>
    have hrest := ih v
    simp only [rowWidth, List.flatten_cons, List.length_append, List.length_cons] at hrest ⊢
    rw [extent]
    omega

theorem length_unwords (row : List Text) : (unwords row).length = rowWidth row := by
  cases row with
  | nil => rfl
  | cons w ws => rw [length_unwords_cons, rowWidth_cons]

/-- A row fits if its first word stands alone or the others fit behind it. -/
theorem fits_cons {width column : Nat} {w : Text} {row : List Text}
    (h : row = [] ∨ column + w.length + extent row ≤ width) :
    (w :: row).length = 1 ∨ column + rowWidth (w :: row) ≤ width := by
  rw [rowWidth_cons]
  rcases h with rfl | hfits
  · exact Or.inl rfl
  · exact Or.inr (by omega)

/-- The words that go on the current line fit there, and so do those of the lines after it unless
they stand alone. -/
theorem fits_fill (width column used : Nat) (ws : List Text) :
    ((fill width column used ws).1 = [] ∨
        used + extent (fill width column used ws).1 ≤ width) ∧
      ∀ row ∈ (fill width column used ws).2, row.length = 1 ∨ column + rowWidth row ≤ width := by
  induction ws generalizing used with
  | nil => exact ⟨Or.inl rfl, nofun⟩
  | cons w ws ih =>
    rw [fill]
    split
    · obtain ⟨hline, hmore⟩ := ih (column + w.length)
      exact ⟨Or.inl rfl, List.forall_mem_cons.mpr ⟨fits_cons hline, hmore⟩⟩
    · next hfirst =>
      obtain ⟨hline, hmore⟩ := ih (used + 1 + w.length)
      refine ⟨Or.inr ?_, hmore⟩
      simp only [extent]
      rcases hline with hnil | hfits
      · rw [hnil, extent]
        omega
      · omega

/-- **Packing breaks the words.** -/
theorem breaking_pack (width column : Nat) {ws : List Text} (hws : ws ≠ []) :
    Breaking width column ws (pack width column ws) := by
  obtain ⟨first, more, hpack, hfirst, hmore, hflatten⟩ := exists_pack width column hws
  refine ⟨by rw [hpack, List.flatten_cons, hflatten], ?_, ?_⟩
  · rw [hpack]
    exact List.forall_mem_cons.mpr ⟨hfirst, hmore⟩
  · obtain ⟨w, ws, rfl⟩ := List.exists_cons_of_ne_nil hws
    obtain ⟨hline, hrows⟩ := fits_fill width column (column + w.length) ws
    exact List.forall_mem_cons.mpr ⟨fits_cons hline, hrows⟩

/-! ## The lines that a line becomes -/

section Lines

variable {p : Profile} {width : Nat} {line : Text}

/-- The marker of a line ends tight in every language. -/
theorem endsTight_lineMarker (language : Language) (config : Config) :
    EndsTight (lineMarker (Profile.of language config)) := by
  cases hdialect : (Profile.of language config).dialect with
  | table d =>
    have hd : (Profile.of language config).delimiters? = some d := by
      rw [Profile.delimiters?, hdialect]
    rw [lineMarker_of_delimiters? hd]
    rcases Profile.delimiters_of hd with rfl | rfl | rfl <;> decide
  | rustdoc | swiftMarkup | rdoc =>
    rw [lineMarker, hdialect]
    decide

/-- **What a line becomes.**  It stays as it is, or it has no words and shrinks to the marker, or its
words are cut into rows, one for each line. -/
theorem wrapLine_cases (hmarker : EndsTight (lineMarker p)) (width : Nat) (line : Text) :
    (wrapLine p width line = [line] ∧
      (line.length ≤ width ∨ isDelimiter p line = true ∨ flowing? p line = none)) ∨
    (∃ head, flowing? p line = some (head, []) ∧ wrapLine p width line = [lineMarker p]) ∨
    ∃ head text first more, flowing? p line = some (head, text) ∧
      Breaking width head.length (words text) (first :: more) ∧
      wrapLine p width line = (head ++ unwords first) ::
        more.map fun row => continuation (lineMarker p) head ++ unwords row := by
  by_cases hle : line.length ≤ width
  · exact Or.inl ⟨wrapLine_of_le hle, Or.inl hle⟩
  by_cases hdelim : isDelimiter p line = true
  · exact Or.inl ⟨wrapLine_of_isDelimiter hdelim, Or.inr (Or.inl hdelim)⟩
  cases hflow : flowing? p line with
  | none => exact Or.inl ⟨wrapLine_of_flowing?_eq_none hflow width, Or.inr (Or.inr rfl)⟩
  | some cut =>
    obtain ⟨head, text⟩ := cut
    obtain ⟨lead, s, hhead, hline, htight, hs, hlead⟩ := exists_of_flowing? hflow
    have hwrap := wrapLine_of_flowing? (Nat.lt_of_not_le hle) (by simpa using hdelim) hflow
    right
    by_cases htext : text = []
    · subst htext
      have htrim : trimEnd head = lineMarker p := by
        rw [hhead, trimEnd_append_of_blanks (hlead rfl), trimEnd_of_endsTight hmarker]
      refine Or.inl ⟨head, rfl, ?_⟩
      simp [hwrap, flow, pack, htrim]
    · have hne : words text ≠ [] := words_ne_nil htext htight
      obtain ⟨first, more, hpack, -, -, -, hlines⟩ := exists_flow (lineMarker p) head width hne
        fun w hw => isWord_of_mem_words hw
      refine Or.inr ⟨head, text, first, more, rfl, ?_, hwrap.trans hlines⟩
      rw [← hpack]
      exact breaking_pack width head.length hne

/-- A continuation is as long as the head it stands under. -/
theorem length_continuation {head : Text} (h : lineMarker p <+: head) :
    (continuation (lineMarker p) head).length = head.length := by
  have hle := h.length_le
  rw [continuation, List.length_append, List.length_replicate]
  omega

end Lines

/-! ## Words -/

section Words

variable {p : Profile}

/-- A line without the marker at its start, if it has one there. -/
def unmarked (p : Profile) (line : Text) : Text := (after? (lineMarker p) line).getD line

theorem unmarked_append (t : Text) : unmarked p (lineMarker p ++ t) = t := by
  rw [unmarked, after?_append]
  rfl

/-- What stands before a tight text can only run into its first word, so it makes no difference how
the words of the text are joined. -/
theorem words_append_unwords_words {t : Text} (ht : StartsTight t) (s : Text) :
    words (s ++ unwords (words t)) = words (s ++ t) := by
  by_cases hne : t = []
  · subst hne
    rfl
  have hblank := TagLine.startsBlank_dropWhile t
  have hsplit : t = TagLine.word t ++ t.dropWhile fun c => !isBlank c :=
    (List.takeWhile_append_dropWhile).symm
  generalize t.dropWhile (fun c => !isBlank c) = rest at hblank hsplit
  have hwords : words t = TagLine.word t :: words rest := by
    conv_lhs => rw [hsplit, words_isWord_append (TagLine.isWord_word hne ht) hblank]
  have hrhs : words (s ++ t) = words (s ++ TagLine.word t) ++ words rest := by
    conv_lhs => rw [hsplit, ← List.append_assoc, words_append_of_startsBlank hblank]
  rw [hwords, hrhs]
  by_cases hrest : words rest = []
  · rw [hrest, unwords_singleton, List.append_nil]
  · have hspace : StartsBlank (' ' :: unwords (words rest)) := startsBlank_cons.mpr (by decide)
    rw [unwords_cons hrest, ← List.append_assoc, words_append_of_startsBlank hspace,
      words_cons_of_blank (by decide), words_unwords fun w hw => isWord_of_mem_words hw]

/-- Words behind the first ones are words of their own. -/
theorem words_append_unwords_append {first more : List Text} (hfirst : first ≠ [])
    (hmore : ∀ w ∈ more, IsWord w) (s : Text) :
    words (s ++ unwords (first ++ more)) = words (s ++ unwords first) ++ more := by
  by_cases hne : more = []
  · rw [hne, List.append_nil, List.append_nil]
  · have hspace : StartsBlank (' ' :: unwords more) := startsBlank_cons.mpr (by decide)
    rw [unwords_append hfirst hne, ← List.append_assoc, words_append_of_startsBlank hspace,
      words_cons_of_blank (by decide), words_unwords hmore]

/-- Breaking one line keeps its words. -/
theorem words_wrapLine (hmarker : EndsTight (lineMarker p)) (width : Nat) (line : Text) :
    (wrapLine p width line).flatMap (fun l => words (unmarked p l)) = words (unmarked p line) := by
  rcases wrapLine_cases hmarker width line with
    ⟨hwrap, -⟩ | ⟨head, hflow, hwrap⟩ | ⟨head, text, first, more, hflow, hbreak, hwrap⟩
  · rw [hwrap, List.flatMap_singleton]
  · obtain ⟨lead, s, rfl, rfl, -, hs, hlead⟩ := exists_of_flowing? hflow
    have hnone : unmarked p (lineMarker p) = [] := by simpa using unmarked_append (p := p) []
    have hblanks : Blanks (lead ++ s) := blanks_append.mpr ⟨hlead rfl, hs⟩
    rw [hwrap, List.flatMap_singleton, hnone, List.append_nil, List.append_assoc, unmarked_append]
    simpa using (words_blanks_append hblanks []).symm
  · obtain ⟨lead, s, rfl, rfl, htight, hs, -⟩ := exists_of_flowing? hflow
    have hflatten : first ++ more.flatten = words text := hbreak.flatten_eq
    have hword : ∀ row ∈ first :: more, ∀ w ∈ row, IsWord w := by
      intro row hrow w hw
      have hmem : w ∈ (first :: more).flatten := List.mem_flatten.mpr ⟨row, hrow, hw⟩
      rw [hbreak.flatten_eq] at hmem
      exact isWord_of_mem_words hmem
    have hrows : more.flatMap (fun row => words (unmarked p
        (continuation (lineMarker p) (lineMarker p ++ lead) ++ unwords row))) = more.flatten := by
      rw [← List.flatMap_id']
      apply List.flatMap_congr
      intro row hrow
      rw [continuation, List.append_assoc, unmarked_append,
        words_blanks_append (blanks_replicate _)]
      exact words_unwords (hword row (List.mem_cons_of_mem _ hrow))
    have hmore : ∀ w ∈ more.flatten, IsWord w := by
      intro w hw
      obtain ⟨row, hrow, hwrow⟩ := List.mem_flatten.mp hw
      exact hword row (List.mem_cons_of_mem _ hrow) w hwrow
    rw [hwrap, List.flatMap_cons, List.flatMap_map, hrows]
    calc words (unmarked p (lineMarker p ++ lead ++ unwords first)) ++ more.flatten
        = words (lead ++ unwords first) ++ more.flatten := by
          rw [List.append_assoc, unmarked_append]
      _ = words (lead ++ unwords (words text)) := by
          rw [← hflatten, words_append_unwords_append (hbreak.ne_nil first List.mem_cons_self) hmore]
      _ = words (lead ++ text) := words_append_unwords_words htight lead
      _ = words (unmarked p (lineMarker p ++ lead ++ text ++ s)) := by
          rw [List.append_assoc (lineMarker p), List.append_assoc (lineMarker p), unmarked_append,
            words_append_blanks hs]

/-- **Breaking lines keeps every word.**  Each line becomes a group of lines, and the words of the
group, markers aside, are the words of the line in their order. -/
theorem wrap_conserves_words (language : Language) (config : Config) (width : Nat)
    (lines : List Text) :
    ∃ groups : List (List Text), wrap (Profile.of language config) width lines = groups.flatten ∧
      List.Forall₂ (fun line group => group ≠ [] ∧
        group.flatMap (fun l => words (unmarked (Profile.of language config) l)) =
          words (unmarked (Profile.of language config) line)) lines groups := by
  refine ⟨lines.map (wrapLine (Profile.of language config) width), List.flatMap_def, ?_⟩
  rw [List.forall₂_map_right_iff, List.forall₂_same]
  intro line _
  exact ⟨wrapLine_ne_nil _ _ _, words_wrapLine (endsTight_lineMarker language config) width line⟩

end Words

/-! ## Widths and columns -/

section Arranged

variable {p : Profile} {width : Nat} {line : Text}

/-- The lines that one line becomes, each with the flowing words that stand on it. -/
structure Arranged (p : Profile) (width : Nat) (line : Text) (group : List (Text × List Text)) :
    Prop where
  ne_nil : group ≠ []
  /-- The flowing words are distributed over the lines in order. -/
  flowing : group.flatMap Prod.snd = flowingWords p line
  /-- A line that is too wide is a delimiter, a line without the marker, a tag line without a
  description, or a line with at most one flowing word. -/
  wide : ∀ l ∈ group, width < l.1.length → isDelimiter p l.1 = true ∨ ¬ lineMarker p <+: l.1 ∨
    isBareTag p l.1 = true ∨ l.2.length ≤ 1
  /-- Where a line is broken, its first flowing word stands behind the head, and the words of each
  further line start at the same column, behind the marker and spaces. -/
  aligned : ∀ first more, group = first :: more → more ≠ [] →
    ∃ head text, flowing? p line = some (head, text) ∧ first.2 ≠ [] ∧
      first.1 = head ++ unwords first.2 ∧
      ∀ l ∈ more, l.2 ≠ [] ∧ ∃ n, (lineMarker p).length + n = head.length ∧
        l.1 = lineMarker p ++ List.replicate n ' ' ++ unwords l.2

/-- One line with all the flowing words. -/
theorem arranged_singleton {l : Text} (hwide : width < l.length → isDelimiter p l = true ∨
      ¬ lineMarker p <+: l ∨ isBareTag p l = true ∨ (flowingWords p line).length ≤ 1) :
    Arranged p width line [(l, flowingWords p line)] where
  ne_nil := List.cons_ne_nil _ _
  flowing := List.flatMap_singleton _ _
  wide m hm := by
    obtain rfl := List.mem_singleton.mp hm
    exact hwide
  aligned _ _ heq hmore := absurd (List.cons.inj heq).2.symm hmore

/-- The lines that a line is broken into are arranged. -/
theorem exists_arranged (hmarker : EndsTight (lineMarker p)) (width : Nat) (line : Text) :
    ∃ group, wrapLine p width line = group.map Prod.fst ∧ Arranged p width line group := by
  rcases wrapLine_cases hmarker width line with
    ⟨hwrap, hkept⟩ | ⟨head, hflow, hwrap⟩ | ⟨head, text, first, more, hflow, hbreak, hwrap⟩
  · refine ⟨[(line, _)], hwrap, arranged_singleton fun hwide => ?_⟩
    rcases hkept with hle | hdelim | hnone
    · exact absurd hle (Nat.not_le_of_lt hwide)
    · exact Or.inl hdelim
    · exact Or.inr ((not_isPrefix_or_isBareTag hnone).imp_right Or.inl)
  · refine ⟨[(lineMarker p, _)], hwrap, arranged_singleton fun _ => ?_⟩
    rw [flowingWords_of_flowing? hflow]
    exact Or.inr (Or.inr (Or.inr (Nat.zero_le 1)))
  · obtain ⟨lead, -, hhead, -⟩ := exists_of_flowing? hflow
    have hprefix : lineMarker p <+: head := hhead ▸ List.prefix_append _ _
    have hfits : ∀ row ∈ first :: more, width < head.length + (unwords row).length →
        row.length ≤ 1 := by
      intro row hrow hwide
      rw [length_unwords] at hwide
      rcases hbreak.fits row hrow with hone | hle
      · exact hone.le
      · omega
    refine ⟨(head ++ unwords first, first) ::
      more.map (fun row => (continuation (lineMarker p) head ++ unwords row, row)), ?_,
      List.cons_ne_nil _ _, ?_, ?_, ?_⟩
    · rw [hwrap, List.map_cons, List.map_map]
      rfl
    · rw [flowingWords_of_flowing? hflow, ← hbreak.flatten_eq, List.flatMap_cons,
        List.flatMap_map, List.flatten_cons]
      exact congrArg _ List.flatMap_id'
    · intro l hl hwide
      refine Or.inr (Or.inr (Or.inr ?_))
      rcases List.mem_cons.mp hl with rfl | hl
      · rw [List.length_append] at hwide
        exact hfits first List.mem_cons_self hwide
      · obtain ⟨row, hrow, rfl⟩ := List.mem_map.mp hl
        rw [List.length_append, length_continuation hprefix] at hwide
        exact hfits row (List.mem_cons_of_mem _ hrow) hwide
    · intro l rest heq _
      obtain ⟨rfl, rfl⟩ := List.cons.inj heq
      refine ⟨head, text, hflow, hbreak.ne_nil first List.mem_cons_self, rfl, ?_⟩
      intro l hl
      obtain ⟨row, hrow, rfl⟩ := List.mem_map.mp hl
      have hle := hprefix.length_le
      exact ⟨hbreak.ne_nil row (List.mem_cons_of_mem _ hrow), _, by omega, rfl⟩

/-- **Broken lines fit and line up.**  Each line becomes a group of lines over which its flowing
words are distributed.  A line that is too wide could not be broken, and the words of all lines of
a group start at one column. -/
theorem exists_arranged_wrap (language : Language) (config : Config) (width : Nat)
    (lines : List Text) :
    ∃ groups : List (List (Text × List Text)),
      wrap (Profile.of language config) width lines = groups.flatten.map Prod.fst ∧
      List.Forall₂ (Arranged (Profile.of language config) width) lines groups := by
  choose group hwrap harranged using
    exists_arranged (endsTight_lineMarker language config) width
  refine ⟨lines.map group, ?_, ?_⟩
  · rw [wrap, List.map_flatten, List.map_map, List.flatMap_def]
    exact congrArg List.flatten (List.map_congr_left fun line _ => hwrap line)
  · rw [List.forall₂_map_right_iff, List.forall₂_same]
    exact fun line _ => harranged line

end Arranged

end DocComment.Reflow
