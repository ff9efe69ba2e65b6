import DocComment.Proofs.TagLine.Split
import DocComment.Proofs.Text.Lines
import DocComment.Reflow

/-!
# What re-flowing does to a line

Packing distributes the words of a line over several lines and loses none (`exists_pack`).  Words
that fit stay on one line, so a line that was re-flowed once is re-flowed to itself.  A comment line
is a marker, blanks and a body; which part of the body is re-flowed depends on whether it starts
with a tag, and there is one equation for each case.  In every case a line stays as it is or its
last words flow (`wrapLine_eq_singleton_or_flow`), which is all that statements about its parts
need.
-/

namespace DocComment.Reflow

open Text

/-! ## Packing -/

/-- Filling a line keeps all words in their order. -/
theorem flatten_fill (width column used : Nat) (ws : List Text) :
    (fill width column used ws).1 ++ (fill width column used ws).2.flatten = ws := by
  induction ws generalizing used with
  | nil => rfl
  | cons w ws ih =>
    rw [fill]
    split
    · have hrest := ih (column + w.length)
      simp [hrest]
    · have hrest := ih (used + 1 + w.length)
      simp [hrest]

/-- No further line is empty. -/
theorem ne_nil_of_mem_fill {width column used : Nat} {ws line : List Text}
    (h : line ∈ (fill width column used ws).2) : line ≠ [] := by
  induction ws generalizing used with
  | nil => cases h
  | cons w ws ih =>
    rw [fill] at h
    split at h
    · rcases List.mem_cons.mp h with rfl | h
      · exact List.cons_ne_nil _ _
      · exact ih h
    · exact ih h

/-- Packing cuts the words into lines, none of them empty. -/
theorem exists_pack (width column : Nat) {ws : List Text} (hws : ws ≠ []) :
    ∃ first more, pack width column ws = first :: more ∧ first ≠ [] ∧
      (∀ line ∈ more, line ≠ []) ∧ first ++ more.flatten = ws := by
  obtain ⟨w, ws, rfl⟩ := List.exists_cons_of_ne_nil hws
  refine ⟨w :: (fill width column (column + w.length) ws).1,
    (fill width column (column + w.length) ws).2, rfl, List.cons_ne_nil _ _,
    fun line hline => ne_nil_of_mem_fill hline, ?_⟩
  rw [List.cons_append, flatten_fill]

/-- The room that words take, each after a space. -/
def extent : List Text → Nat
  | [] => 0
  | w :: ws => 1 + w.length + extent ws

/-- Words that fit are all put into the line. -/
theorem fill_of_fits {width column used : Nat} {ws : List Text}
    (h : used + extent ws ≤ width) :
    fill width column used ws = (ws, []) := by
  induction ws generalizing used with
  | nil => rfl
  | cons w ws ih =>
    rw [extent] at h
    have hhead : ¬ width < used + 1 + w.length := by omega
    have hrest : fill width column (used + 1 + w.length) ws = (ws, []) := ih (by omega)
    rw [fill, if_neg hhead, hrest]

/-- Joined words are as long as the first and the extent of the others. -/
theorem length_unwords_cons (w : Text) (ws : List Text) :
    (unwords (w :: ws)).length = w.length + extent ws := by
  induction ws generalizing w with
  | nil => simp [extent]
  | cons v ws ih =>
    have hrest := ih v
    rw [unwords_cons (List.cons_ne_nil v ws), List.length_append, List.length_cons, hrest, extent]
    omega

/-- Words that fit stay together. -/
theorem pack_of_fits {width column : Nat} {ws : List Text} (hws : ws ≠ [])
    (h : column + (unwords ws).length ≤ width) : pack width column ws = [ws] := by
  obtain ⟨w, ws, rfl⟩ := List.exists_cons_of_ne_nil hws
  rw [length_unwords_cons] at h
  rw [pack, fill_of_fits (by omega)]

/-- Lines that are cut off after a line are filled as they were. -/
theorem fill_of_append {width column used : Nat} {ws line : List Text} {above below : List (List Text)}
    (h : fill width column used ws = (line, above ++ below)) :
    fill width column used (line ++ above.flatten) = (line, above) ∧
      (below ≠ [] → pack width column below.flatten = below) := by
  induction ws generalizing used line above with
  | nil =>
    obtain ⟨rfl, hnil⟩ := Prod.mk.inj h
    obtain ⟨rfl, rfl⟩ := List.append_eq_nil_iff.mp hnil.symm
    exact ⟨rfl, fun hbelow => absurd rfl hbelow⟩
  | cons w ws ih =>
    have hflatten := flatten_fill width column (column + w.length) ws
    rw [fill] at h
    split at h
    · next hwide =>
      obtain ⟨rfl, hlines⟩ := Prod.mk.inj h
      cases above with
      | nil =>
        refine ⟨rfl, fun _ => ?_⟩
        rw [List.nil_append] at hlines
        rw [← hlines, List.flatten_cons, List.cons_append, hflatten]
        rfl
      | cons first above =>
        obtain ⟨rfl, hmore⟩ := List.cons.inj hlines
        obtain ⟨habove, hbelow⟩ := ih (Prod.ext rfl hmore)
        refine ⟨?_, hbelow⟩
        rw [List.nil_append, List.flatten_cons, List.cons_append, fill, if_pos hwide, habove]
    · next hwide =>
      obtain ⟨rfl, hmore⟩ := Prod.mk.inj h
      obtain ⟨habove, hbelow⟩ := ih (Prod.ext rfl hmore)
      refine ⟨?_, hbelow⟩
      rw [List.cons_append, fill, if_neg hwide, habove]

/-- The words of some of the lines, the first or the last ones, are packed into these lines. -/
theorem pack_of_append {width column : Nat} {ws : List Text} {above below : List (List Text)}
    (h : pack width column ws = above ++ below) (habove : above ≠ []) (hbelow : below ≠ []) :
    pack width column above.flatten = above ∧ pack width column below.flatten = below := by
  obtain ⟨first, above, rfl⟩ := List.exists_cons_of_ne_nil habove
  cases ws with
  | nil =>
    obtain ⟨-, hnil⟩ := List.cons.inj h
    exact absurd (List.append_eq_nil_iff.mp hnil.symm).2 hbelow
  | cons w ws =>
    obtain ⟨rfl, hmore⟩ := List.cons.inj h
    obtain ⟨hfirst, hlast⟩ := fill_of_append (Prod.ext rfl hmore)
    refine ⟨?_, hlast hbelow⟩
    rw [List.flatten_cons, List.cons_append, pack, hfirst]

/-! ## Lines -/

section Flow

variable {marker head : Text} {width : Nat} {ws : List Text}

/-- What stands before the words of a further line. -/
def continuation (marker head : Text) : Text :=
  marker ++ List.replicate (head.length - marker.length) ' '

/-- Joined words have no blanks at their end to trim. -/
theorem trimEnd_append_unwords (s : Text) (hne : ws ≠ []) (hws : ∀ w ∈ ws, IsWord w) :
    trimEnd (s ++ unwords ws) = s ++ unwords ws :=
  trimEnd_of_endsTight ((endsTight_append (unwords_ne_nil hne hws)).mpr (endsTight_unwords hws))

/-- **Flowing cuts the words into lines.**  The head stands before the first line and its room
before the others. -/
theorem exists_flow (marker head : Text) (width : Nat) (hne : ws ≠ [])
    (hws : ∀ w ∈ ws, IsWord w) :
    ∃ first more, pack width head.length ws = first :: more ∧ first ≠ [] ∧
      (∀ line ∈ more, line ≠ []) ∧ first ++ more.flatten = ws ∧
      flow marker head width ws = (head ++ unwords first) ::
        more.map fun line => continuation marker head ++ unwords line := by
  obtain ⟨first, more, hpack, hfirst, hmore, hflatten⟩ := exists_pack width head.length hne
  refine ⟨first, more, hpack, hfirst, hmore, hflatten, ?_⟩
  have hwords : ∀ line ∈ first :: more, ∀ w ∈ line, IsWord w := by
    intro line hline w hw
    apply hws
    rw [← hflatten]
    exact (List.sublist_flatten_of_mem hline).subset hw
  simp only [flow, hpack]
  rw [trimEnd_append_unwords _ hfirst (hwords first List.mem_cons_self)]
  congr 1
  apply List.map_congr_left
  intro line hline
  exact trimEnd_append_unwords _ (hmore line hline) (hwords line (List.mem_cons_of_mem _ hline))

/-- Behind a head that further lines repeat, all lines are alike. -/
theorem flow_eq_map (hhead : continuation marker head = head) (hne : ws ≠ [])
    (hws : ∀ w ∈ ws, IsWord w) :
    flow marker head width ws =
      (pack width head.length ws).map fun line => head ++ unwords line := by
  obtain ⟨first, more, hpack, -, -, -, hlines⟩ := exists_flow marker head width hne hws
  rw [hlines, hpack, hhead, List.map_cons]

/-- Words that fit behind the head are one line. -/
theorem flow_of_fits (hne : ws ≠ []) (hws : ∀ w ∈ ws, IsWord w)
    (h : (head ++ unwords ws).length ≤ width) :
    flow marker head width ws = [head ++ unwords ws] := by
  rw [List.length_append] at h
  simp only [flow, pack_of_fits hne h, List.map_nil]
  rw [trimEnd_append_unwords head hne hws]

end Flow

section WrapLine

variable {p : Profile} {d : Delimiters} {width : Nat}

/-- The marker of a line is that of the delimiters. -/
theorem lineMarker_of_delimiters? (h : p.delimiters? = some d) : lineMarker p = d.marker := by
  unfold Profile.delimiters? at h
  unfold lineMarker
  split at h
  · next hdialect =>
    rw [hdialect]
    cases h
    rfl
  · cases h

/-- A line that is not too wide is left alone. -/
theorem wrapLine_of_le {line : Text} (h : line.length ≤ width) :
    wrapLine p width line = [line] := by
  simp [wrapLine, h]

/-- The first and the last line of a comment are left alone. -/
theorem wrapLine_of_isDelimiter {line : Text} (h : isDelimiter p line = true) :
    wrapLine p width line = [line] := by
  simp [wrapLine, h]

/-- The blanks in front of a text that starts tight are its indentation. -/
theorem takeWhile_isBlank_append {s body : Text} (hs : Blanks s) (hbody : StartsTight body) :
    (s ++ body).takeWhile isBlank = s := by
  rw [List.takeWhile_append_of_pos hs]
  cases body with
  | nil => simp
  | cons c body => simp [startsTight_cons.mp hbody]

section TooWide

variable {s body : Text} (h : p.delimiters? = some d) (hs : Blanks s) (hbody : StartsTight body)
  (hwide : width < (d.marker ++ (s ++ body)).length)
  (hdelim : isDelimiter p (d.marker ++ (s ++ body)) = false)

include h hs hbody hwide hdelim

/-- A line of free text is re-flowed as a whole. -/
theorem wrapLine_of_text (hline : TagLine.ofText? p body = none) :
    wrapLine p width (d.marker ++ (s ++ body)) =
      flow d.marker (d.marker ++ s) width (words body) := by
  have hlong : ¬ (d.marker ++ (s ++ body)).length ≤ width := by omega
  rw [wrapLine, if_neg (by simpa [hdelim] using hlong)]
  simp only [lineMarker_of_delimiters? h, after?_append, takeWhile_isBlank_append hs hbody,
    trimStart_append_of_blanks hs, trimStart_of_startsTight hbody, hline]

/-- The description of a tag line is re-flowed after the columns before it. -/
theorem wrapLine_of_description {tagLine : TagLine} {description : Text}
    (hline : TagLine.ofText? p body = some tagLine)
    (hdescription : tagLine.description = some description) :
    wrapLine p width (d.marker ++ (s ++ body)) =
      flow d.marker (d.marker ++ s ++ tagLine.lead) width (words description) := by
  have hlong : ¬ (d.marker ++ (s ++ body)).length ≤ width := by omega
  rw [wrapLine, if_neg (by simpa [hdelim] using hlong)]
  simp only [lineMarker_of_delimiters? h, after?_append, takeWhile_isBlank_append hs hbody,
    trimStart_append_of_blanks hs, trimStart_of_startsTight hbody, hline, hdescription]

end TooWide

/-- A tag line without a description stays as it is. -/
theorem wrapLine_of_no_description (h : p.delimiters? = some d) {s body : Text} (hs : Blanks s)
    (hbody : StartsTight body) {tagLine : TagLine} (hline : TagLine.ofText? p body = some tagLine)
    (hdescription : tagLine.description = none) :
    wrapLine p width (d.marker ++ (s ++ body)) = [d.marker ++ (s ++ body)] := by
  rw [wrapLine]
  split
  · rfl
  · simp only [lineMarker_of_delimiters? h, after?_append, trimStart_append_of_blanks hs,
      trimStart_of_startsTight hbody, hline, hdescription]

/-- A line that is nothing but a marker stays as it is. -/
theorem wrapLine_marker (h : p.delimiters? = some d) (hmarker : EndsTight d.marker) :
    wrapLine p width d.marker = [d.marker] := by
  have hafter : after? d.marker d.marker = some [] := after?_eq_some_iff.mpr (by simp)
  have hnone : TagLine.ofText? p [] = none := by simp [TagLine.ofText?]
  rw [wrapLine]
  split
  · rfl
  · simp [lineMarker_of_delimiters? h, hafter, trimStart, hnone, flow, pack,
      trimEnd_of_endsTight hmarker]

/-- Flowing words give a line. -/
theorem flow_ne_nil (marker head : Text) (width : Nat) (ws : List Text) :
    flow marker head width ws ≠ [] := by
  unfold flow
  cases ws <;> exact List.cons_ne_nil _ _

/-- Wrapping a line gives a line. -/
theorem wrapLine_ne_nil (p : Profile) (width : Nat) (line : Text) :
    wrapLine p width line ≠ [] := by
  unfold wrapLine
  simp only
  split
  · exact List.cons_ne_nil _ _
  · split
    · exact List.cons_ne_nil _ _
    · split
      · exact flow_ne_nil _ _ _ _
      · split
        · exact List.cons_ne_nil _ _
        · exact flow_ne_nil _ _ _ _

/-! ## The shape of the lines -/

/-- The head of a line stands in front of its first words, and further words in front of its
room. -/
theorem cases_of_mem_flow {marker head l : Text} {ws : List Text}
    (h : l ∈ flow marker head width ws) :
    (∃ first, first <+: ws ∧ l = trimEnd (head ++ unwords first)) ∨
      ∃ more, more ⊆ ws ∧ l = trimEnd (continuation marker head ++ unwords more) := by
  by_cases hne : ws = []
  · subst hne
    refine Or.inl ⟨[], List.prefix_rfl, ?_⟩
    simpa [flow, pack] using h
  · obtain ⟨first, more, hpack, -, -, hflatten⟩ := exists_pack width head.length hne
    simp only [flow, hpack] at h
    rcases List.mem_cons.mp h with rfl | h
    · exact Or.inl ⟨first, ⟨_, hflatten⟩, rfl⟩
    · obtain ⟨line, hline, rfl⟩ := List.mem_map.mp h
      have hsubset := (List.sublist_flatten_of_mem (List.mem_cons_of_mem first hline)).subset
      rw [List.flatten_cons, hflatten] at hsubset
      exact Or.inr ⟨line, hsubset, rfl⟩

/-- **What a comment line becomes.**  It stays as it is, or the words behind a beginning of it
flow. -/
theorem wrapLine_eq_singleton_or_flow (hd : p.delimiters? = some d) (width : Nat) (line : Text) :
    wrapLine p width line = [line] ∨
      ∃ lead rest, line = d.marker ++ (lead ++ rest) ∧ StartsTight rest ∧
        wrapLine p width line = flow d.marker (d.marker ++ lead) width (words rest) := by
  unfold wrapLine
  simp only [lineMarker_of_delimiters? hd]
  split
  · exact Or.inl rfl
  · split
    · exact Or.inl rfl
    · next content hcontent =>
      obtain rfl := eq_append_of_after? hcontent
      have hsplit : content = content.takeWhile isBlank ++ trimStart content :=
        (List.takeWhile_append_dropWhile).symm
      split
      · exact Or.inr ⟨_, _, congrArg _ hsplit, startsTight_trimStart content, rfl⟩
      · next tagLine htagLine =>
        obtain ⟨rest, hbody, htight, hdescription⟩ := TagLine.exists_rest_of_ofText? htagLine
        split
        · exact Or.inl rfl
        · next description hsome =>
          rw [hdescription] at hsome
          obtain ⟨rfl, -⟩ := TagLine.eq_of_nonempty? hsome
          refine Or.inr ⟨content.takeWhile isBlank ++ tagLine.lead, rest, ?_, htight, ?_⟩
          · rw [List.append_assoc, ← hbody, ← hsplit]
          · rw [words_trimEnd, List.append_assoc]

/-- A line that comes of a comment line is that line, or words behind a beginning of it. -/
theorem exists_of_mem_wrapLine (hd : p.delimiters? = some d) {line l : Text}
    (h : l ∈ wrapLine p width line) :
    l = line ∨ ∃ head vs, head <+: line ∧ d.marker <+: head ∧ (∀ v ∈ vs, IsWord v) ∧
      (l = trimEnd (head ++ unwords vs) ∨
        l = trimEnd (continuation d.marker head ++ unwords vs)) := by
  rcases wrapLine_eq_singleton_or_flow hd width line with hwrap | ⟨lead, rest, rfl, -, hwrap⟩
  · rw [hwrap] at h
    exact Or.inl (List.mem_singleton.mp h)
  · rw [hwrap] at h
    have hhead : d.marker ++ lead <+: d.marker ++ (lead ++ rest) := by
      rw [← List.append_assoc]
      exact List.prefix_append _ _
    rcases cases_of_mem_flow h with ⟨first, hfirst, rfl⟩ | ⟨more, hmore, rfl⟩
    · exact Or.inr ⟨_, first, hhead, List.prefix_append _ _,
        fun v hv => isWord_of_mem_words (hfirst.subset hv), Or.inl rfl⟩
    · exact Or.inr ⟨_, more, hhead, List.prefix_append _ _,
        fun v hv => isWord_of_mem_words (hmore hv), Or.inr rfl⟩

section Mem

variable (hd : p.delimiters? = some d) {line l : Text} (h : l ∈ wrapLine p width line)

include hd h

/-- The lines that a tight line is broken into end tight. -/
theorem endsTight_of_mem_wrapLine (hline : EndsTight line) : EndsTight l := by
  rcases exists_of_mem_wrapLine hd h with rfl | ⟨head, vs, -, -, -, rfl | rfl⟩
  · exact hline
  · exact endsTight_trimEnd _
  · exact endsTight_trimEnd _

/-- The lines that a line is broken into are single lines. -/
theorem oneLine_of_mem_wrapLine (hline : OneLine line) (hmarker : OneLine d.marker) :
    OneLine l := by
  -- A line feed is blank, so it stands in no word.
  have hwords : ∀ (s : Text) (vs : List Text), OneLine s → (∀ v ∈ vs, IsWord v) →
      OneLine (s ++ unwords vs) := by
    intro s vs hs hvs hmem
    rcases List.mem_append.mp hmem with hmem | hmem
    · exact hs hmem
    · rcases mem_unwords hmem with hspace | ⟨v, hv, hc⟩
      · exact absurd hspace (by decide)
      · exact absurd ((hvs v hv).2 _ hc) (by decide)
  rcases exists_of_mem_wrapLine hd h with rfl | ⟨head, vs, hhead, -, hvs, rfl | rfl⟩
  · exact hline
  · exact oneLine_trimEnd (hwords head vs (fun hmem => hline (hhead.subset hmem)) hvs)
  · refine oneLine_trimEnd (hwords _ vs (fun hmem => ?_) hvs)
    rcases List.mem_append.mp hmem with hmem | hmem
    · exact hmarker hmem
    · exact absurd (List.mem_replicate.mp hmem).2 (by decide)

/-- The lines that a line is broken into start with the marker if it does. -/
theorem marker_isPrefix_of_mem_wrapLine (hmarker : EndsTight d.marker)
    (hline : d.marker <+: line) : d.marker <+: l := by
  rcases exists_of_mem_wrapLine hd h with rfl | ⟨head, vs, -, hhead, -, rfl | rfl⟩
  · exact hline
  · exact isPrefix_trimEnd hmarker (hhead.trans (List.prefix_append _ _))
  · refine isPrefix_trimEnd hmarker ?_
    rw [continuation, List.append_assoc]
    exact List.prefix_append _ _

end Mem

end WrapLine

end DocComment.Reflow
