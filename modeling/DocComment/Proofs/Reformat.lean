import DocComment.Proofs.Ranges
import DocComment.Proofs.Reading.Sentence
import DocComment.Proofs.Text.Indent
import DocComment.Reformat

/-!
# Reformatting twice

A comment whose block is settled is reformatted into lines that are a comment again, and reformatting
these gives the same lines (`reformatIn_again`).  Since a file is cut at its comments, the same holds
of the file (`reformatsOnce_of_settled`).
-/

namespace DocComment

open Text TagLine Reading Table Ranges

/-! ## The lines of a laid out block are a comment -/

section Comment

variable {p : Profile} {d : Delimiters} {options : LayoutOptions} {b : Block} {indent : Text}

/-- The indentation of an opener can be trimmed off. -/
theorem trim_opener (hp : p.Framed d) (hindent : Blanks indent) :
    trim (indent ++ d.opener) = d.opener := by
  rw [trim_append_of_blanks hindent,
    trim_of_tight hp.opener_line.startsTight hp.opener_line.endsTight]

/-- A marker line, whatever it is indented by. -/
theorem MarkedLine.trim_append {line : Text} (h : MarkedLine d line) (htight : EndsTight line)
    (hindent : Blanks indent) :
    trim (indent ++ line) <:+ line ∧ ∃ t, trim (indent ++ line) = trim (d.marker ++ t) := by
  rw [trim_append_of_blanks hindent]
  constructor
  · rw [← trimStart_trimEnd, trimEnd_of_endsTight htight]
    exact List.dropWhile_suffix _
  · rcases h with rfl | ⟨t, rfl⟩
    · exact ⟨[], by rw [List.append_nil]⟩
    · exact ⟨' ' :: t, rfl⟩

/-- Marker lines and the closer after them. -/
theorem body_of_markedLines (hp : p.Framed d) {closer : Text} (hc : d.closer = some closer)
    (hindent : Blanks indent) {ls : List Text}
    (hls : ∀ line ∈ ls, MarkedLine d line ∧ EndsTight line ∧ ¬ trim closer <:+ line) :
    Body d.opener (trim closer) (ls.map (indent ++ ·) ++ [indent ++ closer]) := by
  obtain ⟨hmarker, hcloser⟩ := hp.marker_not_opener closer hc
  induction ls with
  | nil =>
    refine .last ?_ ?_
    · rw [opens, trim_append_of_blanks hindent, ← Bool.not_eq_true, List.isPrefixOf_iff_prefix]
      exact hcloser
    · rw [closes, List.isSuffixOf_iff_suffix]
      exact ⟨[], by rw [List.nil_append, trim_append_of_blanks hindent]⟩
  | cons line ls ih =>
    obtain ⟨hmarked, htight, hopen⟩ := hls line List.mem_cons_self
    obtain ⟨hsuffix, t, ht⟩ := hmarked.trim_append htight hindent
    refine .cons ?_ ?_ (ih fun l hl => hls l (List.mem_cons_of_mem _ hl))
    · rw [opens, ← Bool.not_eq_true, List.isPrefixOf_iff_prefix, ht]
      exact hmarker t
    · rw [closes, ← Bool.not_eq_true, List.isSuffixOf_iff_suffix]
      exact fun h => hopen (h.trans hsuffix)

/-- A marked line goes on with its comment behind any indentation. -/
theorem continues_of_markedLine (hp : p.Framed d) (hindent : Blanks indent) {line : Text}
    (hline : MarkedLine d line) : continues d.opener (trim d.marker) (indent ++ line) = true := by
  have hdelimiter : Reflow.isDelimiter p line = false := by
    rcases hline with rfl | ⟨t, rfl⟩
    · exact hp.marker_not_delimiter
    · exact hp.not_delimiter t
  have hopener : trim line ≠ d.opener := by
    intro heq
    have htrim := trim_of_tight hp.opener_line.startsTight hp.opener_line.endsTight
    simp [Reflow.isDelimiter, hp.delimiters, heq, htrim] at hdelimiter
  have hmarker : trim d.marker <+: trim line := by
    obtain ⟨s, m, hm, hs, hblank⟩ := hp.marker
    obtain ⟨t, rfl⟩ : d.marker <+: line := by
      rcases hline with rfl | ⟨t, rfl⟩
      · exact List.prefix_rfl
      · exact List.prefix_append _ _
    rw [hm, List.append_assoc, List.singleton_append, trim_marker_append hblank hs.blanks,
      trim_marker_append hblank hs.blanks]
    exact ⟨trimEnd t, rfl⟩
  rw [continues, trim_append_of_blanks hindent, List.isPrefixOf_iff_prefix.mpr hmarker]
  simpa using hopener

/-- Marker lines between the delimiters are a comment, if none of them closes it. -/
theorem isComment_of_markedLines (hp : p.Framed d) {ls : List Text} (hne : ls ≠ [])
    (hls : ∀ line ∈ ls, MarkedLine d line ∧ EndsTight line)
    (hopen : ∀ line ∈ ls, ∀ closer ∈ d.closer, ¬ trim closer <:+ line)
    (hindent : Blanks indent) :
    IsComment d ((d.opener :: ls ++ d.closer.toList).map (indent ++ ·)) := by
  unfold IsComment
  cases hc : d.closer with
  | some closer =>
    simp only [Option.toList_some, List.cons_append, List.map_cons, List.map_append, List.map_nil]
    refine .block ?_ ?_ (body_of_markedLines hp hc hindent fun line hline =>
      ⟨(hls line hline).1, (hls line hline).2, hopen line hline closer hc⟩)
    · rw [opens, List.isPrefixOf_iff_prefix]
      exact ⟨[], by rw [List.append_nil, trim_opener hp hindent]⟩
    · simp [closesAtOnce, trim_opener hp hindent]
  | none =>
    simp only [Option.toList_none, List.append_nil, List.map_cons]
    refine ⟨_, _, rfl, trim_opener hp hindent, by simpa using hne, ?_⟩
    intro line hline
    obtain ⟨line, hmem, rfl⟩ := List.mem_map.mp hline
    exact continues_of_markedLine hp hindent (hls line hmem).1

/-- **A block is laid out as a comment**, if no line of its rows closes it. -/
theorem isComment_format (hp : p.Framed d) (hplain : options.asSnippet = false)
    (hne : b.rows ≠ []) (hlegible : ∀ row ∈ b.rows, row.Legible p)
    (hopen : ∀ row ∈ b.rows, Unclosed p d options b.rows row) (hindent : Blanks indent) :
    IsComment d ((b.format p options).map (indent ++ ·)) := by
  have hrows : ∀ row ∈ separate options.emptyLines b.rows,
      row.Legible p ∧ Unclosed p d options b.rows row := by
    intro row hrow
    rcases mem_separate hrow with hmem | rfl
    · exact ⟨hlegible row hmem, hopen row hmem⟩
    · exact ⟨trivial, (clearLines_blank hp).no_closer⟩
  rw [format_eq_rowLines hp.delimiters hp.opener_delimiter hp.closer_delimiter]
  refine isComment_of_markedLines hp ?_ ?_ ?_ hindent
  · obtain ⟨row, rows, hb⟩ := List.exists_cons_of_ne_nil hne
    have hmem : row ∈ separate options.emptyLines b.rows := by simp [hb, separate]
    obtain ⟨hnonempty, -⟩ := (hrows row hmem).1.rowLines_shape b.rows hp hplain
    rw [Ne, List.flatMap_eq_nil_iff]
    exact fun hnil => hnonempty (hnil row hmem)
  · intro line hline
    obtain ⟨row, hrow, hmem⟩ := List.mem_flatMap.mp hline
    exact ⟨((hrows row hrow).1.rowLines_shape b.rows hp hplain).2 line hmem,
      endsTight_of_mem_rowLines hp.delimiters hmem⟩
  · intro line hline closer hcloser
    obtain ⟨row, hrow, hmem⟩ := List.mem_flatMap.mp hline
    exact (hrows row hrow).2 line hmem closer hcloser

end Comment

/-! ## One comment -/

/-- The options under which a comment with the given indentation is laid out. -/
def reformatOptions (p : Profile) (config : Config) (width : Nat) (indent : Text) :
    LayoutOptions :=
  { LayoutOptions.of p config false with width := some (width - indent.length) }

/-- What is read from a comment, if anything, is settled. -/
def SettledComment (language : Language) (config : Config) (width : Nat) (comment : Text) : Prop :=
  ∀ d ∈ (Profile.of language config).delimiters?,
    ∀ b ∈ block? (Profile.of language config) comment, b.Settled (Profile.of language config) d
      (reformatOptions (Profile.of language config) config width (indentOf comment))

instance (language : Language) (config : Config) (width : Nat) (comment : Text) :
    Decidable (SettledComment language config width comment) :=
  inferInstanceAs (Decidable (∀ d ∈ _, ∀ b ∈ block? _ comment, _))

section Once

variable {language : Language} {config : Config} {width : Nat} {comment : Text}
  {formatted : List Text}

/-- A comment is re-flowed if it can be read, and then to the lines of its block behind its
indentation. -/
theorem exists_of_reformatIn (h : reformatIn language config width comment = some formatted) :
    ∃ d b, (Profile.of language config).delimiters? = some d ∧
      block? (Profile.of language config) comment = some b ∧
      formatted = (b.format (Profile.of language config)
        (reformatOptions (Profile.of language config) config width (indentOf comment))).map
          (indentOf comment ++ ·) := by
  obtain ⟨b, hb, rfl⟩ := Option.map_eq_some_iff.mp h
  cases hd : (Profile.of language config).delimiters? with
  | none =>
    rw [block?, hd] at hb
    cases hb
  | some d => exact ⟨d, b, rfl, hb, rfl⟩

/-- The indentation of a comment is spaces and tabs. -/
theorem isIndent_indentOf (comment : Text) : IsIndent (indentOf comment) := by
  intro c hc
  unfold indentOf at hc
  have hindent := List.mem_takeWhile_imp hc
  simpa using hindent

/-- The indentation of a comment that was laid out is the one it was laid out with. -/
theorem indentOf_unlines {ls : List Text} {indent opener : Text}
    (hlines : lines (unlines ls) = ls) (hhead : ls.head? = some (indent ++ opener))
    (hindent : IsIndent indent) (hopener : StartsTight opener) :
    indentOf (unlines ls) = indent := by
  have hnone : opener.takeWhile (fun c => c == ' ' || c == '\t') = [] := by
    cases opener with
    | nil => rfl
    | cons c opener =>
      have hc := startsTight_cons.mp hopener
      have hspace : c ≠ ' ' := by
        rintro rfl
        exact absurd hc (by decide)
      have htab : c ≠ '\t' := by
        rintro rfl
        exact absurd hc (by decide)
      simp [hspace, htab]
  rw [indentOf, hlines, hhead, Option.getD_some, hindent.takeWhile_append, hnone, List.append_nil]

/-- What is settled is laid out as tight lines that are a comment. -/
theorem isComment_of_reformatIn (h : reformatIn language config width comment = some formatted)
    (hsettled : SettledComment language config width comment) :
    (∀ l ∈ formatted, l ≠ [] ∧ EndsTight l ∧ OneLine l) ∧
      ∀ d, (Profile.of language config).delimiters? = some d → IsComment d formatted := by
  obtain ⟨d, b, hd, hb, rfl⟩ := exists_of_reformatIn h
  have hp := Profile.framed_of hd
  have hnormal := normal_of_block? hd hb
  have hblock := hsettled d hd b hb
  have hlegible := hnormal.legible hp hblock
  have hindent := isIndent_indentOf comment
  refine ⟨isLine_of_mem_indented hp rfl hlegible hindent.oneLine, ?_⟩
  intro d' hd'
  obtain rfl : d = d' := Option.some.inj (hd.symm.trans hd')
  exact isComment_format hp rfl hnormal.ne_nil hlegible
    (fun row hrow => (hblock.clear row hrow).no_closer) hindent.blanks

/-- **Reformatting a settled comment twice is reformatting it once.** -/
theorem reformatIn_again (h : reformatIn language config width comment = some formatted)
    (hsettled : SettledComment language config width comment) :
    reformatIn language config width (unlines formatted) = some formatted := by
  obtain ⟨d, b, hd, hb, rfl⟩ := exists_of_reformatIn h
  have hp := Profile.framed_of hd
  have hnormal := normal_of_block? hd hb
  have hblock := hsettled d hd b hb
  have hindent := isIndent_indentOf comment
  have hone := hindent.oneLine
  generalize hoptions : reformatOptions (Profile.of language config) config width
    (indentOf comment) = options at hblock ⊢
  have hplain : options.asSnippet = false := by rw [← hoptions]; rfl
  -- The lines are those of a block whose first sentence is whole, and this is what is read.
  obtain ⟨b, hnormal, hblock, hwhole, hformat⟩ := exists_whole hp hplain hnormal hblock
  rw [← hformat]
  have hlegible := hnormal.legible hp hblock
  have hsameIndent : indentOf (unlines ((b.format (Profile.of language config) options).map
      (indentOf comment ++ ·))) = indentOf comment := by
    have hhead : ((b.format (Profile.of language config) options).map
        (indentOf comment ++ ·)).head? = some (indentOf comment ++ d.opener) := by
      rw [format_eq_rowLines hp.delimiters hp.opener_delimiter hp.closer_delimiter]
      rfl
    exact indentOf_unlines (lines_unlines_format hp hplain hlegible hone) hhead
      hindent hp.opener_line.startsTight
  have hread := block?_format_of_settled hp hplain hnormal hblock hwhole hindent.blanks hone
  unfold reformatIn
  simp only [hsameIndent, hread, Option.map_some]
  have hsame := format_of_shown hp hplain hlegible
  unfold reformatOptions at hoptions
  rw [hoptions, hsame]

end Once

/-! ## A whole file -/

/-- The lines of a comment after it is reformatted; they stay when it is not. -/
def reformatLines (language : Language) (config : Config) (width : Nat) (comment : List Text) :
    List Text :=
  (reformatIn language config width (unlines comment)).getD comment

/-- A cut file with every comment reformatted. -/
def reformatParts (language : Language) (config : Config) (width : Nat)
    (parts : List (List Text × List Text)) : List (List Text × List Text) :=
  parts.map fun part => (part.1, reformatLines language config width part.2)

section File

variable {language : Language} {config : Config} {width : Nat}

/-- The lines of a range are those between its ends. -/
theorem drop_take_append (before comment rest : List Text) :
    ((before ++ (comment ++ rest)).take (before.length + comment.length)).drop before.length =
      comment := by
  rw [List.take_length_add_append, List.drop_left, List.take_left]

/-- Re-flowing a range leaves the lines before and behind it alone. -/
theorem reformatRange_append (language : Language) (config : Config) (width : Nat)
    (before comment rest : List Text) :
    reformatRange language config width ⟨before.length, before.length + comment.length⟩
        (before ++ (comment ++ rest)) =
      before ++ (reformatLines language config width comment ++ rest) := by
  have hafter : (before ++ (comment ++ rest)).drop (before.length + comment.length) = rest := by
    rw [← List.append_assoc, ← List.length_append, List.drop_left]
  unfold reformatRange reformatLines
  simp only [drop_take_append]
  cases reformatIn language config width (unlines comment) with
  | none => rfl
  | some formatted =>
    simp only [Option.getD_some, List.take_left, hafter, List.append_assoc]

/-- Reformatting the ranges of a cut file from the last to the first. -/
theorem foldr_reformatRange (language : Language) (config : Config) (width : Nat)
    (before : List Text) (parts : List (List Text × List Text)) (tail : List Text) :
    (rangesOf before.length parts).foldr (reformatRange language config width)
        (before ++ joined parts tail) =
      before ++ joined (reformatParts language config width parts) tail := by
  induction parts generalizing before with
  | nil => rfl
  | cons part parts ih =>
    obtain ⟨plain, comment⟩ := part
    have hlines : before ++ joined ((plain, comment) :: parts) tail =
        before ++ plain ++ comment ++ joined parts tail := by
      simp [joined_cons]
    have hlater := ih (before ++ plain ++ comment)
    have hrange := reformatRange_append language config width (before ++ plain) comment
      (joined (reformatParts language config width parts) tail)
    simp only [List.length_append] at hlater hrange
    rw [rangesOf, List.foldr_cons, hlines, hlater, List.append_assoc (before ++ plain), hrange]
    simp [reformatParts, joined_cons]

/-- Each comment of a cut file is in one of its ranges. -/
theorem exists_mem_rangesOf (before : List Text) {parts : List (List Text × List Text)}
    (tail : List Text) {part : List Text × List Text} (h : part ∈ parts) :
    ∃ range ∈ rangesOf before.length parts,
      ((before ++ joined parts tail).take range.stop).drop range.start = part.2 := by
  induction parts generalizing before with
  | nil => cases h
  | cons first parts ih =>
    obtain ⟨plain, comment⟩ := first
    have hlines : before ++ joined ((plain, comment) :: parts) tail =
        before ++ plain ++ (comment ++ joined parts tail) := by
      simp [joined_cons]
    rw [hlines]
    rcases List.mem_cons.mp h with rfl | h
    · have hdrop := drop_take_append (before ++ plain) comment (joined parts tail)
      rw [List.length_append] at hdrop
      exact ⟨_, List.mem_cons_self, hdrop⟩
    · obtain ⟨range, hrange, hdrop⟩ := ih (before ++ plain ++ comment) h
      simp only [List.length_append] at hrange
      refine ⟨range, List.mem_cons_of_mem _ hrange, ?_⟩
      rwa [List.append_assoc (before ++ plain)] at hdrop

/-- A settled comment that was re-flowed is left alone. -/
theorem reformatLines_again {comment : List Text}
    (hsettled : SettledComment language config width (unlines comment)) :
    reformatLines language config width (reformatLines language config width comment) =
      reformatLines language config width comment := by
  cases h : reformatIn language config width (unlines comment) with
  | none => simp only [reformatLines, h, Option.getD_none]
  | some formatted =>
    simp only [reformatLines, h, Option.getD_some, reformatIn_again h hsettled]

/-- A settled comment that was re-flowed is a comment again. -/
theorem isComment_reformatLines {d : Delimiters}
    (hd : (Profile.of language config).delimiters? = some d) {comment : List Text}
    (hcomment : IsComment d comment)
    (hsettled : SettledComment language config width (unlines comment)) :
    IsComment d (reformatLines language config width comment) := by
  unfold reformatLines
  cases h : reformatIn language config width (unlines comment) with
  | none => exact hcomment
  | some formatted => exact (isComment_of_reformatIn h hsettled).2 d hd

/-- Reformatting comments keeps lines apart. -/
theorem rejoins_reformatParts {d : Delimiters}
    (hd : (Profile.of language config).delimiters? = some d) {ended : Bool} (before : List Text)
    {parts : List (List Text × List Text)} {tail : List Text}
    (hparts : ∀ part ∈ parts, IsComment d part.2 ∧
      SettledComment language config width (unlines part.2))
    (h : Rejoins ended (before ++ joined parts tail)) :
    Rejoins ended (before ++ joined (reformatParts language config width parts) tail) := by
  induction parts generalizing before with
  | nil => exact h
  | cons part parts ih =>
    obtain ⟨plain, comment⟩ := part
    obtain ⟨hcomment, hsettled⟩ := hparts _ List.mem_cons_self
    have hnew := isComment_reformatLines hd hcomment hsettled
    rw [joined_cons, ← List.append_assoc] at h
    have hexchanged : Rejoins ended (before ++ plain ++
        (reformatLines language config width comment ++ joined parts tail)) := by
      unfold reformatLines at hnew ⊢
      cases hreformat : reformatIn language config width (unlines comment) with
      | none => exact h
      | some formatted =>
        rw [hreformat] at hnew
        exact h.exchange hcomment.ne_nil hnew.ne_nil (isComment_of_reformatIn hreformat hsettled).1
    rw [← List.append_assoc] at hexchanged
    have hrest := ih (before ++ plain ++ reformatLines language config width comment)
      (fun q hq => hparts q (List.mem_cons_of_mem _ hq)) hexchanged
    simpa [reformatParts, joined_cons] using hrest

/-- Whatever is read from a comment of a file is settled. -/
def SettledText (language : Language) (config : Config) (width : Nat) (text : Text) : Prop :=
  ∀ range ∈ Ranges.ofText (Profile.of language config) text,
    SettledComment language config width
      (unlines (((lines text).take range.stop).drop range.start))

instance (language : Language) (config : Config) (width : Nat) (text : Text) :
    Decidable (SettledText language config width text) :=
  inferInstanceAs (Decidable (∀ range ∈ _, _))

/-- A file is re-flowed comment by comment, however it is cut at them. -/
theorem reformatAllIn_of_wellCut (width : Nat) {d : Delimiters}
    (hd : (Profile.of language config).delimiters? = some d) {text : Text}
    {parts : List (List Text × List Text)} {tail : List Text}
    (hlines : lines text = joined parts tail) (hcut : WellCut d parts tail) :
    reformatAllIn language config width text =
      unlines (joined (reformatParts language config width parts) tail) ++
        lineFeed (text.getLast? == some '\n') := by
  have hfold := foldr_reformatRange language config width [] parts tail
  rw [reformatAllIn, ofText_of_wellCut hd hlines hcut, hlines]
  simp only [List.length_nil, List.nil_append] at hfold
  rw [hfold]
  rfl

/-- A settled file that was re-flowed is left alone. -/
theorem reformatAllIn_again {text : Text} (hreturns : ¬ "\r\r\n".toList <:+: text)
    (hsettled : SettledText language config width text) :
    reformatAllIn language config width (reformatAllIn language config width text) =
      reformatAllIn language config width text := by
  have hrejoins := rejoins_lines hreturns
  cases hd : (Profile.of language config).delimiters? with
  | none =>
    -- Without delimiters there are no comments, and the lines are put together again.
    have hnone : ∀ t : Text, reformatAllIn language config width t =
        unlines (lines t) ++ lineFeed (t.getLast? == some '\n') := by
      intro t
      simp only [reformatAllIn, Ranges.ofText, hd]
      rfl
    rw [hnone text, hnone, hrejoins.lines_unlines, hrejoins.getLast?_eq]
  | some d =>
    obtain ⟨parts, tail, hlines, hcut⟩ := exists_wellCut d (lines text)
    have hparts : ∀ part ∈ parts, IsComment d part.2 ∧
        SettledComment language config width (unlines part.2) := by
      intro part hpart
      refine ⟨hcut.isComment part hpart, ?_⟩
      obtain ⟨range, hrange, hdrop⟩ := exists_mem_rangesOf [] tail hpart
      have hrange' := hsettled range (by rwa [ofText_of_wellCut hd hlines hcut])
      rwa [hlines, ← List.nil_append (joined parts tail), hdrop] at hrange'
    have hcut' : WellCut d (reformatParts language config width parts) tail :=
      Separated.map hcut fun part hpart =>
        isComment_reformatLines hd (hparts part hpart).1 (hparts part hpart).2
    rw [hlines] at hrejoins
    have hrejoins' := rejoins_reformatParts hd [] hparts hrejoins
    have hagain : reformatParts language config width (reformatParts language config width parts) =
        reformatParts language config width parts := by
      simp only [reformatParts, List.map_map]
      apply List.map_congr_left
      intro part hpart
      simp only [Function.comp, reformatLines_again (hparts part hpart).2]
    have hfirst := reformatAllIn_of_wellCut width hd hlines hcut
    have hsecond := reformatAllIn_of_wellCut width hd hrejoins'.lines_unlines hcut'
    rw [hagain, hrejoins'.getLast?_eq] at hsecond
    rw [hfirst]
    exact hsecond

end File

/-- Whether reformatting a file twice is reformatting it once. -/
def ReformatsOnce (config : Config) (lang : Text) (width : Nat) (text : Text) : Prop :=
  ∀ formatted ∈ reformatAll config lang width text,
    reformatAll config lang width formatted = some formatted

instance (config : Config) (lang : Text) (width : Nat) (text : Text) :
    Decidable (ReformatsOnce config lang width text) :=
  inferInstanceAs (Decidable (∀ formatted ∈ _, _))

/-- **The formatter is idempotent** on files whose comments are settled and in which no line feed
has two carriage returns before it. -/
theorem reformatsOnce_of_settled {config : Config} {lang : Text} {width : Nat} {text : Text}
    (hreturns : ¬ "\r\r\n".toList <:+: text)
    (hsettled : ∀ language ∈ config.language? lang, SettledText language config width text) :
    ReformatsOnce config lang width text := by
  intro formatted h
  obtain ⟨language, hlanguage, rfl⟩ := Option.map_eq_some_iff.mp h
  rw [reformatAll, hlanguage, Option.map_some,
    reformatAllIn_again hreturns (hsettled language hlanguage)]

/-- A file in which a sentence ends where its line is broken, and a table needs more room than there
is. -/
def sumFile : Text :=
  unlines ["/**", " * Sums up. Takes all", " * values", " *",
    " * @param \x7b\x7ba: b\x7d | c\x7d v   the input", " * @returns \x7bT\x7d - the sum", " */",
    "function sum(v) \x7b\x7d"]

/-- The same file after reformatting. -/
def formattedSumFile : Text :=
  unlines ["/**", " * Sums up.", " * Takes all", " * values", " *",
    " * @param \x7b\x7ba: b\x7d | c\x7d v - the", " *                         input",
    " * @returns \x7bT\x7d the", " *              sum", " */", "function sum(v) \x7b\x7d"]

theorem reformatAll_formattedSumFile :
    reformatAll {} "javascript" 16 sumFile = some formattedSumFile ∧
      SettledText .javascript {} 16 sumFile ∧
      reformatAll {} "javascript" 16 formattedSumFile = some formattedSumFile := by
  have hformat : reformatAll {} "javascript" 16 sumFile = some formattedSumFile := by
    decide +kernel
  have hsettled : SettledText .javascript {} 16 sumFile := by decide +kernel
  have honce : ReformatsOnce {} "javascript" 16 sumFile := by
    refine reformatsOnce_of_settled (by decide +kernel) fun language hlanguage => ?_
    obtain rfl : .javascript = language := Option.some.inj hlanguage
    exact hsettled
  exact ⟨hformat, hsettled, honce formattedSumFile hformat⟩

/-- Not all files are reformatted once and for all.  A first sentence that is broken after a period
becomes two rows, with an empty line between them or with the text after them; a line that starts
with a tag starts a row; a line that ends in the closer ends the comment; a dash, a name or a type
that a description starts with is taken off it; a name can be taken for a dash; and of two carriage
returns one is left. -/
theorem not_reformatsOnce :
    (¬ ReformatsOnce {} "java" 12 (unlines ["/**", " * Adds. Never fails", " */"]) ∧
      ¬ ReformatsOnce {} "javascript" 12
        (unlines ["/**", " * Adds. Safe.", " * Yes", " */"])) ∧
    (¬ ReformatsOnce {} "javascript" 14 (unlines ["/**", " * Sums like @param x y", " */"]) ∧
      ¬ ReformatsOnce {} "javascript" 12 (unlines ["/**", " * In src/*/ only", " */"])) ∧
    (¬ ReformatsOnce {} "javascript" 80 (unlines ["/**", " * @returns - - x", " */"]) ∧
      ¬ ReformatsOnce { alignTags := 2 } "java" 80
        (unlines ["/**", " * @param - the sum", " * @param count all", " */"]) ∧
      ¬ ReformatsOnce {} "javascript" 80 (unlines ["/**", " * @returns - \x7bx\x7dy", " */"]) ∧
      ¬ ReformatsOnce {} "php" 80 (unlines ["/**", " * @param int -\tx", " */"])) ∧
    ¬ ReformatsOnce {} "javascript" 80 "a\r\r\nb" := by
  decide +kernel

end DocComment
