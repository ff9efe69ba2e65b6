import DocComment.Proofs.Reading.Heredity
import DocComment.Proofs.Reformat

/-!
# A reformatted comment is one comment

If a comment has its closer at the end at most, no content of it holds the closer, and what no
content holds no line of the new layout holds.  The new lines are therefore found as a single range,
and the closer stands at their end and nowhere else (`ofText_unlines_reformat`).
-/

namespace DocComment

open Text Reading Table Ranges

/-! ## The closer in a comment -/

section Contents

variable {d : Delimiters} {w : Text}

/-- A line that ends in the closer at most has a content without it. -/
theorem Reading.free_lineContent {closer : Text} (hc : d.closer = some closer)
    (hw : trim closer ≠ []) (isFirst : Bool) {line : Text}
    (h : OnlyAtEnd (trim closer) (trim line)) :
    Free (trim closer) (lineContent d isFirst line) := by
  have hopened : (if isFirst then (after? d.opener (trim line)).getD (trim line)
      else trim line) <:+ trim line := by
    split
    · exact getD_after?_isSuffix _ _
    · exact List.suffix_rfl
  have hend := h.of_isSuffix hopened
  simp only [lineContent, hc]
  generalize (if isFirst then (after? d.opener (trim line)).getD (trim line)
    else trim line) = u at hend
  have hcut : Free (trim closer) ((before? (trim closer) u).getD u) := by
    cases hbefore : before? (trim closer) u with
    | none => exact hend.free (not_isSuffix_of_before? hbefore)
    | some rest =>
      rw [eq_append_of_before? hbefore] at hend
      exact hend.free_left hw
  have hstart := (trimStart_isInfix _).trans (trimEnd_isInfix ((before? (trim closer) u).getD u))
  exact hcut.of_isInfix (((trim_isInfix _).trans (getD_after?_isSuffix _ _).isInfix).trans hstart)

/-- Each line of a comment ends in the closer at most. -/
theorem Text.onlyAtEnd_trim_of_mem_lines (hw : IsWord w) {raw line : Text}
    (h : OnlyAtEnd w (trim raw)) (hline : line ∈ lines raw) : OnlyAtEnd w (trim line) := by
  intro before after heq
  obtain ⟨u, v, hraw⟩ := (trim_isInfix line).trans (isInfix_of_mem_lines.1 line hline)
  have htrim : trim raw = trimStart (u ++ before) ++ w ++ trimEnd (after ++ v) := by
    rw [← trim_append_word hw, ← hraw, heq]
    simp only [List.append_assoc]
  have hblanks := blanks_append.mp (trimEnd_eq_nil_iff.mp (h _ _ htrim))
  by_contra hne
  have htight : EndsTight after := by
    rw [← endsTight_append hne, ← heq]
    exact endsTight_trim line
  have hnil := trimEnd_of_blanks hblanks.1
  rw [trimEnd_of_endsTight htight] at hnil
  exact hne hnil

theorem Reading.free_of_mem_contents {closer : Text} (hc : d.closer = some closer)
    (hw : IsWord (trim closer)) {raw c : Text} (h : OnlyAtEnd (trim closer) (trim raw))
    (hmem : c ∈ contents d raw) : Free (trim closer) c := by
  unfold contents at hmem
  split at hmem
  · cases hmem
  · next first rest hlines =>
    have hline : ∀ isFirst, ∀ line ∈ first :: rest,
        Free (trim closer) (lineContent d isFirst line) := fun isFirst line hl =>
      free_lineContent hc hw.1 isFirst (onlyAtEnd_trim_of_mem_lines hw h (hlines ▸ hl))
    rcases List.mem_cons.mp hmem with rfl | hmem
    · exact hline true first List.mem_cons_self
    · obtain ⟨line, hl, rfl⟩ := List.mem_map.mp hmem
      exact hline false line (List.mem_cons_of_mem _ hl)

end Contents

/-! ## The lines of the new layout -/

section Lines

variable {p : Profile} {d : Delimiters} {options : LayoutOptions} {b : Block}

/-- What the rows hold, every line between the delimiters holds. -/
theorem Text.Hereditary.of_mem_flatMap_rowLines {P : Text → Prop} (hP : Hereditary P)
    (hdash : P ['-']) (hp : p.Framed d) (hmarker : P d.marker)
    (hplain : options.asSnippet = false) (hrows : ∀ row ∈ b.rows, row.Holds p P) {l : Text}
    (h : l ∈ (separate options.emptyLines b.rows).flatMap (rowLines p d options b.rows)) :
    P l ∧ MarkedLine d l ∧ EndsTight l := by
  obtain ⟨row, hrow, hl⟩ := List.mem_flatMap.mp h
  have hholds : row.Holds p P := by
    rcases mem_separate hrow with hmem | rfl
    · exact hrows row hmem
    · trivial
  obtain ⟨hP, hmarked⟩ := hP.of_mem_rowLines hdash hp hmarker hplain hholds hl
  exact ⟨hP, hmarked, endsTight_of_mem_rowLines hp.delimiters hl⟩

theorem flatMap_rowLines_ne_nil (hne : b.rows ≠ []) :
    (separate options.emptyLines b.rows).flatMap (rowLines p d options b.rows) ≠ [] := by
  obtain ⟨row, rows, hb⟩ := List.exists_cons_of_ne_nil hne
  have hmem : row ∈ separate options.emptyLines b.rows := by simp [hb, separate]
  rw [Ne, List.flatMap_eq_nil_iff]
  exact fun hnil => rowLines_ne_nil p d options b.rows row (hnil row hmem)

end Lines

/-- A file that is nothing but one comment. -/
theorem Ranges.ofText_of_isComment {p : Profile} {d : Delimiters} (hd : p.delimiters? = some d)
    {ls : List Text} (hlines : lines (unlines ls) = ls) (h : IsComment d ls) :
    ofText p (unlines ls) = [⟨0, ls.length⟩] := by
  have hplain : ∀ after, IsPlain d after [] := by
    intro after
    unfold IsPlain
    cases d.closer with
    | some closer => exact uncommented_nil
    | none => exact ⟨List.isChain_nil, nofun⟩
  have hcut : WellCut d [([], ls)] [] := ⟨hplain false, h, hplain true⟩
  rw [ofText_of_wellCut hd (by rw [hlines]; simp [joined]) hcut]
  simp [rangesOf]

/-! ## The new comment -/

section Reformatted

variable {language : Language} {config : Config} {width : Nat} {comment : Text}
  {formatted : List Text}

/-- The lines are tight marker lines between the delimiters. -/
theorem exists_markedLines_of_reformatIn
    (h : reformatIn language config width comment = some formatted) :
    ∃ d ls, (Profile.of language config).delimiters? = some d ∧ ls ≠ [] ∧
      (∀ l ∈ ls, MarkedLine d l ∧ EndsTight l ∧ OneLine l) ∧
      (OnlyAtEnd "*/" (trim comment) → d.closer.isSome = true → ∀ l ∈ ls, Free "*/" l) ∧
      formatted = (d.opener :: ls ++ d.closer.toList).map (indentOf comment ++ ·) := by
  obtain ⟨d, b, hd, hb, rfl⟩ := exists_of_reformatIn h
  have hp := Profile.framed_of hd
  have hone : ∀ c ∈ contents d comment, OneLine c := by
    intro c hc
    rcases isLine_of_mem_contents hc with rfl | hline
    · exact List.not_mem_nil
    · exact hline.oneLine
  have hrows := hereditary_oneLine.block? hd hone hb
  rw [format_eq_rowLines hp.delimiters hp.opener_delimiter hp.closer_delimiter]
  refine ⟨d, _, hd, ?_, ?_, ?_, rfl⟩
  · exact flatMap_rowLines_ne_nil (normal_of_block? hd hb).ne_nil
  · intro l hl
    obtain ⟨hone, hmarked, htight⟩ := hereditary_oneLine.of_mem_flatMap_rowLines (by decide) hp
      hp.oneLine_marker rfl hrows hl
    exact ⟨hmarked, htight, hone⟩
  · intro hcomment hsome l hl
    obtain ⟨closer, hc⟩ := Option.isSome_iff_exists.mp hsome
    have hword : IsWord "*/".toList := by decide
    obtain ⟨-, hmarker, hcloser⟩ := Profile.closer_of hd
    have htrim : trim closer = "*/".toList := by
      rw [hcloser closer hc]
      decide
    have hfree := hereditary_free hword
    have hcontents : ∀ c ∈ contents d comment, Free "*/" c := by
      intro c hmem
      rw [← htrim] at hcomment hword ⊢
      exact free_of_mem_contents hc hword hcomment hmem
    exact (hfree.of_mem_flatMap_rowLines (by decide) hp hmarker rfl
      (hfree.block? hd hcontents hb) hl).1

theorem isLine_of_mem_frame {p : Profile} {d : Delimiters} (hp : p.Framed d) {ls : List Text}
    (hls : ∀ l ∈ ls, MarkedLine d l ∧ EndsTight l ∧ OneLine l) {line : Text}
    (h : line ∈ d.opener :: ls ++ d.closer.toList) :
    line ≠ [] ∧ EndsTight line ∧ OneLine line := by
  rw [List.mem_append, List.mem_cons] at h
  rcases h with (rfl | h) | h
  · exact ⟨hp.opener_line.ne_nil, hp.opener_line.endsTight, hp.opener_line.oneLine⟩
  · obtain ⟨hmarked, htight⟩ := hls line h
    obtain ⟨s, m, hmarker, -, -⟩ := hp.marker
    refine ⟨?_, htight⟩
    rcases hmarked with rfl | ⟨t, rfl⟩ <;> simp [hmarker]
  · exact hp.closer_line line (by simpa using h)

/-- **Reformatting gives one closed comment.**  If the closer stands in a comment at its end at
most, the new lines are found as a single comment, and in a dialect with a closer it stands at their
end and nowhere else. -/
theorem ofText_unlines_reformat {lang : Text} (hlang : config.language? lang = some language)
    (hcomment : OnlyAtEnd "*/" (trim comment))
    (h : reformat config lang width comment = some formatted) :
    Ranges.ofText (Profile.of language config) (unlines formatted) = [⟨0, formatted.length⟩] ∧
      ∀ d ∈ (Profile.of language config).delimiters?, d.closer.isSome = true →
        "*/".toList <:+ unlines formatted ∧ OnlyAtEnd "*/" (unlines formatted) := by
  rw [reformat, hlang, Option.bind_some] at h
  obtain ⟨d, ls, hd, hne, hmarked, hfree, rfl⟩ := exists_markedLines_of_reformatIn h
  have hp := Profile.framed_of hd
  have hindent := (isIndent_indentOf comment).blanks
  have hone := (isIndent_indentOf comment).oneLine
  constructor
  · have htight : ∀ l ∈ (d.opener :: ls ++ d.closer.toList).map (indentOf comment ++ ·),
        l ≠ [] ∧ EndsTight l ∧ OneLine l := by
      intro l hl
      obtain ⟨line, hline, rfl⟩ := List.mem_map.mp hl
      obtain ⟨hne, hend, hline⟩ := isLine_of_mem_frame hp hmarked hline
      exact ⟨by simp [hne], (endsTight_append hne).mpr hend, oneLine_append hone hline⟩
    have hlines := (rejoins_of_endsTight (by simp) htight false).lines_unlines
    rw [lineFeed, if_neg Bool.false_ne_true, List.append_nil] at hlines
    refine Ranges.ofText_of_isComment hd hlines (isComment_of_markedLines hp hne
      (fun l hl => ⟨(hmarked l hl).1, (hmarked l hl).2.1⟩) ?_ hindent)
    intro l hl closer hc hsuffix
    rw [(Profile.closer_of hd).2.2 closer hc] at hsuffix
    have hinfix : "*/".toList <:+: l := List.IsInfix.trans (by decide) hsuffix.isInfix
    exact hfree hcomment (Option.isSome_of_mem hc) l hl hinfix
  · intro d' hd' hsome
    obtain rfl : d = d' := Option.some.inj (hd.symm.trans hd')
    obtain ⟨closer, hc⟩ := Option.isSome_iff_exists.mp hsome
    obtain ⟨hopener, -, hcloser⟩ := Profile.closer_of hd
    obtain rfl := hcloser closer hc
    have hword : IsWord "*/".toList := by decide
    have hfirst : ∀ l ∈ (d.opener :: ls).map (indentOf comment ++ ·), Free "*/" l := by
      intro l hl
      obtain ⟨line, hline, rfl⟩ := List.mem_map.mp hl
      refine free_blanks_append hword hindent ?_
      rcases List.mem_cons.mp hline with rfl | hline
      · exact hopener
      · exact hfree hcomment hsome line hline
    have hlast : OnlyAtEnd "*/" " */" := (onlyAtEnd_iff hword.1).mpr (by decide)
    rw [hc, Option.toList_some, List.map_append, List.map_singleton]
    refine ⟨?_, onlyAtEnd_unlines hword hfirst (hlast.blanks_append hword hindent)⟩
    have hend : "*/".toList <:+ indentOf comment ++ " */".toList :=
      List.IsSuffix.trans (by decide) (List.suffix_append _ _)
    exact hend.trans (isSuffix_unlines _ _)

end Reformatted

/-- A comment whose words, broken anew, start lines with a slash right after the marker. -/
def slashComment : Text :=
  unlines ["  /** Looks in /etc and /usr.", "   * @param  path where",
    "   * /tmp is kept / removed */"]

theorem ofText_unlines_reformat_slashComment :
    ({} : Config).language? "java" = some .java ∧ OnlyAtEnd "*/" (trim slashComment) ∧
      ∃ formatted, reformat {} "java" 26 slashComment = some formatted ∧
        formatted = ["  /**", "   * Looks in /etc and", "   * /usr.", "   *",
          "   * @param path where", "   *             /tmp is", "   *             kept /",
          "   *             removed", "   */"].map String.toList ∧
        Ranges.ofText (Profile.of .java {}) (unlines formatted) = [⟨0, 9⟩] ∧
        "*/".toList <:+ unlines formatted ∧ OnlyAtEnd "*/" (unlines formatted) := by
  have hlang : ({} : Config).language? "java" = some .java := by decide
  have hcomment : OnlyAtEnd "*/" (trim slashComment) :=
    (onlyAtEnd_iff (by decide)).mpr (by decide +kernel)
  have hformatted : reformat {} "java" 26 slashComment = some (["  /**", "   * Looks in /etc and",
      "   * /usr.", "   *", "   * @param path where", "   *             /tmp is",
      "   *             kept /", "   *             removed", "   */"].map String.toList) := by
    decide +kernel
  obtain ⟨hranges, hclosed⟩ := ofText_unlines_reformat hlang hcomment hformatted
  obtain ⟨hend, honly⟩ := hclosed .javadoc rfl rfl
  exact ⟨hlang, hcomment, _, hformatted, rfl, hranges, hend, honly⟩

end DocComment
