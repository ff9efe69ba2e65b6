import DocComment.Proofs.Profile
import DocComment.Proofs.Snippet.Layouts
import DocComment.Proofs.Synthesis.Rows

/-!
# Tab stops survive rendering in order

The tab stops of a synthesized block are numbered in the order in which a host reads them from the
rendered lines.  A table shows every synthesized row whole, and in a prose dialect the synthesized
rows already stand in the order of the sections.
-/

namespace DocComment

open Snippet

/-- The tags of a dialect mean nothing to the host. -/
structure Tags.Harmless (tags : Tags) : Prop where
  param : Snippet.Harmless tags.param
  result : Snippet.Harmless tags.result
  throws : Snippet.Harmless tags.throws
  binding : ∀ t ∈ tags.binding, Snippet.Harmless t
  yields : ∀ t ∈ tags.yields, Snippet.Harmless t
  member : ∀ t ∈ tags.member, Snippet.Harmless t
  parents : ∀ t ∈ tags.parents, Snippet.Harmless t

/-- The tags of a prose dialect: one for each section, and no others. -/
structure Tags.Sectional (tags : Tags) : Prop where
  binding : tags.binding = none
  yields : tags.yields = none
  member : tags.member = none
  parents : tags.parents = none
  param : Prose.sectionOf tags.param = .parameters
  throws : Prose.sectionOf tags.throws = .exceptions
  result : Prose.sectionOf tags.result = .result

namespace Profile

variable {language : Language} {config : Config}

theorem harmless_tags_of (language : Language) (config : Config) :
    (of language config).tags.Harmless := by
  cases language with
  | ruby => cases hruby : config.rubyStyle <;> constructor <;> simp only [of, hruby] <;> decide
  | _ => constructor <;> simp only [of] <;> decide

/-- A dialect without a frame has no type column and only tags that have a section. -/
theorem sectional_tags_of (h : (of language config).delimiters? = none) :
    (of language config).hasTypeColumn = false ∧ (of language config).tags.Sectional := by
  cases language with
  | ruby =>
    cases hruby : config.rubyStyle with
    | rdoc =>
      refine ⟨by simp [of, hruby, hasTypeColumn], ?_⟩
      constructor <;> simp only [of, hruby] <;> decide
    | yard => simp [of, hruby, delimiters?] at h
  | rust | swift => exact ⟨rfl, by constructor <;> simp only [of] <;> decide⟩
  | _ => cases h

theorem harmlessGlue_of (language : Language) (config : Config) :
    (of language config).HarmlessGlue := by
  constructor
  · rcases separator_of language config with h | h <;> rw [h] <;> decide
  · intro t
    rcases formatType_of language config with h | h | h
    · exact ⟨[], [], by decide, by decide, by simp [h]⟩
    · exact ⟨['{'], ['}'], by decide, by decide, h t⟩
    · exact ⟨['['], [']'], by decide, by decide, h t⟩

end Profile

namespace Synthesis

variable {p : Profile} {g : Grammar}

/-- A table shows every synthesized row whole. -/
theorem shownWhole_of_mem_detailRows (htags : p.tags.Harmless) {declaration : Declaration} {n : Nat}
    {r : Row} (h : r ∈ (detailRows p g declaration n).1) : r.ShownWhole p := by
  cases details_of_mem h with
  | parent htag => exact htags.parents _ htag
  | binding htag hcolumn => exact ⟨htags.binding _ htag, fun _ => hcolumn⟩
  | member htag => exact htags.member _ htag
  | argument => exact ⟨htags.param, fun h => (isSome_stopIf _ _ _).symm.trans h⟩
  | exception =>
    refine ⟨htags.throws, fun h => (isSome_stopIf _ _ _).symm.trans h⟩
  | @result c tag _ _ htype =>
    have htag : Snippet.Harmless tag := by
      rcases List.mem_cons.mp (tag_mem_of_resultType? htype) with rfl | hmem
      · exact htags.result
      · rcases List.mem_append.mp hmem with hmem | hmem
        · exact htags.binding tag (Option.mem_toList.mp hmem)
        · exact htags.yields tag (Option.mem_toList.mp hmem)
    exact ⟨htag, fun h => (isSome_stopIf _ _ _).symm.trans h⟩

/-- In a prose dialect the synthesized rows stand in the order of the sections. -/
theorem exists_sorted_detailRows (hcolumn : p.hasTypeColumn = false) (htags : p.tags.Sectional)
    (summary : Field) (declaration : Declaration) (n : Nat) :
    ∃ parameters exceptions results,
      Prose.Sorted (.text summary :: (detailRows p g declaration n).1) summary parameters exceptions
        results := by
  have hempty : (detailRows p g declaration n).1 = [] → ∃ parameters exceptions results,
      Prose.Sorted (.text summary :: (detailRows p g declaration n).1) summary parameters exceptions
        results := by
    intro h
    exact ⟨[], [], [], by simp [h], by simp, by simp, by simp, Nat.zero_le 1⟩
  cases declaration with
  | classLike name superTypes =>
    apply hempty
    change classRows p superTypes = []
    rw [classRows, htags.parents]
  | binding name declaredType initializer =>
    apply hempty
    change (bindingRows p name declaredType initializer n).1 = []
    rw [bindingRows, htags.binding]
    rfl
  | callable c =>
    obtain ⟨i, j, k, hrows⟩ := exists_callableRows_eq p g c n
    have hmember : (memberRows p c.kind n).1 = [] := by
      rw [List.eq_nil_iff_forall_not_mem]
      intro r hr
      obtain ⟨tag, htag, -⟩ := exists_of_mem_memberRows hr
      rw [htags.member] at htag
      cases htag
    refine ⟨(((c.rawArgs.map g.arguments).getD []).mapM (argumentRow p) i).1,
      ((c.throws.getD []).mapM (exceptionRow p) j).1, (resultRows p c k).1, ?_, ?_, ?_, ?_, ?_⟩
    · change _ :: (callableRows p g c n).1 = _
      rw [hrows, hmember, List.nil_append]
    · intro r hr
      obtain ⟨arg, -, i, rfl⟩ := Numbered.exists_of_mem_mapM hr
      obtain ⟨_, _, hrow⟩ := exists_argumentRow_eq p arg i
      rw [hcolumn] at hrow
      exact ⟨p.tags.param, _, _, hrow, htags.param, fun hne => absurd rfl hne⟩
    · intro r hr
      obtain ⟨exception, -, j, rfl⟩ := Numbered.exists_of_mem_mapM hr
      exact ⟨p.tags.throws, _, _, exceptionRow_of_no_column hcolumn exception j, htags.throws,
        fun _ => rfl⟩
    · intro r hr
      obtain ⟨tag, type, description, htype, -, rfl⟩ := exists_of_mem_resultRows hr
      have htag := tag_mem_of_resultType? htype
      rw [htags.binding, htags.yields] at htag
      obtain rfl : tag = p.tags.result := by simpa using htag
      rw [hcolumn]
      exact ⟨p.tags.result, none, description, rfl, htags.result, fun _ => rfl⟩
    · exact length_resultRows_le c k

/-- The lines of a synthesized block carry its stops, in every dialect. -/
theorem linesCarry_layout {language : Language} {config : Config} {declaration : Declaration}
    {b : Block} {options : LayoutOptions} (hsnippet : options.asSnippet = true)
    (h : block? (Profile.of language config) g declaration = some b) :
    LinesCarry (b.layout (Profile.of language config) options) b.indices := by
  obtain rfl := eq_of_block? h
  have hsorted : (Profile.of language config).delimiters? = none →
      ∃ parameters exceptions results,
        Prose.Sorted (.text (Field.stop (Profile.of language config).tags.summary 0).1 ::
          (detailRows (Profile.of language config) g declaration 1).1)
          (Field.stop (Profile.of language config).tags.summary 0).1 parameters exceptions
          results := by
    intro hprose
    obtain ⟨hcolumn, htags⟩ := Profile.sectional_tags_of hprose
    exact exists_sorted_detailRows hcolumn htags _ declaration 1
  unfold Block.layout
  cases hdialect : (Profile.of language config).dialect with
  | table d =>
    have hd : (Profile.of language config).delimiters? = some d := by
      rw [Profile.delimiters?, hdialect]
    have hshown : ∀ row ∈ Row.text (Field.stop (Profile.of language config).tags.summary 0).1 ::
        (detailRows (Profile.of language config) g declaration 1).1,
        row.ShownWhole (Profile.of language config) := by
      intro row hrow
      rcases List.mem_cons.mp hrow with rfl | hrow
      · trivial
      · exact shownWhole_of_mem_detailRows (Profile.harmless_tags_of language config) hrow
    have hframe : Harmless d.opener ∧ Harmless d.marker ∧ ∀ closer ∈ d.closer, Harmless closer := by
      rcases Profile.delimiters_of hd with rfl | rfl | rfl <;> decide
    exact Table.linesCarry_lines (Profile.harmlessGlue_of language config) hsnippet hframe.1
      hframe.2.1 hframe.2.2 hshown
  | rustdoc =>
    obtain ⟨_, _, _, hs⟩ := hsorted (by rw [Profile.delimiters?, hdialect])
    rw [hsnippet]
    exact hs.linesCarry_rustdocLines
  | swiftMarkup =>
    obtain ⟨_, _, _, hs⟩ := hsorted (by rw [Profile.delimiters?, hdialect])
    rw [hsnippet]
    exact hs.linesCarry_swiftLines
  | rdoc =>
    obtain ⟨_, _, _, hs⟩ := hsorted (by rw [Profile.delimiters?, hdialect])
    rw [hsnippet]
    exact hs.linesCarry_rdocLines

/-- **Tab stops survive rendering in order.**  The host reads the stops `0, 1, …` from the lines of
a synthesized block, each once and in increasing order, and as many as the block has. -/
theorem indices_format_eq_range {language : Language} {config : Config} {g : Grammar}
    {declaration : Declaration} {b : Block} (align : Nat) (emptyLines : EmptyLines)
    (h : block? (Profile.of language config) g declaration = some b) :
    Snippet.indices (Text.unlines (b.format (Profile.of language config)
        { asSnippet := true, align, emptyLines, width := none })) =
      List.range b.indices.length := by
  have hlines : LinesCarry (b.layout (Profile.of language config)
      { asSnippet := true, align, emptyLines, width := none }) b.indices := linesCarry_layout rfl h
  rw [Block.format, hlines.indices_unlines]
  exact indices_of_block? h

/-- A method with a parameter that has no name and a result whose type holds braces: seven stops on
four rows. -/
theorem indices_format_eq_range_of_member :
    ∃ b, block? (Profile.of .javascript {}) Language.javascript.grammar
        (.callable
          { name := "load", kind := .member, rawArgs := some "\x7b url \x7d",
            returnType := some "\x7b $: 1 \x7d" }) = some b ∧
      b.indices.length = 7 ∧
      Snippet.indices (Text.unlines (b.format (Profile.of .javascript {})
        { asSnippet := true, align := 2, emptyLines := .betweenGroups, width := none })) =
      List.range 7 := by
  obtain ⟨b, hb⟩ := Option.isSome_iff_exists.mp (by decide :
    (block? (Profile.of .javascript {}) Language.javascript.grammar
      (.callable
        { name := "load", kind := .member, rawArgs := some "\x7b url \x7d",
          returnType := some "\x7b $: 1 \x7d" })).isSome = true)
  have hlength : b.indices.length = 7 := by
    rw [eq_of_block? hb]
    decide +kernel
  refine ⟨b, hb, hlength, ?_⟩
  rw [indices_format_eq_range 2 .betweenGroups hb, hlength]

end Synthesis

end DocComment
