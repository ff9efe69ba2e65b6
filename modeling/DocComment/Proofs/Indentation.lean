import DocComment.Proofs.Fallback
import DocComment.Proofs.Reformat
import DocComment.Proofs.Text.Occurrence

/-!
# Indentation

Two runs are compared here, one on a text and one on the same text with an indentation in front of
every line.  Both read the same: a comment line is trimmed before its markers are taken off
(`contents_indented`), and what is taken out of a line of code begins with a slash or a quote, so
the searches for it pass over the indentation (`strip_append_of_blanks`).  Documenting is therefore
the same (`document_indented`).  Reformatting puts the indentation of the first line back and takes
it off the width, so the new one is counted once on each side (`reformat_indented`).
-/

namespace DocComment

open Text Pattern

/-! ## Existing comments -/

section Reformat

variable {s : Text}

/-- The content of a line does not depend on its indentation. -/
theorem Reading.lineContent_append_of_blanks (hs : Blanks s) (d : Delimiters) (isFirst : Bool)
    (line : Text) : lineContent d isFirst (s ++ line) = lineContent d isFirst line := by
  simp only [lineContent, trim_append_of_blanks hs]

/-- The contents of a comment do not depend on its indentation. -/
theorem Reading.contents_indented (hs : IsIndent s) (d : Delimiters) (raw : Text) :
    contents d (indented s raw) = contents d raw := by
  rw [contents, contents, lines_indented hs]
  cases lines raw with
  | nil => rfl
  | cons first rest =>
    simp only [List.map_cons, List.map_map, Function.comp_def,
      lineContent_append_of_blanks hs.blanks]

/-- An indented comment is read as the same block. -/
theorem Reading.block?_indented (hs : IsIndent s) (p : Profile) (raw : Text) :
    block? p (indented s raw) = block? p raw := by
  simp only [block?, contents_indented hs]

/-- Indenting a comment adds to the indentation it has. -/
theorem indentOf_indented (hs : IsIndent s) {comment : Text} (hne : comment ≠ []) :
    indentOf (indented s comment) = s ++ indentOf comment := by
  obtain ⟨first, rest, hlines⟩ := List.exists_cons_of_ne_nil (lines_ne_nil hne)
  rw [indentOf, indentOf, lines_indented hs, hlines]
  exact hs.takeWhile_append first

/-- **Reformatting commutes with indenting.** -/
theorem reformatIn_indented (hs : IsIndent s) (language : Language) (config : Config) (width : Nat)
    (comment : Text) :
    reformatIn language config (width + s.length) (indented s comment) =
      (reformatIn language config width comment).map (List.map (s ++ ·)) := by
  by_cases hne : comment = []
  · have hnone : ∀ width, reformatIn language config width [] = none := by
      intro width
      have hblock : Reading.block? (Profile.of language config) [] = none := by
        rw [Reading.block?]
        cases (Profile.of language config).delimiters? <;> rfl
      rw [reformatIn, hblock]
      rfl
    rw [hne, hnone]
    exact hnone _
  · have hwidth : width + s.length - (s ++ indentOf comment).length =
        width - (indentOf comment).length := by
      rw [List.length_append]
      omega
    simp only [reformatIn, Reading.block?_indented hs, indentOf_indented hs hne, hwidth,
      Option.map_map]
    congr 1
    funext block
    simp only [Function.comp_apply, List.map_map, Function.comp_def, List.append_assoc]

/-- **Reformatting commutes with indenting**, whatever the language, the settings and the width are:
an indentation in front of every line comes back in front of every line, and nothing else changes
if the width grows with it. -/
theorem reformat_indented (hs : IsIndent s) (config : Config) (lang : Text) (width : Nat)
    (comment : Text) :
    reformat config lang (width + s.length) (indented s comment) =
      (reformat config lang width comment).map (List.map (s ++ ·)) := by
  rw [reformat, reformat]
  cases config.language? lang with
  | none => rfl
  | some language => exact reformatIn_indented hs language config width comment

/-- A comment with its own indentation, a line without any and an empty line. -/
def raggedComment : Text :=
  unlines ["  /** Adds one.", "", "@param x the  value", "    to add */"]

theorem reformat_indented_raggedComment :
    IsIndent "\t " ∧
      reformat {} "java" 20 raggedComment =
        some (["  /**", "   * Adds one.", "   *", "   * @param x the", "   *          value",
          "   *          to add", "   */"].map String.toList) ∧
      reformat {} "java" 22 (indented "\t " raggedComment) =
        some (["\t   /**", "\t    * Adds one.", "\t    *", "\t    * @param x the",
          "\t    *          value", "\t    *          to add", "\t    */"].map String.toList) := by
  have hs : IsIndent "\t " := by decide
  have hplain : reformat {} "java" 20 raggedComment =
      some (["  /**", "   * Adds one.", "   *", "   * @param x the", "   *          value",
        "   *          to add", "   */"].map String.toList) := by
    decide +kernel
  have hindented := reformat_indented hs {} "java" 20 raggedComment
  rw [hplain] at hindented
  exact ⟨hs, hplain, hindented.trans (by decide +kernel)⟩

end Reformat

/-! ## Code -/

section Document

variable {s : Text}

namespace Definition

/-- Blanks in front of a line of code make no difference. -/
theorem strip_append_of_blanks (hs : Blanks s) (line : Text) : strip (s ++ line) = strip line := by
  obtain ⟨tail, hline, hboth⟩ :=
    exists_strip_append (fun c hc => isOrdinary_of_isBlank (hs c hc)) line
  rw [hboth, trim_append_of_blanks hs, hline]

/-- The definition that some lines start does not depend on their indentation. -/
theorem ofLines_map_append_of_blanks (hs : Blanks s) (ls : List Text) :
    ofLines (ls.map (s ++ ·)) = ofLines ls := by
  simp only [ofLines, List.map_map, Function.comp_def, strip_append_of_blanks hs]

end Definition

namespace Grammar

/-- Lifetimes begin with an apostrophe, so blanks in front of a line are kept. -/
theorem Rust.dropLifetimes_append_of_blanks (hs : Blanks s) (line : Text) :
    dropLifetimes (s ++ line) = s ++ dropLifetimes line := by
  have hopens : ∀ c ∈ s, lifetime.opensWith c = false := by
    intro c hc
    have hquote : c ≠ '\'' := by
      intro heq
      exact absurd (hs c hc) (by rw [heq]; decide)
    simp [lifetime, append_eq_seq, opensWith, nullable, Ne.symm hquote]
  exact replaceAll_append rfl rfl hopens (fun _ _ => rfl) line

theorem definition_map_append_of_blanks (hs : Blanks s) (language : Language) (ls : List Text) :
    language.grammar.definition (ls.map (s ++ ·)) = language.grammar.definition ls := by
  cases language with
  | rust =>
    have hdrop : (ls.map (s ++ ·)).map Rust.dropLifetimes =
        (ls.map Rust.dropLifetimes).map (s ++ ·) := by
      simp only [List.map_map, Function.comp_def, Rust.dropLifetimes_append_of_blanks hs]
    change Definition.ofLines ((ls.map (s ++ ·)).map Rust.dropLifetimes) = _
    rw [hdrop]
    exact Definition.ofLines_map_append_of_blanks hs _
  | javascript | typescript | php | java | cpp | objc | swift | ruby =>
    exact Definition.ofLines_map_append_of_blanks hs ls

end Grammar

/-- Whether a bare comment is called for does not depend on the indentation. -/
theorem needsFallback_indented (hs : IsIndent s) (text : Text) :
    needsFallback (indented s text) = needsFallback text := by
  have hempty : (trim (indented s text)).isEmpty = (trim text).isEmpty := by
    rw [Bool.eq_iff_iff, List.isEmpty_iff, List.isEmpty_iff]
    exact trim_indented_eq_nil_iff hs.blanks text
  have hcomment : opensAnyComment (trim (indented s text)) = opensAnyComment (trim text) := by
    have hopens : ∀ opener : Text, OneLine opener → EndsTight opener →
        (after? opener (trim (indented s text))).isSome = (after? opener (trim text)).isSome := by
      intro opener hone htight
      rw [Bool.eq_iff_iff, isSome_after?_iff, isSome_after?_iff]
      exact isPrefix_trim_indented_iff hs.blanks hone htight text
    simp only [opensAnyComment, List.any_cons, List.any_nil]
    rw [hopens _ (by decide) (by decide), hopens _ (by decide) (by decide),
      hopens _ (by decide) (by decide)]
  have hgap : opensWithGap (indented s text) = opensWithGap text := by
    rw [opensWithGap, opensWithGap, lines_indented hs]
    rcases lines text with _ | ⟨first, _ | ⟨second, rest⟩⟩
    · rfl
    · rfl
    · simp only [List.map_cons, trim_append_of_blanks hs.blanks]
  rw [needsFallback_eq, needsFallback_eq, hempty, hcomment, hgap]

/-- **Documenting does not depend on the indentation.** -/
theorem document_indented (hs : IsIndent s) (language : Language) (config : Config) (text : Text) :
    document language config (indented s text) = document language config text := by
  simp only [document, needsFallback_indented hs, lines_indented hs,
    Grammar.definition_map_append_of_blanks hs.blanks]

/-- A method whose header goes over several lines, with lifetimes, a comment and an empty line. -/
def getSource : Text :=
  unlines ["", "pub fn get<'a>(", "  &'a self, // the map", "  key: &'a str", ") -> &'a str \x7b"]

/-- The declaration in it, from which the comment and the lifetimes are gone. -/
def getDeclaration : Declaration :=
  .callable { name := "get", rawArgs := some "& self,key: & str", returnType := some "& str" }

theorem document_indented_getSource :
    IsIndent " \t" ∧
      (document .rust {} getSource).map Documented.declaration = some getDeclaration ∧
      (document .rust {} (indented " \t" getSource)).map Documented.declaration =
        some getDeclaration := by
  have hs : IsIndent " \t" := by decide
  have hplain : (document .rust {} getSource).map Documented.declaration =
      some getDeclaration := by
    decide +kernel
  refine ⟨hs, hplain, ?_⟩
  rw [document_indented hs]
  exact hplain

end Document

end DocComment
