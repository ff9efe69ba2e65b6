import DocComment.Proofs.Text.Lines
import DocComment.Reformat

/-!
# Files without comments

A file is taken apart into lines and joined again, also where there is nothing to reformat.  Joining
puts a line feed between the lines, so a carriage return before a line feed is not put back: the
file comes out with plain line ends (`unlines_lines`), and unchanged just if it had no others
(`plainEnds_eq_self_iff`).  Everything else survives, a carriage return that stands alone, empty
lines at the end and a missing last line feed included.
-/

namespace DocComment

namespace Text

/-- The text with every line ended by a line feed alone: a carriage return right before a line feed
is dropped. -/
def plainEnds : Text → Text
  | [] => []
  | '\r' :: '\n' :: rest => '\n' :: plainEnds rest
  | c :: rest => c :: plainEnds rest

theorem plainEnds_cons {c : Char} {rest : Text} (h : ∀ more, c = '\r' → rest ≠ '\n' :: more) :
    plainEnds (c :: rest) = c :: plainEnds rest := by
  rw [plainEnds]
  intro more hc hrest
  exact h more hc hrest

/-- A line in front of the lines of a text is joined to them by a line feed. -/
theorem unlines_cons_lines (line rest : Text) :
    unlines (line :: lines rest) ++ lineFeed (('\n' :: rest).getLast? == some '\n') =
      line ++ '\n' :: (unlines (lines rest) ++ lineFeed (rest.getLast? == some '\n')) := by
  by_cases hrest : rest = []
  · subst hrest
    rw [lines, unlines_singleton]
    rfl
  · rw [List.getLast?_cons_of_ne_nil hrest, unlines_cons (lines_ne_nil hrest), List.append_assoc,
      List.cons_append]

/-- **The lines of a text, joined again, are the text with plain line ends.** -/
theorem unlines_lines (t : Text) :
    unlines (lines t) ++ lineFeed (t.getLast? == some '\n') = plainEnds t := by
  fun_induction lines t with
  | case1 => rfl
  | case2 rest ih =>
    rw [unlines_cons_lines, ih, plainEnds_cons (fun _ hc => absurd hc (by decide)),
      List.nil_append]
  | case3 rest ih =>
    rw [List.getLast?_cons_of_ne_nil (List.cons_ne_nil _ _), unlines_cons_lines, ih, plainEnds,
      List.nil_append]
  | case4 c rest hnl hcr heq ih =>
    obtain rfl : rest = [] := by
      by_contra hne
      exact lines_ne_nil hne heq
    have hc : c ≠ '\n' := fun hc => hnl hc
    have hended : ([c].getLast? == some '\n') = false := by simp [hc]
    rw [hended, unlines_singleton, plainEnds_cons (fun _ _ => (List.cons_ne_nil _ _).symm)]
    rfl
  | case5 c rest hnl hcr line more heq ih =>
    have hne : rest ≠ [] := by
      rintro rfl
      cases heq
    have hfront : unlines ((c :: line) :: more) = c :: unlines (line :: more) := by
      by_cases hmore : more = []
      · rw [hmore, unlines_singleton, unlines_singleton]
      · rw [unlines_cons hmore, unlines_cons hmore, List.cons_append]
    rw [List.getLast?_cons_of_ne_nil hne, hfront, List.cons_append, ← heq, ih,
      plainEnds_cons hcr]

/-- A text has plain line ends just if no carriage return stands before a line feed. -/
theorem plainEnds_eq_self_iff (t : Text) : plainEnds t = t ↔ ¬ "\r\n".toList <:+: t := by
  fun_induction plainEnds t with
  | case1 => decide
  | case2 rest ih =>
    have hinfix : "\r\n".toList <:+: '\r' :: '\n' :: rest := ⟨[], rest, rfl⟩
    have hne : '\n' :: plainEnds rest ≠ '\r' :: '\n' :: rest :=
      fun h => absurd (List.cons.inj h).1 (by decide)
    exact iff_of_false hne (not_not.mpr hinfix)
  | case3 c rest hcr ih =>
    have hfirst : ¬ "\r\n".toList <+: c :: rest := by
      rintro ⟨more, hmore⟩
      obtain ⟨hc, hrest⟩ := List.cons.inj hmore
      exact hcr more hc.symm hrest.symm
    rw [List.infix_cons_iff, List.cons.injEq, ih, not_or]
    exact ⟨fun h => ⟨hfirst, h.2⟩, fun h => ⟨rfl, h.2⟩⟩

end Text

open Text

/-- **A file without comments keeps everything but its carriage returns before line feeds.**  It
comes out with plain line ends, and exactly as it was just if it had plain line ends before. -/
theorem reformatAll_of_no_comment {config : Config} {lang : Text} {language : Language}
    {text : Text} (width : Nat) (hlang : config.language? lang = some language)
    (hnone : Ranges.ofText (Profile.of language config) text = []) :
    reformatAll config lang width text = some (plainEnds text) ∧
      (reformatAll config lang width text = some text ↔ ¬ "\r\n".toList <:+: text) := by
  have hall : reformatAll config lang width text = some (plainEnds text) := by
    rw [reformatAll, hlang, Option.map_some, ← unlines_lines text]
    simp only [reformatAllIn, hnone, List.foldr_nil]
    rfl
  refine ⟨hall, ?_⟩
  rw [hall, Option.some.injEq, plainEnds_eq_self_iff]

/-- A file with a carriage return inside a line, ordinary comments and empty lines at its end. -/
def plainFile : Text := "let a = 1;\rlet b; // **/\n\n  /* one */\n\n"

theorem reformatAll_of_no_comment_plainFile :
    ({} : Config).language? "ts" = some .typescript ∧
      Ranges.ofText (Profile.of .typescript {}) plainFile = [] ∧ ¬ "\r\n".toList <:+: plainFile ∧
      reformatAll {} "ts" 20 plainFile = some plainFile := by
  have hlang : ({} : Config).language? "ts" = some .typescript := by decide
  have hnone : Ranges.ofText (Profile.of .typescript {}) plainFile = [] := by decide +kernel
  have hplain : ¬ "\r\n".toList <:+: plainFile := by decide +kernel
  exact ⟨hlang, hnone, hplain, (reformatAll_of_no_comment 20 hlang hnone).2.mpr hplain⟩

/-- A file without comments is not always left as it is. -/
theorem reformatAll_ne_self :
    ({} : Config).language? "javascript" = some .javascript ∧
      Ranges.ofText (Profile.of .javascript {}) "a\r\nb" = [] ∧
      reformatAll {} "javascript" 80 "a\r\nb" = some "a\nb" ∧
      reformatAll {} "javascript" 80 "a\r\nb" ≠ some "a\r\nb" := by
  decide +kernel

end DocComment
