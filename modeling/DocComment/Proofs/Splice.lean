import DocComment.Proofs.Reformat

/-!
# Splicing comments back into a file

A file is rewritten from its last comment to its first, so that the ranges of the comments before
stay valid while the lines after them move.  Rewriting it segment by segment (`exchanged`) needs no
such care: the lines between two ranges are kept, and the lines of a range are exchanged where they
stand.  Both give the same lines (`reformatAll_eq_exchanged`), and each range lies within the lines
that are there when its turn comes.
-/

namespace DocComment

open Text Ranges

/-- Ranges in order among `n` lines: the first starts at line `i` or later, and each of the others
not before the one in front of it stops. -/
def Ranges.Ascending (n : Nat) : Nat → List LineRange → Prop
  | i, [] => i ≤ n
  | i, range :: ranges => i ≤ range.start ∧ range.start ≤ range.stop ∧
      Ascending n range.stop ranges

/-- The lines from number `i` on with `f` of the lines of each range in their place; all other lines
are kept. -/
def exchanged (f : List Text → List Text) : Nat → List LineRange → List Text → List Text
  | _, [], lines => lines
  | i, range :: ranges, lines =>
    lines.take (range.start - i) ++
      f ((lines.drop (range.start - i)).take (range.stop - range.start)) ++
      exchanged f range.stop ranges (lines.drop (range.stop - i))

/-! ## Cut files -/

section Cut

theorem ascending_rangesOf (i : Nat) (parts : List (List Text × List Text)) (tail : List Text) :
    Ascending (i + (joined parts tail).length) i (rangesOf i parts) := by
  induction parts generalizing i with
  | nil => exact Nat.le_add_right i _
  | cons part parts ih =>
    obtain ⟨plain, comment⟩ := part
    have hrest := ih (i + plain.length + comment.length)
    have hlength : i + plain.length + comment.length + (joined parts tail).length =
        i + (joined ((plain, comment) :: parts) tail).length := by
      simp only [joined_cons, List.length_append]
      omega
    rw [hlength] at hrest
    exact ⟨Nat.le_add_right i _, Nat.le_add_right _ _, hrest⟩

/-- Exchanging the ranges of a cut file exchanges its comments. -/
theorem exchanged_rangesOf (f : List Text → List Text) (i : Nat)
    (parts : List (List Text × List Text)) (tail : List Text) :
    exchanged f i (rangesOf i parts) (joined parts tail) =
      joined (parts.map fun part => (part.1, f part.2)) tail := by
  induction parts generalizing i with
  | nil => rfl
  | cons part parts ih =>
    obtain ⟨plain, comment⟩ := part
    have hplain : i + plain.length - i = plain.length := by omega
    have hcomment : i + plain.length + comment.length - (i + plain.length) = comment.length := by
      omega
    have hboth : i + plain.length + comment.length - i = (plain ++ comment).length := by
      rw [List.length_append]
      omega
    rw [rangesOf, exchanged, joined_cons]
    simp only [hplain, hcomment, hboth]
    rw [List.take_left, List.drop_left, List.take_left, ← List.append_assoc plain, List.drop_left,
      ih, List.map_cons, joined_cons, List.append_assoc]

/-- A range of a cut file stops where the lines up to its comment do, and the ranges after it are
those of the comments after it. -/
theorem exists_cut_at_range {i : Nat} {parts : List (List Text × List Text)}
    {earlier later : List LineRange} {range : LineRange}
    (h : rangesOf i parts = earlier ++ range :: later) :
    ∃ before after, parts = before ++ after ∧
      range.start ≤ range.stop ∧ range.stop = i + (joined before []).length ∧
      later = rangesOf range.stop after := by
  induction parts generalizing i earlier with
  | nil => simp [rangesOf] at h
  | cons part parts ih =>
    obtain ⟨plain, comment⟩ := part
    rw [rangesOf] at h
    cases earlier with
    | nil =>
      obtain ⟨rfl, rfl⟩ := List.cons.inj h
      refine ⟨[(plain, comment)], parts, rfl, Nat.le_add_right _ _, ?_, rfl⟩
      simp [joined, Nat.add_assoc]
    | cons first earlier =>
      obtain ⟨-, hrest⟩ := List.cons.inj h
      obtain ⟨before, after, rfl, hle, hstop, hlater⟩ := ih hrest
      refine ⟨(plain, comment) :: before, after, rfl, hle, ?_, hlater⟩
      rw [hstop]
      simp only [joined_cons, List.length_append]
      omega

theorem joined_append (before after : List (List Text × List Text)) (tail : List Text) :
    joined (before ++ after) tail = joined before [] ++ joined after tail := by
  simp [joined]

/-- A file of any language is cut at its ranges; where comments have no frame there are none. -/
theorem exists_cut_of_ranges (p : Profile) (text : Text) :
    ∃ parts tail, lines text = joined parts tail ∧ Ranges.ofText p text = rangesOf 0 parts := by
  cases hd : p.delimiters? with
  | none => exact ⟨[], lines text, rfl, by rw [Ranges.ofText, hd]; rfl⟩
  | some d =>
    obtain ⟨parts, tail, hlines, hcut⟩ := exists_wellCut d (lines text)
    exact ⟨parts, tail, hlines, ofText_of_wellCut hd hlines hcut⟩

end Cut

/-! ## The loop over the ranges -/

section Loop

variable {language : Language} {config : Config} {width : Nat}

/-- When the turn of a range comes, the lines up to its end are still there. -/
theorem stop_le_length_foldr {parts : List (List Text × List Text)} {earlier later : List LineRange}
    {range : LineRange} (h : rangesOf 0 parts = earlier ++ range :: later) (tail : List Text) :
    range.start ≤ range.stop ∧
      range.stop ≤
        (later.foldr (reformatRange language config width) (joined parts tail)).length := by
  obtain ⟨before, after, rfl, hle, hstop, rfl⟩ := exists_cut_at_range h
  rw [Nat.zero_add] at hstop
  refine ⟨hle, ?_⟩
  rw [joined_append, hstop, foldr_reformatRange, List.length_append]
  exact Nat.le_add_right _ _

end Loop

/-- **Splicing from the last comment to the first is rewriting segment by segment.**  The lines of
each range are those of the comment reformatted, or stay when it is not, and every other line is
kept; the ranges are in order, and each lies within the lines that the loop has when it comes to
it. -/
theorem reformatAll_eq_exchanged {config : Config} {lang : Text} {language : Language}
    (h : config.language? lang = some language) (width : Nat) (text : Text) :
    reformatAll config lang width text =
        some (unlines (exchanged
          (fun comment => (reformat config lang width (unlines comment)).getD comment) 0
          (Ranges.ofText (Profile.of language config) text) (lines text)) ++
            if text.getLast? = some '\n' then ['\n'] else []) ∧
      Ascending (lines text).length 0 (Ranges.ofText (Profile.of language config) text) ∧
      ∀ earlier range later,
        Ranges.ofText (Profile.of language config) text = earlier ++ range :: later →
        range.start ≤ range.stop ∧
          range.stop ≤
            (later.foldr (reformatRange language config width) (lines text)).length := by
  obtain ⟨parts, tail, hlines, hranges⟩ :=
    exists_cut_of_ranges (Profile.of language config) text
  rw [hlines, hranges]
  refine ⟨?_, ?_, fun earlier range later hsplit => stop_le_length_foldr hsplit tail⟩
  · have hreformat : ∀ comment, (reformat config lang width (unlines comment)).getD comment =
        reformatLines language config width comment := by
      intro comment
      rw [reformat, h, Option.bind_some, reformatLines]
    have hfold := foldr_reformatRange language config width [] parts tail
    simp only [List.length_nil, List.nil_append] at hfold
    simp only [hreformat]
    rw [exchanged_rangesOf, reformatAll, h, Option.map_some, reformatAllIn, hranges, hlines, hfold]
    simp only [reformatParts, beq_iff_eq]
  · have hascending := ascending_rangesOf 0 parts tail
    rwa [Nat.zero_add] at hascending

/-- A file with two comments, of which the first gets longer and the second falls into three
lines. -/
def readerFile : Text :=
  unlines ["/**", " * First.", " * @param   x   value", " */", "void a(int x);", "",
    "/** Second. */", "int b;"] ++ ['\n']

theorem reformatAll_readerFile :
    ({} : Config).language? "java" = some .java ∧
      Ranges.ofText (Profile.of .java {}) readerFile = [⟨0, 4⟩, ⟨6, 7⟩] ∧
      reformatAll {} "java" 80 readerFile =
        some (unlines (exchanged
          (fun comment => (reformat {} "java" 80 (unlines comment)).getD comment) 0
          [⟨0, 4⟩, ⟨6, 7⟩] (lines readerFile)) ++ ['\n']) := by
  have hranges : Ranges.ofText (Profile.of .java {}) readerFile = [⟨0, 4⟩, ⟨6, 7⟩] := by
    decide +kernel
  have hjava : ({} : Config).language? "java" = some .java := by decide
  have hfile := (reformatAll_eq_exchanged hjava 80 readerFile).1
  rw [hranges] at hfile
  exact ⟨hjava, hranges, hfile⟩

end DocComment
