import DocComment.Proofs.Ranges.Located
import DocComment.Proofs.Reading.Heredity

/-!
# The delimiters of a comment

The search asks of the first line of a comment that it starts with the opener and of the last one
that it ends in the closer, so the text of the comment does both (`ClosedComment.isPrefix`,
`ClosedComment.isSuffix`).  That leaves room for a body unless what follows the opener is only a
part of the closer (`exists_of_not_delimited`).  The search rules out that nothing follows it, but
the opener with two asterisks and the closer can also share one, and they do in a single text
(`delimited_commentText_iff`).
-/

namespace DocComment

open Text

/-! ## Both ends of a text -/

section Ends

variable {opener closer t : Text}

/-- The opener, a body and the closer, which stand side by side. -/
def Delimited (opener closer t : Text) : Prop := ∃ body, t = opener ++ body ++ closer

theorem delimited_iff :
    Delimited opener closer t ↔ opener <+: t ∧ closer <:+ t.drop opener.length := by
  constructor
  · intro h
    obtain ⟨body, rfl⟩ := h
    rw [List.append_assoc, List.drop_left]
    exact ⟨List.prefix_append _ _, List.suffix_append _ _⟩
  · intro h
    obtain ⟨⟨rest, rfl⟩, hclose⟩ := h
    rw [List.drop_left] at hclose
    obtain ⟨body, rfl⟩ := hclose
    exact ⟨body, (List.append_assoc _ _ _).symm⟩

instance (opener closer t : Text) : Decidable (Delimited opener closer t) :=
  decidable_of_iff _ delimited_iff.symm

/-- Where an opener and a closer share characters, only a part of the closer follows the opener. -/
theorem exists_of_not_delimited (hopen : opener <+: t) (hclose : closer <:+ t)
    (h : ¬ Delimited opener closer t) :
    ∃ rest, t = opener ++ rest ∧ rest <:+ closer ∧ rest ≠ closer := by
  obtain ⟨rest, rfl⟩ := hopen
  refine ⟨rest, rfl, ?_, ?_⟩
  · rcases List.suffix_or_suffix_of_suffix hclose (List.suffix_append opener rest) with hrest | hrest
    · obtain ⟨body, rfl⟩ := hrest
      exact absurd ⟨body, (List.append_assoc _ _ _).symm⟩ h
    · exact hrest
  · intro heq
    exact h ⟨[], by rw [heq, List.append_nil]⟩

end Ends

namespace Ranges

/-! ## Both ends of a comment -/

section Closed

variable {opener closer : Text} {ls : List Text}

theorem Body.exists_last (h : Body opener closer ls) :
    ∃ before last, ls = before ++ [last] ∧ closer <:+ trim last := by
  induction h with
  | @last line _ hclose => exact ⟨[], line, rfl, List.isSuffixOf_iff_suffix.mp hclose⟩
  | @cons line rest _ _ _ ih =>
    obtain ⟨before, last, hrest, hclose⟩ := ih
    exact ⟨line :: before, last, by rw [hrest, List.cons_append], hclose⟩

theorem ClosedComment.exists_first (h : ClosedComment opener closer ls) :
    ∃ first rest, ls = first :: rest ∧ opener <+: trim first := by
  cases h with
  | @single line hopen => exact ⟨line, [], rfl, List.isPrefixOf_iff_prefix.mp hopen⟩
  | @block line rest hopen => exact ⟨line, rest, rfl, List.isPrefixOf_iff_prefix.mp hopen⟩

theorem ClosedComment.exists_last (h : ClosedComment opener closer ls) :
    ∃ before last, ls = before ++ [last] ∧ closer <:+ trim last := by
  cases h with
  | @single line _ hclose =>
    rw [closesAtOnce, Bool.and_eq_true] at hclose
    exact ⟨[], line, rfl, List.isSuffixOf_iff_suffix.mp hclose.1⟩
  | @block line rest _ _ hbody =>
    obtain ⟨before, last, hrest, hclose⟩ := hbody.exists_last
    exact ⟨line :: before, last, by rw [hrest, List.cons_append], hclose⟩

/-- The text of a comment starts with the opener. -/
theorem ClosedComment.isPrefix (hw : IsWord opener) (h : ClosedComment opener closer ls) :
    opener <+: trim (unlines ls) := by
  obtain ⟨first, rest, rfl, hopen⟩ := h.exists_first
  obtain ⟨more, hmore⟩ := isPrefix_unlines first rest
  rw [← hmore]
  exact isPrefix_trim_append hw hopen more

/-- The text of a comment ends in the closer. -/
theorem ClosedComment.isSuffix (hw : IsWord closer) (h : ClosedComment opener closer ls) :
    closer <:+ trim (unlines ls) := by
  obtain ⟨before, last, rfl, hclose⟩ := h.exists_last
  obtain ⟨more, hmore⟩ := isSuffix_unlines before last
  rw [← hmore]
  exact isSuffix_trim_append hw hclose more

end Closed

/-! ## The comments of a file -/

/-- The text of a range of lines, without the blanks around it. -/
def commentText (text : Text) (r : LineRange) : Text :=
  trim (unlines (((lines text).take r.stop).drop r.start))

/-- The lines of a range of a cut file are those of a comment. -/
theorem exists_part_of_mem_rangesOf {i : Nat} {parts : List (List Text × List Text)}
    {r : LineRange} (h : r ∈ rangesOf i parts) (tail : List Text) :
    ∃ part ∈ parts, ∃ before after, joined parts tail = before ++ (part.2 ++ after) ∧
      r = ⟨i + before.length, i + before.length + part.2.length⟩ := by
  induction parts generalizing i with
  | nil => cases h
  | cons part parts ih =>
    obtain ⟨plain, comment⟩ := part
    rw [joined_cons]
    rcases List.mem_cons.mp h with heq | hmem
    · exact ⟨_, List.mem_cons_self, plain, joined parts tail, rfl, heq⟩
    · obtain ⟨part, hpart, before, after, hjoined, hr⟩ := ih hmem
      refine ⟨part, List.mem_cons_of_mem _ hpart, plain ++ comment ++ before, after, ?_, ?_⟩
      · rw [hjoined]
        simp only [List.append_assoc]
      · rw [hr]
        simp only [List.length_append, Nat.add_assoc]

theorem isComment_of_mem_ofText {p : Profile} {d : Delimiters} (hd : p.delimiters? = some d)
    {text : Text} {r : LineRange} (hr : r ∈ ofText p text) :
    IsComment d (((lines text).take r.stop).drop r.start) := by
  obtain ⟨parts, tail, hlines, hcut⟩ := exists_wellCut d (lines text)
  rw [ofText_of_wellCut hd hlines hcut] at hr
  obtain ⟨part, hpart, before, after, hjoined, rfl⟩ := exists_part_of_mem_rangesOf hr tail
  rw [hlines, hjoined, Nat.zero_add, drop_take_append]
  exact hcut.isComment part hpart

/-- The closer leaves a single way to be shared with an opener. -/
theorem eq_of_not_delimited {language : Language} {config : Config} {d : Delimiters}
    (hd : (Profile.of language config).delimiters? = some d) {closer t : Text}
    (hc : d.closer = some closer) (hopen : d.opener <+: t) (hclose : trim closer <:+ t)
    (h : ¬ Delimited d.opener (trim closer) t) : d = .javadoc ∧ t = "/**/" := by
  obtain ⟨rest, rfl, hrest, hne⟩ := exists_of_not_delimited hopen hclose h
  obtain rfl := (Profile.closer_of hd).2.2 closer hc
  have hcloser : trim " */".toList = ['*', '/'] := by decide
  rw [hcloser] at hrest hne hclose
  have hpart : rest = ['/'] ∨ rest = [] := by
    rcases List.suffix_cons_iff.mp hrest with hall | hrest
    · exact absurd hall hne
    · rcases List.suffix_cons_iff.mp hrest with hslash | hnil
      · exact Or.inl hslash
      · exact Or.inr (List.suffix_nil.mp hnil)
  rcases Profile.delimiters_of hd with rfl | rfl | rfl
  · rcases hpart with rfl | rfl
    · exact ⟨rfl, rfl⟩
    · exact absurd hclose (by decide)
  · rcases hpart with rfl | rfl
    · exact absurd hclose (by decide)
    · exact absurd hclose (by decide)
  · cases hc

/-- **The delimiters of a comment stand side by side, except in one text.**  Every comment starts
with its opener and ends in its closer, and only where the opener has two asterisks can they share
one, which they do in the comment of four characters. -/
theorem delimited_commentText_iff {language : Language} {config : Config} {d : Delimiters}
    {closer : Text} (hd : (Profile.of language config).delimiters? = some d)
    (hc : d.closer = some closer) {text : Text} {r : LineRange}
    (hr : r ∈ ofText (Profile.of language config) text) :
    d.opener <+: commentText text r ∧ trim closer <:+ commentText text r ∧
      (Delimited d.opener (trim closer) (commentText text r) ↔
        ¬ (d = .javadoc ∧ commentText text r = "/**/")) := by
  have hcomment := isComment_of_mem_ofText hd hr
  simp only [IsComment, hc] at hcomment
  have hwords : IsWord d.opener ∧ IsWord (trim closer) := by
    obtain rfl := (Profile.closer_of hd).2.2 closer hc
    rcases Profile.delimiters_of hd with rfl | rfl | rfl <;> decide
  have hopen : d.opener <+: commentText text r := hcomment.isPrefix hwords.1
  have hclose : trim closer <:+ commentText text r := hcomment.isSuffix hwords.2
  refine ⟨hopen, hclose, ?_, ?_⟩
  · intro hdelimited hshared
    obtain ⟨rfl, htext⟩ := hshared
    obtain rfl := (Profile.closer_of hd).2.2 closer hc
    rw [htext] at hdelimited
    exact absurd hdelimited (by decide)
  · intro hnot
    by_contra h
    exact hnot (eq_of_not_delimited hd hc hopen hclose h)

/-- A file with a comment that has no body and one that has less than that. -/
def starredFile : Text := unlines ["/***/", "int a;", "  /**/", "int b;"]

theorem delimited_commentText_starredFile :
    (Profile.of .java {}).delimiters? = some .javadoc ∧
      ofText (Profile.of .java {}) starredFile = [⟨0, 1⟩, ⟨2, 3⟩] ∧
      Delimited "/**" "*/" (commentText starredFile ⟨0, 1⟩) ∧
      ¬ Delimited "/**" "*/" (commentText starredFile ⟨2, 3⟩) := by
  have hjava : (Profile.of .java {}).delimiters? = some .javadoc := rfl
  have hranges : ofText (Profile.of .java {}) starredFile = [⟨0, 1⟩, ⟨2, 3⟩] := by
    decide +kernel
  have hfirst : ⟨0, 1⟩ ∈ ofText (Profile.of .java {}) starredFile := by rw [hranges]; decide
  have hsecond : ⟨2, 3⟩ ∈ ofText (Profile.of .java {}) starredFile := by rw [hranges]; decide
  obtain ⟨-, -, hfirst⟩ := delimited_commentText_iff hjava rfl hfirst
  obtain ⟨-, -, hsecond⟩ := delimited_commentText_iff hjava rfl hsecond
  refine ⟨hjava, hranges, ?_, ?_⟩
  · exact hfirst.mpr fun h => absurd h.2 (by decide +kernel)
  · exact fun h => hsecond.mp h ⟨rfl, by decide +kernel⟩

/-- The four characters count as a comment, although its delimiters share the second asterisk, and
the slash that is left over becomes its text. -/
theorem not_delimited_commentText :
    ofText (Profile.of .javascript {}) "/**/" = [⟨0, 1⟩] ∧
      ¬ Delimited "/**" "*/" (commentText "/**/" ⟨0, 1⟩) ∧
      reformatAll {} "javascript" 80 "/**/" = some (unlines ["/**", " * /", " */"]) := by
  decide +kernel

end Ranges

end DocComment
