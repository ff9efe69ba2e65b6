import DocComment.Proofs.Header.Shape
import DocComment.Proofs.Snippet.Numbering

/-!
# The rows of a header

A header is the file name, the workspace name and, below an empty row, one row for each configured
line.  What that row is depends on the shape of the line and on the known tags only (`Shows`).  The
counter of the tab stops goes through all the lines, whichever shape each of them has: every branch
makes its stops with one template or with none, so it counts up (`countsUp_customRow`), and what
counts up line by line counts up over the whole header (`indices_block_and_rows_block`).
-/

namespace DocComment.Header

open Numbered

/-! ## The row of a line -/

/-- The name that a bare tag asks for: the tag without the characters that introduce it. -/
def askedName (tag : Text) : Text := tag.dropWhile fun c => c == '@' || c == '\\'

/-- The row of a bare tag that borrows the template of a known one, made while `n` is free.  An empty
template leaves it without a value. -/
def borrowedRow (known : KnownTag) (n : Nat) : Row :=
  .tag ('@' :: known.name)
    (if known.template = [] then none else some (Field.template known.template n).1)

/-- A row that shows a configured line, made while the number `n` is free. -/
inductive Shows (language : Language) : Text → Row → Prop
  /-- What stands behind a tag is its value. -/
  | value {raw tag gap remainder : Text} (hraw : Divides raw tag gap remainder) (n : Nat) :
      Shows language raw (.tag tag (some (Field.template remainder n).1))
  /-- A bare tag stands for the first known tag of its name. -/
  | named {tag : Text} {known : KnownTag} {before after : List KnownTag} (htag : IsTagWord tag)
      (hlookup : KnownTag.lookup language tag = before ++ known :: after)
      (hbefore : ∀ other ∈ before, other.name ≠ askedName tag)
      (hname : known.name = askedName tag) (n : Nat) : Shows language tag (borrowedRow known n)
  /-- A bare tag that nothing known is named like stands for the first one that agrees with it. -/
  | first {tag : Text} {known : KnownTag} {after : List KnownTag} (htag : IsTagWord tag)
      (hlookup : KnownTag.lookup language tag = known :: after)
      (hname : ∀ other ∈ known :: after, other.name ≠ askedName tag) (n : Nat) :
      Shows language tag (borrowedRow known n)
  /-- A bare tag that agrees with nothing known stays text. -/
  | unknown {tag : Text} (htag : IsTagWord tag) (hlookup : KnownTag.lookup language tag = [])
      (n : Nat) : Shows language tag (.text (Field.template tag n).1)
  /-- So does a line that is neither a bare tag nor a tag with a remainder. -/
  | text {raw : Text} (hbare : ¬ IsTagWord raw)
      (hdivides : ∀ tag gap remainder, ¬ Divides raw tag gap remainder) (n : Nat) :
      Shows language raw (.text (Field.template raw n).1)

variable {language : Language} {tag : Text}

theorem knownTag?_eq (language : Language) (tag : Text) :
    knownTag? language tag =
      ((KnownTag.lookup language tag).find? fun t => t.name == askedName tag).or
        (KnownTag.lookup language tag).head? :=
  Option.orElse_eq_or

/-- The value that a known tag offers is the one of the row that borrows it. -/
theorem tag_offeredValue (known : KnownTag) (n : Nat) :
    .tag ('@' :: known.name) (offeredValue known n).1 = borrowedRow known n := by
  unfold offeredValue borrowedRow
  by_cases hempty : known.template = []
  · rw [if_pos hempty, if_pos (List.isEmpty_iff.mpr hempty)]
    rfl
  · rw [if_neg hempty, if_neg fun h => hempty (List.isEmpty_iff.mp h)]
    rfl

/-- The known tag that a bare tag stands for is the one that it names, or else the first. -/
theorem shows_of_knownTag? (htag : IsTagWord tag) {known : KnownTag}
    (h : knownTag? language tag = some known) (n : Nat) :
    Shows language tag (borrowedRow known n) := by
  rw [knownTag?_eq] at h
  rcases Option.or_eq_some_iff.mp h with hfind | ⟨hfind, hhead⟩
  · obtain ⟨hname, before, after, hlookup, hbefore⟩ := List.find?_eq_some_iff_append.mp hfind
    refine .named htag hlookup ?_ (beq_iff_eq.mp hname) n
    intro other hother
    simpa using hbefore other hother
  · obtain ⟨after, hlookup⟩ := List.head?_eq_some_iff.mp hhead
    refine .first htag hlookup ?_ n
    rw [← hlookup]
    simpa using List.find?_eq_none.mp hfind

/-- A bare tag stands for nothing known only if nothing known agrees with it. -/
theorem lookup_eq_nil_of_knownTag? (h : knownTag? language tag = none) :
    KnownTag.lookup language tag = [] := by
  rw [knownTag?_eq] at h
  exact List.head?_eq_none_iff.mp (Option.or_eq_none_iff.mp h).2

/-- **The row of a line shows it**, whatever number is free. -/
theorem shows_customRow (language : Language) (raw : Text) (n : Nat) :
    Shows language raw (customRow language raw n).1 := by
  by_cases htag : IsTagWord raw
  · obtain ⟨m, hfind, hremainder, htagged⟩ : ∃ m, tagPattern.find raw = some m ∧
        m.get? .remainder = none ∧ m.get .tag = raw :=
      ⟨_, find_tagPattern_of_isTagWord htag, rfl, rfl⟩
    cases hknown : knownTag? language raw with
    | some known =>
      simp only [customRow, hfind, hremainder, htagged, hknown]
      change Shows language raw (.tag ('@' :: known.name) (offeredValue known n).1)
      rw [tag_offeredValue]
      exact shows_of_knownTag? htag hknown n
    | none =>
      simp only [customRow, hfind, hremainder, htagged, hknown]
      exact .unknown htag (lookup_eq_nil_of_knownTag? hknown) n
  · by_cases hdivides : ∃ tag gap remainder, Divides raw tag gap remainder
    · obtain ⟨tag, gap, remainder, hdivides⟩ := hdivides
      rw [customRow, find_tagPattern_of_divides hdivides]
      exact .value hdivides n
    · have hnone : ∀ tag gap remainder, ¬ Divides raw tag gap remainder :=
        fun tag gap remainder h => hdivides ⟨tag, gap, remainder, h⟩
      rw [customRow, find_tagPattern_eq_none htag hnone]
      exact .text htag hnone n

/-! ## The counter -/

theorem countsUp_offeredValue (known : KnownTag) : CountsUp indicesOf (offeredValue known) := by
  unfold offeredValue
  split
  · exact countsUpBehind_pure rfl
  · exact (Field.countsUp_template known.template).map fun _ => rfl

/-- **The counter goes through every branch of a line.** -/
theorem countsUp_customRow (language : Language) (raw : Text) :
    CountsUp Row.indices (customRow language raw) := by
  have htext : CountsUp Row.indices (Row.text <$> Field.template raw) :=
    (Field.countsUp_template raw).map fun _ => rfl
  unfold customRow
  split
  · exact htext
  · split
    · next remainder _ =>
      exact (Field.countsUp_template remainder).bind fun _ => countsUpBehind_pure rfl
    · split
      · next known _ =>
        exact (countsUp_offeredValue known).bind fun _ => countsUpBehind_pure rfl
      · exact htext

theorem countsUp_customRows (language : Language) (year : Int) (customTags : List Text) :
    CountsUp (List.flatMap Row.indices) (customRows language year customTags) := by
  unfold customRows
  split
  · exact countsUpBehind_pure rfl
  · exact (countsUp_mapM (fun raw => countsUp_customRow language _) customTags).bind
      fun _ => countsUpBehind_pure rfl

variable (p : Profile) (context : Context) (customTags : List Text)

/-- The two rows that every header starts with. -/
def nameRows (context : Context) : List Row :=
  [.text (.text (context.fileName.getD "$FILENAME")),
    .text (.text (context.workspaceName.getD "$WORKSPACE_NAME"))]

/-- Names have no stops, so the numbers of a header are those of its configured lines. -/
theorem countsUp_rows : CountsUp (List.flatMap Row.indices) (rows p customTags context) :=
  (countsUp_customRows p.language context.year customTags).bind fun _ => countsUpBehind_pure rfl

/-- **The stops of a header are numbered across all of it.**  Read row by row they are `0, 1, …`
without a gap, and the rows are the two names and, below an empty row, one row for each configured
line in their order, which shows the line with the year put in. -/
theorem indices_block_and_rows_block :
    (block p customTags context).indices =
        List.range (block p customTags context).indices.length ∧
      ∃ shown, (block p customTags context).rows =
          nameRows context ++ (if customTags.isEmpty then [] else .blank :: shown) ∧
        List.Forall₂ (Shows p.language) (customTags.map (substituteYear context.year)) shown := by
  refine ⟨((countsUp_rows p context customTags).countUp 0).eq_range,
    (customTags.mapM (fun raw => customRow p.language (substituteYear context.year raw)) 0).1,
    ?_, ?_⟩
  · cases customTags <;> rfl
  · rw [List.forall₂_map_left_iff]
    refine (forall₂_mapM _ customTags 0).imp ?_
    rintro raw row ⟨n, rfl⟩
    exact shows_customRow p.language _ n

end DocComment.Header
