import DocComment.Proofs.Synthesis.ReadBack

/-!
# Synthesized rows fill the columns of their tags

The synthesizer decides from the type column, the kind of the declaration and the optional tags
which columns a row has.  Layout, re-flowing and reading decide it from the name of the tag.  Both
agree on every row (`fillsColumns_of_mem_detailRows`), because each tag that a synthesized row can
have is listed with the columns that the row has (`Profile.tabular_of`).
-/

namespace DocComment

/-- A tagged row that has exactly the columns of its tag.  A tag with a free value has none. -/
def Row.FillsColumns (p : Profile) : Row → Prop
  | .text _ | .blank => False
  | .tag t _ => p.columns? t = none
  | .entry t type name _ => p.columns? t = some { type := type.isSome, name := name.isSome }

namespace Synthesis

section Rows

variable {p : Profile} (hp : p.Tabular) {r : Row}

include hp

theorem fillsColumns_argumentRow (arg : Argument) (n : Nat) :
    (argumentRow p arg n).1.FillsColumns p := by
  obtain ⟨_, _, hrow⟩ := exists_argumentRow_eq p arg n
  rw [hrow, Row.FillsColumns, isSome_stopIf]
  exact hp.param.2

/-- Without a type column an exception stands in the name column. -/
theorem fillsColumns_exceptionRow (exception : Text) (n : Nat) :
    (exceptionRow p exception n).1.FillsColumns p := by
  have hthrows := hp.throws.2
  cases hcolumn : p.hasTypeColumn with
  | true =>
    obtain ⟨_, hrow⟩ := exists_exceptionRow_eq hcolumn exception n
    rw [hcolumn] at hthrows
    rwa [hrow]
  | false =>
    rw [hcolumn] at hthrows
    rwa [exceptionRow_of_no_column hcolumn]

/-- **Every row that documents a declaration fills the columns of its tag**, whatever the grammar
makes of the arguments. -/
theorem fillsColumns_of_mem_detailRows {g : Grammar} {declaration : Declaration} {n : Nat}
    (h : r ∈ (detailRows p g declaration n).1) : r.FillsColumns p := by
  cases details_of_mem h with
  | parent htag => exact (hp.of_mem_parents htag).2
  | binding htag hcolumn =>
    have hcolumns := (hp.of_mem_binding htag).2.1
    rwa [hcolumn] at hcolumns
  | member htag => exact (hp.of_mem_member htag).2
  | argument => exact fillsColumns_argumentRow hp _ _
  | exception => exact fillsColumns_exceptionRow hp _ _
  | result htype =>
    rw [Row.FillsColumns, isSome_stopIf]
    exact (hp.nameless _ (tag_mem_of_resultType? htype)).2.1

end Rows

/-- **Synthesis and layout agree on the columns.**  Whatever a declaration is, the block that
documents it is one text, the summary, and behind it only tagged rows, each with exactly the columns
that the profile gives its tag. -/
theorem exists_filled_of_block? {language : Language} {config : Config} {g : Grammar}
    {declaration : Declaration} {b : Block}
    (h : block? (Profile.of language config) g declaration = some b) :
    ∃ summary rows, b.rows = .text summary :: rows ∧
      ∀ row ∈ rows, row.FillsColumns (Profile.of language config) := by
  obtain rfl := eq_of_block? h
  exact ⟨_, _, rfl, fun row => fillsColumns_of_mem_detailRows (Profile.tabular_of language config)⟩

/-- A generator with an argument that has no name: the parameter has a type and a name, the
exception and the result have a type only. -/
def eachPair : Declaration :=
  .callable
    { name := "each_pair", kind := .generator, rawArgs := some "(key, value), limit = 1"
      throws := some ["KeyError".toList] }

theorem exists_filled_eachPair :
    ∃ b, block? (Profile.of .ruby { rubyStyle := .yard }) Language.ruby.grammar eachPair = some b ∧
      b.rows.map Row.tag? =
        [none, some "@param".toList, some "@param".toList, some "@raise".toList,
          some "@return".toList] ∧
      ∃ summary rows, b.rows = .text summary :: rows ∧
        ∀ row ∈ rows, row.FillsColumns (Profile.of .ruby { rubyStyle := .yard }) := by
  obtain ⟨b, hb⟩ := Option.isSome_iff_exists.mp (by decide :
    (block? (Profile.of .ruby { rubyStyle := .yard }) Language.ruby.grammar
      eachPair).isSome = true)
  refine ⟨b, hb, ?_, exists_filled_of_block? hb⟩
  rw [eq_of_block? hb]
  decide +kernel

end Synthesis

end DocComment
