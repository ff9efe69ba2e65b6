import DocComment.Proofs.Snippet.Numbering
import DocComment.Synthesis

/-!
# The rows that document a declaration

What is known of a row that the synthesizer makes is said once (`Details`), with one constructor for
each kind of row: the tag that the profile has for it, the part of the declaration that it shows, and
the number that was free when it was made.  A statement about all synthesized rows is then proved
kind by kind, without opening the synthesizer again.

The counter of the tab stops goes through all the branches.  Each of them makes its stops in the
order in which its row shows them, and the rows are made in the order in which the block has them, so
the stops of a declaration count up (`countsUp_rows`).
-/

namespace DocComment.Synthesis

open Numbered

variable {p : Profile} {g : Grammar} {declaration : Declaration} {r : Row} {n : Nat}

/-- A row that documents a part of a declaration. -/
inductive Details (p : Profile) (g : Grammar) : Declaration → Row → Prop
  | parent {name tag type : Text} {superTypes : List Text} (htag : tag ∈ p.tags.parents)
      (htype : type ∈ superTypes) :
      Details p g (.classLike name superTypes) (.tag tag (some (.text type)))
  | binding {name tag : Text} {declaredType initializer : Option Text}
      (htag : tag ∈ p.tags.binding) (hcolumn : p.hasTypeColumn = true) (n : Nat) :
      Details p g (.binding name declaredType initializer)
        (.entry tag
          (some (Field.stop (TypeGuess.resolve declaredType initializer name p.numbers) n).1)
          none none)
  | member {c : Callable} {tag : Text} (htag : tag ∈ p.tags.member) (n : Nat) :
      Details p g (.callable c) (.tag tag (some (Field.stop "parent" n).1))
  | argument {c : Callable} {raw : Text} {arg : Argument} (hraw : raw ∈ c.rawArgs)
      (harg : arg ∈ g.arguments raw) (n : Nat) :
      Details p g (.callable c) (argumentRow p arg n).1
  | exception {c : Callable} {throws : List Text} {exception : Text} (hthrows : throws ∈ c.throws)
      (hexception : exception ∈ throws) (n : Nat) :
      Details p g (.callable c) (exceptionRow p exception n).1
  | result {c : Callable} {tag type : Text} {description : Option Field}
      (htype : resultType? p c = some (tag, type))
      (hdescription : description = none ∨
        ∃ k, description = some (Field.stop "description" k).1) (n : Nat) :
      Details p g (.callable c)
        (.entry tag (Field.stopIf p.hasTypeColumn type n).1 none description)

/-! ## The shape of a row -/

/-- A tab stop that is wanted is there. -/
theorem isSome_stopIf (wanted : Bool) (default : Text) (n : Nat) :
    (Field.stopIf wanted default n).1.isSome = wanted := by
  cases wanted <;> rfl

/-- A parameter has its type in the type column, its name, and a description to fill in. -/
theorem exists_argumentRow_eq (p : Profile) (arg : Argument) (n : Nat) :
    ∃ i j, (argumentRow p arg n).1 =
      .entry p.tags.param
        (Field.stopIf p.hasTypeColumn
          (TypeGuess.resolve arg.type arg.value arg.name p.numbers) n).1
        (some (nameField arg.name i).1) (some (Field.stop "description" j).1) :=
  ⟨_, _, rfl⟩

/-- Without a type column an exception stands in the name column. -/
theorem exceptionRow_of_no_column (h : p.hasTypeColumn = false) (exception : Text) (n : Nat) :
    (exceptionRow p exception n).1 =
      .entry p.tags.throws none (some (.text exception)) (some (Field.stop "description" n).1) := by
  rw [exceptionRow, h]
  rfl

/-- With a type column it stands there and has no name. -/
theorem exists_exceptionRow_eq (h : p.hasTypeColumn = true) (exception : Text) (n : Nat) :
    ∃ j, (exceptionRow p exception n).1 =
      .entry p.tags.throws (some (Field.stop exception n).1) none
        (some (Field.stop "description" j).1) := by
  rw [exceptionRow, h]
  exact ⟨_, rfl⟩

/-- A result has the tag of results, that of bindings or that of generators. -/
theorem tag_mem_of_resultType? {c : Callable} {tag type : Text}
    (h : resultType? p c = some (tag, type)) :
    tag ∈ p.tags.result :: (p.tags.binding.toList ++ p.tags.yields.toList) := by
  have hgetD : ∀ t : Option Text, t.getD p.tags.result = p.tags.result ∨
      t.getD p.tags.result ∈ t.toList := by
    intro t
    cases t <;> simp
  rw [List.mem_cons, List.mem_append]
  unfold resultType? at h
  split at h
  · cases h
  · cases h
    exact (hgetD p.tags.binding).imp_right Or.inl
  · cases h
    exact (hgetD p.tags.yields).imp_right Or.inr
  all_goals
    obtain ⟨_, _, hpair⟩ := Option.map_eq_some_iff.mp h
    exact Or.inl (congrArg Prod.fst hpair).symm

/-- A callable has its rows in the order member, parameters, exceptions, result. -/
theorem exists_callableRows_eq (p : Profile) (g : Grammar) (c : Callable) (n : Nat) :
    ∃ i j k, (callableRows p g c n).1 =
      (memberRows p c.kind n).1 ++ (((c.rawArgs.map g.arguments).getD []).mapM (argumentRow p) i).1 ++
        ((c.throws.getD []).mapM (exceptionRow p) j).1 ++ (resultRows p c k).1 :=
  ⟨_, _, _, rfl⟩

/-- There is a row for a result only if there is a type to show. -/
theorem exists_of_mem_resultRows {c : Callable} (h : r ∈ (resultRows p c n).1) :
    ∃ tag type description, resultType? p c = some (tag, type) ∧
      (description = none ∨ ∃ k, description = some (Field.stop "description" k).1) ∧
      r = .entry tag (Field.stopIf p.hasTypeColumn type n).1 none description := by
  rw [resultRows] at h
  cases htype : resultType? p c with
  | none =>
    rw [htype] at h
    cases h
  | some found =>
    obtain ⟨tag, type⟩ := found
    simp only [htype] at h
    by_cases hvoid : (!p.hasTypeColumn && voidTypes.contains (Text.trim type)) = true
    · rw [if_pos hvoid] at h
      cases h
    · rw [if_neg hvoid] at h
      refine ⟨tag, type, _, rfl, ?_, List.mem_singleton.mp h⟩
      cases c.kind != .getter || p.tags.binding.isNone with
      | false => exact Or.inl rfl
      | true => exact Or.inr ⟨_, rfl⟩

/-- There is at most one row for a result. -/
theorem length_resultRows_le (c : Callable) (n : Nat) : (resultRows p c n).1.length ≤ 1 := by
  rw [resultRows]
  cases resultType? p c with
  | none => exact Nat.zero_le 1
  | some found =>
    obtain ⟨tag, type⟩ := found
    by_cases hvoid : (!p.hasTypeColumn && voidTypes.contains (Text.trim type)) = true
    · simp only [if_pos hvoid]
      exact Nat.zero_le 1
    · simp only [if_neg hvoid]
      exact Nat.le_refl 1

/-- Only a member of a class names the class. -/
theorem exists_of_mem_memberRows {kind : CallableKind} (h : r ∈ (memberRows p kind n).1) :
    ∃ tag ∈ p.tags.member, r = .tag tag (some (Field.stop "parent" n).1) := by
  unfold memberRows at h
  cases htag : p.tags.member with
  | none =>
    rw [htag] at h
    cases kind <;> cases h
  | some tag =>
    rw [htag] at h
    refine ⟨tag, rfl, ?_⟩
    cases kind with
    | member | getter => exact List.mem_singleton.mp h
    | _ => cases h

/-- The row of a binding has a type and nothing else. -/
theorem eq_of_mem_bindingRows {name : Text} {declaredType initializer : Option Text}
    (h : r ∈ (bindingRows p name declaredType initializer n).1) :
    p.hasTypeColumn = true ∧ ∃ tag ∈ p.tags.binding,
      r = .entry tag
        (some (Field.stop (TypeGuess.resolve declaredType initializer name p.numbers) n).1)
        none none := by
  rw [bindingRows] at h
  cases htag : p.tags.binding with
  | none =>
    rw [htag] at h
    cases h
  | some tag =>
    cases hcolumn : p.hasTypeColumn with
    | false =>
      rw [htag, hcolumn] at h
      cases h
    | true =>
      rw [htag, hcolumn] at h
      exact ⟨rfl, tag, rfl, List.mem_singleton.mp h⟩

/-- **Every row behind the summary documents a part of the declaration.** -/
theorem details_of_mem (h : r ∈ (detailRows p g declaration n).1) : Details p g declaration r := by
  cases declaration with
  | classLike name superTypes =>
    change r ∈ classRows p superTypes at h
    unfold classRows at h
    split at h
    · cases h
    · next tag htag =>
      obtain ⟨type, htype, rfl⟩ := List.mem_map.mp h
      refine .parent htag ?_
      split at htype
      · exact htype
      · exact List.mem_of_mem_take htype
  | binding name declaredType initializer =>
    obtain ⟨hcolumn, tag, htag, rfl⟩ := eq_of_mem_bindingRows h
    exact .binding htag hcolumn n
  | callable c =>
    obtain ⟨i, j, k, hrows⟩ := exists_callableRows_eq p g c n
    change r ∈ (callableRows p g c n).1 at h
    rw [hrows, List.mem_append, List.mem_append, List.mem_append] at h
    rcases h with ((h | h) | h) | h
    · obtain ⟨tag, htag, rfl⟩ := exists_of_mem_memberRows h
      exact .member htag n
    · obtain ⟨arg, harg, i, rfl⟩ := exists_of_mem_mapM h
      cases hraw : c.rawArgs with
      | none =>
        rw [hraw] at harg
        cases harg
      | some raw =>
        rw [hraw] at harg
        exact .argument hraw harg i
    · obtain ⟨exception, hexception, j, rfl⟩ := exists_of_mem_mapM h
      cases hthrows : c.throws with
      | none =>
        rw [hthrows] at hexception
        cases hexception
      | some throws =>
        rw [hthrows] at hexception
        exact .exception hthrows hexception j
    · obtain ⟨tag, type, description, htype, hdescription, rfl⟩ := exists_of_mem_resultRows h
      exact .result htype hdescription k

/-- A synthesized block is its summary and, made after it, the rows of the details. -/
theorem eq_of_block? {b : Block} (h : block? p g declaration = some b) :
    b = ⟨.text (Field.stop p.tags.summary 0).1 :: (detailRows p g declaration 1).1⟩ := by
  unfold block? at h
  split at h
  · cases h
  · exact (Option.some.inj h).symm

/-! ## The counter -/

/-- The rows of class members are numbered in order. -/
theorem countsUp_memberRows (p : Profile) (kind : CallableKind) :
    CountsUp (List.flatMap Row.indices) (memberRows p kind) := by
  unfold memberRows
  split
  · exact (Field.countsUp_stop _).bind fun _ => countsUpBehind_pure (List.append_nil _)
  · exact (Field.countsUp_stop _).bind fun _ => countsUpBehind_pure (List.append_nil _)
  · exact countsUpBehind_pure rfl

/-- The rows of a binding are numbered in order. -/
theorem countsUp_bindingRows (p : Profile) (name : Text) (declaredType initializer : Option Text) :
    CountsUp (List.flatMap Row.indices) (bindingRows p name declaredType initializer) := by
  unfold bindingRows
  split
  · exact (Field.countsUp_stop _).bind fun _ => countsUpBehind_pure (by simp [Row.indices, indicesOf])
  · exact countsUpBehind_pure rfl

/-- The field of a name is numbered in order. -/
theorem countsUp_nameField (name : Text) : CountsUp Field.indices (nameField name) := by
  unfold nameField
  split
  · exact Field.countsUp_stop _
  · exact countsUpBehind_pure rfl

/-- A parameter makes its type, its name and its description in this order. -/
theorem countsUp_argumentRow (p : Profile) (arg : Argument) :
    CountsUp Row.indices (argumentRow p arg) :=
  (Field.countsUp_stopIf _ _).bind fun _ => (countsUp_nameField _).bind fun _ =>
    (Field.countsUp_stop _).bind fun _ => countsUpBehind_pure rfl

/-- The row of an exception is numbered in order. -/
theorem countsUp_exceptionRow (p : Profile) (exception : Text) :
    CountsUp Row.indices (exceptionRow p exception) := by
  refine (Field.countsUp_stopIf _ _).bind fun type => (Field.countsUp_stop _).bind fun _ =>
    countsUpBehind_pure ?_
  -- A name that is there is no stop.
  cases p.hasTypeColumn <;> simp [Row.indices, indicesOf, Field.indices, Field.text, Segment.index?]

/-- The rows of a result are numbered in order. -/
theorem countsUp_resultRows (p : Profile) (c : Callable) :
    CountsUp (List.flatMap Row.indices) (resultRows p c) := by
  unfold resultRows
  split
  · exact countsUpBehind_pure rfl
  · split
    · exact countsUpBehind_pure rfl
    · refine (Field.countsUp_stopIf _ _).bind fun _ => (Field.countsUp_stopIf _ _).bind fun _ =>
        countsUpBehind_pure ?_
      simp [Row.indices, indicesOf]

/-- **The counter goes through all rows of a callable**, whichever of them there are. -/
theorem countsUp_callableRows (p : Profile) (g : Grammar) (c : Callable) :
    CountsUp (List.flatMap Row.indices) (callableRows p g c) :=
  (countsUp_memberRows p c.kind).bind fun _ =>
    (countsUp_mapM (countsUp_argumentRow p) _).bind fun _ =>
      (countsUp_mapM (countsUp_exceptionRow p) _).bind fun _ =>
        (countsUp_resultRows p c).bind fun _ => countsUpBehind_pure (by simp)

/-- Super types are no stops. -/
theorem flatMap_indices_classRows (p : Profile) (superTypes : List Text) :
    (classRows p superTypes).flatMap Row.indices = [] := by
  unfold classRows
  split
  · rfl
  · rw [List.flatMap_map, List.flatMap_eq_nil_iff]
    exact fun _ _ => rfl

/-- **The stops of a declaration count up**, the summary first. -/
theorem countsUp_rows (p : Profile) (g : Grammar) (declaration : Declaration) :
    CountsUp (List.flatMap Row.indices) (rows p g declaration) := by
  have hdetails : CountsUp (List.flatMap Row.indices) (detailRows p g declaration) := by
    cases declaration with
    | classLike name superTypes =>
      exact countsUpBehind_pure (flatMap_indices_classRows p superTypes)
    | callable c => exact countsUp_callableRows p g c
    | binding name declaredType initializer => exact countsUp_bindingRows p name _ _
  exact (Field.countsUp_stop _).bind fun _ => hdetails.bind fun _ => countsUpBehind_pure rfl

/-- The stops of a synthesized block are all the numbers from zero on. -/
theorem indices_of_block? {b : Block} (h : block? p g declaration = some b) :
    b.indices = List.range b.indices.length := by
  unfold block? at h
  split at h
  · cases h
  · obtain rfl := Option.some.inj h
    exact ((countsUp_rows p g declaration).countUp 0).eq_range

end DocComment.Synthesis
