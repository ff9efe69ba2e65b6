import Mathlib.Data.List.Infix
import DocComment.Proofs.Pattern.Covering
import DocComment.Proofs.TagLine.Cut
import DocComment.Proofs.Text.Occurrence

/-!
# Which parameter lists are matched

A parameter list ends at the parenthesis that closes the first one, and parentheses may be nested in
it at most two deep.  This is told by counting (`NestedWithin`): nowhere has more been closed than
opened, and nowhere are more than so many open.  The pattern does not count.  It takes the text
apart from the left, into single characters and groups in parentheses (`Grouped`).

The two agree because the first closer for which nothing is open any more ends the first group
(`exists_closer`).  What the pattern describes is grouped (`grouped_of_describes`), so every way to
match ends behind the closing parenthesis (`exists_of_mem_ends_parameterList`), and what is grouped
is covered to its end (`covers_grouped`), so there is such a way.
-/

namespace DocComment.Pattern

open Text
open TagLine (Balanced)

/-! ## Nested parentheses -/

/-- Every parenthesis of a text has its partner in the text, and at most `n` are open at once. -/
structure NestedWithin (n : Nat) (t : Text) : Prop where
  balanced : Balanced '(' ')' t
  depth : ∀ u, u <+: t → u.count '(' ≤ u.count ')' + n

/-- A text taken apart from the left, into characters that are no parentheses and groups in
parentheses, nested at most `n` deep. -/
inductive Grouped : Nat → Text → Prop
  | nil (n : Nat) : Grouped n []
  | char {n : Nat} {c : Char} {t : Text} (ho : c ≠ '(') (hc : c ≠ ')') (ht : Grouped n t) :
      Grouped n (c :: t)
  | group {n : Nat} {inner t : Text} (hinner : Grouped n inner) (ht : Grouped (n + 1) t) :
      Grouped (n + 1) ('(' :: (inner ++ ')' :: t))

section Counting

variable {n : Nat} {c : Char} {s t inner : Text} {P : Text → Prop}

/-- The beginnings of a text are the empty one and those with its first character. -/
theorem forall_isPrefix_cons :
    (∀ u, u <+: c :: t → P u) ↔ P [] ∧ ∀ u, u <+: t → P (c :: u) := by
  simp only [List.prefix_cons_iff]
  constructor
  · exact fun h => ⟨h [] (Or.inl rfl), fun u hu => h (c :: u) (Or.inr ⟨u, rfl, hu⟩)⟩
  · rintro ⟨hnil, hcons⟩ u (rfl | ⟨v, rfl, hv⟩)
    · exact hnil
    · exact hcons v hv

/-- The beginnings of two texts are those of the first, and the first with those of the second. -/
theorem forall_isPrefix_append :
    (∀ u, u <+: s ++ t → P u) ↔ (∀ u, u <+: s → P u) ∧ ∀ u, u <+: t → P (s ++ u) := by
  induction s generalizing P with
  | nil =>
    simp only [List.nil_append, List.prefix_nil, forall_eq]
    exact ⟨fun h => ⟨h [] List.nil_prefix, h⟩, And.right⟩
  | cons c s ih =>
    rw [List.cons_append, forall_isPrefix_cons, forall_isPrefix_cons, ih, and_assoc]
    rfl

/-- How many parentheses are open stays between two bounds and ends at the lower one. -/
theorem nestedWithin_iff :
    NestedWithin n t ↔
      (∀ u, u <+: t → u.count ')' ≤ u.count '(' ∧ u.count '(' ≤ u.count ')' + n) ∧
        t.count ')' = t.count '(' := by
  constructor
  · exact fun ⟨⟨hbefore, hcount⟩, hdepth⟩ => ⟨fun u hu => ⟨hbefore u hu, hdepth u hu⟩, hcount⟩
  · exact fun ⟨h, hcount⟩ => ⟨⟨fun u hu => (h u hu).1, hcount⟩, fun u hu => (h u hu).2⟩

instance (n : Nat) (t : Text) : Decidable (NestedWithin n t) :=
  decidable_of_iff
    ((∀ u ∈ t.inits, u.count ')' ≤ u.count '(' ∧ u.count '(' ≤ u.count ')' + n) ∧
      t.count ')' = t.count '(')
    (by simp only [nestedWithin_iff, List.mem_inits])

theorem nestedWithin_nil (n : Nat) : NestedWithin n [] := by
  simp [nestedWithin_iff]

/-- Other characters in front have no share in the nesting. -/
theorem nestedWithin_cons_iff (ho : c ≠ '(') (hc : c ≠ ')') :
    NestedWithin n (c :: t) ↔ NestedWithin n t := by
  simp [nestedWithin_iff, forall_isPrefix_cons, List.count_cons_of_ne ho, List.count_cons_of_ne hc]

/-- Other text in front has no share in the nesting. -/
theorem nestedWithin_append_iff (hs : ∀ c ∈ s, c ≠ '(' ∧ c ≠ ')') :
    NestedWithin n (s ++ t) ↔ NestedWithin n t := by
  induction s with
  | nil => rfl
  | cons c s ih =>
    obtain ⟨hc, hs⟩ := List.forall_mem_cons.mp hs
    rw [List.cons_append, nestedWithin_cons_iff hc.1 hc.2, ih hs]

/-- A text that starts with a closer has none to open it. -/
theorem not_nestedWithin_closer : ¬ NestedWithin n (')' :: t) := by
  intro h
  have hfirst := h.balanced.1 [')'] ⟨t, rfl⟩
  simp at hfirst

/-- What stands in a group may be nested one level less deep than what the group stands in. -/
theorem nestedWithin_group_iff (hinner : Balanced '(' ')' inner) :
    NestedWithin (n + 1) ('(' :: (inner ++ ')' :: t)) ↔
      NestedWithin n inner ∧ NestedWithin (n + 1) t := by
  obtain ⟨hbefore, hcount⟩ := hinner
  simp only [nestedWithin_iff, forall_isPrefix_cons, forall_isPrefix_append, List.count_append,
    List.count_cons, List.count_nil, beq_self_eq_true, if_true, beq_iff_eq, Char.reduceEq, if_false,
    hcount]
  constructor
  · rintro ⟨⟨-, hinside, -, hbehind⟩, htotal⟩
    refine ⟨⟨fun u hu => ⟨hbefore u hu, ?_⟩, trivial⟩, fun u hu => ?_, ?_⟩
    · have := (hinside u hu).2
      omega
    · have := hbehind u hu
      omega
    · omega
  · rintro ⟨⟨hinside, -⟩, hbehind, htotal⟩
    refine ⟨⟨by omega, fun u hu => ?_, by omega, fun u hu => ?_⟩, ?_⟩
    · have := hinside u hu
      omega
    · have := hbehind u hu
      omega
    · omega

/-- Where `d` are open at the start and more than `d` more are closed than opened, there is a first
closer for which none is open any more. -/
theorem exists_closer {d : Nat} (h : t.count '(' + d < t.count ')') :
    ∃ inner tail, t = inner ++ ')' :: tail ∧ inner.count ')' = inner.count '(' + d ∧
      ∀ u, u <+: inner → u.count ')' ≤ u.count '(' + d := by
  induction t generalizing d with
  | nil => simp at h
  | cons c t ih =>
    -- The first character changes how many are open from `d` to `e`.
    have hstep : ∀ e, (∀ u : Text,
        (c :: u).count ')' + u.count '(' + e = u.count ')' + (c :: u).count '(' + d) →
        ∃ inner tail, c :: t = inner ++ ')' :: tail ∧ inner.count ')' = inner.count '(' + d ∧
          ∀ u, u <+: inner → u.count ')' ≤ u.count '(' + d := by
      intro e he
      have hlt : t.count '(' + e < t.count ')' := by
        have := he t
        omega
      obtain ⟨inner, tail, rfl, hcount, hbefore⟩ := ih hlt
      refine ⟨c :: inner, tail, rfl, ?_, forall_isPrefix_cons.mpr ⟨Nat.zero_le _, fun u hu => ?_⟩⟩
      · have := he inner
        omega
      · have := he u
        have := hbefore u hu
        omega
    by_cases hc : c = ')'
    · subst hc
      cases d with
      | zero => exact ⟨[], t, rfl, rfl, fun u hu => by simp [List.prefix_nil.mp hu]⟩
      | succ e =>
        apply hstep e
        intro u
        rw [List.count_cons_self, List.count_cons_of_ne (by decide)]
        omega
    · by_cases ho : c = '('
      · subst ho
        apply hstep (d + 1)
        intro u
        rw [List.count_cons_self, List.count_cons_of_ne (by decide)]
        omega
      · apply hstep d
        intro u
        rw [List.count_cons_of_ne hc, List.count_cons_of_ne ho]

/-- A text that starts with a parenthesis starts with a group. -/
theorem NestedWithin.exists_group (h : NestedWithin n ('(' :: t)) :
    ∃ m inner tail, n = m + 1 ∧ t = inner ++ ')' :: tail ∧ NestedWithin m inner ∧
      NestedWithin (m + 1) tail := by
  have hopen : 1 ≤ n := by simpa using h.depth ['('] ⟨t, rfl⟩
  have hcount : t.count ')' = t.count '(' + 1 := by simpa using h.balanced.2
  obtain ⟨m, rfl⟩ : ∃ m, n = m + 1 := ⟨n - 1, by omega⟩
  have hlt : t.count '(' + 0 < t.count ')' := by omega
  obtain ⟨inner, tail, rfl, hinner, hbefore⟩ := exists_closer hlt
  obtain ⟨hnested, htail⟩ := (nestedWithin_group_iff ⟨hbefore, hinner⟩).mp h
  exact ⟨m, inner, tail, rfl, rfl, hnested, htail⟩

/-- **A text of nested parentheses can be taken apart**, group by group. -/
theorem NestedWithin.grouped (h : NestedWithin n t) : Grouped n t := by
  induction hlen : t.length using Nat.strong_induction_on generalizing n t with
  | _ k ih =>
    subst hlen
    cases t with
    | nil => exact .nil n
    | cons c t =>
      by_cases ho : c = '('
      · subst ho
        obtain ⟨m, inner, tail, rfl, rfl, hinner, htail⟩ := h.exists_group
        have hshorter : inner.length < ('(' :: (inner ++ ')' :: tail)).length ∧
            tail.length < ('(' :: (inner ++ ')' :: tail)).length := by
          simp only [List.length_cons, List.length_append]
          omega
        exact .group (ih _ hshorter.1 hinner rfl) (ih _ hshorter.2 htail rfl)
      · by_cases hc : c = ')'
        · subst hc
          exact absurd h not_nestedWithin_closer
        · exact .char ho hc (ih _ (Nat.lt_succ_self _) ((nestedWithin_cons_iff ho hc).mp h) rfl)

/-- What is grouped is nested within the depth of its groups. -/
theorem Grouped.nestedWithin (h : Grouped n t) : NestedWithin n t := by
  induction h with
  | nil n => exact nestedWithin_nil n
  | char ho hc _ ih => exact (nestedWithin_cons_iff ho hc).mpr ih
  | group _ _ hinner ht => exact (nestedWithin_group_iff hinner.balanced).mpr ⟨hinner, ht⟩

end Counting

/-! ## The pieces of a parameter list -/

/-- A character that is no parenthesis or, if any nesting is allowed, a group of pieces that are
nested one level less deep. -/
def piece : Nat → Pattern
  | 0 => unparenthesized
  | n + 1 => unparenthesized ||| lit "(" ++ star (piece n) ++ lit ")"

/-- A parameter list is made of pieces that are nested at most two deep. -/
theorem parameterList_eq :
    parameterList = lit "(" ++ blanks ++ group .parameters (star (piece 2)) ++ lit ")" := rfl

section Pieces

variable {n : Nat} {last : Option Char} {c : Char} {t u r : Text}

theorem nullable_piece (n : Nat) : (piece n).nullable = false := by
  cases n <;> rfl

/-- No piece starts with a closer. -/
theorem opensWith_piece (n : Nat) : (piece n).opensWith ')' = false := by
  cases n <;> rfl

theorem ne_parentheses_iff : (!"()".toList.contains c) = true ↔ c ≠ '(' ∧ c ≠ ')' := by
  simp

/-- A character that is no parenthesis is a piece. -/
theorem covers_piece_char (n : Nat) (ho : c ≠ '(') (hc : c ≠ ')') :
    Covers (piece n) last [c] r [] := by
  have hchar : Covers unparenthesized last [c] r [] := covers_one (ne_parentheses_iff.mpr ⟨ho, hc⟩)
  cases n with
  | zero => exact hchar
  | succ n => exact hchar.left

/-- **What is grouped is covered** up to the closer behind it. -/
theorem covers_grouped (h : Grouped n t) : Covers (star (piece n)) last t (')' :: r) [] := by
  induction h generalizing last r with
  | nil n =>
    apply covers_star_nil (nullable_piece n)
    intro c hc
    obtain rfl : ')' = c := Option.some.inj hc
    exact opensWith_piece n
  | @char n c t ho hc _ ih =>
    exact (covers_piece_char n ho hc).star_append (nullable_piece n) fun _ => ih
  | @group n inner t _ _ hinner ht =>
    have hgroup : Covers (lit "(" ++ star (piece n) ++ lit ")") last ('(' :: inner ++ [')'])
        (t ++ ')' :: r) [] :=
      ((covers_lit ['(']).append fun _ => hinner).append fun _ => covers_lit [')']
    have hpiece : Covers (piece (n + 1)) last ('(' :: inner ++ [')']) (t ++ ')' :: r) [] :=
      hgroup.right fun _ => rfl
    have hall := hpiece.star_append (nullable_piece (n + 1)) fun _ => ht
    simpa using hall

/-- A single character may stand in front of what is grouped. -/
theorem Grouped.char_append (hu : unparenthesized.Describes u) (ht : Grouped n t) :
    Grouped n (u ++ t) := by
  obtain ⟨c, hc, rfl⟩ := hu
  obtain ⟨ho, hc⟩ := ne_parentheses_iff.mp hc
  exact .char ho hc ht

/-- Texts that may each stand in front of what is grouped are grouped together. -/
theorem grouped_flatten {us : List Text}
    (hus : ∀ u ∈ us, ∀ t, Grouped n t → Grouped n (u ++ t)) : Grouped n us.flatten := by
  induction us with
  | nil => exact .nil n
  | cons u us ih =>
    obtain ⟨hu, hus⟩ := List.forall_mem_cons.mp hus
    exact hu _ (ih hus)

/-- **What the pieces describe is grouped.** -/
theorem grouped_of_describes (h : (star (piece n)).Describes t) : Grouped n t := by
  induction n generalizing t with
  | zero =>
    obtain ⟨us, hus, rfl⟩ := h
    exact grouped_flatten fun u hu _ ht => ht.char_append (hus u hu)
  | succ n ih =>
    obtain ⟨us, hus, rfl⟩ := h
    apply grouped_flatten
    intro u hu t ht
    rcases hus u hu with hchar | ⟨_, _, ⟨_, inner, rfl, hinner, rfl⟩, rfl, rfl⟩
    · exact ht.char_append hchar
    · have hgroup := Grouped.group (ih hinner) ht
      simpa using hgroup

end Pieces

/-! ## Where a parameter list ends and what it captures -/

section ParameterList

variable {last : Option Char} {c : Char} {s t r : Text} {place later : Cursor}

/-- No blank is a parenthesis. -/
theorem ne_parentheses_of_blanks (hs : Blanks s) : ∀ c ∈ s, c ≠ '(' ∧ c ≠ ')' := fun c hc =>
  ⟨ne_of_class (hs c hc) (by decide), ne_of_class (hs c hc) (by decide)⟩

/-- A match that ends in a character leaves it as the last one passed. -/
theorem last_of_mem_ends_append_lit {p : Pattern} (h : later ∈ (p ++ lit [c]).ends place) :
    later.last = some c := by
  obtain ⟨mid, -, hlater⟩ := List.mem_flatMap.mp h
  have hskip : mid.skip? [c] = some later := Option.mem_toList.mp hlater
  obtain ⟨after, hstep, hafter⟩ := Option.bind_eq_some_iff.mp hskip
  obtain rfl : after = later := Option.some.inj hafter
  unfold Cursor.step? at hstep
  split at hstep
  · cases hstep
  · split at hstep
    · next hc =>
      obtain rfl := Option.some.inj hstep
      exact congrArg some (eq_of_beq hc)
    · cases hstep

/-- **Every way to match ends at one place**: behind the parenthesis that closes the first one. -/
theorem exists_of_mem_ends_parameterList (h : later ∈ parameterList.ends place) :
    ∃ body, place.rest = '(' :: (body ++ ')' :: later.rest) ∧ NestedWithin 2 body ∧
      later.last = some ')' := by
  rw [parameterList_eq] at h
  obtain ⟨_, _, ⟨_, args, ⟨_, gap, rfl, hgap, rfl⟩, hargs, rfl⟩, rfl, hpassed⟩ :=
    describes_of_mem_ends _ h
  have hrest := passed_append_rest (rest_suffix_of_mem_ends _ h)
  rw [hpassed] at hrest
  have hblank : Blanks gap := hgap.forall_mem fun _ hc => hc
  have hgrouped : Grouped 2 args := grouped_of_describes hargs
  refine ⟨gap ++ args, ?_, ?_, last_of_mem_ends_append_lit h⟩
  · rw [← hrest]
    simp
  · exact (nestedWithin_append_iff (ne_parentheses_of_blanks hblank)).mpr hgrouped.nestedWithin

/-- The first way to match takes the leading blanks away from what is captured. -/
theorem covers_parameterList (h : NestedWithin 2 t) :
    Covers parameterList last ('(' :: (t ++ [')'])) r [(.parameters, trimStart t)] := by
  obtain ⟨gap, hgap, hsplit⟩ := exists_blanks_append_trimStart t
  have hgrouped : Grouped 2 (trimStart t) :=
    ((nestedWithin_append_iff (ne_parentheses_of_blanks hgap)).mp (hsplit ▸ h)).grouped
  have htight : StartsTight (trimStart t ++ ')' :: r) := by
    cases ht : trimStart t with
    | nil => exact startsTight_cons.mpr (by decide)
    | cons c u =>
      have hstart := startsTight_trimStart t
      rw [ht] at hstart
      exact startsTight_cons.mpr (startsTight_cons.mp hstart)
  have hopening : Covers (lit "(" ++ blanks) last (['('] ++ gap) (trimStart t ++ ')' :: r) [] :=
    (covers_lit ['(']).append fun _ => covers_blanks hgap htight
  have hargs : ∀ mid, Covers (group .parameters (star (piece 2))) mid (trimStart t) (')' :: r)
      [(.parameters, trimStart t)] := fun _ => (covers_grouped hgrouped).group .parameters
  have htext : '(' :: (t ++ [')']) = ['('] ++ gap ++ trimStart t ++ [')'] := by
    conv_lhs => rw [hsplit]
    simp
  rw [htext, parameterList_eq]
  exact (hopening.append hargs).append fun _ => covers_lit [')']

/-- What is nested at most two deep is matched, and captured without its leading blanks. -/
theorem at?_parameterList_of_nestedWithin {body rest : Text} (h : NestedWithin 2 body) :
    parameterList.at? last ('(' :: (body ++ ')' :: rest)) =
      some ⟨some ')', rest, [(.parameters, trimStart body)]⟩ := by
  have hcovers : Covers parameterList last ('(' :: (body ++ [')'])) rest _ := covers_parameterList h
  have htext : '(' :: (body ++ ')' :: rest) = '(' :: (body ++ [')']) ++ rest := by simp
  obtain ⟨mid, hat⟩ := hcovers.at?_eq
  rw [htext, hat]
  rw [at?_eq_head?] at hat
  obtain ⟨-, -, -, hlast⟩ := exists_of_mem_ends_parameterList (List.mem_of_head? hat)
  obtain rfl : mid = some ')' := hlast
  rfl

/-- **A parameter list is matched** exactly if the parenthesis at its start is closed and what
stands between the two parentheses is nested at most two deep.  The match ends behind the closing
parenthesis and captures what stands between, without its leading blanks. -/
theorem at?_parameterList_eq_some_iff :
    parameterList.at? last ('(' :: t) = some later ↔
      ∃ body rest, t = body ++ ')' :: rest ∧ NestedWithin 2 body ∧
        later = ⟨some ')', rest, [(.parameters, trimStart body)]⟩ := by
  constructor
  · intro h
    have hmem : later ∈ parameterList.ends ⟨last, '(' :: t, []⟩ := by
      rw [at?_eq_head?] at h
      exact List.mem_of_head? h
    obtain ⟨body, hrest, hnested, -⟩ := exists_of_mem_ends_parameterList hmem
    obtain rfl : t = body ++ ')' :: later.rest := (List.cons.inj hrest).2
    refine ⟨body, later.rest, rfl, hnested, ?_⟩
    exact Option.some.inj (h.symm.trans (at?_parameterList_of_nestedWithin hnested))
  · rintro ⟨body, rest, rfl, hnested, rfl⟩
    exact at?_parameterList_of_nestedWithin hnested

/-- Two levels are followed, a third one is not. -/
example : NestedWithin 2 " a = g(h(1)), b".toList ∧ ¬ NestedWithin 2 "a = g(h(i(1)))".toList ∧
    (parameterList.at? none "( a = g(h(1)), b);".toList).map Cursor.parts =
      some [(.parameters, "a = g(h(1)), b".toList)] ∧
    (parameterList.at? none "(a = g(h(i(1))))".toList).isNone = true := by
  decide

end ParameterList

end DocComment.Pattern
