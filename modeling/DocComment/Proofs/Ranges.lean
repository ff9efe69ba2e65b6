import DocComment.Proofs.Text.Trim
import DocComment.Ranges
import Mathlib.Data.List.Chain
import Mathlib.Data.List.Induction

/-!
# Cutting a file at its comments

A file is **cut** into comments and the lines between them.  Both ways of looking for comments find
just the comments of such a cut (`ofText_of_wellCut`), and every file has one (`exists_wellCut`).
Comments can therefore be exchanged for other comments without a look at the line numbers.
-/

namespace DocComment.Ranges

open Text

/-! ## Cuts -/

/-- The lines of a file: comments, each with the lines before it, and the lines after the last. -/
def joined (parts : List (List Text × List Text)) (tail : List Text) : List Text :=
  parts.flatMap (fun part => part.1 ++ part.2) ++ tail

/-- The ranges of the comments of a cut that starts at line `i`. -/
def rangesOf (i : Nat) : List (List Text × List Text) → List LineRange
  | [] => []
  | (plain, comment) :: parts =>
    ⟨i + plain.length, i + plain.length + comment.length⟩ ::
      rangesOf (i + plain.length + comment.length) parts

/-- A cut into comments and lines between them; `after` tells that a comment stands before. -/
def Separated (plain : Bool → List Text → Prop) (comment : List Text → Prop) :
    Bool → List (List Text × List Text) → List Text → Prop
  | after, [], tail => plain after tail
  | after, part :: parts, tail =>
    plain after part.1 ∧ comment part.2 ∧ Separated plain comment true parts tail

@[simp] theorem joined_nil (tail : List Text) : joined [] tail = tail := rfl

/-- The lines of a cut begin with those of its first part. -/
theorem joined_cons (part : List Text × List Text) (parts : List (List Text × List Text))
    (tail : List Text) :
    joined (part :: parts) tail = part.1 ++ (part.2 ++ joined parts tail) := by
  simp [joined]

theorem add_length_cons (i : Nat) (line : Text) (lines : List Text) :
    i + 1 + lines.length = i + (line :: lines).length := by
  rw [List.length_cons]
  omega

/-! ## Comments with a closer -/

section Closed

variable (opener closer : Text)

/-- A line that opens a comment. -/
def opens (line : Text) : Bool := opener.isPrefixOf (trim line)

/-- A line that ends in the closer. -/
def closes (line : Text) : Bool := closer.isSuffixOf (trim line)

/-- An opening line that closes its comment, for which it must be more than the opener. -/
def closesAtOnce (line : Text) : Bool := closes closer line && !(trim line == opener)

/-- The lines after the first one of a comment, up to the closer. -/
inductive Body : List Text → Prop
  | last {line : Text} (hopen : opens opener line = false) (hclose : closes closer line = true) :
      Body [line]
  | cons {line : Text} {rest : List Text} (hopen : opens opener line = false)
      (hclose : closes closer line = false) (hrest : Body rest) : Body (line :: rest)

/-- The lines of a comment from its opener to the first closer. -/
inductive ClosedComment : List Text → Prop
  | single {line : Text} (hopen : opens opener line = true)
      (hclose : closesAtOnce opener closer line = true) : ClosedComment [line]
  | block {line : Text} {rest : List Text} (hopen : opens opener line = true)
      (hclose : closesAtOnce opener closer line = false) (hrest : Body opener closer rest) :
      ClosedComment (line :: rest)

/-- Lines without a comment among them. -/
def Uncommented (lines : List Text) : Prop :=
  ∀ comment, comment <:+: lines → ¬ ClosedComment opener closer comment

variable {opener closer}

/-- What the search for closed comments does at one line. -/
theorem closed_cons (i : Nat) (pending : Option Nat) (hpending : ∀ start ∈ pending, start < i)
    (line : Text) (rest : List Text) :
    closed opener closer i pending ((line :: rest).map trim) =
      if opens opener line = true then
        if closesAtOnce opener closer line = true then
          ⟨i, i + 1⟩ :: closed opener closer (i + 1) none (rest.map trim)
        else closed opener closer (i + 1) (some i) (rest.map trim)
      else
        match pending with
        | none => closed opener closer (i + 1) none (rest.map trim)
        | some start =>
          if closes closer line = true then
            ⟨start, i + 1⟩ :: closed opener closer (i + 1) none (rest.map trim)
          else closed opener closer (i + 1) (some start) (rest.map trim) := by
  rw [List.map_cons, closed]
  by_cases ho : opens opener line = true
  · have ho' : opener.isPrefixOf (trim line) = true := ho
    rw [if_pos ho', if_pos ho]
    simp [closesAtOnce, closes]
  · have ho' : ¬ opener.isPrefixOf (trim line) = true := ho
    rw [if_neg ho', if_neg ho]
    cases pending with
    | none => rfl
    | some start =>
      have hne : (i == start) = false := by
        have := hpending start rfl
        simp only [beq_eq_false_iff_ne]
        omega
      simp [hne, closes]

/-- From the second line of a comment on, the search goes to its closer and reports it. -/
theorem closed_body {lines : List Text} (h : Body opener closer lines) {i start : Nat}
    (hstart : start < i) (rest : List Text) :
    closed opener closer i (some start) ((lines ++ rest).map trim) =
      ⟨start, i + lines.length⟩ :: closed opener closer (i + lines.length) none (rest.map trim) := by
  have hpending : ∀ (j : Nat), i ≤ j → ∀ s ∈ some start, s < j := by
    rintro j hj s hs
    obtain rfl := Option.some.inj hs
    omega
  induction h generalizing i with
  | last hopen hclose =>
    rw [List.singleton_append, closed_cons i _ (hpending i (Nat.le_refl i)), hopen, hclose]
    rfl
  | @cons line lines hopen hclose _ ih =>
    rw [List.cons_append, closed_cons i _ (hpending i (Nat.le_refl i)), hopen, hclose]
    simp only [Bool.false_eq_true, if_false]
    rw [ih (by omega) fun j hj => hpending j (by omega), add_length_cons i line lines]

/-- A comment is found whatever comes before it. -/
theorem closed_comment {lines : List Text} (h : ClosedComment opener closer lines) {i : Nat}
    {pending : Option Nat} (hpending : ∀ start ∈ pending, start < i) (rest : List Text) :
    closed opener closer i pending ((lines ++ rest).map trim) =
      ⟨i, i + lines.length⟩ :: closed opener closer (i + lines.length) none (rest.map trim) := by
  cases h with
  | single hopen hclose =>
    rw [List.singleton_append, closed_cons i _ hpending, hopen, hclose]
    rfl
  | @block line lines hopen hclose hbody =>
    rw [List.cons_append, closed_cons i _ hpending, if_pos hopen, hclose]
    simp only [Bool.false_eq_true, if_false]
    have hlt : i < i + 1 := Nat.lt_succ_self i
    rw [closed_body hbody hlt, add_length_cons i line lines]

/-- The lines of a comment that is not closed yet. -/
inductive Opened (opener closer : Text) : List Text → Prop
  | first {line : Text} (hopen : opens opener line = true)
      (hclose : closesAtOnce opener closer line = false) : Opened opener closer [line]
  | more {lines : List Text} {line : Text} (hlines : Opened opener closer lines)
      (hopen : opens opener line = false) (hclose : closes closer line = false) :
      Opened opener closer (lines ++ [line])

/-- A comment that is not closed yet is closed by what follows. -/
theorem Opened.append {lines rest : List Text} (h : Opened opener closer lines)
    (hrest : Body opener closer rest) : ClosedComment opener closer (lines ++ rest) := by
  induction h generalizing rest with
  | first hopen hclose => exact .block hopen hclose hrest
  | more _ hopen hclose ih =>
    rw [List.append_assoc]
    exact ih (.cons hopen hclose hrest)

/-- What the latest opener that is not closed yet has to do with the lines since. -/
def Pending (opener closer : Text) (i : Nat) (pending : Option Nat) (opened : List Text) : Prop :=
  match pending with
  | none => opened = []
  | some start => start < i ∧ Opened opener closer opened

/-- An opener that is not closed yet stands in a line before. -/
theorem Pending.lt {i : Nat} {pending : Option Nat} {opened : List Text}
    (h : Pending opener closer i pending opened) : ∀ start ∈ pending, start < i := by
  rintro start hs
  cases pending with
  | none => cases hs
  | some s =>
    obtain rfl := Option.some.inj hs
    exact h.1

/-- Part of some lines without a comment has none either. -/
theorem Uncommented.mono {lines lines' : List Text} (h : Uncommented opener closer lines)
    (hpart : lines' <:+: lines) : Uncommented opener closer lines' :=
  fun comment hc => h comment (hc.trans hpart)

/-- Lines without a comment are passed over. -/
theorem exists_closed_uncommented {opened lines : List Text} {i : Nat} {pending : Option Nat}
    (hpending : Pending opener closer i pending opened)
    (h : Uncommented opener closer (opened ++ lines)) (rest : List Text) :
    ∃ pending', (∀ start ∈ pending', start < i + lines.length) ∧
      closed opener closer i pending ((lines ++ rest).map trim) =
        closed opener closer (i + lines.length) pending' (rest.map trim) := by
  induction lines generalizing i pending opened with
  | nil => exact ⟨pending, hpending.lt, rfl⟩
  | cons line lines ih =>
    have hnext : ∀ pending' opened', Pending opener closer (i + 1) pending' opened' →
        opened' ++ lines <:+: opened ++ line :: lines →
        ∃ pending'', (∀ start ∈ pending'', start < i + (line :: lines).length) ∧
          closed opener closer (i + 1) pending' ((lines ++ rest).map trim) =
            closed opener closer (i + (line :: lines).length) pending'' (rest.map trim) := by
      intro pending' opened' hp hpart
      obtain ⟨pending'', hlt, heq⟩ := ih hp (h.mono hpart)
      rw [add_length_cons i line lines] at hlt heq
      exact ⟨pending'', hlt, heq⟩
    rw [List.cons_append, closed_cons i _ hpending.lt]
    by_cases hopen : opens opener line = true
    · rw [if_pos hopen]
      by_cases hclose : closesAtOnce opener closer line = true
      · exact absurd (.single hopen hclose) (h [line] ⟨opened, lines, by simp⟩)
      · rw [if_neg hclose]
        rw [Bool.not_eq_true] at hclose
        exact hnext (some i) [line] ⟨Nat.lt_succ_self i, .first hopen hclose⟩
          ⟨opened, [], by simp⟩
    · rw [if_neg hopen]
      rw [Bool.not_eq_true] at hopen
      cases pending with
      | none =>
        obtain rfl : opened = [] := hpending
        exact hnext none [] rfl ⟨[line], [], by simp⟩
      | some start =>
        obtain ⟨hstart, hopened⟩ := hpending
        by_cases hclose : closes closer line = true
        · exact absurd (hopened.append (.last hopen hclose))
            (h _ ⟨[], lines, by simp⟩)
        · simp only [hclose]
          rw [Bool.not_eq_true] at hclose
          exact hnext (some start) (opened ++ [line])
            ⟨by omega, hopened.more hopen hclose⟩ ⟨[], [], by simp⟩

/-- The comments of a cut are found. -/
theorem closed_joined {parts : List (List Text × List Text)} {tail : List Text} {after : Bool}
    (h : Separated (fun _ => Uncommented opener closer) (ClosedComment opener closer) after parts
      tail) (i : Nat) :
    closed opener closer i none ((joined parts tail).map trim) = rangesOf i parts := by
  have hnone : ∀ j, Pending opener closer j none [] := fun _ => rfl
  induction parts generalizing after i with
  | nil =>
    obtain ⟨pending, -, heq⟩ := exists_closed_uncommented (hnone i) h []
    rw [joined_nil, ← List.append_nil tail, heq]
    rfl
  | cons part parts ih =>
    obtain ⟨hplain, hcomment, hparts⟩ := h
    obtain ⟨pending, hlt, heq⟩ := exists_closed_uncommented (hnone i) hplain
      (part.2 ++ joined parts tail)
    rw [joined_cons, heq, closed_comment hcomment hlt, ih hparts]
    rfl

theorem ClosedComment.ne_nil {lines : List Text} (h : ClosedComment opener closer lines) :
    lines ≠ [] := by
  cases h <;> simp

theorem uncommented_nil : Uncommented opener closer [] := by
  intro comment hpart hcomment
  exact hcomment.ne_nil (List.infix_nil.mp hpart)

/-- The first comment that a further line brings about ends with that line. -/
theorem exists_comment_at_end {lines : List Text} {line : Text}
    (h : Uncommented opener closer lines) (hnot : ¬ Uncommented opener closer (lines ++ [line])) :
    ∃ before comment, lines ++ [line] = before ++ comment ∧ Uncommented opener closer before ∧
      ClosedComment opener closer comment := by
  unfold Uncommented at hnot
  push Not at hnot
  obtain ⟨comment, ⟨before, rest, heq⟩, hcomment⟩ := hnot
  have hrest : rest = [] := by
    by_contra hne
    obtain ⟨rest, last, rfl⟩ := (List.eq_nil_or_concat' rest).resolve_left hne
    rw [← List.append_assoc] at heq
    obtain ⟨hlines, -⟩ := List.append_inj' heq rfl
    exact h comment ⟨before, rest, hlines⟩ hcomment
  rw [hrest, List.append_nil] at heq
  obtain ⟨body, last, rfl⟩ := (List.eq_nil_or_concat' comment).resolve_left hcomment.ne_nil
  rw [← List.append_assoc] at heq
  obtain ⟨hlines, -⟩ := List.append_inj' heq rfl
  refine ⟨before, body ++ [last], ?_, h.mono ⟨[], body, by simpa using hlines⟩, hcomment⟩
  rw [← List.append_assoc, heq]

/-- **Lines can be cut at their closed comments**, so that none is left between them. -/
theorem exists_parts_closed (lines : List Text) :
    ∃ parts tail, lines = joined parts tail ∧
      (∀ part ∈ parts, Uncommented opener closer part.1 ∧ ClosedComment opener closer part.2) ∧
      Uncommented opener closer tail := by
  induction lines using List.reverseRecOn with
  | nil => exact ⟨[], [], rfl, nofun, uncommented_nil⟩
  | append_singleton lines line ih =>
    obtain ⟨parts, tail, rfl, hparts, htail⟩ := ih
    by_cases hnext : Uncommented opener closer (tail ++ [line])
    · exact ⟨parts, tail ++ [line], by simp [joined], hparts, hnext⟩
    · obtain ⟨before, comment, heq, hbefore, hcomment⟩ := exists_comment_at_end htail hnext
      refine ⟨parts ++ [(before, comment)], [], ?_, ?_, uncommented_nil⟩
      · simp [joined, heq]
      · intro part hpart
        rcases List.mem_append.mp hpart with hpart | hpart
        · exact hparts part hpart
        · obtain rfl := List.mem_singleton.mp hpart
          exact ⟨hbefore, hcomment⟩

/-- A cut in which the lines between comments need not know what stands before them. -/
theorem separated_of_forall {plain comment : List Text → Prop}
    {parts : List (List Text × List Text)} {tail : List Text}
    (hparts : ∀ part ∈ parts, plain part.1 ∧ comment part.2) (htail : plain tail) (after : Bool) :
    Separated (fun _ => plain) comment after parts tail := by
  induction parts generalizing after with
  | nil => exact htail
  | cons part parts ih =>
    obtain ⟨hplain, hcomment⟩ := hparts part List.mem_cons_self
    exact ⟨hplain, hcomment, ih (fun q hq => hparts q (List.mem_cons_of_mem _ hq)) true⟩

end Closed

/-! ## Comments of marked lines -/

section Marked

variable (opener marker : Text)

/-- A line that goes on with a comment: it has the marker and is no opener. -/
def continues (line : Text) : Bool := !(trim line == opener) && marker.isPrefixOf (trim line)

/-- An opener and the marker lines after it. -/
def MarkedComment (lines : List Text) : Prop :=
  ∃ first rest, lines = first :: rest ∧ trim first = opener ∧ rest ≠ [] ∧
    ∀ line ∈ rest, continues opener marker line = true

/-- Lines in which no opener has a marker line after it.  After a comment, the first of them must
not go on with it. -/
structure Unmarked (after : Bool) (lines : List Text) : Prop where
  chain : lines.IsChain fun l m => ¬ (trim l = opener ∧ continues opener marker m = true)
  head : after = true → ∀ line ∈ lines.head?, continues opener marker line = false

variable {opener marker}

/-- The opener does not go on with a comment. -/
theorem continues_of_eq {line : Text} (h : trim line = opener) :
    continues opener marker line = false := by
  simp [continues, h]

/-- At an opener the search ends the comment before and begins one. -/
theorem marked_cons_opener {line : Text} (h : trim line = opener) (i : Nat) (pending : Option Nat)
    (rest : List Text) :
    marked opener marker i pending ((line :: rest).map trim) =
      ended pending i ++ marked opener marker (i + 1) (some i) (rest.map trim) := by
  rw [List.map_cons, marked, if_pos h]

/-- At a marker line the search goes on. -/
theorem marked_cons_continues {line : Text} (h : continues opener marker line = true) (i : Nat)
    (pending : Option Nat) (rest : List Text) :
    marked opener marker i pending ((line :: rest).map trim) =
      marked opener marker (i + 1) pending (rest.map trim) := by
  simp only [continues, Bool.and_eq_true, Bool.not_eq_true', beq_eq_false_iff_ne] at h
  rw [List.map_cons, marked, if_neg h.1, if_pos h.2]

/-- At any other line the search ends the comment before. -/
theorem marked_cons_other {line : Text} (hne : trim line ≠ opener)
    (h : continues opener marker line = false) (i : Nat) (pending : Option Nat)
    (rest : List Text) :
    marked opener marker i pending ((line :: rest).map trim) =
      ended pending i ++ marked opener marker (i + 1) none (rest.map trim) := by
  have hmarker : ¬ marker.isPrefixOf (trim line) = true := by
    intro hm
    simp [continues, hne, hm] at h
  rw [List.map_cons, marked, if_neg hne, if_neg hmarker]

/-- Over marker lines the search goes on. -/
theorem marked_body {lines : List Text}
    (h : ∀ line ∈ lines, continues opener marker line = true) (i : Nat) (pending : Option Nat)
    (rest : List Text) :
    marked opener marker i pending ((lines ++ rest).map trim) =
      marked opener marker (i + lines.length) pending (rest.map trim) := by
  induction lines generalizing i with
  | nil => rfl
  | cons line lines ih =>
    rw [List.cons_append, marked_cons_continues (h line List.mem_cons_self),
      ih fun l hl => h l (List.mem_cons_of_mem _ hl), add_length_cons i line lines]

/-- A comment is over where no line goes on with it. -/
theorem marked_after {start i : Nat} (hstart : start + 1 < i) {rest : List Text}
    (hhead : ∀ line ∈ rest.head?, continues opener marker line = false) :
    marked opener marker i (some start) (rest.map trim) =
      ⟨start, i⟩ :: marked opener marker i none (rest.map trim) := by
  have hended : ended (some start) i = [⟨start, i⟩] := by rw [ended, if_pos hstart]
  cases rest with
  | nil => exact hended
  | cons line rest =>
    by_cases heq : trim line = opener
    · rw [marked_cons_opener heq, marked_cons_opener heq, hended]
      rfl
    · have hother := hhead line rfl
      rw [marked_cons_other heq hother, marked_cons_other heq hother, hended]
      rfl

/-- The search reports a comment where its marker lines end. -/
theorem marked_comment {lines : List Text} (h : MarkedComment opener marker lines) {i : Nat}
    {pending : Option Nat} (hpending : ended pending i = []) {rest : List Text}
    (hhead : ∀ line ∈ rest.head?, continues opener marker line = false) :
    marked opener marker i pending ((lines ++ rest).map trim) =
      ⟨i, i + lines.length⟩ :: marked opener marker (i + lines.length) none (rest.map trim) := by
  obtain ⟨first, body, rfl, hfirst, hne, hbody⟩ := h
  have hlong : i + 1 < i + (first :: body).length := by
    have := List.length_pos_iff.mpr hne
    rw [List.length_cons]
    omega
  rw [List.cons_append, marked_cons_opener hfirst, hpending, List.nil_append, marked_body hbody,
    add_length_cons i first body, marked_after hlong hhead]

/-- Lines without a comment are passed over. -/
theorem exists_marked_unmarked {lines : List Text} {i : Nat} {pending : Option Nat}
    (h : Unmarked opener marker pending.isSome lines) (hpending : ended pending i = [])
    (rest : List Text) :
    ∃ pending', ended pending' (i + lines.length) = [] ∧
      marked opener marker i pending ((lines ++ rest).map trim) =
        marked opener marker (i + lines.length) pending' (rest.map trim) := by
  induction lines generalizing i pending with
  | nil => exact ⟨pending, hpending, rfl⟩
  | cons line lines ih =>
    obtain ⟨hfirst, hchain⟩ := List.isChain_cons.mp h.chain
    rw [List.cons_append]
    by_cases heq : trim line = opener
    · have hnext : Unmarked opener marker (some i).isSome lines := by
        refine ⟨hchain, fun _ l hl => ?_⟩
        rw [← Bool.not_eq_true]
        exact fun hl' => hfirst l hl ⟨heq, hl'⟩
      have hended : ended (some i) (i + 1) = [] := by rw [ended, if_neg (by omega)]
      rw [marked_cons_opener heq, hpending, List.nil_append, ← add_length_cons i line lines]
      exact ih hnext hended
    · have hnext : Unmarked opener marker (none : Option Nat).isSome lines := ⟨hchain, nofun⟩
      cases hcontinues : continues opener marker line with
      | true =>
        cases pending with
        | some start =>
          rw [h.head rfl line rfl] at hcontinues
          cases hcontinues
        | none =>
          rw [marked_cons_continues hcontinues, ← add_length_cons i line lines]
          exact ih hnext rfl
      | false =>
        rw [marked_cons_other heq hcontinues, hpending, List.nil_append,
          ← add_length_cons i line lines]
        exact ih hnext rfl

/-- After a comment, the lines do not go on with it. -/
theorem head_joined {parts : List (List Text × List Text)} {tail : List Text}
    (h : Separated (Unmarked opener marker) (MarkedComment opener marker) true parts tail) :
    ∀ line ∈ (joined parts tail).head?, continues opener marker line = false := by
  cases parts with
  | nil => exact h.head rfl
  | cons part parts =>
    obtain ⟨hplain, ⟨first, body, hcomment, hfirst, -⟩, -⟩ := h
    rw [joined_cons, hcomment]
    intro line hline
    cases hlines : part.1 with
    | nil =>
      rw [hlines] at hline
      obtain rfl : first = line := Option.some.inj hline
      exact continues_of_eq hfirst
    | cons l ls =>
      rw [hlines] at hline
      obtain rfl : l = line := Option.some.inj hline
      exact hplain.head rfl l (by rw [hlines]; rfl)

/-- The comments of a cut are found. -/
theorem marked_joined {parts : List (List Text × List Text)} {tail : List Text} {after : Bool}
    (h : Separated (Unmarked opener marker) (MarkedComment opener marker) after parts tail)
    (i : Nat) :
    marked opener marker i none ((joined parts tail).map trim) = rangesOf i parts := by
  induction parts generalizing after i with
  | nil =>
    have hplain : Unmarked opener marker (none : Option Nat).isSome tail := ⟨h.chain, nofun⟩
    obtain ⟨pending, hpending, heq⟩ := exists_marked_unmarked (i := i) hplain rfl []
    rw [joined_nil, ← List.append_nil tail, heq]
    exact hpending
  | cons part parts ih =>
    obtain ⟨hplain, hcomment, hparts⟩ := h
    have hplain' : Unmarked opener marker (none : Option Nat).isSome part.1 := ⟨hplain.chain, nofun⟩
    obtain ⟨pending, hpending, heq⟩ := exists_marked_unmarked (i := i) hplain' rfl
      (part.2 ++ joined parts tail)
    rw [joined_cons, heq, marked_comment hcomment hpending (head_joined hparts), ih hparts]
    rfl

/-- A line goes before the lines before the first comment. -/
theorem exists_cons_separated {parts : List (List Text × List Text)} {tail : List Text}
    {line : Text} {after : Bool}
    (h : Separated (Unmarked opener marker) (MarkedComment opener marker) false parts tail)
    (hnext : ∀ l ∈ (joined parts tail).head?,
      ¬ (trim line = opener ∧ continues opener marker l = true))
    (hafter : after = true → continues opener marker line = false) :
    ∃ parts' tail', line :: joined parts tail = joined parts' tail' ∧
      Separated (Unmarked opener marker) (MarkedComment opener marker) after parts' tail' := by
  have hhead : after = true → ∀ l ∈ (line :: tail).head?, continues opener marker l = false := by
    intro ha l hl
    obtain rfl := Option.some.inj hl
    exact hafter ha
  cases parts with
  | nil => exact ⟨[], line :: tail, rfl, List.isChain_cons.mpr ⟨hnext, h.chain⟩, hhead⟩
  | cons part parts =>
    obtain ⟨hplain, hcomment, hparts⟩ := h
    refine ⟨(line :: part.1, part.2) :: parts, tail, by simp [joined_cons], ⟨?_, hhead⟩, hcomment,
      hparts⟩
    refine List.isChain_cons.mpr ⟨fun l hl => hnext l ?_, hplain.chain⟩
    rw [joined_cons, List.head?_append, hl]
    rfl

/-- **Lines can be cut at their marked comments**, so that none is left between them. -/
theorem exists_parts_marked (lines : List Text) (after : Bool)
    (hafter : after = true → ∀ line ∈ lines.head?, continues opener marker line = false) :
    ∃ parts tail, lines = joined parts tail ∧
      Separated (Unmarked opener marker) (MarkedComment opener marker) after parts tail := by
  induction hn : lines.length using Nat.strong_induction_on generalizing lines after with
  | _ n ih =>
    cases lines with
    | nil => exact ⟨[], [], rfl, List.isChain_nil, nofun⟩
    | cons line rest =>
      rw [List.length_cons] at hn
      by_cases hstart : trim line = opener ∧ ∃ l ∈ rest.head?, continues opener marker l = true
      · -- A comment, which takes all the lines that go on with it.
        obtain ⟨hopener, l, hl, hcontinues⟩ := hstart
        have hshort := List.length_dropWhile_le (continues opener marker) rest
        have hrest : true = true → ∀ m ∈ (rest.dropWhile (continues opener marker)).head?,
            continues opener marker m = false := by
          intro _ m hm
          have hnot := List.head?_dropWhile_not (continues opener marker) rest
          rw [Option.mem_def] at hm
          rwa [hm] at hnot
        obtain ⟨parts, tail, heq, hparts⟩ := ih _ (by omega) _ true hrest rfl
        refine ⟨([], line :: rest.takeWhile (continues opener marker)) :: parts, tail, ?_,
          ⟨List.isChain_nil, nofun⟩, ⟨line, _, rfl, hopener, ?_, ?_⟩, hparts⟩
        · rw [joined_cons, ← heq, List.nil_append, List.cons_append,
            List.takeWhile_append_dropWhile]
        · obtain ⟨rest, rfl⟩ := List.head?_eq_some_iff.mp hl
          simp [hcontinues]
        · exact fun m hm => List.mem_takeWhile_imp hm
      · obtain ⟨parts, tail, rfl, hparts⟩ := ih _ (by omega) rest false nofun rfl
        refine exists_cons_separated hparts ?_ fun ha => hafter ha line rfl
        exact fun l hl hboth => hstart ⟨hboth.1, l, hl, hboth.2⟩

end Marked

/-! ## Both kinds of comments -/

/-- Lines without a comment, in the frame of a dialect. -/
def IsPlain (d : Delimiters) (after : Bool) (lines : List Text) : Prop :=
  match d.closer with
  | some closer => Uncommented d.opener (trim closer) lines
  | none => Unmarked d.opener (trim d.marker) after lines

/-- The lines of a comment, in the frame of a dialect. -/
def IsComment (d : Delimiters) (lines : List Text) : Prop :=
  match d.closer with
  | some closer => ClosedComment d.opener (trim closer) lines
  | none => MarkedComment d.opener (trim d.marker) lines

/-- A file that is cut at its comments. -/
def WellCut (d : Delimiters) (parts : List (List Text × List Text)) (tail : List Text) : Prop :=
  Separated (IsPlain d) (IsComment d) false parts tail

section Frames

variable {d : Delimiters} {parts : List (List Text × List Text)} {tail : List Text}

/-- With a closer, a file is cut at its closed comments. -/
theorem wellCut_of_closer {closer : Text} (hc : d.closer = some closer) :
    WellCut d parts tail ↔ Separated (fun _ => Uncommented d.opener (trim closer))
      (ClosedComment d.opener (trim closer)) false parts tail := by
  unfold WellCut IsPlain IsComment
  rw [hc]

/-- Without one, a file is cut at its marked comments. -/
theorem wellCut_of_no_closer (hc : d.closer = none) :
    WellCut d parts tail ↔ Separated (Unmarked d.opener (trim d.marker))
      (MarkedComment d.opener (trim d.marker)) false parts tail := by
  unfold WellCut IsPlain IsComment
  rw [hc]

/-- **The ranges of a file are those of its comments.** -/
theorem ofText_of_wellCut {p : Profile} (hd : p.delimiters? = some d) {text : Text}
    (hlines : lines text = joined parts tail) (h : WellCut d parts tail) :
    ofText p text = rangesOf 0 parts := by
  simp only [ofText, hd, hlines]
  cases hc : d.closer with
  | some closer => exact closed_joined ((wellCut_of_closer hc).mp h) 0
  | none => exact marked_joined ((wellCut_of_no_closer hc).mp h) 0

/-- **Every file can be cut at its comments.** -/
theorem exists_wellCut (d : Delimiters) (lines : List Text) :
    ∃ parts tail, lines = joined parts tail ∧ WellCut d parts tail := by
  cases hc : d.closer with
  | some closer =>
    obtain ⟨parts, tail, heq, hparts, htail⟩ := exists_parts_closed lines
    exact ⟨parts, tail, heq, (wellCut_of_closer hc).mpr (separated_of_forall hparts htail false)⟩
  | none =>
    obtain ⟨parts, tail, heq, hseparated⟩ := exists_parts_marked lines false nofun
    exact ⟨parts, tail, heq, (wellCut_of_no_closer hc).mpr hseparated⟩

/-- Comments may take the place of comments. -/
theorem Separated.map {plain : Bool → List Text → Prop} {comment : List Text → Prop}
    {after : Bool} (h : Separated plain comment after parts tail) {f : List Text → List Text}
    (hf : ∀ part ∈ parts, comment (f part.2)) :
    Separated plain comment after (parts.map fun part => (part.1, f part.2)) tail := by
  induction parts generalizing after with
  | nil => exact h
  | cons part parts ih =>
    obtain ⟨hplain, -, hparts⟩ := h
    exact ⟨hplain, hf part List.mem_cons_self,
      ih hparts fun q hq => hf q (List.mem_cons_of_mem _ hq)⟩

theorem WellCut.isComment (h : WellCut d parts tail) : ∀ part ∈ parts, IsComment d part.2 := by
  unfold WellCut at h
  generalize false = after at h
  induction parts generalizing after with
  | nil => nofun
  | cons part parts ih =>
    obtain ⟨-, hcomment, hparts⟩ := h
    intro q hq
    rcases List.mem_cons.mp hq with rfl | hq
    · exact hcomment
    · exact ih true hparts q hq

/-- A comment has a line. -/
theorem IsComment.ne_nil {lines : List Text} (h : IsComment d lines) : lines ≠ [] := by
  unfold IsComment at h
  split at h
  · exact h.ne_nil
  · obtain ⟨first, rest, rfl, -⟩ := h
    exact List.cons_ne_nil _ _

end Frames

end DocComment.Ranges
