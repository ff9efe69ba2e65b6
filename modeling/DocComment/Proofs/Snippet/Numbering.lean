import DocComment.Proofs.Snippet.Carries
import Mathlib.Data.List.Forall2

/-!
# Numbering tab stops

One counter goes through everything that makes a block.  What is made with it **counts up** if,
whatever number is free before, the stops from left to right are that number, the next one and so
on, and the number that is free afterwards is the one behind the last (`Numbered.CountsUp`).  A new
stop counts up, and so does whatever is made of parts that count up and that stand in the order in
which they are made (`Numbered.CountsUp.bind`).  A template counts up because each stop that the
scanner finds is made before the text behind it is looked at (`Field.countsUp_template`).
-/

namespace DocComment

/-- The stops `ns` count up from `n`, and `m` is the next free number. -/
def CountUp (n : Nat) (ns : List Nat) (m : Nat) : Prop :=
  ns = List.range' n ns.length ∧ m = n + ns.length

/-- Without stops the counter stands still. -/
theorem countUp_nil (n : Nat) : CountUp n [] n := ⟨rfl, rfl⟩

/-- Where one run of stops ends the next one goes on. -/
theorem CountUp.append {n k m : Nat} {ms ns : List Nat} (hm : CountUp n ms k)
    (hn : CountUp k ns m) : CountUp n (ms ++ ns) m := by
  obtain ⟨hms, rfl⟩ := hm
  obtain ⟨hns, rfl⟩ := hn
  constructor
  · rw [List.length_append, ← List.range'_append_1, ← hms, ← hns]
  · rw [List.length_append, Nat.add_assoc]

/-- Stops that count up from zero are all the numbers below the next free one. -/
theorem CountUp.eq_range {ns : List Nat} {m : Nat} (h : CountUp 0 ns m) :
    ns = List.range ns.length := by
  rw [List.range_eq_range']
  exact h.1

namespace Numbered

variable {α β : Type} {before : List Nat} {indices : α → List Nat} {counted : β → List Nat}

/-- The value has the stops `before`, which are there already, and behind them stops that count up
from the free number. -/
def CountsUpBehind (before : List Nat) (indices : α → List Nat) (x : Numbered α) : Prop :=
  ∀ n, ∃ ns, indices (x n).1 = before ++ ns ∧ CountUp n ns (x n).2

/-- All stops of the value are new ones and count up from the free number. -/
abbrev CountsUp (indices : α → List Nat) (x : Numbered α) : Prop := CountsUpBehind [] indices x

/-- What counts up gives out every number from the free one to the one it leaves free. -/
theorem CountsUp.countUp {x : Numbered α} (h : CountsUp indices x) (n : Nat) :
    CountUp n (indices (x n).1) (x n).2 := by
  obtain ⟨ns, hns, hcount⟩ := h n
  rw [hns]
  exact hcount

/-- What is put together of finished parts has their stops and no others. -/
theorem countsUpBehind_pure {a : α} (h : indices a = before) :
    CountsUpBehind before indices (pure a : Numbered α) := by
  intro n
  refine ⟨[], ?_, countUp_nil n⟩
  rw [List.append_nil]
  exact h

/-- **One part after another.**  A part takes its numbers first, and what is made with it has its
stops before those that are made later. -/
theorem CountsUp.bind {x : Numbered α} {f : α → Numbered β} (hx : CountsUp indices x)
    (hf : ∀ a, CountsUpBehind (before ++ indices a) counted (f a)) :
    CountsUpBehind before counted (x >>= f) := by
  intro n
  obtain ⟨ns, hns, hcount⟩ := hf (x n).1 (x n).2
  rw [List.append_assoc] at hns
  exact ⟨indices (x n).1 ++ ns, hns, (hx.countUp n).append hcount⟩

/-- What is made of one part keeps its stops. -/
theorem CountsUp.map {x : Numbered α} {f : α → β} (hx : CountsUp indices x)
    (hf : ∀ a, counted (f a) = indices a) : CountsUp counted (f <$> x) := by
  intro n
  refine ⟨counted (f (x n).1), rfl, ?_⟩
  rw [hf]
  exact hx.countUp n

/-- **One part for each item of a list**, in the order of the list. -/
theorem countsUp_mapM {f : α → Numbered β} (hf : ∀ a, CountsUp counted (f a)) (xs : List α) :
    CountsUp (List.flatMap counted) (xs.mapM f) := by
  induction xs with
  | nil => exact countsUpBehind_pure rfl
  | cons x xs ih =>
    rw [List.mapM_cons]
    exact (hf x).bind fun b => ih.bind fun bs => countsUpBehind_pure rfl

/-- The results of a list are made one for each item, each from the number that is free by then. -/
theorem forall₂_mapM (f : α → Numbered β) (xs : List α) (n : Nat) :
    List.Forall₂ (fun a b => ∃ k, b = (f a k).1) xs (xs.mapM f n).1 := by
  induction xs generalizing n with
  | nil => exact .nil
  | cons x xs ih =>
    rw [List.mapM_cons]
    exact .cons ⟨n, rfl⟩ (ih (f x n).2)

theorem exists_of_mem_mapM {f : α → Numbered β} {xs : List α} {n : Nat} {b : β}
    (h : b ∈ (xs.mapM f n).1) : ∃ a ∈ xs, ∃ k, b = (f a k).1 := by
  have hrel := forall₂_mapM f xs n
  generalize (xs.mapM f n).1 = bs at h hrel
  induction hrel with
  | nil => cases h
  | cons hb _ ih =>
    rcases List.mem_cons.mp h with rfl | h
    · exact ⟨_, List.mem_cons_self, hb⟩
    · obtain ⟨a, ha, hb⟩ := ih h
      exact ⟨a, List.mem_cons_of_mem _ ha, hb⟩

end Numbered

/-! ## Fields -/

namespace Field

open Numbered

/-- A new stop takes the free number. -/
theorem countsUp_newStop (default : Text) :
    CountsUp (fun s => s.index?.toList) (Segment.newStop default) :=
  fun n => ⟨[n], rfl, rfl, rfl⟩

theorem countsUp_stop (default : Text) : CountsUp Field.indices (stop default) :=
  (countsUp_newStop default).bind fun s => countsUpBehind_pure <| by
    cases s <;> rfl

theorem countsUp_stopIf (wanted : Bool) (default : Text) :
    CountsUp indicesOf (stopIf wanted default) := by
  cases wanted with
  | false => exact countsUpBehind_pure rfl
  | true => exact (countsUp_stop default).map fun _ => rfl

/-- Literal text has no stops. -/
theorem filterMap_index?_literal (t : Text) (rest : List Segment) :
    (literal t rest).filterMap Segment.index? = rest.filterMap Segment.index? := by
  cases t <;> rfl

/-- **The stops that a template is found to have count up**, whatever numbers are written in it and
wherever the search for them ends. -/
theorem countsUp_templateSegments (k : Nat) (t : Text) :
    CountsUp (List.filterMap Segment.index?) (templateSegments k t) := by
  induction k generalizing t with
  | zero => exact countsUpBehind_pure (filterMap_index?_literal t [])
  | succ k ih =>
    rw [templateSegments]
    split
    · exact countsUpBehind_pure (filterMap_index?_literal t [])
    · next before body rest _ =>
      refine (countsUp_newStop (stopDefault body)).bind fun s => (ih rest).bind fun more => ?_
      apply countsUpBehind_pure
      rw [filterMap_index?_literal]
      cases s <;> rfl

theorem countsUp_template (t : Text) : CountsUp Field.indices (template t) :=
  (countsUp_templateSegments t.length t).bind fun _ => countsUpBehind_pure rfl

end Field

end DocComment
