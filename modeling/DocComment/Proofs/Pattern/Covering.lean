import DocComment.Proofs.Pattern.Preferred
import DocComment.Proofs.Pattern.Replacing

/-!
# The preferred match, part by part

`Covers p last t r named` says all about the preferred match of `p` at one place of a text: it
covers `t`, leaves `r`, and names the parts `named`.  The statement is made of parts as the pattern
is.  If the preferred match of `p` leads to a place at which `q` matches, `p ++ q` has no reason to
go back, so it covers what the two cover (`Covers.append`).  A repetition covers a whole run
(`covers_run`).  What a pattern covers at the start of a text is what a search finds
(`Covers.find_eq`), what a replacement replaces (`Covers.replaceAll_eq`), and where a splitting cuts
(`Covers.split_eq`).
-/

namespace DocComment.Pattern

open Text

/-- At the text `t ++ r`, with the character `last` before it, the preferred match covers `t` and
names the parts `named`, the latest first. -/
def Covers (p : Pattern) (last : Option Char) (t r : Text) (named : List (Part × Text)) : Prop :=
  ∀ parts, ∃ later, (p.ends ⟨last, t ++ r, parts⟩).head? = some ⟨later, r, named ++ parts⟩

section Covers

variable {p q : Pattern} {last : Option Char} {t u r : Text} {ps qs : List (Part × Text)}

/-! ## Parts -/

theorem covers_empty : Covers empty last [] r [] := fun _ => ⟨last, rfl⟩

/-- The start of the text covers nothing, where there is nothing before. -/
theorem covers_start : Covers start none [] r [] := fun _ => ⟨none, rfl⟩

/-- The end of the text covers nothing, where nothing is left. -/
theorem covers_finish : Covers finish last [] [] [] := fun _ => ⟨last, rfl⟩

theorem covers_one {k : Char → Bool} {c : Char} (hc : k c = true) :
    Covers (one k) last [c] r [] := by
  intro parts
  exact ⟨some c, by simp [ends, Cursor.step?, hc]⟩

theorem covers_lit (t : Text) : Covers (lit t) last t r [] := by
  intro parts
  induction t generalizing last with
  | nil => exact ⟨last, rfl⟩
  | cons c t ih =>
    obtain ⟨later, hlater⟩ := @ih (some c)
    exact ⟨later, by simpa [ends, Cursor.skip?, Cursor.step?] using hlater⟩

/-! ## Repetitions -/

/-- A greedy repetition that cannot begin stays where it is. -/
theorem eagerEnds_of_step_nil {step : Cursor → List Cursor} {s : Cursor} (h : step s = [])
    (n : Nat) : eagerEnds step n s = [s] := by
  cases n with
  | zero => rfl
  | succ n => rw [eagerEnds, h, List.flatMap_nil, List.nil_append]

/-- If every step consumes something, as many steps as there are characters are enough. -/
theorem eagerEnds_congr {step : Cursor → List Cursor}
    (hstep : ∀ s, ∀ later ∈ step s, later.rest.length < s.rest.length) {n k : Nat} {s : Cursor}
    (hn : s.rest.length ≤ n) (hk : s.rest.length ≤ k) :
    eagerEnds step n s = eagerEnds step k s := by
  induction n generalizing k s with
  | zero =>
    have hnil : step s = [] := List.eq_nil_iff_forall_not_mem.mpr fun later hlater => by
      have := hstep s later hlater
      omega
    rw [eagerEnds_of_step_nil hnil, eagerEnds_of_step_nil hnil]
  | succ n ih =>
    by_cases hnil : step s = []
    · rw [eagerEnds_of_step_nil hnil, eagerEnds_of_step_nil hnil]
    · obtain ⟨first, hfirst⟩ := List.exists_mem_of_ne_nil _ hnil
      have hpos := hstep s first hfirst
      obtain ⟨k, rfl⟩ : ∃ m, k = m + 1 := ⟨k - 1, by omega⟩
      rw [eagerEnds, eagerEnds]
      congr 1
      apply List.flatMap_congr
      intro later hlater
      have := hstep s later hlater
      exact ih (by omega) (by omega)

/-- Where the body cannot begin, a repetition covers nothing. -/
theorem covers_star_nil (hp : p.nullable = false) (hr : ∀ c ∈ r.head?, p.opensWith c = false) :
    Covers (star p) last [] r [] := by
  intro parts
  have hnil : p.ends ⟨last, r, parts⟩ = [] := ends_eq_nil hp hr
  refine ⟨last, ?_⟩
  rw [List.nil_append, ends, eagerEnds_of_step_nil hnil]
  rfl

/-- **A repetition goes on** behind what its body covers. -/
theorem Covers.star_append (ht : Covers p last t (u ++ r) ps) (hp : p.nullable = false)
    (hu : ∀ mid, Covers (star p) mid u r qs) : Covers (star p) last (t ++ u) r (qs ++ ps) := by
  intro parts
  obtain ⟨mid, hmid⟩ := ht parts
  obtain ⟨later, hlater⟩ := hu mid (ps ++ parts)
  obtain ⟨others, hothers⟩ := List.head?_eq_some_iff.mp hmid
  have hlt : (u ++ r).length < (t ++ (u ++ r)).length :=
    length_rest_lt_of_mem_ends hp (hothers ▸ List.mem_cons_self)
  obtain ⟨n, hn⟩ := Nat.exists_eq_succ_of_ne_zero (Nat.ne_zero_of_lt hlt)
  have hfuel : eagerEnds p.ends n ⟨mid, u ++ r, ps ++ parts⟩ =
      (star p).ends ⟨mid, u ++ r, ps ++ parts⟩ :=
    eagerEnds_congr (fun _ _ => length_rest_lt_of_mem_ends hp)
      (Nat.le_of_lt_succ (hn ▸ hlt)) (Nat.le_refl _)
  refine ⟨later, ?_⟩
  rw [List.append_assoc, ends, hn, eagerEnds, hothers, List.flatMap_cons, hfuel, List.append_assoc,
    List.head?_append, hlater, List.append_assoc]
  rfl

/-- **A repetition covers a run** to its end. -/
theorem covers_run {k : Char → Bool} (ht : ∀ c ∈ t, k c = true) (hr : ∀ c ∈ r.head?, k c = false) :
    Covers (star (one k)) last t r [] := by
  induction t generalizing last with
  | nil => exact covers_star_nil rfl hr
  | cons c t ih =>
    obtain ⟨hc, ht⟩ := List.forall_mem_cons.mp ht
    exact (covers_one hc).star_append rfl fun _ => ih ht

/-- A single character is repeated as one of a class. -/
theorem ends_star_lit_singleton (c : Char) :
    (star (lit [c])).ends = (star (one (· == c))).ends := by
  have hends : (lit [c]).ends = (one (· == c)).ends := by
    funext s
    rw [ends, ends, Cursor.skip?]
    cases s.step? (· == c) <;> rfl
  funext s
  rw [ends, ends, hends]

/-- A repeated character covers all of its kind that stand together. -/
theorem covers_replicate {c : Char} (n : Nat) (hr : r.head? ≠ some c) :
    Covers (star (lit [c])) last (List.replicate n c) r [] := by
  have hrun : Covers (star (one (· == c))) last (List.replicate n c) r [] := by
    apply covers_run
    · intro d hd
      exact beq_iff_eq.mpr (List.eq_of_mem_replicate hd)
    · intro d hd
      exact beq_eq_false_iff_ne.mpr fun heq => hr (heq ▸ hd)
  rw [Covers, ends_star_lit_singleton]
  exact hrun

/-- Blanks are covered up to a text that starts tight. -/
theorem covers_blanks (ht : Blanks t) (hr : StartsTight r) : Covers blanks last t r [] :=
  covers_run ht hr

/-! ## Putting parts together -/

/-- **One part after another** covers what the two cover. -/
theorem Covers.append (hp : Covers p last t (u ++ r) ps) (hq : ∀ mid, Covers q mid u r qs) :
    Covers (p ++ q) last (t ++ u) r (qs ++ ps) := by
  intro parts
  obtain ⟨mid, hmid⟩ := hp parts
  obtain ⟨later, hlater⟩ := hq mid (ps ++ parts)
  obtain ⟨others, hothers⟩ := List.head?_eq_some_iff.mp hmid
  refine ⟨later, ?_⟩
  rw [append_eq_seq, ends, List.append_assoc, hothers, List.flatMap_cons, List.head?_append, hlater,
    List.append_assoc]
  rfl

/-- Where no blanks stand, none are covered. -/
theorem Covers.append_blanks (hp : Covers p last t r ps) (hr : StartsTight r) :
    Covers (p ++ blanks) last t r ps := by
  have hcovers := hp.append (u := []) fun _ => covers_blanks blanks_nil hr
  rwa [List.append_nil] at hcovers

/-- A literal behind a pattern covers what the pattern leaves before it. -/
theorem Covers.append_lit (hp : Covers p last t (u ++ r) ps) :
    Covers (p ++ lit u) last (t ++ u) r ps :=
  hp.append fun _ => covers_lit u

/-- The first alternative is preferred. -/
theorem Covers.left (hp : Covers p last t r ps) : Covers (p ||| q) last t r ps := by
  intro parts
  obtain ⟨later, hlater⟩ := hp parts
  refine ⟨later, ?_⟩
  change (p.ends _ ++ q.ends _).head? = _
  rw [List.head?_append, hlater]
  rfl

/-- The second alternative counts where the first does not match. -/
theorem Covers.right (hq : Covers q last t r qs)
    (hp : ∀ parts, p.ends ⟨last, t ++ r, parts⟩ = []) : Covers (p ||| q) last t r qs := by
  intro parts
  obtain ⟨later, hlater⟩ := hq parts
  refine ⟨later, ?_⟩
  change (p.ends _ ++ q.ends _).head? = _
  rw [hp, List.nil_append, hlater]

/-- A named part is recorded with all that it covers. -/
theorem Covers.group (part : Part) (hp : Covers p last t r ps) :
    Covers (group part p) last t r ((part, t) :: ps) := by
  intro parts
  obtain ⟨later, hlater⟩ := hp parts
  refine ⟨later, ?_⟩
  rw [ends, List.head?_map, hlater]
  simp [Cursor.record, Cursor.passed]

/-- A repetition of a character that is there goes on before it stops. -/
theorem ends_star_one_cons {k : Char → Bool} {c : Char} (hc : k c = true) (last : Option Char)
    (t : Text) (parts : List (Part × Text)) :
    (star (one k)).ends ⟨last, c :: t, parts⟩ =
      (star (one k)).ends ⟨some c, t, parts⟩ ++ [⟨last, c :: t, parts⟩] := by
  simp [ends, eagerEnds, Cursor.step?, hc]

/-- **A repetition before another pattern prefers to go on.**  What the two cover behind a run they
cover from the start of the run on. -/
theorem Covers.run_append {k : Char → Bool} (ht : ∀ c ∈ t, k c = true)
    (h : ∀ mid, Covers (star (one k) ++ q) mid u r ps) :
    Covers (star (one k) ++ q) last (t ++ u) r ps := by
  induction t generalizing last with
  | nil => exact h last
  | cons c t ih =>
    obtain ⟨hc, ht⟩ := List.forall_mem_cons.mp ht
    have hbehind : Covers (star (one k) ++ q) (some c) (t ++ u) r ps := ih ht
    intro parts
    obtain ⟨later, hlater⟩ := hbehind parts
    refine ⟨later, ?_⟩
    rw [append_eq_seq, ends] at hlater ⊢
    rw [List.cons_append, List.cons_append, ends_star_one_cons hc, List.flatMap_append,
      List.head?_append, hlater]
    rfl

/-- **A repetition gives a character back** if nothing matches behind it. -/
theorem Covers.give_back {k : Char → Bool} {c : Char} (hc : k c = true)
    (hq : Covers q last (c :: t) r ps)
    (hnone : ∀ parts, (star (one k) ++ q).ends ⟨some c, t ++ r, parts⟩ = []) :
    Covers (star (one k) ++ q) last (c :: t) r ps := by
  intro parts
  obtain ⟨later, hlater⟩ := hq parts
  refine ⟨later, ?_⟩
  have hbehind := hnone parts
  rw [append_eq_seq, ends] at hbehind ⊢
  rw [List.cons_append, ends_star_one_cons hc, List.flatMap_append, hbehind, List.nil_append,
    List.flatMap_singleton]
  exact hlater

/-- An identifier is covered to its end. -/
theorem covers_identifier {first more : Char → Bool} {c : Char} (hc : first c = true)
    (ht : ∀ d ∈ t, more d = true) (hr : ∀ d ∈ r.head?, more d = false) :
    Covers (identifier first more) last (c :: t) r [] :=
  (covers_one hc).append fun _ => covers_run ht hr

/-! ## What is found -/

/-- What is covered is matched. -/
theorem Covers.at?_eq (hp : Covers p last t r ps) :
    ∃ later, p.at? last (t ++ r) = some ⟨later, r, ps⟩ := by
  obtain ⟨later, hlater⟩ := hp []
  rw [List.append_nil] at hlater
  exact ⟨later, (at?_eq_head? p last (t ++ r)).trans hlater⟩

/-- **What is covered at the start of a text is found.** -/
theorem Covers.find_eq (hp : Covers p none t r ps) : p.find (t ++ r) = some ⟨[], t, r, ps⟩ := by
  obtain ⟨later, hlater⟩ := hp.at?_eq
  rw [find]
  unfold findFrom
  rw [hlater]
  simp [Cursor.passed]

/-- **What is covered at the start of a text is replaced**, and the replacement goes on behind
it. -/
theorem Covers.replaceAll_eq (hp : Covers p none t r ps) (hahead : p.looksAhead = true)
    (hnullable : p.nullable = false) (f : Match → Text) :
    p.replaceAll f (t ++ r) = f ⟨[], t, r, ps⟩ ++ p.replaceAll f r := by
  rw [Pattern.replaceAll_eq hahead hnullable, hp.find_eq]
  rfl

/-- **A text is cut where the separator is covered**, if it does not match any earlier. -/
theorem Covers.split_eq (hp : Covers p none t r ps) (hahead : p.looksAhead = true)
    (hnullable : p.nullable = false)
    (hs : ∀ v, v ≠ [] → v <:+ u → p.at? none (v ++ (t ++ r)) = none) :
    p.split (u ++ (t ++ r)) = u :: p.split r := by
  rw [Pattern.split_eq hahead hnullable, find_append_of_at? hahead hs, hp.find_eq]
  simp

end Covers

end DocComment.Pattern
