import DocComment.Pattern.Basic

/-!
# All matches of a pattern

`Pattern.run` looks for one match by backtracking.  `Pattern.ends` lists every place at which a match
can end, the preferred one first, and is the meaning against which patterns are reasoned about:
backtracking takes the first place that its continuation accepts (`run_eq_findSome?`), no match goes
back (`rest_suffix_of_mem_ends`), and a search cuts the text into three parts without losing any of
it (`before_append_covered_append_after`).
-/

namespace DocComment.Pattern

variable {α : Type}

/-- The places reached by at most `n` steps, more steps first. -/
def eagerEnds (step : Cursor → List Cursor) : Nat → Cursor → List Cursor
  | 0, s => [s]
  | n + 1, s => (step s).flatMap (eagerEnds step n) ++ [s]

/-- The places reached by at most `n` steps, fewer steps first. -/
def reluctantEnds (step : Cursor → List Cursor) : Nat → Cursor → List Cursor
  | 0, s => [s]
  | n + 1, s => s :: (step s).flatMap (reluctantEnds step n)

/-- Every place at which a match that begins at a given one can end, in order of preference. -/
def ends : Pattern → Cursor → List Cursor
  | empty, s => [s]
  | lit t, s => (s.skip? t).toList
  | one p, s => (s.step? p).toList
  | start, s => if s.last.isNone then [s] else []
  | finish, s => if s.rest.isEmpty then [s] else []
  | boundary, s => if s.atBoundary then [s] else []
  | seq p q, s => (p.ends s).flatMap q.ends
  | alt p q, s => p.ends s ++ q.ends s
  | star p, s => eagerEnds p.ends s.rest.length s
  | lazyStar p, s => reluctantEnds p.ends s.rest.length s
  | group part p, s => (p.ends s).map fun later => later.record part (s.passed later)

/-- Looking through an optional place. -/
theorem findSome?_toList (o : Option Cursor) (k : Cursor → Option α) :
    o.toList.findSome? k = o.bind k := by
  cases o <;> simp

/-- Looking through the places reached from several places. -/
theorem findSome?_flatMap (f : Cursor → List Cursor) (k : Cursor → Option α) (l : List Cursor) :
    (l.flatMap f).findSome? k = l.findSome? fun s => (f s).findSome? k := by
  induction l with
  | nil => rfl
  | cons s l ih =>
    simp only [List.flatMap_cons, List.findSome?_append, List.findSome?_cons, ih]
    cases (f s).findSome? k <;> rfl

/-- Eager repetition tries its places in order if each step does. -/
theorem eager_eq_findSome? {step : (Cursor → Option α) → Cursor → Option α}
    {ends : Cursor → List Cursor} (h : ∀ k s, step k s = (ends s).findSome? k)
    (k : Cursor → Option α) (n : Nat) (s : Cursor) :
    eager step k n s = (eagerEnds ends n s).findSome? k := by
  induction n generalizing s with
  | zero => simp [eager, eagerEnds]
  | succ n ih =>
    have hk : eager step k n = fun s => (eagerEnds ends n s).findSome? k := funext ih
    simp only [eager, eagerEnds, h, hk, List.findSome?_append, findSome?_flatMap]
    cases List.findSome? (fun s => (eagerEnds ends n s).findSome? k) (ends s) <;> simp

/-- Reluctant repetition tries its places in order if each step does. -/
theorem reluctant_eq_findSome? {step : (Cursor → Option α) → Cursor → Option α}
    {ends : Cursor → List Cursor} (h : ∀ k s, step k s = (ends s).findSome? k)
    (k : Cursor → Option α) (n : Nat) (s : Cursor) :
    reluctant step k n s = (reluctantEnds ends n s).findSome? k := by
  induction n generalizing s with
  | zero => simp [reluctant, reluctantEnds]
  | succ n ih =>
    have hk : reluctant step k n = fun s => (reluctantEnds ends n s).findSome? k := funext ih
    simp only [reluctant, reluctantEnds, h, hk, List.findSome?_cons, findSome?_flatMap]
    cases k s <;> simp

/-- **Backtracking tries the matches in order.**  Matching with a continuation gives what the
continuation makes of the first place that it accepts. -/
theorem run_eq_findSome? (p : Pattern) (k : Cursor → Option α) (s : Cursor) :
    p.run k s = (p.ends s).findSome? k := by
  induction p generalizing k s with
  | empty => simp [run, ends]
  | lit t => simp [run, ends, findSome?_toList]
  | one p => simp [run, ends, findSome?_toList]
  | start => by_cases h : s.last.isNone <;> simp [run, ends, h]
  | finish => by_cases h : s.rest.isEmpty <;> simp [run, ends, h]
  | boundary => by_cases h : s.atBoundary <;> simp [run, ends, h]
  | seq p q ihp ihq =>
    have hq : q.run k = fun s => (q.ends s).findSome? k := funext fun s => ihq k s
    simp only [run, ends, ihp, hq, findSome?_flatMap]
  | alt p q ihp ihq =>
    simp only [run, ends, ihp, ihq, List.findSome?_append]
    cases (p.ends s).findSome? k <;> simp
  | star p ih => exact eager_eq_findSome? ih k _ s
  | lazyStar p ih => exact reluctant_eq_findSome? ih k _ s
  | group part p ih => simp [run, ends, ih, List.findSome?_map, Function.comp_def]

/-- The preferred match is the first one. -/
theorem at?_eq_head? (p : Pattern) (last : Option Char) (rest : Text) :
    p.at? last rest = (p.ends ⟨last, rest, []⟩).head? := by
  rw [at?, run_eq_findSome?]
  cases p.ends ⟨last, rest, []⟩ <;> simp

/-- A step over a character leaves a suffix. -/
theorem rest_suffix_of_step? {p : Char → Bool} {s later : Cursor} (h : s.step? p = some later) :
    later.rest <:+ s.rest := by
  unfold Cursor.step? at h
  split at h
  · simp at h
  · next c rest hs =>
    split at h
    · obtain rfl := Option.some.inj h
      exact hs ▸ List.suffix_cons c rest
    · simp at h

/-- Stepping over a text leaves a suffix. -/
theorem rest_suffix_of_skip? {t : Text} {s later : Cursor} (h : s.skip? t = some later) :
    later.rest <:+ s.rest := by
  induction t generalizing s with
  | nil =>
    obtain rfl := Option.some.inj h
    exact List.suffix_refl _
  | cons c t ih =>
    obtain ⟨mid, hmid, hlater⟩ := Option.bind_eq_some_iff.1 h
    exact (ih hlater).trans (rest_suffix_of_step? hmid)

/-- Repetition leaves a suffix if each step does. -/
theorem rest_suffix_of_mem_eagerEnds {step : Cursor → List Cursor}
    (hstep : ∀ s, ∀ later ∈ step s, later.rest <:+ s.rest) (n : Nat) {s later : Cursor}
    (h : later ∈ eagerEnds step n s) : later.rest <:+ s.rest := by
  induction n generalizing s with
  | zero => simp_all [eagerEnds]
  | succ n ih =>
    rcases List.mem_append.1 h with h | h
    · obtain ⟨mid, hmid, hlater⟩ := List.mem_flatMap.1 h
      exact (ih hlater).trans (hstep s mid hmid)
    · simp_all

/-- Reluctant repetition reaches the same places. -/
theorem mem_reluctantEnds {step : Cursor → List Cursor} {n : Nat} {s later : Cursor} :
    later ∈ reluctantEnds step n s ↔ later ∈ eagerEnds step n s := by
  induction n generalizing s with
  | zero => simp [eagerEnds, reluctantEnds]
  | succ n ih => simp [eagerEnds, reluctantEnds, ih, or_comm]

/-- **Matching only moves forward.**  What is left after a match is a suffix of what was there. -/
theorem rest_suffix_of_mem_ends (p : Pattern) {s later : Cursor} (h : later ∈ p.ends s) :
    later.rest <:+ s.rest := by
  induction p generalizing s later with
  | empty => simp_all [ends]
  | lit t => exact rest_suffix_of_skip? (Option.mem_toList.1 h)
  | one p => exact rest_suffix_of_step? (Option.mem_toList.1 h)
  | start => by_cases hs : s.last.isNone <;> simp_all [ends]
  | finish => by_cases hs : s.rest.isEmpty <;> simp_all [ends]
  | boundary => by_cases hs : s.atBoundary <;> simp_all [ends]
  | seq p q ihp ihq =>
    obtain ⟨mid, hmid, hlater⟩ := List.mem_flatMap.1 h
    exact (ihq hlater).trans (ihp hmid)
  | alt p q ihp ihq => exact (List.mem_append.1 h).elim ihp ihq
  | star p ih => exact rest_suffix_of_mem_eagerEnds (fun _ _ => ih) _ h
  | lazyStar p ih => exact rest_suffix_of_mem_eagerEnds (fun _ _ => ih) _ (mem_reluctantEnds.1 h)
  | group part p ih =>
    obtain ⟨mid, hmid, rfl⟩ := List.mem_map.1 h
    exact (ih hmid : mid.rest <:+ s.rest)

/-- What a match covers and what is left after it make up what was there. -/
theorem passed_append_rest {s later : Cursor} (h : later.rest <:+ s.rest) :
    s.passed later ++ later.rest = s.rest := by
  obtain ⟨before, hs⟩ := h
  simp [Cursor.passed, ← hs]

/-- **A search loses nothing.**  The parts of a text before, inside and after a match, put together
again, are the text. -/
theorem before_append_covered_append_after {p : Pattern} {last : Option Char} {text : Text}
    {m : Match} (h : p.findFrom last text = some m) : m.before ++ m.covered ++ m.after = text := by
  fun_induction findFrom p last text generalizing m with
  | case1 last text s hs =>
    obtain rfl := Option.some.inj h
    rw [at?_eq_head?] at hs
    exact passed_append_rest (rest_suffix_of_mem_ends p (List.mem_of_head? hs))
  | case2 => simp at h
  | case3 last c rest hs ih =>
    obtain ⟨m, hm, rfl⟩ := Option.map_eq_some_iff.1 h
    simp [← ih hm]

end DocComment.Pattern
