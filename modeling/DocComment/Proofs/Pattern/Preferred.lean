import DocComment.Proofs.Pattern.Captures

/-!
# Which match is found

`Captures` says what every match looks like.  This file says that there is one, and which one a
search prefers.  A pattern that looks at nothing but the text it matches has a match wherever a text
that it describes stands (`exists_mem_ends_of_describes`).  To know the preferred match of a long
pattern it is enough to know that of its leading parts, if the other parts match behind it
(`exists_find_of_leading`): then the leading parts are never tried a second time, and what they have
named is what the search reports.  A repetition prefers to go on, so before a word it ends at the
last occurrence of the word (`exists_eager_lit`).
-/

namespace DocComment.Pattern

open Text

/-! ## A match for every described text -/

/-- Whether a match depends on nothing but the text that it covers. -/
def contextFree : Pattern → Bool
  | start | finish | boundary => false
  | empty | lit _ | one _ => true
  | seq p q | alt p q => p.contextFree && q.contextFree
  | star p | lazyStar p | group _ p => p.contextFree

section Complete

variable {p : Pattern} {s : Cursor} {t rest : Text}

/-- A step passes the next character if it is in the class. -/
theorem exists_step?_eq_some {k : Char → Bool} {c : Char} (hc : k c = true)
    (hs : s.rest = c :: rest) : ∃ later, s.step? k = some later ∧ later.rest = rest := by
  simp [Cursor.step?, hs, hc]

/-- A text is skipped where it stands. -/
theorem exists_skip?_eq_some (hs : s.rest = t ++ rest) :
    ∃ later, s.skip? t = some later ∧ later.rest = rest := by
  induction t generalizing s with
  | nil => exact ⟨s, rfl, hs⟩
  | cons c t ih =>
    obtain ⟨mid, hmid, hrest⟩ := exists_step?_eq_some (k := (· == c)) (by simp) hs
    obtain ⟨later, hlater, hend⟩ := ih hrest
    exact ⟨later, by rw [Cursor.skip?, hmid]; exact hlater, hend⟩

/-- A repetition may always end where it began. -/
theorem self_mem_eagerEnds (step : Cursor → List Cursor) (n : Nat) (s : Cursor) :
    s ∈ eagerEnds step n s := by
  cases n <;> simp [eagerEnds]

/-- A repetition can go along any texts that the body matches, since those that are not empty are no
more than there are characters. -/
theorem exists_mem_eagerEnds {step : Cursor → List Cursor} {P : Text → Prop}
    (hstep : ∀ {s u rest}, P u → s.rest = u ++ rest → ∃ later ∈ step s, later.rest = rest)
    {us : List Text} (hus : ∀ u ∈ us, P u) {n : Nat} (hn : us.flatten.length ≤ n)
    (hs : s.rest = us.flatten ++ rest) : ∃ later ∈ eagerEnds step n s, later.rest = rest := by
  induction us generalizing n s with
  | nil => exact ⟨s, self_mem_eagerEnds step n s, hs⟩
  | cons u us ih =>
    obtain ⟨hu, hmore⟩ := List.forall_mem_cons.mp hus
    rw [List.flatten_cons] at hn hs
    by_cases hne : u = []
    · subst hne
      exact ih hmore hn hs
    · have hpos := List.length_pos_iff.mpr hne
      rw [List.length_append] at hn
      obtain ⟨m, rfl⟩ : ∃ m, n = m + 1 := ⟨n - 1, by omega⟩
      have hm : us.flatten.length ≤ m := by omega
      obtain ⟨mid, hmid, hrest⟩ := hstep hu (hs.trans (List.append_assoc _ _ _))
      obtain ⟨later, hlater, hend⟩ := ih hmore hm hrest
      exact ⟨later, List.mem_append_left _ (List.mem_flatMap.mpr ⟨mid, hmid, hlater⟩), hend⟩

/-- **A described text is matched wherever it stands.** -/
theorem exists_mem_ends_of_describes (p : Pattern) (hp : p.contextFree = true)
    (ht : p.Describes t) (hs : s.rest = t ++ rest) : ∃ later ∈ p.ends s, later.rest = rest := by
  induction p generalizing s t rest with
  | start | finish | boundary => cases hp
  | empty =>
    obtain rfl : t = [] := ht
    exact ⟨s, List.mem_singleton.mpr rfl, hs⟩
  | lit u =>
    obtain rfl : t = u := ht
    obtain ⟨later, hlater, hend⟩ := exists_skip?_eq_some hs
    exact ⟨later, Option.mem_toList.mpr hlater, hend⟩
  | one k =>
    obtain ⟨c, hc, rfl⟩ := ht
    obtain ⟨later, hlater, hend⟩ := exists_step?_eq_some hc hs
    exact ⟨later, Option.mem_toList.mpr hlater, hend⟩
  | seq p q ihp ihq =>
    obtain ⟨hfreep, hfreeq⟩ := (Bool.and_eq_true _ _).mp hp
    obtain ⟨u, v, hu, hv, rfl⟩ := ht
    obtain ⟨mid, hmid, hrest⟩ := ihp hfreep hu (hs.trans (List.append_assoc _ _ _))
    obtain ⟨later, hlater, hend⟩ := ihq hfreeq hv hrest
    exact ⟨later, List.mem_flatMap.mpr ⟨mid, hmid, hlater⟩, hend⟩
  | alt p q ihp ihq =>
    obtain ⟨hfreep, hfreeq⟩ := (Bool.and_eq_true _ _).mp hp
    rcases ht with ht | ht
    · obtain ⟨later, hlater, hend⟩ := ihp hfreep ht hs
      exact ⟨later, List.mem_append_left _ hlater, hend⟩
    · obtain ⟨later, hlater, hend⟩ := ihq hfreeq ht hs
      exact ⟨later, List.mem_append_right _ hlater, hend⟩
  | star p ih =>
    obtain ⟨us, hus, rfl⟩ := ht
    have hn : us.flatten.length ≤ s.rest.length := by
      rw [hs, List.length_append]
      omega
    exact exists_mem_eagerEnds (fun hu => ih hp hu) hus hn hs
  | lazyStar p ih =>
    obtain ⟨us, hus, rfl⟩ := ht
    have hn : us.flatten.length ≤ s.rest.length := by
      rw [hs, List.length_append]
      omega
    obtain ⟨later, hlater, hend⟩ := exists_mem_eagerEnds (fun hu => ih hp hu) hus hn hs
    exact ⟨later, mem_reluctantEnds.mpr hlater, hend⟩
  | group part p ih =>
    obtain ⟨mid, hmid, hrest⟩ := ih hp ht hs
    exact ⟨_, List.mem_map_of_mem hmid, hrest⟩

end Complete

/-! ## Described texts -/

section Describes

variable {p q : Pattern} {t : Text}

/-- A repeated class describes every text over it. -/
theorem describes_star_one {k : Char → Bool} (ht : ∀ c ∈ t, k c = true) :
    (star (one k)).Describes t := by
  refine ⟨t.map fun c => [c], ?_, ?_⟩
  · intro u hu
    obtain ⟨c, hc, rfl⟩ := List.mem_map.mp hu
    exact ⟨c, ht c hc, rfl⟩
  · induction t with
    | nil => rfl
    | cons c t ih =>
      rw [List.map_cons, List.flatten_cons, ← ih fun d hd => ht d (List.mem_cons_of_mem _ hd)]
      rfl

/-- A pattern that may be empty can be left out behind another. -/
theorem describes_append_of_nil (hp : p.Describes t) (hq : q.Describes []) :
    (p ++ q).Describes t :=
  ⟨t, [], hp, hq, (List.append_nil t).symm⟩

/-- A parameter list holds whatever has no parentheses. -/
theorem describes_parameterList (ht : ∀ c ∈ t, c ≠ '(' ∧ c ≠ ')') :
    parameterList.Describes ('(' :: (t ++ [')'])) := by
  have hbody : (star unparenthesized).Describes t := describes_star_one fun c hc => by
    simpa using ht c hc
  obtain ⟨us, hus, hflat⟩ := hbody
  refine ⟨'(' :: t, [')'], ⟨['('], t, ⟨['('], [], rfl, ⟨[], nofun, rfl⟩, rfl⟩, ?_, rfl⟩, rfl, rfl⟩
  exact ⟨us, fun u hu => Or.inl (hus u hu), hflat⟩

end Describes

/-! ## The preferred match -/

/-- A sequence without its last parts. -/
def leading : Nat → Pattern → Pattern
  | n + 1, seq p _ => p.leading n
  | _, p => p

/-- The last parts of a sequence. -/
def trailing : Nat → Pattern → Pattern
  | n + 1, seq p q => seq (p.trailing n) q
  | _, _ => empty

/-- A sequence is its leading and its last parts. -/
theorem ends_eq_flatMap_leading (n : Nat) (p : Pattern) (s : Cursor) :
    p.ends s = ((p.leading n).ends s).flatMap (p.trailing n).ends := by
  fun_induction leading n p generalizing s with
  | case1 n p q ih =>
    rw [ends, ih, List.flatMap_assoc, trailing]
    rfl
  | case2 n p hp =>
    have htrailing : p.trailing n = empty := by
      unfold trailing
      split
      · exact absurd rfl (hp _ _ _ rfl)
      · rfl
    rw [htrailing]
    exact (List.flatMap_singleton' _).symm

section Preferred

variable {p : Pattern} {part : Part} {t text : Text} {m : Match}

/-- A part that was captured in one way only is what was captured. -/
theorem get_eq_of_forall (hmem : (part, t) ∈ m.parts)
    (hall : ∀ u, (part, u) ∈ m.parts → u = t) : m.get part = t := by
  have hsome : (m.get? part).isSome = true := by
    rw [Match.get?, List.lookup_isSome_iff]
    exact ⟨_, hmem, by simp⟩
  obtain ⟨u, hu⟩ := Option.isSome_iff_exists.mp hsome
  have hpart : (part, u) ∈ m.parts := by
    rw [Match.get?, List.lookup_eq_some_iff] at hu
    obtain ⟨before, after, heq, -⟩ := hu
    rw [heq]
    simp
  rw [Match.get, hu, ← hall u hpart]
  rfl

/-- **The leading parts decide.**  If the preferred match of the leading parts of a pattern names
one part only, and the other parts match behind it and do not name it again, then a search finds the
pattern and reports that name. -/
theorem exists_find_of_leading {n : Nat} {mid : Cursor}
    (hleading : (p.leading n).at? none text = some mid) (hparts : mid.parts = [(part, t)])
    (hgroups : (p.trailing n).groups part = []) (htrailing : (p.trailing n).ends mid ≠ []) :
    ∃ m, p.find text = some m ∧ m.get part = t := by
  obtain ⟨later, more, hlater⟩ := List.exists_cons_of_ne_nil htrailing
  have hmem : later ∈ (p.trailing n).ends mid := hlater ▸ List.mem_cons_self
  have hat : p.at? none text = some later := by
    rw [at?_eq_head?] at hleading ⊢
    obtain ⟨others, hothers⟩ := List.head?_eq_some_iff.mp hleading
    rw [ends_eq_flatMap_leading n, hothers, List.flatMap_cons, hlater]
    rfl
  have hfind : ∃ m, p.find text = some m ∧ m.parts = later.parts := by
    rw [find]
    unfold findFrom
    rw [hat]
    exact ⟨_, rfl, rfl⟩
  obtain ⟨m, hm, hmparts⟩ := hfind
  refine ⟨m, hm, get_eq_of_forall ?_ ?_⟩
  · rw [hmparts]
    apply (parts_suffix_of_mem_ends _ hmem).subset
    rw [hparts]
    exact List.mem_singleton.mpr rfl
  · intro u hu
    rw [hmparts] at hu
    rcases mem_parts_of_mem_ends _ hmem hu with hold | ⟨q, hq, -⟩
    · rw [hparts] at hold
      exact (Prod.mk.inj (List.mem_singleton.mp hold)).2
    · rw [hgroups] at hq
      cases hq

end Preferred

/-! ## Repetitions of one character -/

section Eager

variable {α : Type} {k : Char → Bool} {next : Cursor → Option α} {w : Text} {s later : Cursor}

/-- A text is skipped only where it stands. -/
theorem isPrefix_of_skip? (h : s.skip? w = some later) : w <+: s.rest := by
  rw [← passed_of_skip? h]
  exact ⟨later.rest, passed_append_rest (rest_suffix_of_skip? h)⟩

/-- **A repetition prefers to go on**: what it finds from the end of a run on, it finds from the
start of the run on. -/
theorem exists_eager_append {P : α → Prop} {m r : Text} (hm : ∀ c ∈ m, k c = true)
    (hr : ∀ n s, r.length ≤ n → s.rest = r → ∃ v, eager (one k).run next n s = some v ∧ P v)
    {n : Nat} (hn : (m ++ r).length ≤ n) (hs : s.rest = m ++ r) :
    ∃ v, eager (one k).run next n s = some v ∧ P v := by
  induction m generalizing n s with
  | nil => exact hr n s hn hs
  | cons c m ih =>
    obtain ⟨hc, hm⟩ := List.forall_mem_cons.mp hm
    obtain ⟨mid, hmid, hrest⟩ := exists_step?_eq_some hc hs
    obtain ⟨n, rfl⟩ := Nat.exists_eq_succ_of_ne_zero (Nat.ne_zero_of_lt hn)
    obtain ⟨v, hv, hP⟩ := ih hm (Nat.le_of_succ_le_succ hn) hrest
    refine ⟨v, ?_, hP⟩
    rw [eager, run, hmid, Option.bind_some, hv]
    rfl

/-- A greedy repetition fails if what follows fails from everywhere. -/
theorem eager_eq_none {n : Nat} (h : ∀ later : Cursor, later.rest <:+ s.rest → next later = none) :
    eager (one k).run next n s = none := by
  induction n generalizing s with
  | zero => exact h s List.suffix_rfl
  | succ n ih =>
    rw [eager, h s List.suffix_rfl, run]
    cases hstep : s.step? k with
    | none => rfl
    | some mid =>
      have hmid := ih fun later hlater => h later (hlater.trans (rest_suffix_of_step? hstep))
      rw [Option.bind_some, hmid]
      rfl

/-- **A repetition before a word ends at the last occurrence of the word.** -/
theorem exists_eager_lit {d : Char} {r : Text} (hd : k d = true) (hlast : ¬ d :: w <:+: w ++ r)
    {n : Nat} (hn : (d :: w ++ r).length ≤ n) (hs : s.rest = d :: w ++ r) :
    ∃ later, eager (one k).run ((lit (d :: w)).run some) n s = some later ∧ later.rest = r := by
  obtain ⟨later, hlater, hend⟩ := exists_skip?_eq_some hs
  obtain ⟨mid, hmid, hrest⟩ := exists_step?_eq_some hd hs
  obtain ⟨n, rfl⟩ := Nat.exists_eq_succ_of_ne_zero (Nat.ne_zero_of_lt hn)
  have hnone : (one k).run (eager (one k).run ((lit (d :: w)).run some) n) s = none := by
    rw [run, hmid, Option.bind_some]
    apply eager_eq_none
    intro after hafter
    rw [run, Option.bind_eq_none_iff]
    intro _ hskip
    rw [hrest] at hafter
    exact absurd ((isPrefix_of_skip? hskip).isInfix.trans hafter.isInfix) hlast
  refine ⟨later, ?_, hend⟩
  rw [eager, hnone, run, hlater]
  rfl

/-- What a repetition between a word and another pattern finds from the end of a run on, the whole
finds from the word on. -/
theorem exists_at?_lit_star {q : Pattern} {P : Cursor → Prop} {m r : Text}
    (hm : ∀ c ∈ m, k c = true)
    (hr : ∀ n s, r.length ≤ n → s.rest = r →
      ∃ later, eager (one k).run (q.run some) n s = some later ∧ P later) :
    ∃ later, (lit w ++ star (one k) ++ q).at? none (w ++ (m ++ r)) = some later ∧ P later := by
  obtain ⟨mid, hmid, hrest⟩ := exists_skip?_eq_some (s := ⟨none, w ++ (m ++ r), []⟩) rfl
  have hlength : (m ++ r).length ≤ mid.rest.length := by rw [hrest]
  obtain ⟨later, hlater, hP⟩ := exists_eager_append hm hr hlength hrest
  refine ⟨later, ?_, hP⟩
  change (((lit w).seq (star (one k))).seq q).run some _ = _
  rw [run, run, run, hmid]
  exact hlater

/-- A pattern that starts with a word matches only where the word stands. -/
theorem at?_lit_eq_none {p q : Pattern} {t : Text} (h : ¬ w <+: t) :
    (lit w ++ p ++ q).at? none t = none := by
  change (((lit w).seq p).seq q).run some _ = _
  rw [run, run, run, Option.bind_eq_none_iff]
  intro _ hskip
  exact absurd (isPrefix_of_skip? hskip) h

end Eager

end DocComment.Pattern
