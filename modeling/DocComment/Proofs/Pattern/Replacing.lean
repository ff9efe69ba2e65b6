import DocComment.Proofs.Pattern.Leads

/-!
# Replacing every match

A pattern that asks nothing about the text before it (`looksAhead`) is found in the same way
whatever stands there (`findFrom_eq_find`).  Replacing all of its matches is then replacing the
first one and going on behind it, and the bound on the number of matches no longer shows
(`replaceAll_eq`); splitting at its matches goes the same way (`split_eq`).  So a beginning in which
no match can begin is kept, and the rest is replaced as if it stood alone (`replaceAll_append`).
What is true of each match adds up: no more characters of a class come out of a replacement than go
in (`countP_replaceAll_le`).
-/

namespace DocComment

/-- The place without the character before it. -/
def Cursor.forget (s : Cursor) : Cursor := { s with last := none }

namespace Pattern

/-- Whether the pattern asks nothing about the text before it. -/
def looksAhead : Pattern → Bool
  | start | boundary => false
  | empty | lit _ | one _ | finish => true
  | seq p q | alt p q => p.looksAhead && q.looksAhead
  | star p | lazyStar p | group _ p => p.looksAhead

/-! ## Looking ahead -/

section Forgets

/-- A step to the same places whatever stands before. -/
def Forgets (step : Cursor → List Cursor) : Prop :=
  ∀ s, (step s).map Cursor.forget = (step s.forget).map Cursor.forget

variable {f g : Cursor → List Cursor}

theorem forgets_singleton : Forgets fun s => [s] := fun _ => rfl

/-- Two ways to go on that forget what was passed do so together. -/
theorem Forgets.append (hf : Forgets f) (hg : Forgets g) : Forgets fun s => f s ++ g s := by
  intro s
  rw [List.map_append, hf s, hg s, List.map_append]

/-- Two steps that forget what was passed do so one after the other. -/
theorem Forgets.flatMap (hf : Forgets f) (hg : Forgets g) : Forgets fun s => (f s).flatMap g := by
  have hforget : ∀ l : List Cursor, (l.flatMap g).map Cursor.forget =
      (l.map Cursor.forget).flatMap fun s => (g s).map Cursor.forget := by
    intro l
    rw [List.map_flatMap, List.flatMap_map]
    exact congrArg (l.flatMap ·) (funext hg)
  intro s
  rw [hforget, hf s, hforget]

/-- A greedy repetition of such a step forgets what was passed. -/
theorem Forgets.eagerEnds (hf : Forgets f) (n : Nat) : Forgets (eagerEnds f n) := by
  induction n with
  | zero => exact forgets_singleton
  | succ n ih => exact (hf.flatMap ih).append forgets_singleton

/-- A lazy repetition of such a step forgets what was passed. -/
theorem Forgets.reluctantEnds (hf : Forgets f) (n : Nat) : Forgets (reluctantEnds f n) := by
  induction n with
  | zero => exact forgets_singleton
  | succ n ih => exact forgets_singleton.append (hf.flatMap ih)

/-- A step over a character replaces the one before it. -/
theorem step?_forget (k : Char → Bool) (s : Cursor) : s.forget.step? k = s.step? k := rfl

/-- Skipping a text depends on what comes next only. -/
theorem forgets_skip? (t : Text) : Forgets fun s => (s.skip? t).toList := by
  intro s
  cases t with
  | nil => rfl
  | cons c t => simp only [Cursor.skip?, step?_forget]

variable {p : Pattern}

/-- **A pattern that looks ahead only ends its matches at the same places** whatever stands before
it. -/
theorem forgets_ends (hp : p.looksAhead = true) : Forgets p.ends := by
  induction p with
  | empty => exact forgets_singleton
  | lit t => exact forgets_skip? t
  | one k =>
    intro s
    simp only [ends, step?_forget]
  | start | boundary => cases hp
  | finish =>
    intro s
    have hrest : s.forget.rest = s.rest := rfl
    by_cases hs : s.rest.isEmpty = true
    · simp only [ends, hrest, hs]
      rfl
    · simp only [ends, hrest, hs]
      rfl
  | seq p q ihp ihq =>
    rw [looksAhead, Bool.and_eq_true] at hp
    exact (ihp hp.1).flatMap (ihq hp.2)
  | alt p q ihp ihq =>
    rw [looksAhead, Bool.and_eq_true] at hp
    exact (ihp hp.1).append (ihq hp.2)
  | star p ih => exact fun s => (ih hp).eagerEnds s.rest.length s
  | lazyStar p ih => exact fun s => (ih hp).reluctantEnds s.rest.length s
  | group part p ih =>
    intro s
    have hrecord : ∀ l : List Cursor, (l.map fun later => later.record part (s.passed later)).map
        Cursor.forget = (l.map Cursor.forget).map fun later => later.record part (s.passed later) := by
      intro l
      rw [List.map_map, List.map_map]
      rfl
    have hpassed : s.forget.passed = s.passed := rfl
    rw [ends, ends, hpassed, hrecord, hrecord, ih hp s]

/-- What is found does not depend on the character before the text. -/
theorem findFrom_eq_find (hp : p.looksAhead = true) (last : Option Char) (t : Text) :
    p.findFrom last t = p.find t := by
  have hat : (p.at? last t).map Cursor.forget = (p.at? none t).map Cursor.forget := by
    rw [at?_eq_head?, at?_eq_head?, ← List.head?_map, ← List.head?_map]
    exact congrArg List.head? (forgets_ends hp ⟨last, t, []⟩)
  rw [find, findFrom.eq_def p last, findFrom.eq_def p none]
  cases h : p.at? last t with
  | none =>
    cases h' : p.at? none t with
    | none => rfl
    | some s' =>
      rw [h, h'] at hat
      cases hat
  | some s =>
    cases h' : p.at? none t with
    | none =>
      rw [h, h'] at hat
      cases hat
    | some s' =>
      simp only [h, h', Option.map_some, Option.some.injEq, Cursor.forget, Cursor.mk.injEq,
        true_and] at hat
      simp only [Cursor.passed, hat]

end Forgets

/-! ## Replacing -/

section Replace

variable {p : Pattern} {s t : Text} {f : Match → Text}

/-- What a search finds is described by the pattern. -/
theorem describes_of_findFrom {last : Option Char} {m : Match} (h : p.findFrom last t = some m) :
    p.Describes m.covered := by
  fun_induction findFrom p last t generalizing m with
  | case1 last text later hat =>
    obtain rfl := Option.some.inj h
    rw [at?_eq_head?] at hat
    exact describes_of_mem_ends p (List.mem_of_head? hat)
  | case2 => cases h
  | case3 last c rest hat ih =>
    obtain ⟨m, hm, rfl⟩ := Option.map_eq_some_iff.mp h
    have hdescribes := ih hm
    exact hdescribes

/-- A match of a pattern that consumes something is not empty. -/
theorem covered_ne_nil (hp : p.nullable = false) {last : Option Char} {m : Match}
    (h : p.findFrom last t = some m) : m.covered ≠ [] := by
  intro hnil
  have hdescribes := describes_of_findFrom h
  rw [hnil] at hdescribes
  rw [nullable_of_describes_nil hdescribes] at hp
  cases hp

/-- What follows a match that is not empty is shorter than the text. -/
theorem length_after_lt (hp : p.nullable = false) {m : Match} (h : p.find t = some m) :
    m.after.length < t.length := by
  have hcovered := List.length_pos_iff.mpr (covered_ne_nil hp h)
  have hlength := congrArg List.length (before_append_covered_append_after h)
  simp only [List.length_append] at hlength
  omega

theorem cuts_nil (hp : p.nullable = false) (n : Nat) (last : Option Char) :
    p.cuts n last [] = ([], []) := by
  cases n with
  | zero => rfl
  | succ n => rw [cuts, findFrom_eq_none hp (by simp)]

/-- One match is cut off, and the search goes on behind it. -/
theorem cuts_succ (hahead : p.looksAhead = true) (hp : p.nullable = false) (n : Nat)
    (last : Option Char) (t : Text) :
    p.cuts (n + 1) last t =
      match p.find t with
      | none => ([], t)
      | some m => ((m :: (p.cuts n m.covered.getLast? m.after).1),
          (p.cuts n m.covered.getLast? m.after).2) := by
  rw [cuts, findFrom_eq_find hahead]
  cases hfind : p.find t with
  | none => rfl
  | some m => simp [covered_ne_nil hp hfind]

/-- Any two bounds that the text does not exceed give the same cuts. -/
theorem cuts_congr (hahead : p.looksAhead = true) (hp : p.nullable = false) {n k : Nat}
    (hn : t.length ≤ n) (hk : t.length ≤ k) (last last' : Option Char) :
    p.cuts n last t = p.cuts k last' t := by
  induction n generalizing k t last last' with
  | zero =>
    obtain rfl := List.length_eq_zero_iff.mp (Nat.le_zero.mp hn)
    rw [cuts_nil hp, cuts_nil hp]
  | succ n ih =>
    cases k with
    | zero =>
      obtain rfl := List.length_eq_zero_iff.mp (Nat.le_zero.mp hk)
      rw [cuts_nil hp, cuts_nil hp]
    | succ k =>
      rw [cuts_succ hahead hp, cuts_succ hahead hp]
      cases hfind : p.find t with
      | none => rfl
      | some m =>
        have hlt := length_after_lt hp hfind
        have hrest : ∀ last, p.cuts n last m.after = p.cuts k last m.after := fun last =>
          ih (by omega) (by omega) last last
        simp only [hrest]

/-- With as many matches allowed as the text has characters, a match is cut off and the search
starts again behind it. -/
theorem cuts_length (hahead : p.looksAhead = true) (hp : p.nullable = false) (t : Text) :
    p.cuts t.length none t =
      match p.find t with
      | none => ([], t)
      | some m => (m :: (p.cuts m.after.length none m.after).1,
          (p.cuts m.after.length none m.after).2) := by
  rw [cuts_congr hahead hp (Nat.le_refl _) (Nat.le_succ _) none none, cuts_succ hahead hp]
  cases hfind : p.find t with
  | none => rfl
  | some m =>
    have hlt := length_after_lt hp hfind
    have hcuts := cuts_congr hahead hp (Nat.le_of_lt hlt) (Nat.le_refl _) m.covered.getLast? none
    simp only [hcuts]

/-- **Replacing every match** is replacing the first one and going on behind it. -/
theorem replaceAll_eq (hahead : p.looksAhead = true) (hp : p.nullable = false) (f : Match → Text)
    (t : Text) :
    p.replaceAll f t =
      match p.find t with
      | none => t
      | some m => m.before ++ f m ++ p.replaceAll f m.after := by
  rw [replaceAll, cuts_length hahead hp]
  cases p.find t with
  | none => rfl
  | some m => simp only [List.flatMap_cons, replaceAll, List.append_assoc]

/-- **Splitting** is cutting at the first match and going on behind it. -/
theorem split_eq (hahead : p.looksAhead = true) (hp : p.nullable = false) (t : Text) :
    p.split t =
      match p.find t with
      | none => [t]
      | some m => m.before :: p.split m.after := by
  rw [split, cuts_length hahead hp]
  cases p.find t with
  | none => rfl
  | some m => simp only [List.map_cons, List.cons_append, split]

/-- **A search passes over the places at which nothing matches.** -/
theorem find_append_of_at? (hahead : p.looksAhead = true)
    (hs : ∀ u, u ≠ [] → u <:+ s → p.at? none (u ++ t) = none) :
    p.find (s ++ t) = (p.find t).map fun m => { m with before := s ++ m.before } := by
  induction s with
  | nil => simp
  | cons c s ih =>
    have hat : p.at? none (c :: (s ++ t)) = none := hs _ (List.cons_ne_nil c s) List.suffix_rfl
    have hrest := ih fun u hne hu => hs u hne (hu.trans (List.suffix_cons c s))
    rw [List.cons_append, find, findFrom, hat]
    simp only [findFrom_eq_find hahead, hrest, Option.map_map]
    rfl

/-- A pattern that matches at no place is not found. -/
theorem find_eq_none_of_forall_at? (hahead : p.looksAhead = true)
    (ht : ∀ u, u <:+ t → p.at? none u = none) : p.find t = none := by
  have hfind := find_append_of_at? (s := t) (t := []) hahead fun u _ hu => by
    rw [List.append_nil]
    exact ht u hu
  rw [List.append_nil] at hfind
  rw [hfind, find, findFrom, ht [] List.nil_suffix]
  rfl

/-- Where a pattern matches, the search ends. -/
theorem exists_find_of_at? {later : Cursor} (h : p.at? none t = some later) :
    ∃ m, p.find t = some m ∧ m.before = [] ∧ m.after = later.rest := by
  rw [find]
  unfold findFrom
  rw [h]
  exact ⟨_, rfl, rfl, rfl⟩

/-- **A replacement passes over the places at which nothing matches**, if what a match is replaced
by does not depend on the text before it. -/
theorem replaceAll_append_of_at? (hahead : p.looksAhead = true) (hp : p.nullable = false)
    (hs : ∀ u, u ≠ [] → u <:+ s → p.at? none (u ++ t) = none)
    (hf : ∀ m b, f { m with before := b } = f m) :
    p.replaceAll f (s ++ t) = s ++ p.replaceAll f t := by
  rw [replaceAll_eq hahead hp, replaceAll_eq hahead hp f t, find_append_of_at? hahead hs]
  cases p.find t with
  | none => rfl
  | some m => simp only [Option.map_some, hf, List.append_assoc]

/-- A match at the start of a text is replaced, and the replacement goes on behind it. -/
theorem replaceAll_of_at? (hahead : p.looksAhead = true) (hp : p.nullable = false)
    {later : Cursor} (h : p.at? none t = some later) (r : Text) :
    p.replaceAll (fun _ => r) t = r ++ p.replaceAll (fun _ => r) later.rest := by
  obtain ⟨m, hfind, hbefore, hafter⟩ := exists_find_of_at? h
  rw [replaceAll_eq hahead hp, hfind]
  simp only [hbefore, hafter, List.nil_append]

/-- A text without a match is left alone. -/
theorem replaceAll_eq_self_of_forall_at? (hahead : p.looksAhead = true) (hp : p.nullable = false)
    (ht : ∀ u, u <:+ t → p.at? none u = none) : p.replaceAll f t = t := by
  rw [replaceAll_eq hahead hp, find_eq_none_of_forall_at? hahead ht]

/-- At characters that no match begins with nothing matches. -/
theorem at?_append_eq_none (hp : p.nullable = false) (hs : ∀ c ∈ s, p.opensWith c = false)
    {u : Text} (hne : u ≠ []) (hu : u <:+ s) : p.at? none (u ++ t) = none := by
  apply at?_eq_none hp
  intro c hc
  rw [List.head?_append_of_ne_nil u hne] at hc
  exact hs c (hu.subset (List.mem_of_head? hc))

/-- **A replacement passes over a beginning in which no match can begin.** -/
theorem replaceAll_append (hahead : p.looksAhead = true) (hp : p.nullable = false)
    (hs : ∀ c ∈ s, p.opensWith c = false) (hf : ∀ m b, f { m with before := b } = f m) (t : Text) :
    p.replaceAll f (s ++ t) = s ++ p.replaceAll f t :=
  replaceAll_append_of_at? hahead hp (fun _ => at?_append_eq_none hp hs) hf

/-- Text in which no match can start is kept in front of the first. -/
theorem replaceFirst_append (hahead : p.looksAhead = true) (hp : p.nullable = false)
    (hs : ∀ c ∈ s, p.opensWith c = false) (replacement t : Text) :
    p.replaceFirst replacement (s ++ t) = s ++ p.replaceFirst replacement t := by
  rw [replaceFirst, replaceFirst, find_append_of_at? hahead fun _ => at?_append_eq_none hp hs]
  cases p.find t with
  | none => rfl
  | some m => simp only [Option.map_some, List.append_assoc]

/-! ## What a replacement adds -/

/-- **Replacing adds no character of a class** if no match is replaced by more of them than it
has. -/
theorem countP_replaceAll_le {k : Char → Bool} (hahead : p.looksAhead = true)
    (hp : p.nullable = false)
    (hf : ∀ m, p.Describes m.covered → (f m).countP k ≤ m.covered.countP k) (t : Text) :
    (p.replaceAll f t).countP k ≤ t.countP k := by
  induction hn : t.length using Nat.strong_induction_on generalizing t with
  | h n ih =>
    rw [replaceAll_eq hahead hp]
    cases hfind : p.find t with
    | none => exact Nat.le_refl _
    | some m =>
      have hrest := ih m.after.length (hn ▸ length_after_lt hp hfind) m.after rfl
      have hcovered := hf m (describes_of_findFrom hfind)
      have ht := congrArg (List.countP k) (before_append_covered_append_after hfind)
      simp only [List.countP_append] at ht ⊢
      omega

end Replace

end Pattern

end DocComment
