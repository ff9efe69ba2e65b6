import DocComment.Pattern.Ends
import DocComment.Pattern.Forms
import DocComment.Proofs.Text.Words

/-!
# What a pattern captures

A pattern **describes** the texts that it can match, whatever stands around them.  Every text that a
match names is described by a group of the pattern with that name (`exists_group_of_get?`), so what
the characters of a captured text can be is read off the group: all of them may lie in a class
(`Within`), or at least one of them must (`Meets`).
-/

namespace DocComment.Pattern

open Text

/-! ## Definitions -/

/-- The pattern can match this text at some place. -/
def Describes : Pattern → Text → Prop
  | empty, t | start, t | finish, t | boundary, t => t = []
  | lit u, t => t = u
  | one p, t => ∃ c, p c = true ∧ t = [c]
  | seq p q, t => ∃ u v, p.Describes u ∧ q.Describes v ∧ t = u ++ v
  | alt p q, t => p.Describes t ∨ q.Describes t
  | star p, t | lazyStar p, t => ∃ us : List Text, (∀ u ∈ us, p.Describes u) ∧ t = us.flatten
  | group _ p, t => p.Describes t

/-- What the groups of one name match. -/
def groups (part : Part) : Pattern → List Pattern
  | empty | start | finish | boundary | lit _ | one _ => []
  | seq p q | alt p q => p.groups part ++ q.groups part
  | star p | lazyStar p => p.groups part
  | group named p => if named = part then p :: p.groups part else p.groups part

/-- Every match names a part. -/
def names (part : Part) : Pattern → Bool
  | empty | start | finish | boundary | lit _ | one _ | star _ | lazyStar _ => false
  | seq p q => p.names part || q.names part
  | alt p q => p.names part && q.names part
  | group named p => decide (named = part) || p.names part

/-- The pattern matches characters of a class only. -/
def Within (k : Char → Bool) : Pattern → Prop
  | empty | start | finish | boundary => True
  | lit u => ∀ c ∈ u, k c = true
  | one p => ∀ c, p c = true → k c = true
  | seq p q | alt p q => p.Within k ∧ q.Within k
  | star p | lazyStar p | group _ p => p.Within k

/-- Whatever the pattern matches holds a character of a class. -/
def Meets (k : Char → Bool) : Pattern → Prop
  | empty | start | finish | boundary | star _ | lazyStar _ => False
  | lit u => ∃ c ∈ u, k c = true
  | one p => ∀ c, p c = true → k c = true
  | seq p q => p.Meets k ∨ q.Meets k
  | alt p q => p.Meets k ∧ q.Meets k
  | group _ p => p.Meets k

/-! ## The text that a match passes -/

section Passed

variable {s mid later : Cursor}

theorem passed_self (s : Cursor) : s.passed s = [] := by
  simp [Cursor.passed]

/-- What is passed in two steps is passed one after the other. -/
theorem passed_trans (hmid : mid.rest <:+ s.rest) (hlater : later.rest <:+ mid.rest) :
    s.passed later = s.passed mid ++ mid.passed later := by
  have h : s.passed later ++ later.rest = (s.passed mid ++ mid.passed later) ++ later.rest := by
    rw [passed_append_rest (hlater.trans hmid), List.append_assoc, passed_append_rest hlater,
      passed_append_rest hmid]
  exact List.append_cancel_right h

/-- A step passes one character of its class. -/
theorem passed_of_step? {p : Char → Bool} (h : s.step? p = some later) :
    ∃ c, p c = true ∧ s.passed later = [c] := by
  unfold Cursor.step? at h
  split at h
  · cases h
  · next c rest hrest =>
    split at h
    · next hc =>
      obtain rfl := Option.some.inj h
      refine ⟨c, hc, ?_⟩
      simp [Cursor.passed, hrest]
    · cases h

/-- Skipping a text passes it. -/
theorem passed_of_skip? {t : Text} (h : s.skip? t = some later) : s.passed later = t := by
  induction t generalizing s with
  | nil =>
    obtain rfl := Option.some.inj h
    exact passed_self s
  | cons c t ih =>
    obtain ⟨mid, hmid, hlater⟩ := Option.bind_eq_some_iff.mp h
    obtain ⟨d, hd, hpassed⟩ := passed_of_step? hmid
    obtain rfl : d = c := by simpa using hd
    rw [passed_trans (rest_suffix_of_step? hmid) (rest_suffix_of_skip? hlater), hpassed, ih hlater]
    rfl

/-- What holds of each step of a repetition, and adds up, holds of the whole. -/
theorem rel_of_mem_eagerEnds {R : Cursor → Cursor → Prop} {step : Cursor → List Cursor}
    (hrefl : ∀ s, R s s) (htrans : ∀ {s mid later}, R s mid → R mid later → R s later)
    (hstep : ∀ s, ∀ later ∈ step s, R s later) (n : Nat) (h : later ∈ eagerEnds step n s) :
    R s later := by
  induction n generalizing s with
  | zero =>
    obtain rfl := List.mem_singleton.mp h
    exact hrefl _
  | succ n ih =>
    rcases List.mem_append.mp h with h | h
    · obtain ⟨mid, hmid, hlater⟩ := List.mem_flatMap.mp h
      exact htrans (hstep s mid hmid) (ih hlater)
    · obtain rfl := List.mem_singleton.mp h
      exact hrefl _

/-- A greedy repetition passes texts that its pattern describes, one after the other. -/
theorem exists_flatten_of_mem_eagerEnds {p : Pattern}
    (hp : ∀ s, ∀ later ∈ p.ends s, p.Describes (s.passed later)) (n : Nat)
    (h : later ∈ eagerEnds p.ends n s) :
    ∃ us : List Text, (∀ u ∈ us, p.Describes u) ∧ s.passed later = us.flatten := by
  have hrel := rel_of_mem_eagerEnds
    (R := fun s later => later.rest <:+ s.rest ∧
      ∃ us : List Text, (∀ u ∈ us, p.Describes u) ∧ s.passed later = us.flatten)
    (fun s => ⟨List.suffix_rfl, [], nofun, passed_self s⟩) ?_ ?_ n h
  · exact hrel.2
  · rintro s mid later ⟨hmid, us, hus, hflat⟩ ⟨hlater, vs, hvs, hflat'⟩
    refine ⟨hlater.trans hmid, us ++ vs, ?_, ?_⟩
    · exact fun u hu => (List.mem_append.mp hu).elim (hus u) (hvs u)
    · rw [passed_trans hmid hlater, hflat, hflat', List.flatten_append]
  · intro s later hlater
    refine ⟨rest_suffix_of_mem_ends p hlater, [s.passed later], ?_, (List.flatten_singleton).symm⟩
    exact fun u hu => List.mem_singleton.mp hu ▸ hp s later hlater

/-- **A match passes a text that its pattern describes.** -/
theorem describes_of_mem_ends (p : Pattern) (h : later ∈ p.ends s) :
    p.Describes (s.passed later) := by
  induction p generalizing s later with
  | empty =>
    obtain rfl := List.mem_singleton.mp h
    exact passed_self _
  | lit t => exact passed_of_skip? (Option.mem_toList.mp h)
  | one p => exact passed_of_step? (Option.mem_toList.mp h)
  | start | finish | boundary =>
    simp only [ends] at h
    split at h
    · obtain rfl := List.mem_singleton.mp h
      exact passed_self _
    · cases h
  | seq p q ihp ihq =>
    obtain ⟨mid, hmid, hlater⟩ := List.mem_flatMap.mp h
    exact ⟨_, _, ihp hmid, ihq hlater,
      passed_trans (rest_suffix_of_mem_ends p hmid) (rest_suffix_of_mem_ends q hlater)⟩
  | alt p q ihp ihq => exact (List.mem_append.mp h).imp ihp ihq
  | star p ih => exact exists_flatten_of_mem_eagerEnds (fun _ _ => ih) _ h
  | lazyStar p ih =>
    exact exists_flatten_of_mem_eagerEnds (fun _ _ => ih) _ (mem_reluctantEnds.mp h)
  | group part p ih =>
    obtain ⟨mid, hmid, rfl⟩ := List.mem_map.mp h
    exact (ih hmid : p.Describes (s.passed mid))

end Passed

/-! ## The texts that a match names -/

section Named

variable {s later : Cursor} {part : Part} {t : Text}

/-- A step captures nothing. -/
theorem parts_of_step? {k : Char → Bool} (h : s.step? k = some later) : later.parts = s.parts := by
  unfold Cursor.step? at h
  split at h
  · cases h
  · split at h
    · obtain rfl := Option.some.inj h
      rfl
    · cases h

/-- Skipping a text captures nothing. -/
theorem parts_of_skip? {u : Text} (h : s.skip? u = some later) : later.parts = s.parts := by
  induction u generalizing s with
  | nil =>
    obtain rfl := Option.some.inj h
    rfl
  | cons c u ih =>
    obtain ⟨mid, hmid, hlater⟩ := Option.bind_eq_some_iff.mp h
    rw [ih hlater, parts_of_step? hmid]

/-- What was named stays named. -/
theorem parts_suffix_of_mem_ends (p : Pattern) (h : later ∈ p.ends s) :
    s.parts <:+ later.parts := by
  induction p generalizing s later with
  | empty =>
    obtain rfl := List.mem_singleton.mp h
    exact List.suffix_rfl
  | lit u => exact parts_of_skip? (Option.mem_toList.mp h) ▸ List.suffix_rfl
  | one c => exact parts_of_step? (Option.mem_toList.mp h) ▸ List.suffix_rfl
  | start | finish | boundary =>
    simp only [ends] at h
    split at h
    · obtain rfl := List.mem_singleton.mp h
      exact List.suffix_rfl
    · cases h
  | seq p q ihp ihq =>
    obtain ⟨mid, hmid, hlater⟩ := List.mem_flatMap.mp h
    exact (ihp hmid).trans (ihq hlater)
  | alt p q ihp ihq => exact (List.mem_append.mp h).elim ihp ihq
  | star p ih =>
    exact rel_of_mem_eagerEnds (R := fun s later => s.parts <:+ later.parts)
      (fun _ => List.suffix_rfl) List.IsSuffix.trans (fun _ _ => ih) _ h
  | lazyStar p ih =>
    exact rel_of_mem_eagerEnds (R := fun s later => s.parts <:+ later.parts)
      (fun _ => List.suffix_rfl) List.IsSuffix.trans (fun _ _ => ih) _ (mem_reluctantEnds.mp h)
  | group named p ih =>
    obtain ⟨mid, hmid, rfl⟩ := List.mem_map.mp h
    exact (ih hmid).trans (List.suffix_cons _ _)

/-- A pattern that always goes through a group captures it. -/
theorem exists_mem_parts_of_names (p : Pattern) (hp : p.names part = true) (h : later ∈ p.ends s) :
    ∃ t, (part, t) ∈ later.parts := by
  induction p generalizing s later with
  | empty | lit | one | start | finish | boundary | star | lazyStar => cases hp
  | seq p q ihp ihq =>
    obtain ⟨mid, hmid, hlater⟩ := List.mem_flatMap.mp h
    rcases (Bool.or_eq_true _ _).mp hp with hp | hp
    · obtain ⟨t, ht⟩ := ihp hp hmid
      exact ⟨t, (parts_suffix_of_mem_ends q hlater).subset ht⟩
    · exact ihq hp hlater
  | alt p q ihp ihq =>
    obtain ⟨hp, hq⟩ := (Bool.and_eq_true _ _).mp hp
    exact (List.mem_append.mp h).elim (ihp hp) (ihq hq)
  | group named p ih =>
    obtain ⟨mid, hmid, rfl⟩ := List.mem_map.mp h
    rcases (Bool.or_eq_true _ _).mp hp with hp | hp
    · obtain rfl := of_decide_eq_true hp
      exact ⟨_, List.mem_cons_self⟩
    · obtain ⟨t, ht⟩ := ih hp hmid
      exact ⟨t, List.mem_cons_of_mem _ ht⟩

/-- What a greedy repetition captures was captured before it or in one of its rounds. -/
theorem mem_parts_of_mem_eagerEnds {step : Cursor → List Cursor} {Q : Prop}
    (hstep : ∀ s, ∀ later ∈ step s, (part, t) ∈ later.parts → (part, t) ∈ s.parts ∨ Q) (n : Nat)
    (h : later ∈ eagerEnds step n s) : (part, t) ∈ later.parts → (part, t) ∈ s.parts ∨ Q :=
  rel_of_mem_eagerEnds (R := fun s later => (part, t) ∈ later.parts → (part, t) ∈ s.parts ∨ Q)
    (fun _ => Or.inl) (fun hmid hlater ht => (hlater ht).elim hmid Or.inr) hstep n h

/-- What one of some patterns describes is described by one of more patterns. -/
theorem exists_describes_of_subset {ps qs : List Pattern} (hsub : ps ⊆ qs)
    (h : ∃ p ∈ ps, p.Describes t) : ∃ q ∈ qs, q.Describes t := by
  obtain ⟨p, hp, hdescribes⟩ := h
  exact ⟨p, hsub hp, hdescribes⟩

/-- A match adds no names but those of its groups. -/
theorem mem_parts_of_mem_ends (p : Pattern) (h : later ∈ p.ends s) (ht : (part, t) ∈ later.parts) :
    (part, t) ∈ s.parts ∨ ∃ q ∈ p.groups part, q.Describes t := by
  induction p generalizing s later with
  | empty =>
    obtain rfl := List.mem_singleton.mp h
    exact Or.inl ht
  | lit u => exact Or.inl (parts_of_skip? (Option.mem_toList.mp h) ▸ ht)
  | one c => exact Or.inl (parts_of_step? (Option.mem_toList.mp h) ▸ ht)
  | start | finish | boundary =>
    simp only [ends] at h
    split at h
    · obtain rfl := List.mem_singleton.mp h
      exact Or.inl ht
    · cases h
  | seq p q ihp ihq =>
    obtain ⟨mid, hmid, hlater⟩ := List.mem_flatMap.mp h
    rcases ihq hlater ht with hpart | hq
    · exact (ihp hmid hpart).imp_right (exists_describes_of_subset (List.subset_append_left _ _))
    · exact Or.inr (exists_describes_of_subset (List.subset_append_right _ _) hq)
  | alt p q ihp ihq =>
    rcases List.mem_append.mp h with h | h
    · exact (ihp h ht).imp_right (exists_describes_of_subset (List.subset_append_left _ _))
    · exact (ihq h ht).imp_right (exists_describes_of_subset (List.subset_append_right _ _))
  | star p ih => exact mem_parts_of_mem_eagerEnds (fun _ _ => ih) _ h ht
  | lazyStar p ih => exact mem_parts_of_mem_eagerEnds (fun _ _ => ih) _ (mem_reluctantEnds.mp h) ht
  | group named p ih =>
    obtain ⟨mid, hmid, rfl⟩ := List.mem_map.mp h
    have hsub : p.groups part ⊆ (group named p).groups part := by
      rw [groups]
      split
      · exact List.subset_cons_self _ _
      · exact List.Subset.refl _
    rcases List.mem_cons.mp ht with heq | ht
    · obtain ⟨rfl, rfl⟩ := Prod.mk.inj heq
      have hself : p ∈ (group part p).groups part := by simp [groups]
      exact Or.inr ⟨p, hself, describes_of_mem_ends p hmid⟩
    · exact (ih hmid ht).imp_right (exists_describes_of_subset hsub)

/-- A search matches somewhere in the text. -/
theorem exists_mem_ends_of_findFrom {p : Pattern} {last : Option Char} {text : Text} {m : Match}
    (h : p.findFrom last text = some m) :
    ∃ s later, s.rest <:+ text ∧ s.parts = [] ∧ later ∈ p.ends s ∧ m.parts = later.parts := by
  fun_induction findFrom p last text generalizing m with
  | case1 last text later hat =>
    obtain rfl := Option.some.inj h
    rw [at?_eq_head?] at hat
    exact ⟨_, later, List.suffix_rfl, rfl, List.mem_of_head? hat, rfl⟩
  | case2 => cases h
  | case3 last c rest hat ih =>
    obtain ⟨m, hm, rfl⟩ := Option.map_eq_some_iff.mp h
    obtain ⟨s, later, hrest, hparts, hmem, heq⟩ := ih hm
    exact ⟨s, later, hrest.trans (List.suffix_cons c rest), hparts, hmem, heq⟩

variable {p q : Pattern} {text : Text} {m : Match}

/-- **A captured text is described by a group of its name.** -/
theorem exists_group_of_get? (h : p.find text = some m) (ht : m.get? part = some t) :
    ∃ q ∈ p.groups part, q.Describes t := by
  obtain ⟨s, later, -, hnone, hmem, hparts⟩ := exists_mem_ends_of_findFrom h
  have hpart : (part, t) ∈ later.parts := by
    rw [Match.get?, List.lookup_eq_some_iff] at ht
    obtain ⟨before, after, heq, -⟩ := ht
    rw [← hparts, heq]
    simp
  rcases mem_parts_of_mem_ends p hmem hpart with hold | hgroup
  · rw [hnone] at hold
    cases hold
  · exact hgroup

/-- A text captured by the only group of its name. -/
theorem describes_of_get? (hgroups : p.groups part = [q]) (h : p.find text = some m)
    (ht : m.get? part = some t) : q.Describes t := by
  obtain ⟨r, hr, hdescribes⟩ := exists_group_of_get? h ht
  rw [hgroups] at hr
  exact List.mem_singleton.mp hr ▸ hdescribes

/-- A text captured by the only group of its name, which no match can do without. -/
theorem describes_get (hgroups : p.groups part = [q]) (hnames : p.names part = true)
    (h : p.find text = some m) : q.Describes (m.get part) := by
  obtain ⟨s, later, -, -, hmem, hparts⟩ := exists_mem_ends_of_findFrom h
  obtain ⟨t, ht⟩ := exists_mem_parts_of_names p hnames hmem
  have hsome : (m.get? part).isSome = true := by
    rw [Match.get?, List.lookup_isSome_iff, hparts]
    exact ⟨_, ht, by simp⟩
  obtain ⟨u, hu⟩ := Option.isSome_iff_exists.mp hsome
  rw [Match.get, hu]
  exact describes_of_get? hgroups h hu

end Named

/-! ## Classes of characters -/

section Classes

variable {p : Pattern} {k : Char → Bool} {t : Text}

/-- What a pattern within a class describes has characters of the class only. -/
theorem Describes.forall_mem (h : p.Describes t) (hp : p.Within k) : ∀ c ∈ t, k c = true := by
  induction p generalizing t with
  | empty | start | finish | boundary =>
    obtain rfl := h
    exact nofun
  | lit u =>
    obtain rfl := h
    exact hp
  | one q =>
    obtain ⟨c, hc, rfl⟩ := h
    simpa using hp c hc
  | seq p q ihp ihq =>
    obtain ⟨u, v, hu, hv, rfl⟩ := h
    intro c hc
    exact (List.mem_append.mp hc).elim (ihp hu hp.1 c) (ihq hv hp.2 c)
  | alt p q ihp ihq => exact h.elim (fun h => ihp h hp.1) fun h => ihq h hp.2
  | star p ih | lazyStar p ih =>
    obtain ⟨us, hus, rfl⟩ := h
    intro c hc
    obtain ⟨u, hu, hcu⟩ := List.mem_flatten.mp hc
    exact ih (hus u hu) hp c hcu
  | group part p ih => exact ih h hp

/-- What a pattern that meets a class describes has a character of the class. -/
theorem Describes.exists_mem (h : p.Describes t) (hp : p.Meets k) : ∃ c ∈ t, k c = true := by
  induction p generalizing t with
  | empty | start | finish | boundary | star | lazyStar => exact hp.elim
  | lit u =>
    obtain rfl := h
    exact hp
  | one q =>
    obtain ⟨c, hc, rfl⟩ := h
    exact ⟨c, List.mem_singleton.mpr rfl, hp c hc⟩
  | seq p q ihp ihq =>
    obtain ⟨u, v, hu, hv, rfl⟩ := h
    rcases hp with hp | hp
    · obtain ⟨c, hc, hk⟩ := ihp hu hp
      exact ⟨c, List.mem_append_left _ hc, hk⟩
    · obtain ⟨c, hc, hk⟩ := ihq hv hp
      exact ⟨c, List.mem_append_right _ hc, hk⟩
  | alt p q ihp ihq => exact h.elim (fun h => ihp h hp.1) fun h => ihq h hp.2
  | group part p ih => exact ih h hp

theorem isDollarChar_of_isDollarStart {c : Char} (h : isDollarStart c = true) :
    isDollarChar c = true := by
  simp only [isDollarStart, isDollarChar, Char.isAlphanum, Bool.or_eq_true] at h ⊢
  tauto

/-- Letters, digits, underscores and dollar signs are not blank. -/
theorem isBlank_eq_false_of_isDollarChar {c : Char} (h : isDollarChar c = true) :
    isBlank c = false := by
  delta isDollarChar Char.isAlphanum Char.isAlpha Char.isUpper Char.isLower Char.isDigit at h
  simp only [Bool.or_eq_true, Bool.and_eq_true, decide_eq_true_eq, beq_iff_eq,
    UInt32.le_iff_toNat_le, ge_iff_le] at h
  change ((((65 ≤ c.toNat ∧ c.toNat ≤ 90) ∨ (97 ≤ c.toNat ∧ c.toNat ≤ 122)) ∨
    (48 ≤ c.toNat ∧ c.toNat ≤ 57)) ∨ c = '_') ∨ c = '$' at h
  rcases h with (h | rfl) | rfl
  · simp only [isBlank, Bool.or_eq_false_iff, Bool.and_eq_false_iff, decide_eq_false_iff_not,
      beq_eq_false_iff_ne]
    omega
  · decide
  · decide

/-- An identifier is within every class that has the characters of identifiers. -/
theorem within_dollarName (h : ∀ c, isDollarChar c = true → k c = true) : dollarName.Within k :=
  ⟨fun c hc => h c (isDollarChar_of_isDollarStart hc), h⟩

/-- An identifier meets every class that has the characters of identifiers. -/
theorem meets_dollarName (h : ∀ c, isDollarChar c = true → k c = true) : dollarName.Meets k :=
  Or.inl (within_dollarName h).1

end Classes

end DocComment.Pattern
