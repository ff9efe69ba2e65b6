import DocComment.Proofs.Pattern.Captures

/-!
# Where a match can begin

Two questions about a pattern are settled by its syntax: whether it can match nothing (`nullable`),
and whether a match can begin with a given character (`opensWith`).  A pattern that consumes
something passes over every character that it cannot begin with.  A search therefore skips such
characters (`findFrom_cons`), in a text that is made of them there is nothing to replace
(`replaceAll_eq_self`), and a pattern that is tied to the beginning of the text is not found at all
in a text that starts with one (`find_eq_none_of_anchored`).
-/

namespace DocComment.Pattern

open Text

/-- Whether the pattern can match the empty text. -/
def nullable : Pattern → Bool
  | empty | start | finish | boundary | star _ | lazyStar _ => true
  | lit t => t.isEmpty
  | one _ => false
  | seq p q => p.nullable && q.nullable
  | alt p q => p.nullable || q.nullable
  | group _ p => p.nullable

/-- Whether a match can begin with a character. -/
def opensWith (c : Char) : Pattern → Bool
  | empty | start | finish | boundary => false
  | lit t => t.head? == some c
  | one k => k c
  | seq p q => p.opensWith c || (p.nullable && q.opensWith c)
  | alt p q => p.opensWith c || q.opensWith c
  | star p | lazyStar p | group _ p => p.opensWith c

theorem append_eq_seq (p q : Pattern) : p ++ q = seq p q := rfl

/-- Whether the pattern matches only at the beginning of the text. -/
def anchored : Pattern → Bool
  | start => true
  | seq p _ => p.anchored
  | _ => false

section Described

variable {p : Pattern} {t : Text} {c : Char}

/-- A pattern that describes the empty text may be empty. -/
theorem nullable_of_describes_nil (h : p.Describes []) : p.nullable = true := by
  induction p with
  | empty | start | finish | boundary | star | lazyStar => rfl
  | lit u =>
    obtain rfl : [] = u := h
    rfl
  | one k =>
    obtain ⟨c, -, hc⟩ := h
    cases hc
  | seq p q ihp ihq =>
    obtain ⟨u, v, hu, hv, huv⟩ := h
    obtain ⟨rfl, rfl⟩ := List.append_eq_nil_iff.mp huv.symm
    rw [nullable, ihp hu, ihq hv]
    rfl
  | alt p q ihp ihq =>
    rw [nullable, Bool.or_eq_true]
    exact h.imp ihp ihq
  | group part p ih => exact ih h

/-- A repetition that begins with a character has a first repetition that does. -/
theorem exists_cons_append_of_flatten {P : Text → Prop} {us : List Text} (hus : ∀ u ∈ us, P u)
    (hflat : us.flatten = c :: t) :
    ∃ (u : Text) (vs : List Text), P (c :: u) ∧ (∀ v ∈ vs, P v) ∧ t = u ++ vs.flatten := by
  induction us with
  | nil => cases hflat
  | cons u us ih =>
    obtain ⟨hu, hrest⟩ := List.forall_mem_cons.mp hus
    cases u with
    | nil => exact ih hrest hflat
    | cons d u =>
      obtain ⟨rfl, rfl⟩ := List.cons.inj hflat
      exact ⟨u, us, hu, hrest, rfl⟩

/-- A pattern may open with the first character of a text it describes. -/
theorem opensWith_of_describes_cons (h : p.Describes (c :: t)) : p.opensWith c = true := by
  induction p generalizing t with
  | empty | start | finish | boundary => cases h
  | lit u =>
    obtain rfl : c :: t = u := h
    simp [opensWith]
  | one k =>
    obtain ⟨d, hd, hcons⟩ := h
    obtain rfl : c = d := (List.cons.inj hcons).1
    exact hd
  | seq p q ihp ihq =>
    obtain ⟨u, v, hu, hv, huv⟩ := h
    rw [opensWith, Bool.or_eq_true, Bool.and_eq_true]
    cases u with
    | nil =>
      obtain rfl : c :: t = v := huv
      exact Or.inr ⟨nullable_of_describes_nil hu, ihq hv⟩
    | cons d u =>
      obtain rfl : c = d := (List.cons.inj huv).1
      exact Or.inl (ihp hu)
  | alt p q ihp ihq =>
    rw [opensWith, Bool.or_eq_true]
    exact h.imp ihp ihq
  | star p ih | lazyStar p ih =>
    obtain ⟨us, hus, hflat⟩ := h
    obtain ⟨u, -, hu, -, -⟩ := exists_cons_append_of_flatten hus hflat.symm
    exact ih hu
  | group part p ih => exact ih h

end Described

/-! ## Searching -/

section Search

variable {p : Pattern} {last : Option Char} {t : Text} {c : Char}

/-- A pattern that consumes something matches only where it can begin. -/
theorem ends_eq_nil {s : Cursor} (hp : p.nullable = false)
    (hs : ∀ c ∈ s.rest.head?, p.opensWith c = false) : p.ends s = [] := by
  rw [List.eq_nil_iff_forall_not_mem]
  intro later hlater
  have hdescribes := describes_of_mem_ends p hlater
  have happend : s.passed later ++ later.rest = s.rest :=
    passed_append_rest (rest_suffix_of_mem_ends p hlater)
  cases hpassed : s.passed later with
  | nil =>
    rw [hpassed] at hdescribes
    rw [nullable_of_describes_nil hdescribes] at hp
    cases hp
  | cons c u =>
    rw [hpassed] at hdescribes happend
    have hopens := opensWith_of_describes_cons hdescribes
    rw [hs c (happend ▸ rfl)] at hopens
    cases hopens

/-- What a pattern that consumes something leaves is shorter. -/
theorem length_rest_lt_of_mem_ends {s later : Cursor} (hp : p.nullable = false)
    (h : later ∈ p.ends s) : later.rest.length < s.rest.length := by
  have hne : s.passed later ≠ [] := by
    intro hnil
    have hdescribes := describes_of_mem_ends p h
    rw [hnil] at hdescribes
    rw [nullable_of_describes_nil hdescribes] at hp
    cases hp
  have hpos := List.length_pos_iff.mpr hne
  rw [← passed_append_rest (rest_suffix_of_mem_ends p h), List.length_append]
  exact Nat.lt_add_of_pos_left hpos

/-- A pattern that may not be empty does not match where it cannot open. -/
theorem at?_eq_none (hp : p.nullable = false) (ht : ∀ c ∈ t.head?, p.opensWith c = false) :
    p.at? last t = none := by
  rw [at?_eq_head?, ends_eq_nil hp ht, List.head?_nil]

/-- A search skips a character that no match begins with. -/
theorem findFrom_cons (hp : p.nullable = false) (hc : p.opensWith c = false) :
    p.findFrom last (c :: t) =
      (p.findFrom (some c) t).map fun m => { m with before := c :: m.before } := by
  have hat : p.at? last (c :: t) = none := at?_eq_none hp fun d hd => by
    obtain rfl : c = d := Option.some.inj hd
    exact hc
  rw [findFrom, hat]

/-- A text of characters that no match begins with holds no match. -/
theorem findFrom_eq_none (hp : p.nullable = false) (ht : ∀ c ∈ t, p.opensWith c = false) :
    p.findFrom last t = none := by
  induction t generalizing last with
  | nil => rw [findFrom, at?_eq_none hp (by simp)]
  | cons c t ih =>
    rw [findFrom_cons hp (ht c List.mem_cons_self), ih fun d hd => ht d (List.mem_cons_of_mem _ hd)]
    rfl

/-- An anchored pattern matches nowhere but at the start. -/
theorem ends_of_anchored {s : Cursor} (hp : p.anchored = true) (hs : s.last.isSome = true) :
    p.ends s = [] := by
  induction p generalizing s with
  | start => simp [ends, Option.isNone_eq_false_iff.mpr hs]
  | seq p q ihp ihq => rw [ends, ihp hp hs, List.flatMap_nil]
  | _ => cases hp

/-- Behind the start an anchored pattern is not found. -/
theorem findFrom_of_anchored (hp : p.anchored = true) (d : Char) (t : Text) :
    p.findFrom (some d) t = none := by
  induction t generalizing d with
  | nil => rw [findFrom, at?_eq_head?, ends_of_anchored hp rfl, List.head?_nil]
  | cons c t ih =>
    rw [findFrom, at?_eq_head?, ends_of_anchored hp rfl, List.head?_nil]
    simp [ih c]

/-- **A pattern tied to the beginning** is found there or nowhere. -/
theorem find_eq_none_of_at? (hp : p.anchored = true) (h : p.at? none t = none) :
    p.find t = none := by
  cases t with
  | nil => rw [find, findFrom, h]
  | cons c t =>
    rw [find, findFrom, h]
    simp [findFrom_of_anchored hp]

/-- A pattern tied to the beginning is not found in a text that starts with a character it cannot
begin with. -/
theorem find_eq_none_of_anchored (hanchored : p.anchored = true) (hp : p.nullable = false)
    (hc : p.opensWith c = false) : p.find (c :: t) = none := by
  apply find_eq_none_of_at? hanchored
  apply at?_eq_none hp
  intro d hd
  obtain rfl : c = d := Option.some.inj hd
  exact hc

end Search

/-! ## Replacing -/

section Replace

variable {p : Pattern} {t : Text} {f : Match → Text}

/-- Where no match can begin there is nothing to replace. -/
theorem replaceAll_eq_self (hp : p.nullable = false) (ht : ∀ c ∈ t, p.opensWith c = false) :
    p.replaceAll f t = t := by
  rw [replaceAll]
  cases t.length with
  | zero => rfl
  | succ n =>
    rw [cuts, findFrom_eq_none hp ht]
    rfl

/-- A text in which no match can open is left alone. -/
theorem replaceFirst_eq_self (replacement : Text) (hp : p.nullable = false)
    (ht : ∀ c ∈ t, p.opensWith c = false) : p.replaceFirst replacement t = t := by
  rw [replaceFirst, find, findFrom_eq_none hp ht]

end Replace

end DocComment.Pattern
