import DocComment.Proofs.Definition.Stripping

/-!
# Pieces of a line

A line of a program is code, string literals and comments one after the other (`Piece`).  Code has
no slashes, so where there is no comment a slash stands in a literal and has a quote on both sides
(`exists_isQuote_of_slash`).  Stripping should keep the code, empty the literals and delete the
comments (`kept`).  Emptying the literals between single quotes and then those between double
quotes does so if there are no comments (`emptyLiterals_emptyLiterals_written`), and no quote should
be lost on the way (`quotes_kept`).
-/

namespace DocComment.Definition

open Text

/-- A piece of a line. -/
inductive Piece where
  | code (t : Text)
  | literal (quote : Char) (content : Text)
  | comment (content : Text)
  deriving DecidableEq

namespace Piece

/-- The piece as it stands in the line. -/
def written : Piece → Text
  | code t => t
  | literal q s => q :: s ++ [q]
  | comment s => opener ++ (s ++ closer)

/-- What should be left of the piece. -/
def kept : Piece → Text
  | code t => t
  | literal q _ => [q, q]
  | comment _ => []

/-- Code holds no quotes, backslashes and slashes, a literal no quotes and backslashes inside, and a
comment nothing that ends it, no two slashes and no quotes. -/
def Proper : Piece → Prop
  | code t => ∀ c ∈ t, isQuote c = false ∧ c ≠ '\\' ∧ c ≠ '/'
  | literal q s => isQuote q = true ∧ ∀ c ∈ s, isQuote c = false ∧ c ≠ '\\'
  | comment s => Free closer s ∧ Free slashes s ∧ ∀ c ∈ s, isQuote c = false

instance : DecidablePred Proper
  | code t => List.decidableBAll _ t
  | literal _ s => @instDecidableAnd _ _ inferInstance (List.decidableBAll _ s)
  | comment s =>
    @instDecidableAnd _ _ inferInstance
      (@instDecidableAnd _ _ inferInstance (List.decidableBAll _ s))

/-- Whether the piece is a comment. -/
def isComment : Piece → Bool
  | comment _ => true
  | _ => false

/-- Code or a literal. -/
def Plain (piece : Piece) : Prop := piece.Proper ∧ piece.isComment = false

/-- The piece with nothing in it if it is a literal between the given quotes. -/
def clear (quote : Char) : Piece → Piece
  | literal q s => literal q (if q = quote then [] else s)
  | piece => piece

/-- Clearing a literal leaves a plain piece plain. -/
theorem Plain.clear {piece : Piece} (h : piece.Plain) (q : Char) : (piece.clear q).Plain := by
  cases piece with
  | code | comment => exact h
  | literal q' s =>
    refine ⟨⟨h.1.1, ?_⟩, rfl⟩
    by_cases hq : q' = q
    · simp [hq]
    · simpa [hq] using h.1.2

end Piece

/-- The pieces as they stand in the line. -/
def written (pieces : List Piece) : Text := pieces.flatMap Piece.written

/-- What should be left of the pieces. -/
def kept (pieces : List Piece) : Text := pieces.flatMap Piece.kept

section Lists

variable {q : Char} {u d : Text} {ps : List Piece}

@[simp] theorem written_nil : written [] = [] := rfl

@[simp] theorem written_cons (piece : Piece) (ps : List Piece) :
    written (piece :: ps) = piece.written ++ written ps := rfl

@[simp] theorem written_append (ps qs : List Piece) :
    written (ps ++ qs) = written ps ++ written qs := List.flatMap_append

@[simp] theorem kept_nil : kept [] = [] := rfl

@[simp] theorem kept_cons (piece : Piece) (ps : List Piece) :
    kept (piece :: ps) = piece.kept ++ kept ps := rfl

@[simp] theorem kept_append (ps qs : List Piece) : kept (ps ++ qs) = kept ps ++ kept qs :=
  List.flatMap_append

/-- The quotes of a line are those of its literals, and all of them should be left. -/
theorem quotes_kept (hps : ∀ piece ∈ ps, piece.Proper) :
    quotes (kept ps) = quotes (written ps) := by
  induction ps with
  | nil => rfl
  | cons piece ps ih =>
    obtain ⟨hpiece, hrest⟩ := List.forall_mem_cons.mp hps
    rw [kept_cons, written_cons, quotes_append, quotes_append, ih hrest, Nat.add_right_cancel_iff]
    cases piece with
    | code t => rfl
    | literal q s =>
      have hs := quotes_eq_zero fun c hc => (hpiece.2 c hc).1
      change quotes ([q] ++ [q]) = quotes ([q] ++ s ++ [q])
      rw [quotes_append, quotes_append, quotes_append, hs, Nat.add_zero]
    | comment s =>
      have hs := quotes_eq_zero hpiece.2.2
      change quotes [] = quotes (opener ++ (s ++ closer))
      rw [quotes_append, quotes_append, hs]
      rfl

/-! ## Slashes -/

/-- Where there are no comments, a slash stands in a literal. -/
theorem exists_literal_of_slash (hps : ∀ piece ∈ ps, piece.Plain) (h : written ps = u ++ '/' :: d) :
    ∃ l q s₁ s₂ r, ps = l ++ .literal q (s₁ ++ '/' :: s₂) :: r ∧
      u = written l ++ q :: s₁ ∧ d = s₂ ++ q :: written r := by
  induction ps generalizing u with
  | nil => simp at h
  | cons piece ps ih =>
    obtain ⟨⟨hpiece, hplain⟩, hrest⟩ := List.forall_mem_cons.mp hps
    rw [written_cons] at h
    cases piece with
    | comment s => cases hplain
    | code t =>
      have ht : '/' ∉ t := fun h => (hpiece _ h).2.2 rfl
      obtain ⟨v, rfl, hv⟩ := exists_of_append_eq_append_cons ht h
      obtain ⟨l, q, s₁, s₂, r, rfl, rfl, rfl⟩ := ih hrest hv
      exact ⟨.code t :: l, q, s₁, s₂, r, rfl, by simp [Piece.written], rfl⟩
    | literal q s =>
      have hne : '/' ≠ q := (ne_of_class hpiece.1 rfl).symm
      have hq : '/' ∉ [q] := List.mem_singleton.not.mpr hne
      rcases append_eq_append_cons_cases h with ⟨w, hw, rfl⟩ | ⟨v, rfl, hv⟩
      · obtain ⟨v, rfl, hs⟩ := exists_of_append_eq_append_cons (a := [q]) hq hw
        rcases append_eq_append_cons_cases hs with ⟨s₂, rfl, rfl⟩ | ⟨v', rfl, hend⟩
        · exact ⟨[], q, v, s₂, ps, rfl, rfl, by simp⟩
        · exact absurd (hend ▸ List.mem_append_right v' List.mem_cons_self) hq
      · obtain ⟨l, q', s₁, s₂, r, rfl, rfl, rfl⟩ := ih hrest hv
        exact ⟨.literal q s :: l, q', s₁, s₂, r, rfl, by simp [Piece.written], rfl⟩

/-- Where there are no comments, a quote stands before and behind every slash. -/
theorem exists_isQuote_of_slash (hps : ∀ piece ∈ ps, piece.Plain) (h : written ps = u ++ '/' :: d) :
    (∃ x ∈ u, isQuote x = true) ∧ ∃ x ∈ d, isQuote x = true := by
  obtain ⟨l, q, s₁, s₂, r, rfl, rfl, rfl⟩ := exists_literal_of_slash hps h
  have hq := (hps _ (List.mem_append_right l List.mem_cons_self)).1.1
  exact ⟨⟨q, by simp, hq⟩, q, by simp, hq⟩

/-! ## Emptying -/

/-- Emptying the literals of one kind leaves the other pieces as they are. -/
theorem emptyLiterals_written (hq : isQuote q = true) (hps : ∀ piece ∈ ps, piece.Plain) :
    emptyLiterals q (written ps) = written (ps.map (Piece.clear q)) := by
  induction ps with
  | nil => rfl
  | cons piece ps ih =>
    obtain ⟨⟨hpiece, hplain⟩, hrest⟩ := List.forall_mem_cons.mp hps
    rw [written_cons, List.map_cons, written_cons, ← ih hrest]
    cases piece with
    | comment s => cases hplain
    | code t =>
      apply emptyLiterals_append
      intro h
      have hnot := (hpiece q h).1
      rw [hq] at hnot
      cases hnot
    | literal q' s =>
      have hne : ∀ c ∈ s, c ≠ q ∧ c ≠ '\\' := by
        intro c hc
        refine ⟨?_, (hpiece.2 c hc).2⟩
        rintro rfl
        have hnot := (hpiece.2 c hc).1
        rw [hq] at hnot
        cases hnot
      by_cases heq : q' = q
      · subst heq
        have hempty := emptyLiterals_literal (ne_of_class hq rfl) hne (written ps)
        simpa [Piece.written, Piece.clear] using hempty
      · rw [emptyLiterals_append]
        · simp [Piece.clear, heq]
        · intro hmem
          have hs : q ∈ s := by simpa [Piece.written, Ne.symm heq] using hmem
          exact (hne q hs).1 rfl

/-- **Without comments a line is left with what should be left of it.** -/
theorem emptyLiterals_emptyLiterals_written (hps : ∀ piece ∈ ps, piece.Plain) :
    emptyLiterals '"' (emptyLiterals '\'' (written ps)) = kept ps := by
  have hcleared : ∀ piece ∈ ps.map (Piece.clear '\''), piece.Plain := by
    intro piece hmem
    obtain ⟨old, hold, rfl⟩ := List.mem_map.mp hmem
    exact (hps old hold).clear _
  rw [emptyLiterals_written rfl hps, emptyLiterals_written rfl hcleared, List.map_map, written,
    kept, List.flatMap_map]
  apply List.flatMap_congr
  intro piece hmem
  cases piece with
  | code t => rfl
  | comment s => cases (hps _ hmem).2
  | literal q s =>
    rcases (Bool.or_eq_true _ _).mp (hps _ hmem).1.1 with h | h
    · rw [beq_iff_eq.mp h]
      rfl
    · rw [beq_iff_eq.mp h]
      rfl

end Lists

end DocComment.Definition
