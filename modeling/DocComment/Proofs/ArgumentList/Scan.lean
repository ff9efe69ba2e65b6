import DocComment.ArgumentList

/-!
# Scanning a parameter list

Splitting is a scan from left to right: what is open, the pieces that are complete, and the piece
that is being read (`Scan`).  A comma completes a piece exactly where nothing is open, and the scan
goes on from there as from the start, so the arguments on the two sides of such a comma do not see
each other (`split_append_of_isNeutral`).  Everywhere else a comma is a character like any other.
-/

namespace DocComment.ArgumentList

open Text

/-! ## One character -/

namespace Nesting

variable {m : Nesting} {c : Char}

/-- Where a comma separates, the scan is where it started. -/
theorem isNeutral_iff : m.isNeutral = true ↔ m = {} := by
  obtain ⟨closer, escaped, squares, braces⟩ := m
  cases closer <;> cases escaped <;> simp [isNeutral]

/-- A comma at the top level cuts. -/
theorem next_comma_initial : next {} ',' = (.cut, {}) := by decide

/-- What becomes of a character: a comma separates where nothing is open, a backslash in a run is
dropped unless it is escaped, and everything else is kept. -/
theorem fate_next (m : Nesting) (c : Char) :
    (m.next c).1 = if c = ',' ∧ m = {} then .cut
      else if c = '\\' ∧ m.escaped = false ∧ m.closer.isSome = true then .drop else .keep := by
  obtain ⟨closer, escaped, squares, braces⟩ := m
  cases escaped with
  | true => simp [next]
  | false =>
    cases closer with
    | some k => by_cases hc : c = '\\' <;> simp [next, hc]
    | none =>
      by_cases hc : c = ','
      · by_cases hsquares : squares = 0 <;> by_cases hbraces : braces = 0 <;>
          simp [next, runCloser?, hc, hsquares, hbraces]
      · -- Every other character is kept, whether it opens, closes or counts.
        simp only [next, hc, decide_false, Bool.false_and, Bool.false_eq_true, if_false,
          false_and, Option.isSome_none, and_false]
        repeat' split
        all_goals rfl

/-- What is neither a backslash nor a separating comma belongs to the piece that is being read. -/
theorem next_eq_keep (hbackslash : c ≠ '\\') (hcomma : c = ',' → m ≠ {}) :
    (m.next c).1 = .keep := by
  rw [fate_next, if_neg (fun h => hcomma h.1 h.2), if_neg (fun h => hbackslash h.1)]

end Nesting

/-! ## The scan -/

/-- The state of a scan. -/
structure Scan where
  /-- What is open. -/
  nesting : Nesting := {}
  /-- The pieces that are complete. -/
  done : List Text := []
  /-- The piece that is being read. -/
  current : Text := []

namespace Scan

/-- The state after one more character. -/
def feed (s : Scan) (c : Char) : Scan :=
  match (s.nesting.next c).1 with
  | .keep => ⟨(s.nesting.next c).2, s.done, s.current ++ [c]⟩
  | .drop => ⟨(s.nesting.next c).2, s.done, s.current⟩
  | .cut => ⟨(s.nesting.next c).2, s.done ++ [s.current], []⟩

/-- The state after a whole text. -/
def run (s : Scan) (t : Text) : Scan := t.foldl feed s

variable {s : Scan} {c : Char}

theorem run_cons (s : Scan) (c : Char) (t : Text) : s.run (c :: t) = (s.feed c).run t := rfl

/-- A text is scanned part by part. -/
theorem run_append (s : Scan) (t u : Text) : s.run (t ++ u) = (s.run t).run u :=
  List.foldl_append

/-- A character that is kept is added to the argument. -/
theorem feed_of_keep (h : (s.nesting.next c).1 = .keep) :
    s.feed c = ⟨(s.nesting.next c).2, s.done, s.current ++ [c]⟩ := by
  simp only [feed, h]

/-- A separating comma completes the piece, and the scan starts anew. -/
theorem feed_comma_of_initial (h : s.nesting = {}) :
    s.feed ',' = ⟨{}, s.done ++ [s.current], []⟩ := by
  simp only [feed, h, Nesting.next_comma_initial]

/-- What a character does to the nesting does not depend on the arguments so far. -/
theorem nesting_feed (s : Scan) (c : Char) : (s.feed c).nesting = (s.nesting.next c).2 := by
  cases hfate : (s.nesting.next c).1 <;> simp only [feed, hfate]

/-- What is open after a text does not depend on the pieces. -/
theorem nesting_run (s : Scan) (t : Text) : (s.run t).nesting = s.nesting.after t := by
  induction t generalizing s with
  | nil => rfl
  | cons c t ih => rw [run_cons, ih, nesting_feed]; rfl

/-- Earlier pieces stay as they are and make no difference to the scan. -/
theorem feed_append_done (m : Nesting) (ps qs : List Text) (t : Text) (c : Char) :
    feed ⟨m, ps ++ qs, t⟩ c =
      ⟨(feed ⟨m, qs, t⟩ c).nesting, ps ++ (feed ⟨m, qs, t⟩ c).done,
        (feed ⟨m, qs, t⟩ c).current⟩ := by
  cases hfate : (m.next c).1 <;> simp [feed, hfate]

/-- The arguments so far are carried along. -/
theorem run_append_done (m : Nesting) (ps qs : List Text) (t u : Text) :
    run ⟨m, ps ++ qs, t⟩ u =
      ⟨(run ⟨m, qs, t⟩ u).nesting, ps ++ (run ⟨m, qs, t⟩ u).done, (run ⟨m, qs, t⟩ u).current⟩ := by
  induction u generalizing m qs t with
  | nil => rfl
  | cons c u ih => rw [run_cons, run_cons, feed_append_done, ih]

/-- The pieces of a scan are those that the rest of the text gives, behind what was read before. -/
theorem pieces_run (s : Scan) (t : Text) :
    (s.run t).done ++ [(s.run t).current] =
      s.done ++ (s.current ++ (pieces s.nesting t).1) :: (pieces s.nesting t).2 := by
  induction t generalizing s with
  | nil => simp [run, pieces]
  | cons c t ih =>
    rw [run_cons, ih, pieces]
    cases hfate : (s.nesting.next c).1 <;> simp [feed, hfate]

end Scan

/-- The scan of a whole parameter list. -/
def scan (t : Text) : Scan := Scan.run {} t

/-- A text is scanned part by part, from the start. -/
theorem scan_append (t u : Text) : scan (t ++ u) = (scan t).run u := Scan.run_append {} t u

/-- The nesting behind a text is that of its characters. -/
theorem nesting_scan (t : Text) : (scan t).nesting = Nesting.after {} t := Scan.nesting_run {} t

/-- The arguments that pieces are: trimmed, without empty ones. -/
def arguments (pieces : List Text) : List Text :=
  (pieces.map trim).filter fun piece => !piece.isEmpty

/-- Arguments are tidied one by one. -/
theorem arguments_append (ps qs : List Text) :
    arguments (ps ++ qs) = arguments ps ++ arguments qs := by
  simp [arguments]

/-- A text is split into the arguments that the scan has done and the one it is in. -/
theorem split_eq_arguments (raw : Text) :
    split raw = arguments ((scan raw).done ++ [(scan raw).current]) := by
  rw [scan, Scan.pieces_run]
  rfl

/-! ## Commas -/

section Comma

variable {a : Text}

/-- The scan behind a separating comma. -/
theorem scan_append_comma (h : (Nesting.after {} a).isNeutral = true) (b : Text) :
    scan (a ++ ',' :: b) =
      ⟨(scan b).nesting, (scan a).done ++ [(scan a).current] ++ (scan b).done,
        (scan b).current⟩ := by
  have hinitial : (scan a).nesting = {} := (nesting_scan a).trans (Nesting.isNeutral_iff.mp h)
  rw [scan_append, Scan.run_cons, Scan.feed_comma_of_initial hinitial]
  have hrun := Scan.run_append_done {} ((scan a).done ++ [(scan a).current]) [] [] b
  rwa [List.append_nil] at hrun

/-- **A separating comma splits.**  The arguments on its two sides do not see each other. -/
theorem split_append_of_isNeutral (h : (Nesting.after {} a).isNeutral = true) (b : Text) :
    split (a ++ ',' :: b) = split a ++ split b := by
  rw [split_eq_arguments, split_eq_arguments, split_eq_arguments, scan_append_comma h,
    List.append_assoc, arguments_append]

/-- Where something is open, a comma is a character like any other. -/
theorem scan_append_kept_comma (h : (Nesting.after {} a).isNeutral = false) :
    (scan (a ++ [','])).done = (scan a).done ∧
      (scan (a ++ [','])).current = (scan a).current ++ [','] := by
  have hopen : (scan a).nesting ≠ {} := by
    rw [nesting_scan]
    intro hinitial
    rw [Nesting.isNeutral_iff.mpr hinitial] at h
    cases h
  have hkeep := Nesting.next_eq_keep (by decide : ',' ≠ '\\') fun _ => hopen
  have hscan : scan (a ++ [',']) = (scan a).feed ',' := scan_append a [',']
  rw [hscan, Scan.feed_of_keep hkeep]
  exact ⟨rfl, rfl⟩

end Comma

/-- **Splitting is decided comma by comma.**  Where no run, no escape and no bracket is open, the
arguments before and after a comma are those of the two sides; anywhere else the comma completes no
piece and is read as part of the piece at hand. -/
theorem split_append_comma (a b : Text) :
    ((Nesting.after {} a).isNeutral = true → split (a ++ ',' :: b) = split a ++ split b) ∧
      ((Nesting.after {} a).isNeutral = false →
        (scan (a ++ [','])).done = (scan a).done ∧
          (scan (a ++ [','])).current = (scan a).current ++ [',']) :=
  ⟨fun h => split_append_of_isNeutral h b, scan_append_kept_comma⟩

/-- A default that is a call. -/
def callDefault : Text := "a = f(1, 2)"

/-- A string that ends in an escaping backslash. -/
def escapingDefault : Text := "a, b = \"x\\"

/-- Behind the call a comma separates, and behind the backslash it is part of the string. -/
theorem split_append_comma_defaults :
    (Nesting.after {} callDefault).isNeutral = true ∧
      split (callDefault ++ ',' :: " b") = split callDefault ++ split " b" ∧
      (Nesting.after {} escapingDefault).isNeutral = false ∧
      (scan (escapingDefault ++ [','])).done = (scan escapingDefault).done ∧
      (scan (escapingDefault ++ [','])).current = (scan escapingDefault).current ++ [','] := by
  have hneutral : (Nesting.after {} callDefault).isNeutral = true := by decide +kernel
  have hopen : (Nesting.after {} escapingDefault).isNeutral = false := by decide +kernel
  exact ⟨hneutral, (split_append_comma callDefault " b").1 hneutral, hopen,
    (split_append_comma escapingDefault []).2 hopen⟩

end DocComment.ArgumentList
