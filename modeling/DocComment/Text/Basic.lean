import DocComment.Text.Blank

/-!
# Text

Text is a list of characters, so that every function on it is a plain recursion.  This module has
the operations the rest of the library is written in: trimming, lines, words, and taking a known
beginning or ending off.
-/

namespace DocComment

/-- Text as its characters, in order. -/
abbrev Text := List Char

/-- A literal stands for its characters. -/
instance : Coe String Text := ⟨String.toList⟩

namespace Text

/-- The text without its leading blanks. -/
def trimStart (t : Text) : Text := t.dropWhile isBlank

/-- The text without its trailing blanks. -/
def trimEnd (t : Text) : Text := (t.reverse.dropWhile isBlank).reverse

/-- The text without blanks at either end. -/
def trim (t : Text) : Text := trimEnd (trimStart t)

/-- The text without any blank at all. -/
def compact (t : Text) : Text := t.filter fun c => !isBlank c

/-- The lines of a text.  A line ends at a line feed, which may have a carriage return before it;
neither belongs to the line, and a text that ends in a line feed has no further empty line. -/
def lines : Text → List Text
  | [] => []
  | '\n' :: rest => [] :: lines rest
  | '\r' :: '\n' :: rest => [] :: lines rest
  | c :: rest =>
    match lines rest with
    | [] => [[c]]
    | line :: more => (c :: line) :: more

/-- The lines joined by line feeds, with none at the end. -/
def unlines (ls : List Text) : Text := List.intercalate ['\n'] ls

/-- The pieces between the characters that satisfy `p`; there is always at least one piece. -/
def splitWhere (p : Char → Bool) : Text → List Text
  | [] => [[]]
  | c :: t => if p c then [] :: splitWhere p t else (splitWhere p t).modifyHead (c :: ·)

/-- The pieces between the occurrences of a separator. -/
def splitOn (sep : Char) (t : Text) : List Text := splitWhere (· == sep) t

/-- The maximal runs of characters that are not blank. -/
def words (t : Text) : List Text := (splitWhere isBlank t).filter fun w => !w.isEmpty

/-- The words joined by single spaces. -/
def unwords (ws : List Text) : Text := List.intercalate [' '] ws

/-- What follows `start` in a text that begins with it. -/
def after? : (start : Text) → Text → Option Text
  | [], t => some t
  | _ :: _, [] => none
  | s :: start, c :: t => if s = c then after? start t else none

/-- What stands before `ending` in a text that ends with it. -/
def before? (ending t : Text) : Option Text :=
  (after? ending.reverse t.reverse).map List.reverse

/-- Whether `part` occurs somewhere in the text. -/
def occurs (part : Text) : Text → Bool
  | [] => part.isEmpty
  | c :: t => part.isPrefixOf (c :: t) || occurs part t

/-- The text before and after the first occurrence of a character. -/
def splitFirst? (sep : Char) : Text → Option (Text × Text)
  | [] => none
  | c :: t =>
    if c = sep then some ([], t)
    else (splitFirst? sep t).map fun (left, right) => (c :: left, right)

/-- The text before and after the last character that satisfies `p`. -/
def splitLast? (p : Char → Bool) : Text → Option (Text × Text)
  | [] => none
  | c :: t =>
    match splitLast? p t with
    | some (left, right) => some (c :: left, right)
    | none => if p c then some ([], t) else none

/-- The text itself unless it is empty. -/
def nonempty? (t : Text) : Option Text := if t.isEmpty then none else some t

/-- The number of octets the text takes in UTF-8. -/
def octets (t : Text) : Nat := t.foldr (fun c n => c.utf8Size + n) 0

/-- A number in decimal digits. -/
def ofNat (n : Nat) : Text := Nat.toDigits 10 n

/-- A number in decimal digits, with a minus sign before a negative one. -/
def ofInt : Int → Text
  | .ofNat n => ofNat n
  | .negSucc n => '-' :: ofNat (n + 1)

/-- Each ASCII capital replaced by its small letter. -/
def asciiLower (t : Text) : Text := t.map Char.toLower

/-- Taking a beginning off undoes putting it there. -/
@[simp] theorem after?_append (start t : Text) : after? start (start ++ t) = some t := by
  induction start with
  | nil => cases t <;> rfl
  | cons s start ih => simp [after?, ih]

/-- Only a text that begins with `start` has something after it. -/
theorem eq_append_of_after? {start t rest : Text} (h : after? start t = some rest) :
    t = start ++ rest := by
  induction start generalizing t with
  | nil => cases t <;> simp_all [after?]
  | cons s start ih =>
    cases t with
    | nil => simp [after?] at h
    | cons c t =>
      by_cases hc : s = c
      · simp only [after?, hc, ↓reduceIte] at h
        simp [hc, ih h]
      · simp [after?, hc] at h

/-- What follows `start` is all that a text has besides it. -/
theorem after?_eq_some_iff {start t rest : Text} :
    after? start t = some rest ↔ t = start ++ rest :=
  ⟨eq_append_of_after?, fun h => h ▸ after?_append start rest⟩

/-- Deleting blanks goes piece by piece. -/
@[simp] theorem compact_append (s t : Text) : compact (s ++ t) = compact s ++ compact t := by
  simp [compact]

/-- The octets of two texts add up. -/
@[simp] theorem octets_append (s t : Text) : octets (s ++ t) = octets s + octets t := by
  unfold octets
  induction s with
  | nil => simp
  | cons c s ih => rw [List.cons_append, List.foldr_cons, List.foldr_cons, ih, Nat.add_assoc]

/-- Splitting gives at least one piece. -/
theorem splitWhere_ne_nil (p : Char → Bool) (t : Text) : splitWhere p t ≠ [] := by
  induction t with
  | nil => simp [splitWhere]
  | cons c t ih => by_cases h : p c <;> simp [splitWhere, h, ih]

/-- A separator cuts a text in two, and each side is split on its own. -/
theorem splitWhere_append_cons {p : Char → Bool} {c : Char} (hc : p c = true) (s t : Text) :
    splitWhere p (s ++ c :: t) = splitWhere p s ++ splitWhere p t := by
  induction s with
  | nil => simp [splitWhere, hc]
  | cons d s ih =>
    by_cases hd : p d
    · simp [splitWhere, hd, ih]
    · obtain ⟨piece, more, hs⟩ := List.exists_cons_of_ne_nil (splitWhere_ne_nil p s)
      simp [splitWhere, hd, ih, hs]

/-- No piece holds a separator. -/
theorem not_of_mem_splitWhere {p : Char → Bool} {t piece : Text} (h : piece ∈ splitWhere p t) :
    ∀ c ∈ piece, p c = false := by
  induction t generalizing piece with
  | nil => simp_all [splitWhere]
  | cons d t ih =>
    rw [splitWhere] at h
    split at h
    · rcases List.mem_cons.1 h with rfl | h
      · simp
      · exact ih h
    · next hd =>
      obtain ⟨first, more, ht⟩ := List.exists_cons_of_ne_nil (splitWhere_ne_nil p t)
      rw [ht] at h ih
      rcases List.mem_cons.1 h with rfl | h
      · exact List.forall_mem_cons.2 ⟨by simpa using hd, ih List.mem_cons_self⟩
      · exact ih (List.mem_cons_of_mem _ h)

/-- The pieces hold every character that is no separator, in order. -/
theorem flatten_splitWhere (p : Char → Bool) (t : Text) :
    (splitWhere p t).flatten = t.filter fun c => !p c := by
  induction t with
  | nil => rfl
  | cons c t ih =>
    obtain ⟨first, more, ht⟩ := List.exists_cons_of_ne_nil (splitWhere_ne_nil p t)
    rw [ht] at ih
    by_cases hc : p c <;> simp [splitWhere, hc, ht, ← ih]

/-- **Words split at a blank.** -/
theorem words_append_cons {c : Char} (hc : isBlank c = true) (s t : Text) :
    words (s ++ c :: t) = words s ++ words t := by
  simp [words, splitWhere_append_cons hc]

/-- A word is not empty and holds no blank. -/
theorem mem_words {t w : Text} (h : w ∈ words t) : w ≠ [] ∧ ∀ c ∈ w, isBlank c = false := by
  obtain ⟨hw, hne⟩ := List.mem_filter.1 h
  exact ⟨by simpa using hne, not_of_mem_splitWhere hw⟩

/-- The words hold every character that is not blank, in order. -/
theorem flatten_words (t : Text) : (words t).flatten = compact t := by
  rw [words, compact, ← flatten_splitWhere]
  induction splitWhere isBlank t with
  | nil => rfl
  | cons w ws ih => cases w <;> simp_all

end Text

end DocComment
