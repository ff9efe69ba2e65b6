import DocComment.Definition
import DocComment.Proofs.Text.Trim
import Mathlib.Data.List.Infix

/-!
# What a definition is made of

Reading stops after a line for one of three reasons, and each of them is one of the lines read so
far (`endsReading`).  The lines up to the first such one are the **portion** that is read; the scan
counts down and up along it what the three reasons ask for (`scanned_map_strip`).  Joining puts a
space just where two words would become one, so the stripped lines of the portion keep their
characters and their words (`ofLines_conserves_portion`).
-/

namespace DocComment.Definition

open Text

/-! ## The shortest beginning -/

section UpTo

variable {α : Type} {P : List α → Bool}

/-- The shortest beginning of a list that satisfies `P`, or all of it. -/
def upTo (P : List α → Bool) (l : List α) : List α := (l.inits.find? P).getD l

@[simp] theorem upTo_nil : upTo P [] = [] := by
  cases h : P [] with
  | true => simp [upTo, h]
  | false => simp [upTo, h]

/-- A list that stops at the start is empty. -/
theorem upTo_of_nil (h : P [] = true) (l : List α) : upTo P l = [] := by
  cases l with
  | nil => exact upTo_nil
  | cons a l => rw [upTo, List.inits_cons, List.find?_cons_of_pos h, Option.getD_some]

/-- A list that does not stop at the start has its first item. -/
theorem upTo_cons (h : P [] = false) (a : α) (l : List α) :
    upTo P (a :: l) = a :: upTo (fun u => P (a :: u)) l := by
  rw [upTo, upTo, List.inits_cons, List.find?_cons_of_neg (by simp [h]), List.find?_map]
  change Option.getD (Option.map _ (l.inits.find? fun u => P (a :: u))) _ = _
  cases l.inits.find? fun u => P (a :: u) <;> rfl

theorem upTo_upTo (l : List α) : upTo P (upTo P l) = upTo P l := by
  induction l generalizing P with
  | nil => rw [upTo_nil, upTo_nil]
  | cons a l ih =>
    cases h : P [] with
    | true => rw [upTo_of_nil h (a :: l), upTo_nil]
    | false => rw [upTo_cons h, upTo_cons h, ih]

end UpTo

/-! ## Where reading stops -/

/-- The stripped lines with something on them. -/
def filled (lines : List Text) : List Text := (lines.map strip).filter fun line => !line.isEmpty

/-- Opening minus closing parentheses of the stripped lines. -/
def depth (lines : List Text) : Int := balance (lines.flatMap strip)

/-- Whether reading stops after the last of the lines: it ends a statement, it is the last line with
something on it that may be read, or more parentheses have been closed than opened. -/
def endsReading (lines : List Text) : Bool :=
  match lines.getLast? with
  | none => false
  | some line =>
    (strip line).getLast? == some ';' ||
      (!(strip line).isEmpty && (filled lines).length == maxLines) || depth lines < 0

/-- The lines up to the first one that reading stops after, or all of them. -/
def portion (lines : List Text) : List Text := upTo endsReading lines

section Scan

variable {before : List Text} {line : Text}

@[simp] theorem filled_nil : filled [] = [] := rfl

/-- The lines that are not empty are gathered part by part. -/
@[simp] theorem filled_append (before after : List Text) :
    filled (before ++ after) = filled before ++ filled after := by
  simp [filled]

/-- Brackets are counted part by part. -/
theorem balance_append (s t : Text) : balance (s ++ t) = balance s + balance t := by
  simp only [balance, List.count_append]
  omega

/-- A line adds its own brackets to the depth. -/
theorem depth_concat (before : List Text) (line : Text) :
    depth (before ++ [line]) = depth before + balance (strip line) := by
  rw [depth, List.flatMap_append, List.flatMap_singleton, balance_append, depth]

/-- A line that is stripped to nothing adds none. -/
theorem filled_singleton_of_empty (h : strip line = []) : filled [line] = [] := by
  simp [filled, h]

theorem filled_singleton (h : strip line ≠ []) : filled [line] = [strip line] := by
  simp [filled, h]

theorem filled_cons (line : Text) (lines : List Text) :
    filled (line :: lines) = filled [line] ++ filled lines := filled_append [line] lines

/-- A line that is stripped to nothing ends the reading only by its depth. -/
theorem endsReading_concat_of_empty (h : strip line = []) :
    endsReading (before ++ [line]) = decide (depth (before ++ [line]) < 0) := by
  simp [endsReading, h]

/-- Any other line ends the reading by its semicolon, by the number of lines or by its depth. -/
theorem endsReading_concat (h : strip line ≠ []) :
    endsReading (before ++ [line]) =
      ((strip line).getLast? == some ';' || (filled before).length + 1 == maxLines ||
        decide (depth (before ++ [line]) < 0)) := by
  have hfilled : (strip line).isEmpty = false := by simpa using h
  simp [endsReading, filled_singleton h, hfilled]

/-- Nothing is scanned behind an empty line once too many parentheses are closed. -/
theorem scanned_nil_cons (left : Nat) (d : Int) (rest : List Text) :
    scanned left d ([] :: rest) = if d < 0 then [] else scanned left d rest := by
  have hbalance : d + balance [] = d := Int.add_zero d
  rw [scanned, hbalance]
  rfl

/-- A line with something on it is scanned, and the lines after it if none of the reasons holds. -/
theorem scanned_cons {line : Text} (h : line ≠ []) (left : Nat) (d : Int) (rest : List Text) :
    scanned left d (line :: rest) =
      line :: if line.getLast? == some ';' || left ≤ 1 || d + balance line < 0 then []
        else scanned (left - 1) (d + balance line) rest := by
  rw [scanned]
  simp only [List.isEmpty_iff, h, if_false]
  split
  · rfl
  · rfl

/-- **One line of the scan.**  What it counts is a matter of the lines before, and it goes on unless
reading stops after the line. -/
theorem scanned_step (hfew : (filled before).length < maxLines) (line : Text) (rest : List Text) :
    scanned (maxLines - (filled before).length) (depth before) (strip line :: rest) =
      filled [line] ++
        if endsReading (before ++ [line]) then []
        else scanned (maxLines - (filled (before ++ [line])).length) (depth (before ++ [line]))
          rest := by
  by_cases hline : strip line = []
  · have hdepth : depth (before ++ [line]) = depth before := by
      rw [depth_concat, hline]
      exact Int.add_zero _
    rw [endsReading_concat_of_empty hline, filled_append, filled_singleton_of_empty hline,
      List.append_nil, List.nil_append, hdepth, hline, scanned_nil_cons]
    simp only [decide_eq_true_eq]
  · have hlast : decide (maxLines - (filled before).length ≤ 1) =
        ((filled before).length + 1 == maxLines) := by
      rw [Bool.eq_iff_iff, decide_eq_true_eq, beq_iff_eq]
      omega
    rw [endsReading_concat hline, filled_append, filled_singleton hline, List.length_append,
      List.length_singleton, Nat.sub_add_eq, List.singleton_append, scanned_cons hline, hlast,
      ← depth_concat]

/-- Where reading goes on, another line may be read. -/
theorem length_filled_lt (hfew : (filled before).length < maxLines)
    (hends : endsReading (before ++ [line]) = false) :
    (filled (before ++ [line])).length < maxLines := by
  rw [filled_append, List.length_append]
  by_cases hline : strip line = []
  · rwa [filled_singleton_of_empty hline]
  · rw [endsReading_concat hline, Bool.or_eq_false_iff, Bool.or_eq_false_iff] at hends
    have hne := beq_eq_false_iff_ne.mp hends.1.2
    rw [filled_singleton hline, List.length_singleton]
    omega

/-- **The scan reads a portion.**  It knows of the lines before how many more may be read and how
many parentheses are open. -/
theorem scanned_map_strip (hends : endsReading before = false)
    (hfew : (filled before).length < maxLines) (rest : List Text) :
    scanned (maxLines - (filled before).length) (depth before) (rest.map strip) =
      filled (upTo (fun u => endsReading (before ++ u)) rest) := by
  induction rest generalizing before with
  | nil =>
    rw [upTo_nil, filled_nil]
    rfl
  | cons line rest ih =>
    have hnil : endsReading (before ++ []) = false := by rwa [List.append_nil]
    have hmore : (fun u => endsReading (before ++ line :: u)) =
        fun u => endsReading (before ++ [line] ++ u) := by
      funext u
      rw [List.append_assoc, List.singleton_append]
    rw [upTo_cons hnil, hmore, filled_cons, List.map_cons, scanned_step hfew]
    cases hnext : endsReading (before ++ [line]) with
    | true =>
      rw [if_pos rfl, upTo_of_nil (by rwa [List.append_nil]), filled_nil]
    | false => rw [if_neg Bool.false_ne_true, ih hnext (length_filled_lt hfew hnext)]

/-- **The loop over the lines gathers the portion that is read.** -/
theorem scanned_eq_filled (lines : List Text) :
    scanned maxLines 0 (lines.map strip) = filled (portion lines) := by
  have hends : endsReading [] = false := rfl
  exact scanned_map_strip hends (by decide) lines

end Scan

/-! ## Joining -/

/-- The maximal runs of characters that may stand in an identifier. -/
def identifiers (t : Text) : List Text :=
  (splitWhere (fun c => !isIdentChar c) t).filter fun word => !word.isEmpty

section Join

variable {c : Char} {left right : Text}

@[simp] theorem identifiers_nil : identifiers [] = [] := rfl

/-- **Identifiers split at every other character.** -/
theorem identifiers_append_cons (hc : isIdentChar c = false) (s t : Text) :
    identifiers (s ++ c :: t) = identifiers s ++ identifiers t := by
  rw [identifiers, splitWhere_append_cons (by simp [hc]), List.filter_append]
  rfl

/-- A character that no identifier has adds none. -/
theorem identifiers_cons (hc : isIdentChar c = false) (t : Text) :
    identifiers (c :: t) = identifiers t :=
  identifiers_append_cons hc [] t

/-- A text that does not end in an identifier has its own ones, whatever follows. -/
theorem identifiers_append_of_getLast? (h : left.getLast?.any isIdentChar = false) (right : Text) :
    identifiers (left ++ right) = identifiers left ++ identifiers right := by
  rcases List.eq_nil_or_concat' left with rfl | ⟨s, c, rfl⟩
  · rfl
  · have hc : isIdentChar c = false := by simpa using h
    rw [List.append_assoc, List.singleton_append, identifiers_append_cons hc,
      identifiers_append_cons hc, identifiers_nil, List.append_nil]

/-- A text that does not start with an identifier has its own ones, whatever stands before. -/
theorem identifiers_append_of_head? (h : right.head?.any isIdentChar = false) (left : Text) :
    identifiers (left ++ right) = identifiers left ++ identifiers right := by
  cases right with
  | nil => simp
  | cons c right =>
    have hc : isIdentChar c = false := by simpa using h
    rw [identifiers_append_cons hc, identifiers_cons hc]

/-- Two lines are joined without fusing their words. -/
theorem identifiers_join (left right : Text) :
    identifiers (join left right) = identifiers left ++ identifiers right := by
  have hspace : isIdentChar ' ' = false := by decide
  rw [join]
  split
  · exact identifiers_append_cons hspace left right
  · next h =>
    rw [Bool.and_eq_true, not_and_or, Bool.not_eq_true, Bool.not_eq_true] at h
    rcases h with h | h
    · exact identifiers_append_of_getLast? h right
    · exact identifiers_append_of_head? h left

/-- Two lines are joined without losing a character. -/
theorem compact_join (left right : Text) :
    compact (join left right) = compact left ++ compact right := by
  have hspace : compact (' ' :: right) = compact right := rfl
  rw [join]
  split
  · rw [compact_append, hspace]
  · rw [compact_append]

/-- What a join keeps of two lines, joining all lines keeps of each. -/
theorem foldl_join {β : Type} {f : Text → List β}
    (hf : ∀ left right, f (join left right) = f left ++ f right) (lines : List Text) (left : Text) :
    f (lines.foldl join left) = f left ++ lines.flatMap f := by
  induction lines generalizing left with
  | nil => simp
  | cons line lines ih => rw [List.foldl_cons, ih, hf, List.flatMap_cons, List.append_assoc]

end Join

section Portion

variable {β : Type} {f : Text → List β}

/-- What an empty line has nothing of, the other lines have all of. -/
theorem flatMap_filled (hnil : f [] = []) (lines : List Text) :
    (filled lines).flatMap f = lines.flatMap fun line => f (strip line) := by
  induction lines with
  | nil => simp
  | cons line lines ih =>
    rw [filled_cons, List.flatMap_append, ih, List.flatMap_cons]
    by_cases hline : strip line = []
    · rw [filled_singleton_of_empty hline, hline, hnil]
      rfl
    · rw [filled_singleton hline, List.flatMap_singleton]

/-- What a join keeps of two lines, a definition has of each line that is read. -/
theorem map_ofLines (hnil : f [] = [])
    (hf : ∀ left right, f (join left right) = f left ++ f right) (lines : List Text) :
    f (ofLines lines) = (portion lines).flatMap fun line => f (strip line) := by
  rw [ofLines, scanned_eq_filled, foldl_join hf, hnil, List.nil_append, flatMap_filled hnil]

end Portion

/-- **A definition is made of its portion, character by character and word by word.**  It does not
depend on the lines after the portion, and of each line of the portion it has, in order, all that is
left without comments and string contents. -/
theorem ofLines_conserves_portion (lines : List Text) :
    ofLines (portion lines) = ofLines lines ∧
      compact (ofLines lines) = (portion lines).flatMap (fun line => compact (strip line)) ∧
      identifiers (ofLines lines) =
        (portion lines).flatMap fun line => identifiers (strip line) := by
  refine ⟨?_, map_ofLines rfl compact_join lines, map_ofLines rfl identifiers_join lines⟩
  rw [ofLines, ofLines, scanned_eq_filled, scanned_eq_filled, portion, portion, upTo_upTo]

/-- The fourth line ends a statement, so the fifth is not read. -/
example :
    portion ["int add(", "  int a, // first", "  int b)", "  = 0;", "int c;"] =
        ["int add(", "  int a, // first", "  int b)", "  = 0;"] ∧
      ofLines ["int add(", "  int a, // first", "  int b)", "  = 0;", "int c;"] =
        "int add(int a,int b)= 0;".toList := by
  decide +kernel

end DocComment.Definition
