import DocComment.Field
import DocComment.Proofs.Text.Words

/-!
# Snippets as the host reads them

A host editor reads a snippet from left to right.  A backslash takes the meaning from the
character after it, `${n:default}` up to the first brace that is not escaped is a tab stop, and
everything else is literal.

The key fact is `read_snippet_append`: the snippet form of a field is read as the field, whatever
follows it.  The reader never carries anything over the end of a field, so the tab stops of a
text made of fields and harmless glue are the tab stops of its fields in order (`Carries`).
-/

namespace DocComment.Snippet

open Text

/-- What a host reads: a character or a tab stop. -/
inductive Piece where
  | char (c : Char)
  | stop (index : Nat) (default : Text)
  deriving DecidableEq

/-- The number of a tab stop. -/
def Piece.index? : Piece → Option Nat
  | char _ => none
  | stop index _ => some index

/-- The text up to the first brace that is not escaped, with its escapes undone, and what follows
that brace. -/
def untilBrace : Text → Option (Text × Text)
  | [] => none
  | '}' :: rest => some ([], rest)
  | '\\' :: c :: rest =>
    if isSnippetMeta c then (untilBrace rest).map fun (default, tail) => (c :: default, tail)
    else (untilBrace (c :: rest)).map fun (default, tail) => ('\\' :: default, tail)
  | c :: rest => (untilBrace rest).map fun (default, tail) => (c :: default, tail)

/-- The number and the default of a tab stop whose opening brace stands before the text, and what
follows the stop. -/
def stop? (t : Text) : Option (Nat × Text × Text) :=
  let digits := t.takeWhile Char.isDigit
  if digits.isEmpty then none
  else
    (after? [':'] (t.dropWhile Char.isDigit)).bind fun body =>
      (untilBrace body).map fun (default, tail) => (Nat.ofDigitChars 10 digits 0, default, tail)

/-- Reading a default leaves less text. -/
theorem length_of_untilBrace {t default tail : Text} (h : untilBrace t = some (default, tail)) :
    tail.length < t.length := by
  -- Wherever the reader goes on, it only puts a character in front of the default.
  have hmap : ∀ (c : Char) (u default : Text), (∀ d, untilBrace u = some (d, tail) →
      tail.length < u.length) →
      (untilBrace u).map (fun (d, tl) => (c :: d, tl)) = some (default, tail) →
      tail.length < u.length := by
    intro c u default ih hu
    obtain ⟨⟨d, tl⟩, hd, heq⟩ := Option.map_eq_some_iff.mp hu
    obtain ⟨-, rfl⟩ := Prod.mk.inj heq
    exact ih d hd
  fun_induction untilBrace t generalizing default with
  | case1 => cases h
  | case2 rest =>
    obtain ⟨-, rfl⟩ := Prod.mk.inj (Option.some.inj h)
    simp
  | case3 c rest hmeta ih =>
    have := hmap c rest default (fun _ => ih) h
    simp only [List.length_cons]
    omega
  | case4 c rest hmeta ih =>
    have := hmap '\\' (c :: rest) default (fun _ => ih) h
    simp only [List.length_cons] at this ⊢
    omega
  | case5 c rest _ _ ih =>
    have := hmap c rest default (fun _ => ih) h
    simp only [List.length_cons]
    omega

/-- Reading a stop leaves less text. -/
theorem length_of_stop? {t default tail : Text} {index : Nat}
    (h : stop? t = some (index, default, tail)) : tail.length < t.length := by
  unfold stop? at h
  simp only at h
  split at h
  · cases h
  · obtain ⟨body, hbody, h⟩ := Option.bind_eq_some_iff.mp h
    obtain ⟨⟨d, tl⟩, hd, heq⟩ := Option.map_eq_some_iff.mp h
    obtain ⟨-, -, rfl⟩ : _ ∧ _ ∧ tl = tail := by simpa using heq
    have hdrop : body.length + 1 ≤ t.length := by
      have hle := (List.dropWhile_sublist Char.isDigit (l := t)).length_le
      rw [eq_append_of_after? hbody] at hle
      simpa using hle
    have hbrace := length_of_untilBrace hd
    omega

/-- A snippet as the host reads it. -/
def read : Text → List Piece
  | [] => []
  | '\\' :: c :: rest =>
    if isSnippetMeta c then .char c :: read rest else .char '\\' :: read (c :: rest)
  | '$' :: '{' :: rest =>
    match h : stop? rest with
    | some (index, default, tail) =>
      have : tail.length < rest.length := length_of_stop? h
      .stop index default :: read tail
    | none => .char '$' :: read ('{' :: rest)
  | c :: rest => .char c :: read rest
termination_by t => t.length

/-- The numbers of the tab stops of a snippet, in reading order. -/
def indices (t : Text) : List Nat := (read t).filterMap Piece.index?

/-! ## One character or one stop at a time -/

theorem read_nil : read [] = [] := by
  rw [read]

/-- An escaped character is read as itself. -/
theorem read_escaped {c : Char} (hc : isSnippetMeta c = true) (rest : Text) :
    read ('\\' :: c :: rest) = .char c :: read rest := by
  rw [read, if_pos hc]

/-- A character that is neither a backslash nor a dollar sign is literal. -/
theorem read_literal {c : Char} (hslash : c ≠ '\\') (hdollar : c ≠ '$') (rest : Text) :
    read (c :: rest) = .char c :: read rest := by
  rw [read]
  · intro _ _ h
    exact absurd h hslash
  · intro _ h
    exact absurd h hdollar

/-- A dollar sign is literal unless a brace follows it. -/
theorem read_dollar {rest : Text} (h : rest.head? ≠ some '{') :
    read ('$' :: rest) = .char '$' :: read rest := by
  rw [read]
  · simp
  · rintro _ _ rfl
    simp at h

/-- A stop is read with its default. -/
theorem read_stop {t default tail : Text} {index : Nat}
    (h : stop? t = some (index, default, tail)) :
    read ('$' :: '{' :: t) = .stop index default :: read tail := by
  rw [read]
  split
  · next heq =>
    obtain ⟨rfl, rfl, rfl⟩ : _ ∧ _ ∧ _ := by simpa [heq] using h
    rfl
  · next heq => simp [heq] at h

/-! ## Escaped text -/

/-- A reserved token starts with a capital, so no brace follows its dollar sign. -/
theorem head?_of_reservedToken? {t : Text} (h : (reservedToken? t).isSome = true) :
    t.head? = some 'F' ∨ t.head? = some 'W' ∨ t.head? = some 'U' ∨ t.head? = some 'D' := by
  obtain ⟨token, htoken⟩ := Option.isSome_iff_exists.mp h
  have hmem := List.mem_of_find?_eq_some htoken
  have hafter := List.find?_some htoken
  obtain ⟨rest, hrest⟩ : ∃ rest, t = token ++ rest := by
    cases ha : after? token t with
    | none => simp [ha] at hafter
    | some rest => exact ⟨rest, eq_append_of_after? ha⟩
  subst hrest
  simp only [reservedTokens, List.map_cons, List.map_nil, List.mem_cons, List.not_mem_nil,
    or_false] at hmem
  rcases hmem with rfl | rfl | rfl | rfl | rfl <;> simp

/-- Escaping leaves a character without meaning alone. -/
theorem escape_cons_of_not_meta {c : Char} (hc : isSnippetMeta c = false) (t : Text) :
    escape (c :: t) = c :: escape t := by
  have hdollar : c ≠ '$' := by
    rintro rfl
    cases hc
  simp [escape, hc, hdollar]

/-- A reserved token does not make a stop out of what stands before it. -/
theorem head?_escape_of_reservedToken? {t : Text} (h : (reservedToken? t).isSome = true)
    (rest : Text) : (escape t ++ rest).head? ≠ some '{' := by
  cases t with
  | nil =>
    have hhead := head?_of_reservedToken? h
    simp at hhead
  | cons c t =>
    have hhead := head?_of_reservedToken? h
    have hc : c = 'F' ∨ c = 'W' ∨ c = 'U' ∨ c = 'D' := by simpa using hhead
    rcases hc with rfl | rfl | rfl | rfl <;>
      rw [escape_cons_of_not_meta (by decide)] <;> simp

/-- Escaping keeps the dollar sign of a reserved token, puts a backslash before any other character
that means something, and leaves the rest. -/
theorem escape_cons_cases (c : Char) (t : Text) :
    (c = '$' ∧ (reservedToken? t).isSome = true ∧ escape (c :: t) = '$' :: escape t) ∨
      (isSnippetMeta c = true ∧ escape (c :: t) = '\\' :: c :: escape t) ∨
      (isSnippetMeta c = false ∧ escape (c :: t) = c :: escape t) := by
  by_cases hreserved : c = '$' ∧ (reservedToken? t).isSome = true
  · obtain ⟨rfl, htoken⟩ := hreserved
    exact Or.inl ⟨rfl, htoken, by simp [escape, htoken]⟩
  · refine Or.inr ?_
    cases hmeta : isSnippetMeta c with
    | true =>
      refine Or.inl ⟨rfl, ?_⟩
      rw [escape, if_neg (by simpa using hreserved), if_pos hmeta]
    | false => exact Or.inr ⟨rfl, escape_cons_of_not_meta hmeta t⟩

/-- **Escaped text is read as itself.** -/
theorem read_escape_append (t rest : Text) :
    read (escape t ++ rest) = t.map Piece.char ++ read rest := by
  induction t with
  | nil => rfl
  | cons c t ih =>
    rcases escape_cons_cases c t with ⟨rfl, htoken, hescape⟩ | ⟨hmeta, hescape⟩ | ⟨hplain, hescape⟩
    · rw [hescape, List.cons_append, read_dollar (head?_escape_of_reservedToken? htoken rest), ih]
      rfl
    · rw [hescape, List.cons_append, List.cons_append, read_escaped hmeta, ih]
      rfl
    · have hslash : c ≠ '\\' := by rintro rfl; cases hplain
      have hdollar : c ≠ '$' := by rintro rfl; cases hplain
      rw [hescape, List.cons_append, read_literal hslash hdollar, ih]
      rfl

/-- A character with no meaning belongs to the default. -/
theorem untilBrace_literal {c : Char} (hslash : c ≠ '\\') (hbrace : c ≠ '}') (rest : Text) :
    untilBrace (c :: rest) =
      (untilBrace rest).map fun (default, tail) => (c :: default, tail) := by
  rw [untilBrace]
  · intro h
    exact absurd h hbrace
  · intro _ _ h
    exact absurd h hslash

/-- An escaped default ends at its own brace. -/
theorem untilBrace_escape_append (t rest : Text) :
    untilBrace (escape t ++ '}' :: rest) = some (t, rest) := by
  induction t with
  | nil => simp [escape, untilBrace]
  | cons c t ih =>
    rcases escape_cons_cases c t with ⟨rfl, -, hescape⟩ | ⟨hmeta, hescape⟩ | ⟨hplain, hescape⟩
    · rw [hescape, List.cons_append, untilBrace_literal (by decide) (by decide), ih]
      rfl
    · rw [hescape, List.cons_append, List.cons_append, untilBrace, if_pos hmeta, ih]
      rfl
    · have hslash : c ≠ '\\' := by rintro rfl; cases hplain
      have hbrace : c ≠ '}' := by rintro rfl; cases hplain
      rw [hescape, List.cons_append, untilBrace_literal hslash hbrace, ih]
      rfl

/-- A stop in snippet form is read back, whatever follows it. -/
theorem stop?_snippet (index : Nat) (default rest : Text) :
    stop? (ofNat index ++ ':' :: escape default ++ '}' :: rest) = some (index, default, rest) := by
  have hdigits : ∀ c ∈ ofNat index, c.isDigit = true := fun c hc =>
    Nat.isDigit_of_mem_toDigits (by decide) (by decide) hc
  have htake : (ofNat index ++ ':' :: escape default ++ '}' :: rest).takeWhile Char.isDigit =
      ofNat index := by
    rw [List.append_assoc, List.takeWhile_append_of_pos hdigits, List.cons_append,
      List.takeWhile_cons_of_neg (by decide), List.append_nil]
  have hdrop : (ofNat index ++ ':' :: escape default ++ '}' :: rest).dropWhile Char.isDigit =
      [':'] ++ (escape default ++ '}' :: rest) := by
    rw [List.append_assoc, List.dropWhile_append_of_pos hdigits, List.cons_append,
      List.dropWhile_cons_of_neg (by decide)]
    rfl
  unfold stop?
  rw [htake, hdrop, after?_append]
  simp [untilBrace_escape_append, ofNat, Nat.ofDigitChars_ten_toDigits]

/-! ## Fields -/

/-- What a host should read for a segment. -/
def ofSegment : Segment → List Piece
  | .text content => content.map Piece.char
  | .stop index default => [.stop index default]

/-- **A segment is read back**, whatever follows. -/
theorem read_segment_append (s : Segment) (rest : Text) :
    read (s.snippet ++ rest) = ofSegment s ++ read rest := by
  cases s with
  | text content => exact read_escape_append content rest
  | stop index default =>
    have hshape : Segment.snippet (.stop index default) ++ rest =
        '$' :: '{' :: (ofNat index ++ ':' :: escape default ++ '}' :: rest) := by
      simp [Segment.snippet]
    rw [hshape, read_stop (stop?_snippet index default rest)]
    rfl

/-- **A field is read as itself, whatever follows it.** -/
theorem read_snippet_append (f : Field) (rest : Text) :
    read (f.snippet ++ rest) = f.segments.flatMap ofSegment ++ read rest := by
  obtain ⟨segments⟩ := f
  induction segments with
  | nil => rfl
  | cons s segments ih =>
    have hcons : Field.snippet ⟨s :: segments⟩ = s.snippet ++ Field.snippet ⟨segments⟩ := rfl
    rw [hcons, List.append_assoc, read_segment_append, ih, List.flatMap_cons, List.append_assoc]

/-! ## Trailing blanks -/

/-- Taking off a beginning that has no blank does not depend on a blank at the end. -/
theorem after?_concat {start : Text} {b : Char} (hstart : b ∉ start) (t : Text) :
    after? start (t ++ [b]) = (after? start t).map (· ++ [b]) := by
  induction start generalizing t with
  | nil => cases t <;> rfl
  | cons s start ih =>
    obtain ⟨hne, hrest⟩ := not_or.mp (mt List.mem_cons.mpr hstart)
    cases t with
    | nil => simp [after?, Ne.symm hne]
    | cons c t =>
      by_cases hc : s = c
      · simpa [after?, hc] using ih hrest t
      · simp [after?, hc]

/-- A blank behind a text changes nothing about its being reserved. -/
theorem reservedToken?_concat {b : Char} (hb : isBlank b = true) (t : Text) :
    reservedToken? (t ++ [b]) = reservedToken? t := by
  have hupper : (b.isUpper || b == '_') = false := by
    cases h : b.isUpper || b == '_' with
    | false => rfl
    | true =>
      exfalso
      rw [Bool.or_eq_true, beq_iff_eq] at h
      simp only [isBlank, Bool.or_eq_true, Bool.and_eq_true, decide_eq_true_eq, beq_iff_eq] at hb
      rcases h with hupper | rfl
      · obtain ⟨hlow, hhigh⟩ : 65 ≤ b.toNat ∧ b.toNat ≤ 90 := of_decide_eq_true hupper
        omega
      · revert hb
        decide
  rw [reservedToken?, reservedToken?, ← List.head?_filter, ← List.head?_filter]
  congr 1
  apply List.filter_congr
  intro token htoken
  have hmem : b ∉ token := by
    intro hbt
    have hall : ∀ u ∈ reservedTokens, IsWord u := by decide
    rw [(hall token htoken).2 b hbt] at hb
    cases hb
  rw [after?_concat hmem]
  cases after? token t with
  | none => rfl
  | some rest =>
    cases rest with
    | nil => simpa using hupper
    | cons c rest => simp

/-- Escaping does not touch a blank at the end. -/
theorem escape_concat {b : Char} (hb : isBlank b = true) (t : Text) :
    escape (t ++ [b]) = escape t ++ [b] := by
  induction t with
  | nil =>
    have hmeta : isSnippetMeta b = false := by
      cases h : isSnippetMeta b with
      | false => rfl
      | true =>
        simp only [isSnippetMeta, Bool.or_eq_true, beq_iff_eq] at h
        rcases h with (rfl | rfl) | rfl <;> revert hb <;> decide
    exact escape_cons_of_not_meta hmeta []
  | cons c t ih =>
    rw [List.cons_append, escape, reservedToken?_concat hb, ih, escape]
    split
    · rfl
    · split <;> rfl

/-- Blanks behind a text need no escapes, and change none. -/
theorem escape_append_of_blanks {s : Text} (hs : Blanks s) (t : Text) :
    escape (t ++ s) = escape t ++ s := by
  induction s generalizing t with
  | nil => simp
  | cons b s ih =>
    obtain ⟨hb, hs⟩ := blanks_cons.mp hs
    rw [List.append_cons, ih hs, escape_concat hb, ← List.append_cons]

/-- Escaping keeps the last character. -/
theorem getLast?_escape (t : Text) : (escape t).getLast? = t.getLast? := by
  induction t with
  | nil => rfl
  | cons c t ih =>
    rw [escape]
    have hcons : (c :: escape t).getLast? = (c :: t).getLast? := by
      rw [List.getLast?_cons, List.getLast?_cons, ih]
    split
    · exact hcons
    · split
      · rw [List.getLast?_cons_cons]
        exact hcons
      · exact hcons

/-- Trimming and escaping commute. -/
theorem trimEnd_escape (t : Text) : trimEnd (escape t) = escape (trimEnd t) := by
  obtain ⟨s, hs, ht⟩ := exists_trimEnd_append_blanks t
  have htight : EndsTight (escape (trimEnd t)) := by
    intro c hc
    rw [getLast?_escape] at hc
    exact endsTight_trimEnd t c hc
  calc trimEnd (escape t)
      = trimEnd (escape (trimEnd t) ++ s) := by rw [← escape_append_of_blanks hs, ← ht]
    _ = trimEnd (escape (trimEnd t)) := trimEnd_append_of_blanks hs _
    _ = escape (trimEnd t) := trimEnd_of_endsTight htight

end DocComment.Snippet
