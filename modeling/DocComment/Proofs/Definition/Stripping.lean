import DocComment.Proofs.Definition
import DocComment.Proofs.Pattern.Preferred
import DocComment.Proofs.Pattern.Replacing
import DocComment.Proofs.Text.Occurrence

/-!
# The steps of stripping

A line is stripped in four steps, and this file says what each of them does to any line at all.
The rest of the line goes from the first `//` on (`cutLine_append`); everything goes from the first
`/*` to the last `*/` behind it, or nothing if there are no two such places (`exists_dropBlock_eq`,
`dropBlock_of_forall`); and the content of a literal goes, first between single quotes and then
between double quotes (`emptyLiterals_literal`).  No step knows about the others, so the first two
do not see whether a place lies in a literal.  No step adds a quote, so those that are left tell
whether one was lost (`quotes_strip_le`).
-/

namespace DocComment.Definition

open Pattern Text

/-- What a comment to the end of the line starts with. -/
def slashes : Text := "//"

/-- What a comment inside a line starts with. -/
def opener : Text := "/*"

/-- What a comment inside a line ends in. -/
def closer : Text := "*/"

theorem slashes_eq : slashes = ['/', '/'] := by decide

theorem opener_eq : opener = ['/', '*'] := by decide

theorem closer_eq : closer = ['*', '/'] := by decide

/-- The line up to its first two slashes. -/
def cutLine (t : Text) : Text := lineComment.replaceFirst [] t

/-- The line without what lies between a comment opener and a closer. -/
def dropBlock (t : Text) : Text := blockComment.replaceAll (fun _ => []) t

/-- The line with nothing between two quotes of one kind. -/
def emptyLiterals (quote : Char) (t : Text) : Text :=
  (quoted quote).replaceAll (fun _ => [quote, quote]) t

/-- The steps that are taken for each line, one after the other. -/
theorem strip_eq (t : Text) :
    strip t = trim (emptyLiterals '"' (emptyLiterals '\'' (dropBlock (cutLine t)))) :=
  rfl

/-- One line is a definition of its own. -/
theorem ofLines_singleton (t : Text) : ofLines [t] = strip t := by
  rw [ofLines, List.map_singleton]
  by_cases h : strip t = []
  · rw [h, scanned_nil_cons]
    simp only [scanned, ite_self, List.foldl_nil]
  · rw [scanned_cons h]
    simp only [scanned, ite_self, List.foldl_cons, List.foldl_nil]
    simp [join]

section Lines

variable {a b c m t : Text}

theorem bne_newline_of_oneLine (ht : OneLine t) : ∀ c ∈ t, (c != '\n') = true :=
  fun _ hc => bne_iff_ne.mpr fun h => ht (h ▸ hc)

/-! ## Comments to the end of the line -/

/-- Two slashes match to the end of the line. -/
theorem exists_at?_lineComment (hb : OneLine b) :
    ∃ later, lineComment.at? none (slashes ++ b) = some later ∧ later.rest = [] := by
  rw [← List.append_nil b]
  apply exists_at?_lit_star (bne_newline_of_oneLine hb)
  intro n s _ hs
  refine ⟨s, ?_, hs⟩
  cases n with
  | zero => simp [eager, run, hs]
  | succ n => simp [eager, run, Cursor.step?, hs]

/-- **The line is cut at the first two slashes.** -/
theorem cutLine_append (ha : Free slashes (a ++ slashes.dropLast)) (hb : OneLine b) :
    cutLine (a ++ (slashes ++ b)) = a := by
  obtain ⟨later, hat, hrest⟩ := exists_at?_lineComment hb
  obtain ⟨m, hfind, hbefore, hafter⟩ := exists_find_of_at? hat
  have hpass : ∀ u, u ≠ [] → u <:+ a → lineComment.at? none (u ++ (slashes ++ b)) = none :=
    fun u hne hu => at?_lit_eq_none (ha.not_isPrefix hne hu b)
  rw [cutLine, replaceFirst, find_append_of_at? rfl hpass, hfind]
  simp only [Option.map_some, hbefore, hafter, hrest, List.append_nil]

/-- Without two slashes nothing is cut off. -/
theorem cutLine_of_free (ht : Free slashes t) : cutLine t = t := by
  have hnone : lineComment.find t = none := find_eq_none_of_forall_at? rfl fun u hu =>
    at?_lit_eq_none fun hstarts => ht (hstarts.isInfix.trans hu.isInfix)
  rw [cutLine, replaceFirst, hnone]

/-- The line is cut before any two slashes. -/
theorem cutLine_isPrefix (hb : OneLine (a ++ slashes ++ b)) :
    cutLine (a ++ slashes ++ b) <+: a := by
  obtain ⟨u, v, heq, hu, hfree⟩ := exists_first (w := slashes) (by decide) a b
  have hv : OneLine v := fun h => hb (heq ▸ List.mem_append_right _ h)
  rw [heq, List.append_assoc, cutLine_append hfree hv]
  exact hu

/-! ## Comments inside the line -/

/-- A block comment matches up to the last closer of the line. -/
theorem exists_at?_blockComment (hm : OneLine m) (hc : Free closer (closer.tail ++ c)) :
    ∃ later, blockComment.at? none (opener ++ (m ++ (closer ++ c))) = some later ∧
      later.rest = c := by
  apply exists_at?_lit_star (bne_newline_of_oneLine hm)
  intro n s hn hs
  exact exists_eager_lit (by decide) hc hn hs

/-- What a block comment matches starts with the opener and ends with a closer. -/
theorem exists_of_at?_blockComment {later : Cursor} (h : blockComment.at? none t = some later) :
    ∃ m, t = opener ++ (m ++ (closer ++ later.rest)) := by
  rw [at?_eq_head?] at h
  have hmem := List.mem_of_head? h
  obtain ⟨_, _, ⟨_, m, rfl, -, rfl⟩, rfl, hpassed⟩ := describes_of_mem_ends _ hmem
  have ht : _ ++ later.rest = t := passed_append_rest (rest_suffix_of_mem_ends _ hmem)
  rw [hpassed] at ht
  exact ⟨m, by simp only [← ht, opener, closer, List.append_assoc]⟩

/-- **From the first opener to the last closer.** -/
theorem dropBlock_append (ha : Free opener (a ++ opener.dropLast)) (hm : OneLine m)
    (hc : Free closer (closer.tail ++ c)) :
    dropBlock (a ++ (opener ++ (m ++ (closer ++ c)))) = a ++ c := by
  obtain ⟨later, hat, rfl⟩ := exists_at?_blockComment hm hc
  have hpass : ∀ u, u ≠ [] → u <:+ a →
      blockComment.at? none (u ++ (opener ++ (m ++ (closer ++ later.rest)))) = none :=
    fun u hne hu => at?_lit_eq_none (ha.not_isPrefix hne hu _)
  have hnone : ∀ u, u <:+ later.rest → blockComment.at? none u = none := by
    intro u hu
    rw [Option.eq_none_iff_forall_ne_some]
    intro next hnext
    obtain ⟨x, rfl⟩ := exists_of_at?_blockComment hnext
    have hcloser : closer <:+: opener ++ (x ++ (closer ++ next.rest)) :=
      ⟨opener ++ x, next.rest, by simp only [List.append_assoc]⟩
    exact hc (hcloser.trans (hu.isInfix.trans (List.suffix_append _ _).isInfix))
  rw [dropBlock, replaceAll_append_of_at? rfl rfl hpass fun _ _ => rfl,
    replaceAll_of_at? rfl rfl hat, replaceAll_eq_self_of_forall_at? rfl rfl hnone,
    List.nil_append]

/-- Without an opener and a closer behind it nothing is taken out. -/
theorem dropBlock_of_forall (h : ∀ a m c, t ≠ a ++ (opener ++ (m ++ (closer ++ c)))) :
    dropBlock t = t := by
  apply replaceAll_eq_self_of_forall_at? rfl rfl
  intro u hu
  rw [Option.eq_none_iff_forall_ne_some]
  intro later hlater
  obtain ⟨a, rfl⟩ := hu
  obtain ⟨m, rfl⟩ := exists_of_at?_blockComment hlater
  exact h a m later.rest rfl

/-- **What is taken out starts no later than any opener and ends no earlier than any closer** behind
that opener. -/
theorem exists_dropBlock_eq (hline : OneLine (a ++ (opener ++ (m ++ (closer ++ c))))) :
    ∃ u x v, a ++ (opener ++ (m ++ (closer ++ c))) = u ++ (opener ++ (x ++ (closer ++ v))) ∧
      u <+: a ∧ v <:+ c ∧ dropBlock (a ++ (opener ++ (m ++ (closer ++ c)))) = u ++ v := by
  obtain ⟨u, r, hfirst, hu, hufree⟩ :=
    exists_first (w := opener) (by decide) a (m ++ (closer ++ c))
  obtain ⟨l, v, hlast, hv, hvfree⟩ := exists_last (w := closer) (by decide) (a ++ (opener ++ m)) c
  simp only [List.append_assoc] at hfirst hlast
  have hlength : (u ++ opener).length ≤ l.length := by
    have htotal := congrArg List.length hlast
    have hule := hu.length_le
    have hvle := hv.length_le
    simp only [List.length_append] at htotal ⊢
    omega
  have hprefix : u ++ opener <+: l ++ (closer ++ v) := by
    rw [← hlast, hfirst, ← List.append_assoc]
    exact List.prefix_append _ r
  obtain ⟨x, rfl⟩ := List.prefix_of_prefix_length_le hprefix (List.prefix_append l _) hlength
  simp only [List.append_assoc] at hlast
  have hx : OneLine x := fun h => hline (by rw [hlast]; simp [h])
  exact ⟨u, x, v, hlast, hu, hv, by rw [hlast, dropBlock_append hufree hx hvfree]⟩

end Lines

/-! ## Literals -/

section Literals

variable {q : Char} {s t : Text}

/-- One character or one escape between the quotes of a literal. -/
def literalPart (quote : Char) : Pattern :=
  lit "\\" ++ anyChar ||| one fun c => c != quote && c != '\\'

/-- A part of a literal that does not start with a backslash is one character. -/
theorem eq_nil_of_describes_literalPart {c : Char} {u : Text}
    (h : (literalPart q).Describes (c :: u)) (hc : c ≠ '\\') : c ≠ q ∧ u = [] := by
  rcases h with ⟨v, w, rfl, -, heq⟩ | ⟨d, hd, heq⟩
  · exact absurd (List.cons.inj heq).1 hc
  · obtain ⟨rfl, rfl⟩ := List.cons.inj heq
    simp only [Bool.and_eq_true, bne_iff_ne] at hd
    exact ⟨hd.1, rfl⟩

/-- A literal without escapes ends at the next quote. -/
theorem eq_of_describes_star_literalPart {x r : Text} (hq : q ≠ '\\')
    (hs : ∀ c ∈ s, c ≠ q ∧ c ≠ '\\') (hx : (star (literalPart q)).Describes x)
    (heq : x ++ q :: r = s ++ q :: t) : x = s := by
  induction s generalizing x with
  | nil =>
    cases x with
    | nil => rfl
    | cons c x =>
      obtain rfl : c = q := (List.cons.inj heq).1
      obtain ⟨us, hus, hflat⟩ := hx
      obtain ⟨u, -, hu, -, -⟩ := exists_cons_append_of_flatten hus hflat.symm
      exact absurd rfl (eq_nil_of_describes_literalPart hu hq).1
  | cons d s ih =>
    obtain ⟨hd, hrest⟩ := List.forall_mem_cons.mp hs
    cases x with
    | nil => exact absurd (List.cons.inj heq).1.symm hd.1
    | cons c x =>
      obtain ⟨rfl, htail⟩ := List.cons.inj heq
      obtain ⟨us, hus, hflat⟩ := hx
      obtain ⟨u, vs, hu, hvs, rfl⟩ := exists_cons_append_of_flatten hus hflat.symm
      obtain ⟨-, rfl⟩ := eq_nil_of_describes_literalPart hu hd.2
      exact congrArg (c :: ·) (ih hrest ⟨vs, hvs, rfl⟩ htail)

/-- A literal is quoted parts. -/
theorem exists_of_describes_quoted {x : Text} (h : (quoted q).Describes x) :
    ∃ y, (star (literalPart q)).Describes y ∧ x = q :: y ++ [q] := by
  obtain ⟨_, _, ⟨_, y, ⟨c, hc, rfl⟩, hy, rfl⟩, ⟨d, hd, rfl⟩, rfl⟩ := h
  obtain rfl := beq_iff_eq.mp hc
  obtain rfl := beq_iff_eq.mp hd
  exact ⟨y, hy, rfl⟩

/-- Text without quotes and backslashes makes a literal between quotes. -/
theorem describes_quoted (hs : ∀ c ∈ s, c ≠ q ∧ c ≠ '\\') :
    (quoted q).Describes (q :: s ++ [q]) := by
  have hplain : ∀ c ∈ s, (c != q && c != '\\') = true := by simpa using hs
  obtain ⟨us, hus, hflat⟩ := describes_star_one hplain
  have hbody : (star (literalPart q)).Describes s := ⟨us, fun u hu => Or.inr (hus u hu), hflat⟩
  have hquote : (one (· == q)).Describes [q] := ⟨q, beq_self_eq_true q, rfl⟩
  exact ⟨q :: s, [q], ⟨[q], s, hquote, hbody, rfl⟩, hquote, rfl⟩

/-- Such a literal matches up to its second quote. -/
theorem exists_at?_quoted (hq : q ≠ '\\') (hs : ∀ c ∈ s, c ≠ q ∧ c ≠ '\\') :
    ∃ later, (quoted q).at? none (q :: s ++ q :: t) = some later ∧ later.rest = t := by
  have hrest : (⟨none, q :: s ++ q :: t, []⟩ : Cursor).rest = (q :: s ++ [q]) ++ t := by simp
  obtain ⟨first, hfirst, -⟩ := exists_mem_ends_of_describes _ rfl (describes_quoted hs) hrest
  have hsome := List.isSome_head?.mpr (List.ne_nil_of_mem hfirst)
  obtain ⟨later, hlater⟩ := Option.isSome_iff_exists.mp hsome
  refine ⟨later, (at?_eq_head? _ _ _).trans hlater, ?_⟩
  -- There is no other match: it has to end at the next quote.
  have hmem := List.mem_of_head? hlater
  obtain ⟨y, hy, hpassed⟩ := exists_of_describes_quoted (describes_of_mem_ends _ hmem)
  have happend : _ ++ later.rest = q :: s ++ q :: t :=
    passed_append_rest (rest_suffix_of_mem_ends _ hmem)
  rw [hpassed] at happend
  have heq : y ++ q :: later.rest = s ++ q :: t := by simpa using happend
  rw [eq_of_describes_star_literalPart hq hs hy heq] at heq
  simpa using heq

/-- Up to the first quote nothing is emptied. -/
theorem emptyLiterals_append (hs : q ∉ s) (t : Text) :
    emptyLiterals q (s ++ t) = s ++ emptyLiterals q t := by
  refine replaceAll_append rfl rfl (fun c hc => ?_) (fun _ _ => rfl) t
  have hne : c ≠ q := fun h => hs (h ▸ hc)
  simp [quoted, append_eq_seq, opensWith, nullable, hne]

/-- **A literal is emptied.** -/
theorem emptyLiterals_literal (hq : q ≠ '\\') (hs : ∀ c ∈ s, c ≠ q ∧ c ≠ '\\') (t : Text) :
    emptyLiterals q (q :: s ++ q :: t) = q :: q :: emptyLiterals q t := by
  obtain ⟨later, hat, rfl⟩ := exists_at?_quoted (t := t) hq hs
  exact replaceAll_of_at? rfl rfl hat _

end Literals

/-! ## Quotes -/

/-- Whether a character opens and closes literals. -/
def isQuote (c : Char) : Bool := c == '\'' || c == '"'

/-- How many quotes a text has. -/
def quotes (t : Text) : Nat := t.countP isQuote

theorem quotes_append (s t : Text) : quotes (s ++ t) = quotes s + quotes t := List.countP_append

/-- A text without quotes has none to count. -/
theorem quotes_eq_zero {t : Text} (h : ∀ c ∈ t, isQuote c = false) : quotes t = 0 := by
  rw [quotes, List.countP_eq_zero]
  intro c hc
  simp [h c hc]

theorem isBlank_of_isQuote {c : Char} (h : isQuote c = true) : isBlank c = false := by
  rcases (Bool.or_eq_true _ _).mp h with h | h
  · rw [beq_iff_eq.mp h]
    decide
  · rw [beq_iff_eq.mp h]
    decide

/-- Trimming takes no quotes away. -/
theorem quotes_trim (t : Text) : quotes (trim t) = quotes t := by
  have hcompact : ∀ t : Text, quotes (compact t) = quotes t := by
    intro t
    rw [quotes, compact, List.countP_filter]
    apply List.countP_congr
    intro c _
    rw [Bool.and_eq_true, Bool.not_eq_true', and_iff_left_iff_imp]
    exact isBlank_of_isQuote
  rw [← hcompact, compact_trim, hcompact]

/-- Emptying literals adds no quotes. -/
theorem quotes_emptyLiterals_le (q : Char) (t : Text) :
    quotes (emptyLiterals q t) ≤ quotes t := by
  apply countP_replaceAll_le rfl rfl
  intro m hm
  obtain ⟨y, -, hy⟩ := exists_of_describes_quoted hm
  rw [hy]
  simp only [List.countP_cons, List.countP_append, List.countP_nil]
  omega

/-- Dropping block comments adds no quotes. -/
theorem quotes_dropBlock_le (t : Text) : quotes (dropBlock t) ≤ quotes t :=
  countP_replaceAll_le rfl rfl (fun _ _ => Nat.zero_le _) t

/-- **What is left of a line has no more quotes than were left when it was cut.** -/
theorem quotes_strip_le (t : Text) : quotes (strip t) ≤ quotes (dropBlock (cutLine t)) := by
  rw [strip_eq, quotes_trim]
  exact (quotes_emptyLiterals_le _ _).trans (quotes_emptyLiterals_le _ _)

end DocComment.Definition
