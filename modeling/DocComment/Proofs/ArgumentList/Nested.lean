import DocComment.Proofs.ArgumentList.Joined

/-!
# Nested arguments

Brackets nest properly when each closer meets the bracket that was opened last.  The splitter keeps
no such stack: square brackets and braces are counted, and a parenthesis or angle bracket opens a
run that ends at the first closer of its kind.  The two agree as long as no parenthesis stands
inside a parenthesis and no angle bracket inside an angle bracket (`step_of_open?`), however deep
the brackets nest otherwise, and then the arguments stay whole.  A run that holds a bracket of its
own kind ends too early, and a comma behind that place can cut the argument in two.
-/

namespace DocComment.ArgumentList

open Text

/-! ## Brackets -/

/-- A kind of bracket. -/
inductive Bracket where
  | paren
  | angle
  | square
  | brace
  deriving DecidableEq

namespace Bracket

def opener : Bracket → Char
  | paren => '('
  | angle => '<'
  | square => '['
  | brace => '\x7b'

def closer : Bracket → Char
  | paren => ')'
  | angle => '>'
  | square => ']'
  | brace => '\x7d'

/-- Whether the splitter reads the bracket as the start of a run. -/
def isRun : Bracket → Bool
  | paren | angle => true
  | square | brace => false

/-- The bracket that a character opens. -/
def ofOpener? (c : Char) : Option Bracket := [paren, angle, square, brace].find? (·.opener == c)

/-- The bracket that a character closes. -/
def ofCloser? (c : Char) : Option Bracket := [paren, angle, square, brace].find? (·.closer == c)

/-- A character that opens a bracket is its opener. -/
theorem opener_of_ofOpener? {c : Char} {b : Bracket} (h : ofOpener? c = some b) : c = b.opener := by
  have hfound := List.find?_some h
  exact (eq_of_beq hfound).symm

/-- A character that closes a bracket is its closer. -/
theorem closer_of_ofCloser? {c : Char} {b : Bracket} (h : ofCloser? c = some b) : c = b.closer := by
  have hfound := List.find?_some h
  exact (eq_of_beq hfound).symm

theorem ne_opener_of_ofOpener? {c : Char} (h : ofOpener? c = none) (b : Bracket) :
    c ≠ b.opener := by
  rintro rfl
  cases b <;> cases h

theorem ne_closer_of_ofCloser? {c : Char} (h : ofCloser? c = none) (b : Bracket) :
    c ≠ b.closer := by
  rintro rfl
  cases b <;> cases h

/-- Different brackets have different closers. -/
theorem closer_injective {b b' : Bracket} (h : b.closer = b'.closer) : b = b' := by
  revert h
  cases b <;> cases b' <;> decide

/-- No opener is a closer, also of another bracket. -/
theorem opener_ne_closer (b b' : Bracket) : b.opener ≠ b'.closer := by
  cases b <;> cases b' <;> decide

end Bracket

/-- The brackets that are open behind a character, the innermost first.  There are none to give for
a closer out of turn, for a comma outside all brackets, and for a bracket that the limit does not
allow. -/
def open? (limit : List Bracket → Bool) (stack : List Bracket) (c : Char) :
    Option (List Bracket) :=
  match Bracket.ofOpener? c with
  | some b => if limit (b :: stack) then some (b :: stack) else none
  | none =>
    match Bracket.ofCloser? c with
    | some b => if stack.head? = some b then some stack.tail else none
    | none => if c = ',' && stack.isEmpty then none else some stack

/-- The brackets that are open behind a text. -/
def openAfter? (limit : List Bracket → Bool) (stack : List Bracket) (t : Text) :
    Option (List Bracket) :=
  t.foldlM (open? limit) stack

/-- No limit. -/
def anyDepth (_ : List Bracket) : Bool := true

/-- At most two parentheses or angle brackets are open at once. -/
def twoDeep (stack : List Bracket) : Bool := (stack.filter Bracket.isRun).length ≤ 2

/-- No parenthesis is open inside a parenthesis, and no angle bracket inside an angle bracket. -/
def noneInItself (stack : List Bracket) : Bool :=
  stack.count .paren ≤ 1 && stack.count .angle ≤ 1

/-- A trimmed argument without quotes and backslashes whose brackets are properly nested within a
limit and hold all its commas. -/
structure IsArgument (limit : List Bracket → Bool) (a : Text) : Prop where
  ne_nil : a ≠ []
  startsTight : StartsTight a
  endsTight : EndsTight a
  unquoted : ∀ c ∈ a, c ≠ '"' ∧ c ≠ '\'' ∧ c ≠ '\\'
  nested : openAfter? limit [] a = some []

instance (limit : List Bracket → Bool) (a : Text) : Decidable (IsArgument limit a) :=
  have := List.decidableBAll (fun c => c ≠ '"' ∧ c ≠ '\'' ∧ c ≠ '\\') a
  decidable_of_iff (a ≠ [] ∧ StartsTight a ∧ EndsTight a ∧
      (∀ c ∈ a, c ≠ '"' ∧ c ≠ '\'' ∧ c ≠ '\\') ∧ openAfter? limit [] a = some [])
    ⟨fun ⟨h₁, h₂, h₃, h₄, h₅⟩ => ⟨h₁, h₂, h₃, h₄, h₅⟩, fun h => ⟨h.1, h.2, h.3, h.4, h.5⟩⟩

/-- The brackets that are open behind a text are those after its parts, taken in order. -/
theorem openAfter?_append_cons {limit : List Bracket → Bool} {stack stack' : List Bracket}
    {u v : Text} {c : Char} (h : openAfter? limit stack (u ++ c :: v) = some stack') :
    ∃ inner outer, openAfter? limit stack u = some inner ∧ open? limit inner c = some outer ∧
      openAfter? limit outer v = some stack' := by
  rw [openAfter?, List.foldlM_append] at h
  obtain ⟨inner, hinner, hrest⟩ := Option.bind_eq_some_iff.mp h
  rw [List.foldlM_cons] at hrest
  obtain ⟨outer, houter, hrest⟩ := Option.bind_eq_some_iff.mp hrest
  exact ⟨inner, outer, hinner, houter, hrest⟩

/-- An argument is tight and not empty. -/
theorem IsArgument.proper {limit : List Bracket → Bool} {a : Text} (h : IsArgument limit a) :
    Proper a where
  ne_nil := h.ne_nil
  startsTight := h.startsTight
  endsTight := h.endsTight
  no_backslash hmem := (h.unquoted _ hmem).2.2 rfl
  no_comma hhead := by
    obtain ⟨t, rfl⟩ := List.head?_eq_some_iff.mp hhead
    obtain ⟨inner, outer, hinner, houter, -⟩ := openAfter?_append_cons (u := []) h.nested
    obtain rfl : [] = inner := Option.some.inj hinner
    cases houter

/-! ## What the splitter makes of the brackets -/

/-- What is open for the splitter behind a bracket. -/
def Bracket.enter : Bracket → Nesting → Nesting
  | paren, m => { m with closer := some ')' }
  | angle, m => { m with closer := some '>' }
  | square, m => { m with squares := m.squares + 1 }
  | brace, m => { m with braces := m.braces + 1 }

/-- What is open for the splitter inside brackets: those in a run do not count. -/
def nestingOf : List Bracket → Nesting
  | [] => {}
  | b :: outer =>
    if (nestingOf outer).closer.isSome then nestingOf outer else b.enter (nestingOf outer)

section NestingOf

variable {stack outer : List Bracket} {b : Bracket} {k c : Char}

/-- Inside a run, a further bracket changes nothing. -/
theorem nestingOf_cons_of_run (h : (nestingOf outer).closer = some k) (b : Bracket) :
    nestingOf (b :: outer) = nestingOf outer := by
  rw [nestingOf, h, Option.isSome_some, if_pos rfl]

/-- Outside a run, a further bracket is entered. -/
theorem nestingOf_cons_of_no_run (h : (nestingOf outer).closer = none) (b : Bracket) :
    nestingOf (b :: outer) = b.enter (nestingOf outer) := by
  rw [nestingOf, h, Option.isSome_none, if_neg Bool.false_ne_true]

/-- No bracket escapes the next character. -/
theorem escaped_nestingOf (stack : List Bracket) : (nestingOf stack).escaped = false := by
  induction stack with
  | nil => rfl
  | cons b outer ih =>
    rw [nestingOf]
    split
    · exact ih
    · cases b <;> exact ih

/-- An open run has a parenthesis or angle bracket that it starts at. -/
theorem exists_mem_of_closer (h : (nestingOf stack).closer = some k) :
    ∃ b ∈ stack, b.isRun = true ∧ k = b.closer := by
  induction stack with
  | nil => cases h
  | cons b outer ih =>
    cases houter : (nestingOf outer).closer with
    | some k' =>
      rw [nestingOf_cons_of_run houter] at h
      obtain ⟨b', hmem, hb'⟩ := ih h
      exact ⟨b', List.mem_cons_of_mem _ hmem, hb'⟩
    | none =>
      rw [nestingOf_cons_of_no_run houter] at h
      refine ⟨b, List.mem_cons_self, ?_⟩
      cases b with
      | paren | angle => exact ⟨rfl, (Option.some.inj h).symm⟩
      | square | brace =>
        rw [Bracket.enter, houter] at h
        cases h

/-- Outside all runs the brackets are counted. -/
theorem counts_nestingOf (h : (nestingOf stack).closer = none) :
    0 ≤ (nestingOf stack).squares ∧ 0 ≤ (nestingOf stack).braces ∧
      (nestingOf stack).squares + (nestingOf stack).braces = stack.length := by
  induction stack with
  | nil => decide
  | cons b outer ih =>
    cases houter : (nestingOf outer).closer with
    | some k =>
      rw [nestingOf_cons_of_run houter, houter] at h
      cases h
    | none =>
      obtain ⟨hsquares, hbraces, hsum⟩ := ih houter
      rw [nestingOf_cons_of_no_run houter] at h ⊢
      cases b with
      | paren | angle => cases h
      | square | brace =>
        simp only [Bracket.enter, List.length_cons]
        omega

/-- Inside brackets something is open for the splitter. -/
theorem nestingOf_ne_initial (h : stack ≠ []) : nestingOf stack ≠ {} := by
  intro hinitial
  have hrun : (nestingOf stack).closer = none := by rw [hinitial]
  obtain ⟨-, -, hsum⟩ := counts_nestingOf hrun
  have hpos := List.length_pos_iff.mpr h
  rw [hinitial] at hsum
  simp only at hsum
  omega

/-! ## One character of nested brackets -/

/-- In a run, whatever does not close it is kept and changes nothing. -/
theorem next_of_run (h : (nestingOf stack).closer = some k) (hc : c ≠ '\\') (hk : c ≠ k) :
    (nestingOf stack).next c = (.keep, nestingOf stack) := by
  have hescaped := escaped_nestingOf stack
  simp [Nesting.next, h, hescaped, hc, hk]

/-- Outside a run an opener enters its bracket. -/
theorem next_opener (h : (nestingOf outer).closer = none) (b : Bracket) :
    (nestingOf outer).next b.opener = (.keep, b.enter (nestingOf outer)) := by
  have hescaped := escaped_nestingOf outer
  cases b <;> simp [Nesting.next, h, hescaped, Bracket.opener, Bracket.enter, runCloser?]

/-- The closer of the bracket that was entered last leaves it. -/
theorem next_closer (h : (nestingOf outer).closer = none) (b : Bracket) :
    (b.enter (nestingOf outer)).next b.closer = (.keep, nestingOf outer) := by
  have hescaped := escaped_nestingOf outer
  generalize nestingOf outer = m at h hescaped ⊢
  obtain ⟨closer, escaped, squares, braces⟩ := m
  obtain rfl : closer = none := h
  obtain rfl : escaped = false := hescaped
  cases b <;> simp [Nesting.next, Bracket.closer, Bracket.enter, runCloser?]

/-- Outside all runs, a character that is no bracket and no quote is kept unless it is a comma
outside all brackets. -/
theorem next_of_plain (h : (nestingOf stack).closer = none) (hopener : Bracket.ofOpener? c = none)
    (hcloser : Bracket.ofCloser? c = none) (hquote : c ≠ '"' ∧ c ≠ '\'' ∧ c ≠ '\\')
    (hcomma : c = ',' → stack ≠ []) :
    (nestingOf stack).next c = (.keep, nestingOf stack) := by
  have hescaped := escaped_nestingOf stack
  have hrun : runCloser? c = none := by
    have hparen : c ≠ '(' := Bracket.ne_opener_of_ofOpener? hopener .paren
    have hangle : c ≠ '<' := Bracket.ne_opener_of_ofOpener? hopener .angle
    unfold runCloser?
    split <;> simp_all
  have hsquare : c ≠ '[' ∧ c ≠ ']' :=
    ⟨Bracket.ne_opener_of_ofOpener? hopener .square, Bracket.ne_closer_of_ofCloser? hcloser .square⟩
  have hbrace : c ≠ '\x7b' ∧ c ≠ '\x7d' :=
    ⟨Bracket.ne_opener_of_ofOpener? hopener .brace, Bracket.ne_closer_of_ofCloser? hcloser .brace⟩
  have hopen : ¬ (c = ',' && (nestingOf stack).squares == 0 && (nestingOf stack).braces == 0) := by
    intro hcut
    simp only [Bool.and_eq_true, decide_eq_true_eq, beq_iff_eq] at hcut
    obtain ⟨⟨hc, hsquares⟩, hbraces⟩ := hcut
    obtain ⟨-, -, hsum⟩ := counts_nestingOf h
    have hpos := List.length_pos_iff.mpr (hcomma hc)
    omega
  simp only [Nesting.next, h, hescaped, hrun, if_neg hsquare.1, if_neg hsquare.2, if_neg hbrace.1,
    if_neg hbrace.2, if_neg hopen, Bool.false_eq_true, if_false]

/-- Taking off a bracket keeps to the limit, and a run stands in no bracket of its kind. -/
theorem noneInItself_cons (h : noneInItself (b :: outer) = true) :
    noneInItself outer = true ∧ (b.isRun = true → b ∉ outer) := by
  simp only [noneInItself, Bool.and_eq_true, decide_eq_true_eq, List.count_cons] at h ⊢
  refine ⟨by omega, fun hrun hmem => ?_⟩
  have hpos := List.count_pos_iff.mpr hmem
  cases b with
  | paren | angle =>
    simp only [beq_self_eq_true, if_true] at h
    omega
  | square | brace => cases hrun

/-- **One step.**  As long as no parenthesis or angle bracket stands in one of its kind, every
character is kept, and the splitter goes from what is open for it inside the brackets before to what
is open for it inside the brackets behind. -/
theorem step_of_open? {stack' : List Bracket} (hlimit : noneInItself stack = true)
    (hquote : c ≠ '"' ∧ c ≠ '\'' ∧ c ≠ '\\') (h : open? noneInItself stack c = some stack') :
    (nestingOf stack).next c = (.keep, nestingOf stack') ∧ noneInItself stack' = true := by
  unfold open? at h
  cases hopener : Bracket.ofOpener? c with
  | some b =>
    obtain rfl := Bracket.opener_of_ofOpener? hopener
    simp only [hopener, Option.ite_none_right_eq_some, Option.some.injEq] at h
    obtain ⟨hlimit', rfl⟩ := h
    refine ⟨?_, hlimit'⟩
    cases hrun : (nestingOf stack).closer with
    | some k =>
      obtain ⟨b', -, -, rfl⟩ := exists_mem_of_closer hrun
      rw [nestingOf_cons_of_run hrun, next_of_run hrun hquote.2.2 (Bracket.opener_ne_closer b b')]
    | none => rw [nestingOf_cons_of_no_run hrun, next_opener hrun]
  | none =>
    cases hcloser : Bracket.ofCloser? c with
    | some b =>
      obtain rfl := Bracket.closer_of_ofCloser? hcloser
      simp only [hopener, hcloser, Option.ite_none_right_eq_some, Option.some.injEq] at h
      obtain ⟨hhead, rfl⟩ := h
      obtain ⟨outer, rfl⟩ := List.head?_eq_some_iff.mp hhead
      obtain ⟨hlimit', hrunless⟩ := noneInItself_cons hlimit
      rw [List.tail_cons]
      refine ⟨?_, hlimit'⟩
      cases hrun : (nestingOf outer).closer with
      | some k =>
        -- A run is open outside the bracket, and the bracket is not of its kind.
        obtain ⟨b', hmem, hb', rfl⟩ := exists_mem_of_closer hrun
        have hne : b.closer ≠ b'.closer := by
          intro heq
          obtain rfl := Bracket.closer_injective heq
          exact hrunless hb' hmem
        rw [nestingOf_cons_of_run hrun, next_of_run hrun hquote.2.2 hne]
      | none => rw [nestingOf_cons_of_no_run hrun, next_closer hrun]
    | none =>
      simp only [hopener, hcloser, Option.ite_none_left_eq_some, Option.some.injEq] at h
      obtain ⟨hcomma, rfl⟩ := h
      refine ⟨?_, hlimit⟩
      cases hrun : (nestingOf stack).closer with
      | some k =>
        obtain ⟨b', -, -, rfl⟩ := exists_mem_of_closer hrun
        exact next_of_run hrun hquote.2.2 (Bracket.ne_closer_of_ofCloser? hcloser b')
      | none =>
        refine next_of_plain hrun hopener hcloser hquote ?_
        rintro rfl rfl
        exact hcomma rfl

/-! ## A whole argument -/

/-- The splitter follows the brackets through a whole text. -/
theorem after_of_openAfter? {t : Text} {stack' : List Bracket} (hlimit : noneInItself stack = true)
    (hquote : ∀ c ∈ t, c ≠ '"' ∧ c ≠ '\'' ∧ c ≠ '\\')
    (h : openAfter? noneInItself stack t = some stack') :
    (nestingOf stack).after t = nestingOf stack' := by
  induction t generalizing stack with
  | nil =>
    obtain rfl : stack = stack' := Option.some.inj h
    rfl
  | cons c t ih =>
    obtain ⟨hc, ht⟩ := List.forall_mem_cons.mp hquote
    rw [openAfter?, List.foldlM_cons] at h
    obtain ⟨middle, hmiddle, hrest⟩ := Option.bind_eq_some_iff.mp h
    obtain ⟨hnext, hlimit'⟩ := step_of_open? hlimit hc hmiddle
    have hfirst : (nestingOf stack).after (c :: t) = (nestingOf middle).after t := by
      rw [Nesting.after, List.foldl_cons, hnext]
      rfl
    rw [hfirst, ih hlimit' ht hrest]

/-- In an argument in which no run holds a bracket of its own kind, no comma separates, and nothing
is left open. -/
theorem IsArgument.undivided {a : Text} (h : IsArgument noneInItself a) :
    Undivided a ∧ (Nesting.after {} a).isNeutral = true := by
  have hlimit : noneInItself [] = true := rfl
  constructor
  · rintro u v rfl
    obtain ⟨inner, outer, hinner, houter, -⟩ := openAfter?_append_cons h.nested
    have hafter : Nesting.after {} u = nestingOf inner :=
      after_of_openAfter? hlimit (fun c hc => h.unquoted c (List.mem_append_left _ hc)) hinner
    have hne : inner ≠ [] := by
      rintro rfl
      cases houter
    rw [← Bool.not_eq_true, hafter, Nesting.isNeutral_iff]
    exact nestingOf_ne_initial hne
  · rw [Nesting.isNeutral_iff]
    exact after_of_openAfter? hlimit h.unquoted h.nested

end NestingOf

/-- **Nested arguments.**  Arguments whose brackets are properly nested and hold all their commas
are found again exactly if they stay whole, and they do so where no parenthesis stands inside a
parenthesis and no angle bracket inside an angle bracket. -/
theorem split_joined_of_nested {args : List Text} (hargs : ∀ a ∈ args, IsArgument anyDepth a) :
    (split (joined args) = args ↔ StayWhole args) ∧
      ((∀ a ∈ args, IsArgument noneInItself a) → split (joined args) = args) := by
  have hiff := split_joined_eq_iff fun a ha => (hargs a ha).proper
  refine ⟨hiff, fun hnone => hiff.mpr ⟨?_, ?_⟩⟩
  · exact fun a ha => (hnone a ha).undivided.1
  · exact fun a ha => (hnone a (List.dropLast_subset _ ha)).undivided.2

/-- Arguments with calls, generic types and literals inside one another. -/
def nestedArguments : List Text :=
  ["m: Map<string, [A, B]>", "x = [f(1, 2), \x7by: g<a>(b)\x7d]", "k"].map String.toList

/-- They stay whole. -/
theorem split_joined_nestedArguments :
    (∀ a ∈ nestedArguments, IsArgument noneInItself a) ∧ StayWhole nestedArguments ∧
      split (joined nestedArguments) = nestedArguments := by
  have hany : ∀ a ∈ nestedArguments, IsArgument anyDepth a := by decide +kernel
  have hnone : ∀ a ∈ nestedArguments, IsArgument noneInItself a := by decide +kernel
  have hsplit := (split_joined_of_nested hany).2 hnone
  exact ⟨hnone, (split_joined_of_nested hany).1.mp hsplit, hsplit⟩

/-- Arguments that are nested no more than two deep and not found again. -/
def Lost (args : List Text) : Prop :=
  (∀ a ∈ args, IsArgument twoDeep a) ∧ split (joined args) ≠ args

instance (args : List Text) : Decidable (Lost args) :=
  have := List.decidableBAll (IsArgument twoDeep) args
  inferInstanceAs (Decidable (_ ∧ _))

/-- A call in a call and a generic type in a generic type are cut at the comma behind the inner one,
and a bracket that was opened in a run and closed behind it takes the next argument along. -/
theorem lost_of_run_in_itself :
    Lost ["f(g(x), y)".toList] ∧ Lost ["Map<List<a>, b>".toList] ∧
      Lost ["f([g(x)])".toList, "b".toList] := by
  decide +kernel

end DocComment.ArgumentList
