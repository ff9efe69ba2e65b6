import DocComment.Grammar.ObjectiveC
import DocComment.Proofs.Pattern.Covering
import DocComment.Proofs.Pattern.Residuals
import DocComment.Proofs.Text.Lines
import DocComment.Proofs.Text.Occurrence

/-!
# Selectors

A method is written with its keywords and its arguments by turns.  Reading it means to sort them:
the text behind the first keyword is cut at the colons (`split_body`), each piece but the last is
cut again at its last blank, which stands before the next keyword (`selectorParts_pieces`), and the
arguments, joined as lines, are split again and taken apart one by one (`arguments_unlines`).  None
of these cuts looks at the types, which may hold blanks and pointer marks anywhere.  They fall into
the right places because a type stands in parentheses and holds no colon and no line feed.
-/

namespace DocComment.Grammar.ObjectiveC

open Pattern Text

/-- An identifier of the language. -/
def isIdentifier (t : Text) : Bool := t.head?.any isDollarStart && t.all isDollarChar

/-- The characters of an argument's type: no parentheses, colons, braces, semicolons or line
feeds. -/
def isTypeChar (c : Char) : Bool := !"():\x7b\x7d;\n".toList.contains c

/-- A type with pointer marks. -/
def starred (base : Text) (stars : Nat) : Text := base ++ List.replicate stars '*'

/-- A keyword of a selector with the argument behind it. -/
structure MethodPart where
  keyword : Text
  type : Text
  name : Text
  isIdentifier_keyword : isIdentifier keyword = true
  isIdentifier_name : isIdentifier name = true
  isTypeChar_type : type.all isTypeChar = true

namespace MethodPart

/-- The argument as it is written. -/
def argument (p : MethodPart) : Text := '(' :: p.type ++ ')' :: p.name

/-- The keyword and the argument as they are written. -/
def written (p : MethodPart) : Text := p.keyword ++ ':' :: p.argument

/-- What the part adds to the selector. -/
def label (p : MethodPart) : Text := p.keyword ++ [':']

/-- The argument taken apart: the pointer marks of the type stand together behind the rest of it. -/
def described (p : MethodPart) : Argument where
  name := p.name
  type := some (starred (trim (p.type.filter (· != '*'))) (p.type.count '*'))

end MethodPart

/-- The first line of a method that returns `result`. -/
def methodLine (result : Text) (parts : List MethodPart) : Text :=
  ['-', ' ', '('] ++ result ++ ')' :: unwords (parts.map MethodPart.written) ++ [' ', '\x7b']

/-! ## Identifiers -/

section Identifiers

variable {t : Text}

/-- An identifier is a letter, a dollar or an underscore, and characters that may follow one. -/
theorem exists_cons_of_isIdentifier (ht : isIdentifier t = true) :
    ∃ c u, t = c :: u ∧ isDollarStart c = true ∧ ∀ d ∈ u, isDollarChar d = true := by
  obtain ⟨hhead, hall⟩ := (Bool.and_eq_true _ _).mp ht
  cases t with
  | nil => cases hhead
  | cons c u =>
    rw [List.all_cons, Bool.and_eq_true, List.all_eq_true] at hall
    exact ⟨c, u, rfl, hhead, hall.2⟩

/-- Every character of an identifier may stand in one. -/
theorem isDollarChar_of_isIdentifier (ht : isIdentifier t = true) :
    ∀ c ∈ t, isDollarChar c = true :=
  List.all_eq_true.mp ((Bool.and_eq_true _ _).mp ht).2

/-- An identifier is a word. -/
theorem isWord_of_isIdentifier (ht : isIdentifier t = true) : IsWord t := by
  refine ⟨?_, fun c hc => isBlank_eq_false_of_isDollarChar (isDollarChar_of_isIdentifier ht c hc)⟩
  obtain ⟨c, u, rfl, -, -⟩ := exists_cons_of_isIdentifier ht
  exact List.cons_ne_nil c u

theorem not_blank_of_mem_marks {n : Nat} : ∀ c ∈ List.replicate n '*', isBlank c = false := by
  intro c hc
  rw [List.eq_of_mem_replicate hc]
  decide

/-- So is one with pointer marks behind it. -/
theorem isWord_starred (ht : isIdentifier t = true) (stars : Nat) : IsWord (starred t stars) := by
  have hword := isWord_of_isIdentifier ht
  refine ⟨List.append_ne_nil_of_left_ne_nil hword.1 _, fun c hc => ?_⟩
  exact (List.mem_append.mp hc).elim (hword.2 c) (not_blank_of_mem_marks c)

/-- What may not stand in an identifier does not. -/
theorem not_mem_of_isIdentifier (ht : isIdentifier t = true) {c : Char}
    (hc : isDollarChar c = false) : c ∉ t := by
  intro hmem
  rw [isDollarChar_of_isIdentifier ht c hmem] at hc
  cases hc

end Identifiers

/-! ## What the parts are made of -/

section Parts

variable {p : MethodPart} {more : List MethodPart}

/-- The text behind the first keyword and its colon. -/
def body (p : MethodPart) : List MethodPart → Text
  | [] => p.argument
  | q :: more => p.argument ++ ' ' :: q.keyword ++ ':' :: body q more

/-- The pieces of that text between the colons. -/
def pieces (p : MethodPart) : List MethodPart → List Text
  | [] => [p.argument]
  | q :: more => (p.argument ++ ' ' :: q.keyword) :: pieces q more

/-- The parts of a method, one after the other, start with the first keyword and its colon. -/
theorem unwords_written (p : MethodPart) (more : List MethodPart) :
    unwords ((p :: more).map MethodPart.written) = p.keyword ++ ':' :: body p more := by
  induction more generalizing p with
  | nil => exact unwords_singleton _
  | cons q more ih =>
    have hne : (q :: more).map MethodPart.written ≠ [] := List.cons_ne_nil _ _
    rw [List.map_cons, unwords_cons hne, ih, body, MethodPart.written]
    simp

theorem MethodPart.argument_ne_nil : p.argument ≠ [] := List.cons_ne_nil _ _

theorem MethodPart.startsTight_argument : StartsTight p.argument := startsTight_cons.mpr (by decide)

/-- An argument ends with its name. -/
theorem MethodPart.endsTight_argument : EndsTight p.argument := by
  have hname := isWord_of_isIdentifier p.isIdentifier_name
  change EndsTight ('(' :: p.type ++ ([')'] ++ p.name))
  rw [← List.append_assoc, endsTight_append hname.1]
  exact hname.endsTight

/-- What holds of parentheses, identifiers and types holds of an argument. -/
theorem MethodPart.forall_mem_argument {P : Char → Prop} (hopen : P '(') (hclose : P ')')
    (hdollar : ∀ c, isDollarChar c = true → P c) (htype : ∀ c, isTypeChar c = true → P c) :
    ∀ c ∈ p.argument, P c := by
  intro c hc
  rcases List.mem_append.mp hc with hc | hc
  · rcases List.mem_cons.mp hc with rfl | hc
    · exact hopen
    · exact htype c (List.all_eq_true.mp p.isTypeChar_type c hc)
  · rcases List.mem_cons.mp hc with rfl | hc
    · exact hclose
    · exact hdollar c (isDollarChar_of_isIdentifier p.isIdentifier_name c hc)

/-- What holds of parentheses, blanks, colons, identifiers and types holds of all parts. -/
theorem forall_mem_body {P : Char → Prop} (hsigns : ∀ c ∈ ['(', ')', ' ', ':'], P c)
    (hdollar : ∀ c, isDollarChar c = true → P c) (htype : ∀ c, isTypeChar c = true → P c)
    (p : MethodPart) (more : List MethodPart) : ∀ c ∈ body p more, P c := by
  have hargument : ∀ p : MethodPart, ∀ c ∈ p.argument, P c := fun p =>
    p.forall_mem_argument (hsigns _ (by decide)) (hsigns _ (by decide)) hdollar htype
  induction more generalizing p with
  | nil => exact hargument p
  | cons q more ih =>
    intro c hc
    rcases List.mem_append.mp hc with hc | hc
    · rcases List.mem_append.mp hc with hc | hc
      · exact hargument p c hc
      · rcases List.mem_cons.mp hc with rfl | hc
        · exact hsigns _ (by decide)
        · exact hdollar c (isDollarChar_of_isIdentifier q.isIdentifier_keyword c hc)
    · rcases List.mem_cons.mp hc with rfl | hc
      · exact hsigns _ (by decide)
      · exact ih q c hc

/-- Behind the first keyword the parts go on with the parenthesis of its type. -/
theorem body_eq_cons (p : MethodPart) (more : List MethodPart) : ∃ t, body p more = '(' :: t := by
  cases more <;> exact ⟨_, rfl⟩

/-- What is behind the first keyword starts tight. -/
theorem startsTight_body (p : MethodPart) (more : List MethodPart) : StartsTight (body p more) := by
  obtain ⟨t, ht⟩ := body_eq_cons p more
  exact ht ▸ startsTight_cons.mpr (by decide)

/-- What is behind the first keyword ends with the last name. -/
theorem endsTight_body (p : MethodPart) (more : List MethodPart) : EndsTight (body p more) := by
  induction more generalizing p with
  | nil => exact p.endsTight_argument
  | cons q more ih =>
    obtain ⟨t, ht⟩ := body_eq_cons q more
    have hne : body q more ≠ [] := ht ▸ List.cons_ne_nil _ _
    change EndsTight (p.argument ++ ' ' :: q.keyword ++ ([':'] ++ body q more))
    rw [← List.append_assoc, endsTight_append hne]
    exact ih q

end Parts

/-! ## Cutting at the colons -/

section Cuts

variable {p q : MethodPart} {more : List MethodPart} {t v : Text}

/-- A colon with no blanks around it. -/
theorem covers_selectorColon (ht : StartsTight t) : Covers selectorColon none [':'] t [] := by
  have hbefore : Covers blanks none [] ([':'] ++ t) [] :=
    covers_blanks blanks_nil (startsTight_cons.mpr (by decide))
  exact (hbefore.append_lit (u := [':'])).append_blanks ht

/-- Where other text stands before the next colon, no colon is found. -/
theorem at?_selectorColon_eq_none (hne : v ≠ []) (hcolon : ':' ∉ v) (htight : EndsTight v) :
    selectorColon.at? none (v ++ ':' :: t) = none := by
  rw [at?_eq_head?, List.head?_eq_none_iff, List.eq_nil_iff_forall_not_mem]
  intro later hlater
  obtain ⟨_, w, ⟨b, u, hb, hu, rfl⟩, -, hpassed⟩ := describes_of_mem_ends _ hlater
  have happend := passed_append_rest (rest_suffix_of_mem_ends _ hlater)
  obtain rfl : u = [':'] := hu
  rw [hpassed, List.append_assoc, List.append_assoc] at happend
  -- The colon of the match is the first one there is, so all of `v` would be blanks before it.
  obtain ⟨z, rfl, -⟩ := exists_of_append_eq_append_cons hcolon happend.symm
  have hblanks : ∀ c ∈ v ++ z, isBlank c = true := hb.forall_mem fun _ hc => hc
  have hlast := htight _ (List.getLast?_eq_some_getLast hne)
  rw [hblanks _ (List.mem_append_left z (List.getLast_mem hne))] at hlast
  cases hlast

/-- Where a selector goes on does not depend on what stands before. -/
theorem looksAhead_selectorColon : selectorColon.looksAhead = true := rfl

theorem nullable_selectorColon : selectorColon.nullable = false := rfl

/-- A text is cut at its first colon if no blank stands next to it. -/
theorem split_selectorColon_cons (hcolon : ':' ∉ v) (htight : EndsTight v) (ht : StartsTight t) :
    selectorColon.split (v ++ ':' :: t) = v :: selectorColon.split t := by
  apply (covers_selectorColon ht).split_eq looksAhead_selectorColon nullable_selectorColon
  intro w hne hw
  apply at?_selectorColon_eq_none hne fun hmem => hcolon (hw.subset hmem)
  obtain ⟨a, rfl⟩ := hw
  exact (endsTight_append hne).mp htight

/-- Without a colon there is nothing to cut. -/
theorem split_selectorColon_of_not_mem (hcolon : ':' ∉ t) : selectorColon.split t = [t] := by
  have hfind : selectorColon.find t = none := by
    apply findFrom_eq_none_of_meets (k := (· == ':'))
    · exact Or.inl (Or.inr ⟨':', by decide, by decide⟩)
    · exact fun c hc => beq_eq_false_iff_ne.mpr fun heq => hcolon (heq ▸ hc)
  rw [Pattern.split_eq looksAhead_selectorColon nullable_selectorColon, hfind]

/-- No argument has a colon, whatever its type. -/
theorem MethodPart.colon_not_mem_argument : ':' ∉ p.argument := fun hmem =>
  p.forall_mem_argument (P := (· ≠ ':')) (by decide) (by decide) (fun _ hc => ne_of_class hc rfl)
    (fun _ hc => ne_of_class hc rfl) ':' hmem rfl

/-- A piece is tight. -/
theorem startsTight_piece : StartsTight (p.argument ++ ' ' :: q.keyword) :=
  (startsTight_append p.argument_ne_nil).mpr p.startsTight_argument

/-- An argument and the keyword after it end tight. -/
theorem endsTight_piece : EndsTight (p.argument ++ ' ' :: q.keyword) := by
  have hkeyword := isWord_of_isIdentifier q.isIdentifier_keyword
  rw [← List.singleton_append, ← List.append_assoc, endsTight_append hkeyword.1]
  exact hkeyword.endsTight

/-- **The text is cut at the colons between the parts.** -/
theorem split_body (p : MethodPart) (more : List MethodPart) :
    selectorColon.split (body p more) = pieces p more := by
  induction more generalizing p with
  | nil => exact split_selectorColon_of_not_mem p.colon_not_mem_argument
  | cons q more ih =>
    have hcolon : ':' ∉ p.argument ++ ' ' :: q.keyword := by
      intro hmem
      rcases List.mem_append.mp hmem with hmem | hmem
      · exact p.colon_not_mem_argument hmem
      · refine not_mem_of_isIdentifier q.isIdentifier_keyword (c := ':') rfl ?_
        exact (List.mem_cons.mp hmem).resolve_left (by decide)
    rw [body, split_selectorColon_cons hcolon endsTight_piece (startsTight_body q more), ih, pieces]

/-- **Each piece is cut before the keyword of the next part.** -/
theorem selectorParts_pieces (p : MethodPart) (more : List MethodPart) :
    selectorParts (pieces p more) =
      (':' :: more.flatMap MethodPart.label, (p :: more).map MethodPart.argument) := by
  induction more generalizing p with
  | nil =>
    rw [pieces, selectorParts, trim_of_tight p.startsTight_argument p.endsTight_argument]
    rfl
  | cons q more ih =>
    have hpieces : pieces q more ≠ [] := by cases more <;> exact List.cons_ne_nil _ _
    obtain ⟨piece, others, hcons⟩ := List.exists_cons_of_ne_nil hpieces
    -- The type may hold blanks, but the last one stands before the keyword.
    have hcut : splitLast? isBlank (p.argument ++ ' ' :: q.keyword) =
        some (p.argument, q.keyword) :=
      splitLast?_append_cons (by decide) (isWord_of_isIdentifier q.isIdentifier_keyword).2 _
    have hrest := ih q
    rw [pieces, hcons]
    rw [hcons] at hrest
    simp only [selectorParts, trim_of_tight startsTight_piece endsTight_piece, hcut, hrest,
      trim_of_tight p.startsTight_argument p.endsTight_argument]
    simp [MethodPart.label]

/-- **The selector and the arguments are sorted out.** -/
theorem selector_body (p : MethodPart) (more : List MethodPart) :
    selector p.keyword (body p more) =
      ((p :: more).flatMap MethodPart.label, (p :: more).map MethodPart.argument) := by
  rw [selector, trim_of_tight (startsTight_body p more) (endsTight_body p more), split_body,
    selectorParts_pieces]
  simp [MethodPart.label]

end Cuts

/-! ## The arguments -/

section Arguments

variable {p : MethodPart} {parts : List MethodPart}

/-- An argument is told into its type and its name. -/
theorem MethodPart.parenthesized?_argument (p : MethodPart) :
    parenthesized? p.argument = some (p.type, p.name) := by
  have hopen : splitFirst? '(' ([] ++ '(' :: (p.type ++ ')' :: p.name)) =
      some ([], p.type ++ ')' :: p.name) := splitFirst?_append_cons List.not_mem_nil _
  have hclose : splitLast? (· == ')') (p.type ++ ')' :: p.name) = some (p.type, p.name) := by
    apply splitLast?_append_cons (k := (· == ')')) (by decide)
    intro c hc
    exact beq_eq_false_iff_ne.mpr fun heq =>
      not_mem_of_isIdentifier p.isIdentifier_name (c := ')') rfl (heq ▸ hc)
  change (splitFirst? '(' ([] ++ '(' :: (p.type ++ ')' :: p.name))).bind _ = _
  rw [hopen]
  exact hclose

/-- **An argument is taken apart at the parentheses around its type.** -/
theorem argument_argument (p : MethodPart) : ObjectiveC.argument p.argument = p.described := by
  have hword := isWord_of_isIdentifier p.isIdentifier_name
  have hname := trim_of_tight hword.startsTight hword.endsTight
  have hmarks : p.type.filter (· == '*') = List.replicate (p.type.count '*') '*' :=
    List.filter_beq '*'
  rw [ObjectiveC.argument, trim_of_tight p.startsTight_argument p.endsTight_argument]
  simp only [p.parenthesized?_argument, hname, pointerType, hmarks,
    compact_of_forall_not_blank not_blank_of_mem_marks, MethodPart.described, starred]

/-- No argument goes over a line. -/
theorem MethodPart.oneLine_argument : OneLine p.argument := fun hmem =>
  p.forall_mem_argument (P := (· ≠ '\n')) (by decide) (by decide) (fun _ hc => ne_of_class hc rfl)
    (fun _ hc => ne_of_class hc rfl) '\n' hmem rfl

/-- No argument is dropped as empty. -/
theorem filter_arguments (parts : List MethodPart) :
    ((parts.map MethodPart.argument).filter fun arg => !arg.isEmpty) =
      parts.map MethodPart.argument := by
  rw [List.filter_eq_self]
  intro arg harg
  obtain ⟨p, -, rfl⟩ := List.mem_map.mp harg
  rfl

/-- Joined to lines and cut again, the arguments are the same. -/
theorem lines_unlines_arguments (hparts : parts ≠ []) :
    lines (unlines (parts.map MethodPart.argument)) = parts.map MethodPart.argument := by
  have hrejoins : Rejoins false (parts.map MethodPart.argument) := by
    apply rejoins_of_endsTight (mt List.map_eq_nil_iff.mp hparts)
    intro l hl
    obtain ⟨p, -, rfl⟩ := List.mem_map.mp hl
    exact ⟨p.argument_ne_nil, p.endsTight_argument, p.oneLine_argument⟩
  have hlines := hrejoins.lines_unlines
  rwa [lineFeed, if_neg Bool.false_ne_true, List.append_nil] at hlines

/-- **The arguments are read back line by line.** -/
theorem arguments_unlines (hparts : parts ≠ []) :
    arguments (unlines (parts.map MethodPart.argument)) = parts.map MethodPart.described := by
  have hhead : (trimStart (unlines (parts.map MethodPart.argument))).head? = some '(' := by
    obtain ⟨p, more, rfl⟩ := List.exists_cons_of_ne_nil hparts
    obtain ⟨t, ht⟩ := isPrefix_unlines p.argument (more.map MethodPart.argument)
    rw [List.map_cons, ← ht,
      trimStart_of_startsTight ((startsTight_append p.argument_ne_nil).mpr p.startsTight_argument)]
    rfl
  have htrim : (parts.map MethodPart.argument).map trim = parts.map MethodPart.argument := by
    rw [List.map_map]
    exact List.map_congr_left fun p _ => trim_of_tight p.startsTight_argument p.endsTight_argument
  rw [arguments, hhead, if_pos (by simp), lines_unlines_arguments hparts, htrim, filter_arguments,
    List.map_map]
  exact List.map_congr_left fun p _ => argument_argument p

end Arguments

/-! ## The line -/

section Line

variable {base keyword args r : Text}

/-- A type that is an identifier with pointer marks is covered with all of them. -/
theorem covers_result (hbase : isIdentifier base = true) (stars : Nat) {last : Option Char} :
    Covers (dollarName ++ blanks ++ star (lit "*")) last (starred base stars) (')' :: r) [] := by
  obtain ⟨c, u, rfl, hc, hu⟩ := exists_cons_of_isIdentifier hbase
  have hmarks : ∀ d ∈ (List.replicate stars '*' ++ ')' :: r).head?, d = '*' ∨ d = ')' := by
    cases stars <;> simp [List.replicate_succ, eq_comm]
  have htight : StartsTight (List.replicate stars '*' ++ ')' :: r) := by
    intro d hd
    rcases hmarks d hd with rfl | rfl <;> decide
  have hname : Covers dollarName last (c :: u) (List.replicate stars '*' ++ ')' :: r) [] := by
    apply covers_identifier hc hu
    intro d hd
    rcases hmarks d hd with rfl | rfl <;> decide
  exact (hname.append_blanks htight).append fun _ => covers_replicate stars (by simp)

/-- The sign of the method and the parenthesis before its type. -/
theorem covers_opening {t : Text} (ht : StartsTight t) :
    Covers (start ++ blanks ++ oneOf "-+" ++ blanks ++ lit "(" ++ blanks) none ['-', ' ', '('] t
      [] := by
  have hstart : Covers (start ++ blanks) none [] ('-' :: ' ' :: '(' :: t) [] :=
    covers_start.append_blanks (startsTight_cons.mpr (by decide))
  have hsign : Covers (start ++ blanks ++ oneOf "-+") none ['-'] (' ' :: '(' :: t) [] :=
    hstart.append (u := ['-']) fun _ => covers_one (by decide)
  have hgap : Covers (start ++ blanks ++ oneOf "-+" ++ blanks) none ['-', ' '] ('(' :: t) [] :=
    hsign.append (u := [' ']) fun _ =>
      covers_blanks (by decide) (startsTight_cons.mpr (by decide))
  exact (hgap.append_lit (u := ['('])).append_blanks ht

/-- **The line of a method is covered up to the brace**, and its result, the first keyword and all
that follows are told apart. -/
theorem covers_methodPattern (hbase : isIdentifier base = true) (stars : Nat)
    (hkeyword : isIdentifier keyword = true) (hargs : ∀ c ∈ args, c ≠ '\x7b' ∧ c ≠ ';') :
    Covers methodPattern none
      (['-', ' ', '('] ++ starred base stars ++ [')'] ++ keyword ++ ':' :: args)
      ('\x7b' :: r)
      [(.parameters, args), (.name, keyword), (.result, starred base stars)] := by
  obtain ⟨c, u, rfl, hc, hu⟩ := exists_cons_of_isIdentifier hkeyword
  have hresult : ∀ mid, Covers (group .result (dollarName ++ blanks ++ star (lit "*"))) mid
      (starred base stars) (')' :: (c :: u ++ (':' :: args ++ '\x7b' :: r)))
      [(.result, starred base stars)] := fun _ =>
    (covers_result hbase stars).group .result
  have hcolon : ∀ d ∈ (':' :: args ++ '\x7b' :: r).head?, isDollarChar d = false := by
    rintro d ⟨⟩
    rfl
  have hname : ∀ mid, Covers (group .name dollarName) mid (c :: u) (':' :: args ++ '\x7b' :: r)
      [(.name, c :: u)] := fun _ => (covers_identifier hc hu hcolon).group .name
  have htail : ∀ mid, Covers (opt (lit ":" ++ group .parameters (star (noneOf "\x7b;")))) mid
      (':' :: args) ('\x7b' :: r) [(.parameters, args)] := fun _ => by
    have hrun : ∀ mid, Covers (star (noneOf "\x7b;")) mid args ('\x7b' :: r) [] := fun _ =>
      covers_run (by simpa using hargs) (by simp)
    exact ((covers_lit [':']).append fun mid => (hrun mid).group .parameters).left
  have htype := isWord_starred hbase stars
  have hstart : StartsTight (starred base stars ++
      ')' :: (c :: u ++ (':' :: args ++ '\x7b' :: r))) :=
    (startsTight_append htype.1).mpr htype.startsTight
  have hkeywordtight : StartsTight (c :: u ++ (':' :: args ++ '\x7b' :: r)) :=
    startsTight_cons.mpr (isBlank_eq_false_of_isDollarChar (isDollarChar_of_isDollarStart hc))
  -- Only the opening holds blanks; wherever else the pattern allows them there are none.
  have hopened := (covers_opening hstart).append hresult
  have hclosed : Covers _ none _ (c :: u ++ (':' :: args ++ '\x7b' :: r)) _ :=
    (hopened.append_blanks (startsTight_cons.mpr (by decide))).append_lit (u := [')'])
  have hnamed := (hclosed.append_blanks hkeywordtight).append hname
  exact (hnamed.append_blanks (startsTight_cons.mpr (by decide))).append htail

/-- No class is recognised in the line of a method. -/
theorem classLike_methodLine (result : Text) (parts : List MethodPart) :
    classLike (methodLine result parts) = none := by
  have hfind : classPattern.find (methodLine result parts) = none :=
    find_eq_none_of_anchored rfl (by decide) (by decide)
  rw [classLike, hfind]
  rfl

/-- The selector of a method is not the name of a statement. -/
theorem isStatement_eq_false (p : MethodPart) (more : List MethodPart) :
    isStatement ((p :: more).flatMap MethodPart.label) = false := by
  have hwords : ∀ word ∈ statementWords, ':' ∉ word := by decide
  have hcolon : ':' ∈ (p :: more).flatMap MethodPart.label := by simp [MethodPart.label]
  rw [isStatement, ← Bool.not_eq_true, List.contains_iff_mem]
  exact fun hmem => hwords _ hmem hcolon

/-- The characters behind the first colon do not end the line. -/
theorem forall_mem_args (p : MethodPart) (more : List MethodPart) :
    ∀ c ∈ body p more ++ [' '], c ≠ '\x7b' ∧ c ≠ ';' := by
  intro c hc
  rcases List.mem_append.mp hc with hc | hc
  · exact forall_mem_body (P := fun c => c ≠ '\x7b' ∧ c ≠ ';') (by simp)
      (fun c hc => ⟨ne_of_class hc rfl, ne_of_class hc rfl⟩)
      (fun c hc => ⟨ne_of_class hc rfl, ne_of_class hc rfl⟩) p more c hc
  · obtain rfl := List.mem_singleton.mp hc
    decide

/-- A method matched with these captures has all its keywords for a name, and all its arguments. -/
theorem methodOf_eq (hbase : isIdentifier base = true) (stars : Nat) {p : MethodPart}
    {more : List MethodPart} {m : Match} (hm : m.parts = [(.parameters, body p more ++ [' ']),
      (.name, p.keyword), (.result, starred base stars)]) :
    methodOf m = .callable {
      name := (p :: more).flatMap MethodPart.label
      rawArgs := some (unlines ((p :: more).map MethodPart.argument))
      returnType := some (starred base stars) } := by
  have htrimmed : m.trimmed? .parameters = some (body p more) := by
    obtain ⟨t, ht⟩ := body_eq_cons p more
    rw [Match.trimmed?, Match.get?, hm]
    change nonempty? (trim (body p more ++ [' '])) = _
    rw [trim_append_blanks (by decide),
      trim_of_tight (startsTight_body p more) (endsTight_body p more), ht]
    rfl
  have hname : m.get .name = p.keyword := by
    rw [Match.get, Match.get?, hm]
    rfl
  have hresult : m.get .result = starred base stars := by
    rw [Match.get, Match.get?, hm]
    rfl
  simp only [methodOf, htrimmed, hname, hresult, selector_body, filter_arguments,
    compact_of_forall_not_blank (isWord_starred hbase stars).2]
  rfl

/-- The line of a method is matched, and its captures are the type, the first keyword and what is
behind. -/
theorem callable_methodLine (hbase : isIdentifier base = true) (stars : Nat) (p : MethodPart)
    (more : List MethodPart) :
    callable (methodLine (starred base stars) (p :: more)) =
      some (.callable {
        name := (p :: more).flatMap MethodPart.label
        rawArgs := some (unlines ((p :: more).map MethodPart.argument))
        returnType := some (starred base stars) }) := by
  have hline : methodLine (starred base stars) (p :: more) =
      ['-', ' ', '('] ++ starred base stars ++ [')'] ++ p.keyword ++
        ':' :: (body p more ++ [' ']) ++ ['\x7b'] := by
    rw [methodLine, unwords_written]
    simp
  have hfind := (covers_methodPattern (r := []) hbase stars p.isIdentifier_keyword
    (forall_mem_args p more)).find_eq
  rw [callable, hline, hfind]
  exact congrArg some (methodOf_eq hbase stars rfl)

/-- **A method is read as it was written.**  Its selector is made of the keywords, and the arguments
come back one by one, each with its name and its type, the pointer marks behind all the rest. -/
theorem declaration_methodLine (hbase : isIdentifier base = true) (stars : Nat)
    {parts : List MethodPart} (hparts : parts ≠ []) :
    objectiveC.declaration (methodLine (starred base stars) parts) =
        some (.callable {
          name := parts.flatMap MethodPart.label
          rawArgs := some (unlines (parts.map MethodPart.argument))
          returnType := some (starred base stars) }) ∧
      objectiveC.arguments (unlines (parts.map MethodPart.argument)) =
        parts.map MethodPart.described := by
  refine ⟨?_, arguments_unlines hparts⟩
  obtain ⟨p, more, rfl⟩ := List.exists_cons_of_ne_nil hparts
  have hclass : objectiveC.classLike (methodLine (starred base stars) (p :: more)) = none :=
    classLike_methodLine _ _
  have hcallable : objectiveC.callable _ = _ := callable_methodLine hbase stars p more
  rw [declaration, hclass, hcallable]
  exact Option.filter_eq_some_iff.mpr ⟨rfl, by
    rw [Bool.not_eq_true']
    exact isStatement_eq_false p more⟩

/-- A keyword with a plain argument and one whose type has marks in several places. -/
def setNameParts : List MethodPart :=
  [⟨"setName".toList, "NSString *".toList, "name".toList, by decide, by decide, by decide⟩,
    ⟨"forKeys".toList, " id * const *".toList, "keys".toList, by decide, by decide, by decide⟩]

theorem declaration_methodLine_setName :
    isIdentifier "id".toList = true ∧ setNameParts ≠ [] ∧
      objectiveC.declaration
          "- (id*)setName:(NSString *)name forKeys:( id * const *)keys \x7b".toList =
        some (.callable {
          name := "setName:forKeys:".toList
          rawArgs := some "(NSString *)name\n( id * const *)keys".toList
          returnType := some "id*".toList }) ∧
      objectiveC.arguments "(NSString *)name\n( id * const *)keys".toList =
        [{ name := "name".toList, type := some "NSString*".toList },
          { name := "keys".toList, type := some "id  const**".toList }] := by
  have hbase : isIdentifier "id".toList = true := by decide
  have hparts : setNameParts ≠ [] := List.cons_ne_nil _ _
  have hline : methodLine (starred "id".toList 1) setNameParts =
      "- (id*)setName:(NSString *)name forKeys:( id * const *)keys \x7b".toList := by decide
  have hraw : unlines (setNameParts.map MethodPart.argument) =
      "(NSString *)name\n( id * const *)keys".toList := by decide
  have hmethod := declaration_methodLine hbase 1 hparts
  rw [hline, hraw] at hmethod
  exact ⟨hbase, hparts, hmethod⟩

end Line

end DocComment.Grammar.ObjectiveC
