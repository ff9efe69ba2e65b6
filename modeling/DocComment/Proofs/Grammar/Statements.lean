import DocComment.Grammar
import DocComment.Proofs.Fallback
import DocComment.Proofs.Pattern.Preferred
import DocComment.Proofs.Pattern.Residuals
import DocComment.Proofs.Text.Occurrence
import Mathlib.Data.List.Infix

/-!
# Control-flow headers

`if (x > 0)` looks like the call of a function named `if`, and `while (i = next)` holds something
that looks like an assignment.  A grammar refuses a declaration by its name only, after the first
recogniser has decided, so whether a header counts as a declaration depends on every pattern of the
language.  There are three ways for a pattern to do no harm.

* It is tied to the beginning of the text, and the word with the parenthesis after it cannot begin a
  match (`find_tied_header`).
* It cannot match behind the parenthesis, because it needs a parenthesis or a brace of its own.
* It takes the word for the name, whatever the condition is (`exists_find_header`), and the name is
  refused.

The pattern for the assignments of JavaScript does none of these: assignments are looked for
everywhere in the text, and the name that is found stands in the condition
(`map_findFrom_bindingPattern`).
-/

namespace DocComment.Grammar

open Pattern

/-! ## Headers -/

/-- A statement word with the parenthesis that opens its condition. -/
def opening (word : Text) : Text := word ++ [' ', '(']

/-- The header of a control-flow statement. -/
def header (word condition : Text) : Text := opening word ++ (condition ++ [')'])

/-- The characters of a plain condition: no quotes, parentheses, brackets, braces or line feeds. -/
def isConditionChar (c : Char) : Bool := !"'\"()[]\x7b\x7d\n".toList.contains c

/-- The statement words are recognised as such. -/
theorem isStatement_of_mem {word : Text} (h : word ∈ statementWords) : isStatement word = true :=
  List.contains_iff_mem.mpr h

/-- The statement words, for the patterns that have to be tried on each of them. -/
theorem forall_statementWords {P : Text → Prop} (hfor : P ['f', 'o', 'r'])
    (hforeach : P ['f', 'o', 'r', 'e', 'a', 'c', 'h']) (hif : P ['i', 'f'])
    (hswitch : P ['s', 'w', 'i', 't', 'c', 'h']) (hwhile : P ['w', 'h', 'i', 'l', 'e'])
    (hcatch : P ['c', 'a', 't', 'c', 'h']) (helseif : P ['e', 'l', 's', 'e', 'i', 'f']) :
    ∀ word ∈ statementWords, P word := by
  simpa [statementWords] using ⟨hfor, hforeach, hif, hswitch, hwhile, hcatch, helseif⟩

/-- The patterns of a language that are tied to the beginning and that no header begins. -/
def tiedPatterns : Language → List Pattern
  | .javascript => [JavaScript.classPattern, JavaScript.functionPattern, JavaScript.arrowPattern]
  | .typescript => [TypeScript.classPattern, TypeScript.arrowPattern]
  | .php => [Php.classPattern, Php.functionPattern]
  | .java => [Java.classPattern]
  | .cpp => [Cpp.classPattern, Cpp.bindingPattern]
  | .objc =>
    [ObjectiveC.classPattern, ObjectiveC.methodPattern, ObjectiveC.functionPattern,
      ObjectiveC.propertyPattern]
  | .rust => [Rust.classPattern, Rust.functionPattern, Rust.bindingPattern]
  | .ruby => [Ruby.classPattern, Ruby.methodPattern, Ruby.bindingPattern]
  | .swift => [Swift.classPattern, Swift.bindingPattern]

/-- The anchored patterns of a language that are tied to their first words reject all headers. -/
theorem rejects_opening (language : Language) : ∀ p ∈ tiedPatterns language,
    p.anchored = true ∧ ∀ word ∈ statementWords, p.rejects (opening word) = true := by
  cases language <;> decide +kernel

/-- **A pattern tied to the beginning** is not found in a header. -/
theorem find_tied_header (language : Language) {word : Text} (hword : word ∈ statementWords)
    (condition : Text) :
    (tiedPatterns language).Forall fun p => p.find (header word condition) = none := by
  rw [List.forall_iff_forall_mem]
  intro p hp
  obtain ⟨hanchored, hrejects⟩ := rejects_opening language p hp
  exact find_eq_none_of_rejects hanchored (hrejects word hword)

/-- The preferred match at a statement word stops at the parenthesis and names nothing but the
word. -/
def TakesWord (p : Pattern) : Prop :=
  ∀ word ∈ statementWords, ∀ rest, ∃ mid, p.at? none (opening word ++ rest) = some mid ∧
    mid.rest = '(' :: rest ∧ mid.parts = [(.name, word)]

/-- The patterns for the functions of TypeScript, Java and C++ take the word. -/
theorem takesWord_leading : TakesWord (TypeScript.functionPattern.leading 3) ∧
    TakesWord (Java.methodPattern.leading 3) ∧ TakesWord (Cpp.functionPattern.leading 1) := by
  refine ⟨?_, ?_, ?_⟩ <;> apply forall_statementWords <;> intro rest <;>
    exact ⟨_, rfl, rfl, by simp [Cursor.passed, Cursor.record, opening]⟩

section Search

variable {p : Pattern} {word condition : Text}

/-- A pattern whose leading parts take the statement word for the name, and whose other parts match
a parameter list, finds a header and names it by the word. -/
theorem exists_find_header {n : Nat} (hleading : TakesWord (p.leading n))
    (hgroups : (p.trailing n).groups .name = []) (hfree : (p.trailing n).contextFree = true)
    (hdescribes : ∀ t, parameterList.Describes t → (p.trailing n).Describes t)
    (hword : word ∈ statementWords) (hcondition : ∀ c ∈ condition, isConditionChar c = true) :
    ∃ m, p.find (header word condition) = some m ∧ m.get .name = word := by
  obtain ⟨mid, hmid, hrest, hparts⟩ := hleading word hword (condition ++ [')'])
  have hplain : ∀ c ∈ condition, c ≠ '(' ∧ c ≠ ')' := fun c hc =>
    ⟨Text.ne_of_class (hcondition c hc) rfl, Text.ne_of_class (hcondition c hc) rfl⟩
  obtain ⟨later, hlater, -⟩ := exists_mem_ends_of_describes _ hfree
    (hdescribes _ (describes_parameterList hplain)) (hrest.trans (List.append_nil _).symm)
  exact exists_find_of_leading hmid hparts hgroups (List.ne_nil_of_mem hlater)

end Search

/-! ## Languages that declare nothing -/

/-- No declaration is left if no class is recognised and the callable, or else the binding, has the
name of a statement. -/
theorem declaration_eq_none_of_isStatement {g : Grammar} {t : Text} (hclass : g.classLike t = none)
    (hcallable : ∀ d ∈ g.callable t, isStatement d.name = true)
    (hbinding : g.callable t = none → ∀ d ∈ g.binding t, isStatement d.name = true) :
    g.declaration t = none := by
  rw [declaration, hclass, Option.filter_eq_none_iff]
  intro d hd
  cases hfound : g.callable t with
  | none =>
    rw [hfound] at hd
    simpa using hbinding hfound d hd
  | some found =>
    rw [hfound] at hd
    obtain rfl : found = d := Option.some.inj hd
    simpa using hcallable found hfound

/-- What is read off a match that the word names has the name of a statement. -/
theorem isStatement_name_of_read {word : Text} {found : Option Match} {m : Match}
    {read : Match → Option Declaration} (hm : found = some m) (hname : m.get .name = word)
    (hword : word ∈ statementWords) (hread : ∀ d ∈ read m, d.name = m.get .name) :
    ∀ d ∈ found.bind read, isStatement d.name = true := by
  intro d hd
  obtain ⟨m', hm', hd⟩ := Option.bind_eq_some_iff.mp hd
  obtain rfl : m = m' := Option.some.inj (hm.symm.trans hm')
  rw [hread d hd, hname]
  exact isStatement_of_mem hword

/-- A parameter list may be followed by something that can be left out. -/
theorem describes_parameterList_append_opt {t : Text} (r : Pattern)
    (ht : parameterList.Describes t) : (empty ++ parameterList ++ blanks ++ opt r).Describes t :=
  describes_append_of_nil
    (describes_append_of_nil ⟨[], t, rfl, ht, rfl⟩ ⟨[], nofun, rfl⟩) (Or.inr rfl)

section Languages

variable {word condition : Text}

/-- Ruby reads no declaration in the header of a statement. -/
theorem ruby_declaration_header (hword : word ∈ statementWords) :
    ruby.declaration (header word condition) = none := by
  obtain ⟨hclass, hmethod, hbinding⟩ := find_tied_header .ruby hword condition
  exact declaration_eq_none (Option.map_eq_none_iff.mpr hclass)
    (Option.map_eq_none_iff.mpr hmethod) (Option.map_eq_none_iff.mpr hbinding)

/-- Rust reads no declaration in the header of a statement. -/
theorem rust_declaration_header (hword : word ∈ statementWords) :
    rust.declaration (header word condition) = none := by
  obtain ⟨hclass, hfunction, hbinding⟩ := find_tied_header .rust hword condition
  exact declaration_eq_none (Option.map_eq_none_iff.mpr hclass)
    (Option.map_eq_none_iff.mpr hfunction) (Option.map_eq_none_iff.mpr hbinding)

/-- Objective-C reads no declaration in the header of a statement. -/
theorem objectiveC_declaration_header (hword : word ∈ statementWords) :
    objectiveC.declaration (header word condition) = none := by
  obtain ⟨hclass, hmethod, hfunction, hproperty⟩ := find_tied_header .objc hword condition
  have hcallable : ObjectiveC.callable (header word condition) = none := by
    rw [ObjectiveC.callable, hmethod, hfunction]
    rfl
  exact declaration_eq_none (Option.map_eq_none_iff.mpr hclass) hcallable
    (Option.map_eq_none_iff.mpr hproperty)

/-- A parameter list has its parenthesis. -/
theorem meets_parameterList : parameterList.Meets (· == '(') :=
  Or.inl (Or.inl (Or.inl ⟨'(', List.mem_singleton.mpr rfl, rfl⟩))

/-- A function of Swift may begin anywhere, but there is no second parenthesis. -/
theorem find_functionPattern_header (hword : word ∈ statementWords)
    (hcondition : ∀ c ∈ condition, isConditionChar c = true) :
    Swift.functionPattern.find (header word condition) = none := by
  have hrejects : ∀ word ∈ statementWords, ∀ w ∈ (opening word).tails,
      w ≠ [] → Swift.functionPattern.rejects w = true := by decide +kernel
  have hmeets : Swift.functionPattern.Meets (· == '(') :=
    Or.inl (Or.inl (Or.inl (Or.inl (Or.inr meets_parameterList))))
  have hclosed : ∀ c ∈ condition ++ [')'], (c == '(') = false := by
    intro c hc
    rcases List.mem_append.mp hc with hc | hc
    · exact beq_eq_false_iff_ne.mpr (Text.ne_of_class (hcondition c hc) rfl)
    · rw [List.mem_singleton.mp hc]
      rfl
  apply findFrom_append_eq_none
  · intro w hne hsuffix
    exact hrejects word hword w ((List.mem_tails w _).mpr hsuffix) hne
  · exact fun last => findFrom_eq_none_of_meets hmeets hclosed

/-- Swift finds no function in the header of a statement, and reads nothing else there. -/
theorem swift_declaration_header (hword : word ∈ statementWords)
    (hcondition : ∀ c ∈ condition, isConditionChar c = true) :
    swift.declaration (header word condition) = none := by
  obtain ⟨hclass, hbinding⟩ := find_tied_header .swift hword condition
  exact declaration_eq_none (Option.map_eq_none_iff.mpr hclass)
    (Option.map_eq_none_iff.mpr (find_functionPattern_header hword hcondition))
    (Option.map_eq_none_iff.mpr hbinding)

/-- TypeScript takes a header for a function and drops it for its name. -/
theorem typeScript_declaration_header (hword : word ∈ statementWords)
    (hcondition : ∀ c ∈ condition, isConditionChar c = true) :
    typeScript.declaration (header word condition) = none := by
  obtain ⟨hclass, harrow⟩ := find_tied_header .typescript hword condition
  obtain ⟨m, hm, hname⟩ := exists_find_header takesWord_leading.1 rfl rfl
    (fun _ => describes_parameterList_append_opt _) hword hcondition
  apply declaration_eq_none_of_isStatement
  · exact Option.map_eq_none_iff.mpr hclass
  · intro d hd
    obtain ⟨m', hm', rfl⟩ := Option.map_eq_some_iff.mp hd
    rw [harrow, hm] at hm'
    obtain rfl : m = m' := Option.some.inj hm'
    exact hname ▸ isStatement_of_mem hword
  · intro hnone
    have hfound := Option.map_eq_none_iff.mp hnone
    rw [harrow, hm] at hfound
    cases hfound

/-- Java takes a header for a method and drops it for its name. -/
theorem java_declaration_header (hword : word ∈ statementWords)
    (hcondition : ∀ c ∈ condition, isConditionChar c = true) :
    java.declaration (header word condition) = none := by
  have hclass := find_tied_header .java hword condition
  obtain ⟨m, hm, hname⟩ := exists_find_header takesWord_leading.2.1 rfl rfl
    (fun _ => describes_parameterList_append_opt _) hword hcondition
  apply declaration_eq_none_of_isStatement
  · exact Option.map_eq_none_iff.mpr hclass
  · refine isStatement_name_of_read hm hname hword fun d hd => ?_
    simp only at hd
    split at hd
    · cases hd
    · exact Option.some.inj hd ▸ rfl
  · intro _ d hd
    cases hd

/-- C++ takes a header for a function and drops it for its name. -/
theorem cpp_declaration_header (hword : word ∈ statementWords)
    (hcondition : ∀ c ∈ condition, isConditionChar c = true) :
    cpp.declaration (header word condition) = none := by
  obtain ⟨hclass, hbinding⟩ := find_tied_header .cpp hword condition
  obtain ⟨m, hm, hname⟩ := exists_find_header takesWord_leading.2.2 rfl rfl
    (fun t ht => ⟨[], t, rfl, ht, rfl⟩) hword hcondition
  apply declaration_eq_none_of_isStatement
  · exact Option.map_eq_none_iff.mpr hclass
  · refine isStatement_name_of_read hm hname hword fun d hd => ?_
    simp only at hd
    split at hd
    · cases hd
    · exact Option.some.inj hd ▸ rfl
  · intro _ d hd
    obtain ⟨m', hm', -⟩ := Option.bind_eq_some_iff.mp hd
    rw [hbinding] at hm'
    cases hm'

/-- PHP takes the word for a variable without a value. -/
theorem php_declaration_header (hword : word ∈ statementWords) :
    php.declaration (header word condition) = none := by
  obtain ⟨hclass, hfunction⟩ := find_tied_header .php hword condition
  have hleading : ∀ word ∈ statementWords, ∀ rest, ∃ mid,
      (Php.bindingPattern.leading 1).at? none (opening word ++ rest) = some mid ∧
        mid.parts = [(.name, word)] := by
    apply forall_statementWords <;> intro rest <;>
      exact ⟨_, rfl, by simp [Cursor.passed, Cursor.record, opening]⟩
  obtain ⟨mid, hmid, hparts⟩ := hleading word hword (condition ++ [')'])
  -- The value can be left out.
  have hends : mid ∈ (Php.bindingPattern.trailing 1).ends mid :=
    List.mem_flatMap.mpr ⟨mid, List.mem_singleton.mpr rfl,
      List.mem_append_right _ (List.mem_singleton.mpr rfl)⟩
  obtain ⟨m, hm, hname⟩ := exists_find_of_leading hmid hparts rfl (List.ne_nil_of_mem hends)
  apply declaration_eq_none_of_isStatement
  · exact Option.map_eq_none_iff.mpr hclass
  · intro d hd
    obtain ⟨m', hm', -⟩ := Option.map_eq_some_iff.mp hd
    rw [hfunction] at hm'
    cases hm'
  · intro _
    refine isStatement_name_of_read hm hname hword fun d hd => ?_
    split at hd
    · cases hd
    · exact Option.some.inj hd ▸ rfl

end Languages

/-! ## Assignments of JavaScript -/

/-- Whether a text begins with a name that an equals sign or a colon follows. -/
def assignsHere (t : Text) : Bool :=
  t.head?.any isDollarStart &&
    ((t.dropWhile isDollarChar).dropWhile isBlank).head?.any (['=', ':'].contains ·)

/-- The first name of a text that an equals sign or a colon follows. -/
def assigned? : Text → Option Text
  | [] => none
  | c :: t =>
    if assignsHere (c :: t) then some ((c :: t).takeWhile isDollarChar) else assigned? t

section Assigned

variable {name gap t : Text} {sign : Char}

/-- Where an assignment starts, its identifier is what is assigned. -/
theorem assigned?_of_assignsHere (h : assignsHere t = true) :
    assigned? t = some (t.takeWhile isDollarChar) := by
  cases t with
  | nil => cases h
  | cons c t => rw [assigned?, if_pos h]

/-- A blank ends an identifier. -/
theorem not_isDollarChar_of_isBlank {c : Char} (h : isBlank c = true) : isDollarChar c = false := by
  cases hc : isDollarChar c with
  | false => rfl
  | true =>
    rw [isBlank_eq_false_of_isDollarChar hc] at h
    cases h

/-- The classes of the pattern exclude each other, so there is one way to take an assignment
apart. -/
theorem dropWhile_gap (hgap : blanks.Describes gap) (hsign : ['=', ':'].contains sign = true)
    (rest : Text) :
    (gap ++ sign :: rest).takeWhile isDollarChar = [] ∧
      (gap ++ sign :: rest).dropWhile isDollarChar = gap ++ sign :: rest ∧
      (gap ++ sign :: rest).dropWhile isBlank = sign :: rest := by
  have hblank : ∀ c ∈ gap, isBlank c = true := hgap.forall_mem fun _ => id
  have hplain : isDollarChar sign = false ∧ isBlank sign = false := by
    rcases (by simpa using hsign : sign = '=' ∨ sign = ':') with rfl | rfl
    · decide
    · decide
  have hhead : ∃ c more, gap ++ sign :: rest = c :: more ∧ isDollarChar c = false := by
    cases gap with
    | nil => exact ⟨sign, rest, rfl, hplain.1⟩
    | cons c more => exact ⟨c, _, rfl, not_isDollarChar_of_isBlank (hblank c List.mem_cons_self)⟩
  refine ⟨?_, ?_, ?_⟩
  · obtain ⟨c, more, heq, hc⟩ := hhead
    rw [heq, List.takeWhile_cons_of_neg (by simp [hc])]
  · obtain ⟨c, more, heq, hc⟩ := hhead
    rw [heq, List.dropWhile_cons_of_neg (by simp [hc])]
  · rw [List.dropWhile_append_of_pos hblank, List.dropWhile_cons_of_neg (by simp [hplain.2])]

/-- A name, a gap and a sign are an assignment of this name. -/
theorem assignsHere_of_describes (hname : dollarName.Describes name) (hgap : blanks.Describes gap)
    (hsign : ['=', ':'].contains sign = true) (rest : Text) :
    assignsHere (name ++ (gap ++ sign :: rest)) = true ∧
      (name ++ (gap ++ sign :: rest)).takeWhile isDollarChar = name := by
  obtain ⟨htake, hdrop, hsigned⟩ := dropWhile_gap hgap hsign rest
  have hall : ∀ c ∈ name, isDollarChar c = true :=
    hname.forall_mem (within_dollarName fun _ => id)
  constructor
  · obtain ⟨_, more, ⟨c, hc, rfl⟩, -, rfl⟩ := hname
    rw [assignsHere, List.dropWhile_append_of_pos hall, hdrop, hsigned]
    simpa [hc] using hsign
  · rw [List.takeWhile_append_of_pos hall, htake, List.append_nil]

/-- An assignment is a name, a gap and a sign. -/
theorem exists_of_assignsHere (h : assignsHere t = true) :
    ∃ gap sign rest, dollarName.Describes (t.takeWhile isDollarChar) ∧ blanks.Describes gap ∧
      ['=', ':'].contains sign = true ∧ t = t.takeWhile isDollarChar ++ (gap ++ sign :: rest) := by
  rw [assignsHere, Bool.and_eq_true, Option.any_eq_true, Option.any_eq_true] at h
  obtain ⟨⟨c, hc, hstart⟩, sign, hsign, hmem⟩ := h
  obtain ⟨rest, hrest⟩ := List.head?_eq_some_iff.mp hsign
  refine ⟨(t.dropWhile isDollarChar).takeWhile isBlank, sign, rest, ?_, ?_, hmem, ?_⟩
  · obtain ⟨more, rfl⟩ := List.head?_eq_some_iff.mp hc
    rw [List.takeWhile_cons_of_pos (isDollarChar_of_isDollarStart hstart)]
    refine ⟨[c], _, ⟨c, hstart, rfl⟩, describes_star_one fun d hd => ?_, rfl⟩
    exact List.mem_takeWhile_imp hd
  · exact describes_star_one fun d hd => List.mem_takeWhile_imp hd
  · rw [← hrest, List.takeWhile_append_dropWhile, List.takeWhile_append_dropWhile]

end Assigned

namespace JavaScript

variable {last : Option Char} {t : Text} {later : Cursor}

/-- Every match of an assignment begins at a name that is assigned to, and names it. -/
theorem of_mem_ends_bindingPattern (h : later ∈ bindingPattern.ends ⟨last, t, []⟩) :
    assignsHere t = true ∧ (.name, t.takeWhile isDollarChar) ∈ later.parts ∧
      ∀ u, (.name, u) ∈ later.parts → u = t.takeWhile isDollarChar := by
  rw [ends_eq_flatMap_leading 5] at h
  obtain ⟨mid, hmid, hlater⟩ := List.mem_flatMap.mp h
  obtain ⟨named, hnamed, rfl⟩ := List.mem_map.mp hmid
  generalize hname : Cursor.passed ⟨last, t, []⟩ named = name at hlater
  -- The name is followed by blanks, the sign, and whatever the value is.
  obtain ⟨_, closer, ⟨_, value, ⟨_, space, ⟨gap, _, ⟨_, _, rfl, hgap, rfl⟩, ⟨sign, hsign, rfl⟩,
    rfl⟩, -, rfl⟩, -, rfl⟩, -, hpassed⟩ := describes_of_mem_ends _ hlater
  have htext : ∃ rest, t = name ++ (gap ++ sign :: rest) := by
    have hwhole : _ ++ named.rest = t := passed_append_rest (rest_suffix_of_mem_ends _ hnamed)
    have hrest := passed_append_rest (rest_suffix_of_mem_ends _ hlater)
    rw [hpassed] at hrest
    change _ = named.rest at hrest
    refine ⟨space ++ value ++ closer ++ later.rest, ?_⟩
    rw [← hwhole, hname, ← hrest]
    simp
  obtain ⟨rest, rfl⟩ := htext
  obtain ⟨hassigns, htake⟩ := assignsHere_of_describes
    (hname ▸ describes_of_mem_ends _ hnamed) hgap hsign rest
  rw [htake]
  refine ⟨hassigns, (parts_suffix_of_mem_ends _ hlater).subset List.mem_cons_self, fun u hu => ?_⟩
  rcases mem_parts_of_mem_ends _ hlater hu with hold | ⟨q, hq, -⟩
  · rcases List.mem_cons.mp hold with heq | hold
    · exact (Prod.mk.inj heq).2
    · rcases mem_parts_of_mem_ends _ hnamed hold with hold | ⟨q, hq, -⟩
      · cases hold
      · cases hq
  · cases hq

/-- An assignment that begins a text without line feeds is matched. -/
theorem exists_mem_ends_bindingPattern (h : assignsHere t = true) (ht : '\n' ∉ t) :
    ∃ later, later ∈ bindingPattern.ends ⟨last, t, []⟩ := by
  obtain ⟨gap, sign, rest, hname, hgap, hsign, htext⟩ := exists_of_assignsHere h
  have hvalue : (lazyStar anyChar).Describes rest := by
    refine describes_star_one (k := (· != '\n')) fun c hc => bne_iff_ne.mpr ?_
    rintro rfl
    apply ht
    rw [htext]
    simp [hc]
  have hleading : (bindingPattern.leading 1).Describes t := by
    refine ⟨_, rest, ⟨_, [], ⟨_, [sign], ⟨_, gap, hname, hgap, rfl⟩, ⟨sign, hsign, rfl⟩, rfl⟩,
      ⟨[], nofun, rfl⟩, rfl⟩, hvalue, htext.trans ?_⟩
    simp
  obtain ⟨mid, hmid, hrest⟩ := exists_mem_ends_of_describes (s := ⟨last, t, []⟩) _ rfl hleading
    (List.append_nil t).symm
  -- The value goes to the end of the text.
  have hfinish : mid ∈ finish.ends mid := by simp [ends, hrest]
  exact ⟨mid, List.mem_flatMap.mpr ⟨mid, hmid, List.mem_append_right _ hfinish⟩⟩

/-- **The first assignment.**  What a search for an assignment names in a text without line feeds is
the first name that is assigned to. -/
theorem map_findFrom_bindingPattern (ht : '\n' ∉ t) :
    (bindingPattern.findFrom last t).map (·.get .name) = assigned? t := by
  fun_induction findFrom bindingPattern last t with
  | case1 last t later hat =>
    rw [at?_eq_head?] at hat
    obtain ⟨hassigns, hmem, hall⟩ := of_mem_ends_bindingPattern (List.mem_of_head? hat)
    rw [assigned?_of_assignsHere hassigns]
    exact congrArg some (get_eq_of_forall hmem hall)
  | case2 => rfl
  | case3 last c t hat ih =>
    have hassigns : ¬ assignsHere (c :: t) = true := by
      intro hassigns
      obtain ⟨later, hlater⟩ := exists_mem_ends_bindingPattern hassigns ht
      rw [at?_eq_head?, List.head?_eq_none_iff] at hat
      rw [hat] at hlater
      cases hlater
    rw [assigned?, if_neg hassigns, ← ih fun hmem => ht (List.mem_cons_of_mem c hmem),
      Option.map_map]
    rfl

end JavaScript

/-! ## Assignments in a header -/

section Headers

variable {word condition rest : Text}

/-- A character that ends a span, put behind a text, does not change its first span. -/
theorem span_concat {k : Char → Bool} {c : Char} (hc : k c = false) (t : Text) :
    (t ++ [c]).takeWhile k = t.takeWhile k ∧ (t ++ [c]).dropWhile k = t.dropWhile k ++ [c] := by
  induction t with
  | nil => simp [hc]
  | cons d t ih => by_cases hd : k d = true <;> simp [hd, ih.1, ih.2]

/-- A character of another kind, put behind a text, does not change what the text starts with. -/
theorem any_head?_concat {k : Char → Bool} {c : Char} (hc : k c = false) (t : Text) :
    (t ++ [c]).head?.any k = t.head?.any k := by
  cases t with
  | nil => exact hc
  | cons d t => rfl

/-- The parenthesis that closes a condition is part of no name and is no sign. -/
theorem assigned?_concat (t : Text) : assigned? (t ++ [')']) = assigned? t := by
  have hassigns : ∀ t, assignsHere (t ++ [')']) = assignsHere t := by
    intro t
    rw [assignsHere, any_head?_concat rfl, (span_concat rfl t).2, (span_concat rfl _).2,
      any_head?_concat rfl]
    rfl
  induction t with
  | nil => rfl
  | cons c t ih =>
    have htake := (span_concat (k := isDollarChar) (c := ')') rfl (c :: t)).1
    have hhere := hassigns (c :: t)
    rw [List.cons_append] at htake hhere ⊢
    rw [assigned?, assigned?, hhere, htake, ih]

/-- A word before a parenthesis is not assigned to. -/
theorem assigned?_opening (hword : ∀ c ∈ word, isDollarChar c = true) :
    assigned? (opening word ++ rest) = assigned? rest := by
  induction word with
  | nil => rfl
  | cons c word ih =>
    have hassigns : assignsHere (c :: (opening word ++ rest)) = false := by
      have hdrop : (c :: (opening word ++ rest)).dropWhile isDollarChar = ' ' :: '(' :: rest := by
        rw [opening, List.append_assoc, ← List.cons_append, List.dropWhile_append_of_pos hword]
        rfl
      rw [assignsHere, hdrop]
      exact Bool.and_false _
    obtain ⟨-, hmore⟩ := List.forall_mem_cons.mp hword
    calc assigned? (opening (c :: word) ++ rest)
        = assigned? (c :: (opening word ++ rest)) := rfl
      _ = assigned? (opening word ++ rest) := by rw [assigned?, hassigns]; rfl
      _ = assigned? rest := ih hmore

/-- What is assigned in a header is what is assigned in its condition. -/
theorem assigned?_header (hword : word ∈ statementWords) :
    assigned? (header word condition) = assigned? condition := by
  have hnames : ∀ word ∈ statementWords, word.all isDollarChar = true := by decide
  rw [header, assigned?_opening (List.all_eq_true.mp (hnames word hword)), assigned?_concat]

/-- A character that no plain condition holds stands in a header only if it does so without a
condition. -/
theorem not_mem_header {d : Char} (hd : isConditionChar d = false)
    (hempty : ∀ word ∈ statementWords, d ∉ header word []) (hword : word ∈ statementWords)
    (hcondition : ∀ c ∈ condition, isConditionChar c = true) : d ∉ header word condition := by
  intro hmem
  apply hempty word hword
  simp only [header, List.mem_append] at hmem ⊢
  rcases hmem with hmem | hmem | hmem
  · exact Or.inl hmem
  · exact absurd rfl (Text.ne_of_class (hcondition d hmem) hd)
  · exact Or.inr (Or.inr hmem)

/-- JavaScript looks for an assignment everywhere, and only its name is held against it. -/
theorem javaScript_declaration_header (hword : word ∈ statementWords)
    (hcondition : ∀ c ∈ condition, isConditionChar c = true) :
    (javaScript.declaration (header word condition)).map Declaration.name =
      (assigned? condition).filter (!isStatement ·) := by
  obtain ⟨hclass, hfunction, harrow⟩ := find_tied_header .javascript hword condition
  have hbrace : ∀ c ∈ header word condition, (c == '\x7b') = false := by
    intro c hc
    refine beq_eq_false_iff_ne.mpr ?_
    rintro rfl
    exact not_mem_header rfl (by decide) hword hcondition hc
  have hmethod : JavaScript.methodPattern.find (header word condition) = none :=
    findFrom_eq_none_of_meets (Or.inr ⟨'\x7b', List.mem_singleton.mpr rfl, rfl⟩) hbrace
  have haccessor : JavaScript.accessorPattern.find (header word condition) = none :=
    findFrom_eq_none_of_meets (Or.inr ⟨'\x7b', List.mem_singleton.mpr rfl, rfl⟩) hbrace
  have hcallable : JavaScript.callable (header word condition) = none := by
    rw [JavaScript.callable, hfunction, hmethod, haccessor, harrow]
    rfl
  have hdeclaration : javaScript.declaration (header word condition) =
      (JavaScript.binding (header word condition)).filter fun d => !isStatement d.name := by
    have hnone : JavaScript.classLike (header word condition) = none :=
      Option.map_eq_none_iff.mpr hclass
    simp only [declaration, javaScript, hnone, hcallable]
    rfl
  have hname : (JavaScript.binding (header word condition)).map Declaration.name =
      assigned? condition := by
    rw [JavaScript.binding, Option.map_map, ← assigned?_header hword]
    exact JavaScript.map_findFrom_bindingPattern (not_mem_header rfl (by decide) hword hcondition)
  rw [hdeclaration, ← hname, Option.filter_map]
  rfl

end Headers

/-! ## Every language -/

/-- **What a control-flow header declares.**  In every language but JavaScript a header of a plain
condition declares nothing.  In JavaScript it declares the first name of the condition that an
equals sign or a colon follows, unless that is a statement word. -/
theorem map_name_declaration_header (language : Language) {word condition : Text}
    (hword : word ∈ statementWords) (hcondition : ∀ c ∈ condition, isConditionChar c = true) :
    (language.grammar.declaration (header word condition)).map Declaration.name =
      if language = .javascript then (assigned? condition).filter (!isStatement ·) else none := by
  cases language with
  | javascript => exact javaScript_declaration_header hword hcondition
  | typescript => exact Option.map_eq_none_iff.mpr (typeScript_declaration_header hword hcondition)
  | php => exact Option.map_eq_none_iff.mpr (php_declaration_header hword)
  | java => exact Option.map_eq_none_iff.mpr (java_declaration_header hword hcondition)
  | cpp => exact Option.map_eq_none_iff.mpr (cpp_declaration_header hword hcondition)
  | objc => exact Option.map_eq_none_iff.mpr (objectiveC_declaration_header hword)
  | rust => exact Option.map_eq_none_iff.mpr (rust_declaration_header hword)
  | ruby => exact Option.map_eq_none_iff.mpr (ruby_declaration_header hword)
  | swift => exact Option.map_eq_none_iff.mpr (swift_declaration_header hword hcondition)

/-- The loop `for (i = 0; i < n)` declares nothing in TypeScript and `i` in JavaScript. -/
theorem map_name_declaration_header_loop :
    (Language.typescript.grammar.declaration
        (header "for".toList "i = 0; i < n".toList)).map Declaration.name = none ∧
      (Language.javascript.grammar.declaration
        (header "for".toList "i = 0; i < n".toList)).map Declaration.name = some ['i'] :=
  ⟨map_name_declaration_header .typescript (by decide) (List.all_eq_true.mp (by decide)),
    map_name_declaration_header .javascript (by decide) (List.all_eq_true.mp (by decide))⟩

/-- The header `if (a == b)` declares `a` in JavaScript. -/
theorem not_declaration_header_eq_none :
    ¬ ∀ (language : Language) (word condition : Text), word ∈ statementWords →
      (∀ c ∈ condition, isConditionChar c = true) →
        language.grammar.declaration (header word condition) = none := by
  intro h
  have hnone := h .javascript "if".toList "a == b".toList (by decide)
    (List.all_eq_true.mp (by decide))
  have hsome : (javaScript.declaration (header "if".toList "a == b".toList)).isSome = true := by
    decide +kernel
  rw [show javaScript.declaration _ = none from hnone] at hsome
  cases hsome

end DocComment.Grammar
