import DocComment.Document
import DocComment.Proofs.Pattern.Replacing
import DocComment.Proofs.Text.Lines

/-!
# When a declaration is documented

Whether a bare comment is called for is decided before any grammar is asked, by one test for all
languages: the openers of every comment count, and a number sign counts as one of them.  Where the
text starts with none of these, documenting it gives the declaration of its definition, because no
grammar finds one in an empty definition and none gives out a control-flow statement.

A number sign is no comment in most languages.  In PHP and Objective-C the test still does no harm:
the definition starts with the number sign as well (`head?_ofLines_lines`), every pattern of these
grammars is tied to the beginning, and none of them can begin with it.  Everywhere else the test
hides declarations that the grammar would have found (`not_documented_of_codeFollows`).
-/

namespace DocComment

open Text Pattern

/-! ## The first character of a definition -/

section Lead

variable {b rest : Text} {c : Char}

/-- The first characters of a text stand on one of its lines, after lines of blanks. -/
theorem Text.exists_lines_eq (hb : Blanks b) (hc : isBlank c = false) (rest : Text) :
    ∃ before indent tail after,
      lines (b ++ c :: rest) = before ++ (indent ++ c :: tail) :: after ∧
        (∀ line ∈ before, Blanks line) ∧ Blanks indent := by
  induction b with
  | nil =>
    have hblank : ∀ {d : Char}, isBlank d = true → c ≠ d := by
      rintro d hd rfl
      rw [hd] at hc
      cases hc
    have hcons : lines (c :: rest) = (c :: (lines rest).headD []) :: (lines rest).tail :=
      lines_cons (hblank (by decide)) fun hcr => absurd hcr (hblank (by decide))
    exact ⟨[], [], _, _, hcons, nofun, blanks_nil⟩
  | cons d b ih =>
    obtain ⟨hd, hb⟩ := blanks_cons.mp hb
    obtain ⟨before, indent, tail, after, heq, hbefore, hindent⟩ := ih hb
    rw [List.cons_append]
    rcases lines_cons_cases d (b ++ c :: rest) with ⟨-, hline⟩ | ⟨more, -, hmore, hline⟩ | hline
    · refine ⟨[] :: before, indent, tail, after, by rw [hline, heq]; rfl, ?_, hindent⟩
      exact List.forall_mem_cons.mpr ⟨blanks_nil, hbefore⟩
    · -- The carriage return goes with the line feed after it.
      rw [hmore, lines_newline_cons] at heq
      exact ⟨before, indent, tail, after, hline.trans heq, hbefore, hindent⟩
    · rw [heq] at hline
      cases before with
      | nil => exact ⟨[], d :: indent, tail, after, hline, nofun, blanks_cons.mpr ⟨hd, hindent⟩⟩
      | cons line before =>
        obtain ⟨hfirst, hbefore⟩ := List.forall_mem_cons.mp hbefore
        refine ⟨(d :: line) :: before, indent, tail, after, hline, ?_, hindent⟩
        exact List.forall_mem_cons.mpr ⟨blanks_cons.mpr ⟨hd, hfirst⟩, hbefore⟩

namespace Definition

/-- A character that starts neither a comment nor a string literal. -/
def isOrdinary (c : Char) : Bool := c != '/' && c != '\'' && c != '"'

theorem isOrdinary_of_isBlank (h : isBlank c = true) : isOrdinary c = true := by
  simp only [isOrdinary, Bool.and_eq_true, bne_iff_ne]
  refine ⟨⟨?_, ?_⟩, ?_⟩ <;> rintro rfl <;> exact absurd h (by decide)

theorem opensWith_of_isOrdinary (h : isOrdinary c = true) :
    lineComment.opensWith c = false ∧ blockComment.opensWith c = false ∧
      (quoted '\'').opensWith c = false ∧ (quoted '"').opensWith c = false := by
  simp only [isOrdinary, Bool.and_eq_true, bne_iff_ne] at h
  obtain ⟨⟨hslash, hsingle⟩, hdouble⟩ := h
  simp [lineComment, blockComment, quoted, append_eq_seq, opensWith, nullable, Ne.symm hslash,
    hsingle, hdouble]

/-- Stripping passes over a beginning of ordinary characters, apart from blanks. -/
theorem exists_strip_append {s : Text} (hs : ∀ c ∈ s, isOrdinary c = true) (t : Text) :
    ∃ tail, strip t = trim tail ∧ strip (s ++ t) = trim (s ++ tail) := by
  have hopens := fun c hc => opensWith_of_isOrdinary (hs c hc)
  refine ⟨_, rfl, ?_⟩
  simp only [strip]
  rw [replaceFirst_append rfl rfl fun c hc => (hopens c hc).1,
    replaceAll_append rfl rfl (fun c hc => (hopens c hc).2.1) fun _ _ => rfl,
    replaceAll_append rfl rfl (fun c hc => (hopens c hc).2.2.1) fun _ _ => rfl,
    replaceAll_append rfl rfl (fun c hc => (hopens c hc).2.2.2) fun _ _ => rfl]

/-- There is nothing to strip from a line of ordinary characters but its outer blanks. -/
theorem strip_eq_trim {s : Text} (hs : ∀ c ∈ s, isOrdinary c = true) : strip s = trim s := by
  have hopens := fun c hc => opensWith_of_isOrdinary (hs c hc)
  simp only [strip]
  rw [replaceFirst_eq_self [] rfl fun c hc => (hopens c hc).1,
    replaceAll_eq_self rfl fun c hc => (hopens c hc).2.1,
    replaceAll_eq_self rfl fun c hc => (hopens c hc).2.2.1,
    replaceAll_eq_self rfl fun c hc => (hopens c hc).2.2.2]

theorem strip_of_blanks (hb : Blanks b) : strip b = [] := by
  rw [strip_eq_trim fun c hc => isOrdinary_of_isBlank (hb c hc), trim_of_blanks hb]

theorem exists_strip_eq_cons (hb : Blanks b) (hc : isBlank c = false) (hord : isOrdinary c = true)
    (rest : Text) : ∃ tail, strip (b ++ c :: rest) = c :: tail := by
  have hs : ∀ d ∈ b ++ [c], isOrdinary d = true := by
    intro d hd
    rcases List.mem_append.mp hd with hd | hd
    · exact isOrdinary_of_isBlank (hb d hd)
    · rw [List.mem_singleton.mp hd]
      exact hord
  obtain ⟨tail, -, htail⟩ := exists_strip_append hs rest
  have htrim : trim (b ++ [c] ++ tail) = trimEnd (c :: tail) := by
    rw [List.append_assoc, trim_append_of_blanks hb, trim, List.singleton_append,
      trimStart_of_startsTight (startsTight_cons.mpr hc)]
  obtain ⟨more, hmore⟩ := isPrefix_trimEnd (s := [c]) (endsTight_concat (t := []).mpr hc)
    (List.prefix_append [c] tail)
  rw [List.append_assoc, List.singleton_append] at htail
  exact ⟨more, htail.trans (htrim.trans hmore.symm)⟩

/-- Empty lines are passed over, and the first other line belongs to the definition. -/
theorem exists_scanned_eq {line : Text} (hline : line ≠ []) (n : Nat) (after : List Text) :
    ∃ more, scanned maxLines 0 (List.replicate n [] ++ line :: after) = line :: more := by
  induction n with
  | zero =>
    rw [List.replicate_zero, List.nil_append, scanned]
    simp only [List.isEmpty_iff, hline, if_false]
    split
    · exact ⟨[], rfl⟩
    · exact ⟨_, rfl⟩
  | succ n ih =>
    rw [List.replicate_succ, List.cons_append, scanned]
    exact ih

theorem head?_foldl_join {left : Text} (h : left ≠ []) (ls : List Text) :
    (ls.foldl join left).head? = left.head? := by
  induction ls generalizing left with
  | nil => rfl
  | cons l ls ih =>
    obtain ⟨c, left, rfl⟩ := List.exists_cons_of_ne_nil h
    have hjoin : ∃ tail, join (c :: left) l = c :: tail := by
      rw [join]
      split
      · exact ⟨_, List.cons_append⟩
      · exact ⟨_, List.cons_append⟩
    obtain ⟨tail, htail⟩ := hjoin
    rw [List.foldl_cons, htail, ih (List.cons_ne_nil c tail)]
    rfl

/-- **The definition starts with the first character of the text** that is no blank, unless a
comment or a string literal starts there. -/
theorem head?_ofLines_lines (hb : Blanks b) (hc : isBlank c = false) (hord : isOrdinary c = true)
    (rest : Text) : (ofLines (lines (b ++ c :: rest))).head? = some c := by
  obtain ⟨before, indent, tail, after, heq, hbefore, hindent⟩ := exists_lines_eq hb hc rest
  obtain ⟨stripped, hstripped⟩ := exists_strip_eq_cons hindent hc hord tail
  have hempty : before.map strip = List.replicate before.length [] := by
    rw [List.eq_replicate_iff, List.length_map]
    refine ⟨rfl, fun line hline => ?_⟩
    obtain ⟨source, hsource, rfl⟩ := List.mem_map.mp hline
    exact strip_of_blanks (hbefore source hsource)
  obtain ⟨more, hmore⟩ :=
    exists_scanned_eq (List.cons_ne_nil c stripped) before.length (after.map strip)
  rw [ofLines, heq, List.map_append, List.map_cons, hempty, hstripped, hmore, List.foldl_cons]
  have hjoin : join [] (c :: stripped) = c :: stripped := rfl
  rw [hjoin, head?_foldl_join (List.cons_ne_nil c stripped)]
  rfl

end Definition

end Lead

/-! ## Grammars -/

namespace Grammar

/-- No grammar finds a declaration in an empty definition. -/
theorem declaration_nil (language : Language) : language.grammar.declaration [] = none := by
  cases language <;> decide +kernel

/-- A declaration is never a control-flow statement, so it has a block. -/
theorem isSome_block?_of_declaration {g : Grammar} {definition : Text} {d : Declaration}
    (h : g.declaration definition = some d) (p : Profile) :
    (Synthesis.block? p g d).isSome = true := by
  have hname : isStatement d.name = false := by
    simpa using (Option.filter_eq_some_iff.mp h).2
  rw [Synthesis.block?, hname]
  rfl

/-- What no recogniser knows is no declaration. -/
theorem declaration_eq_none {g : Grammar} {t : Text} (hclass : g.classLike t = none)
    (hcallable : g.callable t = none) (hbinding : g.binding t = none) : g.declaration t = none := by
  simp only [Grammar.declaration, hclass, hcallable, hbinding]
  rfl

/-- In PHP a number sign starts no declaration. -/
theorem declaration_php_hash (t : Text) : php.declaration ('#' :: t) = none := by
  have hclass : Php.classLike ('#' :: t) = none := by
    rw [Php.classLike, find_eq_none_of_anchored rfl rfl (by decide)]
    rfl
  have hcallable : Php.callable ('#' :: t) = none := by
    rw [Php.callable, find_eq_none_of_anchored rfl rfl (by decide)]
    rfl
  have hbinding : Php.binding ('#' :: t) = none := by
    rw [Php.binding, find_eq_none_of_anchored rfl rfl (by decide)]
    rfl
  exact declaration_eq_none hclass hcallable hbinding

/-- In Objective-C a number sign starts no declaration. -/
theorem declaration_objectiveC_hash (t : Text) : objectiveC.declaration ('#' :: t) = none := by
  have hclass : ObjectiveC.classLike ('#' :: t) = none := by
    rw [ObjectiveC.classLike, find_eq_none_of_anchored rfl rfl (by decide)]
    rfl
  have hcallable : ObjectiveC.callable ('#' :: t) = none := by
    rw [ObjectiveC.callable, find_eq_none_of_anchored rfl rfl (by decide),
      find_eq_none_of_anchored rfl rfl (by decide)]
    rfl
  have hbinding : ObjectiveC.binding ('#' :: t) = none := by
    rw [ObjectiveC.binding, find_eq_none_of_anchored rfl rfl (by decide)]
    rfl
  exact declaration_eq_none hclass hcallable hbinding

end Grammar

/-! ## Documenting -/

/-- Whether a text starts as a comment of the language does. -/
def Language.opensComment (language : Language) (t : Text) : Bool :=
  let opens := fun opener : String => (after? opener.toList t).isSome
  match language with
  | .ruby => opens "#"
  | .php => opens "//" || opens "/*" || (opens "#" && !opens "#[")
  | _ => opens "//" || opens "/*"

/-- Whether a text starts as a comment of some language does, or with a number sign. -/
def opensAnyComment (t : Text) : Bool :=
  ["/*", "//", "#"].any fun opener => (after? opener.toList t).isSome

/-- Whether two blank lines come first. -/
def opensWithGap (text : Text) : Bool :=
  match lines text with
  | first :: second :: _ => (trim first).isEmpty && (trim second).isEmpty
  | _ => false

/-- Code of the language follows: the text is not blank, does not start with two blank lines, and
its first characters open no comment of the language. -/
structure Language.CodeFollows (language : Language) (text : Text) : Prop where
  ne_nil : trim text ≠ []
  no_gap : opensWithGap text = false
  no_comment : language.opensComment (trim text) = false

instance (language : Language) (text : Text) : Decidable (language.CodeFollows text) :=
  decidable_of_iff (trim text ≠ [] ∧ opensWithGap text = false ∧
      language.opensComment (trim text) = false)
    ⟨fun ⟨h₁, h₂, h₃⟩ => ⟨h₁, h₂, h₃⟩, fun ⟨h₁, h₂, h₃⟩ => ⟨h₁, h₂, h₃⟩⟩

/-- The three reasons for a bare comment. -/
theorem needsFallback_eq (text : Text) :
    needsFallback text =
      ((trim text).isEmpty || opensAnyComment (trim text) || opensWithGap text) := rfl

/-- Past the test, documenting gives the declaration of the definition. -/
theorem map_declaration_document_of_needsFallback {text : Text} (h : needsFallback text = false)
    (language : Language) (config : Config) :
    (document language config text).map Documented.declaration =
      language.grammar.declaration (language.grammar.definition (lines text)) := by
  simp only [document, h, Bool.false_eq_true, if_false]
  split
  · next hempty => rw [List.isEmpty_iff.mp hempty, Grammar.declaration_nil, Option.map_none]
  · cases hdecl : language.grammar.declaration (language.grammar.definition (lines text)) with
    | none => rfl
    | some declaration =>
      have hblock := Grammar.isSome_block?_of_declaration hdecl (Profile.of language config)
      obtain ⟨block, hblock⟩ := Option.isSome_iff_exists.mp hblock
      simp [hblock]

/-- A text that the test takes for a comment without a slash starts with a number sign, and so does
its definition. -/
theorem exists_ofLines_eq_hash {text : Text} (hany : opensAnyComment (trim text) = true)
    (hslash : (after? "//".toList (trim text)).isSome = false)
    (hstar : (after? "/*".toList (trim text)).isSome = false) :
    ∃ t, Definition.ofLines (lines text) = '#' :: t := by
  have hhash : (after? "#".toList (trim text)).isSome = true := by
    simpa only [opensAnyComment, List.any_cons, List.any_nil, hslash, hstar, Bool.false_or,
      Bool.or_false] using hany
  obtain ⟨rest, hrest⟩ := Option.isSome_iff_exists.mp hhash
  obtain ⟨b, hb, htext⟩ := exists_blanks_append_trimStart text
  obtain ⟨s, -, hs⟩ := exists_trimEnd_append_blanks (trimStart text)
  have hstart : trimStart text = '#' :: (rest ++ s) := by
    rw [hs]
    change trim text ++ s = _
    rw [eq_append_of_after? hrest]
    rfl
  have hhead := Definition.head?_ofLines_lines hb (c := '#') (by decide) (by decide) (rest ++ s)
  rw [← hstart, ← htext] at hhead
  obtain ⟨t, ht⟩ := List.head?_eq_some_iff.mp hhead
  exact ⟨t, ht⟩

/-- **Where code follows, its declaration is documented.**  What is documented is the declaration of
the definition, if there is one, in PHP and Objective-C; in the other languages, as long as the text
does not start as a comment of another language does, a number sign counting as one. -/
theorem map_declaration_document {language : Language} {text : Text}
    (hcode : language.CodeFollows text)
    (hopens : language = .php ∨ language = .objc ∨ opensAnyComment (trim text) = false)
    (config : Config) :
    (document language config text).map Documented.declaration =
      language.grammar.declaration (language.grammar.definition (lines text)) := by
  cases hany : opensAnyComment (trim text) with
  | false =>
    have hne : (trim text).isEmpty = false := by simpa using hcode.ne_nil
    have hfallback : needsFallback text = false := by
      rw [needsFallback_eq, hne, hany, hcode.no_gap]
      rfl
    exact map_declaration_document_of_needsFallback hfallback language config
  | true =>
    -- Of the three openers only the number sign is left, and there neither side has anything.
    have hfallback : needsFallback text = true := by
      rw [needsFallback_eq, hany]
      simp
    have hnone : (document language config text).map Documented.declaration = none := by
      rw [document, hfallback]
      rfl
    have hcomment := hcode.no_comment
    rw [hnone]
    rcases hopens with rfl | rfl | hopens
    · obtain ⟨⟨hslash, hstar⟩, -⟩ : (_ ∧ _) ∧ _ := by
        simpa only [Language.opensComment, Bool.or_eq_false_iff] using hcomment
      obtain ⟨t, ht⟩ := exists_ofLines_eq_hash hany hslash hstar
      exact (ht ▸ Grammar.declaration_php_hash t).symm
    · obtain ⟨hslash, hstar⟩ : _ ∧ _ := by
        simpa only [Language.opensComment, Bool.or_eq_false_iff] using hcomment
      obtain ⟨t, ht⟩ := exists_ofLines_eq_hash hany hslash hstar
      exact (ht ▸ Grammar.declaration_objectiveC_hash t).symm
    · rw [hopens] at hany
      cases hany

/-- A method one line below the cursor, and an attribute that starts with a number sign. -/
theorem map_declaration_document_len :
    Language.rust.CodeFollows "\n  pub fn len(&self) -> usize \x7b" ∧
      (document .rust {} "\n  pub fn len(&self) -> usize \x7b").map Documented.declaration =
        some (.callable { name := "len", rawArgs := some "&self", returnType := some "usize" }) ∧
      Language.php.CodeFollows "#[Pure]\nfunction f() \x7b" ∧
      (document .php {} "#[Pure]\nfunction f() \x7b").map Documented.declaration = none := by
  have hrust : Language.rust.CodeFollows "\n  pub fn len(&self) -> usize \x7b" := by decide +kernel
  have hphp : Language.php.CodeFollows "#[Pure]\nfunction f() \x7b" := by decide +kernel
  refine ⟨hrust, ?_, hphp, ?_⟩
  · rw [map_declaration_document hrust (Or.inr (Or.inr (by decide +kernel))) {}]
    decide +kernel
  · rw [map_declaration_document hphp (Or.inl rfl) {}]
    decide +kernel

/-- Code follows in which the grammar finds a declaration, and nothing is documented. -/
def Language.Hides (language : Language) (text : Text) : Prop :=
  language.CodeFollows text ∧
    (language.grammar.declaration (language.grammar.definition (lines text))).isSome = true ∧
    document language {} text = none

instance (language : Language) (text : Text) : Decidable (language.Hides text) :=
  inferInstanceAs (Decidable (_ ∧ _ ∧ _))

/-- In the seven other languages code can follow whose declaration is not documented. -/
theorem not_documented_of_codeFollows :
    Language.rust.Hides "#[derive(Debug)]\npub struct Config \x7b" ∧
      Language.javascript.Hides "#count = 0;" ∧ Language.typescript.Hides "#next(): number \x7b" ∧
      Language.java.Hides "#next() \x7b" ∧ Language.cpp.Hides "#define MAX(a) a" ∧
      Language.swift.Hides "#if DEBUG\nfunc next() \x7b" ∧
      Language.ruby.Hides "//.match(line)\ndef next" := by
  decide +kernel

end DocComment
