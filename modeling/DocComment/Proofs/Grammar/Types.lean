import DocComment.Grammar
import DocComment.Proofs.Pattern.Captures
import DocComment.Proofs.Profile
import DocComment.Proofs.Text.Occurrence

/-!
# Types that declarations bring along

What a grammar reads off a declaration ends up in the columns of a comment.  Where a dialect has a
type column, the types of results and variables, declared or guessed, are **plain**: single words
without slashes and without the brackets of the column.  The declared type of a parameter is a
single word at least.  A super type stands on one line (`Language.fits_grammar`).
-/

namespace DocComment

open Text Pattern

/-! ## Plain types -/

/-- A character that neither ends a type column nor a comment. -/
def Profile.isPlain (p : Profile) (c : Char) : Bool :=
  !isBlank c && c != '/' && p.typeBrackets?.all fun b => c != b.1 && c != b.2

/-- A type of plain characters. -/
def IsPlainType (p : Profile) (t : Text) : Prop := t ≠ [] ∧ ∀ c ∈ t, p.isPlain c = true

section Plain

variable {p : Profile} {t : Text}

/-- No plain character is a blank. -/
theorem isBlank_eq_false_of_isPlain {c : Char} (h : p.isPlain c = true) : isBlank c = false := by
  simp only [Profile.isPlain, Bool.and_eq_true, Bool.not_eq_true'] at h
  exact h.1.1

/-- A plain type is one word. -/
theorem IsPlainType.isWord (h : IsPlainType p t) : IsWord t :=
  ⟨h.1, fun c hc => isBlank_eq_false_of_isPlain (h.2 c hc)⟩

/-- Plain characters behind a plain type keep it plain. -/
theorem IsPlainType.append (h : IsPlainType p t) {s : Text} (hs : ∀ c ∈ s, p.isPlain c = true) :
    IsPlainType p (t ++ s) := by
  refine ⟨by simp [h.1], fun c hc => ?_⟩
  exact (List.mem_append.mp hc).elim (h.2 c) (hs c)

/-- A character that is not blank and stands in no frame is plain in every dialect. -/
theorem Profile.isPlain_of_not_mem (language : Language) (config : Config) {c : Char}
    (hblank : isBlank c = false) (h : c ∉ "/\x7b\x7d[]".toList) :
    (Profile.of language config).isPlain c = true := by
  obtain ⟨hslash, hopen, hclose, hopen', hclose'⟩ :
      c ≠ '/' ∧ c ≠ '{' ∧ c ≠ '}' ∧ c ≠ '[' ∧ c ≠ ']' := by simpa using h
  unfold isPlain typeBrackets?
  rcases typeColumn_of language config with hcolumn | hcolumn | hcolumn | hcolumn <;>
    simp [hcolumn, hblank, hslash, hopen, hclose, hopen', hclose']

/-- What may stand in an identifier is plain in every language. -/
theorem Profile.isPlain_of_isDollarChar (language : Language) (config : Config) {c : Char}
    (h : isDollarChar c = true) : (Profile.of language config).isPlain c = true := by
  refine isPlain_of_not_mem language config (isBlank_eq_false_of_isDollarChar h) ?_
  have hframe : "/\x7b\x7d[]".toList.all (!isDollarChar ·) = true := by decide
  intro hmem
  have hc := List.all_eq_true.mp hframe c hmem
  rw [h] at hc
  cases hc

/-- A name is a plain type in every dialect. -/
theorem Profile.isPlainType_of_name (language : Language) (config : Config)
    (h : t ≠ [] ∧ t.all isDollarChar = true) : IsPlainType (Profile.of language config) t :=
  ⟨h.1, fun c hc => isPlain_of_isDollarChar language config (List.all_eq_true.mp h.2 c hc)⟩

/-- What a pattern matches is a plain type if the pattern passes plain characters only and cannot do
without one. -/
theorem isPlainType_of_describes {q : Pattern} (h : q.Describes t) (hwithin : q.Within p.isPlain)
    (hmeets : q.Meets p.isPlain) : IsPlainType p t := by
  obtain ⟨c, hc, -⟩ := h.exists_mem hmeets
  exact ⟨List.ne_nil_of_mem hc, h.forall_mem hwithin⟩

end Plain

/-! ## Guesses -/

namespace TypeGuess

variable (language : Language) (config : Config)

/-- The types that the shape of a value or a name can suggest. -/
def guesses : List Text :=
  ["number", "float", "integer", "string", "Array", "Object", "boolean", "RegExp", "function",
    "type"].map String.toList

/-- Every type that is guessed from a name is plain. -/
theorem isPlainType_of_mem_guesses {t : Text} (h : t ∈ guesses) :
    IsPlainType (Profile.of language config) t := by
  apply Profile.isPlainType_of_name
  revert t
  decide

/-- The class that an initializer constructs is a plain type. -/
theorem isPlainType_newValue {value : Text} {m : Match} (h : newValue.find value = some m) :
    IsPlainType (Profile.of language config) (m.get .type) := by
  have hplain := @Profile.isPlain_of_not_mem language config
  have hdollar : ∀ c, isDollarChar c = true → (Profile.of language config).isPlain c = true :=
    fun c => Profile.isPlain_of_isDollarChar language config
  have hstart : ∀ c, isDollarStart c = true → (Profile.of language config).isPlain c = true :=
    fun c hc => hdollar c (isDollarChar_of_isDollarStart hc)
  refine isPlainType_of_describes (describes_get rfl rfl h) ?_ ?_
  rotate_left
  · exact Or.inl (Or.inr hstart)
  refine ⟨⟨⟨?_, trivial⟩, hstart⟩, ?_⟩
  · exact fun c hc => List.mem_singleton.mp hc ▸ hplain (by decide) (by decide)
  · intro c hc
    simp only [Bool.or_eq_true, beq_iff_eq] at hc
    rcases hc with (hc | rfl) | rfl
    · exact hdollar c hc
    · exact hplain (by decide) (by decide)
    · exact hplain (by decide) (by decide)

/-- Every type that is guessed from a value is plain. -/
theorem isPlainType_ofValue (value : Text) (numbers : NumberTypes) :
    ∀ t ∈ ofValue value numbers, IsPlainType (Profile.of language config) t := by
  have hguess : ∀ u ∈ guesses, ∀ t ∈ some u, IsPlainType (Profile.of language config) t :=
    fun u hu t ht => Option.some.inj ht ▸ isPlainType_of_mem_guesses language config hu
  have helse : ∀ {c : Prop} [Decidable c] {u : Text} {o : Option Text}, u ∈ guesses →
      (∀ t ∈ o, IsPlainType (Profile.of language config) t) →
      ∀ t ∈ (if c then some u else o), IsPlainType (Profile.of language config) t := by
    intro c _ u o hu ho
    split
    · exact hguess u hu
    · exact ho
  unfold ofValue
  simp only
  split
  · exact nofun
  · split
    · cases numbers with
      | number => exact hguess _ (by decide)
      | integerFloat =>
        apply hguess
        split <;> decide
    · refine helse (by decide) (helse (by decide) (helse (by decide) (helse (by decide)
        (helse (by decide) ?_))))
      intro t ht
      obtain ⟨m, hm, rfl⟩ := Option.map_eq_some_iff.mp ht
      exact isPlainType_newValue language config hm

/-- Every type that is guessed from a name alone is plain. -/
theorem isPlainType_ofName (name : Text) :
    ∀ t ∈ ofName name, IsPlainType (Profile.of language config) t := by
  intro t ht
  have hmem : t ∈ guesses := by
    unfold ofName at ht
    split at ht
    · exact Option.some.inj ht ▸ by decide
    · split at ht
      · exact Option.some.inj ht ▸ by decide
      · cases ht
  exact isPlainType_of_mem_guesses language config hmem

/-- **A type is declared or plain.** -/
theorem resolve_cases (declared value : Option Text) (name : Text) (numbers : NumberTypes) :
    (∃ t ∈ declared, resolve declared value name numbers = trim t) ∨
      IsPlainType (Profile.of language config) (resolve declared value name numbers) := by
  unfold resolve
  simp only
  cases hdeclared : declared.bind fun t => (trim t).nonempty? with
  | some u =>
    left
    obtain ⟨t, ht, hu⟩ := Option.bind_eq_some_iff.mp hdeclared
    unfold nonempty? at hu
    split at hu
    · cases hu
    · obtain rfl := Option.some.inj hu
      exact ⟨t, ht, rfl⟩
  | none =>
    right
    cases hvalue : value.bind (ofValue · numbers) with
    | some u =>
      obtain ⟨v, -, hu⟩ := Option.bind_eq_some_iff.mp hvalue
      exact isPlainType_ofValue language config v numbers u hu
    | none =>
      cases hname : ofName name with
      | some u => exact isPlainType_ofName language config name u hname
      | none => exact isPlainType_of_mem_guesses language config (by decide)

end TypeGuess

/-! ## What a grammar reads -/

/-- What a declaration says fits into the columns of a dialect. -/
def Declaration.Fits (p : Profile) : Declaration → Prop
  | .classLike _ superTypes => p.tags.parents.isSome = true → ∀ type ∈ superTypes, IsLine type
  | .callable c => p.hasTypeColumn = true →
      c.throws = none ∧ ∀ type ∈ c.returnType, IsPlainType p type
  | .binding _ declaredType _ => p.hasTypeColumn = true → ∀ type ∈ declaredType, IsPlainType p type

/-- Whatever a grammar reads fits into the columns of a dialect. -/
structure Grammar.Fits (p : Profile) (g : Grammar) : Prop where
  classLike : ∀ {line d}, g.classLike line = some d → d.Fits p
  callable : ∀ {line d}, g.callable line = some d → d.Fits p
  binding : ∀ {line d}, g.binding line = some d → d.Fits p
  arguments : p.hasTypeColumn = true → ∀ raw, ∀ arg ∈ g.arguments raw, ∀ type ∈ arg.type,
    IsWord type

/-- A grammar that fits a profile reads fitting declarations only. -/
theorem Grammar.Fits.declaration {p : Profile} {g : Grammar} (hg : g.Fits p) {line : Text}
    {d : Declaration} (h : g.declaration line = some d) : d.Fits p := by
  obtain ⟨hfound, -⟩ := Option.filter_eq_some_iff.mp h
  simp only [Option.orElse_eq_or, Option.or_eq_some_iff] at hfound
  rcases hfound with (hclass | ⟨-, hcallable⟩) | ⟨-, hbinding⟩
  · exact hg.classLike hclass
  · exact hg.callable hcallable
  · exact hg.binding hbinding

section Common

variable {p : Profile}

/-- Where a dialect documents neither types nor super types, everything fits. -/
theorem Grammar.fits_of_bare (hparents : p.tags.parents = none) (hcolumn : p.hasTypeColumn = false)
    (g : Grammar) : g.Fits p := by
  have hfits : ∀ d : Declaration, d.Fits p := by
    intro d
    cases d <;> simp [Declaration.Fits, hparents, hcolumn]
  refine ⟨fun _ => hfits _, fun _ => hfits _, fun _ => hfits _, fun h => ?_⟩
  rw [hcolumn] at h
  cases h

theorem isLine_of_isWord {t : Text} (h : IsWord t) : IsLine t :=
  ⟨h.1, h.startsTight, h.endsTight, oneLine_of_forall_not_blank h.2⟩

/-- The class that is extended is written in plain characters. -/
theorem isLine_of_mem_parent {q r : Pattern} {line : Text} {m : Match}
    (h : q.find line = some m) (hgroups : q.groups .parents = [r]) (hwithin : r.Within p.isPlain)
    (hmeets : r.Meets p.isPlain) : ∀ t ∈ m.parent, IsLine t := by
  intro t ht
  have hget : m.get? .parents = some t := Option.mem_toList.mp ht
  exact isLine_of_isWord
    (isPlainType_of_describes (describes_of_get? hgroups h hget) hwithin hmeets).isWord

/-- A name with the names around it. -/
theorem within_qualified (language : Language) (config : Config) :
    (dollarName ++ star (lit "." ++ dollarName)).Within (Profile.of language config).isPlain := by
  have hname := within_dollarName fun _ => Profile.isPlain_of_isDollarChar language config
  refine ⟨hname, ?_, hname⟩
  intro c hc
  obtain rfl := List.mem_singleton.mp hc
  exact Profile.isPlain_of_not_mem language config (by decide) (by decide)

end Common

namespace Grammar

variable (config : Config)

/-! ### JavaScript -/

/-- The only type that a callable declares is the promise of an asynchronous one. -/
theorem JavaScript.fits_callableOf (kind : Match → CallableKind) (m : Match) :
    (callableOf kind m).Fits (Profile.of .javascript config) := by
  refine fun _ => ⟨rfl, fun type htype => ?_⟩
  have hpromise : type = "Promise".toList := by
    simp only [Option.mem_def] at htype
    split at htype
    · exact (Option.some.inj htype).symm
    · cases htype
  rw [hpromise]
  exact Profile.isPlainType_of_name .javascript config (by decide)

/-- A parameter has no written type; those that its form tells are single words. -/
theorem JavaScript.isWord_of_mem_argument (raw : Text) :
    ∀ type ∈ (argument raw).type, IsWord type := by
  unfold argument
  intro type htype
  split at htype
  · exact Option.some.inj htype ▸ by decide
  · split at htype
    · next m _ =>
      cases hobject : m.has .object <;> simp only [hobject] at htype <;>
        exact Option.some.inj htype ▸ by decide
    · split at htype
      · cases htype
      · cases htype

/-- Whatever is declared in JavaScript, its types fit the columns. -/
theorem fits_javaScript : javaScript.Fits (Profile.of .javascript config) where
  classLike {line d} h := by
    obtain ⟨m, hm, rfl⟩ := Option.map_eq_some_iff.mp h
    exact fun _ => isLine_of_mem_parent hm rfl (within_qualified .javascript config)
      (Or.inl (meets_dollarName fun _ => Profile.isPlain_of_isDollarChar .javascript config))
  callable {line d} h := by
    have hmap : ∀ {kind : Match → CallableKind} {o : Option Match},
        o.map (JavaScript.callableOf kind) = some d → d.Fits (Profile.of .javascript config) := by
      intro kind o ho
      obtain ⟨m, -, rfl⟩ := Option.map_eq_some_iff.mp ho
      exact JavaScript.fits_callableOf config kind m
    simp only [javaScript, JavaScript.callable, Option.orElse_eq_or, Option.or_eq_some_iff] at h
    rcases h with (h | ⟨-, h⟩) | ⟨-, h | ⟨-, h⟩⟩ <;> exact hmap h
  binding {line d} h := by
    obtain ⟨m, -, rfl⟩ := Option.map_eq_some_iff.mp h
    exact fun _ => nofun
  arguments _ raw arg harg := by
    obtain ⟨piece, -, rfl⟩ := List.mem_map.mp harg
    exact JavaScript.isWord_of_mem_argument piece

/-! ### TypeScript -/

namespace TypeScript

theorem isBlank_eq_false_of_mem_compact {t : Text} {c : Char} (h : c ∈ compact t) :
    isBlank c = false := by
  simpa using (List.mem_filter.mp h).2

/-- Marking a union adds a question mark or parentheses. -/
theorem mem_normalizeType {raw : Text} {c : Char} (h : c ∈ normalizeType raw) :
    c ∈ compact raw ∨ c ∈ "?()".toList := by
  unfold normalizeType at h
  simp only at h
  split at h
  · next base hbase =>
    have hcompact := eq_append_of_before? hbase
    rcases List.mem_cons.mp h with rfl | h
    · exact Or.inr (by decide)
    · exact Or.inl (hcompact ▸ List.mem_append_left _ h)
  · split at h
    · rcases List.mem_append.mp h with h | h
      · rcases List.mem_cons.mp h with rfl | h
        · exact Or.inr (by decide)
        · exact Or.inl h
      · exact Or.inr (List.mem_singleton.mp h ▸ by decide)
    · exact Or.inl h

/-- A type that is more than blanks stays one when it is normalised. -/
theorem normalizeType_ne_nil {raw : Text} (h : compact raw ≠ []) : normalizeType raw ≠ [] := by
  unfold normalizeType
  simp only
  split
  · exact List.cons_ne_nil _ _
  · split
    · exact List.cons_ne_nil _ _
    · exact h

/-- The type of a parameter is normalised to one word. -/
theorem isWord_of_mem_argumentType (raw : Text) : ∀ type ∈ argumentType raw, IsWord type := by
  have hmarks : IsWord "?()".toList := by decide
  have hblank : ∀ c ∈ normalizeType raw, isBlank c = false := fun c hc =>
    (mem_normalizeType hc).elim isBlank_eq_false_of_mem_compact (hmarks.2 c)
  intro type htype
  unfold argumentType at htype
  simp only at htype
  split at htype
  · cases htype
  · exact Option.some.inj htype ▸ by decide
  · exact Option.some.inj htype ▸ by decide
  · next hparen =>
    split at htype
    · obtain rfl := Option.some.inj htype
      exact ⟨by rw [hparen]; exact List.cons_ne_nil _ _, hblank⟩
    · exact Option.some.inj htype ▸ by decide
  · next hne _ _ _ =>
    obtain rfl := Option.some.inj htype
    exact ⟨hne, hblank⟩

/-- Types and unions hold names, blanks and a few marks. -/
theorem within_types {k : Char → Bool} (hname : ∀ c, isDollarChar c = true → k c = true)
    (hblank : ∀ c, isBlank c = true → k c = true) (hmarks : ∀ c ∈ ".[]<>,|".toList, k c = true) :
    parametricType.Within k ∧ unionType.Within k := by
  have hlit : ∀ u : Text, u ⊆ ".[]<>,|".toList → (lit u).Within k :=
    fun u hu c hc => hmarks c (hu hc)
  have hblanks : blanks.Within k := hblank
  have hdollar := within_dollarName hname
  have hbase : baseType.Within k :=
    ⟨⟨hdollar, hlit _ (by decide), hdollar⟩, hlit _ (by decide), trivial⟩
  have hparametric : parametricType.Within k := by
    refine ⟨hbase, ⟨⟨⟨⟨⟨hblanks, hlit _ (by decide)⟩, hblanks⟩, hbase⟩, ?_⟩, hlit _ (by decide)⟩,
      trivial⟩
    exact ⟨⟨⟨⟨hblanks, hlit _ (by decide)⟩, hblanks⟩, hbase⟩, hblanks⟩
  exact ⟨hparametric, hparametric, ⟨⟨hblanks, hlit _ (by decide)⟩, hblanks⟩, hparametric⟩

/-- A type has an identifier in it. -/
theorem meets_types {k : Char → Bool} (hname : ∀ c, isDollarChar c = true → k c = true) :
    parametricType.Meets k ∧ unionType.Meets k := by
  have hparametric : parametricType.Meets k := Or.inl (Or.inl (Or.inl (meets_dollarName hname)))
  exact ⟨hparametric, Or.inl hparametric⟩

/-- A type read by a pattern for types is plain once it is normalized. -/
theorem isPlainType_normalizeType {q : Pattern} (hq : q = parametricType ∨ q = unionType)
    {raw : Text} (h : q.Describes raw) :
    IsPlainType (Profile.of .typescript config) (normalizeType raw) := by
  have hname : ∀ c, isDollarChar c = true → (Profile.of .typescript config).isPlain c = true :=
    fun _ => Profile.isPlain_of_isDollarChar .typescript config
  have hmarks : ∀ c ∈ ".[]<>,|?()".toList, (Profile.of .typescript config).isPlain c = true := by
    have hall : ".[]<>,|?()".toList.all (Profile.of .typescript {}).isPlain = true := by decide
    exact List.all_eq_true.mp hall
  obtain ⟨hwithin, hwithin'⟩ := within_types
    (k := fun c => isBlank c || (Profile.of .typescript config).isPlain c)
    (fun c hc => by simp [hname c hc]) (fun c hc => by simp [hc])
    (fun c hc => by simp [hmarks c (List.mem_append_left "?()".toList hc)])
  obtain ⟨hmeets, hmeets'⟩ := meets_types (k := (Profile.of .typescript config).isPlain) hname
  have hall : ∀ c ∈ compact raw, (Profile.of .typescript config).isPlain c = true := by
    intro c hc
    have hspaced := h.forall_mem (hq.elim (· ▸ hwithin) (· ▸ hwithin')) c (List.mem_filter.mp hc).1
    simpa [isBlank_eq_false_of_mem_compact hc] using hspaced
  obtain ⟨c, hc, hplain⟩ := h.exists_mem (hq.elim (· ▸ hmeets) (· ▸ hmeets'))
  refine ⟨normalizeType_ne_nil (List.ne_nil_of_mem (a := c) ?_), fun c hc => ?_⟩
  · exact List.mem_filter.mpr ⟨hc, by simp [isBlank_eq_false_of_isPlain hplain]⟩
  · exact (mem_normalizeType hc).elim (hall c) fun hc =>
      hmarks c (List.mem_append_right ".[]<>,|".toList hc)

/-- The type of a parameter is a word, if there is one. -/
theorem isWord_of_mem_argument (raw : Text) : ∀ type ∈ (argument raw).type, IsWord type := by
  unfold argument
  simp only
  intro type htype
  split at htype
  · rw [Option.orElse_eq_or, Option.mem_def, Option.or_eq_some_iff] at htype
    rcases htype with htype | ⟨-, htype⟩
    · split at htype
      · exact isWord_of_mem_argumentType _ type htype
      · cases htype
    · exact Option.some.inj htype ▸ by decide
  · split at htype
    · exact isWord_of_mem_argumentType _ type htype
    · cases htype

end TypeScript

/-- Whatever is declared in TypeScript, its types fit the columns. -/
theorem fits_typeScript : typeScript.Fits (Profile.of .typescript config) where
  classLike {line d} h := by
    obtain ⟨m, hm, rfl⟩ := Option.map_eq_some_iff.mp h
    exact fun _ => isLine_of_mem_parent hm rfl (within_qualified .typescript config)
      (Or.inl (meets_dollarName fun _ => Profile.isPlain_of_isDollarChar .typescript config))
  callable {line d} h := by
    obtain ⟨m, hm, rfl⟩ := Option.map_eq_some_iff.mp h
    refine fun _ => ⟨rfl, fun type htype => ?_⟩
    simp only [Option.mem_def] at htype
    split at htype
    · cases htype
    · rw [Option.orElse_eq_or, Option.or_eq_some_iff] at htype
      rcases htype with htype | ⟨-, htype⟩
      · obtain ⟨raw, hraw, rfl⟩ := Option.map_eq_some_iff.mp htype
        apply TypeScript.isPlainType_normalizeType config (Or.inr rfl)
        rw [Option.orElse_eq_or, Option.or_eq_some_iff] at hm
        rcases hm with hm | ⟨-, hm⟩
        · exact describes_of_get? rfl hm hraw
        · exact describes_of_get? rfl hm hraw
      · have hpromise : type = "Promise".toList := by
          split at htype
          · exact (Option.some.inj htype).symm
          · cases htype
        rw [hpromise]
        exact Profile.isPlainType_of_name .typescript config (by decide)
  binding {line d} h := by
    obtain ⟨m, hm, rfl⟩ := Option.map_eq_some_iff.mp h
    intro _ type htype
    obtain ⟨raw, hraw, rfl⟩ := Option.map_eq_some_iff.mp htype
    exact TypeScript.isPlainType_normalizeType config (Or.inl rfl) (describes_of_get? rfl hm hraw)
  arguments _ raw arg harg := by
    obtain ⟨piece, -, rfl⟩ := List.mem_map.mp harg
    exact TypeScript.isWord_of_mem_argument piece

/-! ### PHP -/

namespace Php

/-- The characters of a type name are plain. -/
theorem isPlain_of_isTypeChar {c : Char} (h : isTypeChar c = true) :
    (Profile.of .php config).isPlain c = true := by
  simp only [isTypeChar, isNameChar, Bool.or_eq_true, beq_iff_eq] at h
  rcases h with ((h | rfl) | rfl) | rfl
  · exact Profile.isPlain_of_isDollarChar .php config (by simp [isDollarChar, h])
  all_goals rfl

/-- A type name goes on with at least the characters that can start one. -/
theorem isTypeChar_of_isTypeStart {c : Char} (h : isTypeStart c = true) : isTypeChar c = true := by
  simp only [isTypeStart, isTypeChar, isNameStart, isNameChar, Char.isAlphanum,
    Bool.or_eq_true] at h ⊢
  tauto

/-- A type name is a plain type. -/
theorem isPlainType_typeName {t : Text} (h : typeName.Describes t) :
    IsPlainType (Profile.of .php config) t := by
  have hstart : ∀ c, isTypeStart c = true → (Profile.of .php config).isPlain c = true :=
    fun c hc => isPlain_of_isTypeChar config (isTypeChar_of_isTypeStart hc)
  exact isPlainType_of_describes h ⟨hstart, fun c => isPlain_of_isTypeChar config⟩ (Or.inl hstart)

/-- A type that may be null is plain if the type is. -/
theorem isPlainType_orNull {t : Text} (h : IsPlainType (Profile.of .php config) t)
    (nullable : Bool) : IsPlainType (Profile.of .php config) (orNull t nullable) := by
  have hnull : ∀ c ∈ "|null".toList, (Profile.of .php config).isPlain c = true := by
    have hall : "|null".toList.all (Profile.of .php {}).isPlain = true := by decide
    exact List.all_eq_true.mp hall
  unfold orNull
  split
  · exact h.append hnull
  · exact h

/-- The type of a parameter is plain, if there is one. -/
theorem isPlainType_of_mem_argument (raw : Text) :
    ∀ type ∈ (argument raw).type, IsPlainType (Profile.of .php config) type := by
  unfold argument
  simp only
  generalize promotion.replaceFirst [] (trim raw) = raw
  intro type htype
  split at htype
  · next m hm =>
    obtain rfl := Option.some.inj htype
    have hsplat : ∀ c ∈ "[]".toList, (Profile.of .php config).isPlain c = true := by
      have hall : "[]".toList.all (Profile.of .php {}).isPlain = true := by decide
      exact List.all_eq_true.mp hall
    apply isPlainType_orNull
    apply (isPlainType_typeName config (describes_get rfl rfl hm)).append
    split
    · exact hsplat
    · exact nofun
  · split at htype
    · exact Option.some.inj htype ▸ Profile.isPlainType_of_name .php config (by decide)
    · split at htype
      · cases htype
      · cases htype

end Php

/-- Whatever is declared in PHP, its types fit the columns. -/
theorem fits_php : php.Fits (Profile.of .php config) where
  classLike {line d} h := by
    obtain ⟨m, hm, rfl⟩ := Option.map_eq_some_iff.mp h
    have hstart : ∀ c, isNameStart c = true → (Profile.of .php config).isPlain c = true :=
      fun c hc => Php.isPlain_of_isTypeChar config
        (Php.isTypeChar_of_isTypeStart (by simp [Php.isTypeStart, hc]))
    refine fun _ => isLine_of_mem_parent hm rfl ?_ (Or.inr (Or.inl hstart))
    refine ⟨⟨?_, trivial⟩, hstart, ?_⟩
    · exact fun c hc => List.mem_singleton.mp hc ▸ rfl
    · intro c hc
      apply Php.isPlain_of_isTypeChar config
      simp only [Bool.or_eq_true] at hc
      simp only [Php.isTypeChar, Bool.or_eq_true]
      exact Or.inl hc
  callable {line d} h := by
    obtain ⟨m, hm, rfl⟩ := Option.map_eq_some_iff.mp h
    refine fun _ => ⟨rfl, fun type htype => ?_⟩
    simp only [Option.mem_def] at htype
    split at htype
    · cases htype
    · obtain rfl := Option.some.inj htype
      apply Php.isPlainType_orNull
      cases hresult : m.get? .result with
      | none => exact Profile.isPlainType_of_name .php config (by decide)
      | some t =>
        have htype : ∀ c, Php.isTypeChar c = true → (Profile.of .php config).isPlain c = true :=
          fun _ => Php.isPlain_of_isTypeChar config
        refine isPlainType_of_describes (describes_of_get? rfl hm hresult) ?_ ?_
        · exact ⟨htype, htype⟩
        · exact Or.inl htype
  binding {line d} h := by
    obtain ⟨m, hm, hd⟩ := Option.bind_eq_some_iff.mp h
    split at hd
    · cases hd
    · obtain rfl := Option.some.inj hd
      intro _ type htype
      obtain ⟨t, ht, rfl⟩ := Option.map_eq_some_iff.mp htype
      apply Php.isPlainType_orNull
      exact Php.isPlainType_typeName config (describes_of_get? rfl hm ht)
  arguments _ raw arg harg type htype := by
    obtain ⟨piece, -, rfl⟩ := List.mem_map.mp harg
    exact (Php.isPlainType_of_mem_argument config piece type htype).isWord

/-! ### Ruby -/

/-- Ruby documents no parents, so those of a class need not fit anything. -/
theorem Ruby.parents_eq_none : (Profile.of .ruby config).tags.parents = none := by
  simp only [Profile.of]
  split <;> rfl

/-- Whatever is declared in Ruby, its types fit the columns. -/
theorem fits_ruby : ruby.Fits (Profile.of .ruby config) where
  classLike {line d} h := by
    obtain ⟨m, -, rfl⟩ := Option.map_eq_some_iff.mp h
    intro hparents
    rw [Ruby.parents_eq_none] at hparents
    cases hparents
  callable {line d} h := by
    obtain ⟨m, -, rfl⟩ := Option.map_eq_some_iff.mp h
    refine fun _ => ⟨rfl, fun type htype => ?_⟩
    simp only [Option.mem_def] at htype
    split at htype
    · exact Option.some.inj htype ▸ Profile.isPlainType_of_name .ruby config (by decide)
    · cases htype
  binding {line d} h := by
    obtain ⟨m, -, rfl⟩ := Option.map_eq_some_iff.mp h
    exact fun _ => nofun
  arguments _ raw arg harg type htype := by
    obtain ⟨piece, -, rfl⟩ := List.mem_map.mp harg
    simp only [Ruby.argument] at htype
    split at htype
    · cases htype
    · obtain ⟨sigil, -, rfl⟩ := Option.map_eq_some_iff.mp htype
      unfold Ruby.sigilType
      split
      · decide
      · split <;> decide

/-! ### C and Objective-C -/

/-- Whatever is declared in Objective-C, its types fit the columns. -/
theorem fits_objectiveC : objectiveC.Fits (Profile.of .objc config) where
  classLike {line d} h := by
    obtain ⟨m, hm, rfl⟩ := Option.map_eq_some_iff.mp h
    have hname : ∀ c, isDollarChar c = true → (Profile.of .objc config).isPlain c = true :=
      fun _ => Profile.isPlain_of_isDollarChar .objc config
    exact fun _ => isLine_of_mem_parent hm rfl (within_dollarName hname) (meets_dollarName hname)
  callable {line d} h := by
    simp only [objectiveC, ObjectiveC.callable, Option.orElse_eq_or, Option.or_eq_some_iff,
      Option.map_eq_some_iff] at h
    rcases h with ⟨m, -, rfl⟩ | ⟨-, m, -, rfl⟩ <;> exact nofun
  binding {line d} h := by
    obtain ⟨m, -, rfl⟩ := Option.map_eq_some_iff.mp h
    exact nofun
  arguments := nofun

/-- The name of a base class is the rest of its text, and not empty. -/
theorem Cpp.name_of_basePattern {base : Text} {b : Match} (h : basePattern.find base = some b) :
    b.get .name <:+ base ∧ b.get .name ≠ [] ∧ OneLine (b.get .name) := by
  obtain ⟨s, later, hrest, -, hlater, hparts⟩ := exists_mem_ends_of_findFrom h
  obtain ⟨named, hnamed, hfinish⟩ := List.mem_flatMap.mp hlater
  obtain ⟨mid, hmid, hgroup⟩ := List.mem_flatMap.mp hnamed
  obtain ⟨stop, hstop, rfl⟩ := List.mem_map.mp hgroup
  simp only [ends] at hfinish
  split at hfinish
  · next hend =>
    obtain rfl := List.mem_singleton.mp hfinish
    have hpassed : mid.passed stop = mid.rest := by
      have happend := passed_append_rest (rest_suffix_of_mem_ends _ hstop)
      have hnil : stop.rest = [] := List.isEmpty_iff.mp hend
      rwa [hnil, List.append_nil] at happend
    have hname : b.get .name = mid.rest := by
      rw [Match.get, Match.get?, hparts, ← hpassed]
      exact congrArg (Option.getD · []) List.lookup_cons_self
    have hdescribes := describes_of_mem_ends _ hstop
    rw [hpassed, ← hname] at hdescribes
    obtain ⟨c, hc, -⟩ := hdescribes.exists_mem (k := (· != '\n')) (Or.inl fun _ => id)
    refine ⟨?_, List.ne_nil_of_mem hc, fun hfeed => ?_⟩
    · rw [hname]
      exact (rest_suffix_of_mem_ends _ hmid).trans hrest
    · have hne := hdescribes.forall_mem (k := (· != '\n')) ⟨fun _ => id, fun _ => id⟩ _ hfeed
      simp at hne
  · cases hfinish

/-- A base class is a line once it is trimmed. -/
theorem Cpp.isLine_base {base : Text} {b : Match} (hbase : EndsTight base)
    (h : basePattern.find base = some b) : IsLine (trim (b.get .name)) := by
  obtain ⟨⟨u, hu⟩, hne, hone⟩ := name_of_basePattern h
  have htight : EndsTight (b.get .name) := by
    rw [← hu] at hbase
    exact (endsTight_append hne).mp hbase
  refine ⟨fun hnil => ?_, startsTight_trim _, endsTight_trim _,
    fun hfeed => hone ((trim_isInfix _).subset hfeed)⟩
  -- The last character of the name would have to be blank.
  have hlast := htight _ (List.getLast?_eq_some_getLast hne)
  have hblanks : compact (b.get .name) = [] := by rw [← compact_trim, hnil]; rfl
  have hmem : (b.get .name).getLast hne ∈ compact (b.get .name) :=
    List.mem_filter.mpr ⟨List.getLast_mem hne, by simp [hlast]⟩
  rw [hblanks] at hmem
  cases hmem

/-- Whatever is declared in C++, its types fit the columns. -/
theorem fits_cpp : cpp.Fits (Profile.of .cpp config) where
  classLike {line d} h := by
    obtain ⟨m, -, rfl⟩ := Option.map_eq_some_iff.mp h
    intro _ type htype
    obtain ⟨base, hbase, hfound⟩ := List.mem_filterMap.mp htype
    obtain ⟨b, hb, rfl⟩ := Option.map_eq_some_iff.mp hfound
    obtain ⟨hpiece, -⟩ := List.mem_filter.mp hbase
    obtain ⟨piece, -, rfl⟩ := List.mem_map.mp hpiece
    exact Cpp.isLine_base (endsTight_trim piece) hb
  callable {line d} h := by
    obtain ⟨m, -, hd⟩ := Option.bind_eq_some_iff.mp h
    simp only at hd
    split at hd
    · cases hd
    · obtain rfl := Option.some.inj hd
      exact nofun
  binding {line d} h := by
    obtain ⟨m, -, hd⟩ := Option.bind_eq_some_iff.mp h
    split at hd
    · cases hd
    · obtain rfl := Option.some.inj hd
      exact nofun
  arguments := nofun

end Grammar

/-- **Whatever a grammar reads fits into the columns of its dialect.** -/
theorem Language.fits_grammar (language : Language) (config : Config) :
    language.grammar.Fits (Profile.of language config) := by
  cases language with
  | javascript => exact Grammar.fits_javaScript config
  | typescript => exact Grammar.fits_typeScript config
  | php => exact Grammar.fits_php config
  | java => exact Grammar.fits_of_bare rfl rfl _
  | cpp => exact Grammar.fits_cpp config
  | objc => exact Grammar.fits_objectiveC config
  | rust => exact Grammar.fits_of_bare rfl rfl _
  | swift => exact Grammar.fits_of_bare rfl rfl _
  | ruby => exact Grammar.fits_ruby config

end DocComment
