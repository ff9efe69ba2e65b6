import DocComment.Proofs.Text.Words
import DocComment.TagLine

/-!
# What cutting a tag line takes and leaves

Each step of the cut (tag, type, name, separating dash) is a split of the text before it:
the column in the form in which it was written, a run of blanks, and the rest, which starts
tight again.  A step from one `Place` to the next does the same with the text there and counts the
octets it passes (`Place.Cuts`), so the cut of a line can be read without its places.  Which columns
a line is cut into depends on its tag only (`CutsTo`).  Put together, a line is its columns in order
with nothing but blanks and at most one dash between them (`exists_of_ofText?`), and the offset of
its description is the octets before it (`descriptionOffset?_of_ofText?`).
-/

namespace DocComment.TagLine

open Text

/-! ## Cuts of a text -/

/-- What follows the first word and the blanks after it. -/
def afterWord (t : Text) : Text := trimStart (t.dropWhile fun c => !isBlank c)

/-- The type at the start of a text, if there is one, and the text after it. -/
def takeType (p : Profile) (t : Text) : Option Text × Text :=
  match p.typeBrackets?, t with
  | _, [] => (none, [])
  | none, t => (some (word t), afterWord t)
  | some (opener, closer), c :: rest =>
    if c = opener then
      match balanced? opener closer 1 rest with
      | some (type, tail) => (some type, trimStart tail)
      | none => (none, c :: rest)
    else (none, c :: rest)

/-- The name at the start of a text, unless a separating dash stands there, and the text after
it. -/
def takeName (t : Text) : Option Text × Text :=
  if t.isEmpty || (after? "- " t).isSome then (none, t) else (some (word t), afterWord t)

/-- The text after a separating dash, if it starts with one. -/
def dropDash (t : Text) : Text :=
  if trimEnd t = ['-'] || (after? "- " t).isSome then trimStart (t.drop 1) else t

/-- The description that a text holds after its columns, with the octets before it. -/
def describe (line : TagLine) (content rest : Text) : TagLine :=
  let lead := content.take (content.length - rest.length)
  { line with
    description := (trimEnd rest).nonempty?
    descriptionOffset? := (trimEnd rest).nonempty?.map fun _ => octets lead
    lead }

/-! ## The first word -/

/-- A text is its first word, a run of blanks, and what follows. -/
theorem exists_word_append (t : Text) :
    ∃ s, Blanks s ∧ StartsBlank s ∧ t = word t ++ s ++ afterWord t ∧ StartsTight (afterWord t) := by
  obtain ⟨s, hs, hrest⟩ := exists_blanks_append_trimStart (t.dropWhile fun c => !isBlank c)
  refine ⟨s, hs, ?_, ?_, startsTight_trimStart _⟩
  · intro c hc
    exact hs c (List.mem_of_mem_head? hc)
  · calc t = word t ++ t.dropWhile (fun c => !isBlank c) :=
          (List.takeWhile_append_dropWhile).symm
      _ = word t ++ s ++ afterWord t := by rw [List.append_assoc]; exact congrArg _ hrest

/-- The first word of a text that starts tight is a word. -/
theorem isWord_word {t : Text} (hne : t ≠ []) (ht : StartsTight t) : IsWord (word t) := by
  obtain ⟨c, t, rfl⟩ := List.exists_cons_of_ne_nil hne
  constructor
  · simp [word, startsTight_cons.mp ht]
  · intro d hd
    simpa using List.mem_takeWhile_imp hd

/-- A word has no blank in it. -/
theorem isBlank_of_mem_word {t : Text} {c : Char} (hc : c ∈ word t) : isBlank c = false := by
  simpa using List.mem_takeWhile_imp hc

/-- A word that a blank or the end follows is the first word. -/
theorem word_append {w t : Text} (hw : ∀ c ∈ w, isBlank c = false) (ht : StartsBlank t) :
    word (w ++ t) = w := by
  have hw' : ∀ c ∈ w, (!isBlank c) = true := fun c hc => by simp [hw c hc]
  rw [word, List.takeWhile_append_of_pos hw']
  cases t with
  | nil => simp
  | cons c t => simp [startsBlank_cons.mp ht]

/-- Behind a word that a blank or the end follows comes what follows that blank. -/
theorem afterWord_append {w t : Text} (hw : ∀ c ∈ w, isBlank c = false) (ht : StartsBlank t) :
    afterWord (w ++ t) = trimStart t := by
  have hw' : ∀ c ∈ w, (!isBlank c) = true := fun c hc => by simp [hw c hc]
  rw [afterWord, List.dropWhile_append_of_pos hw']
  cases t with
  | nil => rfl
  | cons c t => simp [startsBlank_cons.mp ht]

/-- The first word stops only at a blank or at the end. -/
theorem startsBlank_dropWhile (t : Text) : StartsBlank (t.dropWhile fun c => !isBlank c) := by
  intro c hc
  have h := List.head?_dropWhile_not (fun c => !isBlank c) t
  rw [Option.mem_def] at hc
  rw [hc] at h
  simpa using h

/-- The words of a text that starts tight begin with its first word. -/
theorem words_eq_word_cons {t : Text} (hne : t ≠ []) (ht : StartsTight t) :
    words t = word t :: words (afterWord t) := by
  have hsplit : t = word t ++ t.dropWhile fun c => !isBlank c :=
    (List.takeWhile_append_dropWhile).symm
  rw [afterWord, words_trimStart]
  conv_lhs => rw [hsplit, words_isWord_append (isWord_word hne ht) (startsBlank_dropWhile t)]

/-! ## The type -/

/-- A bracketed text is followed by the closer that ends it. -/
theorem eq_of_balanced? {opener closer : Char} {depth : Nat} {t inner tail : Text}
    (h : balanced? opener closer depth t = some (inner, tail)) :
    t = inner ++ closer :: tail := by
  induction t generalizing depth inner with
  | nil => simp [balanced?] at h
  | cons c t ih =>
    -- Every branch but the last closer goes on with the rest of the text.
    have hnext : ∀ n, (balanced? opener closer n t).map (fun cut => (c :: cut.1, cut.2)) =
        some (inner, tail) → c :: t = inner ++ closer :: tail := by
      intro n hn
      obtain ⟨⟨i, tl⟩, hi, heq⟩ := Option.map_eq_some_iff.mp hn
      obtain ⟨rfl, rfl⟩ := Prod.mk.inj heq
      rw [ih hi]
      rfl
    rw [balanced?] at h
    split at h
    · exact hnext _ h
    · split at h
      · next hc =>
        split at h
        · obtain ⟨rfl, rfl⟩ := Prod.mk.inj (Option.some.inj h)
          rw [hc]
          rfl
        · exact hnext _ h
      · exact hnext _ h

/-- Without brackets a type is written as it is. -/
theorem formatType_of_unbracketed {p : Profile} (hb : p.typeBrackets? = none) (t : Text) :
    p.formatType t = t := by
  unfold Profile.typeBrackets? at hb
  unfold Profile.formatType
  split at hb
  · cases hb
  · rfl

/-- With brackets a type is written between them. -/
theorem formatType_of_bracketed {p : Profile} {opener closer : Char}
    (hb : p.typeBrackets? = some (opener, closer)) (t : Text) :
    p.formatType t = opener :: t ++ [closer] := by
  unfold Profile.typeBrackets? at hb
  unfold Profile.formatType
  split at hb
  · cases hb
    rfl
  · cases hb

section TakeType

variable {p : Profile} {opener closer : Char}

@[simp] theorem takeType_nil : takeType p [] = (none, []) := by
  simp [takeType]

/-- Without brackets a type is the next word. -/
theorem takeType_of_unbracketed (hb : p.typeBrackets? = none) {t : Text} (ht : t ≠ []) :
    takeType p t = (some (word t), afterWord t) := by
  obtain ⟨c, t, rfl⟩ := List.exists_cons_of_ne_nil ht
  simp [takeType, hb]

/-- With brackets a type is what stands between them. -/
theorem takeType_of_balanced (hb : p.typeBrackets? = some (opener, closer)) {t type tail : Text}
    (ht : balanced? opener closer 1 t = some (type, tail)) :
    takeType p (opener :: t) = (some type, trimStart tail) := by
  simp [takeType, hb, ht]

/-- A bracket that is never closed starts no type. -/
theorem takeType_of_unbalanced (hb : p.typeBrackets? = some (opener, closer)) {t : Text}
    (ht : balanced? opener closer 1 t = none) :
    takeType p (opener :: t) = (none, opener :: t) := by
  simp [takeType, hb, ht]

/-- Without an opening bracket there is no type. -/
theorem takeType_of_ne_opener (hb : p.typeBrackets? = some (opener, closer)) {c : Char}
    (hc : c ≠ opener) (t : Text) : takeType p (c :: t) = (none, c :: t) := by
  simp [takeType, hb, hc]

/-- A type is a split of the text: as it was written, blanks, and the rest. -/
theorem exists_of_takeType {t : Text} (ht : StartsTight t) :
    ∃ s, Blanks s ∧ StartsTight (takeType p t).2 ∧
      t = ((takeType p t).1.map p.formatType).getD [] ++ s ++ (takeType p t).2 := by
  cases t with
  | nil => exact ⟨[], by simp⟩
  | cons c t =>
    cases hb : p.typeBrackets? with
    | none =>
      obtain ⟨s, hs, -, hsplit, htight⟩ := exists_word_append (c :: t)
      refine ⟨s, hs, ?_⟩
      rw [takeType_of_unbracketed hb (List.cons_ne_nil c t)]
      refine ⟨htight, ?_⟩
      simpa [formatType_of_unbracketed hb] using hsplit
    | some brackets =>
      obtain ⟨opener, closer⟩ := brackets
      by_cases hc : c = opener
      · subst hc
        cases hbal : balanced? c closer 1 t with
        | none =>
          rw [takeType_of_unbalanced hb hbal]
          exact ⟨[], blanks_nil, ht, rfl⟩
        | some cut =>
          obtain ⟨type, tail⟩ := cut
          obtain ⟨s, hs, htail⟩ := exists_blanks_append_trimStart tail
          rw [takeType_of_balanced hb hbal]
          refine ⟨s, hs, startsTight_trimStart tail, ?_⟩
          have hwritten : (Option.map p.formatType (some type)).getD [] = c :: type ++ [closer] :=
            formatType_of_bracketed hb type
          rw [hwritten, eq_of_balanced? hbal, List.append_assoc, ← htail]
          simp
      · rw [takeType_of_ne_opener hb hc]
        exact ⟨[], blanks_nil, ht, rfl⟩

end TakeType

/-! ## The name and the dash -/

/-- A name is a split of the text: the name, blanks, and the rest. -/
theorem exists_of_takeName {t : Text} (ht : StartsTight t) :
    ∃ s, Blanks s ∧ StartsTight (takeName t).2 ∧
      t = (takeName t).1.getD [] ++ s ++ (takeName t).2 := by
  by_cases h : (t.isEmpty || (after? "- " t).isSome) = true
  · exact ⟨[], blanks_nil, by simp only [takeName, if_pos h]; exact ⟨ht, rfl⟩⟩
  · obtain ⟨s, hs, -, hsplit, htight⟩ := exists_word_append t
    refine ⟨s, hs, ?_⟩
    simp only [takeName, if_neg h]
    exact ⟨htight, hsplit⟩

/-- A text that ends at a lone dash or goes on after one starts with it. -/
theorem eq_dash_cons {t : Text}
    (h : (trimEnd t = ['-'] || (after? "- " t).isSome) = true) : t = '-' :: t.drop 1 := by
  rcases Bool.or_eq_true _ _ ▸ h with h | h
  · obtain ⟨s, -, hs⟩ := exists_trimEnd_append_blanks t
    rw [of_decide_eq_true h] at hs
    rw [hs]
    rfl
  · obtain ⟨rest, hrest⟩ := Option.isSome_iff_exists.mp h
    rw [eq_append_of_after? hrest]
    rfl

/-- Dropping the dash is a split of the text: at most one dash, blanks, and the rest. -/
theorem exists_of_dropDash {t : Text} (ht : StartsTight t) :
    ∃ dash s, (dash = [] ∨ dash = ['-']) ∧ Blanks s ∧ StartsTight (dropDash t) ∧
      t = dash ++ s ++ dropDash t := by
  by_cases h : (trimEnd t = ['-'] || (after? "- " t).isSome) = true
  · obtain ⟨s, hs, hrest⟩ := exists_blanks_append_trimStart (t.drop 1)
    refine ⟨['-'], s, Or.inr rfl, hs, ?_⟩
    simp only [dropDash, if_pos h]
    refine ⟨startsTight_trimStart _, ?_⟩
    rw [List.append_assoc, ← hrest]
    exact eq_dash_cons h
  · refine ⟨[], [], Or.inl rfl, blanks_nil, ?_⟩
    simp only [dropDash, if_neg h]
    exact ⟨ht, rfl⟩

/-! ## Places -/

/-- The text before `description` is what is left when its length is taken off. -/
theorem take_append_sub_length (lead description : Text) :
    (lead ++ description).take ((lead ++ description).length - description.length) = lead := by
  rw [List.length_append, Nat.add_sub_cancel, List.take_left]

namespace Place

variable {content : Text} {s : Place}

/-- A place of a line counts the octets of the line in front of it. -/
def In (content : Text) (s : Place) : Prop :=
  ∃ before, content = before ++ s.rest ∧ s.position = octets before

/-- A line starts at octet zero. -/
theorem in_start (content : Text) : In content ⟨0, content⟩ := ⟨[], rfl, rfl⟩

/-- A place moves on by the octets of the text it passes. -/
theorem In.pass (h : s.In content) {passed rest : Text} (hrest : s.rest = passed ++ rest) :
    In content ⟨s.position + octets passed, rest⟩ := by
  obtain ⟨before, hcontent, hposition⟩ := h
  refine ⟨before ++ passed, ?_, ?_⟩
  · rw [hcontent, hrest, List.append_assoc]
  · rw [octets_append, hposition]

/-- A place counts the blanks that are skipped. -/
theorem In.skipBlanks (h : s.In content) : s.skipBlanks.In content :=
  h.pass List.takeWhile_append_dropWhile.symm

/-- A place counts the word that is skipped and the blanks after it. -/
theorem In.skipWord (h : s.In content) : s.skipWord.In content :=
  (h.pass List.takeWhile_append_dropWhile.symm).skipBlanks

@[simp] theorem rest_skipWord (s : Place) : s.skipWord.rest = afterWord s.rest := rfl

/-- What a cut at a place has to do with the cut of the text there: it takes the same column and
leaves the same rest, and its new place counts right if the old one did. -/
structure Cuts (s : Place) (cut : Option Text × Place) (column : Option Text × Text) : Prop where
  column_eq : cut.1 = column.1
  rest_eq : cut.2.rest = column.2
  counts : ∀ {content}, s.In content → cut.2.In content

/-- A cut that takes nothing stays at its place. -/
theorem cuts_none (s : Place) : s.Cuts (none, s) (none, s.rest) := ⟨rfl, rfl, id⟩

/-- A cut that takes the first word goes on behind it. -/
theorem cuts_word (s : Place) :
    s.Cuts (some (word s.rest), s.skipWord) (some (word s.rest), afterWord s.rest) :=
  ⟨rfl, rfl, In.skipWord⟩

/-- A type is cut off at a place as it is off the text there, and its brackets are counted with
it. -/
theorem cuts_takeType (p : Profile) (s : Place) :
    s.Cuts (s.takeType p) (TagLine.takeType p s.rest) := by
  obtain ⟨position, t⟩ := s
  cases t with
  | nil => simpa [takeType] using cuts_none ⟨position, []⟩
  | cons c t =>
    cases hb : p.typeBrackets? with
    | none =>
      rw [takeType_of_unbracketed hb (List.cons_ne_nil c t)]
      simpa [takeType, hb] using cuts_word ⟨position, c :: t⟩
    | some brackets =>
      obtain ⟨opener, closer⟩ := brackets
      by_cases hc : c = opener
      · subst hc
        cases hbal : balanced? c closer 1 t with
        | none =>
          rw [takeType_of_unbalanced hb hbal]
          simpa [takeType, hb, hbal] using cuts_none ⟨position, c :: t⟩
        | some cut =>
          obtain ⟨type, tail⟩ := cut
          have hpassed : c :: t = c :: type ++ [closer] ++ tail := by
            rw [eq_of_balanced? hbal, List.append_assoc]
            rfl
          have hoctets : octets (c :: type ++ [closer]) =
              c.utf8Size + octets type + closer.utf8Size := by
            rw [octets_append]
            rfl
          rw [takeType_of_balanced hb hbal]
          simp only [takeType, hb, hbal, if_pos]
          refine ⟨rfl, rfl, fun h => ?_⟩
          have hclosed := (h.pass hpassed).skipBlanks
          rwa [hoctets, ← Nat.add_assoc, ← Nat.add_assoc] at hclosed
      · rw [takeType_of_ne_opener hb hc]
        simpa [takeType, hb, hc] using cuts_none ⟨position, c :: t⟩

/-- A name is cut off at a place as it is off the text there. -/
theorem cuts_takeName (s : Place) : s.Cuts s.takeName (TagLine.takeName s.rest) := by
  unfold takeName TagLine.takeName
  split
  · exact cuts_none s
  · exact cuts_word s

/-- A dash is dropped at a place as it is off the text there. -/
theorem rest_dropDash (s : Place) : s.dropDash.rest = TagLine.dropDash s.rest := by
  unfold dropDash TagLine.dropDash
  split <;> rfl

/-- A dash is one octet. -/
theorem In.dropDash (h : s.In content) : s.dropDash.In content := by
  unfold Place.dropDash
  split
  · next hdash =>
    have hpassed : s.rest = ['-'] ++ s.rest.drop 1 := eq_dash_cons hdash
    exact (h.pass hpassed).skipBlanks
  · exact h

/-- At a place that counts right the description is described as without places. -/
theorem In.describeAt_eq (h : s.In content) (line : TagLine) :
    describeAt line content s = describe line content s.rest := by
  obtain ⟨before, hcontent, hposition⟩ := h
  simp only [describeAt, describe, hposition]
  rw [hcontent, take_append_sub_length]

end Place

/-! ## The whole line -/

/-- The type column, which is empty where the tag has none. -/
def cutType (p : Profile) (has : Bool) (t : Text) : Option Text × Text :=
  if has then takeType p t else (none, t)

/-- The name column, which is empty where the tag has none. -/
def cutName (has : Bool) (t : Text) : Option Text × Text :=
  if has then takeName t else (none, t)

/-- A type column, with or without a type in it, is a split of the text. -/
theorem exists_of_cutType {p : Profile} (has : Bool) {t : Text} (ht : StartsTight t) :
    ∃ s, Blanks s ∧ StartsTight (cutType p has t).2 ∧
      t = ((cutType p has t).1.map p.formatType).getD [] ++ s ++ (cutType p has t).2 := by
  cases has with
  | false => exact ⟨[], blanks_nil, ht, rfl⟩
  | true => exact exists_of_takeType ht

/-- A name column, with or without a name in it, is a split of the text. -/
theorem exists_of_cutName (has : Bool) {t : Text} (ht : StartsTight t) :
    ∃ s, Blanks s ∧ StartsTight (cutName has t).2 ∧
      t = (cutName has t).1.getD [] ++ s ++ (cutName has t).2 := by
  cases has with
  | false => exact ⟨[], blanks_nil, ht, rfl⟩
  | true => exact exists_of_takeName ht

/-- A type column is cut off at a place as it is off the text there. -/
theorem cuts_cutType (p : Profile) (has : Bool) (s : Place) :
    s.Cuts (if has then s.takeType p else (none, s)) (cutType p has s.rest) := by
  cases has with
  | false => exact s.cuts_none
  | true => exact s.cuts_takeType p

/-- A name column is cut off at a place as it is off the text there. -/
theorem cuts_cutName (has : Bool) (s : Place) :
    s.Cuts (if has then s.takeName else (none, s)) (cutName has s.rest) := by
  cases has with
  | false => exact s.cuts_none
  | true => exact s.cuts_takeName

section OfText

variable {p : Profile} {content : Text}

/-- A free tag is cut into the tag and what follows it. -/
theorem ofText?_of_free (hintro : content.head?.any p.isIntroducer = true)
    (hlen : 1 < (word content).length) (hcols : p.columns? (word content) = none) :
    ofText? p content = some (describe
      { tag := word content, lead := [], structured := false } content (afterWord content)) := by
  have hlen' : ¬ (word content).length ≤ 1 := by omega
  have hplace := (Place.in_start content).skipWord
  simp only [ofText?, hintro, hlen', hcols, Bool.not_true, decide_false, Bool.or_self,
    Bool.false_eq_true, if_false, hplace.describeAt_eq, Place.rest_skipWord]

/-- A structured tag is cut into its type, its name and what follows a dash. -/
theorem ofText?_of_structured (hintro : content.head?.any p.isIntroducer = true)
    (hlen : 1 < (word content).length) {columns : Columns}
    (hcols : p.columns? (word content) = some columns) :
    ofText? p content =
      let afterType := cutType p columns.type (afterWord content)
      let afterName := cutName columns.name afterType.2
      some (describe
        { tag := word content, type := afterType.1, name := afterName.1, lead := []
          structured := true } content (dropDash afterName.2)) := by
  have hlen' : ¬ (word content).length ≤ 1 := by omega
  let start : Place := Place.skipWord ⟨0, content⟩
  have htype := cuts_cutType p columns.type start
  have hname := cuts_cutName columns.name
    (if columns.type then start.takeType p else (none, start)).2
  have hplace := (hname.counts (htype.counts (Place.in_start content).skipWord)).dropDash
  simp only [ofText?, hintro, hlen', hcols, Bool.not_true, decide_false, Bool.or_self,
    Bool.false_eq_true, if_false]
  rw [hplace.describeAt_eq, Place.rest_dropDash, hname.rest_eq, hname.column_eq, htype.rest_eq,
    htype.column_eq]
  rfl

/-- A line starts with a tag exactly if its first word is an introducer and something more. -/
theorem isSome_ofText?_iff :
    (ofText? p content).isSome = true ↔
      content.head?.any p.isIntroducer = true ∧ 1 < (word content).length := by
  constructor
  · intro h
    by_contra hnot
    have hcond : (!content.head?.any p.isIntroducer || decide ((word content).length ≤ 1)) = true := by
      rw [not_and_or] at hnot
      rcases hnot with hnot | hnot
      · simp [hnot]
      · simp [Nat.le_of_not_lt hnot]
    rw [ofText?, if_pos hcond] at h
    cases h
  · rintro ⟨hintro, hlen⟩
    cases hcols : p.columns? (word content) with
    | none => rw [ofText?_of_free hintro hlen hcols]; rfl
    | some columns => rw [ofText?_of_structured hintro hlen hcols]; rfl

/-- What the line `content` is cut into: a tag and its free value, or the columns of the tag. -/
inductive CutsTo (p : Profile) (content : Text) : TagLine → Prop
  | free (hcols : p.columns? (word content) = none) :
      CutsTo p content (describe { tag := word content, lead := [], structured := false } content
        (afterWord content))
  | structured {columns : Columns} (hcols : p.columns? (word content) = some columns) :
      CutsTo p content (describe
        { tag := word content
          type := (cutType p columns.type (afterWord content)).1
          name := (cutName columns.name (cutType p columns.type (afterWord content)).2).1
          lead := [], structured := true } content
        (dropDash (cutName columns.name (cutType p columns.type (afterWord content)).2).2))

/-- A tag line is cut in one of the two ways. -/
theorem cutsTo_of_ofText? {line : TagLine} (h : ofText? p content = some line) :
    CutsTo p content line := by
  obtain ⟨hintro, hlen⟩ := isSome_ofText?_iff.mp (Option.isSome_of_eq_some h)
  cases hcols : p.columns? (word content) with
  | none =>
    obtain rfl := Option.some.inj ((ofText?_of_free hintro hlen hcols).symm.trans h)
    exact .free hcols
  | some columns =>
    obtain rfl := Option.some.inj ((ofText?_of_structured hintro hlen hcols).symm.trans h)
    exact .structured hcols

/-- The columns of a tag line in order, each as it is written, with blanks between them and a
dash, if there is one, in front of the description. -/
def Spells (p : Profile) (line : TagLine) (dash content : Text) : Prop :=
  ∃ s₀ s₁ s₂ s₃ s₄, (Blanks s₀ ∧ Blanks s₁ ∧ Blanks s₂ ∧ Blanks s₃ ∧ Blanks s₄) ∧
    content = line.tag ++ s₀ ++ (line.type.map p.formatType).getD [] ++ s₁ ++
      line.name.getD [] ++ s₂ ++ dash ++ s₃ ++ line.description.getD [] ++ s₄

theorem getD_nonempty? (t : Text) : t.nonempty?.getD [] = t := by
  cases t <;> rfl

theorem nonempty?_eq_some {t : Text} (h : t ≠ []) : t.nonempty? = some t := by
  simp [nonempty?, h]

/-- What is left of a text when it is not empty is the text. -/
theorem eq_of_nonempty? {t u : Text} (h : t.nonempty? = some u) : u = t ∧ t ≠ [] := by
  cases t with
  | nil => cases h
  | cons c t => exact ⟨(Option.some.inj h).symm, List.cons_ne_nil c t⟩

/-- **A tag line is its columns in order.**  Only a structured line can lose a dash. -/
theorem exists_of_ofText? {line : TagLine} (h : ofText? p content = some line) :
    ∃ dash, (dash = [] ∨ line.structured = true ∧ dash = ['-']) ∧ Spells p line dash content := by
  obtain ⟨s₀, hs₀, -, hsplit, htight⟩ := exists_word_append content
  cases cutsTo_of_ofText? h with
  | free =>
    obtain ⟨s₄, hs₄, hrest⟩ := exists_trimEnd_append_blanks (afterWord content)
    refine ⟨[], Or.inl rfl, s₀, [], [], [], s₄,
      ⟨hs₀, blanks_nil, blanks_nil, blanks_nil, hs₄⟩, ?_⟩
    simp only [describe, getD_nonempty?, Option.map_none, Option.getD_none, List.append_nil]
    rw [List.append_assoc, ← hrest]
    exact hsplit
  | @structured columns =>
    obtain ⟨s₁, hs₁, htight₁, hsplit₁⟩ := exists_of_cutType (p := p) columns.type htight
    obtain ⟨s₂, hs₂, htight₂, hsplit₂⟩ := exists_of_cutName columns.name htight₁
    obtain ⟨dash, s₃, hdash, hs₃, -, hsplit₃⟩ := exists_of_dropDash htight₂
    obtain ⟨s₄, hs₄, hrest⟩ := exists_trimEnd_append_blanks
      (dropDash (cutName columns.name (cutType p columns.type (afterWord content)).2).2)
    refine ⟨dash, hdash.imp id fun hd => ⟨rfl, hd⟩, s₀, s₁, s₂, s₃, s₄,
      ⟨hs₀, hs₁, hs₂, hs₃, hs₄⟩, ?_⟩
    have hcolumns : afterWord content =
        ((cutType p columns.type (afterWord content)).1.map p.formatType).getD [] ++ s₁ ++
        ((cutName columns.name (cutType p columns.type (afterWord content)).2).1.getD [] ++ s₂ ++
        (dash ++ s₃ ++ (trimEnd (dropDash
          (cutName columns.name (cutType p columns.type (afterWord content)).2).2) ++ s₄))) := by
      rw [← hrest, ← hsplit₃, ← hsplit₂]
      exact hsplit₁
    simp only [describe, getD_nonempty?]
    conv_lhs => rw [hsplit, hcolumns]
    simp only [List.append_assoc]

/-- A tag line is its lead and what its description is trimmed from. -/
theorem exists_rest_of_ofText? {line : TagLine} (h : ofText? p content = some line) :
    ∃ rest, content = line.lead ++ rest ∧ StartsTight rest ∧
      line.description = (trimEnd rest).nonempty? := by
  obtain ⟨s₀, -, -, hsplit, htight⟩ := exists_word_append content
  have hafter : afterWord content <:+ content := ⟨_, hsplit.symm⟩
  cases cutsTo_of_ofText? h with
  | free => exact ⟨afterWord content, (List.suffix_iff_eq_append.mp hafter).symm, htight, rfl⟩
  | @structured columns =>
    obtain ⟨s₁, -, htight₁, hsplit₁⟩ := exists_of_cutType (p := p) columns.type htight
    obtain ⟨s₂, -, htight₂, hsplit₂⟩ := exists_of_cutName columns.name htight₁
    obtain ⟨dash, s₃, -, -, htight₃, hsplit₃⟩ := exists_of_dropDash htight₂
    have hsuffix : dropDash
        (cutName columns.name (cutType p columns.type (afterWord content)).2).2 <:+ content :=
      (List.IsSuffix.trans ⟨_, hsplit₃.symm⟩ ⟨_, hsplit₂.symm⟩).trans
        (List.IsSuffix.trans ⟨_, hsplit₁.symm⟩ hafter)
    exact ⟨_, (List.suffix_iff_eq_append.mp hsuffix).symm, htight₃, rfl⟩

/-- **The description starts at the octets of the text before it.** -/
theorem descriptionOffset?_of_ofText? {line : TagLine} (h : ofText? p content = some line) :
    line.descriptionOffset? = line.description.map fun _ => octets line.lead := by
  cases cutsTo_of_ofText? h with
  | free | structured => rfl

/-- Only a structured line has a type or a name. -/
theorem type_name_of_not_structured {line : TagLine} (h : ofText? p content = some line)
    (hs : line.structured = false) : line.type = none ∧ line.name = none := by
  cases cutsTo_of_ofText? h with
  | free => exact ⟨rfl, rfl⟩
  | structured => cases hs

end OfText

end DocComment.TagLine
