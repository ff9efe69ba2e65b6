import DocComment.Proofs.TagLine.Cut
import DocComment.Proofs.Text.Occurrence

/-!
# A tag line that ends behind the first word of its description

Each cut of a tag line looks no further than the column that it takes, so it takes the same column
when the line ends earlier (`takeType_append`, `cutName_append`, `dropDash_append`).  What is left
behind the columns is then the shorter description, with one exception: a description that starts
with a dash and is cut off behind it is taken for a separating dash.  So a tag line that ends behind
the first word of its description has this word for its description, or none (`ofText?_cutOff`).
-/

namespace DocComment.TagLine

open Text

/-! ## Beginnings of a text -/

/-- A beginning of a text that starts tight starts tight. -/
theorem startsTight_of_isPrefix {r t : Text} (hne : r ≠ []) (hr : r <+: t) (ht : StartsTight t) :
    StartsTight r := by
  obtain ⟨u, rfl⟩ := hr
  exact (startsTight_append hne).mp ht

/-- There is a gap behind the first word if something follows it. -/
theorem exists_gap_append {t : Text} (h : afterWord t ≠ []) :
    ∃ s, Blanks s ∧ s ≠ [] ∧ t = word t ++ s ++ afterWord t := by
  obtain ⟨s, hs, -, hsplit, htight⟩ := exists_word_append t
  refine ⟨s, hs, ?_, hsplit⟩
  rintro rfl
  have hdrop : t.dropWhile (fun c => !isBlank c) = afterWord t := by
    have hword : t = word t ++ t.dropWhile fun c => !isBlank c :=
      (List.takeWhile_append_dropWhile).symm
    rw [List.append_nil] at hsplit
    exact List.append_cancel_left (hword.symm.trans hsplit)
  obtain ⟨c, rest, hrest⟩ := List.exists_cons_of_ne_nil h
  have hblank := startsBlank_dropWhile t
  rw [hdrop, hrest] at hblank
  rw [hrest, startsTight_cons] at htight
  rw [startsBlank_cons, htight] at hblank
  cases hblank

theorem word_isPrefix (t : Text) : word t <+: t :=
  List.takeWhile_prefix _

theorem append_isPrefix {u w r t : Text} (ht : t = u ++ r) (hw : w <+: r) : u ++ w <+: t := by
  rw [ht]
  exact (List.prefix_append_right_inj u).mpr hw

/-! ## One cut at a time -/

section Cuts

variable {p : Profile} {r t : Text}

/-- The first word is the same in front of any beginning of what follows it. -/
theorem word_append_of_isPrefix (t : Text) :
    ∃ u, t = u ++ afterWord t ∧ ∀ r, r ≠ [] → r <+: afterWord t →
      word (u ++ r) = word t ∧ afterWord (u ++ r) = r := by
  by_cases hrest : afterWord t = []
  · refine ⟨t, by rw [hrest, List.append_nil], fun r hne hr => ?_⟩
    rw [hrest, List.prefix_nil] at hr
    exact absurd hr hne
  · obtain ⟨s, hs, hgap, hsplit⟩ := exists_gap_append hrest
    refine ⟨word t ++ s, hsplit, fun r hne hr => ?_⟩
    have hblank : StartsBlank (s ++ r) := startsBlank_append_of_ne_nil hs fun _ => hgap
    have htight : StartsTight r := startsTight_of_isPrefix hne hr (startsTight_trimStart _)
    have hword : ∀ c ∈ word t, isBlank c = false := fun _ hc => isBlank_of_mem_word hc
    rw [List.append_assoc]
    exact ⟨word_append hword hblank,
      (afterWord_append hword hblank).trans (trimStart_blanks_append hs htight)⟩

/-- A bracket that is never closed is not closed earlier either. -/
theorem balanced?_eq_none_of_isPrefix {opener closer : Char} {depth : Nat} (hr : r <+: t)
    (h : balanced? opener closer depth t = none) : balanced? opener closer depth r = none := by
  cases hcut : balanced? opener closer depth r with
  | none => rfl
  | some cut =>
    obtain ⟨inner, tail⟩ := cut
    obtain ⟨u, rfl⟩ := hr
    have hagain := balanced?_replay hcut (tail ++ u)
    rw [eq_of_balanced? hcut, List.append_assoc, List.cons_append, hagain] at h
    cases h

/-- Where no type starts, none starts when the line ends earlier. -/
theorem Typeless.of_isPrefix {opener closer : Char} (h : Typeless opener closer t)
    (hr : r <+: t) : Typeless opener closer r := by
  cases r with
  | nil => exact Or.inl nofun
  | cons c r =>
    obtain ⟨u, rfl⟩ := hr
    rcases h with hhead | hbalanced
    · exact Or.inl hhead
    · exact Or.inr (balanced?_eq_none_of_isPrefix (List.prefix_append r u) hbalanced)

/-- The type is the same in front of any beginning of what follows it. -/
theorem takeType_append (p : Profile) (t : Text) :
    ∃ u, t = u ++ (takeType p t).2 ∧ ∀ r, r ≠ [] → r <+: (takeType p t).2 →
      takeType p (u ++ r) = ((takeType p t).1, r) := by
  cases hb : p.typeBrackets? with
  | none =>
    by_cases ht : t = []
    · subst ht
      refine ⟨[], by rw [takeType_nil, List.append_nil], fun r hne hr => ?_⟩
      rw [takeType_nil, List.prefix_nil] at hr
      exact absurd hr hne
    · obtain ⟨u, hsplit, hagain⟩ := word_append_of_isPrefix t
      rw [takeType_of_unbracketed hb ht]
      refine ⟨u, hsplit, fun r hne hr => ?_⟩
      obtain ⟨hword, hafter⟩ := hagain r hne hr
      rw [takeType_of_unbracketed hb (by simp [hne]), hword, hafter]
  | some brackets =>
    obtain ⟨opener, closer⟩ := brackets
    cases htype : (takeType p t).1 with
    | none =>
      have hless := typeless_of_takeType hb htype
      rw [takeType_of_typeless hb hless]
      exact ⟨[], rfl, fun r _ hr => takeType_of_typeless hb (hless.of_isPrefix hr)⟩
    | some type =>
      cases t with
      | nil => cases htype
      | cons c t =>
        by_cases hc : c = opener
        · subst hc
          cases hcut : balanced? c closer 1 t with
          | none =>
            rw [takeType_of_unbalanced hb hcut] at htype
            cases htype
          | some cut =>
            obtain ⟨inner, tail⟩ := cut
            obtain ⟨s, hs, htail⟩ := exists_blanks_append_trimStart tail
            rw [takeType_of_balanced hb hcut] at htype ⊢
            obtain rfl : inner = type := Option.some.inj htype
            refine ⟨c :: (inner ++ closer :: s), ?_, fun r hne hr => ?_⟩
            · conv_lhs => rw [eq_of_balanced? hcut, htail]
              simp
            · have htight : StartsTight r :=
                startsTight_of_isPrefix hne hr (startsTight_trimStart tail)
              have hagain := balanced?_replay hcut (s ++ r)
              rw [List.cons_append, List.append_assoc, List.cons_append,
                takeType_of_balanced hb hagain, trimStart_blanks_append hs htight]
        · rw [takeType_of_ne_opener hb hc] at htype
          cases htype

/-- A type column is cut off alike when the line ends later than it, but earlier than before. -/
theorem cutType_append (p : Profile) (has : Bool) (t : Text) :
    ∃ u, t = u ++ (cutType p has t).2 ∧ ∀ r, r ≠ [] → r <+: (cutType p has t).2 →
      cutType p has (u ++ r) = ((cutType p has t).1, r) := by
  cases has with
  | false => exact ⟨[], rfl, fun _ _ _ => rfl⟩
  | true => exact takeType_append p t

/-- In front of a dash there is no name. -/
theorem takeName_of_dash (h : (after? "- " t).isSome = true) : takeName t = (none, t) := by
  rw [takeName, h, Bool.or_true, if_pos rfl]

/-- Without a dash the next word is the name. -/
theorem takeName_of_no_dash (ht : t ≠ []) (h : (after? "- " t).isSome = false) :
    takeName t = (some (word t), afterWord t) := by
  have hempty : t.isEmpty = false := by simpa using ht
  rw [takeName, h, hempty, if_neg (by decide)]

/-- The name is the same in front of any beginning of what follows it, if a separating dash stays
where it stands. -/
theorem cutName_append (has : Bool) (t : Text) :
    ∃ u, t = u ++ (cutName has t).2 ∧ ∀ r, r ≠ [] → r <+: (cutName has t).2 →
      ((after? "- " (cutName has t).2).isSome = true → (after? "- " r).isSome = true) →
        cutName has (u ++ r) = ((cutName has t).1, r) := by
  cases has with
  | false => exact ⟨[], rfl, fun _ _ _ _ => rfl⟩
  | true =>
    simp only [cutName, if_true]
    by_cases ht : t = []
    · subst ht
      refine ⟨[], rfl, fun r hne hr _ => ?_⟩
      exact absurd (List.prefix_nil.mp hr) hne
    · cases hdash : (after? "- " t).isSome with
      | true =>
        rw [takeName_of_dash hdash]
        exact ⟨[], rfl, fun r _ _ hkeeps => takeName_of_dash (hkeeps hdash)⟩
      | false =>
        obtain ⟨u, hsplit, hagain⟩ := word_append_of_isPrefix t
        rw [takeName_of_no_dash ht hdash]
        refine ⟨u, hsplit, fun r hne hr _ => ?_⟩
        obtain ⟨hword, hafter⟩ := hagain r hne hr
        have hprefix : u ++ r <+: t := append_isPrefix hsplit hr
        have hnone : (after? "- " (u ++ r)).isSome = false := by
          rw [← Bool.not_eq_true] at hdash ⊢
          exact fun hsome => hdash (isSome_after?_iff.mpr ((isSome_after?_iff.mp hsome).trans hprefix))
        rw [takeName_of_no_dash (by simp [hne]) hnone, hword, hafter]

/-- A dash is dropped with the blanks after it. -/
theorem dropDash_of_dash (h : (after? "- " t).isSome = true) :
    dropDash t = trimStart (t.drop 1) := by
  rw [dropDash, h, Bool.or_true, if_pos rfl]

/-- Without a dash nothing is dropped. -/
theorem dropDash_of_no_dash (htrim : trimEnd t ≠ ['-']) (h : (after? "- " t).isSome = false) :
    dropDash t = t := by
  rw [dropDash, h, decide_eq_false htrim, if_neg (by decide)]

/-- Behind a description that is a lone word, either the word is left, or it was a dash. -/
theorem dropDash_word {w : Text} (hw : IsWord w) : dropDash w = w ∨ dropDash w = [] := by
  by_cases hdash : w = ['-']
  · subst hdash
    exact Or.inr (by decide)
  · refine Or.inl (dropDash_of_ne hw.startsTight ?_)
    rw [words_of_isWord hw]
    simpa using hdash

/-- A separating dash is dropped in front of the first word of what follows it. -/
theorem dropDash_append (ht : StartsTight t) (hne : dropDash t ≠ []) :
    ∃ u, t = u ++ dropDash t ∧
      ((after? "- " t).isSome = true → (after? "- " (u ++ word (dropDash t))).isSome = true) ∧
      (dropDash (u ++ word (dropDash t)) = word (dropDash t) ∨
        dropDash (u ++ word (dropDash t)) = []) := by
  have hstart : StartsTight (dropDash t) := (exists_of_dropDash ht).choose_spec.choose_spec.2.2.1
  have hword := isWord_word hne hstart
  cases hdash : (after? "- " t).isSome with
  | true =>
    obtain ⟨rest, hrest⟩ := Option.isSome_iff_exists.mp hdash
    obtain rfl : t = '-' :: ' ' :: rest := eq_append_of_after? hrest
    obtain ⟨s, hs, hsplit⟩ := exists_blanks_append_trimStart (' ' :: rest)
    have hdrop : dropDash ('-' :: ' ' :: rest) = trimStart (' ' :: rest) := dropDash_of_dash hdash
    rw [hdrop] at hword ⊢
    obtain ⟨e, s, rfl⟩ : ∃ e s', s = e :: s' := by
      cases s with
      | nil =>
        rw [List.nil_append] at hsplit
        have htight := startsTight_trimStart (' ' :: rest)
        rw [← hsplit] at htight
        exact absurd (startsTight_cons.mp htight) (by decide)
      | cons e s' => exact ⟨e, s', rfl⟩
    obtain ⟨rfl, -⟩ := List.cons.inj hsplit
    have hagain : (after? "- " ('-' :: ' ' :: s ++ word (trimStart (' ' :: rest)))).isSome = true :=
      Option.isSome_of_eq_some (after?_append ['-', ' '] _)
    refine ⟨'-' :: ' ' :: s, ?_, fun _ => hagain, Or.inl ?_⟩
    · rw [List.cons_append, ← hsplit]
    · rw [dropDash_of_dash hagain]
      exact trimStart_blanks_append hs hword.startsTight
  | false =>
    have hkept : dropDash t = t := by
      by_cases htrim : trimEnd t = ['-']
      · -- Nothing stands behind a dash at the end of the line.
        obtain ⟨s, hs, hsplit⟩ := exists_trimEnd_append_blanks t
        have hdrop : dropDash t = trimStart (t.drop 1) := by simp [dropDash, htrim]
        rw [htrim] at hsplit
        rw [hdrop, hsplit] at hne
        exact absurd (trimStart_of_blanks hs) hne
      · exact dropDash_of_no_dash htrim hdash
    rw [hkept] at hword ⊢
    exact ⟨[], rfl, fun h => absurd h Bool.false_ne_true, dropDash_word hword⟩

/-- What is left of a text behind its columns and the dash. -/
def afterColumns (p : Profile) (columns : Columns) (t : Text) : Text :=
  dropDash (cutName columns.name (cutType p columns.type t).2).2

/-- What is left behind the columns starts tight. -/
theorem startsTight_afterColumns (columns : Columns) (ht : StartsTight t) :
    StartsTight (afterColumns p columns t) := by
  obtain ⟨-, -, htype, -⟩ := exists_of_cutType (p := p) columns.type ht
  obtain ⟨-, -, hname, -⟩ := exists_of_cutName columns.name htype
  obtain ⟨-, -, -, -, hdash, -⟩ := exists_of_dropDash hname
  exact hdash

/-- The columns are the same in front of the first word of what follows them, and this word is what
is left, unless it is taken for a dash. -/
theorem afterColumns_append (p : Profile) (columns : Columns) (ht : StartsTight t)
    (hne : afterColumns p columns t ≠ []) :
    ∃ u, t = u ++ afterColumns p columns t ∧
      (afterColumns p columns (u ++ word (afterColumns p columns t)) =
          word (afterColumns p columns t) ∨
        afterColumns p columns (u ++ word (afterColumns p columns t)) = []) := by
  have hword := isWord_word hne (startsTight_afterColumns columns ht)
  obtain ⟨u₁, hsplit₁, hagain₁⟩ := cutType_append p columns.type t
  obtain ⟨-, -, htight₁, -⟩ := exists_of_cutType (p := p) columns.type ht
  obtain ⟨u₂, hsplit₂, hagain₂⟩ := cutName_append columns.name (cutType p columns.type t).2
  obtain ⟨-, -, htight₂, -⟩ := exists_of_cutName columns.name htight₁
  obtain ⟨u₃, hsplit₃, hkeeps, hleft⟩ := dropDash_append htight₂ hne
  refine ⟨u₁ ++ (u₂ ++ u₃), ?_, ?_⟩
  · rw [List.append_assoc, List.append_assoc, afterColumns, ← hsplit₃, ← hsplit₂, ← hsplit₁]
  · unfold afterColumns at hword ⊢
    have hprefix := word_isPrefix
      (dropDash (cutName columns.name (cutType p columns.type t).2).2)
    generalize word _ = w at hkeeps hleft hword hprefix ⊢
    have hr₂ := append_isPrefix hsplit₃ hprefix
    have htype := hagain₁ (u₂ ++ (u₃ ++ w)) (by simp [hword.1]) (append_isPrefix hsplit₂ hr₂)
    have hname := hagain₂ (u₃ ++ w) (by simp [hword.1]) hr₂ hkeeps
    rw [List.append_assoc, List.append_assoc, htype, hname]
    exact hleft

end Cuts

/-! ## The whole line -/

section OfText

variable {p : Profile} {content description : Text} {line : TagLine}

theorem head?_of_isPrefix {r t : Text} (hne : r ≠ []) (hr : r <+: t) : r.head? = t.head? := by
  obtain ⟨u, rfl⟩ := hr
  exact (List.head?_append_of_ne_nil _ hne).symm

/-- A tag stands alone in a line of one word. -/
theorem description_of_isWord {w : Text} (hw : IsWord w) (h : ofText? p w = some line) :
    line.description = none := by
  have hafter : afterWord w = [] := by
    have hsplit := afterWord_append hw.2 startsBlank_nil
    rwa [List.append_nil] at hsplit
  cases cutsTo_of_ofText? h with
  | free =>
    rw [hafter]
    rfl
  | @structured columns =>
    have htype : cutType p columns.type [] = (none, []) := by
      cases columns.type
      · rfl
      · exact takeType_nil (p := p)
    have hname : cutName columns.name [] = (none, []) := by cases columns.name <;> rfl
    simp only [hafter, htype, hname]
    rfl

/-- A word is there, and has no blanks to trim. -/
theorem nonempty?_trimEnd_of_isWord {w : Text} (hw : IsWord w) :
    (trimEnd w).nonempty? = some w := by
  rw [trimEnd_of_endsTight hw.endsTight, nonempty?, if_neg (by simp [hw.1])]

/-- The first word is not affected by trimming the end. -/
theorem word_trimEnd {t : Text} (hne : trimEnd t ≠ []) (ht : StartsTight t) :
    word (trimEnd t) = word t := by
  have hne' : t ≠ [] := by
    rintro rfl
    exact hne rfl
  have hwords := words_trimEnd t
  rw [words_eq_word_cons hne (startsTight_trimEnd ht), words_eq_word_cons hne' ht] at hwords
  exact (List.cons.inj hwords).1

/-- The lead of a line is what stands before the rest. -/
theorem lead_describe (line : TagLine) {lead rest : Text} (h : content = lead ++ rest) :
    (describe line content rest).lead = lead := by
  rw [describe, h, take_append_sub_length]

/-- A beginning of a tag line that reaches behind the tag starts with the same tag. -/
theorem tag_append_of_isPrefix (hintro : content.head?.any p.isIntroducer = true) :
    ∃ u, content = u ++ afterWord content ∧ ∀ r, r ≠ [] → r <+: afterWord content →
      (u ++ r).head?.any p.isIntroducer = true ∧ word (u ++ r) = word content ∧
        afterWord (u ++ r) = r := by
  obtain ⟨u, hsplit, hagain⟩ := word_append_of_isPrefix content
  refine ⟨u, hsplit, fun r hne hr => ?_⟩
  rw [head?_of_isPrefix (by simp [hne]) (append_isPrefix hsplit hr)]
  exact ⟨hintro, hagain r hne hr⟩

/-- **A tag line that ends behind the first word of its description** has this word for its
description, or none. -/
theorem ofText?_cutOff (h : ofText? p content = some line)
    (hdescription : line.description = some description) :
    ∃ again, ofText? p (line.lead ++ word description) = some again ∧
      (again.description = none ∨ again.description = some (word description)) := by
  obtain ⟨hintro, hlen⟩ := isSome_ofText?_iff.mp (Option.isSome_of_eq_some h)
  obtain ⟨u₀, hsplit₀, hbegins⟩ := tag_append_of_isPrefix hintro
  have htight : StartsTight (afterWord content) := startsTight_trimStart _
  cases cutsTo_of_ofText? h with
  | free hcols =>
    obtain ⟨rfl, hne⟩ := eq_of_nonempty? hdescription
    have hw := isWord_word hne (startsTight_trimEnd htight)
    rw [word_trimEnd hne htight] at hw ⊢
    obtain ⟨hfirst, hword, hafter⟩ := hbegins _ hw.1 (word_isPrefix _)
    rw [lead_describe _ hsplit₀]
    refine ⟨_, ofText?_of_free hfirst (by rwa [hword]) (by rwa [hword]), Or.inr ?_⟩
    rw [hafter]
    exact nonempty?_trimEnd_of_isWord hw
  | @structured columns hcols =>
    obtain ⟨rfl, hne⟩ := eq_of_nonempty? hdescription
    change trimEnd (afterColumns p columns (afterWord content)) ≠ [] at hne
    have hrest : afterColumns p columns (afterWord content) ≠ [] := fun hnil => by
      rw [hnil] at hne
      exact hne rfl
    have hstart := startsTight_afterColumns (p := p) columns htight
    have hw := isWord_word hrest hstart
    obtain ⟨u, hsplit, hleft⟩ := afterColumns_append p columns htight hrest
    have hlead : content = (u₀ ++ u) ++ afterColumns p columns (afterWord content) := by
      rw [List.append_assoc, ← hsplit, ← hsplit₀]
    change ∃ again, ofText? p ((describe _ content (afterColumns p columns _)).lead ++
      word (trimEnd (afterColumns p columns _))) = some again ∧ (_ ∨ _ =
        some (word (trimEnd (afterColumns p columns _))))
    rw [lead_describe _ hlead, List.append_assoc, word_trimEnd hne hstart]
    obtain ⟨hfirst, hword, hafter⟩ := hbegins (u ++ word (afterColumns p columns _))
      (by simp [hw.1]) (append_isPrefix hsplit (word_isPrefix _))
    refine ⟨_, ofText?_of_structured hfirst (by rwa [hword]) (by rwa [hword]), ?_⟩
    rw [hafter]
    change (trimEnd (afterColumns p columns _)).nonempty? = none ∨
      (trimEnd (afterColumns p columns _)).nonempty? = _
    rcases hleft with hleft | hleft
    · rw [hleft]
      exact Or.inr (nonempty?_trimEnd_of_isWord hw)
    · rw [hleft]
      exact Or.inl rfl

end OfText

end DocComment.TagLine
