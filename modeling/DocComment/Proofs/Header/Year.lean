import DocComment.Header
import DocComment.Proofs.Pattern.Covering

/-!
# Putting the year in

The token for the year counts where no capital follows it, and to see that, the search takes the
character behind the token along.  The replacement puts the character back but does not look at it
again, so the character cannot begin the next token: of tokens that directly follow one another
every other one is replaced (`substituteYear_eq`).  Everywhere else each token is, and a text comes
out with the year in every place exactly if nowhere in it a token directly follows another one
(`everyOtherYear_eq_everyYear_iff`).
-/

namespace DocComment.Header

open Pattern

/-- The token for the year, as it is written. -/
def yearWord : Text := ['$', 'Y', 'E', 'A', 'R']

/-- Whether a text starts with a capital. -/
def startsCapital (t : Text) : Bool := t.head?.any Char.isUpper

/-- The text with every token that no capital follows replaced by `year`. -/
def everyYear (year : Text) : Text → Text
  | [] => []
  | '$' :: 'Y' :: 'E' :: 'A' :: 'R' :: t =>
    (if startsCapital t then yearWord else year) ++ everyYear year t
  | c :: t => c :: everyYear year t

/-- The text with every token that no capital follows replaced by `year`, except for those that
stand directly behind a replaced one; `behind` tells that the text itself does. -/
def everyOtherYear (year : Text) : (behind : Bool) → Text → Text
  | _, [] => []
  | behind, '$' :: 'Y' :: 'E' :: 'A' :: 'R' :: t =>
    if behind || startsCapital t then yearWord ++ everyOtherYear year false t
    else year ++ everyOtherYear year true t
  | _, c :: t => c :: everyOtherYear year false t

/-- The text starts with a token that no capital follows. -/
def StartsWithToken (t : Text) : Prop := ∃ u, t = yearWord ++ u ∧ startsCapital u = false

/-- Somewhere in the text a token that no capital follows directly follows another one. -/
def Adjoined (t : Text) : Prop := ∃ u, StartsWithToken u ∧ yearWord ++ u <:+ t

/-- No token stands where its five characters do not. -/
theorem not_isPrefix_of_forall {c : Char} {t : Text}
    (h : ∀ u, c = '$' → t = 'Y' :: 'E' :: 'A' :: 'R' :: u → False) : ¬ yearWord <+: c :: t := by
  rintro ⟨u, hu⟩
  obtain ⟨rfl, rfl⟩ := List.cons.inj hu
  exact h u rfl rfl

/-! ## Where the token is found -/

section Search

variable {c : Char} {t : Text} {year : Int}

theorem looksAhead_yearToken : yearToken.looksAhead = true := rfl

theorem nullable_yearToken : yearToken.nullable = false := rfl

/-- Behind the token the search takes one character along, if there is one. -/
theorem covers_yearToken (ht : startsCapital t = false) :
    Covers yearToken none (yearWord ++ t.take 1) (t.drop 1) [(.kept, t.take 1)] := by
  cases t with
  | nil =>
    exact (covers_lit yearWord).append fun _ => (covers_finish.right fun _ => rfl).group .kept
  | cons c t =>
    have hc : (!c.isUpper) = true := by simpa [startsCapital] using ht
    exact (covers_lit yearWord).append fun _ => (covers_one hc).left.group .kept

/-- A token with a capital behind it does not count. -/
theorem at?_yearToken_of_capital (ht : startsCapital t = true) :
    yearToken.at? none (yearWord ++ t) = none := by
  cases t with
  | nil => cases ht
  | cons c t =>
    have hc : c.isUpper = true := ht
    have hword : (lit yearWord).ends ⟨none, yearWord ++ c :: t, []⟩ = [⟨some 'R', c :: t, []⟩] :=
      rfl
    have hkept : (one (fun c => !c.isUpper) ||| finish).ends ⟨some 'R', c :: t, []⟩ = [] := by
      change (one _).ends _ ++ finish.ends _ = []
      simp [ends, Cursor.step?, hc]
    rw [at?_eq_head?]
    change (((lit yearWord).ends _).flatMap (group .kept _).ends).head? = none
    rw [hword, List.flatMap_singleton, ends, hkept]
    rfl

/-- Where no token stands nothing is found. -/
theorem at?_yearToken_of_not_isPrefix (ht : ¬ yearWord <+: t) : yearToken.at? none t = none := by
  change ((lit yearWord).seq _).run some _ = none
  rw [run, run, Option.bind_eq_none_iff]
  intro _ hskip
  exact absurd (isPrefix_of_skip? hskip) ht

/-- No token begins inside another one. -/
theorem opensWith_yearToken : ∀ c ∈ yearWord.drop 1, yearToken.opensWith c = false := by
  have hall : (yearWord.drop 1).all (fun c => !yearToken.opensWith c) = true := by decide
  simpa using hall

/-! ## Putting the year in, token by token -/

/-- A token is replaced, and the search goes on behind the character that follows it. -/
theorem substituteYear_token (ht : startsCapital t = false) :
    substituteYear year (yearWord ++ t) =
      Text.ofInt year ++ (t.take 1 ++ substituteYear year (t.drop 1)) := by
  have hreplace := (covers_yearToken ht).replaceAll_eq looksAhead_yearToken nullable_yearToken
    fun m => Text.ofInt year ++ m.get .kept
  rw [List.append_assoc, List.take_append_drop, List.append_assoc] at hreplace
  exact hreplace

/-- A token that goes on in capitals is another word and is kept. -/
theorem substituteYear_token_of_capital (ht : startsCapital t = true) :
    substituteYear year (yearWord ++ t) = yearWord ++ substituteYear year t := by
  apply replaceAll_append_of_at? looksAhead_yearToken nullable_yearToken
  · intro u hne hu
    rcases List.suffix_cons_iff.mp hu with rfl | hu
    · exact at?_yearToken_of_capital ht
    · exact at?_append_eq_none nullable_yearToken opensWith_yearToken hne hu
  · exact fun _ _ => rfl

/-- A token that has lost its first character is kept. -/
theorem substituteYear_tail : substituteYear year (yearWord.drop 1 ++ t) =
    yearWord.drop 1 ++ substituteYear year t :=
  replaceAll_append looksAhead_yearToken nullable_yearToken opensWith_yearToken (fun _ _ => rfl) t

/-- A character at which no token starts is kept. -/
theorem substituteYear_cons (ht : ¬ yearWord <+: c :: t) :
    substituteYear year (c :: t) = c :: substituteYear year t := by
  apply replaceAll_append_of_at? (s := [c]) looksAhead_yearToken nullable_yearToken
  · intro u hne hu
    obtain rfl | hu := List.suffix_cons_iff.mp hu
    · exact at?_yearToken_of_not_isPrefix ht
    · exact absurd (List.suffix_nil.mp hu) hne
  · exact fun _ _ => rfl

/-- **Every other one of adjoining tokens is replaced.** -/
theorem everyOtherYear_eq (behind : Bool) (t : Text) :
    everyOtherYear (Text.ofInt year) behind t =
      if behind then t.take 1 ++ substituteYear year (t.drop 1) else substituteYear year t := by
  fun_induction everyOtherYear (Text.ofInt year) behind t with
  | case1 behind => cases behind <;> rfl
  | case2 behind t h ih =>
    rw [ih]
    cases behind with
    | false => exact (substituteYear_token_of_capital h).symm
    | true => exact congrArg ('$' :: ·) substituteYear_tail.symm
  | case3 behind t h ih =>
    obtain ⟨rfl, ht⟩ := Bool.or_eq_false_iff.mp (Bool.eq_false_iff.mpr h)
    rw [ih]
    exact (substituteYear_token ht).symm
  | case4 behind c t h ih =>
    rw [ih]
    cases behind with
    | false => exact (substituteYear_cons (not_isPrefix_of_forall h)).symm
    | true => rfl

end Search

/-! ## Adjoining tokens -/

section Adjoined

variable {c d : Char} {t z : Text} {behind : Bool}

/-- The word is a token unless it goes on in capitals. -/
theorem startsWithToken_token : StartsWithToken (yearWord ++ t) ↔ startsCapital t = false := by
  constructor
  · rintro ⟨u, heq, hu⟩
    exact List.append_cancel_left heq ▸ hu
  · exact fun ht => ⟨t, rfl, ht⟩

/-- A text without the word in front does not start with a token. -/
theorem not_startsWithToken (ht : ¬ yearWord <+: t) : ¬ StartsWithToken t := by
  rintro ⟨u, rfl, -⟩
  exact ht (List.prefix_append _ _)

/-- A token does not start with a capital letter. -/
theorem StartsWithToken.startsCapital_eq (ht : StartsWithToken t) : startsCapital t = false := by
  obtain ⟨u, rfl, -⟩ := ht
  rfl

theorem not_adjoined_nil : ¬ Adjoined [] := by
  rintro ⟨u, -, hu⟩
  exact List.append_ne_nil_of_left_ne_nil (List.cons_ne_nil _ _) u (List.suffix_nil.mp hu)

/-- A character at which no token starts has no share in tokens that adjoin. -/
theorem adjoined_cons (ht : ¬ yearWord <+: c :: t) : Adjoined (c :: t) ↔ Adjoined t := by
  constructor
  · rintro ⟨u, hu, hsuffix⟩
    rcases List.suffix_cons_iff.mp hsuffix with heq | hsuffix
    · exact absurd ⟨u, heq⟩ ht
    · exact ⟨u, hu, hsuffix⟩
  · rintro ⟨u, hu, hsuffix⟩
    exact ⟨u, hu, hsuffix.trans (List.suffix_cons c t)⟩

/-- A token adjoins the one that follows it directly. -/
theorem adjoined_token : Adjoined (yearWord ++ t) ↔ StartsWithToken t ∨ Adjoined t := by
  have htail : Adjoined (yearWord.drop 1 ++ t) ↔ Adjoined t := by
    have hcons : ∀ {c t}, c ≠ '$' → (Adjoined (c :: t) ↔ Adjoined t) := fun hc =>
      adjoined_cons fun ⟨_, heq⟩ => hc (List.cons.inj heq).1.symm
    exact (hcons (by decide)).trans <| (hcons (by decide)).trans <|
      (hcons (by decide)).trans (hcons (by decide))
  rw [← htail]
  constructor
  · rintro ⟨u, hu, hsuffix⟩
    rcases List.suffix_cons_iff.mp hsuffix with heq | hsuffix
    · obtain rfl : u = t := List.append_cancel_left heq
      exact Or.inl hu
    · exact Or.inr ⟨u, hu, hsuffix⟩
  · rintro (ht | ⟨u, hu, hsuffix⟩)
    · exact ⟨t, ht, List.suffix_rfl⟩
    · exact ⟨u, hu, hsuffix.trans (List.suffix_cons _ _)⟩

/-- **Every token is replaced exactly if no two of them adjoin.** -/
theorem everyOtherYear_eq_everyYear_iff (hd : d ≠ '$') :
    everyOtherYear (d :: z) behind t = everyYear (d :: z) t ↔
      ¬ Adjoined t ∧ (behind = true → ¬ StartsWithToken t) := by
  fun_induction everyOtherYear (d :: z) behind t with
  | case1 behind =>
    exact iff_of_true rfl ⟨not_adjoined_nil, fun _ => not_startsWithToken (by decide)⟩
  | case2 behind t h ih =>
    change yearWord ++ _ = (if startsCapital t then yearWord else d :: z) ++ _ ↔
      ¬ Adjoined (yearWord ++ t) ∧ (behind = true → ¬ StartsWithToken (yearWord ++ t))
    rw [adjoined_token, startsWithToken_token]
    cases ht : startsCapital t with
    | true =>
      have hstarts : ¬ StartsWithToken t := fun hstarts => by
        rw [hstarts.startsCapital_eq] at ht
        cases ht
      rw [if_pos rfl, List.append_cancel_left_eq, ih]
      tauto
    | false =>
      rw [ht, Bool.or_false] at h
      refine iff_of_false ?_ fun hnot => hnot.2 h rfl
      intro heq
      exact hd (List.cons.inj heq).1.symm
  | case3 behind t h ih =>
    obtain ⟨rfl, ht⟩ := Bool.or_eq_false_iff.mp (Bool.eq_false_iff.mpr h)
    change _ = (if startsCapital t then yearWord else d :: z) ++ _ ↔ ¬ Adjoined (yearWord ++ t) ∧ _
    rw [ht, if_neg Bool.false_ne_true, List.append_cancel_left_eq, ih, adjoined_token]
    tauto
  | case4 behind c t h ih =>
    have hword := not_isPrefix_of_forall h
    have hyear : everyYear (d :: z) (c :: t) = c :: everyYear (d :: z) t := by
      rw [everyYear]
      exact h
    rw [hyear, List.cons_inj_right, ih, adjoined_cons hword]
    exact and_congr_right fun _ => iff_of_true nofun fun _ => not_startsWithToken hword

end Adjoined

/-- A number does not begin like a token. -/
theorem exists_ofInt_eq_cons (n : Int) : ∃ d z, Text.ofInt n = d :: z ∧ d ≠ '$' := by
  cases n with
  | ofNat n =>
    obtain ⟨d, z, hdigits⟩ := List.exists_cons_of_ne_nil (Nat.toDigits_ne_nil (n := n) (b := 10))
    have hd : d.isDigit = true :=
      Nat.isDigit_of_mem_toDigits (by decide) (by decide) (hdigits ▸ List.mem_cons_self)
    refine ⟨d, z, hdigits, ?_⟩
    rintro rfl
    exact absurd hd (by decide)
  | negSucc n => exact ⟨'-', _, rfl, by decide⟩

/-- **Putting the year in** replaces every token that no capital follows, except that of adjoining
tokens it replaces every other one.  So every such token is replaced, and nothing else, exactly in
the texts in which no two of them adjoin. -/
theorem substituteYear_eq (year : Int) (t : Text) :
    substituteYear year t = everyOtherYear (Text.ofInt year) false t ∧
      (substituteYear year t = everyYear (Text.ofInt year) t ↔ ¬ Adjoined t) := by
  have heq : substituteYear year t = everyOtherYear (Text.ofInt year) false t :=
    (everyOtherYear_eq false t).symm
  refine ⟨heq, ?_⟩
  obtain ⟨d, z, hyear, hd⟩ := exists_ofInt_eq_cons year
  rw [heq, hyear, everyOtherYear_eq_everyYear_iff hd]
  exact and_iff_left nofun

/-- Two tokens with nothing between them come out as one year and a token. -/
theorem not_forall_substituteYear_eq_everyYear :
    ¬ ∀ year t, substituteYear year t = everyYear (Text.ofInt year) t := by
  intro h
  have htwice : substituteYear 2024 "$YEAR$YEAR".toList = "2024$YEAR".toList := by decide
  have hboth : everyYear (Text.ofInt 2024) "$YEAR$YEAR".toList = "20242024".toList := by decide
  have hne : "2024$YEAR".toList ≠ "20242024".toList := by decide
  exact hne (htwice.symm.trans ((h 2024 _).trans hboth))

end DocComment.Header
