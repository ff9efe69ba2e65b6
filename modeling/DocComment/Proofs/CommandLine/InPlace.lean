import DocComment.CommandLine.Invocation

/-!
# The same command without the flag for changing a file in place

Taking the flag out of the arguments changes what they ask for in this one respect
(`ofArgs_withoutInPlace`).  The arguments with and without the flag are read side by side.  At each
step (`readOption_printing`) the options read so far differ by the flag at most, and what is left to
read differs by the places where the flag stands: an option that takes its value from the next
argument finds the same one there, because a value is never written as an option is.
-/

namespace DocComment.CommandLine

open Text

/-- The file that an invocation changes. -/
def Invocation.edited? : Invocation → Option Text
  | run _ (.format _ (some path) _ true) => some path
  | _ => none

/-- The invocation that prints what the given one would save. -/
def Invocation.printing : Invocation → Invocation
  | run config (.format lang file width _) => run config (.format lang file width false)
  | invocation => invocation

/-- The arguments without the flag for changing a file in place.  Its letter can stand only in front
of a group: every other letter takes the rest of the group for its value or asks for help. -/
def withoutInPlace : List Text → List Text
  | [] => []
  | arg :: rest =>
    match arg with
    | ['-', '-'] => arg :: rest
    | '-' :: '-' :: body =>
      if body = "in-place".toList then withoutInPlace rest else arg :: withoutInPlace rest
    | '-' :: c :: group =>
      match (c :: group).dropWhile (· == 'i') with
      | [] => withoutInPlace rest
      | kept => ('-' :: kept) :: withoutInPlace rest
    | operand => operand :: withoutInPlace rest

/-- What was read, without the flag. -/
def Given.printing (g : Given) : Given :=
  { g with options := g.options.filter fun option => option.1 ≠ .inPlace }

/-- The flag goes by its long name and its letter and takes no value, the other flags ask for help
or the version, and no letter is a dash. -/
def OneFlag (specs : List Spec) : Prop :=
  ∀ s ∈ specs, (s.key = .inPlace ↔ s.long = "in-place".toList) ∧
    (s.key = .inPlace ↔ s.short = some 'i') ∧
    (s.takesValue = false ↔ s.key = .inPlace ∨ s.key = .help ∨ s.key = .version) ∧
    s.short ≠ some '-'

/-- In front of the task there is no such flag, and only help and the version take no value. -/
theorem oneFlag_top : OneFlag topSpecs := by
  unfold OneFlag
  decide

/-- The options of re-flowing have the flag once, by both its names. -/
theorem oneFlag_format : OneFlag TaskName.format.specs := by
  unfold OneFlag
  decide

/-! ## The forms of arguments -/

section Forms

variable {arg body group : Text} {c : Char} {rest : List Text} {g : Given} {n : Nat}

/-- Reads an argument that is written as an option is. -/
def readOption (specs : List Spec) (g : Given) (arg : Text) (rest : List Text) :
    Except Invocation (Given × List Text) :=
  match arg with
  | '-' :: '-' :: body => readLong specs g body rest
  | '-' :: group => readShort specs g group rest
  | _ => .error .usage

/-- An argument is written as an option by its long name or as a group of letters. -/
theorem option_cases (harg : looksLikeOption arg = true) (hne : arg ≠ ['-', '-']) :
    (∃ body, body ≠ [] ∧ arg = '-' :: '-' :: body) ∨
      ∃ c group, c ≠ '-' ∧ arg = '-' :: c :: group := by
  unfold looksLikeOption at harg
  split at harg
  · next c tail =>
    by_cases hc : c = '-'
    · subst hc
      refine Or.inl ⟨tail, ?_, rfl⟩
      rintro rfl
      exact hne rfl
    · exact Or.inr ⟨c, tail, hc, rfl⟩
  · cases harg

/-- An argument with one dash is a group of letters. -/
theorem readOption_short (specs : List Spec) (hc : c ≠ '-') :
    readOption specs g ('-' :: c :: group) rest = readShort specs g (c :: group) rest := by
  simp [readOption, hc]

/-- A task reads an argument that is written as an option by the options it has. -/
theorem readTask_option (task : TaskName) (harg : looksLikeOption arg = true)
    (hne : arg ≠ ['-', '-']) : readTask task (n + 1) g (arg :: rest) =
      (readOption task.specs g arg rest).bind fun (g, rest) => readTask task n g rest := by
  rcases option_cases harg hne with ⟨body, hbody, rfl⟩ | ⟨c, group, hc, rfl⟩
  · obtain ⟨d, body, rfl⟩ := List.exists_cons_of_ne_nil hbody
    rfl
  · rw [readOption_short _ hc]
    simp [readTask, hc]

/-- In front of the task an option is read by those of the command; what stops there is the
outcome. -/
theorem readTop_option (harg : looksLikeOption arg = true) (hne : arg ≠ ['-', '-']) :
    readTop (n + 1) g (arg :: rest) =
      match readOption topSpecs g arg rest with
      | .error stop => stop
      | .ok (g, rest) => readTop n g rest := by
  rcases option_cases harg hne with ⟨body, hbody, rfl⟩ | ⟨c, group, hc, rfl⟩
  · obtain ⟨d, body, rfl⟩ := List.exists_cons_of_ne_nil hbody
    rfl
  · rw [readOption_short _ hc]
    cases hread : readShort topSpecs g (c :: group) rest <;> simp [readTop, hc, hread]

/-- A long option other than the flag is kept. -/
theorem withoutInPlace_long (hbody : body ≠ []) (hflag : body ≠ "in-place".toList) :
    withoutInPlace (('-' :: '-' :: body) :: rest) =
      ('-' :: '-' :: body) :: withoutInPlace rest := by
  obtain ⟨d, body, rfl⟩ := List.exists_cons_of_ne_nil hbody
  simp only [withoutInPlace, if_neg hflag]

/-- A group of letters loses the flag in front, and is gone if nothing else stood in it. -/
theorem withoutInPlace_short (hc : c ≠ '-') :
    withoutInPlace (('-' :: c :: group) :: rest) =
      match (c :: group).dropWhile (· == 'i') with
      | [] => withoutInPlace rest
      | kept => ('-' :: kept) :: withoutInPlace rest := by
  simp only [withoutInPlace]
  split
  · next heq => simp_all
  · next heq => simp_all
  · next heq =>
    obtain ⟨rfl, rfl⟩ : _ ∧ _ := by simpa using heq
    rfl
  · next hother => exact absurd rfl (hother c group)

/-- Other arguments are operands, for which each reader has its last case. -/
theorem operand_cases (harg : looksLikeOption arg = false) :
    arg = [] ∨ arg = ['-'] ∨ ∃ c tail, c ≠ '-' ∧ arg = c :: tail := by
  match arg with
  | [] => exact Or.inl rfl
  | c :: tail =>
    by_cases hc : c = '-'
    · subst hc
      cases tail with
      | nil => exact Or.inr (Or.inl rfl)
      | cons d tail => cases harg
    · exact Or.inr (Or.inr ⟨c, tail, hc, rfl⟩)

/-- An argument that is not written as an option is kept. -/
theorem withoutInPlace_operand (harg : looksLikeOption arg = false) :
    withoutInPlace (arg :: rest) = arg :: withoutInPlace rest := by
  rcases operand_cases harg with rfl | rfl | ⟨c, tail, hc, rfl⟩
  · rfl
  · rfl
  · simp [withoutInPlace, hc]

/-- A task takes an argument that is not written as an option for an operand. -/
theorem readTask_operand (task : TaskName) (harg : looksLikeOption arg = false) :
    readTask task (n + 1) g (arg :: rest) =
      (g.addOperand task arg).bind fun g => readTask task n g rest := by
  rcases operand_cases harg with rfl | rfl | ⟨c, tail, hc, rfl⟩
  · rfl
  · rfl
  · simp [readTask, hc]

/-- The first operand names the task. -/
theorem readTop_operand (harg : looksLikeOption arg = false) :
    readTop (n + 1) g (arg :: rest) = invocationOf g arg rest := by
  rcases operand_cases harg with rfl | rfl | ⟨c, tail, hc, rfl⟩
  · rfl
  · rfl
  · simp [readTop, hc]

end Forms

/-! ## Options and operands -/

section Options

variable {g g₁ : Given} {key : Key} {value : Text}

/-- The flag has no share in the value of another option. -/
theorem get?_printing (g : Given) (hkey : key ≠ .inPlace) : g.printing.get? key = g.get? key := by
  obtain ⟨options, operands⟩ := g
  simp only [Given.get?, Given.printing]
  induction options with
  | nil => rfl
  | cons option options ih =>
    obtain ⟨first, value⟩ := option
    by_cases hfirst : first = .inPlace
    · have hne : (key == first) = false := by simpa [hfirst] using hkey
      rw [List.filter_cons_of_neg (by simpa using hfirst), ih, List.lookup_cons, hne]
    · rw [List.filter_cons_of_pos (by simpa using hfirst), List.lookup_cons, List.lookup_cons, ih]

/-- Without the flag the same other options have been read. -/
theorem has_printing (g : Given) (hkey : key ≠ .inPlace) : g.printing.has key = g.has key := by
  rw [Given.has, get?_printing g hkey, Given.has]

/-- Without the flag it has not been read. -/
theorem has_printing_inPlace (g : Given) : g.printing.has .inPlace = false := by
  rw [Given.has, Option.isSome_eq_false_iff, Option.isNone_iff_eq_none, Given.get?, Given.printing,
    List.lookup_eq_none_iff]
  intro option hoption
  have hne := of_decide_eq_true (List.mem_filter.mp hoption).2
  exact bne_iff_ne.mpr hne.symm

/-- What adding an option takes and does. -/
theorem add_eq_ok_iff : g.add key value = .ok g₁ ↔
    key ≠ .help ∧ key ≠ .version ∧ g.has key = false ∧ accepts key value = true ∧
      g₁ = { g with options := (key, value) :: g.options } := by
  unfold Given.add
  split
  · next h => simp [h]
  · next hhelp =>
    split
    · next h => simp [h]
    · next hversion =>
      cases hhas : g.has key <;> cases haccepts : accepts key value <;>
        simp [hhelp, hversion, eq_comm]

/-- Another option is added without the flag as with it. -/
theorem add_printing (hkey : key ≠ .inPlace) (h : g.add key value = .ok g₁) :
    g.printing.add key value = .ok g₁.printing := by
  obtain ⟨hhelp, hversion, hhas, haccepts, rfl⟩ := add_eq_ok_iff.mp h
  refine add_eq_ok_iff.mpr ⟨hhelp, hversion, ?_, haccepts, ?_⟩
  · rw [has_printing g hkey, hhas]
  · simp [Given.printing, hkey]

/-- Adding the flag adds nothing else. -/
theorem printing_of_add_inPlace (h : g.add .inPlace value = .ok g₁) : g₁.printing = g.printing := by
  obtain ⟨-, -, -, -, rfl⟩ := add_eq_ok_iff.mp h
  simp [Given.printing]

/-- An operand is added without the flag as with it. -/
theorem addOperand_printing {task : TaskName} {operand : Text}
    (h : g.addOperand task operand = .ok g₁) :
    g.printing.addOperand task operand = .ok g₁.printing := by
  simp only [Given.addOperand] at h ⊢
  split at h
  · cases h
  · next hfits =>
    obtain rfl := Except.ok.inj h
    exact if_neg hfits

/-- Both parts of a computation that succeeds succeed. -/
theorem exists_of_bind_eq_ok {ε α β : Type} {e : Except ε α} {f : α → Except ε β} {b : β}
    (h : e.bind f = .ok b) : ∃ a, e = .ok a ∧ f a = .ok b := by
  cases e with
  | error stop => cases h
  | ok a => exact ⟨a, rfl, h⟩

theorem exists_of_map_eq_ok {ε α β : Type} {e : Except ε α} {f : α → β} {b : β}
    (h : e.map f = .ok b) : ∃ a, e = .ok a ∧ f a = b := by
  cases e with
  | error stop => cases h
  | ok a => exact ⟨a, rfl, Except.ok.inj h⟩

/-- All operands are added without the flag as with it. -/
theorem foldlM_addOperand_printing {task : TaskName} {operands : List Text}
    (h : operands.foldlM (fun g operand => g.addOperand task operand) g = .ok g₁) :
    operands.foldlM (fun g operand => g.addOperand task operand) g.printing = .ok g₁.printing := by
  induction operands generalizing g with
  | nil =>
    obtain rfl := Except.ok.inj h
    rfl
  | cons operand operands ih =>
    obtain ⟨g₂, hadd, hrest⟩ := exists_of_bind_eq_ok h
    rw [List.foldlM_cons, addOperand_printing hadd]
    exact ih hrest

end Options

/-! ## Reading with and without the flag -/

section Beside

variable {specs : List Spec} {g g₁ : Given} {key : Key} {rest rest₁ : List Text}

/-- Reading an option takes nothing more, or one argument that is not written as an option. -/
def Consumes (rest rest₁ : List Text) : Prop :=
  rest = rest₁ ∨ ∃ value, looksLikeOption value = false ∧ rest = value :: rest₁

/-- Reading an option leaves no more than there was. -/
theorem Consumes.length_le (h : Consumes rest rest₁) : rest₁.length ≤ rest.length := by
  rcases h with rfl | ⟨value, -, rfl⟩
  · exact Nat.le_refl _
  · exact Nat.le_succ _

/-- It leaves no more of the arguments without the flag either: a value that is taken is kept
there. -/
theorem Consumes.length_withoutInPlace_le (h : Consumes rest rest₁) :
    (withoutInPlace rest₁).length ≤ (withoutInPlace rest).length := by
  rcases h with rfl | ⟨value, hvalue, rfl⟩
  · exact Nat.le_refl _
  · rw [withoutInPlace_operand hvalue]
    exact Nat.le_succ _

/-- An option that takes nothing more is read alike from the arguments without the flag. -/
theorem map_add_printing {value : Text} (hkey : key ≠ .inPlace)
    (h : (g.add key value).map (·, rest) = .ok (g₁, rest₁)) :
    (g.printing.add key value).map (·, withoutInPlace rest) =
        .ok (g₁.printing, withoutInPlace rest₁) ∧ Consumes rest rest₁ := by
  obtain ⟨g₂, hadd, heq⟩ := exists_of_map_eq_ok h
  obtain ⟨rfl, rfl⟩ := Prod.mk.inj heq
  rw [add_printing hkey hadd]
  exact ⟨rfl, Or.inl rfl⟩

/-- An option that takes the next argument finds the same one in the arguments without the flag. -/
theorem nextValue_printing (hkey : key ≠ .inPlace) (h : nextValue g key rest = .ok (g₁, rest₁)) :
    nextValue g.printing key (withoutInPlace rest) = .ok (g₁.printing, withoutInPlace rest₁) ∧
      Consumes rest rest₁ := by
  cases rest with
  | nil => cases h
  | cons value rest =>
    rw [nextValue] at h
    split at h
    · cases h
    · next hvalue =>
      obtain ⟨g₂, hadd, heq⟩ := exists_of_map_eq_ok h
      obtain ⟨rfl, rfl⟩ := Prod.mk.inj heq
      have hoperand : looksLikeOption value = false := Bool.eq_false_iff.mpr hvalue
      rw [withoutInPlace_operand hoperand, nextValue, if_neg hvalue, add_printing hkey hadd]
      exact ⟨rfl, Or.inr ⟨value, hoperand, rfl⟩⟩

/-- An option that takes a value is not the flag. -/
theorem OneFlag.key_ne (hspecs : OneFlag specs) {s : Spec} (hs : s ∈ specs)
    (htakes : s.takesValue = true) : s.key ≠ .inPlace := by
  intro hkey
  rw [(hspecs s hs).2.2.1.mpr (Or.inl hkey)] at htakes
  cases htakes

/-- The flag is the only option without a value that does not end the reading. -/
theorem OneFlag.key_eq (hspecs : OneFlag specs) {s : Spec} (hs : s ∈ specs)
    (htakes : ¬ s.takesValue = true) (hadd : g.add s.key [] = .ok g₁) : s.key = .inPlace := by
  obtain ⟨hhelp, hversion, -⟩ := add_eq_ok_iff.mp hadd
  rcases (hspecs s hs).2.2.1.mp (Bool.eq_false_iff.mpr htakes) with hkey | hkey | hkey
  · exact hkey
  · exact absurd hkey hhelp
  · exact absurd hkey hversion

/-- An option by its long name is the flag, or is read alike. -/
theorem readLong_printing (hspecs : OneFlag specs) {body : Text}
    (h : readLong specs g body rest = .ok (g₁, rest₁)) :
    body = "in-place".toList ∧ g₁.printing = g.printing ∧ rest = rest₁ ∨
      body ≠ "in-place".toList ∧ Consumes rest rest₁ ∧
        readLong specs g.printing body (withoutInPlace rest) =
          .ok (g₁.printing, withoutInPlace rest₁) := by
  have hvalued : ∀ {s : Spec}, s ∈ specs → s.takesValue = true → s.long ≠ "in-place".toList :=
    fun hs htakes hlong => hspecs.key_ne hs htakes ((hspecs _ hs).1.mpr hlong)
  unfold readLong at h ⊢
  simp only at h ⊢
  cases hsplit : splitFirst? '=' body with
  | some cut =>
    obtain ⟨name, value⟩ := cut
    rw [hsplit] at h
    have hbody : body ≠ "in-place".toList := by
      rintro rfl
      cases hsplit
    cases hfind : specs.find? (fun s => s.long == name) with
    | none => simp [hfind] at h
    | some s =>
      simp only [hfind] at h ⊢
      split at h
      · next htakes =>
        have hkey := hspecs.key_ne (List.mem_of_find?_eq_some hfind) htakes
        obtain ⟨hadd, hconsumes⟩ := map_add_printing hkey h
        rw [if_pos htakes]
        exact Or.inr ⟨hbody, hconsumes, hadd⟩
      · cases h
  | none =>
    rw [hsplit] at h
    cases hfind : specs.find? (fun s => s.long == body) with
    | none => simp [hfind] at h
    | some s =>
      have hs := List.mem_of_find?_eq_some hfind
      have hlong : s.long = body := by simpa using List.find?_some hfind
      simp only [hfind] at h ⊢
      split at h
      · next htakes =>
        obtain ⟨hnext, hconsumes⟩ := nextValue_printing (hspecs.key_ne hs htakes) h
        rw [if_pos htakes]
        exact Or.inr ⟨hlong ▸ hvalued hs htakes, hconsumes, hnext⟩
      · next htakes =>
        obtain ⟨g₂, hadd, heq⟩ := exists_of_map_eq_ok h
        obtain ⟨rfl, rfl⟩ := Prod.mk.inj heq
        have hkey := hspecs.key_eq hs htakes hadd
        rw [hkey] at hadd
        exact Or.inl ⟨hlong.symm.trans ((hspecs s hs).1.mp hkey), printing_of_add_inPlace hadd, rfl⟩

/-- A group of letters is read as the group without the flag in front. -/
theorem readShort_printing (hspecs : OneFlag specs) {group : Text}
    (h : readShort specs g group rest = .ok (g₁, rest₁)) :
    Consumes rest rest₁ ∧
      readShort specs g.printing (group.dropWhile (· == 'i')) (withoutInPlace rest) =
        .ok (g₁.printing, withoutInPlace rest₁) := by
  induction group generalizing g with
  | nil =>
    obtain ⟨rfl, rfl⟩ := Prod.mk.inj (Except.ok.inj h)
    exact ⟨Or.inl rfl, rfl⟩
  | cons c group ih =>
    rw [readShort] at h
    cases hfind : specs.find? (fun s => s.short == some c) with
    | none => simp [hfind] at h
    | some s =>
      have hs := List.mem_of_find?_eq_some hfind
      have hshort : s.short = some c := by simpa using List.find?_some hfind
      have hletter : s.key = .inPlace ↔ c = 'i' := by
        rw [(hspecs s hs).2.1, hshort, Option.some.injEq]
      simp only [hfind] at h
      split at h
      · next htakes =>
        have hkey := hspecs.key_ne hs htakes
        have hc : ¬ (c == 'i') = true := by simpa using mt hletter.mpr hkey
        rw [List.dropWhile_cons_of_neg (p := (· == 'i')) hc, readShort]
        simp only [hfind, if_pos htakes]
        split at h
        · next hempty =>
          rw [if_pos hempty]
          exact (nextValue_printing hkey h).symm
        · next hempty =>
          rw [if_neg hempty]
          exact (map_add_printing hkey h).symm
      · next htakes =>
        obtain ⟨g₂, hadd, hgroup⟩ := exists_of_bind_eq_ok h
        have hkey := hspecs.key_eq hs htakes hadd
        rw [hkey] at hadd
        rw [hletter.mp hkey, List.dropWhile_cons_of_pos rfl, ← printing_of_add_inPlace hadd]
        exact ih hgroup

/-- **One option read with and without the flag.**  Either the argument held nothing else, or what
is left of it is read alike. -/
theorem readOption_printing (hspecs : OneFlag specs) {arg : Text}
    (harg : looksLikeOption arg = true) (hne : arg ≠ ['-', '-'])
    (h : readOption specs g arg rest = .ok (g₁, rest₁)) :
    Consumes rest rest₁ ∧
      (withoutInPlace (arg :: rest) = withoutInPlace rest₁ ∧ g₁.printing = g.printing ∨
        ∃ left, looksLikeOption left = true ∧ left ≠ ['-', '-'] ∧
          withoutInPlace (arg :: rest) = left :: withoutInPlace rest ∧
          readOption specs g.printing left (withoutInPlace rest) =
            .ok (g₁.printing, withoutInPlace rest₁)) := by
  rcases option_cases harg hne with ⟨body, hbody, rfl⟩ | ⟨c, group, hc, rfl⟩
  · rcases readLong_printing hspecs h with ⟨rfl, hg, rfl⟩ | ⟨hflag, hconsumes, hread⟩
    · exact ⟨Or.inl rfl, Or.inl ⟨rfl, hg⟩⟩
    · exact ⟨hconsumes, Or.inr ⟨_, harg, hne, withoutInPlace_long hbody hflag, hread⟩⟩
  · rw [readOption_short specs hc] at h
    rw [withoutInPlace_short hc]
    obtain ⟨hconsumes, hread⟩ := readShort_printing hspecs h
    refine ⟨hconsumes, ?_⟩
    cases hkept : (c :: group).dropWhile (· == 'i') with
    | nil =>
      rw [hkept] at hread
      obtain ⟨hg, hrest⟩ := Prod.mk.inj (Except.ok.inj hread)
      exact Or.inl ⟨hrest, hg.symm⟩
    | cons d kept =>
      rw [hkept] at hread
      -- No option has a dash for its letter, so what is left does not pass for a long name.
      have hd : d ≠ '-' := by
        rintro rfl
        rw [readShort] at hread
        cases hfind : specs.find? (fun s => s.short == some '-') with
        | none => simp [hfind] at hread
        | some s =>
          have hshort : s.short = some '-' := by simpa using List.find?_some hfind
          exact (hspecs s (List.mem_of_find?_eq_some hfind)).2.2.2 hshort
      refine Or.inr ⟨'-' :: d :: kept, rfl, by simp [hd], rfl, ?_⟩
      rw [readOption_short specs hd]
      exact hread

end Beside

/-! ## Faults -/

section Stops

variable {α β : Type}

/-- Reading ends early only for a request or a fault, never with a file to change. -/
def Stops (e : Except Invocation α) : Prop := ∀ stop, e = .error stop → stop.edited? = none

theorem stops_ok (a : α) : Stops (.ok a) := nofun

/-- An invocation that changes no file may end the reading. -/
theorem stops_error {stop : Invocation} (h : stop.edited? = none) :
    Stops (.error stop : Except Invocation α) := by
  rintro _ ⟨⟩
  exact h

/-- Both parts of a computation may end the reading. -/
theorem Stops.bind {e : Except Invocation α} {f : α → Except Invocation β} (he : Stops e)
    (hf : ∀ a, Stops (f a)) : Stops (e.bind f) := by
  cases e with
  | error stop => exact stops_error (he stop rfl)
  | ok a => exact hf a

/-- What is made of the result has no share in how the reading ends. -/
theorem Stops.map {e : Except Invocation α} (he : Stops e) (f : α → β) : Stops (e.map f) := by
  cases e with
  | error stop => exact stops_error (he stop rfl)
  | ok a => exact stops_ok (f a)

/-- Adding an option ends the reading only for help, the version or a usage error. -/
theorem stops_add (g : Given) (key : Key) (value : Text) : Stops (g.add key value) := by
  unfold Given.add
  split
  · exact stops_error rfl
  · split
    · exact stops_error rfl
    · split
      · exact stops_error rfl
      · exact stops_ok _

/-- Looking for the value of an option ends the reading in no other way. -/
theorem stops_nextValue (g : Given) (key : Key) (rest : List Text) :
    Stops (nextValue g key rest) := by
  cases rest with
  | nil => exact stops_error rfl
  | cons value rest =>
    rw [nextValue]
    split
    · exact stops_error rfl
    · exact (stops_add g key value).map _

/-- A long option does not end the reading with a file to change. -/
theorem stops_readLong (specs : List Spec) (g : Given) (body : Text) (rest : List Text) :
    Stops (readLong specs g body rest) := by
  unfold readLong
  simp only
  split
  · exact stops_error rfl
  · split
    · exact (stops_add _ _ _).map _
    · exact stops_error rfl
  · split
    · exact stops_nextValue _ _ _
    · exact (stops_add _ _ _).map _

/-- Nor does a group of letters, whichever of them are options. -/
theorem stops_readShort (specs : List Spec) (g : Given) (group : Text) (rest : List Text) :
    Stops (readShort specs g group rest) := by
  induction group generalizing g with
  | nil => exact stops_ok _
  | cons c group ih =>
    rw [readShort]
    split
    · exact stops_error rfl
    · split
      · split
        · exact stops_nextValue _ _ _
        · exact (stops_add _ _ _).map _
      · exact (stops_add _ _ _).bind ih

/-- No argument that is written as an option ends the reading with a file to change. -/
theorem stops_readOption (specs : List Spec) (g : Given) (arg : Text) (rest : List Text) :
    Stops (readOption specs g arg rest) := by
  unfold readOption
  split
  · exact stops_readLong _ _ _ _
  · exact stops_readShort _ _ _ _
  · exact stops_error rfl

/-- An operand too many, or an empty path, is a usage error. -/
theorem stops_addOperand (g : Given) (task : TaskName) (operand : Text) :
    Stops (g.addOperand task operand) := by
  unfold Given.addOperand
  split
  · exact stops_error rfl
  · exact stops_ok _

/-- Behind a double dash, only an operand that cannot be taken ends the reading. -/
theorem stops_foldlM_addOperand (task : TaskName) (operands : List Text) (g : Given) :
    Stops (operands.foldlM (fun g operand => g.addOperand task operand) g) := by
  induction operands generalizing g with
  | nil => exact stops_ok g
  | cons operand operands ih =>
    rw [List.foldlM_cons]
    exact (stops_addOperand g task operand).bind ih

/-- **Arguments that cannot be read change no file.** -/
theorem stops_readTask (task : TaskName) (n : Nat) (g : Given) (args : List Text) :
    Stops (readTask task n g args) := by
  induction n generalizing g args with
  | zero => exact stops_ok g
  | succ n ih =>
    cases args with
    | nil => exact stops_ok g
    | cons arg rest =>
      cases harg : looksLikeOption arg with
      | false =>
        rw [readTask_operand task harg]
        exact (stops_addOperand g task arg).bind fun g => ih g rest
      | true =>
        by_cases hne : arg = ['-', '-']
        · subst hne
          exact stops_foldlM_addOperand task rest g
        · rw [readTask_option task harg hne]
          exact (stops_readOption _ _ _ _).bind fun read => ih read.1 read.2

end Stops

/-! ## Whole command lines -/

section Whole

variable {g g₁ top : Given} {n m : Nat} {args rest : List Text} {name path : Text}

/-- The arguments of a task are read as those without the flag, with any fuel that is enough. -/
theorem readTask_printing (h : readTask .format n g args = .ok g₁) (hn : args.length ≤ n)
    (hm : (withoutInPlace args).length ≤ m) :
    readTask .format m g.printing (withoutInPlace args) = .ok g₁.printing := by
  induction n generalizing g args m with
  | zero =>
    obtain rfl := List.length_eq_zero_iff.mp (Nat.le_zero.mp hn)
    obtain rfl := Except.ok.inj h
    cases m <;> rfl
  | succ n ih =>
    cases args with
    | nil =>
      obtain rfl := Except.ok.inj h
      cases m <;> rfl
    | cons arg rest =>
      rw [List.length_cons] at hn
      cases harg : looksLikeOption arg with
      | false =>
        rw [readTask_operand .format harg] at h
        obtain ⟨g₂, hadd, hrest⟩ := exists_of_bind_eq_ok h
        rw [withoutInPlace_operand harg] at hm ⊢
        rw [List.length_cons] at hm
        obtain ⟨m, rfl⟩ : ∃ k, m = k + 1 := ⟨m - 1, by omega⟩
        rw [readTask_operand .format harg, addOperand_printing hadd]
        exact ih hrest (by omega) (by omega)
      | true =>
        by_cases hne : arg = ['-', '-']
        · subst hne
          obtain ⟨m, rfl⟩ : ∃ k, m = k + 1 := ⟨m - 1, by
            have hpos : 0 < (withoutInPlace (['-', '-'] :: rest)).length := Nat.succ_pos _
            omega⟩
          exact foldlM_addOperand_printing h
        · rw [readTask_option .format harg hne] at h
          obtain ⟨⟨g₂, rest₂⟩, hread, hrest⟩ := exists_of_bind_eq_ok h
          obtain ⟨hconsumes, hbeside⟩ := readOption_printing oneFlag_format harg hne hread
          have hlength := hconsumes.length_le
          rcases hbeside with ⟨hwithout, hg⟩ | ⟨left, hleft, hleftne, hwithout, hreadleft⟩
          · rw [hwithout] at hm ⊢
            rw [← hg]
            exact ih hrest (by omega) hm
          · have hlengthwithout := hconsumes.length_withoutInPlace_le
            rw [hwithout] at hm ⊢
            rw [List.length_cons] at hm
            obtain ⟨m, rfl⟩ : ∃ k, m = k + 1 := ⟨m - 1, by omega⟩
            rw [readTask_option .format hleft hleftne, hreadleft]
            exact ih hrest (by omega) (by omega)

/-- Without the flag, options and operands ask for the same task, printed. -/
theorem taskOf?_printing {task : TaskName} {t : Task} {config : Option Text}
    (h : taskOf? task g = some t) (hedits : (Invocation.run config t).edited? = some path) :
    task = .format ∧ ∃ lang file width, t = .format lang file width true ∧
      taskOf? .format g.printing = some (.format lang file width false) := by
  obtain ⟨lang, hlang, htask⟩ := Option.bind_eq_some_iff.mp h
  cases task with
  | generate =>
    simp only at htask
    split at htask
    · cases htask
    · obtain rfl := Option.some.inj htask
      cases hedits
  | format =>
    simp only at htask
    split at htask
    · cases htask
    · obtain rfl := Option.some.inj htask
      cases hinPlace : g.has .inPlace with
      | false =>
        rw [hinPlace] at hedits
        cases hfile : g.operands.head? <;> rw [hfile] at hedits <;> cases hedits
      | true =>
        refine ⟨rfl, lang, _, _, rfl, ?_⟩
        have hlang' : g.printing.get? .lang = some lang := (get?_printing g (by decide)).trans hlang
        have hwidth : g.printing.get? .width = g.get? .width := get?_printing g (by decide)
        have hoperands : g.printing.operands = g.operands := rfl
        simp [taskOf?, hlang', hwidth, has_printing_inPlace, hoperands]
  | tags =>
    obtain rfl := Option.some.inj htask
    cases hedits
  | header =>
    obtain rfl := Option.some.inj htask
    cases hedits

/-- If a task and its arguments ask for a file to be changed, those without the flag ask for it to
be printed. -/
theorem invocationOf_printing (h : (invocationOf top name rest).edited? = some path) :
    invocationOf top.printing name (withoutInPlace rest) =
      (invocationOf top name rest).printing := by
  unfold invocationOf at h ⊢
  cases hname : TaskName.ofText? name with
  | none =>
    rw [hname] at h
    simp only at h
    repeat' split at h
    all_goals cases h
  | some task =>
    rw [hname] at h
    simp only at h ⊢
    cases hread : readTask task rest.length {} rest with
    | error stop =>
      rw [hread, stops_readTask task _ _ _ stop hread] at h
      cases h
    | ok g =>
      rw [hread] at h
      simp only at h ⊢
      cases htask : taskOf? task g with
      | none =>
        rw [htask] at h
        cases h
      | some t =>
        rw [htask] at h
        simp only at h ⊢
        obtain ⟨rfl, lang, file, width, rfl, hprinting⟩ := taskOf?_printing htask h
        have hconfig : ∀ given : Given, given.printing.get? .config = given.get? .config :=
          fun given => get?_printing given (by decide)
        have hbeside := readTask_printing hread (Nat.le_refl _) (Nat.le_refl _)
        have hempty : ({} : Given).printing = {} := rfl
        rw [hempty] at hbeside
        simp only [hbeside, hprinting, hconfig]
        rfl

/-- The same holds from the first argument on, with any fuel that is enough. -/
theorem readTop_printing (h : (readTop n g args).edited? = some path)
    (hm : (withoutInPlace args).length ≤ m) :
    readTop m g.printing (withoutInPlace args) = (readTop n g args).printing := by
  induction n generalizing g args m with
  | zero => cases h
  | succ n ih =>
    cases args with
    | nil => cases h
    | cons arg rest =>
      cases harg : looksLikeOption arg with
      | false =>
        rw [readTop_operand harg] at h ⊢
        rw [withoutInPlace_operand harg] at hm ⊢
        rw [List.length_cons] at hm
        obtain ⟨m, rfl⟩ : ∃ k, m = k + 1 := ⟨m - 1, by omega⟩
        rw [readTop_operand harg]
        exact invocationOf_printing h
      | true =>
        by_cases hne : arg = ['-', '-']
        · subst hne
          cases h
        · rw [readTop_option harg hne] at h ⊢
          cases hread : readOption topSpecs g arg rest with
          | error stop =>
            rw [hread] at h
            simp only [stops_readOption topSpecs g arg rest stop hread] at h
            cases h
          | ok read =>
            obtain ⟨g₂, rest₂⟩ := read
            rw [hread] at h
            simp only at h ⊢
            obtain ⟨hconsumes, hbeside⟩ := readOption_printing oneFlag_top harg hne hread
            rcases hbeside with ⟨hwithout, hg⟩ | ⟨left, hleft, hleftne, hwithout, hreadleft⟩
            · rw [hwithout] at hm ⊢
              rw [← hg]
              exact ih h hm
            · have hlengthwithout := hconsumes.length_withoutInPlace_le
              rw [hwithout] at hm ⊢
              rw [List.length_cons] at hm
              obtain ⟨m, rfl⟩ : ∃ k, m = k + 1 := ⟨m - 1, by omega⟩
              rw [readTop_option hleft hleftne, hreadleft]
              exact ih h (by omega)

/-- **Without the flag, arguments that ask for a file to be changed ask for it to be printed**, and
for nothing else. -/
theorem ofArgs_withoutInPlace (h : (Invocation.ofArgs args).edited? = some path) :
    Invocation.ofArgs (withoutInPlace args) = (Invocation.ofArgs args).printing :=
  readTop_printing h (Nat.le_refl _)

end Whole

end DocComment.CommandLine
