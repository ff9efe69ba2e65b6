import DocComment.Proofs.Splice

/-!
# Where the comments of a file are

Among the trimmed lines of a file a comment is located by what its own lines are and, where no closer
ends it, by the line behind it (`Located`).  The search goes over the lines once and remembers no
more than one opener.  With a closer this is the latest opener that nothing has closed yet
(`Waiting`), without one it is the opener whose marker lines reach as far as the search has come
(`Following`); each line of the file takes these facts one line further.  So the ranges that are
found are exactly those of the comments (`mem_ofText_iff_located`), and since they ascend, no comment
is found twice.
-/

namespace DocComment.Ranges

open Text

/-! ## Stretches of lines -/

/-- Every line from number `a` on and before number `i` satisfies `P`. -/
def Throughout (P : Text → Prop) (lines : List Text) (a i : Nat) : Prop :=
  ∀ j line, a ≤ j → j < i → lines[j]? = some line → P line

section Throughout

variable {P : Text → Prop} {lines rest : List Text} {line : Text} {a i : Nat}

theorem throughout_of_le (h : i ≤ a) : Throughout P lines a i := by
  intro j line ha hi
  omega

/-- One more line. -/
theorem throughout_succ_iff (hi : lines[i]? = some line) :
    Throughout P lines a (i + 1) ↔ Throughout P lines a i ∧ (a ≤ i → P line) := by
  constructor
  · intro h
    exact ⟨fun j l ha hj => h j l ha (Nat.lt_succ_of_lt hj),
      fun ha => h i line ha (Nat.lt_succ_self i) hi⟩
  · rintro ⟨h, hline⟩ j l ha hj hl
    rcases Nat.lt_succ_iff_lt_or_eq.mp hj with hj | rfl
    · exact h j l ha hj hl
    · rw [hi] at hl
      exact Option.some.inj hl ▸ hline ha

/-- The next line of a file and those behind it. -/
theorem next_of_drop (h : lines.drop i = line :: rest) :
    lines[i]? = some line ∧ lines.drop (i + 1) = rest := by
  rw [← List.head?_drop, ← List.tail_drop, h]
  exact ⟨rfl, rfl⟩

end Throughout

/-! ## Comments with a closer -/

section Closed

variable (opener closer : Text) (lines : List Text)

/-- The lines of a comment from its opener to its closer, with no other opener and no other closer
among them. -/
structure ClosedRange (r : LineRange) : Prop where
  start_lt_stop : r.start < r.stop
  stop_le_length : r.stop ≤ lines.length
  opened : ∃ line, lines[r.start]? = some line ∧ opener <+: line
  closed : ∃ line, lines[r.stop - 1]? = some line ∧ closer <:+ line
  no_opener : Throughout (fun line => ¬ opener <+: line) lines (r.start + 1) r.stop
  no_closer : Throughout (fun line => ¬ closer <:+ line) lines r.start (r.stop - 1)

/-- The latest opener before line `i`, if no line before `i` closes it. -/
structure Waiting (i start : Nat) : Prop where
  lt : start < i
  opened : ∃ line, lines[start]? = some line ∧ opener <+: line
  no_opener : Throughout (fun line => ¬ opener <+: line) lines (start + 1) i
  no_closer : Throughout (fun line => ¬ closer <:+ line) lines start i

/-- The latest opener up to line `i`, if no line before `i` closes it. -/
structure Latest (i start : Nat) : Prop where
  le : start ≤ i
  opened : ∃ line, lines[start]? = some line ∧ opener <+: line
  no_opener : Throughout (fun line => ¬ opener <+: line) lines (start + 1) (i + 1)
  no_closer : Throughout (fun line => ¬ closer <:+ line) lines start i

variable {opener closer lines} {line : Text} {rest : List Text} {i start : Nat}
  {pending : Option Nat}

/-- A line is the latest opener itself or leaves the one that waits. -/
theorem latest_iff (hi : lines[i]? = some line) :
    Latest opener closer lines i start ↔
      opener <+: line ∧ start = i ∨ ¬ opener <+: line ∧ Waiting opener closer lines i start := by
  constructor
  · rintro ⟨hle, hopened, hopener, hcloser⟩
    obtain ⟨hbefore, hline⟩ := (throughout_succ_iff hi).mp hopener
    rcases Nat.lt_or_eq_of_le hle with hlt | rfl
    · exact Or.inr ⟨hline hlt, hlt, hopened, hbefore, hcloser⟩
    · obtain ⟨line', hline', hopen⟩ := hopened
      rw [hi] at hline'
      exact Or.inl ⟨Option.some.inj hline' ▸ hopen, rfl⟩
  · rintro (⟨hopen, rfl⟩ | ⟨hopen, hlt, hopened, hopener, hcloser⟩)
    · exact ⟨Nat.le_refl start, ⟨line, hi, hopen⟩, throughout_of_le (Nat.le_refl _),
        throughout_of_le (Nat.le_refl _)⟩
    · exact ⟨Nat.le_of_lt hlt, hopened, (throughout_succ_iff hi).mpr ⟨hopener, fun _ => hopen⟩,
        hcloser⟩

/-- The latest opener goes on waiting behind a line that does not close it. -/
theorem waiting_succ_iff (hi : lines[i]? = some line) :
    Waiting opener closer lines (i + 1) start ↔
      Latest opener closer lines i start ∧ ¬ closer <:+ line := by
  constructor
  · rintro ⟨hlt, hopened, hopener, hcloser⟩
    have hle := Nat.le_of_lt_succ hlt
    obtain ⟨hbefore, hline⟩ := (throughout_succ_iff hi).mp hcloser
    exact ⟨⟨hle, hopened, hopener, hbefore⟩, hline hle⟩
  · rintro ⟨⟨hle, hopened, hopener, hcloser⟩, hclose⟩
    exact ⟨Nat.lt_succ_of_le hle, hopened, hopener,
      (throughout_succ_iff hi).mpr ⟨hcloser, fun _ => hclose⟩⟩

/-- The latest opener starts a comment that ends at a line that closes it. -/
theorem closedRange_succ_iff (hi : lines[i]? = some line) :
    ClosedRange opener closer lines ⟨start, i + 1⟩ ↔
      Latest opener closer lines i start ∧ closer <:+ line := by
  constructor
  · rintro ⟨hlt, -, hopened, ⟨line', hline', hclose⟩, hopener, hcloser⟩
    rw [Nat.add_sub_cancel] at hline' hcloser
    rw [hi] at hline'
    exact ⟨⟨Nat.le_of_lt_succ hlt, hopened, hopener, hcloser⟩, Option.some.inj hline' ▸ hclose⟩
  · rintro ⟨⟨hle, hopened, hopener, hcloser⟩, hclose⟩
    exact ⟨Nat.lt_succ_of_le hle, (List.getElem?_eq_some_iff.mp hi).1, hopened, ⟨line, hi, hclose⟩,
      hopener, hcloser⟩

/-- What the search remembers when it has looked for an opener in a line. -/
theorem latest_of_pending (hi : lines[i]? = some line)
    (hpending : ∀ s, pending = some s ↔ Waiting opener closer lines i s) (start : Nat) :
    (if opener.isPrefixOf line then some i else pending) = some start ↔
      Latest opener closer lines i start := by
  rw [latest_iff hi, ← hpending, ← List.isPrefixOf_iff_prefix]
  by_cases hopen : opener.isPrefixOf line = true
  · simp [hopen, eq_comm]
  · simp [hopen]

/-- One line of the search: an opener takes the place of the pending one, and a closer ends the
comment and leaves nothing pending. -/
theorem closed_line (hopener : ¬ closer <:+ opener) (i : Nat) (pending : Option Nat) (line : Text)
    (rest : List Text) :
    closed opener closer i pending (line :: rest) =
      if closer.isSuffixOf line = true then
        ((if opener.isPrefixOf line then some i else pending).toList.map fun s => ⟨s, i + 1⟩) ++
          closed opener closer (i + 1) none rest
      else closed opener closer (i + 1) (if opener.isPrefixOf line then some i else pending)
        rest := by
  rw [closed]
  generalize (if opener.isPrefixOf line then some i else pending) = current
  cases current with
  | none => simp only [Option.toList_none, List.map_nil, List.nil_append, ite_self]
  | some s =>
    by_cases hclose : closer.isSuffixOf line = true
    · have hne : (line == opener) = false := by
        rw [beq_eq_false_iff_ne]
        rintro rfl
        exact hopener (List.isSuffixOf_iff_suffix.mp hclose)
      simp [hclose, hne]
    · simp [hclose]

/-- **The search with a closer.**  From line `i` on it finds the comments that end behind line `i`,
as long as it remembers the opener that waits there. -/
theorem mem_closed_iff (hopener : ¬ closer <:+ opener) (hrest : lines.drop i = rest)
    (hpending : ∀ s, pending = some s ↔ Waiting opener closer lines i s) (r : LineRange) :
    r ∈ closed opener closer i pending rest ↔
      i < r.stop ∧ ClosedRange opener closer lines r := by
  induction rest generalizing i pending with
  | nil =>
    rw [List.drop_eq_nil_iff] at hrest
    refine iff_of_false nofun ?_
    rintro ⟨hlt, hr⟩
    have hle := hr.stop_le_length
    omega
  | cons line rest ih =>
    obtain ⟨hi, hnext⟩ := next_of_drop hrest
    have hlatest := latest_of_pending hi hpending
    -- A comment that ends behind line `i` ends with it or later.
    have hlater : i < r.stop ↔ r.stop = i + 1 ∨ i + 1 < r.stop := by omega
    rw [closed_line hopener, hlater, or_and_right]
    generalize (if opener.isPrefixOf line then some i else pending) = current at hlatest
    obtain ⟨s, e⟩ := r
    by_cases hclose : closer <:+ line
    · have hnone : ∀ s, none = some s ↔ Waiting opener closer lines (i + 1) s := by
        intro s
        rw [waiting_succ_iff hi]
        simp [hclose]
      rw [if_pos (List.isSuffixOf_iff_suffix.mpr hclose), List.mem_append, ih hnext hnone]
      refine or_congr_left ?_
      have hmem : ⟨s, e⟩ ∈ (current.toList.map fun s => (⟨s, i + 1⟩ : LineRange)) ↔
          e = i + 1 ∧ current = some s := by
        simp [and_comm, eq_comm]
      rw [hmem, hlatest]
      refine and_congr_right ?_
      rintro rfl
      rw [closedRange_succ_iff hi]
      exact (and_iff_left hclose).symm
    · have hwaiting : ∀ s, current = some s ↔ Waiting opener closer lines (i + 1) s := by
        intro s
        rw [waiting_succ_iff hi, hlatest]
        simp [hclose]
      rw [if_neg (fun h => hclose (List.isSuffixOf_iff_suffix.mp h)), ih hnext hwaiting]
      refine (or_iff_right ?_).symm
      rintro ⟨rfl, hr⟩
      exact hclose ((closedRange_succ_iff hi).mp hr).2

end Closed

/-! ## Comments of marked lines -/

section Marked

variable (opener marker : Text) (lines : List Text)

/-- An opener and all the marker lines that follow it, of which there is at least one. -/
structure MarkedRange (r : LineRange) : Prop where
  start_succ_lt_stop : r.start + 1 < r.stop
  stop_le_length : r.stop ≤ lines.length
  opened : lines[r.start]? = some opener
  marked : Throughout (fun line => marker <+: line ∧ line ≠ opener) lines (r.start + 1) r.stop
  ended : ∀ line, lines[r.stop]? = some line → ¬ marker <+: line ∨ line = opener

/-- The opener whose marker lines reach up to line `i`. -/
structure Following (i start : Nat) : Prop where
  lt : start < i
  opened : lines[start]? = some opener
  marked : Throughout (fun line => marker <+: line ∧ line ≠ opener) lines (start + 1) i

variable {opener marker lines} {line : Text} {rest : List Text} {i start : Nat}
  {pending : Option Nat}

/-- The marker lines reach one line further, or an opener starts new ones. -/
theorem following_succ_iff (hi : lines[i]? = some line) :
    Following opener marker lines (i + 1) start ↔
      line = opener ∧ start = i ∨
        (marker <+: line ∧ line ≠ opener) ∧ Following opener marker lines i start := by
  constructor
  · rintro ⟨hlt, hopened, hmarked⟩
    obtain ⟨hbefore, hline⟩ := (throughout_succ_iff hi).mp hmarked
    rcases Nat.lt_succ_iff_lt_or_eq.mp hlt with hlt | rfl
    · exact Or.inr ⟨hline hlt, hlt, hopened, hbefore⟩
    · exact Or.inl ⟨Option.some.inj (hi.symm.trans hopened), rfl⟩
  · rintro (⟨rfl, rfl⟩ | ⟨hline, hlt, hopened, hmarked⟩)
    · exact ⟨Nat.lt_succ_self start, hi, throughout_of_le (Nat.le_refl _)⟩
    · exact ⟨Nat.lt_succ_of_lt hlt, hopened, (throughout_succ_iff hi).mpr ⟨hmarked, fun _ => hline⟩⟩

theorem mem_ended {r : LineRange} :
    r ∈ ended pending i ↔ pending = some r.start ∧ r.start + 1 < i ∧ r.stop = i := by
  obtain ⟨s, e⟩ := r
  cases pending with
  | none => simp [ended]
  | some start =>
    by_cases hlong : start + 1 < i
    · simp only [ended, if_pos hlong, List.mem_singleton, LineRange.mk.injEq, Option.some.injEq]
      constructor
      · rintro ⟨rfl, rfl⟩
        exact ⟨rfl, hlong, rfl⟩
      · rintro ⟨rfl, -, rfl⟩
        exact ⟨rfl, rfl⟩
    · simp only [ended, if_neg hlong, List.not_mem_nil, Option.some.injEq, false_iff]
      rintro ⟨rfl, hlong', -⟩
      exact hlong hlong'

/-- What is reported at line `i` is a comment if line `i` does not go on with it. -/
theorem mem_ended_iff (hpending : ∀ s, pending = some s ↔ Following opener marker lines i s)
    (hi : i ≤ lines.length)
    (hended : ∀ line, lines[i]? = some line → ¬ marker <+: line ∨ line = opener) (r : LineRange) :
    r ∈ ended pending i ↔ r.stop = i ∧ MarkedRange opener marker lines r := by
  rw [mem_ended, hpending]
  constructor
  · rintro ⟨⟨-, hopened, hmarked⟩, hlong, rfl⟩
    exact ⟨rfl, hlong, hi, hopened, hmarked, hended⟩
  · rintro ⟨rfl, hlong, -, hopened, hmarked, -⟩
    exact ⟨⟨Nat.lt_of_succ_lt hlong, hopened, hmarked⟩, hlong, rfl⟩

/-- One line of the search: a line that does not go on with the comment ends it, and an opener is
remembered. -/
theorem marked_line (i : Nat) (pending : Option Nat) (line : Text) (rest : List Text) :
    marked opener marker i pending (line :: rest) =
      if marker <+: line ∧ line ≠ opener then marked opener marker (i + 1) pending rest
      else ended pending i ++
        marked opener marker (i + 1) (if line = opener then some i else none) rest := by
  rw [marked]
  by_cases hopener : line = opener
  · simp [hopener]
  · simp [hopener]

/-- **The search without a closer.**  From line `i` on it finds the comments that end there or
later, as long as it remembers the opener whose marker lines reach up to line `i`. -/
theorem mem_marked_iff (hrest : lines.drop i = rest) (hi : i ≤ lines.length)
    (hpending : ∀ s, pending = some s ↔ Following opener marker lines i s) (r : LineRange) :
    r ∈ marked opener marker i pending rest ↔
      i ≤ r.stop ∧ MarkedRange opener marker lines r := by
  induction rest generalizing i pending with
  | nil =>
    rw [List.drop_eq_nil_iff] at hrest
    have hnone : ∀ line, lines[i]? = some line → ¬ marker <+: line ∨ line = opener := by
      intro line hline
      rw [List.getElem?_eq_none hrest] at hline
      cases hline
    rw [marked, mem_ended_iff hpending hi hnone]
    refine and_congr_left fun hr => ?_
    have hle := hr.stop_le_length
    omega
  | cons line rest ih =>
    obtain ⟨hline, hnext⟩ := next_of_drop hrest
    have hlt : i + 1 ≤ lines.length := (List.getElem?_eq_some_iff.mp hline).1
    have hlater : i ≤ r.stop ↔ r.stop = i ∨ i + 1 ≤ r.stop := by omega
    rw [marked_line, hlater, or_and_right]
    by_cases hmarked : marker <+: line ∧ line ≠ opener
    · have hfollowing : ∀ s, pending = some s ↔ Following opener marker lines (i + 1) s := by
        intro s
        rw [following_succ_iff hline, hpending]
        simp [hmarked]
      rw [if_pos hmarked, ih hnext hlt hfollowing]
      refine (or_iff_right ?_).symm
      rintro ⟨rfl, hr⟩
      rcases hr.ended line hline with hnot | hopener
      · exact hnot hmarked.1
      · exact hmarked.2 hopener
    · have hfollowing : ∀ s, (if line = opener then some i else none) = some s ↔
          Following opener marker lines (i + 1) s := by
        intro s
        rw [following_succ_iff hline]
        by_cases hopener : line = opener
        · simp [hopener, eq_comm]
        · refine iff_of_false (by simp [hopener]) ?_
          rintro (⟨hopener', -⟩ | ⟨hmarks, -⟩)
          · exact hopener hopener'
          · exact hmarked hmarks
      have hended : ∀ l, lines[i]? = some l → ¬ marker <+: l ∨ l = opener := by
        intro l hl
        obtain rfl := Option.some.inj (hline.symm.trans hl)
        by_cases hopener : line = opener
        · exact Or.inr hopener
        · exact Or.inl fun h => hmarked ⟨h, hopener⟩
      rw [if_neg hmarked, List.mem_append, mem_ended_iff hpending hi hended,
        ih hnext hlt hfollowing]

end Marked

/-! ## Both kinds of comments -/

/-- The range of a comment in the frame of a dialect, among the trimmed lines of a file. -/
def Located (d : Delimiters) (lines : List Text) (r : LineRange) : Prop :=
  match d.closer with
  | some closer => ClosedRange d.opener (trim closer) lines r
  | none => MarkedRange d.opener (trim d.marker) lines r

theorem Located.bounds {d : Delimiters} {lines : List Text} {r : LineRange}
    (h : Located d lines r) : r.start < r.stop ∧ r.stop ≤ lines.length := by
  unfold Located at h
  split at h
  · exact ⟨h.start_lt_stop, h.stop_le_length⟩
  · exact ⟨Nat.lt_of_succ_lt h.start_succ_lt_stop, h.stop_le_length⟩

/-- No range that follows another one starts before that one stops. -/
theorem Ascending.pairwise {n i : Nat} {ranges : List LineRange} (h : Ascending n i ranges) :
    (∀ r ∈ ranges, i ≤ r.start) ∧ ranges.Pairwise fun r s => r.stop ≤ s.start := by
  induction ranges generalizing i with
  | nil => exact ⟨nofun, .nil⟩
  | cons r ranges ih =>
    obtain ⟨hi, hle, hranges⟩ := h
    obtain ⟨hafter, hpairwise⟩ := ih hranges
    refine ⟨List.forall_mem_cons.mpr ⟨hi, fun s hs => ?_⟩, .cons hafter hpairwise⟩
    exact Nat.le_trans hi (Nat.le_trans hle (hafter s hs))

/-- No opener ends in the closer, so an opening line that does is more than the opener. -/
theorem not_isSuffix_opener {language : Language} {config : Config} {d : Delimiters}
    (hd : (Profile.of language config).delimiters? = some d) :
    ∀ closer ∈ d.closer, ¬ trim closer <:+ d.opener := by
  rcases Profile.delimiters_of hd with rfl | rfl | rfl <;> decide

/-- **The ranges of a file are exactly those of its comments.**  They lie within the file, and each
stops before the next one starts. -/
theorem mem_ofText_iff_located {language : Language} {config : Config} {d : Delimiters}
    (hd : (Profile.of language config).delimiters? = some d) (text : Text) :
    (∀ r, r ∈ ofText (Profile.of language config) text ↔ Located d ((lines text).map trim) r) ∧
      (ofText (Profile.of language config) text).Pairwise (fun r s => r.stop ≤ s.start) ∧
      ∀ r ∈ ofText (Profile.of language config) text,
        r.start < r.stop ∧ r.stop ≤ (lines text).length := by
  have hmem : ∀ r, r ∈ ofText (Profile.of language config) text ↔
      Located d ((lines text).map trim) r := by
    intro r
    simp only [ofText, hd, Located]
    cases hc : d.closer with
    | some closer =>
      have hnone : ∀ s, none = some s ↔
          Waiting d.opener (trim closer) ((lines text).map trim) 0 s :=
        fun s => iff_of_false nofun fun h => Nat.not_lt_zero s h.lt
      simp only
      rw [mem_closed_iff (not_isSuffix_opener hd closer hc) List.drop_zero hnone r]
      exact and_iff_right_of_imp fun h => Nat.zero_lt_of_lt h.start_lt_stop
    | none =>
      have hnone : ∀ s, none = some s ↔
          Following d.opener (trim d.marker) ((lines text).map trim) 0 s :=
        fun s => iff_of_false nofun fun h => Nat.not_lt_zero s h.lt
      simp only
      rw [mem_marked_iff List.drop_zero (Nat.zero_le _) hnone r]
      exact and_iff_right (Nat.zero_le _)
  refine ⟨hmem, ?_, fun r hr => ?_⟩
  · obtain ⟨parts, tail, -, hranges⟩ := exists_cut_of_ranges (Profile.of language config) text
    rw [hranges]
    exact (ascending_rangesOf 0 parts tail).pairwise.2
  · obtain ⟨hlt, hle⟩ := ((hmem r).mp hr).bounds
    rw [List.length_map] at hle
    exact ⟨hlt, hle⟩

/-- A file whose first comment is never closed and whose last one is opened and closed in one line,
with a closer that closes nothing between them. -/
def restartedFile : Text :=
  unlines ["/**", " * lost", "  /**", " * kept", " */", "int a; */", "/** b */", "int b;"]

/-- A file in which two openers follow one another, and a comment that ends where the file does. -/
def markedFile : Text :=
  unlines ["##", "##", "# Greets.", "def greet", "##", "# Leaves."]

theorem mem_ofText_restartedFile :
    (Profile.of .java {}).delimiters? = some .javadoc ∧
      Located .javadoc ((lines restartedFile).map trim) ⟨2, 5⟩ ∧
      ¬ Located .javadoc ((lines restartedFile).map trim) ⟨0, 5⟩ ∧
      (Profile.of .ruby { rubyStyle := .yard }).delimiters? = some .yard ∧
      Located .yard ((lines markedFile).map trim) ⟨1, 3⟩ ∧
      Located .yard ((lines markedFile).map trim) ⟨4, 6⟩ := by
  have hjava : (Profile.of .java {}).delimiters? = some .javadoc := rfl
  have hruby : (Profile.of .ruby { rubyStyle := .yard }).delimiters? = some .yard := rfl
  have hrestarted : ofText (Profile.of .java {}) restartedFile = [⟨2, 5⟩, ⟨6, 7⟩] := by
    decide +kernel
  have hmarked : ofText (Profile.of .ruby { rubyStyle := .yard }) markedFile =
      [⟨1, 3⟩, ⟨4, 6⟩] := by
    decide +kernel
  have hjavadoc := (mem_ofText_iff_located hjava restartedFile).1
  have hyard := (mem_ofText_iff_located hruby markedFile).1
  rw [hrestarted] at hjavadoc
  rw [hmarked] at hyard
  exact ⟨hjava, (hjavadoc _).mp (by decide), fun h => absurd ((hjavadoc _).mpr h) (by decide),
    hruby, (hyard _).mp (by decide), (hyard _).mp (by decide)⟩

end DocComment.Ranges
