import DocComment.Proofs.Definition.Pieces

/-!
# Legible lines

The four steps of stripping do not know of each other, and the first two take a literal for code.
They leave of a line what should be left of it exactly if the line is **legible** to them
(`ofLines_eq_trim_kept_iff`): no literal holds two slashes, no quote stands between an opener and a
later closer, and what stands between the first comment and the last one is lost in the blanks at
an end of the line.  So one comment is deleted wherever it stands, and a literal may hold an opener
or a closer; but of two comments with code between them both go, and the code with them.

That this is necessary is a matter of quotes.  All of those in the line should be left, no step
adds one, and a step that mistakes a literal for a part of a comment takes one away.  A comment with
a slash right behind it makes two slashes of its last one, and the line is cut there
(`cutLine_lineOf_of_slash`).
-/

namespace DocComment.Definition

open Text

/-- A comment to the end of the line, if there is one. -/
def ending : Option Text → Text
  | none => []
  | some s => slashes ++ s

/-- The line of the given pieces. -/
def lineOf (pieces : List Piece) (last : Option Text) : Text := written pieces ++ ending last

/-- No comment has a slash right behind it, also if the line goes on with `next`. -/
def Apart (next : Option Char) : List Piece → Prop
  | [] => True
  | .comment _ :: pieces => (written pieces ++ next.toList).head? ≠ some '/' ∧ Apart next pieces
  | _ :: pieces => Apart next pieces

/-- No quote stands between an opener and a later closer. -/
def Unquoted (t : Text) : Prop :=
  ∀ a m c, t = a ++ (opener ++ (m ++ (closer ++ c))) → ∀ x ∈ m, isQuote x = false

/-- What the four steps of stripping need to tell comments from the rest of a line. -/
structure Legible (pieces : List Piece) : Prop where
  /-- No literal seems to hold a comment to the end of the line. -/
  free_slashes : ∀ q s, .literal q s ∈ pieces → Free slashes s
  /-- No comment seems to hold a part of a literal. -/
  unquoted : Unquoted (written pieces)
  /-- Nothing that matters stands between the first comment and the last one. -/
  blanks_between : ∀ before s between t after,
    pieces = before ++ .comment s :: (between ++ .comment t :: after) →
    (∀ piece ∈ before, piece.isComment = false) → (∀ piece ∈ after, piece.isComment = false) →
    Blanks (kept between) ∧ (Blanks (kept before) ∨ Blanks (kept after))

variable {ps : List Piece} {last : Option Text}

theorem Unquoted.not_isQuote {t a m c : Text} {x : Char} (h : Unquoted t)
    (ht : t = a ++ (opener ++ (m ++ (closer ++ c)))) (hx : x ∈ m) : ¬ isQuote x = true := by
  rw [h a m c ht x hx]
  exact Bool.false_ne_true

/-! ## The end of the line -/

section CutLine

variable {next : Option Char} {q : Char} {s : Text}

theorem free_slashes_cons {t : Text} (ht : Free slashes t) (hhead : t.head? ≠ some '/') :
    Free slashes ('/' :: t) := by
  intro h
  rcases List.infix_cons_iff.mp h with hprefix | h
  · rw [slashes_eq] at hprefix
    obtain ⟨r, rfl⟩ := (List.cons_prefix_cons.mp hprefix).2
    exact hhead rfl
  · exact ht h

/-- Two slashes stand in the line only if they stand in a literal or a comment runs into one. -/
theorem free_slashes_written (hps : ∀ piece ∈ ps, piece.Proper) (hapart : Apart next ps)
    (hliterals : ∀ q s, .literal q s ∈ ps → Free slashes s) :
    Free slashes (written ps ++ next.toList) := by
  have hnil : Free slashes [] := by decide
  induction ps with
  | nil =>
    cases next with
    | none => exact hnil
    | some c => exact fun h => absurd h.length_le (by simp [slashes_eq])
  | cons piece ps ih =>
    obtain ⟨hpiece, hrest⟩ := List.forall_mem_cons.mp hps
    have hmore : ∀ q s, .literal q s ∈ ps → Free slashes s :=
      fun q s hmem => hliterals q s (List.mem_cons_of_mem _ hmem)
    rw [written_cons, List.append_assoc]
    cases piece with
    | code t => exact (ih hrest hapart hmore).append_left fun h => (hpiece _ h).2.2 rfl
    | literal q s =>
      have hne : q ≠ '/' := ne_of_class hpiece.1 rfl
      have hq : q ∉ slashes := by simp [slashes_eq, hne]
      have hs := hliterals q s List.mem_cons_self
      have hwhole := hnil.append_cons hq (hs.append_cons hq (ih hrest hapart hmore))
      simpa [Piece.written] using hwhole
    | comment s =>
      have hstar : '*' ∉ slashes := by decide
      have hslash : Free slashes ['/'] := by decide
      have htail := free_slashes_cons (ih hrest hapart.2 hmore) hapart.1
      have hwhole := hslash.append_cons hstar (hpiece.2.1.append_cons hstar htail)
      simpa [Piece.written, opener_eq, closer_eq] using hwhole

/-- **The line is cut where its pieces end.** -/
theorem cutLine_lineOf (hps : ∀ piece ∈ ps, piece.Proper) (hline : OneLine (lineOf ps last))
    (hapart : Apart (ending last).head? ps)
    (hliterals : ∀ q s, .literal q s ∈ ps → Free slashes s) :
    cutLine (lineOf ps last) = written ps := by
  have hfree := free_slashes_written hps hapart hliterals
  cases last with
  | none =>
    rw [lineOf, ending, List.append_nil]
    apply cutLine_of_free
    simpa [ending] using hfree
  | some e =>
    have he : OneLine e := fun h => hline (by simp [lineOf, ending, h])
    exact cutLine_append hfree he

/-- A comment with a slash right behind it loses its last character, and the line what comes after
it. -/
theorem cutLine_lineOf_of_slash {before after : List Piece}
    (hps : ∀ piece ∈ before ++ [.comment s], piece.Proper)
    (hliterals : ∀ q s, .literal q s ∈ before → Free slashes s)
    (hapart : Apart none (before ++ [.comment s]))
    (hline : OneLine (lineOf (before ++ .comment s :: after) last))
    (hslash : (written after ++ ending last).head? = some '/') :
    cutLine (lineOf (before ++ .comment s :: after) last) =
      written before ++ (opener ++ (s ++ ['*'])) := by
  have hfree := free_slashes_written hps hapart fun q s hmem => hliterals q s (by simpa using hmem)
  obtain ⟨rest, hrest⟩ := List.head?_eq_some_iff.mp hslash
  have hwhole : lineOf (before ++ .comment s :: after) last =
      written before ++ (opener ++ (s ++ ['*'])) ++ (slashes ++ rest) := by
    simp [lineOf, Piece.written, closer_eq, slashes_eq, hrest]
  rw [hwhole] at hline ⊢
  apply cutLine_append
  · simpa [Piece.written, closer_eq, slashes_eq] using hfree
  · exact fun h => hline (by simp [h])

/-- A line that keeps its quotes is not cut in a literal. -/
theorem free_slashes_of_quotes_le (hps : ∀ piece ∈ ps, piece.Proper)
    (hline : OneLine (lineOf ps last))
    (hquotes : quotes (written ps) ≤ quotes (cutLine (lineOf ps last)))
    (hmem : .literal q s ∈ ps) : Free slashes s := by
  rintro ⟨s₁, s₂, rfl⟩
  obtain ⟨l, r, rfl⟩ := List.append_of_mem hmem
  obtain ⟨hq, hs⟩ := hps _ hmem
  have hs₁ : quotes s₁ = 0 := quotes_eq_zero fun c hc => (hs c (by simp [hc])).1
  have hone : quotes [q] = 1 := by simp [quotes, hq]
  have hwritten : written (l ++ .literal q (s₁ ++ slashes ++ s₂) :: r) =
      written l ++ ([q] ++ ((s₁ ++ slashes ++ s₂) ++ ([q] ++ written r))) := by
    simp [Piece.written]
  have hwhole : lineOf (l ++ .literal q (s₁ ++ slashes ++ s₂) :: r) last =
      (written l ++ ([q] ++ s₁)) ++ slashes ++ (s₂ ++ q :: (written r ++ ending last)) := by
    simp [lineOf, Piece.written]
  rw [hwhole] at hline hquotes
  have hcut : quotes _ ≤ quotes (written l ++ ([q] ++ s₁)) :=
    (cutLine_isPrefix hline).sublist.countP_le
  rw [hwritten] at hquotes
  simp only [quotes_append] at hcut hquotes
  omega

end CutLine

/-! ## Comments -/

section Block

variable {before after mid : List Piece} {m w : Text}

/-- **A line without comments** loses at most what a literal holds. -/
theorem exists_dropBlock_written (hps : ∀ piece ∈ ps, piece.Plain) (hline : OneLine (written ps))
    (hquotes : Unquoted (written ps)) :
    ∃ qs, (∀ piece ∈ qs, piece.Plain) ∧ dropBlock (written ps) = written qs ∧
      kept qs = kept ps := by
  by_cases h : ∀ a m c, written ps ≠ a ++ (opener ++ (m ++ (closer ++ c)))
  · exact ⟨ps, hps, dropBlock_of_forall h, rfl⟩
  · simp only [not_forall, not_not] at h
    obtain ⟨a, m, c, heq⟩ := h
    obtain ⟨u, x, v, hcut, -, -, hdrop⟩ := exists_dropBlock_eq (heq ▸ hline)
    rw [← heq] at hcut hdrop
    have hspan : written ps = u ++ '/' :: ('*' :: x ++ ['*'] ++ '/' :: v) := by
      rw [hcut, opener_eq, closer_eq]
      simp
    obtain ⟨l, q, s₁, s₂, r, rfl, rfl, hd⟩ := exists_literal_of_slash hps hspan
    obtain ⟨hl, hpieces⟩ := List.forall_mem_append.mp hps
    obtain ⟨⟨⟨hq, hs⟩, -⟩, hr⟩ := List.forall_mem_cons.mp hpieces
    have hqx : q ∉ '*' :: x ++ ['*'] := by
      have hnot : q ∉ x := fun hmem => hquotes.not_isQuote hcut hmem hq
      have hne : q ≠ '*' := ne_of_class hq rfl
      simp [hnot, hne]
    have hqslash : q ∉ ['/'] := List.mem_singleton.not.mpr (ne_of_class hq rfl)
    -- The literal goes on behind what is taken out.
    obtain ⟨w, rfl, hw⟩ := exists_of_append_eq_append_cons hqx hd
    obtain ⟨s₃, rfl, rfl⟩ := exists_of_append_eq_append_cons (a := ['/']) hqslash hw
    have hshort : (Piece.literal q (s₁ ++ s₃)).Plain := by
      refine ⟨⟨hq, fun c hc => hs c ?_⟩, rfl⟩
      rcases List.mem_append.mp hc with hc | hc
      · exact List.mem_append_left _ hc
      · simp [hc]
    refine ⟨l ++ .literal q (s₁ ++ s₃) :: r, ?_, ?_, ?_⟩
    · exact List.forall_mem_append.mpr ⟨hl, List.forall_mem_cons.mpr ⟨hshort, hr⟩⟩
    · rw [hdrop]
      simp [Piece.written]
    · simp [Piece.kept]

/-- **A line with comments** loses everything from the first one to the last one. -/
theorem dropBlock_written_append (hbefore : ∀ piece ∈ before, piece.Plain)
    (hafter : ∀ piece ∈ after, piece.Plain) (hmid : written mid = opener ++ (m ++ closer))
    (hline : OneLine (written (before ++ (mid ++ after))))
    (hquotes : Unquoted (written (before ++ (mid ++ after)))) :
    dropBlock (written (before ++ (mid ++ after))) = written (before ++ after) := by
  have hwritten : written (before ++ (mid ++ after)) =
      written before ++ (opener ++ (m ++ (closer ++ written after))) := by
    simp [hmid]
  rw [hwritten] at hline hquotes
  have hm : OneLine m := fun h => hline (by simp [h])
  have hstar : '*' ∉ ['/'] := by decide
  have hfirst : Free opener (written before ++ opener.dropLast) := by
    rintro ⟨a, b, hab⟩
    rw [opener_eq] at hab
    have hcut : written before ++ ['/'] = (a ++ ['/']) ++ '*' :: b := by simpa using hab.symm
    rcases append_eq_append_cons_cases hcut with ⟨d, hd, -⟩ | ⟨v, -, hv⟩
    · rw [List.append_assoc] at hd
      obtain ⟨-, x, hx, hquote⟩ := exists_isQuote_of_slash hbefore hd
      have hxd := List.mem_of_ne_of_mem (ne_of_class hquote rfl) hx
      refine hquotes.not_isQuote (a := a) (m := d ++ (opener ++ m)) (c := written after) ?_
        (List.mem_append_left _ hxd) hquote
      rw [hd, opener_eq]
      simp
    · exact absurd (hv ▸ List.mem_append_right v List.mem_cons_self) hstar
  have hlast : Free closer (closer.tail ++ written after) := by
    rintro ⟨a, b, hab⟩
    rw [closer_eq] at hab
    have hcut : ['/'] ++ written after = a ++ '*' :: '/' :: b := by simpa using hab.symm
    obtain ⟨v, rfl, hv⟩ := exists_of_append_eq_append_cons hstar hcut
    have hslash : written after = (v ++ ['*']) ++ '/' :: b := by simpa using hv
    obtain ⟨⟨x, hx, hquote⟩, -⟩ := exists_isQuote_of_slash hafter hslash
    have hne : x ≠ '*' := ne_of_class hquote rfl
    have hxv : x ∈ v := by simpa [hne] using hx
    refine hquotes.not_isQuote (a := written before) (m := m ++ (closer ++ v)) (c := b) ?_
      (by simp [hxv]) hquote
    rw [hv, closer_eq]
    simp
  rw [hwritten, dropBlock_append hfirst hm hlast, written_append]

/-- Where a line keeps its quotes, none of them is taken for a part of a comment. -/
theorem unquoted_of_quotes_le (hline : OneLine w) (hquotes : quotes w ≤ quotes (dropBlock w)) :
    Unquoted w := by
  rintro a m c rfl x hx
  obtain ⟨u, y, v, -, hu, hv, hdrop⟩ := exists_dropBlock_eq hline
  have hule : quotes u ≤ quotes a := hu.sublist.countP_le
  have hvle : quotes v ≤ quotes c := hv.sublist.countP_le
  rw [hdrop] at hquotes
  simp only [quotes_append] at hquotes
  have hzero : quotes m = 0 := by omega
  rw [quotes, List.countP_eq_zero] at hzero
  exact Bool.not_eq_true _ ▸ hzero x hx

end Block

/-! ## Stripping -/

section Strip

variable {before between after mid : List Piece} {s t m : Text}

/-- A list of pieces has no comment, or one, or a first and a last one. -/
theorem comments_cases (hps : ∀ piece ∈ ps, piece.Proper) :
    (∀ piece ∈ ps, piece.Plain) ∨
      (∃ before s after, ps = before ++ ([.comment s] ++ after) ∧
        (∀ piece ∈ before, piece.Plain) ∧ ∀ piece ∈ after, piece.Plain) ∨
      ∃ before s between t after,
        ps = before ++ .comment s :: (between ++ .comment t :: after) ∧
        (∀ piece ∈ before, piece.Plain) ∧ ∀ piece ∈ after, piece.Plain := by
  induction ps with
  | nil => exact Or.inl nofun
  | cons piece ps ih =>
    obtain ⟨hpiece, hrest⟩ := List.forall_mem_cons.mp hps
    cases hcomment : piece.isComment with
    | false =>
      have hplain : ∀ {before : List Piece}, (∀ piece ∈ before, piece.Plain) →
          ∀ p ∈ piece :: before, p.Plain :=
        fun hbefore => List.forall_mem_cons.mpr ⟨⟨hpiece, hcomment⟩, hbefore⟩
      rcases ih hrest with h | ⟨before, s, after, rfl, hb, ha⟩ |
        ⟨before, s, between, t, after, rfl, hb, ha⟩
      · exact Or.inl (hplain h)
      · exact Or.inr (Or.inl ⟨piece :: before, s, after, rfl, hplain hb, ha⟩)
      · exact Or.inr (Or.inr ⟨piece :: before, s, between, t, after, rfl, hplain hb, ha⟩)
    | true =>
      obtain ⟨first, rfl⟩ : ∃ s, piece = .comment s := by
        cases piece with
        | comment s => exact ⟨s, rfl⟩
        | code | literal => cases hcomment
      rcases ih hrest with h | ⟨before, s, after, rfl, -, ha⟩ |
        ⟨before, s, between, t, after, rfl, -, ha⟩
      · exact Or.inr (Or.inl ⟨[], first, ps, rfl, nofun, h⟩)
      · exact Or.inr (Or.inr ⟨[], first, before, s, after, rfl, nofun, ha⟩)
      · exact Or.inr (Or.inr
          ⟨[], first, before ++ .comment s :: between, t, after, by simp, nofun, ha⟩)

theorem strip_lineOf_of_plain (hcut : cutLine (lineOf ps last) = written ps)
    (hline : OneLine (written ps)) (hquotes : Unquoted (written ps))
    (hps : ∀ piece ∈ ps, piece.Plain) : strip (lineOf ps last) = trim (kept ps) := by
  obtain ⟨qs, hqs, hdrop, hkept⟩ := exists_dropBlock_written hps hline hquotes
  rw [strip_eq, hcut, hdrop, emptyLiterals_emptyLiterals_written hqs, hkept]

theorem strip_lineOf_append
    (hcut : cutLine (lineOf (before ++ (mid ++ after)) last) = written (before ++ (mid ++ after)))
    (hline : OneLine (written (before ++ (mid ++ after))))
    (hquotes : Unquoted (written (before ++ (mid ++ after))))
    (hmid : written mid = opener ++ (m ++ closer)) (hbefore : ∀ piece ∈ before, piece.Plain)
    (hafter : ∀ piece ∈ after, piece.Plain) :
    strip (lineOf (before ++ (mid ++ after)) last) = trim (kept before ++ kept after) := by
  have hplain : ∀ piece ∈ before ++ after, piece.Plain :=
    List.forall_mem_append.mpr ⟨hbefore, hafter⟩
  rw [strip_eq, hcut, dropBlock_written_append hbefore hafter hmid hline hquotes,
    emptyLiterals_emptyLiterals_written hplain, kept_append]

/-- Something stands between two comments that are apart. -/
theorem kept_ne_nil_of_apart {next : Option Char}
    (hapart : Apart next (before ++ .comment s :: (between ++ .comment t :: after))) :
    kept between ≠ [] := by
  induction before with
  | cons piece before ih =>
    cases piece with
    | comment => exact ih hapart.2
    | code | literal => exact ih hapart
  | nil =>
    intro hnil
    apply hapart.1
    clear hapart
    -- What stands between them would be empty code and more comments.
    induction between with
    | nil => simp [Piece.written, opener_eq]
    | cons piece between ih =>
      obtain ⟨hpiece, hrest⟩ := List.append_eq_nil_iff.mp hnil
      cases piece with
      | code t =>
        obtain rfl : t = [] := hpiece
        exact ih hrest
      | literal => cases hpiece
      | comment => simp [Piece.written, opener_eq]

/-- **What stands between the first comment and the last one is lost.** -/
theorem strip_lineOf_eq_iff (hcut : cutLine (lineOf ps last) = written ps)
    (hline : OneLine (written ps)) (hquotes : Unquoted (written ps))
    (hapart : Apart (ending last).head? ps)
    (heq : ps = before ++ .comment s :: (between ++ .comment t :: after))
    (hbefore : ∀ piece ∈ before, piece.Plain) (hafter : ∀ piece ∈ after, piece.Plain) :
    strip (lineOf ps last) = trim (kept ps) ↔
      Blanks (kept between) ∧ (Blanks (kept before) ∨ Blanks (kept after)) := by
  obtain ⟨mid, hmid⟩ : ∃ mid, mid = .comment s :: (between ++ [.comment t]) := ⟨_, rfl⟩
  have hwritten : written mid =
      opener ++ ((s ++ (closer ++ (written between ++ (opener ++ t)))) ++ closer) := by
    simp [hmid, Piece.written]
  have hne := kept_ne_nil_of_apart (heq ▸ hapart)
  obtain rfl : ps = before ++ (mid ++ after) := by simp [heq, hmid]
  have hkept : kept (before ++ (mid ++ after)) = kept before ++ (kept between ++ kept after) := by
    simp [hmid, Piece.kept]
  rw [strip_lineOf_append hcut hline hquotes hwritten hbefore hafter, hkept]
  exact trim_append_eq_iff hne

end Strip

/-- **A line is stripped of its comments and of the contents of its literals, and of nothing else,
exactly if it is legible.** -/
theorem ofLines_eq_trim_kept_iff (hps : ∀ piece ∈ ps, piece.Proper)
    (hline : OneLine (lineOf ps last)) (hapart : Apart (ending last).head? ps) :
    ofLines [lineOf ps last] = trim (kept ps) ↔ Legible ps := by
  have hwhole : OneLine (written ps) := fun h => hline (List.mem_append_left _ h)
  rw [ofLines_singleton]
  constructor
  · intro h
    have hleft : quotes (written ps) ≤ quotes (dropBlock (cutLine (lineOf ps last))) := by
      have hle := quotes_strip_le (lineOf ps last)
      rwa [h, quotes_trim, quotes_kept hps] at hle
    have hslashes : ∀ q s, .literal q s ∈ ps → Free slashes s := fun _ _ =>
      free_slashes_of_quotes_le hps hline (hleft.trans (quotes_dropBlock_le _))
    have hcut := cutLine_lineOf hps hline hapart hslashes
    rw [hcut] at hleft
    have hquotes := unquoted_of_quotes_le hwhole hleft
    refine ⟨hslashes, hquotes, fun before s between t after heq hbefore hafter => ?_⟩
    have hbefore : ∀ piece ∈ before, piece.Plain := fun piece hmem =>
      ⟨hps piece (heq ▸ List.mem_append_left _ hmem), hbefore piece hmem⟩
    have hafter : ∀ piece ∈ after, piece.Plain := fun piece hmem =>
      ⟨hps piece (heq ▸ by simp [hmem]), hafter piece hmem⟩
    exact (strip_lineOf_eq_iff hcut hwhole hquotes hapart heq hbefore hafter).mp h
  · intro ⟨hslashes, hquotes, hbetween⟩
    have hcut := cutLine_lineOf hps hline hapart hslashes
    rcases comments_cases hps with hplain | ⟨before, s, after, rfl, hbefore, hafter⟩ |
      ⟨before, s, between, t, after, heq, hbefore, hafter⟩
    · exact strip_lineOf_of_plain hcut hwhole hquotes hplain
    · have hmid : written [.comment s] = opener ++ (s ++ closer) := by simp [Piece.written]
      rw [strip_lineOf_append hcut hwhole hquotes hmid hbefore hafter]
      simp [Piece.kept]
    · have hblanks := hbetween before s between t after heq
        (fun piece hmem => (hbefore piece hmem).2) fun piece hmem => (hafter piece hmem).2
      exact (strip_lineOf_eq_iff hcut hwhole hquotes hapart heq hbefore hafter).mpr hblanks

example : ofLines ["g(\"*/\"); /* ** */ h('/*'); // done"] = "g(\"\");  h('');".toList := by
  decide +kernel

/-- A closer in a literal, a comment, and an opener in a literal. -/
def notedLine : List Piece :=
  [.code "g(", .literal '"' "*/", .code "); ", .comment " ** ", .code " h(", .literal '\'' "/*",
    .code ");"]

theorem ofLines_eq_trim_kept_iff_notedLine :
    ((∀ piece ∈ notedLine, piece.Proper) ∧ OneLine (lineOf notedLine (some " done")) ∧
      Apart (ending (some " done")).head? notedLine) ∧
    (ofLines [lineOf notedLine (some " done")] = trim (kept notedLine) ↔ Legible notedLine) :=
  have hps : ∀ piece ∈ notedLine, piece.Proper := by decide +kernel
  have hline : OneLine (lineOf notedLine (some " done")) := by decide +kernel
  have hapart : Apart (ending (some " done")).head? notedLine := ⟨by decide +kernel, trivial⟩
  ⟨⟨hps, hline, hapart⟩, ofLines_eq_trim_kept_iff hps hline hapart⟩

/-- A declaration between two comments. -/
def betweenComments : List Piece :=
  [.code "int a; ", .comment " x ", .code " int b; ", .comment " y ", .code " int c;"]

/-- The declaration is lost with the comments. -/
theorem ofLines_betweenComments_ne :
    (∀ piece ∈ betweenComments, piece.Proper) ∧ OneLine (lineOf betweenComments none) ∧
      Apart (ending none).head? betweenComments ∧
      ofLines [lineOf betweenComments none] ≠ trim (kept betweenComments) :=
  ⟨by decide +kernel, by decide +kernel, ⟨by decide +kernel, by decide +kernel, trivial⟩,
    by decide +kernel⟩

end DocComment.Definition
