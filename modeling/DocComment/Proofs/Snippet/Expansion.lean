import DocComment.Layout.Prose
import DocComment.Proofs.Snippet.Carries

/-!
# What a snippet shows

A host **expands** a snippet by undoing the escapes and showing the default of each tab stop.
`Shows s t` says that `s` expands to `t`, and that this stays so when the ends of both are trimmed,
as a layout does with every line.  A line is put together from the right: a marker, padding, a
separator, a field or a tag in front of such texts leaves such texts.

Tags are written without escapes.  A backslash in front of a tag is therefore read as a backslash
only because what follows it means nothing to the host: the rest of the tag or, after a tag that is
no more than a backslash, a blank (`ShowsBefore`).
-/

namespace DocComment

open Text

/-- A tab stop has a default that does not end in a blank. -/
def Segment.Firm : Segment → Prop
  | text _ => True
  | stop _ default => default ≠ [] ∧ EndsTight default

instance : DecidablePred Segment.Firm
  | .text _ => inferInstanceAs (Decidable True)
  | .stop _ default => inferInstanceAs (Decidable (default ≠ [] ∧ EndsTight default))

/-- Every tab stop of the field has a default that does not end in a blank. -/
def Field.Firm (f : Field) : Prop := ∀ segment ∈ f.segments, segment.Firm

instance : DecidablePred Field.Firm := fun f => List.decidableBAll Segment.Firm f.segments

namespace Snippet

/-- What a host shows for a piece. -/
def Piece.shown : Piece → Text
  | char c => [c]
  | stop _ default => default

/-- The text that a host shows for a snippet. -/
def expand (t : Text) : Text := (read t).flatMap Piece.shown

/-- A tag that means nothing to the host, apart from a backslash in front. -/
def QuietTag (t : Text) : Prop := (∀ c ∈ t, c ≠ '$' ∧ c ≠ '}') ∧ '\\' ∉ t.tail

instance (t : Text) : Decidable (QuietTag t) :=
  have := List.decidableBAll (fun c => c ≠ '$' ∧ c ≠ '}') t
  inferInstanceAs (Decidable (_ ∧ '\\' ∉ t.tail))

/-! ## Expanding -/

@[simp] theorem expand_nil : expand [] = [] := by
  rw [expand, read_nil]
  rfl

/-- Harmless text is expanded to itself, whatever follows. -/
theorem expand_harmless_append {s : Text} (hs : Harmless s) (rest : Text) :
    expand (s ++ rest) = s ++ expand rest := by
  induction s with
  | nil => rfl
  | cons c s ih =>
    obtain ⟨hslash, hdollar⟩ := hs c List.mem_cons_self
    have hrest := ih fun d hd => hs d (List.mem_cons_of_mem _ hd)
    rw [List.cons_append, expand, read_literal hslash hdollar, List.flatMap_cons]
    exact congrArg (c :: ·) hrest

/-- Harmless text is expanded to itself. -/
theorem expand_harmless {s : Text} (hs : Harmless s) : expand s = s := by
  have h := expand_harmless_append hs []
  rwa [List.append_nil, expand_nil, List.append_nil] at h

/-- Escaped text shows itself. -/
theorem expand_escape_append (t rest : Text) : expand (escape t ++ rest) = t ++ expand rest := by
  have hchars : (t.map Piece.char).flatMap Piece.shown = t := by
    rw [List.flatMap_map]
    exact List.flatMap_singleton' t
  rw [expand, read_escape_append, List.flatMap_append, hchars]
  rfl

/-- A segment is expanded to its text, whatever follows. -/
theorem expand_segment_append (s : Segment) (rest : Text) :
    expand (s.snippet ++ rest) = s.plain ++ expand rest := by
  cases s with
  | text content => exact expand_escape_append content rest
  | stop index default =>
    rw [expand, read_segment_append]
    rfl

/-- A backslash before anything without a meaning is literal. -/
theorem read_backslash {rest : Text} (h : ∀ c ∈ rest.head?, isSnippetMeta c = false) :
    read ('\\' :: rest) = .char '\\' :: read rest := by
  cases rest with
  | nil => simp [read]
  | cons c rest =>
    have hc : isSnippetMeta c = false := h c rfl
    rw [read, hc]
    rfl

/-- A backslash that escapes nothing stands for itself. -/
theorem expand_backslash_cons {rest : Text} (h : ∀ c ∈ rest.head?, isSnippetMeta c = false) :
    expand ('\\' :: rest) = '\\' :: expand rest := by
  rw [expand, read_backslash h]
  rfl

theorem isSnippetMeta_of_isBlank {c : Char} (h : isBlank c = true) : isSnippetMeta c = false := by
  cases hmeta : isSnippetMeta c with
  | false => rfl
  | true =>
    simp only [isSnippetMeta, Bool.or_eq_true, beq_iff_eq] at hmeta
    rcases hmeta with (rfl | rfl) | rfl <;> exact absurd h (by decide)

/-- A tag shows itself where a blank or nothing follows it. -/
theorem expand_tag_append {t rest : Text} (ht : QuietTag t) (hrest : StartsBlank rest) :
    expand (t ++ rest) = t ++ expand rest := by
  cases t with
  | nil => rfl
  | cons c t =>
    have htail : ∀ d ∈ t, isSnippetMeta d = false ∧ d ≠ '\\' ∧ d ≠ '$' := by
      intro d hd
      obtain ⟨hdollar, hbrace⟩ := ht.1 d (List.mem_cons_of_mem _ hd)
      have hslash : d ≠ '\\' := fun h => ht.2 (h ▸ hd)
      exact ⟨by simp [isSnippetMeta, hslash, hdollar, hbrace], hslash, hdollar⟩
    have hharmless : Harmless t := fun d hd => (htail d hd).2
    by_cases hc : c = '\\'
    · subst hc
      have hnext : ∀ d ∈ (t ++ rest).head?, isSnippetMeta d = false := by
        intro d hd
        cases t with
        | nil => exact isSnippetMeta_of_isBlank (hrest d hd)
        | cons e t =>
          obtain rfl : e = d := Option.some.inj hd
          exact (htail e List.mem_cons_self).1
      rw [List.cons_append, expand_backslash_cons hnext, expand_harmless_append hharmless]
      rfl
    · have hall : Harmless (c :: t) := by
        intro d hd
        rcases List.mem_cons.mp hd with rfl | hd
        · exact ⟨hc, (ht.1 d List.mem_cons_self).1⟩
        · exact hharmless d hd
      exact expand_harmless_append hall rest

/-! ## Texts that show the same -/

/-- The snippet `s` shows `t`, also after both are trimmed at the end. -/
structure Shows (s t : Text) : Prop where
  expand_eq : expand s = t
  expand_trimEnd : expand (trimEnd s) = trimEnd t
  blanks : Blanks t → Blanks s

/-- In front of any text, `u` shows `v`. -/
def ShowsAnywhere (u v : Text) : Prop := ∀ s t, Shows s t → Shows (u ++ s) (v ++ t)

/-- In front of a text that a blank or nothing starts, `u` shows `v`. -/
def ShowsBefore (u v : Text) : Prop :=
  ∀ s t, StartsBlank s → Shows s t → Shows (u ++ s) (v ++ t)

/-- What shows a text anywhere shows it before a blank. -/
theorem ShowsAnywhere.showsBefore {u v : Text} (h : ShowsAnywhere u v) : ShowsBefore u v :=
  fun s t _ => h s t

theorem shows_nil : Shows [] [] := ⟨expand_nil, expand_nil, id⟩

/-- Nothing else is shown by nothing. -/
theorem Shows.eq_nil {t : Text} (h : Shows [] t) : t = [] := by
  rw [← h.expand_eq, expand_nil]

/-- One text in front of another.  If only blanks follow, its own end is trimmed. -/
theorem Shows.prepend {s t u v : Text} (h : Shows s t) (hfull : expand (u ++ s) = v ++ expand s)
    (htrimmed : expand (u ++ trimEnd s) = v ++ expand (trimEnd s))
    (hend : expand (trimEnd u) = trimEnd v) (hblanks : Blanks v → Blanks u) :
    Shows (u ++ s) (v ++ t) := by
  refine ⟨by rw [hfull, h.expand_eq], ?_, ?_⟩
  · by_cases hs : trimEnd s = []
    · have ht : trimEnd t = [] := by rw [← h.expand_trimEnd, hs, expand_nil]
      rw [trimEnd_append_of_blanks (trimEnd_eq_nil_iff.mp hs),
        trimEnd_append_of_blanks (trimEnd_eq_nil_iff.mp ht), hend]
    · have ht : trimEnd t ≠ [] := fun ht =>
        hs (trimEnd_eq_nil_iff.mpr (h.blanks (trimEnd_eq_nil_iff.mp ht)))
      rw [trimEnd_append hs, trimEnd_append ht, htrimmed, h.expand_trimEnd]
  · intro hvt
    obtain ⟨hv, ht⟩ := blanks_append.mp hvt
    exact blanks_append.mpr ⟨hblanks hv, h.blanks ht⟩

/-- Trimming keeps a text harmless. -/
theorem harmless_trimEnd {t : Text} (h : Harmless t) : Harmless (trimEnd t) := by
  obtain ⟨s, -, hs⟩ := exists_trimEnd_append_blanks t
  intro c hc
  exact h c (by rw [hs]; exact List.mem_append_left _ hc)

/-- Harmless glue in front of a text. -/
theorem Shows.after {s t u : Text} (h : Shows s t) (hu : Harmless u) : Shows (u ++ s) (u ++ t) :=
  h.prepend (expand_harmless_append hu s) (expand_harmless_append hu _)
    (expand_harmless (harmless_trimEnd hu)) id

/-- What shows a text anywhere shows it alone. -/
theorem ShowsAnywhere.shows {u v : Text} (h : ShowsAnywhere u v) : Shows u v := by
  have hnil := h [] [] shows_nil
  rwa [List.append_nil, List.append_nil] at hnil

/-- Harmless text shows itself. -/
theorem showsAnywhere_of_harmless {t : Text} (ht : Harmless t) : ShowsAnywhere t t :=
  fun _ _ h => h.after ht

/-- Trimming the end does not take the first blank from before other text. -/
theorem startsBlank_trimEnd {s : Text} (hs : StartsBlank s) : StartsBlank (trimEnd s) := by
  obtain ⟨r, -, hr⟩ := exists_trimEnd_append_blanks s
  cases htrim : trimEnd s with
  | nil => exact startsBlank_nil
  | cons c rest =>
    rw [htrim] at hr
    rw [hr, List.cons_append, startsBlank_cons] at hs
    exact startsBlank_cons.mpr hs

/-- A tag in front of a text. -/
theorem showsBefore_tag {t : Text} (ht : QuietTag t) : ShowsBefore t t := by
  intro s u hs h
  have hquiet : QuietTag (trimEnd t) := by
    obtain ⟨r, -, hr⟩ := exists_trimEnd_append_blanks t
    rw [hr] at ht
    refine ⟨fun c hc => ht.1 c (List.mem_append_left _ hc), fun hmem => ht.2 ?_⟩
    cases htrim : trimEnd t with
    | nil => rw [htrim] at hmem; cases hmem
    | cons c rest =>
      rw [htrim] at hmem
      exact List.mem_append_left _ hmem
  have hend := expand_tag_append hquiet startsBlank_nil
  rw [List.append_nil, expand_nil, List.append_nil] at hend
  exact h.prepend (expand_tag_append ht hs) (expand_tag_append ht (startsBlank_trimEnd hs)) hend id

/-! ## Fields -/

/-- Blanks need no escapes. -/
theorem blanks_escape {t : Text} (ht : Blanks t) : Blanks (escape t) := by
  have h := escape_append_of_blanks ht []
  rw [List.nil_append] at h
  rw [h]
  exact ht

/-- A segment in front of what shows a text shows its own text in front of it. -/
theorem Shows.segment {s t : Text} (h : Shows s t) {segment : Segment} (hsegment : segment.Firm) :
    Shows (segment.snippet ++ s) (segment.plain ++ t) := by
  refine h.prepend (expand_segment_append segment s) (expand_segment_append segment _) ?_ ?_
  · cases segment with
    | text content =>
      have hescape := expand_escape_append (trimEnd content) []
      rw [List.append_nil, expand_nil, List.append_nil] at hescape
      rw [Segment.snippet, trimEnd_escape, hescape]
      rfl
    | stop index default =>
      have hstop : EndsTight (Segment.snippet (.stop index default)) := by
        rw [Segment.snippet, endsTight_concat]
        decide
      have hshown := expand_segment_append (.stop index default) []
      rw [List.append_nil, expand_nil, List.append_nil] at hshown
      rw [trimEnd_of_endsTight hstop, hshown]
      exact (trimEnd_of_endsTight hsegment.2).symm
  · cases segment with
    | text content => exact blanks_escape
    | stop index default =>
      -- A default that is not empty and ends tight is no run of blanks.
      intro hblanks
      obtain ⟨hne, htight⟩ := hsegment
      have hnil : trimEnd default = [] := trimEnd_eq_nil_iff.mpr hblanks
      rw [trimEnd_of_endsTight htight] at hnil
      exact absurd hnil hne

/-- **A field shows its plain text.** -/
theorem showsAnywhere_field {f : Field} (hf : f.Firm) : ShowsAnywhere f.snippet f.plain := by
  intro s t h
  obtain ⟨segments⟩ := f
  induction segments with
  | nil => exact h
  | cons segment segments ih =>
    have hrest := ih fun other hmem => hf other (List.mem_cons_of_mem _ hmem)
    have hfirst := hrest.segment (hf segment List.mem_cons_self)
    rw [← List.append_assoc, ← List.append_assoc] at hfirst
    exact hfirst

/-- The cell of a firm field shows its plain text. -/
theorem showsAnywhere_cell {field : Option Field} (hfield : ∀ f ∈ field, f.Firm) :
    ShowsAnywhere (cell field true) (cell field false) := by
  cases field with
  | none => exact fun _ _ h => h
  | some f => exact showsAnywhere_field (hfield f rfl)

/-- A firm segment without text is written as nothing. -/
theorem segment_snippet_eq_nil {segment : Segment} (h : segment.plain = [])
    (hsegment : segment.Firm) : segment.snippet = [] := by
  cases segment with
  | text content =>
    obtain rfl : content = [] := h
    rfl
  | stop index default => exact absurd h hsegment.1

/-- A field is empty as a snippet just if its plain text is. -/
theorem snippet_eq_nil_iff {f : Field} (hf : f.Firm) : f.snippet = [] ↔ f.plain = [] := by
  constructor
  · intro h
    have hshows := (showsAnywhere_field hf).shows
    rw [h] at hshows
    exact hshows.eq_nil
  · intro h
    rw [Field.plain, List.flatMap_eq_nil_iff] at h
    rw [Field.snippet, List.flatMap_eq_nil_iff]
    intro segment hmem
    exact segment_snippet_eq_nil (h segment hmem) (hf segment hmem)

/-- The cell of a firm field is empty in a snippet exactly if it is empty in plain text. -/
theorem cell_eq_nil_iff {field : Option Field} (hfield : ∀ f ∈ field, f.Firm) :
    cell field true = [] ↔ cell field false = [] := by
  cases field with
  | none => exact Iff.rfl
  | some f => exact snippet_eq_nil_iff (hfield f rfl)

/-! ## The names of tags -/

theorem ofNat_ne {n : Nat} {d : Char} (hn : n ≠ d.toNat) (hd : d.toNat ≠ 0) : Char.ofNat n ≠ d := by
  rintro rfl
  by_cases hvalid : n.isValidChar
  · have heq : Char.ofNat n = Char.ofNatAux n hvalid := dif_pos hvalid
    exact hn (congrArg Char.toNat heq).symm
  · exact hd (congrArg Char.toNat (dif_neg hvalid))

/-- No run of upper case letters reaches the backslash or the dollar sign. -/
theorem upperRuns_clear : ∀ r ∈ upperRuns,
    0x5C < r.first + r.shift ∨ 0x24 < r.first + r.shift ∧ r.last + r.shift < 0x5C := by
  decide +kernel

/-- Title case makes no backslash and no dollar out of other characters. -/
theorem harmless_mapCase {c : Char} (hslash : c ≠ '\\') (hdollar : c ≠ '$') :
    Harmless (mapCase upperRuns upperSequences c) := by
  unfold mapCase
  split
  · next codes hcodes =>
    have hsequences : ∀ s ∈ upperSequences, Harmless (s.2.map Char.ofNat) := by decide
    obtain ⟨before, after, hmem, -⟩ := List.lookup_eq_some_iff.mp hcodes
    exact hsequences (c.toNat, codes) (by rw [hmem]; simp)
  · split
    · next r hr =>
      have hclear := upperRuns_clear r (List.mem_of_find?_eq_some hr)
      have hholds := List.find?_some hr
      simp only [CaseRun.holds, Bool.and_eq_true, decide_eq_true_eq] at hholds
      have hcode : (c.toNat + r.shift).toNat ≠ 0x5C ∧ (c.toNat + r.shift).toNat ≠ 0x24 := by
        omega
      intro d hd
      rw [List.mem_singleton.mp hd]
      exact ⟨ofNat_ne hcode.1 (by decide), ofNat_ne hcode.2 (by decide)⟩
    · intro d hd
      rw [List.mem_singleton.mp hd]
      exact ⟨hslash, hdollar⟩

/-- Upper case makes neither a backslash nor a dollar sign of another character. -/
theorem harmless_upperCase {c : Char} (hslash : c ≠ '\\') (hdollar : c ≠ '$') :
    Harmless (upperCase c) := by
  have hascii : ∀ n < 0x80, Char.ofNat n ≠ '\\' → Char.ofNat n ≠ '$' →
      Harmless [(Char.ofNat n).toUpper] := by decide
  unfold upperCase
  split
  · next hsmall =>
    have h := hascii c.toNat hsmall
    rw [Char.ofNat_toNat] at h
    exact h hslash hdollar
  · exact harmless_mapCase hslash hdollar

/-- A harmless text in title case is harmless. -/
theorem harmless_capitalize {t : Text} (ht : Harmless t) : Harmless (capitalize t) := by
  cases t with
  | nil => exact ht
  | cons c t =>
    obtain ⟨hslash, hdollar⟩ := ht c List.mem_cons_self
    intro d hd
    rcases List.mem_append.mp hd with hd | hd
    · exact harmless_upperCase hslash hdollar d hd
    · exact ht d (List.mem_cons_of_mem _ hd)

/-- The name of a tag leaves the backslash in front out. -/
theorem harmless_tagName {t : Text} (ht : QuietTag t) : Harmless (Prose.tagName t) := by
  have hsuffix : Prose.tagName t <:+ t := List.dropWhile_suffix _
  intro c hc
  refine ⟨?_, (ht.1 c (hsuffix.subset hc)).1⟩
  rintro rfl
  cases t with
  | nil => cases hsuffix.subset hc
  | cons d t =>
    have hd : ¬ '\\' ∈ t := ht.2
    rw [Prose.tagName, List.dropWhile_cons] at hc
    split at hc
    · exact hd ((List.dropWhile_suffix _).subset hc)
    · next hfirst =>
      rcases List.mem_cons.mp hc with rfl | hc
      · exact hfirst rfl
      · exact hd hc

end Snippet

end DocComment
