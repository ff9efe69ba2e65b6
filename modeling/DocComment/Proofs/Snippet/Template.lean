import DocComment.Proofs.Snippet.Decoding
import DocComment.Proofs.Snippet.Numbering
import DocComment.Proofs.Text.Occurrence

/-!
# Snippets as templates

A template is written like a snippet, but it is read without escapes: a stop ends at the first
brace, and its number does not count.  On fields that hold nothing to escape the two readers agree.
Literal text is then no part of a stop, and a stop is found as it was written
(`firstStop?_snippet`), so reading the template walks along the segments of the field and gathers
the literal text between two stops (`templateSegments_append`).
-/

namespace DocComment

open Text

namespace Segment

/-- The segment without the number of its tab stop. -/
def unnumbered : Segment → Segment
  | text content => text content
  | stop _ default => stop 0 default

/-- Text in front has no number to take away. -/
theorem map_unnumbered_prepend (t : Text) (segments : List Segment) :
    (prepend t segments).map unnumbered = prepend t (segments.map unnumbered) := by
  cases t with
  | nil => rfl
  | cons c t =>
    cases segments with
    | nil => rfl
    | cons segment rest => cases segment <;> rfl

/-- Merging keeps the tab stops. -/
theorem filterMap_index?_prepend (t : Text) (segments : List Segment) :
    (prepend t segments).filterMap index? = segments.filterMap index? := by
  cases t with
  | nil => rfl
  | cons c t =>
    cases segments with
    | nil => rfl
    | cons segment rest => cases segment <;> rfl

/-- Merging neighbouring texts keeps the stops. -/
theorem filterMap_index?_merge (segments : List Segment) :
    (merge segments).filterMap index? = segments.filterMap index? := by
  induction segments with
  | nil => rfl
  | cons segment rest ih =>
    cases segment with
    | text t => rw [merge, filterMap_index?_prepend, ih]; rfl
    | stop index default => exact congrArg (index :: ·) ih

/-- Segments without numbers are as many stops. -/
theorem length_filterMap_index?_unnumbered (segments : List Segment) :
    ((segments.map unnumbered).filterMap index?).length =
      (segments.filterMap index?).length := by
  induction segments with
  | nil => rfl
  | cons segment rest ih =>
    cases segment with
    | text t => exact ih
    | stop index default => exact congrArg (· + 1) ih

end Segment

namespace Field

open Segment

/-! ## Text with nothing to escape -/

/-- Nothing in the text means something to a snippet. -/
def MetaFree (t : Text) : Prop := ∀ c ∈ t, isSnippetMeta c = false

instance (t : Text) : Decidable (MetaFree t) :=
  List.decidableBAll _ t

variable {t : Text}

/-- A text free of them has no character with a meaning. -/
theorem MetaFree.not_mem {c : Char} (ht : MetaFree t) (hc : isSnippetMeta c = true) : c ∉ t := by
  intro hmem
  rw [ht c hmem] at hc
  cases hc

/-- Such a text needs no escapes. -/
theorem MetaFree.escape_eq (ht : MetaFree t) : escape t = t := by
  induction t with
  | nil => rfl
  | cons c t ih =>
    obtain ⟨hc, ht⟩ := List.forall_mem_cons.mp ht
    rw [Snippet.escape_cons_of_not_meta hc, ih ht]

/-- The snippet of a stop, with a default that needs no escapes. -/
theorem MetaFree.snippet_stop {default : Text} (h : MetaFree default) (index : Nat) (rest : Text) :
    Segment.snippet (.stop index default) ++ rest =
      '$' :: '\x7b' :: (ofNat index ++ ':' :: default ++ '\x7d' :: rest) := by
  simp [Segment.snippet, h.escape_eq]

/-! ## The first stop of a template -/

/-- Text without a dollar sign stands before the first stop. -/
theorem firstStop?_append (ht : '$' ∉ t) (rest : Text) :
    firstStop? (t ++ rest) =
      (firstStop? rest).map fun (before, tail) => (t ++ before, tail) := by
  induction t with
  | nil =>
    rw [List.nil_append]
    cases firstStop? rest <;> rfl
  | cons c t ih =>
    obtain ⟨hc, ht⟩ := not_or.mp (mt List.mem_cons.mpr ht)
    rw [List.cons_append, firstStop?, ih ht, Option.map_map]
    · rfl
    · intro _ heq
      exact absurd heq (Ne.symm hc)

/-- Without a dollar there is no stop. -/
theorem firstStop?_eq_none (ht : '$' ∉ t) : firstStop? t = none := by
  have h := firstStop?_append ht []
  rwa [List.append_nil] at h

/-- What is written before the default of a stop does not belong to it, also if the default itself
starts with digits or a colon. -/
theorem stopDefault_snippet (index : Nat) (default : Text) :
    stopDefault (ofNat index ++ ':' :: default) = default := by
  have hdigits : ∀ c ∈ ofNat index, c.isDigit = true := fun c hc =>
    Nat.isDigit_of_mem_toDigits (by decide) (by decide) hc
  have hdrop : (ofNat index ++ ':' :: default).dropWhile Char.isDigit = [':'] ++ default := by
    rw [List.dropWhile_append_of_pos hdigits, List.dropWhile_cons_of_neg (by decide)]
    rfl
  rw [stopDefault, hdrop]
  exact congrArg (Option.getD · _) (after?_append [':'] default)

/-- **A stop is found as it was written**, behind literal text. -/
theorem firstStop?_snippet (ht : '$' ∉ t) {default : Text} (h : MetaFree default) (index : Nat)
    (rest : Text) :
    firstStop? (t ++ (Segment.snippet (.stop index default) ++ rest)) =
      some (t, ofNat index ++ ':' :: default, rest) := by
  have hbody : '\x7d' ∉ ofNat index ++ ':' :: default := by
    intro hmem
    rcases List.mem_append.mp hmem with hmem | hmem
    · have hdigit := Nat.isDigit_of_mem_toDigits (by decide) (by decide) hmem
      exact absurd hdigit (by decide)
    · exact h.not_mem rfl (List.mem_of_ne_of_mem (by decide) hmem)
  rw [firstStop?_append ht, h.snippet_stop, firstStop?, splitFirst?_append_cons hbody]
  simp

/-! ## The whole template -/

theorem literal_nil (t : Text) : literal t [] = prepend t [] := by
  cases t <;> rfl

/-- Text in front of a stop is a segment of its own. -/
theorem literal_stop (t default : Text) (index : Nat) (rest : List Segment) :
    literal t (.stop index default :: rest) = prepend t (.stop index default :: rest) := by
  cases t <;> rfl

/-- **Reading a template walks along the segments that it was written from**, with the literal text
that has been gathered so far in front of them, from whatever number the counter stands at. -/
theorem templateSegments_append {segments : List Segment} (hfree : ∀ s ∈ segments, MetaFree s.plain)
    (ht : MetaFree t) {k : Nat} (hk : (segments.filterMap index?).length ≤ k) (n : Nat) :
    (templateSegments k (t ++ segments.flatMap Segment.snippet) n).1.map unnumbered =
      prepend t ((merge segments).map unnumbered) := by
  induction segments generalizing t k n with
  | nil =>
    have hliteral : (literal t []).map unnumbered = prepend t [] := by
      rw [literal_nil, map_unnumbered_prepend]
      rfl
    rw [List.flatMap_nil, List.append_nil]
    cases k with
    | zero => exact hliteral
    | succ k =>
      rw [templateSegments, firstStop?_eq_none (ht.not_mem rfl)]
      exact hliteral
  | cons s segments ih =>
    obtain ⟨hs, hmore⟩ := List.forall_mem_cons.mp hfree
    cases s with
    | text u =>
      have hu : MetaFree u := hs
      have hgathered : MetaFree (t ++ u) := fun c hc => (List.mem_append.mp hc).elim (ht c) (hu c)
      rw [List.flatMap_cons, Segment.snippet, hu.escape_eq, ← List.append_assoc,
        ih hmore hgathered hk, merge, map_unnumbered_prepend, prepend_prepend]
    | stop index default =>
      obtain ⟨k, rfl⟩ := Nat.exists_eq_succ_of_ne_zero (Nat.ne_zero_of_lt hk)
      have hdefault : MetaFree default := hs
      have hrest := ih (t := []) hmore (List.forall_mem_nil _) (Nat.le_of_succ_le_succ hk) (n + 1)
      rw [List.flatMap_cons, templateSegments, firstStop?_snippet (ht.not_mem rfl) hdefault]
      simp only [stopDefault_snippet]
      change (literal t (.stop n default :: (templateSegments k _ (n + 1)).1)).map unnumbered = _
      rw [literal_stop, map_unnumbered_prepend, List.map_cons,
        ← List.nil_append (segments.flatMap _), hrest]
      rfl

/-- A field has no more stops than its snippet has characters, so reading it comes to an end. -/
theorem length_indices_le_length_snippet (f : Field) : f.indices.length ≤ f.snippet.length := by
  obtain ⟨segments⟩ := f
  induction segments with
  | nil => exact Nat.le_refl _
  | cons s segments ih =>
    have hcons : Field.snippet ⟨s :: segments⟩ = s.snippet ++ Field.snippet ⟨segments⟩ := rfl
    rw [hcons, List.length_append]
    cases s with
    | text u => exact Nat.le_add_left_of_le ih
    | stop index default =>
      have hstop : 1 ≤ (Segment.snippet (.stop index default)).length := by simp [Segment.snippet]
      have hindices : Field.indices ⟨.stop index default :: segments⟩ =
          index :: Field.indices ⟨segments⟩ := rfl
      rw [hindices, List.length_cons]
      omega

/-- The segments read back are the merged ones of the field but for their numbers. -/
theorem segments_template_snippet {f : Field} (hf : ∀ s ∈ f.segments, MetaFree s.plain) (n : Nat) :
    (template f.snippet n).1.segments.map unnumbered = (merge f.segments).map unnumbered :=
  templateSegments_append (t := []) hf (List.forall_mem_nil _) (length_indices_le_length_snippet f) n

/-- **Reading the snippet of a field as a template gives the field back.**  If nothing in it needs
an escape, the template made from the number `n` on has the segments of the field, with adjacent
literal texts merged and empty ones dropped; its stops are `n, n + 1, …`, as many as the field has,
and the number that it leaves free comes after them. -/
theorem template_snippet {f : Field} (hf : ∀ s ∈ f.segments, MetaFree s.plain) (n : Nat) :
    ∃ g : Field, template f.snippet n = (g, n + f.indices.length) ∧
      g.segments.map unnumbered = (merge f.segments).map unnumbered ∧
      g.indices = List.range' n f.indices.length := by
  have hsegments := segments_template_snippet hf n
  have hlength : (template f.snippet n).1.indices.length = f.indices.length := by
    rw [indices, ← length_filterMap_index?_unnumbered, hsegments,
      length_filterMap_index?_unnumbered, filterMap_index?_merge]
    rfl
  obtain ⟨hindices, hnext⟩ := (countsUp_template f.snippet).countUp n
  rw [hlength] at hindices hnext
  exact ⟨(template f.snippet n).1, Prod.ext rfl hnext, hsegments, hindices⟩

/-- Defaults that start with a digit or a colon or are empty, stops side by side, and literal text
in pieces, some of them empty. -/
def measuredField : Field :=
  ⟨[.text "at ", .text [], .stop 7 "12:30", .stop 7 ":", .text [], .stop 0 [], .text " (",
    .text "\x7b)"]⟩

theorem template_snippet_measuredField :
    (∀ s ∈ measuredField.segments, MetaFree s.plain) ∧
      ∃ g : Field, template measuredField.snippet 4 = (g, 4 + measuredField.indices.length) ∧
        g.segments.map unnumbered = (merge measuredField.segments).map unnumbered ∧
        g.indices = List.range' 4 measuredField.indices.length := by
  have hfree : ∀ s ∈ measuredField.segments, MetaFree s.plain := by decide
  exact ⟨hfree, template_snippet hfree 4⟩

example : template measuredField.snippet 4 =
    (⟨[.text "at ", .stop 4 "12:30", .stop 5 ":", .stop 6 [], .text " (\x7b)"]⟩, 7) :=
  rfl

end Field

end DocComment
