import DocComment.Proofs.Layout.Alignment
import DocComment.Proofs.Reading.Stable

/-!
# What the empty-line policies add

A policy looks at the position of a row, at its neighbour and at both tags, and the empty rows of
the block itself count as positions.  Whatever it puts in are empty rows, so the lines that show
something are the same under every policy.  Two rows that stand next to each other after separating
stood next to each other before, and the policy did not ask for a separator at the position that the
second one had (`exists_of_separateFrom_eq`).
-/

namespace DocComment.Table

open Text Reading

/-- Whether nothing but the marker is on a line. -/
def isMarkerLine (d : Delimiters) (line : Text) : Bool := line == trimEnd d.marker

/-- The line of a row of a block, which no policy changes. -/
def blockLine (p : Profile) (d : Delimiters) (align : Nat) (b : Block) (row : Row) : Text :=
  rowLine p (plainly .none align) d.marker (columnWidths p b.rows) row

/-- A block without adjacent, leading or trailing empty rows, in which every other row shows
something. -/
structure Tidy (p : Profile) (d : Delimiters) (align : Nat) (b : Block) : Prop where
  spaced : Spaced b.rows
  last : b.rows.getLast? ≠ some .blank
  shown : ∀ row ∈ b.rows, row.isBlank = false → isMarkerLine d (blockLine p d align b row) = false

/-! ## Rows -/

section Rows

variable {policy : EmptyLines} {previous r s : Row} {rows u v : List Row}

/-- **Neighbours that are not separated.**  Rows next to each other, neither of them empty, were
next to each other before, behind the same rows, and no separator was asked for between them. -/
theorem exists_of_separateFrom_eq {i : Nat}
    (h : previous :: separateFrom policy i previous rows = u ++ r :: s :: v)
    (hr : r.isBlank = false) (hs : s.isBlank = false) :
    ∃ before after, previous :: rows = before ++ r :: s :: after ∧
      separates policy (i + before.length) r s = false ∧
      u.filter (fun row => !row.isBlank) = before.filter fun row => !row.isBlank := by
  induction rows generalizing i previous u with
  | nil =>
    have hlength := congrArg List.length h
    simp [separateFrom] at hlength
    omega
  | cons row rows ih =>
    rw [separateFrom] at h
    -- Behind the first row, the induction hypothesis tells where the neighbours were.
    have hlater : ∀ u', row :: separateFrom policy (i + 1) row rows = u' ++ r :: s :: v →
        ∃ before after, previous :: row :: rows = before ++ r :: s :: after ∧
          separates policy (i + before.length) r s = false ∧
          (previous :: u').filter (fun row => !row.isBlank) =
            before.filter fun row => !row.isBlank := by
      intro u' h'
      obtain ⟨before, after, hrows, hsep, hfilter⟩ := ih h'
      refine ⟨previous :: before, after, congrArg (previous :: ·) hrows, ?_, ?_⟩
      · rwa [List.length_cons, Nat.add_comm before.length, ← Nat.add_assoc]
      · rw [List.filter_cons, List.filter_cons, hfilter]
    cases hsep : separates policy i previous row with
    | true =>
      rw [hsep, if_pos rfl] at h
      cases u with
      | nil =>
        obtain ⟨-, htail⟩ := List.cons.inj h
        obtain ⟨rfl, -⟩ := List.cons.inj htail
        cases hs
      | cons first u =>
        obtain ⟨rfl, htail⟩ := List.cons.inj h
        cases u with
        | nil =>
          obtain ⟨rfl, -⟩ := List.cons.inj htail
          cases hr
        | cons second u =>
          obtain ⟨rfl, hrest⟩ := List.cons.inj htail
          exact hlater u hrest
    | false =>
      rw [hsep, if_neg Bool.false_ne_true] at h
      cases u with
      | nil =>
        obtain ⟨rfl, htail⟩ := List.cons.inj h
        obtain ⟨rfl, -⟩ := List.cons.inj htail
        exact ⟨[], rows, rfl, hsep, rfl⟩
      | cons first u =>
        obtain ⟨rfl, htail⟩ := List.cons.inj h
        exact hlater u htail

/-- Between groups, neighbours that are not separated have the same tag and are not the first two
rows. -/
theorem exists_of_separate_betweenGroups_eq
    (h : separate .betweenGroups rows = u ++ r :: s :: v) (hr : r.isBlank = false)
    (hs : s.isBlank = false) :
    ∃ before after, rows = before ++ r :: s :: after ∧ before ≠ [] ∧ r.tag? = s.tag? ∧
      u.filter (fun row => !row.isBlank) = before.filter fun row => !row.isBlank := by
  cases rows with
  | nil => simp [separate] at h
  | cons first rows =>
    obtain ⟨before, after, hrows, hsep, hfilter⟩ := exists_of_separateFrom_eq h hr hs
    simp only [separates, hr, hs, Bool.not_false, Bool.true_and, Bool.or_eq_false_iff,
      beq_eq_false_iff_ne, bne_eq_false_iff_eq] at hsep
    refine ⟨before, after, hrows, ?_, hsep.2, hfilter⟩
    intro hnil
    exact hsep.1 (by rw [hnil, List.length_nil])

end Rows

/-! ## Lines -/

section Lines

variable {p : Profile} {d : Delimiters} {align : Nat} {b : Block} {policy : EmptyLines}

theorem rowLine_plainly (policy : EmptyLines) (marker : Text) (widths : List Nat) (row : Row) :
    rowLine p (plainly policy align) marker widths row =
      rowLine p (plainly .none align) marker widths row := by
  cases row <;> rfl

/-- A layout is the separated rows, line by line, in a frame. -/
theorem format_eq_frame (h : p.delimiters? = some d) (b : Block) (policy : EmptyLines) :
    b.format p (plainly policy align) =
      d.opener :: (separate policy b.rows).map (blockLine p d align b) ++ d.closer.toList := by
  have hrows : (separate policy b.rows).map
      (rowLine p (plainly policy align) d.marker (columnWidths p b.rows)) =
        (separate policy b.rows).map (blockLine p d align b) :=
    List.map_congr_left fun row _ => rowLine_plainly policy _ _ row
  rw [format_plainly h, lines, ← hrows]
  rfl

theorem blockLine_blank : blockLine p d align b .blank = trimEnd d.marker := by
  rw [blockLine, rowLine, rowText, List.append_nil]

/-- The lines with nothing but the marker are those of the empty rows. -/
theorem isMarkerLine_blockLine (hb : Tidy p d align b) {row : Row}
    (hrow : row ∈ separate policy b.rows) :
    isMarkerLine d (blockLine p d align b row) = row.isBlank := by
  cases hblank : row.isBlank with
  | true =>
    obtain rfl := isBlank_eq_true_iff.mp hblank
    rw [blockLine_blank, isMarkerLine, beq_self_eq_true]
  | false =>
    rcases mem_separate hrow with hmem | rfl
    · exact hb.shown row hmem hblank
    · cases hblank

/-- The delimiters of a table are no empty lines. -/
theorem isMarkerLine_frame {language : Language} {config : Config}
    (h : (Profile.of language config).delimiters? = some d) :
    isMarkerLine d d.opener = false ∧ ∀ closer ∈ d.closer, isMarkerLine d closer = false := by
  rcases Profile.delimiters_of h with rfl | rfl | rfl <;> decide

/-- The lines that show something are those of the rows that are not empty. -/
theorem filter_map_blockLine (hb : Tidy p d align b) (policy : EmptyLines) {rows : List Row}
    (hrows : ∀ row ∈ rows, row ∈ separate policy b.rows) :
    (rows.map (blockLine p d align b)).filter (fun line => !isMarkerLine d line) =
      (rows.filter fun row => !row.isBlank).map (blockLine p d align b) := by
  rw [List.filter_map]
  congr 1
  apply List.filter_congr
  intro row hrow
  rw [Function.comp_apply, isMarkerLine_blockLine hb (hrows row hrow)]

/-- Under every policy the lines that show something are those of the content of the block. -/
theorem filter_format (h : p.delimiters? = some d) (hb : Tidy p d align b)
    (hopener : isMarkerLine d d.opener = false) (policy : EmptyLines) :
    (b.format p (plainly policy align)).filter (fun line => !isMarkerLine d line) =
      d.opener :: b.content.map (blockLine p d align b) ++
        d.closer.toList.filter fun line => !isMarkerLine d line := by
  rw [format_eq_frame h, List.filter_append, List.filter_cons_of_pos (by simp [hopener]),
    filter_map_blockLine hb policy fun _ hrow => hrow, filter_separate rfl]
  rfl

/-- No two empty lines follow each other. -/
theorem isChain_format (h : p.delimiters? = some d) (hb : Tidy p d align b)
    (hopener : isMarkerLine d d.opener = false)
    (hcloser : ∀ closer ∈ d.closer, isMarkerLine d closer = false) (policy : EmptyLines) :
    (b.format p (plainly policy align)).IsChain fun k l =>
      ¬ (isMarkerLine d k = true ∧ isMarkerLine d l = true) := by
  have hinner : ((separate policy b.rows).map (blockLine p d align b)).IsChain fun k l =>
      ¬ (isMarkerLine d k = true ∧ isMarkerLine d l = true) := by
    rw [List.isChain_map]
    apply (spaced_separate policy hb.spaced).chain.imp_of_mem_imp
    intro r s hr hs hrs hboth
    rw [isMarkerLine_blockLine hb hr, isMarkerLine_blockLine hb hs] at hboth
    exact hrs (hboth.imp isBlank_eq_true_iff.mp isBlank_eq_true_iff.mp)
  rw [format_eq_frame h, List.cons_append, List.isChain_cons]
  refine ⟨fun l _ hboth => by simp [hopener] at hboth, ?_⟩
  refine hinner.append ?_ fun k _ l hl hboth => ?_
  · cases d.closer with
    | none => exact List.isChain_nil
    | some closer => exact List.isChain_singleton closer
  · have hclosed := hcloser l (by simpa using List.mem_of_mem_head? hl)
    rw [hclosed] at hboth
    cases hboth.2

/-- No empty line stands at either end of what is framed. -/
theorem isMarkerLine_ends (hb : Tidy p d align b) (policy : EmptyLines) :
    (∀ line ∈ ((separate policy b.rows).map (blockLine p d align b)).head?,
      isMarkerLine d line = false) ∧
    ∀ line ∈ ((separate policy b.rows).map (blockLine p d align b)).getLast?,
      isMarkerLine d line = false := by
  have hnot : ∀ row ∈ separate policy b.rows, row ≠ .blank →
      isMarkerLine d (blockLine p d align b row) = false := by
    intro row hrow hne
    rw [isMarkerLine_blockLine hb hrow, ← Bool.not_eq_true, isBlank_eq_true_iff]
    exact hne
  constructor
  · intro line hline
    rw [List.head?_map] at hline
    obtain ⟨row, hrow, rfl⟩ := Option.map_eq_some_iff.mp hline
    refine hnot row (List.mem_of_mem_head? hrow) ?_
    intro hblank
    exact (spaced_separate policy hb.spaced).head (hblank ▸ hrow)
  · intro line hline
    rw [List.getLast?_map] at hline
    obtain ⟨row, hrow, rfl⟩ := Option.map_eq_some_iff.mp hline
    refine hnot row (List.mem_of_getLast? hrow) ?_
    intro hblank
    rw [getLast?_separate] at hrow
    exact hb.last (hblank ▸ hrow)

end Lines

/-- **A policy adds separators and nothing else.**  For a tidy block, the lines that show something
are the same under every policy.  Empty lines stand alone, and none of them stands behind the opener
or at the end.  Between groups, lines that follow each other without one are those of adjacent rows
with the same tag, and not of the first two rows. -/
theorem format_separated {language : Language} {config : Config} {d : Delimiters}
    (h : (Profile.of language config).delimiters? = some d) {align : Nat} {b : Block}
    (hb : Tidy (Profile.of language config) d align b) :
    (∀ policy policy',
      (b.format (Profile.of language config) (plainly policy align)).filter
          (fun line => !isMarkerLine d line) =
        (b.format (Profile.of language config) (plainly policy' align)).filter
          fun line => !isMarkerLine d line) ∧
    (∀ policy,
      (b.format (Profile.of language config) (plainly policy align)).IsChain
        (fun k l => ¬ (isMarkerLine d k = true ∧ isMarkerLine d l = true)) ∧
      ∃ inner, b.format (Profile.of language config) (plainly policy align) =
          d.opener :: inner ++ d.closer.toList ∧
        (∀ line ∈ inner.head?, isMarkerLine d line = false) ∧
        ∀ line ∈ inner.getLast?, isMarkerLine d line = false) ∧
    ∀ u k l v, b.format (Profile.of language config) (plainly .betweenGroups align) =
        d.opener :: (u ++ k :: l :: v) ++ d.closer.toList →
      isMarkerLine d k = false → isMarkerLine d l = false →
      ∃ before r s after, b.rows = before ++ r :: s :: after ∧ before ≠ [] ∧ r.tag? = s.tag? ∧
        k = blockLine (Profile.of language config) d align b r ∧
        l = blockLine (Profile.of language config) d align b s ∧
        u.filter (fun line => !isMarkerLine d line) =
          (before.filter fun row => !row.isBlank).map
            (blockLine (Profile.of language config) d align b) := by
  obtain ⟨hopener, hcloser⟩ := isMarkerLine_frame h
  generalize Profile.of language config = p at *
  refine ⟨fun policy policy' => ?_, fun policy => ⟨isChain_format h hb hopener hcloser policy, ?_⟩,
    ?_⟩
  · rw [filter_format h hb hopener, filter_format h hb hopener]
  · exact ⟨_, format_eq_frame h b policy, isMarkerLine_ends hb policy⟩
  · intro u k l v hformat hk hl
    rw [format_eq_frame h, List.append_cancel_right_eq, List.cons.injEq] at hformat
    obtain ⟨us, rest, hseparate, rfl, hrest⟩ := List.map_eq_append_iff.mp hformat.2
    obtain ⟨r, rest', rfl, rfl, hrest'⟩ := List.map_eq_cons_iff.mp hrest
    obtain ⟨s, vs, rfl, rfl, rfl⟩ := List.map_eq_cons_iff.mp hrest'
    have hmem : ∀ row ∈ us ++ r :: s :: vs, row ∈ separate .betweenGroups b.rows := by
      intro row hrow
      rwa [hseparate]
    rw [isMarkerLine_blockLine hb (hmem r (by simp))] at hk
    rw [isMarkerLine_blockLine hb (hmem s (by simp))] at hl
    obtain ⟨before, after, hrows, hne, htag, hfilter⟩ :=
      exists_of_separate_betweenGroups_eq hseparate hk hl
    refine ⟨before, r, s, after, hrows, hne, htag, rfl, rfl, ?_⟩
    rw [filter_map_blockLine hb .betweenGroups fun row hrow =>
      hmem row (List.mem_append_left _ hrow), hfilter]

/-- A block with an empty row of its own behind the first of two parameters. -/
def spacedBlock : Block where
  rows := [.text (.text "Moves."), .text (.text "Slowly."),
    .entry "@param" none (some (.text "x")) none, .blank,
    .entry "@param" none (some (.text "y")) none,
    .entry "@param" none (some (.text "z")) (some (.text "height"))]

/-- Between groups, only the last two parameters follow each other without an empty line. -/
theorem format_separated_spacedBlock :
    (Profile.of .java {}).delimiters? = some .javadoc ∧
      Tidy (Profile.of .java {}) .javadoc 0 spacedBlock ∧
      spacedBlock.format (Profile.of .java {}) (plainly .betweenGroups 0) =
        ["/**", " * Moves.", " *", " * Slowly.", " *", " * @param x", " *", " * @param y",
          " * @param z height", " */"].map String.toList ∧
      (spacedBlock.format (Profile.of .java {}) (plainly .betweenGroups 0)).filter
          (fun line => !isMarkerLine .javadoc line) =
        (spacedBlock.format (Profile.of .java {}) (plainly .afterSummary 0)).filter
          (fun line => !isMarkerLine .javadoc line) ∧
      ∃ before r s after, spacedBlock.rows = before ++ r :: s :: after ∧ before ≠ [] ∧
        r.tag? = s.tag? ∧
        " * @param y".toList = blockLine (Profile.of .java {}) .javadoc 0 spacedBlock r ∧
        " * @param z height".toList =
          blockLine (Profile.of .java {}) .javadoc 0 spacedBlock s := by
  have htidy : Tidy (Profile.of .java {}) .javadoc 0 spacedBlock :=
    ⟨⟨by decide, by decide⟩, by decide, by decide +kernel⟩
  have hformat : spacedBlock.format (Profile.of .java {}) (plainly .betweenGroups 0) =
      ["/**", " * Moves.", " *", " * Slowly.", " *", " * @param x", " *", " * @param y",
        " * @param z height", " */"].map String.toList := by
    decide +kernel
  have hd : (Profile.of .java {}).delimiters? = some .javadoc := rfl
  obtain ⟨hsame, -, hgroups⟩ := format_separated hd htidy
  refine ⟨rfl, htidy, hformat, hsame _ _, ?_⟩
  obtain ⟨before, r, s, after, hrows, hne, htag, hy, hz, -⟩ :=
    hgroups ([" * Moves.", " *", " * Slowly.", " *", " * @param x", " *"].map String.toList)
      " * @param y" " * @param z height" [] hformat (by decide) (by decide)
  exact ⟨before, r, s, after, hrows, hne, htag, hy, hz⟩

end DocComment.Table
