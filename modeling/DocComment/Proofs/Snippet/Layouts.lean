import DocComment.Proofs.Layout.Table
import DocComment.Proofs.Snippet.Carries
import Mathlib.Data.List.Forall2

/-!
# The tab stops that a layout carries

In a table the line of a row carries the stops of the row, and separators carry none.  In prose the
rows are regrouped into sections; rows that already stand in the order of the sections keep their
stops in order, provided that what a section leaves out of a row holds no stop.
-/

namespace DocComment

open Snippet

/-! ## Tables -/

/-- A row that a table shows whole: its tag means nothing to the host, and it has a type only
where there is a type column. -/
def Row.ShownWhole (p : Profile) : Row → Prop
  | .text _ => True
  | .blank => True
  | .tag t _ => Harmless t
  | .entry t type _ _ => Harmless t ∧ (type.isSome = true → p.hasTypeColumn = true)

/-- What a profile puts around fields means nothing to the host. -/
structure Profile.HarmlessGlue (p : Profile) : Prop where
  separator : Harmless p.separator
  around_type : ∀ t, ∃ s e, Harmless s ∧ Harmless e ∧ p.formatType t = s ++ t ++ e

namespace Table

/-- The slots of a row carry the stops of their cells, in order. -/
theorem carries_slotText (entry : Bool) (align : Nat) (widths : List Nat)
    {slots : List (Option Slot)} {nss : List (List Nat)}
    (h : List.Forall₂ (fun slot ns => Carries ((slot.map Slot.text).getD []) ns) slots nss) :
    ∀ i, Carries (slotText entry align widths i slots) nss.flatten := by
  induction h with
  | nil => exact fun _ => carries_nil
  | @cons slot ns slots nss hslot _ ih =>
    intro i
    cases slot with
    | none =>
      obtain rfl := hslot.eq_nil
      exact ih (i + 1)
    | some slot =>
      rw [slotText, List.flatten_cons]
      refine Carries.append ?_ (ih (i + 1))
      split
      · next hhidden =>
        -- A slot that is left out is empty, so it carries nothing.
        have hempty : slot.text = [] := by simp at hhidden; exact hhidden.1
        rw [Option.map_some, Option.getD_some, hempty] at hslot
        rw [hslot.eq_nil]
        exact carries_nil
      · have hspace : Harmless [' '] := by decide
        have hpadding := harmless_of_blanks (Text.blanks_replicate
          (if (entry && decide (i < align) && decide (0 < (widths[i]?).getD 0)) = true then
            (widths[i]?).getD 0 - slot.width else 0))
        exact (Carries.after hslot hspace).before hpadding

variable {p : Profile} {options : LayoutOptions}

/-- The slot of a type carries the stops of the type, whatever its wrapper. -/
theorem carries_typeSlot (hp : p.HarmlessGlue) (type : Option Field) :
    Carries (typeSlot p true type).text (indicesOf type) := by
  cases type with
  | none => exact carries_nil
  | some type =>
    obtain ⟨s, e, hs, he, hformat⟩ := hp.around_type (type.render true)
    have hinner : Carries (s ++ type.render true ++ e) type.indices :=
      ((carries_snippet type).after hs).before he
    rw [← hformat] at hinner
    exact hinner

/-- The slots of a row carry its type and its name. -/
theorem carries_entrySlots (hp : p.HarmlessGlue) {tag : Text} {type name description : Option Field}
    (hrow : (Row.entry tag type name description).ShownWhole p) :
    ∃ nss, List.Forall₂ (fun slot ns => Carries ((slot.map Slot.text).getD []) ns)
        (slots p true (.entry tag type name description)) nss ∧
      nss.flatten = indicesOf type ++ indicesOf name := by
  obtain ⟨htag, htype⟩ := hrow
  have hshown : ∀ (b : Bool) (field : Option Field) (slot : Slot),
      Carries slot.text (indicesOf field) →
      Carries (((if (b || field.isSome) = true then some slot else none).map Slot.text).getD [])
        (indicesOf field) := by
    intro b field slot hslot
    split
    · exact hslot
    · next hnone =>
      have : field = none := by simp at hnone; exact hnone.2
      subst this
      exact carries_nil
  have htagSlot : Carries (((some (tagSlot tag)).map Slot.text).getD []) [] :=
    carries_of_harmless htag
  have hnameSlot := hshown ((p.columns? tag).getD ⟨type.isSome, name.isSome⟩).name name
    (nameSlot true name) (carries_cell name)
  cases hcolumn : p.hasTypeColumn with
  | true =>
    have htypeSlot := hshown ((p.columns? tag).getD ⟨type.isSome, name.isSome⟩).type type
      (typeSlot p true type) (carries_typeSlot hp type)
    refine ⟨[[], indicesOf type, indicesOf name], ?_, by simp⟩
    rw [slots, hcolumn]
    exact .cons htagSlot (.cons htypeSlot (.cons hnameSlot .nil))
  | false =>
    have hnone : type = none := by
      cases type with
      | none => rfl
      | some _ => simp [hcolumn] at htype
    refine ⟨[[], indicesOf name], ?_, by simp [hnone, indicesOf]⟩
    rw [slots, hcolumn]
    exact .cons htagSlot (.cons hnameSlot .nil)

/-- A value behind its separator carries its own stops. -/
theorem carries_valueText {separator value : Text} {ns : List Nat} (hs : Harmless separator)
    (hvalue : Carries value ns) : Carries (valueText separator value) ns := by
  unfold valueText
  split
  · next hempty =>
    rw [List.isEmpty_iff.mp hempty] at hvalue
    rw [hvalue.eq_nil]
    exact carries_nil
  · exact hvalue.after hs

/-- **The line of a row carries the stops of the row.** -/
theorem carries_rowText (hp : p.HarmlessGlue) (hsnippet : options.asSnippet = true)
    (widths : List Nat) {row : Row} (hrow : row.ShownWhole p) :
    Carries (rowText p options widths row) row.indices := by
  have hspace : Harmless [' '] := by decide
  cases row with
  | blank => exact carries_nil
  | text field =>
    simp only [rowText, hsnippet]
    exact (carries_snippet field).after hspace
  | tag tag value =>
    have htag : List.Forall₂ (fun slot ns => Carries ((slot.map Slot.text).getD []) ns)
        [some (tagSlot tag)] [[]] := .cons (carries_of_harmless hrow) .nil
    simp only [rowText, hsnippet]
    exact (carries_slotText false options.align widths htag 0).append
      (carries_valueText hspace (carries_cell value))
  | entry tag type name description =>
    obtain ⟨nss, hslots, hnss⟩ := carries_entrySlots hp hrow
    have hseparator : ∀ b : Bool, Harmless (if b = true then p.separator else [' ']) := by
      intro b
      cases b
      · exact hspace
      · exact hp.separator
    have hcolumns := carries_slotText true options.align widths hslots 0
    rw [hnss] at hcolumns
    simp only [rowText, hsnippet]
    exact hcolumns.append (carries_valueText (hseparator _) (carries_cell description))

/-- Separators carry no stop. -/
theorem flatMap_indices_separateFrom (policy : EmptyLines) (index : Nat) (previous : Row)
    (rows : List Row) :
    (separateFrom policy index previous rows).flatMap Row.indices =
      rows.flatMap Row.indices := by
  induction rows generalizing index previous with
  | nil => rfl
  | cons row rows ih =>
    rw [separateFrom, List.flatMap_append, ih, List.flatMap_cons]
    split <;> simp [Row.indices]

/-- Separating groups adds no stops. -/
theorem flatMap_indices_separate (policy : EmptyLines) (rows : List Row) :
    (separate policy rows).flatMap Row.indices = rows.flatMap Row.indices := by
  cases rows with
  | nil => rfl
  | cons row rows => rw [separate, List.flatMap_cons, flatMap_indices_separateFrom, List.flatMap_cons]

/-- The lines of a table carry the stops of its rows. -/
theorem linesCarry_lines (hp : p.HarmlessGlue) (hsnippet : options.asSnippet = true)
    {d : Delimiters} (hopener : Harmless d.opener) (hmarker : Harmless d.marker)
    (hcloser : ∀ closer ∈ d.closer, Harmless closer) {b : Block}
    (hrows : ∀ row ∈ b.rows, row.ShownWhole p) :
    LinesCarry (lines p d options b) b.indices := by
  have hlines : LinesCarry ((separate options.emptyLines b.rows).map
      (rowLine p options d.marker (columnWidths p b.rows))) b.indices := by
    rw [Block.indices, ← flatMap_indices_separate options.emptyLines]
    apply linesCarry_map
    intro row hrow
    have hshown : row.ShownWhole p := by
      rcases mem_separate hrow with h | rfl
      · exact hrows row h
      · trivial
    exact ((carries_rowText hp hsnippet _ hshown).after hmarker).trimEnd
  have hend : LinesCarry d.closer.toList [] :=
    linesCarry_of_harmless fun line hline => hcloser line (by simpa using hline)
  have hall := LinesCarry.cons (carries_of_harmless hopener) (hlines.append hend)
  rw [List.append_nil] at hall
  exact hall

end Table

/-! ## Prose -/

/-- A structured row without a type that belongs to a section.  Outside the parameters its name
is no stop. -/
def Row.InSection (wanted : Prose.Section) (r : Row) : Prop :=
  ∃ t name description, r = .entry t none name description ∧ Prose.sectionOf t = wanted ∧
    (wanted ≠ .parameters → indicesOf name = [])

namespace Prose

/-- A summary and the rows of the sections, in the order in which the sections are printed.  There
is at most one result. -/
structure Sorted (rows : List Row) (summary : Field) (parameters exceptions results : List Row) :
    Prop where
  rows_eq : rows = .text summary :: (parameters ++ exceptions ++ results)
  in_parameters : ∀ r ∈ parameters, r.InSection .parameters
  in_exceptions : ∀ r ∈ exceptions, r.InSection .exceptions
  in_results : ∀ r ∈ results, r.InSection .result
  one_result : results.length ≤ 1

/-- The entries of a section are gathered part by part. -/
theorem entries_append (asSnippet : Bool) (wanted : Section) (rs ss : List Row) :
    entries asSnippet wanted (rs ++ ss) =
      entries asSnippet wanted rs ++ entries asSnippet wanted ss := by
  simp [entries]

/-- Free text is in no section. -/
theorem entries_text_cons (asSnippet : Bool) (wanted : Section) (f : Field) (rs : List Row) :
    entries asSnippet wanted (.text f :: rs) = entries asSnippet wanted rs := by
  simp [entries]

/-- The rows of one section are no rows of another. -/
theorem entries_of_inSection_ne {s wanted : Section} (hne : s ≠ wanted) {rows : List Row}
    (h : ∀ r ∈ rows, r.InSection s) : entries true wanted rows = [] := by
  rw [entries, List.filterMap_eq_nil_iff]
  intro r hr
  obtain ⟨t, name, description, rfl, hs, -⟩ := h r hr
  simp [hs, hne]

/-- Rows of one section leave none over. -/
theorem others_of_inSection {s : Section} (hne : s ≠ .other) {rows : List Row}
    (h : ∀ r ∈ rows, r.InSection s) : others true rows = [] := by
  rw [others, List.filterMap_eq_nil_iff]
  intro r hr
  obtain ⟨t, name, description, rfl, hs, -⟩ := h r hr
  simp [hs, hne]

/-- Rows of one section have no free text. -/
theorem textLines_of_inSection {s : Section} (marker : Text) {rows : List Row}
    (h : ∀ r ∈ rows, r.InSection s) : textLines marker true rows = [] := by
  rw [textLines, List.filterMap_eq_nil_iff]
  intro r hr
  obtain ⟨t, name, description, rfl, -, -⟩ := h r hr
  rfl

/-- The items of a section carry the stops of its rows. -/
theorem linesCarry_entries {s : Section} {rows : List Row} (h : ∀ r ∈ rows, r.InSection s)
    (item : Text × Text → Text)
    (hitem : ∀ name description : Option Field, (s ≠ .parameters → indicesOf name = []) →
      Carries (item (cell name true, cell description true))
        (indicesOf name ++ indicesOf description)) :
    LinesCarry ((entries true s rows).map item) (rows.flatMap Row.indices) := by
  induction rows with
  | nil => exact .nil
  | cons r rows ih =>
    obtain ⟨t, name, description, rfl, hs, hname⟩ := h r List.mem_cons_self
    have hrest := ih fun r hr => h r (List.mem_cons_of_mem _ hr)
    have hentries : entries true s (.entry t none name description :: rows) =
        (cell name true, cell description true) :: entries true s rows := by
      simp [entries, hs]
    rw [hentries, List.map_cons, List.flatMap_cons]
    exact .cons (hitem name description hname) hrest

/-- A line of harmless text around a description. -/
theorem carries_line {marker text : Text} {ns : List Nat} (hmarker : Harmless marker)
    (htext : Carries text ns) : Carries (line marker text) ns := by
  have hspace : Harmless [' '] := by decide
  exact ((htext.after hspace).after hmarker).trimEnd

/-- A section carries the stops of its body. -/
theorem linesCarry_sectionLines {heading body : List Text} {ns : List Nat}
    (hheading : ∀ l ∈ heading, Harmless l) (hbody : LinesCarry body ns) :
    LinesCarry (sectionLines heading body) ns := by
  unfold sectionLines
  split
  · next hempty =>
    rw [List.isEmpty_iff.mp hempty] at hbody
    exact hbody
  · exact (linesCarry_of_harmless hheading).append hbody

section Sorted

variable {rows parameters exceptions results : List Row} {summary : Field}

/-- The stops of sorted rows come section by section. -/
theorem Sorted.flatMap_indices (h : Sorted rows summary parameters exceptions results) :
    rows.flatMap Row.indices = summary.indices ++ parameters.flatMap Row.indices ++
      exceptions.flatMap Row.indices ++ results.flatMap Row.indices := by
  rw [h.rows_eq]
  simp [Row.indices]

/-- The parameters of sorted rows are those of their section. -/
theorem Sorted.entries_parameters (h : Sorted rows summary parameters exceptions results) :
    entries true .parameters rows = entries true .parameters parameters := by
  rw [h.rows_eq, entries_text_cons, entries_append, entries_append,
    entries_of_inSection_ne (by decide) h.in_exceptions,
    entries_of_inSection_ne (by decide) h.in_results, List.append_nil, List.append_nil]

/-- The exceptions of sorted rows are those of their section. -/
theorem Sorted.entries_exceptions (h : Sorted rows summary parameters exceptions results) :
    entries true .exceptions rows = entries true .exceptions exceptions := by
  rw [h.rows_eq, entries_text_cons, entries_append, entries_append,
    entries_of_inSection_ne (by decide) h.in_parameters,
    entries_of_inSection_ne (by decide) h.in_results, List.append_nil, List.nil_append]

/-- Sorted rows leave none over. -/
theorem Sorted.others_eq (h : Sorted rows summary parameters exceptions results) :
    others true rows = [] := by
  have happend : ∀ rs ss : List Row, others true (rs ++ ss) = others true rs ++ others true ss := by
    simp [others]
  have hcons : ∀ (f : Field) (rs : List Row), others true (.text f :: rs) = others true rs := by
    simp [others]
  rw [h.rows_eq, hcons, happend, happend, others_of_inSection (by decide) h.in_parameters,
    others_of_inSection (by decide) h.in_exceptions, others_of_inSection (by decide) h.in_results]
  rfl

/-- The only free text of sorted rows is the summary. -/
theorem Sorted.textLines_eq (h : Sorted rows summary parameters exceptions results)
    (marker : Text) : textLines marker true rows = [line marker summary.snippet] := by
  have happend : ∀ rs ss : List Row,
      textLines marker true (rs ++ ss) = textLines marker true rs ++ textLines marker true ss := by
    simp [textLines]
  have hcons : ∀ (f : Field) (rs : List Row),
      textLines marker true (.text f :: rs) = line marker f.snippet :: textLines marker true rs := by
    simp [textLines, Field.render]
  rw [h.rows_eq, hcons, happend, happend, textLines_of_inSection marker h.in_parameters,
    textLines_of_inSection marker h.in_exceptions, textLines_of_inSection marker h.in_results]
  rfl

/-- The lines of the only result. -/
theorem Sorted.linesCarry_result (h : Sorted rows summary parameters exceptions results)
    (item : Text → Text)
    (hitem : ∀ description : Option Field,
      Carries (item (cell description true)) (indicesOf description)) :
    LinesCarry ((result? true rows).toList.map item) (results.flatMap Row.indices) := by
  have hentries : entries true .result rows = entries true .result results := by
    rw [h.rows_eq, entries_text_cons, entries_append, entries_append,
      entries_of_inSection_ne (by decide) h.in_parameters,
      entries_of_inSection_ne (by decide) h.in_exceptions, List.append_nil, List.nil_append]
  have hlast : (result? true rows).toList = (entries true .result results).map Prod.snd := by
    rw [result?, hentries]
    have hlen : (entries true .result results).length ≤ 1 :=
      (List.length_filterMap_le _ _).trans h.one_result
    match entries true .result results, hlen with
    | [], _ => rfl
    | [_], _ => rfl
  rw [hlast, List.map_map]
  apply linesCarry_entries h.in_results
  intro name description hname
  rw [hname (by decide), List.nil_append]
  exact hitem description

/-- Markdown sections carry the stops of the rows. -/
theorem Sorted.linesCarry_rustdocLines (h : Sorted rows summary parameters exceptions results) :
    LinesCarry (rustdocLines true rows) (rows.flatMap Row.indices) := by
  have hslashes : Harmless slashes := by decide
  have hparameters := linesCarry_entries h.in_parameters
    (fun entry => line slashes ("* \x60".toList ++ entry.1 ++ "\x60 - ".toList ++ entry.2))
    fun name description _ => carries_line hslashes
      ((((carries_cell name).after (by decide)).before (by decide)).append
        (carries_cell description))
  have hexceptions := linesCarry_entries h.in_exceptions
    (fun entry => line slashes entry.2)
    fun name description hname => by
      rw [hname (by decide), List.nil_append]
      exact carries_line hslashes (carries_cell description)
  have hresult := h.linesCarry_result (line slashes) fun description =>
    carries_line hslashes (carries_cell description)
  have hsummary := LinesCarry.singleton (carries_line hslashes (carries_snippet summary))
  rw [rustdocLines, h.textLines_eq, h.entries_parameters, h.entries_exceptions, h.others_eq,
    List.flatMap_nil, List.append_nil, h.flatMap_indices]
  exact ((hsummary.append (linesCarry_sectionLines (by decide) hparameters)).append
    (linesCarry_sectionLines (by decide) hexceptions)).append
    (linesCarry_sectionLines (by decide) hresult)

/-- A callout list carries the stops of the parameters, alone or under a heading. -/
theorem linesCarry_parameterCallouts {parameters : List Row}
    (h : ∀ r ∈ parameters, r.InSection .parameters) :
    LinesCarry (parameterCallouts (entries true .parameters parameters))
      (parameters.flatMap Row.indices) := by
  have hslashes : Harmless slashes := by decide
  have hitem : ∀ start : Text, Harmless start → LinesCarry
      ((entries true .parameters parameters).map fun entry =>
        line slashes (start ++ entry.1 ++ ": ".toList ++ entry.2))
      (parameters.flatMap Row.indices) := by
    intro start hstart
    apply linesCarry_entries h
    intro name description _
    exact carries_line hslashes ((((carries_cell name).after hstart).before (by decide)).append
      (carries_cell description))
  rcases hentries : entries true .parameters parameters with _ | ⟨first, _ | ⟨second, more⟩⟩
  · have := hitem [] (by decide)
    rw [hentries] at this
    exact this
  · have := hitem "- Parameter ".toList (by decide)
    rw [hentries] at this
    exact this
  · have hheading : Carries (line slashes "- Parameters:") [] :=
      carries_of_harmless (by decide)
    have := hitem "  - ".toList (by decide)
    rw [hentries] at this
    exact .cons hheading this

/-- Callouts carry the stops of the rows. -/
theorem Sorted.linesCarry_swiftLines (h : Sorted rows summary parameters exceptions results) :
    LinesCarry (swiftLines true rows) (rows.flatMap Row.indices) := by
  have hslashes : Harmless slashes := by decide
  have hexceptions := linesCarry_entries h.in_exceptions
    (fun entry => line slashes ("- Throws: ".toList ++ entry.2))
    fun name description hname => by
      rw [hname (by decide), List.nil_append]
      exact carries_line hslashes ((carries_cell description).after (by decide))
  have hresult := h.linesCarry_result
    (fun description => line slashes ("- Returns: ".toList ++ description))
    fun description => carries_line hslashes ((carries_cell description).after (by decide))
  have hsummary := LinesCarry.singleton (carries_line hslashes (carries_snippet summary))
  have hindices : rows.flatMap Row.indices = summary.indices ++
      (parameters.flatMap Row.indices ++ exceptions.flatMap Row.indices ++
        results.flatMap Row.indices) := by
    rw [h.flatMap_indices, List.append_assoc, List.append_assoc, List.append_assoc]
  rw [swiftLines, callouts, h.textLines_eq, h.entries_parameters, h.entries_exceptions,
    h.others_eq, List.map_nil, List.nil_append, hindices]
  exact hsummary.append (linesCarry_sectionLines (by decide)
    (((linesCarry_parameterCallouts h.in_parameters).append hexceptions).append hresult))

/-- Number sign headings carry the stops of the rows. -/
theorem Sorted.linesCarry_rdocLines (h : Sorted rows summary parameters exceptions results) :
    LinesCarry (rdocLines true rows) (rows.flatMap Row.indices) := by
  have hsign : Harmless numberSign := by decide
  have hitem : ∀ name description : Option Field,
      Carries (line numberSign ('+' :: cell name true ++ "+:: ".toList ++ cell description true))
        (indicesOf name ++ indicesOf description) := by
    intro name description
    have hplus : Harmless ['+'] := by decide
    exact carries_line hsign ((((carries_cell name).after hplus).before (by decide)).append
      (carries_cell description))
  have hparameters := linesCarry_entries h.in_parameters
    (fun entry => line numberSign ('+' :: entry.1 ++ "+:: ".toList ++ entry.2))
    fun name description _ => hitem name description
  have hexceptions := linesCarry_entries h.in_exceptions
    (fun entry => line numberSign ('+' :: entry.1 ++ "+:: ".toList ++ entry.2))
    fun name description _ => hitem name description
  have hresult := h.linesCarry_result (line numberSign) fun description =>
    carries_line hsign (carries_cell description)
  have hopener : Carries "##".toList [] := carries_of_harmless (by decide)
  have hsummary := LinesCarry.cons hopener
    (.singleton (carries_line hsign (carries_snippet summary)))
  rw [rdocLines, h.textLines_eq, h.entries_parameters, h.entries_exceptions, h.others_eq,
    List.map_nil, List.append_nil, h.flatMap_indices]
  exact ((hsummary.append (linesCarry_sectionLines (by decide) hparameters)).append
    (linesCarry_sectionLines (by decide) hexceptions)).append
    (linesCarry_sectionLines (by decide) hresult)

end Sorted

end Prose

end DocComment
