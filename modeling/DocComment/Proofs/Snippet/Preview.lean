import DocComment.Proofs.Layout.Table
import DocComment.Proofs.Snippet.Expansion
import Mathlib.Data.List.Forall2

/-!
# A snippet shows the plain layout

The lines of a block in snippet form, once a host has expanded them, are the lines of the block as
plain text (`map_expand_format`).  In a table the two forms are followed slot by slot: two slots are
as wide, empty together, and the one shows the other.  In prose they are followed entry by entry,
since the rows are sorted into sections before anything is written.
-/

namespace DocComment

open Text Snippet

/-- The tab stops of the row have firm defaults, and its tag means nothing to the host. -/
def Row.Expandable : Row → Prop
  | .text f => f.Firm
  | .blank => True
  | .tag t value => QuietTag t ∧ ∀ f ∈ value, f.Firm
  | .entry t type name description =>
    QuietTag t ∧ (∀ f ∈ type, f.Firm) ∧ (∀ f ∈ name, f.Firm) ∧ ∀ f ∈ description, f.Firm

instance : DecidablePred Row.Expandable
  | .text f => inferInstanceAs (Decidable f.Firm)
  | .blank => inferInstanceAs (Decidable True)
  | .tag t value => inferInstanceAs (Decidable (QuietTag t ∧ ∀ f ∈ value, f.Firm))
  | .entry t type name description => inferInstanceAs (Decidable (QuietTag t ∧
      (∀ f ∈ type, f.Firm) ∧ (∀ f ∈ name, f.Firm) ∧ ∀ f ∈ description, f.Firm))

/-- A profile puts the same around every type and a separator after a name, and neither means
anything to the host. -/
structure Profile.FixedGlue (p : Profile) : Prop where
  separator : ∃ rest, Harmless rest ∧ p.separator = ' ' :: rest
  around_type : ∃ u v, Harmless u ∧ Harmless v ∧ ∀ t, p.formatType t = u ++ t ++ v

/-- What a language puts between columns means nothing in a snippet. -/
theorem Profile.fixedGlue_of (language : Language) (config : Config) :
    (of language config).FixedGlue := by
  constructor
  · rcases separator_of language config with h | h
    · exact ⟨[], by decide, h⟩
    · exact ⟨"- ".toList, by decide, h⟩
  · rcases formatType_of language config with h | h | h
    · exact ⟨[], [], by decide, by decide, by simp [h]⟩
    · exact ⟨['{'], ['}'], by decide, by decide, h⟩
    · exact ⟨['['], [']'], by decide, by decide, h⟩

/-! ## Tables -/

namespace Table

/-- The slot `u` of a snippet shows the slot `v` of plain text. -/
structure SlotShows (u v : Slot) : Prop where
  width_eq : u.width = v.width
  nil_iff : u.text = [] ↔ v.text = []
  before : ShowsBefore u.text v.text

/-- Slots that show each other do so one after the other, padding included. -/
theorem showsBefore_slotText (entry : Bool) (align : Nat) (widths : List Nat)
    {us vs : List (Option Slot)} (h : List.Forall₂ (Option.Rel SlotShows) us vs) :
    ∀ i, ShowsBefore (slotText entry align widths i us) (slotText entry align widths i vs) := by
  induction h with
  | nil => exact fun _ _ _ _ h => h
  | @cons u v us vs hslot _ ih =>
    intro i s t hs hst
    have hrest := ih (i + 1) s t hs hst
    have hblank := startsBlank_slotText_append entry align widths us hs (i + 1)
    cases hslot with
    | none => exact hrest
    | @some u v hslot =>
      have hempty : u.text.isEmpty = v.text.isEmpty := by
        rw [Bool.eq_iff_iff, List.isEmpty_iff, List.isEmpty_iff, hslot.nil_iff]
      rw [slotText, slotText, hempty, hslot.width_eq, List.append_assoc, List.append_assoc]
      split
      · exact hrest
      · -- The padding is blank, so a tag may stand before it.
        have hpadding := blanks_replicate
          (if (entry && decide (i < align) && decide (0 < (widths[i]?).getD 0)) = true then
            (widths[i]?).getD 0 - v.width else 0)
        have hpadded := hrest.after (harmless_of_blanks hpadding)
        have hspace : Harmless [' '] := by decide
        have hshown := (hslot.before _ _ (hpadding.startsBlank_append hblank) hpadded).after hspace
        simpa only [List.append_assoc, List.cons_append, List.nil_append] using hshown

/-- A quiet tag shows itself. -/
theorem slotShows_tagSlot {t : Text} (ht : QuietTag t) : SlotShows (tagSlot t) (tagSlot t) :=
  ⟨rfl, Iff.rfl, showsBefore_tag ht⟩

/-- The slot of a name shows its plain text. -/
theorem slotShows_nameSlot {name : Option Field} (hname : ∀ f ∈ name, f.Firm) :
    SlotShows (nameSlot true name) (nameSlot false name) :=
  ⟨rfl, cell_eq_nil_iff hname, (showsAnywhere_cell hname).showsBefore⟩

variable {p : Profile}

/-- The slot of a type shows its plain text in the same wrapper. -/
theorem slotShows_typeSlot (hp : p.FixedGlue) {type : Option Field}
    (htype : ∀ f ∈ type, f.Firm) :
    SlotShows (typeSlot p true type) (typeSlot p false type) := by
  obtain ⟨u, v, hu, hv, hformat⟩ := hp.around_type
  cases type with
  | none => exact ⟨rfl, Iff.rfl, fun _ _ _ h => h⟩
  | some f =>
    have hf := htype f rfl
    refine ⟨rfl, ?_, ?_⟩
    · show p.formatType f.snippet = [] ↔ p.formatType f.plain = []
      rw [hformat, hformat]
      simp only [List.append_eq_nil_iff, snippet_eq_nil_iff hf]
    · show ShowsBefore (p.formatType f.snippet) (p.formatType f.plain)
      intro s t _ h
      have hshown := (showsAnywhere_field hf _ _ (h.after hv)).after hu
      rw [hformat, hformat]
      simpa only [List.append_assoc] using hshown

/-- The slots of a row in the two forms. -/
theorem forall₂_slots (hp : p.FixedGlue) {row : Row} (hrow : row.Expandable) :
    List.Forall₂ (Option.Rel SlotShows) (slots p true row) (slots p false row) := by
  have hshown : ∀ (b : Bool) (u v : Slot), SlotShows u v →
      Option.Rel SlotShows (if b = true then some u else none)
        (if b = true then some v else none) := by
    intro b u v h
    cases b
    · exact .none
    · exact .some h
  cases row with
  | text _ | blank => exact .nil
  | tag t _ => exact .cons (.some (slotShows_tagSlot hrow.1)) .nil
  | entry t type name description =>
    obtain ⟨htag, htype, hname, -⟩ := hrow
    have hlast := hshown (((p.columns? t).getD ⟨type.isSome, name.isSome⟩).name || name.isSome)
      _ _ (slotShows_nameSlot hname)
    have htypeSlot := hshown (((p.columns? t).getD ⟨type.isSome, name.isSome⟩).type || type.isSome)
      _ _ (slotShows_typeSlot hp htype)
    have htagSlot := slotShows_tagSlot htag
    rw [slots, slots]
    cases p.hasTypeColumn with
    | true => exact .cons (.some htagSlot) (.cons htypeSlot (.cons hlast .nil))
    | false => exact .cons (.some htagSlot) (.cons hlast .nil)

/-- A value after its separator. -/
theorem shows_valueText {separator : Text} (hseparator : Harmless separator) {value : Option Field}
    (hvalue : ∀ f ∈ value, f.Firm) :
    Shows (valueText separator (cell value true)) (valueText separator (cell value false)) := by
  have hempty : (cell value true).isEmpty = (cell value false).isEmpty := by
    rw [Bool.eq_iff_iff, List.isEmpty_iff, List.isEmpty_iff, cell_eq_nil_iff hvalue]
  unfold valueText
  rw [hempty]
  split
  · exact shows_nil
  · exact (showsAnywhere_cell hvalue).shows.after hseparator

/-- Whether the last slot is there does not depend on the form. -/
theorem isSome_getLast?_slots (row : Row) :
    ((slots p true row).getLast?.bind id).isSome = ((slots p false row).getLast?.bind id).isSome := by
  cases row with
  | text _ | blank | tag _ _ => rfl
  | entry t type name description =>
    simp only [slots, List.getLast?_append, List.getLast?_singleton, Option.some_or,
      Option.bind_some, id]
    split <;> rfl

/-- **The text of a row in snippet form shows its plain text.** -/
theorem shows_rowText (hp : p.FixedGlue) (align : Nat) (emptyLines : EmptyLines)
    (widths : List Nat) {row : Row} (hrow : row.Expandable) :
    Shows (rowText p { asSnippet := true, align, emptyLines } widths row)
      (rowText p { align, emptyLines } widths row) := by
  have hspace : Harmless [' '] := by decide
  have hslots := forall₂_slots hp hrow
  cases row with
  | blank => exact shows_nil
  | text f => exact (showsAnywhere_field hrow).shows.after hspace
  | tag t value =>
    exact showsBefore_slotText false align widths hslots 0 _ _ (startsBlank_valueText [] _)
      (shows_valueText hspace hrow.2)
  | entry t type name description =>
    have hseparator : ∀ b : Bool, ∃ rest, Harmless rest ∧
        (if b = true then p.separator else [' ']) = ' ' :: rest := by
      intro b
      cases b
      · exact ⟨[], by decide, rfl⟩
      · exact hp.separator
    simp only [rowText]
    rw [isSome_getLast?_slots]
    obtain ⟨rest, hrest, heq⟩ :=
      hseparator ((slots p false (.entry t type name description)).getLast?.bind id).isSome
    have hafter : Harmless (' ' :: rest) := by
      intro c hc
      rcases List.mem_cons.mp hc with rfl | hc
      · decide
      · exact hrest c hc
    rw [heq]
    exact showsBefore_slotText true align widths hslots 0 _ _ (startsBlank_valueText rest _)
      (shows_valueText hafter hrow.2.2.2)

/-- Every row of a separated list is a row of the list or an empty line. -/
theorem expandable_of_mem_separate {policy : EmptyLines} {rows : List Row}
    (h : ∀ row ∈ rows, row.Expandable) : ∀ row ∈ separate policy rows, row.Expandable := by
  intro row hrow
  rcases mem_separate hrow with hmem | rfl
  · exact h row hmem
  · trivial

/-- The lines of a table in snippet form show its plain lines. -/
theorem map_expand_lines (hp : p.FixedGlue) {d : Delimiters} (hopener : Harmless d.opener)
    (hmarker : Harmless d.marker) (hcloser : ∀ closer ∈ d.closer, Harmless closer)
    (align : Nat) (emptyLines : EmptyLines) {b : Block} (h : ∀ row ∈ b.rows, row.Expandable) :
    (lines p d { asSnippet := true, align, emptyLines } b).map expand =
      lines p d { align, emptyLines } b := by
  have hrows : ((separate emptyLines b.rows).map
        (rowLine p { asSnippet := true, align, emptyLines } d.marker
          (columnWidths p b.rows))).map expand =
      (separate emptyLines b.rows).map
        (rowLine p { align, emptyLines } d.marker (columnWidths p b.rows)) := by
    rw [List.map_map]
    refine List.map_congr_left fun row hrow => ?_
    have hrow := expandable_of_mem_separate h row hrow
    exact ((shows_rowText hp align emptyLines _ hrow).after hmarker).expand_trimEnd
  have hend : d.closer.toList.map expand = d.closer.toList := by
    refine (List.map_congr_left fun closer hmem => ?_).trans (List.map_id _)
    exact expand_harmless (hcloser closer (by simpa using hmem))
  simp only [lines, List.map_cons, List.map_append, List.cons_append]
  rw [expand_harmless hopener, hrows, hend]

end Table

/-! ## Prose -/

namespace Prose

/-- A name and a description that show another name and description. -/
def PairShows (u v : Text × Text) : Prop := ShowsAnywhere u.1 v.1 ∧ ShowsAnywhere u.2 v.2

/-- Values of one tag of which the first shows the second. -/
def LabelShows (u v : Text × Text) : Prop := u.1 = v.1 ∧ Harmless u.1 ∧ ShowsAnywhere u.2 v.2

/-- The entries of a section show their plain text, one by one. -/
theorem forall₂_entries (wanted : Section) {rows : List Row} (h : ∀ row ∈ rows, row.Expandable) :
    List.Forall₂ PairShows (entries true wanted rows) (entries false wanted rows) := by
  induction rows with
  | nil => exact .nil
  | cons row rows ih =>
    have hrest := ih fun r hr => h r (List.mem_cons_of_mem _ hr)
    have hrow := h row List.mem_cons_self
    cases row with
    | text _ | blank | tag _ _ => simpa [entries] using hrest
    | entry t type name description =>
      by_cases hs : sectionOf t = wanted
      · have hpair : PairShows (cell name true, cell description true)
            (cell name false, cell description false) :=
          ⟨showsAnywhere_cell hrow.2.2.1, showsAnywhere_cell hrow.2.2.2⟩
        simpa [entries, hs] using And.intro hpair hrest
      · simpa [entries, hs] using hrest

/-- The rows of no section show their plain text, one by one. -/
theorem forall₂_others {rows : List Row} (h : ∀ row ∈ rows, row.Expandable) :
    List.Forall₂ LabelShows (others true rows) (others false rows) := by
  induction rows with
  | nil => exact .nil
  | cons row rows ih =>
    have hrest := ih fun r hr => h r (List.mem_cons_of_mem _ hr)
    have hrow := h row List.mem_cons_self
    have hpair : ∀ {t : Text} {value : Option Field}, QuietTag t → (∀ f ∈ value, f.Firm) →
        LabelShows (tagName t, cell value true) (tagName t, cell value false) := fun ht hvalue =>
      ⟨rfl, harmless_tagName ht, showsAnywhere_cell hvalue⟩
    cases row with
    | text _ | blank => simpa [others] using hrest
    | tag t value => simpa [others] using And.intro (hpair hrow.1 hrow.2) hrest
    | entry t type name description =>
      by_cases hs : sectionOf t = .other
      · simpa [others, hs] using And.intro (hpair hrow.1 hrow.2.2.2) hrest
      · simpa [others, hs] using hrest

section Items

variable {us vs : List (Text × Text)} {R : Text × Text → Text × Text → Prop}

/-- Lines made of one item each are expanded to those of what the items show. -/
theorem map_expand_map (h : List.Forall₂ R us vs) (item : Text × Text → Text)
    (hitem : ∀ u v, R u v → expand (item u) = item v) :
    (us.map item).map expand = vs.map item := by
  induction h with
  | nil => rfl
  | cons hpair _ ih =>
    rw [List.map_cons, List.map_cons, hitem _ _ hpair, ih, List.map_cons]

/-- Lines made of an item are expanded to those of what the item shows. -/
theorem map_expand_flatMap (h : List.Forall₂ R us vs) (item : Text × Text → List Text)
    (hitem : ∀ u v, R u v → (item u).map expand = item v) :
    (us.flatMap item).map expand = vs.flatMap item := by
  induction h with
  | nil => rfl
  | cons hpair _ ih =>
    rw [List.flatMap_cons, List.map_append, hitem _ _ hpair, ih, List.flatMap_cons]

end Items

/-- A line behind its marker is expanded to what its text shows. -/
theorem expand_line {marker u v : Text} (hmarker : Harmless marker) (h : Shows u v) :
    expand (line marker u) = line marker v := by
  have hspace : Harmless [' '] := by decide
  exact ((h.after hspace).after hmarker).expand_trimEnd

/-- A harmless line is expanded to itself. -/
theorem expand_line_harmless {marker text : Text} (hmarker : Harmless marker)
    (htext : Harmless text) : expand (line marker text) = line marker text :=
  expand_line hmarker (showsAnywhere_of_harmless htext).shows

/-- Free text is expanded to its plain lines. -/
theorem map_expand_textLines {marker : Text} (hmarker : Harmless marker) {rows : List Row}
    (h : ∀ row ∈ rows, row.Expandable) :
    (textLines marker true rows).map expand = textLines marker false rows := by
  induction rows with
  | nil => rfl
  | cons row rows ih =>
    have hrest := ih fun r hr => h r (List.mem_cons_of_mem _ hr)
    have hrow := h row List.mem_cons_self
    cases row with
    | text f =>
      have hline := expand_line hmarker (showsAnywhere_field hrow).shows
      simpa [textLines, Field.render] using And.intro hline hrest
    | blank => simpa [textLines] using And.intro (expand_harmless hmarker) hrest
    | tag _ _ | entry _ _ _ _ => simpa [textLines] using hrest

/-- A section is expanded to the plain one if its body is. -/
theorem map_expand_sectionLines {heading body plain : List Text}
    (hheading : heading.map expand = heading) (hbody : body.map expand = plain) :
    (sectionLines heading body).map expand = sectionLines heading plain := by
  subst hbody
  unfold sectionLines
  rw [List.isEmpty_map]
  split
  · rfl
  · rw [List.map_append, hheading]

/-- The line of the last result. -/
theorem map_expand_result {rows : List Row} (h : ∀ row ∈ rows, row.Expandable)
    (item : Text → Text)
    (hitem : ∀ u v, ShowsAnywhere u v → expand (item u) = item v) :
    ((result? true rows).toList.map item).map expand = (result? false rows).toList.map item := by
  have hlast : ∀ b : Bool, (result? b rows).toList.map item =
      ((entries b .result rows).map fun entry => item entry.2).getLast?.toList := by
    intro b
    rw [result?, List.getLast?_map]
    cases (entries b .result rows).getLast? <;> rfl
  have hentries := map_expand_map (forall₂_entries .result h) (fun entry => item entry.2)
    fun u v hpair => hitem _ _ hpair.2
  rw [hlast, hlast, ← hentries, List.getLast?_map (f := expand)]
  cases ((entries true .result rows).map fun entry => item entry.2).getLast? <;> rfl

/-- A heading or a label made of a tag and the value after it. -/
theorem shows_labelled {mark : Text} (hmark : Harmless mark) {u v : Text × Text}
    (h : LabelShows u v) : Shows (labelled u.1 mark u.2) (labelled v.1 mark v.2) := by
  obtain ⟨heq, hharmless, hvalue⟩ := h
  have hshown := (hvalue.shows.after hmark).after (harmless_capitalize hharmless)
  rw [labelled, labelled, ← heq, List.append_assoc, List.append_assoc]
  exact hshown

/-- Glue, a name, glue and a description. -/
theorem shows_item {start mark : Text} (hstart : Harmless start) (hmark : Harmless mark)
    {u v : Text × Text} (h : PairShows u v) :
    Shows (start ++ u.1 ++ mark ++ u.2) (start ++ v.1 ++ mark ++ v.2) := by
  have hshown := (h.1 _ _ (h.2.shows.after hmark)).after hstart
  simpa only [List.append_assoc] using hshown

section Dialects

variable {rows : List Row}

/-- A block in the style of rustdoc is expanded to its plain lines. -/
theorem map_expand_rustdocLines (h : ∀ row ∈ rows, row.Expandable) :
    (rustdocLines true rows).map expand = rustdocLines false rows := by
  have hslashes : Harmless slashes := by decide
  have hheading : ∀ title : Text, Harmless title →
      (markdownHeading title).map expand = markdownHeading title := by
    intro title htitle
    have hline := expand_line hslashes
      ((showsAnywhere_of_harmless htitle).shows.after (u := "# ".toList) (by decide))
    simp only [markdownHeading, List.map_cons, List.map_nil, expand_harmless hslashes, hline]
  have hparameters := map_expand_map (forall₂_entries .parameters h)
    (fun entry => line slashes ("* \x60".toList ++ entry.1 ++ "\x60 - ".toList ++ entry.2))
    fun u v hpair => expand_line hslashes (shows_item (by decide) (by decide) hpair)
  have hexceptions := map_expand_map (forall₂_entries .exceptions h)
    (fun entry => line slashes entry.2)
    fun u v hpair => expand_line hslashes hpair.2.shows
  have hresult := map_expand_result h (line slashes)
    fun u v hshown => expand_line hslashes hshown.shows
  have hothers := map_expand_flatMap (forall₂_others h)
    (fun entry => markdownHeading (capitalize entry.1) ++ [line slashes entry.2])
    fun u v hlabel => by
      obtain ⟨heq, hharmless, hvalue⟩ := hlabel
      rw [List.map_append, hheading _ (harmless_capitalize hharmless), List.map_singleton,
        expand_line hslashes hvalue.shows, heq]
  simp only [rustdocLines, List.map_append]
  rw [map_expand_textLines hslashes h, hothers,
    map_expand_sectionLines (hheading _ (by decide)) hparameters,
    map_expand_sectionLines (hheading _ (by decide)) hexceptions,
    map_expand_sectionLines (hheading _ (by decide)) hresult]

/-- The parameters of a Swift comment are expanded to the plain ones, one or several. -/
theorem map_expand_parameterCallouts {us vs : List (Text × Text)}
    (h : List.Forall₂ PairShows us vs) :
    (parameterCallouts us).map expand = parameterCallouts vs := by
  have hslashes : Harmless slashes := by decide
  have hitem : ∀ start : Text, Harmless start → ∀ u v, PairShows u v →
      expand (line slashes (start ++ u.1 ++ ": ".toList ++ u.2)) =
        line slashes (start ++ v.1 ++ ": ".toList ++ v.2) := fun start hstart u v hpair =>
    expand_line hslashes (shows_item hstart (by decide) hpair)
  cases h with
  | nil => rfl
  | cons hfirst hrest =>
    cases hrest with
    | nil => exact congrArg (· :: []) (hitem "- Parameter ".toList (by decide) _ _ hfirst)
    | cons hsecond hmore =>
      have hmany := map_expand_map (.cons hfirst (.cons hsecond hmore)) _
        (hitem "  - ".toList (by decide))
      have hheading : expand (line slashes "- Parameters:") = line slashes "- Parameters:" :=
        expand_line_harmless hslashes (by decide)
      simp only [parameterCallouts, List.map_cons, hheading] at hmany ⊢
      rw [hmany]

/-- A block in Swift markup is expanded to its plain lines. -/
theorem map_expand_swiftLines (h : ∀ row ∈ rows, row.Expandable) :
    (swiftLines true rows).map expand = swiftLines false rows := by
  have hslashes : Harmless slashes := by decide
  have hothers := map_expand_map (forall₂_others h)
    (fun entry => line slashes ("- ".toList ++ labelled entry.1 ": " entry.2))
    fun u v hlabel => expand_line hslashes ((shows_labelled (by decide) hlabel).after (by decide))
  have hexceptions := map_expand_map (forall₂_entries .exceptions h)
    (fun entry => line slashes ("- Throws: ".toList ++ entry.2))
    fun u v hpair => expand_line hslashes (hpair.2.shows.after (by decide))
  have hresult := map_expand_result h
    (fun description => line slashes ("- Returns: ".toList ++ description))
    fun u v hshown => expand_line hslashes (hshown.shows.after (by decide))
  have hcallouts : (callouts true rows).map expand = callouts false rows := by
    simp only [callouts, List.map_append]
    rw [hothers, hexceptions, hresult,
      map_expand_parameterCallouts (forall₂_entries .parameters h)]
  rw [swiftLines, List.map_append, map_expand_textLines hslashes h,
    map_expand_sectionLines (by simp [expand_harmless hslashes]) hcallouts]
  rfl

/-- A block in RDoc is expanded to its plain lines. -/
theorem map_expand_rdocLines (h : ∀ row ∈ rows, row.Expandable) :
    (rdocLines true rows).map expand = rdocLines false rows := by
  have hsign : Harmless numberSign := by decide
  have hheading : ∀ title : Text, Harmless title →
      (rdocHeading title).map expand = rdocHeading title := by
    intro title htitle
    have hcolon : Harmless [':'] := by decide
    have hequals : Harmless "== ".toList := by decide
    have hline := expand_line hsign ((showsAnywhere_of_harmless htitle _ _
      (showsAnywhere_of_harmless hcolon).shows).after hequals)
    simp only [rdocHeading, List.map_cons, List.map_nil, expand_harmless hsign,
      List.append_assoc, hline]
  have hitem : ∀ u v, PairShows u v →
      expand (line numberSign ('+' :: u.1 ++ "+:: ".toList ++ u.2)) =
        line numberSign ('+' :: v.1 ++ "+:: ".toList ++ v.2) := by
    intro u v hpair
    have hplus : Harmless ['+'] := by decide
    exact expand_line hsign (shows_item hplus (by decide) hpair)
  have hparameters := map_expand_map (forall₂_entries .parameters h) _ hitem
  have hexceptions := map_expand_map (forall₂_entries .exceptions h) _ hitem
  have hresult := map_expand_result h (line numberSign)
    fun u v hshown => expand_line hsign hshown.shows
  have hothers := map_expand_map (forall₂_others h)
    (fun entry => line numberSign (labelled entry.1 ":: " entry.2))
    fun u v hlabel => expand_line hsign (shows_labelled (by decide) hlabel)
  have hopener : expand "##".toList = "##".toList := expand_harmless (by decide)
  simp only [rdocLines, List.map_append, List.map_cons]
  rw [hopener, map_expand_textLines hsign h, hothers,
    map_expand_sectionLines (hheading _ (by decide)) hparameters,
    map_expand_sectionLines (hheading _ (by decide)) hexceptions,
    map_expand_sectionLines (hheading _ (by decide)) hresult]

end Dialects

end Prose

/-- **A snippet shows the plain layout.**  The lines of a block in snippet form, with every tab stop
replaced by its default and the escapes undone, are the lines of the block as plain text. -/
theorem map_expand_format (language : Language) (config : Config) (align : Nat)
    (emptyLines : EmptyLines) {b : Block} (h : ∀ row ∈ b.rows, row.Expandable) :
    (b.format (Profile.of language config) { asSnippet := true, align, emptyLines }).map
        Snippet.expand =
      b.format (Profile.of language config) { asSnippet := false, align, emptyLines } := by
  show (b.layout _ _).map expand = b.layout _ _
  unfold Block.layout
  cases hdialect : (Profile.of language config).dialect with
  | table d =>
    have hd : (Profile.of language config).delimiters? = some d := by
      rw [Profile.delimiters?, hdialect]
    have hframe : Harmless d.opener ∧ Harmless d.marker ∧ ∀ closer ∈ d.closer, Harmless closer := by
      rcases Profile.delimiters_of hd with rfl | rfl | rfl <;> decide
    exact Table.map_expand_lines (Profile.fixedGlue_of language config) hframe.1 hframe.2.1
      hframe.2.2 align emptyLines h
  | rustdoc => exact Prose.map_expand_rustdocLines h
  | swiftMarkup => exact Prose.map_expand_swiftLines h
  | rdoc => exact Prose.map_expand_rdocLines h

/-- A block whose tags start with a backslash and whose text is full of characters with a meaning,
one reserved token among them. -/
def pricedBlock : Block where
  rows := [
    .text ⟨[.text "Since $DATE: ".toList, .stop 0 "the \\price \x7bin $\x7d".toList]⟩,
    .tag "\\see" (some (.text "$HOME\\prices")),
    .entry "\\param" none (some (.text "p")) (some ⟨[.stop 0 "a price"]⟩),
    .entry "\\param" none (some (.text "amount")) none]

theorem map_expand_format_pricedBlock :
    (∀ row ∈ pricedBlock.rows, row.Expandable) ∧
      pricedBlock.format (Profile.of .cpp {}) { asSnippet := true, align := 2 } =
        ["/**", " * Since $DATE: $\x7b0:the \\\\price \x7bin \\$\\\x7d\x7d", " * \\see \\$HOME\\\\prices",
          " * \\param p      $\x7b0:a price\x7d", " * \\param amount", " */"].map String.toList ∧
      (pricedBlock.format (Profile.of .cpp {}) { asSnippet := true, align := 2 }).map
          Snippet.expand =
        ["/**", " * Since $DATE: the \\price \x7bin $\x7d", " * \\see $HOME\\prices",
          " * \\param p      a price", " * \\param amount", " */"].map String.toList := by
  have hrows : ∀ row ∈ pricedBlock.rows, row.Expandable := by decide
  refine ⟨hrows, by decide, ?_⟩
  rw [map_expand_format .cpp {} 2 .none hrows]
  decide

end DocComment
