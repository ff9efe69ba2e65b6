import DocComment.Layout.Options

/-!
# Tag tables

Every structured row is laid out in slots for tag, type and name, followed by the description.  The
first `align` slots are padded to the widest one of the block, so that the columns after them line
up.  Empty separator lines are rows like any other: the policy puts them between the rows first, and
the rows are then written one by one.
-/

namespace DocComment.Table

/-- A slot of a row: what is written and how wide its plain text is. -/
structure Slot where
  text : Text := []
  width : Nat := 0
  deriving DecidableEq

/-- The slot of a tag. -/
def tagSlot (tag : Text) : Slot := ⟨tag, tag.length⟩

/-- The slot of a type. -/
def typeSlot (p : Profile) (asSnippet : Bool) : Option Field → Slot
  | none => {}
  | some type => ⟨p.formatType (type.render asSnippet), (p.formatType type.plain).length⟩

/-- The slot of a name. -/
def nameSlot (asSnippet : Bool) (name : Option Field) : Slot :=
  ⟨cell name asSnippet, (name.map Field.width).getD 0⟩

/-- The slots of a row.  A slot is none where the tag of the row has no such column. -/
def slots (p : Profile) (asSnippet : Bool) : Row → List (Option Slot)
  | .text _ | .blank => []
  | .tag tag _ => [some (tagSlot tag)]
  | .entry tag type name _ =>
    let columns := (p.columns? tag).getD { type := type.isSome, name := name.isSome }
    let typeSlots :=
      if p.hasTypeColumn then
        [if columns.type || type.isSome then some (typeSlot p asSnippet type) else none]
      else []
    some (tagSlot tag) :: typeSlots ++
      [if columns.name || name.isSome then some (nameSlot asSnippet name) else none]

/-- The larger width at each position of two lists, the longer one going on alone. -/
def maxWidths : List Nat → List Nat → List Nat
  | [], ws => ws
  | vs, [] => vs
  | v :: vs, w :: ws => max v w :: maxWidths vs ws

/-- The widest slot at each position over the structured rows. -/
def columnWidths (p : Profile) (rows : List Row) : List Nat :=
  (rows.filter Row.isEntry).foldl
    (fun widths row =>
      maxWidths widths ((slots p false row).map fun slot => (slot.map Slot.width).getD 0)) []

/-- The slots of a row one after the other, each after a space.  Slots before position `align` of a
structured row are padded; an empty slot that is not padded is left out. -/
def slotText (entry : Bool) (align : Nat) (widths : List Nat) :
    Nat → List (Option Slot) → Text
  | _, [] => []
  | i, none :: rest => slotText entry align widths (i + 1) rest
  | i, some slot :: rest =>
    let widest := (widths[i]?).getD 0
    let padded := entry && i < align && 0 < widest
    let shown :=
      if slot.text.isEmpty && !padded then []
      else ' ' :: slot.text ++ List.replicate (if padded then widest - slot.width else 0) ' '
    shown ++ slotText entry align widths (i + 1) rest

/-- A value after its separator, or nothing. -/
def valueText (separator value : Text) : Text :=
  if value.isEmpty then [] else separator ++ value

/-- What follows the marker on the line of a row. -/
def rowText (p : Profile) (options : LayoutOptions) (widths : List Nat) (row : Row) : Text :=
  let rowSlots := slots p options.asSnippet row
  match row with
  | .blank => []
  | .text field => ' ' :: field.render options.asSnippet
  | .tag _ value =>
    slotText false options.align widths 0 rowSlots ++
      valueText [' '] (cell value options.asSnippet)
  | .entry _ _ _ description =>
    let named := (rowSlots.getLast?.bind id).isSome
    slotText true options.align widths 0 rowSlots ++
      valueText (if named then p.separator else [' ']) (cell description options.asSnippet)

/-- The line of a row. -/
def rowLine (p : Profile) (options : LayoutOptions) (marker : Text) (widths : List Nat)
    (row : Row) : Text :=
  Text.trimEnd (marker ++ rowText p options widths row)

/-- Whether an empty line goes before the row at position `index`. -/
def separates (policy : EmptyLines) (index : Nat) (previous next : Row) : Bool :=
  !previous.isBlank && !next.isBlank &&
    match policy with
    | .none => false
    | .afterSummary => index == 1
    | .betweenGroups => index == 1 || previous.tag? != next.tag?

/-- The rows from position `index` on, with separators. -/
def separateFrom (policy : EmptyLines) (index : Nat) (previous : Row) : List Row → List Row
  | [] => []
  | row :: rest =>
    (if separates policy index previous row then [.blank, row] else [row]) ++
      separateFrom policy (index + 1) row rest

/-- The rows with the separators that a policy asks for. -/
def separate (policy : EmptyLines) : List Row → List Row
  | [] => []
  | row :: rest => row :: separateFrom policy 1 row rest

/-- The lines of a block between the given delimiters. -/
def lines (p : Profile) (d : Delimiters) (options : LayoutOptions) (b : Block) : List Text :=
  d.opener ::
    (separate options.emptyLines b.rows).map
      (rowLine p options d.marker (columnWidths p b.rows)) ++
    d.closer.toList

end DocComment.Table
