import DocComment.Text.Basic

/-!
# TOML values

A TOML document is a table.  Which tables may still be extended depends on how they came about: a
table that a header named is complete as far as dotted keys go, a table that was only implied by a
longer header may get its own header once, a table that dotted keys built may grow by further dotted
keys, and an inline table is closed.
-/

namespace DocComment.Toml

/-- How a table came about. -/
inductive Origin where
  /-- A header named it. -/
  | header
  /-- It lies on the way of a longer header. -/
  | implied
  /-- Dotted keys built it. -/
  | dotted
  /-- It was written between braces. -/
  | inline
  deriving DecidableEq, Repr

/-- A TOML value.  Fractions and moments in time are kept as they were written. -/
inductive Value where
  | string (t : Text)
  | integer (n : Int)
  | boolean (b : Bool)
  | fraction (written : Text)
  | moment (written : Text)
  | array (items : List Value)
  | table (origin : Origin) (entries : List (Text × Value))
  /-- Tables that share a header in double brackets. -/
  | tables (items : List (List (Text × Value)))

/-- The entries of a table, in the order of the document. -/
abbrev Entries := List (Text × Value)

/-- The entries with the value of a key replaced. -/
def Entries.set (key : Text) (value : Value) (entries : Entries) : Entries :=
  entries.map fun (k, v) => if k == key then (k, value) else (k, v)

/-- Changes the table at the end of a path by `f`, which is told how that table came about.  Tables
that are missing on the way are created as `created`.  Dotted keys do not enter a table that has a
header; no path enters a closed value; of several tables under one header the last is meant. -/
def descend (created : Origin) (f : Origin → Entries → Option Entries) :
    List Text → Origin → Entries → Option Entries
  | [], origin, entries => f origin entries
  | key :: path, _, entries =>
    match entries.lookup key with
    | none =>
      (descend created f path created []).map fun new => entries ++ [(key, .table created new)]
    | some (.table origin old) =>
      if origin = .inline || (created = .dotted && origin = .header) then none
      else
        (descend created f path origin old).map fun new => Entries.set key (.table origin new) entries
    | some (.tables items) =>
      match items.getLast? with
      | none => none
      | some last =>
        (descend created f path .header last).map fun new =>
          Entries.set key (.tables (items.dropLast ++ [new])) entries
    | some _ => none

/-- Adds a value under a key, which must be new.  A plain key goes into a table that dotted keys did
not build, and the last key of a dotted one into a table that they did. -/
def addKey (isDotted : Bool) (key : Text) (value : Value) (origin : Origin) (entries : Entries) :
    Option Entries :=
  if (origin == .dotted) == isDotted && (entries.lookup key).isNone then
    some (entries ++ [(key, value)])
  else none

/-- Adds a value under a dotted key to a table. -/
def insert (path : List Text) (key : Text) (value : Value) (origin : Origin) (entries : Entries) :
    Option Entries :=
  descend .dotted (addKey (!path.isEmpty) key value) path origin entries

/-- Opens the table of a header: a new one, or one that was only implied so far. -/
def openTable (key : Text) (_ : Origin) (entries : Entries) : Option Entries :=
  match entries.lookup key with
  | none => some (entries ++ [(key, .table .header [])])
  | some (.table .implied old) => some (Entries.set key (.table .header old) entries)
  | some _ => none

/-- Opens one more table of a header in double brackets. -/
def openTables (key : Text) (_ : Origin) (entries : Entries) : Option Entries :=
  match entries.lookup key with
  | none => some (entries ++ [(key, .tables [[]])])
  | some (.tables items) => some (Entries.set key (.tables (items ++ [[]])) entries)
  | some _ => none

end DocComment.Toml
