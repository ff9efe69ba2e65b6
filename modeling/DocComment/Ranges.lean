import DocComment.Profile

/-!
# Finding comments in a source file

The line ranges of the documentation comments of a tag-table dialect.  With a closer, a comment runs
from an opener to the first line that ends in the closer, and an opener met on the way starts afresh.
Without one, it is an opener line and the marker lines after it, of which there is at least one.
-/

namespace DocComment

/-- The lines from `start` on and before `stop`. -/
structure LineRange where
  start : Nat
  stop : Nat
  deriving DecidableEq, Repr

namespace Ranges

/-- The ranges among lines from number `i` on, when `pending` is the latest opener not yet
closed. -/
def closed (opener closer : Text) (i : Nat) (pending : Option Nat) : List Text → List LineRange
  | [] => []
  | line :: rest =>
    match if opener.isPrefixOf line then some i else pending with
    | none => closed opener closer (i + 1) none rest
    | some start =>
      if closer.isSuffixOf line && !(i == start && line == opener) then
        ⟨start, i + 1⟩ :: closed opener closer (i + 1) none rest
      else closed opener closer (i + 1) (some start) rest

/-- The range from an opener up to line `i`, if there is a line between them. -/
def ended (pending : Option Nat) (i : Nat) : List LineRange :=
  match pending with
  | some start => if start + 1 < i then [⟨start, i⟩] else []
  | none => []

/-- The ranges among lines from number `i` on, when `pending` is the opener of the comment that the
lines before belong to. -/
def marked (opener marker : Text) (i : Nat) (pending : Option Nat) : List Text → List LineRange
  | [] => ended pending i
  | line :: rest =>
    if line = opener then ended pending i ++ marked opener marker (i + 1) (some i) rest
    else if marker.isPrefixOf line then marked opener marker (i + 1) pending rest
    else ended pending i ++ marked opener marker (i + 1) none rest

/-- The ranges of the comments in a text; a prose dialect has none. -/
def ofText (p : Profile) (text : Text) : List LineRange :=
  match p.delimiters? with
  | none => []
  | some d =>
    let lines := (Text.lines text).map Text.trim
    match d.closer with
    | some closer => closed d.opener (Text.trim closer) 0 none lines
    | none => marked d.opener (Text.trim d.marker) 0 none lines

end Ranges

end DocComment
