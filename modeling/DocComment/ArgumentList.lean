import DocComment.Text.Basic

/-!
# Splitting a parameter list

A raw parameter list is cut at its top-level commas.  A quote, an angle bracket or a parenthesis
opens a *run* that lasts to the matching closer, whatever stands between; square brackets and braces
are counted, each kind on its own, and the count may go below zero in unbalanced text.  A comma
separates exactly when no run is open and both counts are zero.

Inside a run a backslash is dropped and the character after it is kept as it is.
-/

namespace DocComment.ArgumentList

/-- What the characters read so far leave open. -/
structure Nesting where
  /-- The closer of the open run. -/
  closer : Option Char := none
  /-- Whether the character before was a backslash that escapes this one. -/
  escaped : Bool := false
  /-- Open minus closed square brackets. -/
  squares : Int := 0
  /-- Open minus closed braces. -/
  braces : Int := 0
  deriving DecidableEq, Repr

/-- What becomes of a character. -/
inductive Fate where
  /-- It belongs to the current argument. -/
  | keep
  /-- It is an escaping backslash. -/
  | drop
  /-- It separates two arguments. -/
  | cut
  deriving DecidableEq, Repr

/-- The closer of the run that a character opens. -/
def runCloser? : Char → Option Char
  | '"' => some '"'
  | '\'' => some '\''
  | '<' => some '>'
  | '(' => some ')'
  | _ => none

namespace Nesting

/-- Whether a comma would separate arguments here. -/
def isNeutral (m : Nesting) : Bool :=
  m.closer.isNone && !m.escaped && m.squares == 0 && m.braces == 0

/-- What becomes of the next character, and what is open after it. -/
def next (m : Nesting) (c : Char) : Fate × Nesting :=
  if m.escaped then (.keep, { m with escaped := false })
  else
    match m.closer with
    | some closer =>
      if c = '\\' then (.drop, { m with escaped := true })
      else (.keep, if c = closer then { m with closer := none } else m)
    | none =>
      match runCloser? c with
      | some closer => (.keep, { m with closer := some closer })
      | none =>
        if c = '[' then (.keep, { m with squares := m.squares + 1 })
        else if c = ']' then (.keep, { m with squares := m.squares - 1 })
        else if c = '{' then (.keep, { m with braces := m.braces + 1 })
        else if c = '}' then (.keep, { m with braces := m.braces - 1 })
        else if c = ',' && m.squares == 0 && m.braces == 0 then (.cut, m)
        else (.keep, m)

/-- What is open after a whole text. -/
def after (m : Nesting) (t : Text) : Nesting := t.foldl (fun m c => (m.next c).2) m

/-- What a text leaves open, the text after it goes on from. -/
@[simp] theorem after_append (m : Nesting) (s t : Text) :
    m.after (s ++ t) = (m.after s).after t := by
  simp [after]

end Nesting

/-- The text up to the first separating comma, and the pieces after it, read from a given state. -/
def pieces (m : Nesting) : Text → Text × List Text
  | [] => ([], [])
  | c :: rest =>
    let (fate, m') := m.next c
    let (first, more) := pieces m' rest
    match fate with
    | .keep => (c :: first, more)
    | .drop => (first, more)
    | .cut => ([], first :: more)

/-- The arguments of a raw parameter list, trimmed, without empty ones. -/
def split (raw : Text) : List Text :=
  let (first, more) := pieces {} raw
  (first :: more).map Text.trim |>.filter fun piece => !piece.isEmpty

end DocComment.ArgumentList
