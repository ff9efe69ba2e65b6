import DocComment.Text.Letter
import DocComment.Text.Basic

/-!
# Search patterns

A pattern describes a piece of text and names some of its parts.  Alternatives are tried in order
and repetitions are eager or reluctant, so of all the ways a pattern can match at one place one is
*preferred*: the first one in that order.  `Pattern.run` finds the preferred way whose continuation
succeeds, by backtracking; a search takes the leftmost place at which there is one.

Matching is a recursion on the pattern.  A repetition is bounded by the number of characters left,
which no repetition of a body that consumes something can exceed.
-/

namespace DocComment

/-- The parts of a declaration, an argument or a configured line that a pattern can name. -/
inductive Part where
  | name
  /-- The left-hand side a function is assigned to. -/
  | target
  | parameters
  /-- The single parameter of an arrow function written without parentheses. -/
  | parameter
  | parents
  | type
  | pointer
  | result
  | value
  | throws
  | promise
  | generator
  | accessor
  | object
  | array
  | nullable
  | splat
  | sigil
  | bare
  | tag
  | remainder
  /-- A character that a replacement puts back. -/
  | kept
  deriving DecidableEq, Repr

/-- A search pattern. -/
inductive Pattern where
  /-- Matches the empty text. -/
  | empty
  /-- Matches exactly this text. -/
  | lit (t : Text)
  /-- Matches one character of a class. -/
  | one (p : Char → Bool)
  /-- Matches only at the beginning of the text. -/
  | start
  /-- Matches only at the end of the text. -/
  | finish
  /-- Matches between a word character and anything else. -/
  | boundary
  /-- One pattern, then another. -/
  | seq (p q : Pattern)
  /-- The first pattern or else the second. -/
  | alt (p q : Pattern)
  /-- As many repetitions as possible. -/
  | star (p : Pattern)
  /-- As few repetitions as possible. -/
  | lazyStar (p : Pattern)
  /-- Names the text that a pattern matches. -/
  | group (part : Part) (p : Pattern)

/-- A place in a text: the character before it, the text after it, and the parts named so far, the
latest first. -/
structure Cursor where
  last : Option Char
  rest : Text
  parts : List (Part × Text) := []

namespace Cursor

/-- Steps over one character of a class. -/
def step? (p : Char → Bool) (s : Cursor) : Option Cursor :=
  match s.rest with
  | [] => none
  | c :: rest => if p c then some { s with last := some c, rest := rest } else none

/-- Steps over a given text. -/
def skip? : Text → Cursor → Option Cursor
  | [], s => some s
  | c :: t, s => (s.step? (· == c)).bind (skip? t)

/-- Whether exactly one side of the place is a word character. -/
def atBoundary (s : Cursor) : Bool := s.last.any isWordChar != s.rest.head?.any isWordChar

/-- The text passed on the way from `s` to a later place. -/
def passed (s later : Cursor) : Text := s.rest.take (s.rest.length - later.rest.length)

/-- Names a text. -/
def record (s : Cursor) (part : Part) (t : Text) : Cursor :=
  { s with parts := (part, t) :: s.parts }

end Cursor

namespace Pattern

variable {α : Type}

/-- Repeats `step` at most `n` times before going on with `k`, preferring more repetitions. -/
def eager (step : (Cursor → Option α) → Cursor → Option α) (k : Cursor → Option α) :
    Nat → Cursor → Option α
  | 0, s => k s
  | n + 1, s => (step (eager step k n) s).orElse fun _ => k s

/-- Repeats `step` at most `n` times before going on with `k`, preferring fewer repetitions. -/
def reluctant (step : (Cursor → Option α) → Cursor → Option α) (k : Cursor → Option α) :
    Nat → Cursor → Option α
  | 0, s => k s
  | n + 1, s => (k s).orElse fun _ => step (reluctant step k n) s

/-- Matches the pattern at a place and hands each way to match, in order of preference, to `k`
until `k` accepts one. -/
def run : Pattern → (Cursor → Option α) → Cursor → Option α
  | empty, k, s => k s
  | lit t, k, s => (s.skip? t).bind k
  | one p, k, s => (s.step? p).bind k
  | start, k, s => if s.last.isNone then k s else none
  | finish, k, s => if s.rest.isEmpty then k s else none
  | boundary, k, s => if s.atBoundary then k s else none
  | seq p q, k, s => p.run (q.run k) s
  | alt p q, k, s => (p.run k s).orElse fun _ => q.run k s
  | star p, k, s => eager p.run k s.rest.length s
  | lazyStar p, k, s => reluctant p.run k s.rest.length s
  | group part p, k, s => p.run (fun later => k (later.record part (s.passed later))) s

/-- The place after the preferred match at the beginning of `rest`. -/
def at? (p : Pattern) (last : Option Char) (rest : Text) : Option Cursor :=
  p.run some { last := last, rest := rest }

end Pattern

/-- A match found in a text: what stands before it, what it covers, what stands after it, and the
parts it named. -/
structure Match where
  before : Text
  covered : Text
  after : Text
  parts : List (Part × Text)

namespace Match

/-- The text of a part, if the match named it; the latest naming counts. -/
def get? (m : Match) (part : Part) : Option Text := m.parts.lookup part

/-- The text of a part, empty if the match did not name it. -/
def get (m : Match) (part : Part) : Text := (m.get? part).getD []

/-- Whether the match named a part. -/
def has (m : Match) (part : Part) : Bool := (m.get? part).isSome

/-- The trimmed text of a part, if it was named and is not blank. -/
def trimmed? (m : Match) (part : Part) : Option Text :=
  (m.get? part).bind fun t => (Text.trim t).nonempty?

end Match

namespace Pattern

/-- The leftmost match in a text whose preceding character is `last`. -/
def findFrom (p : Pattern) (last : Option Char) (text : Text) : Option Match :=
  match p.at? last text with
  | some s =>
    some { before := [], covered := Cursor.passed ⟨last, text, []⟩ s, after := s.rest, parts := s.parts }
  | none =>
    match text with
    | [] => none
    | c :: rest => (p.findFrom (some c) rest).map fun m => { m with before := c :: m.before }

/-- The leftmost match in a text. -/
def find (p : Pattern) (text : Text) : Option Match := p.findFrom none text

/-- Whether the pattern matches somewhere in a text. -/
def occursIn (p : Pattern) (text : Text) : Bool := (p.find text).isSome

/-- The pieces between at most `n` matches, each match paired with the piece before it, and the
piece after the last one.  A match of the empty text ends the search. -/
def cuts (p : Pattern) : Nat → Option Char → Text → List Match × Text
  | 0, _, text => ([], text)
  | n + 1, last, text =>
    match p.findFrom last text with
    | none => ([], text)
    | some m =>
      if m.covered.isEmpty then ([], text)
      else
        let (more, tail) := p.cuts n m.covered.getLast? m.after
        (m :: more, tail)

/-- Every match replaced by `f` of it. -/
def replaceAll (p : Pattern) (f : Match → Text) (text : Text) : Text :=
  let (matches_, tail) := p.cuts text.length none text
  matches_.flatMap (fun m => m.before ++ f m) ++ tail

/-- The first match replaced by a text. -/
def replaceFirst (p : Pattern) (replacement text : Text) : Text :=
  match p.find text with
  | none => text
  | some m => m.before ++ replacement ++ m.after

/-- The pieces between the matches; there is always at least one piece. -/
def split (p : Pattern) (text : Text) : List Text :=
  let (matches_, tail) := p.cuts text.length none text
  matches_.map Match.before ++ [tail]

end Pattern

end DocComment
