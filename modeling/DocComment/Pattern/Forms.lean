import DocComment.Pattern.Basic

/-!
# Common forms of patterns

The small vocabulary that the declaration patterns of every language are written in.  `p ++ q` is
one pattern after another and `p ||| q` the first or else the second.
-/

namespace DocComment.Pattern

instance : Append Pattern := ⟨seq⟩

instance : OrOp Pattern := ⟨alt⟩

/-- The pattern, or nothing. -/
def opt (p : Pattern) : Pattern := p ||| empty

/-- One or more repetitions, as many as possible. -/
def plus (p : Pattern) : Pattern := p ++ star p

/-- One or more repetitions, as few as possible. -/
def lazyPlus (p : Pattern) : Pattern := p ++ lazyStar p

/-- The first pattern of a list that fits; an empty list fits nowhere. -/
def anyOf : List Pattern → Pattern
  | [] => one fun _ => false
  | [p] => p
  | p :: more => p ||| anyOf more

/-- The first word of a list that fits. -/
def words (ws : List String) : Pattern := anyOf (ws.map fun w => lit w.toList)

/-- A character out of a given collection. -/
def oneOf (chars : String) : Pattern := one fun c => chars.toList.contains c

/-- A character that is not in a given collection. -/
def noneOf (chars : String) : Pattern := one fun c => !chars.toList.contains c

/-- Any character but a line feed. -/
def anyChar : Pattern := one (· != '\n')

/-- Any run of blanks, possibly empty. -/
def blanks : Pattern := star (one isBlank)

/-- A run of at least one blank. -/
def blanks1 : Pattern := plus (one isBlank)

/-- A word with blanks after it. -/
def keyword (w : String) : Pattern := lit w.toList ++ blanks1

/-- One of several words with blanks after it. -/
def keywordOf (ws : List String) : Pattern := words ws ++ blanks1

/-- Any number of the given words, each with blanks after it. -/
def modifiers (ws : List String) : Pattern := star (keywordOf ws)

/-- An identifier: a character of the first class and any number of the second. -/
def identifier (first more : Char → Bool) : Pattern := one first ++ star (one more)

/-- An ASCII letter or underscore. -/
def isNameStart (c : Char) : Bool := c.isAlpha || c == '_'

/-- An ASCII letter, digit or underscore. -/
def isNameChar (c : Char) : Bool := c.isAlphanum || c == '_'

/-- An ASCII letter, underscore or dollar sign. -/
def isDollarStart (c : Char) : Bool := c.isAlpha || c == '_' || c == '$'

/-- An ASCII letter, digit, underscore or dollar sign. -/
def isDollarChar (c : Char) : Bool := c.isAlphanum || c == '_' || c == '$'

/-- An identifier of letters, digits and underscores. -/
def plainName : Pattern := identifier isNameStart isNameChar

/-- An identifier that may also hold dollar signs. -/
def dollarName : Pattern := identifier isDollarStart isDollarChar

/-- A text enclosed by two characters, the second of which does not occur inside. -/
def enclosed (opener closer : Char) : Pattern :=
  one (· == opener) ++ star (one (· != closer)) ++ one (· == closer)

/-- A character other than a parenthesis. -/
def unparenthesized : Pattern := noneOf "()"

/-- A parameter list in parentheses, without its leading blanks.  Parentheses inside it are
followed two levels deep; a list that is nested deeper does not match. -/
def parameterList : Pattern :=
  lit "(" ++ blanks ++
    group .parameters
      (star (unparenthesized |||
        lit "(" ++ star (unparenthesized ||| lit "(" ++ star unparenthesized ++ lit ")") ++
          lit ")")) ++
    lit ")"

end DocComment.Pattern
