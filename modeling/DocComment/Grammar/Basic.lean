import DocComment.ArgumentList
import DocComment.Declaration
import DocComment.Definition

/-!
# Grammars

A grammar recognises the declarations of one language.  Recognition is heuristic: a definition is
tried as a class-like declaration, then as a callable, then as a binding, and the first success
counts.
-/

namespace DocComment

open Pattern in
/-- A comment inside a parameter list, up to the nearest closer. -/
def inlineComment : Pattern := lit "/*" ++ lazyStar anyChar ++ lit "*/"

/-- The raw arguments of a parameter list, without comments. -/
def rawArguments (raw : Text) : List Text :=
  ArgumentList.split (inlineComment.replaceAll (fun _ => []) raw)

/-- The recognisers of one language. -/
structure Grammar where
  /-- Recognises a class-like declaration. -/
  classLike : Text → Option Declaration
  /-- Recognises a callable. -/
  callable : Text → Option Declaration
  /-- Recognises a binding. -/
  binding : Text → Option Declaration
  /-- Takes one raw argument apart.  What it cannot take apart becomes the name. -/
  argument : Text → Argument
  /-- Takes a whole parameter list apart. -/
  arguments : Text → List Argument := fun raw => (rawArguments raw).map argument
  /-- Joins the lines after the cursor into one definition. -/
  definition : List Text → Text := Definition.ofLines

/-- The declaration in a definition, unless its name is that of a control-flow statement. -/
def Grammar.declaration (g : Grammar) (definition : Text) : Option Declaration :=
  let found := ((g.classLike definition).orElse fun _ => g.callable definition).orElse
    fun _ => g.binding definition
  found.filter fun d => !isStatement d.name

/-- The single type that a class extends, as a list. -/
def Match.parent (m : Match) : List Text := (m.get? .parents).toList

/-- The trimmed, non-empty pieces of a text between separators. -/
def Text.listOn (sep : Char) (t : Text) : List Text :=
  (Text.splitOn sep t).map Text.trim |>.filter fun piece => !piece.isEmpty

/-- A base type directly followed by its pointer and reference marks. -/
def pointerType (base marks : Text) : Text := Text.trim base ++ Text.compact marks

end DocComment
