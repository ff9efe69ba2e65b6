import DocComment.Text.Basic

/-!
# Declarations

What a line of source declares, as far as documenting it needs to know, and the arguments of a
callable.
-/

namespace DocComment

/-- The variants of a callable. -/
inductive CallableKind where
  | plain
  | constructor
  | getter
  | generator
  /-- A method in the body of a class or an object. -/
  | member
  deriving DecidableEq, Repr

/-- A function, method or constructor. -/
structure Callable where
  name : Text
  kind : CallableKind := .plain
  /-- The text between the parentheses. -/
  rawArgs : Option Text := none
  returnType : Option Text := none
  throws : Option (List Text) := none
  deriving DecidableEq

/-- A classified declaration. -/
inductive Declaration where
  /-- A class, interface, structure or the like with the types it extends. -/
  | classLike (name : Text) (superTypes : List Text)
  | callable (c : Callable)
  /-- A variable, constant or property. -/
  | binding (name : Text) (declaredType initializer : Option Text)
  deriving DecidableEq

/-- The declared name. -/
def Declaration.name : Declaration → Text
  | .classLike name _ => name
  | .callable c => c.name
  | .binding name _ _ => name

/-- One parameter.  The name is empty for a destructured parameter. -/
structure Argument where
  name : Text
  type : Option Text := none
  value : Option Text := none
  deriving DecidableEq

/-- Words that look like the name of a call and open a control-flow statement. -/
def statementWords : List Text :=
  ["for", "foreach", "if", "switch", "while", "catch", "elseif"].map String.toList

/-- Whether a name is that of a control-flow statement. -/
def isStatement (name : Text) : Bool := statementWords.contains name

end DocComment
