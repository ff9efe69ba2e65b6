import DocComment.Block
import DocComment.Grammar
import DocComment.Profile

/-!
# From a declaration to its documentation

The rows that document a declaration: a summary, then one row per super type or parameter, exception
and result.  Everything a person is expected to fill in is a tab stop; one counter goes through all the
rows and gives the stops their numbers as they are made.
-/

namespace DocComment.Synthesis

/-- Result types that stand for no result.  Without a type column they are not documented. -/
def voidTypes : List Text := ["void", "Void", "()", ""].map String.toList

/-- The rows of a class: one for each super type that the dialect documents. -/
def classRows (p : Profile) (superTypes : List Text) : List Row :=
  match p.tags.parents with
  | none => []
  | some tag =>
    let shown := if p.multipleSuperTypes then superTypes else superTypes.take 1
    shown.map fun type => .tag tag (some (.text type))

/-- The row of a binding, in dialects that have one. -/
def bindingRows (p : Profile) (name : Text) (declaredType initializer : Option Text) :
    Numbered (List Row) :=
  match p.tags.binding, p.hasTypeColumn with
  | some tag, true => do
    let type ← Field.stop (TypeGuess.resolve declaredType initializer name p.numbers)
    return [.entry tag (some type) none none]
  | _, _ => return []

/-- The row that says which class a member belongs to. -/
def memberRows (p : Profile) (kind : CallableKind) : Numbered (List Row) :=
  match kind, p.tags.member with
  | .member, some tag | .getter, some tag => do return [.tag tag (some (← Field.stop "parent"))]
  | _, _ => return []

/-- The name of a parameter, which is left to be filled in if the parameter has none. -/
def nameField (name : Text) : Numbered Field :=
  if name.isEmpty then Field.stop "name" else pure (.text name)

/-- The row of a parameter. -/
def argumentRow (p : Profile) (arg : Argument) : Numbered Row := do
  let type ← Field.stopIf p.hasTypeColumn
    (TypeGuess.resolve arg.type arg.value arg.name p.numbers)
  let name ← nameField arg.name
  let description ← Field.stop "description"
  return .entry p.tags.param type (some name) (some description)

/-- The row of an exception, whose name is its type where there is a type column. -/
def exceptionRow (p : Profile) (exception : Text) : Numbered Row := do
  let type ← Field.stopIf p.hasTypeColumn exception
  let name := if p.hasTypeColumn then none else some (.text exception)
  let description ← Field.stop "description"
  return .entry p.tags.throws type name (some description)

/-- The tag and the type of the row that closes a callable, unless it has none. -/
def resultType? (p : Profile) (c : Callable) : Option (Text × Text) :=
  let resolved := TypeGuess.resolve c.returnType none c.name p.numbers
  match c.kind with
  | .constructor => none
  | .getter => some (p.tags.binding.getD p.tags.result, resolved)
  | .generator => some (p.tags.yields.getD p.tags.result, resolved)
  | .plain | .member =>
    (c.returnType.orElse fun _ => TypeGuess.ofName c.name).map (p.tags.result, ·)

/-- The row for the result.  The type row of a getter has no description. -/
def resultRows (p : Profile) (c : Callable) : Numbered (List Row) :=
  match resultType? p c with
  | none => return []
  | some (tag, type) =>
    if !p.hasTypeColumn && voidTypes.contains (Text.trim type) then return []
    else do
      let type ← Field.stopIf p.hasTypeColumn type
      let description ← Field.stopIf (c.kind != .getter || p.tags.binding.isNone) "description"
      return [.entry tag type none description]

/-- The rows of a callable. -/
def callableRows (p : Profile) (g : Grammar) (c : Callable) : Numbered (List Row) := do
  let member ← memberRows p c.kind
  let arguments ← ((c.rawArgs.map g.arguments).getD []).mapM (argumentRow p)
  let exceptions ← (c.throws.getD []).mapM (exceptionRow p)
  let result ← resultRows p c
  return member ++ arguments ++ exceptions ++ result

/-- The rows after the summary. -/
def detailRows (p : Profile) (g : Grammar) : Declaration → Numbered (List Row)
  | .classLike _ superTypes => return classRows p superTypes
  | .callable c => callableRows p g c
  | .binding name declaredType initializer => bindingRows p name declaredType initializer

/-- The rows of a declaration, the summary first. -/
def rows (p : Profile) (g : Grammar) (d : Declaration) : Numbered (List Row) := do
  let summary ← Field.stop p.tags.summary
  let details ← detailRows p g d
  return .text summary :: details

/-- The block that documents a declaration, with its tab stops numbered from zero; none for a
control-flow statement. -/
def block? (p : Profile) (g : Grammar) (d : Declaration) : Option Block :=
  if isStatement d.name then none else some ⟨(rows p g d 0).1⟩

end DocComment.Synthesis
