import DocComment.Text.Basic

/-!
# Command lines

What the arguments of a run ask for.  Arguments are read from left to right.  An option may be given
as `--name value`, `--name=value`, `-n value`, `-nvalue` or `-n=value`, flags of one letter may be
written together, and `--` ends the options.  The first fault, request for help or request for the
version decides; whether required options are there is checked last.
-/

namespace DocComment.CommandLine

/-- The options of the program. -/
inductive Key where
  | config
  | lang
  | plain
  | json
  | width
  | inPlace
  | fileName
  | workspace
  | help
  | version
  deriving DecidableEq, Repr

/-- The long and short names of an option and whether it takes a value. -/
structure Spec where
  key : Key
  long : Text
  short : Option Char := none
  takesValue : Bool := true

/-- What a run is for. -/
inductive Task where
  | generate (lang : Text) (file : Option Text) (plain json : Bool) (width : Option Nat)
  | format (lang : Text) (file : Option Text) (width : Option Nat) (inPlace : Bool)
  | tags (lang typed : Text) (json : Bool)
  | header (lang : Text) (fileName workspace : Option Text) (plain : Bool)
  deriving DecidableEq

/-- What a command line asks for. -/
inductive Invocation where
  | run (config : Option Text) (task : Task)
  | version
  | help
  /-- The command line is at fault. -/
  | usage
  deriving DecidableEq

/-- The file that a task works on. -/
def Task.file? : Task → Option Text
  | generate _ file _ _ _ => file
  | format _ file _ _ => file
  | tags .. | header .. => none

/-- Whether a task reads the standard input. -/
def Task.readsInput : Task → Bool
  | generate _ file _ _ _ => file.isNone
  | format _ file _ _ => file.isNone
  | tags .. | header .. => false

/-- The options and the other arguments read so far. -/
structure Given where
  /-- Each option with its value, which is empty for a flag. -/
  options : List (Key × Text) := []
  operands : List Text := []

namespace Given

/-- The value of an option. -/
def get? (g : Given) (key : Key) : Option Text := g.options.lookup key

/-- Whether an option was given. -/
def has (g : Given) (key : Key) : Bool := (g.get? key).isSome

end Given

/-- The configuration file, which may stand before or after the task. -/
def configSpec : Spec := { key := .config, long := "config", short := some 'c' }

/-- The request for help. -/
def helpSpec : Spec := { key := .help, long := "help", short := some 'h', takesValue := false }

/-- The options before the task. -/
def topSpecs : List Spec :=
  [configSpec, helpSpec,
    { key := .version, long := "version", short := some 'V', takesValue := false }]

/-- The options of every task. -/
def commonSpecs : List Spec :=
  [configSpec, helpSpec, { key := .lang, long := "lang", short := some 'l' }]

/-- The width to re-flow to. -/
def widthSpec : Spec := { key := .width, long := "width", short := some 'w' }

/-- A flag with a long name only. -/
def flag (key : Key) (long : Text) : Spec := { key, long, takesValue := false }

/-- The names of the tasks. -/
inductive TaskName where
  | generate
  | format
  | tags
  | header
  deriving DecidableEq, Repr

namespace TaskName

/-- The task with a given name. -/
def ofText? (t : Text) : Option TaskName :=
  [("generate", generate), ("format", format), ("tags", tags), ("header", header)].findSome?
    fun (name, task) => if name.toList = t then some task else none

/-- The options of a task. -/
def specs : TaskName → List Spec
  | generate => commonSpecs ++ [flag .plain "plain", flag .json "json", widthSpec]
  | format =>
    commonSpecs ++
      [widthSpec, { key := .inPlace, long := "in-place", short := some 'i', takesValue := false }]
  | tags => commonSpecs ++ [flag .json "json"]
  | header =>
    commonSpecs ++
      [{ key := .fileName, long := "file-name" }, { key := .workspace, long := "workspace" },
        flag .plain "plain"]

/-- How many operands a task takes at most. -/
def maxOperands : TaskName → Nat
  | header => 0
  | _ => 1

/-- Whether the operand of a task is the path of a file. -/
def operandIsPath : TaskName → Bool
  | generate | format => true
  | tags | header => false

end TaskName

/-- A number of at most 64 bits in decimal digits, possibly after a plus sign. -/
def width? (t : Text) : Option Nat :=
  let digits := (Text.after? "+" t).getD t
  let n := digits.foldl (fun acc c => acc * 10 + (c.toNat - '0'.toNat)) 0
  if !digits.isEmpty && digits.all Char.isDigit && n < 0x10000000000000000 then some n else none

/-- Whether an option accepts a value: a width is a number, and a path is not empty. -/
def accepts : Key → Text → Bool
  | .width, value => (width? value).isSome
  | .config, value => !value.isEmpty
  | _, _ => true

/-- Whether an argument has the form of an option. -/
def looksLikeOption : Text → Bool
  | '-' :: _ :: _ => true
  | _ => false

/-- Adds an option.  None may be given twice, and a request for help or the version ends the
reading. -/
def Given.add (g : Given) (key : Key) (value : Text) : Except Invocation Given :=
  if key = .help then .error .help
  else if key = .version then .error .version
  else if g.has key || !accepts key value then .error .usage
  else .ok { g with options := (key, value) :: g.options }

/-- Reads a value that was not written together with its option. -/
def nextValue (g : Given) (key : Key) : List Text → Except Invocation (Given × List Text)
  | [] => .error .usage
  | value :: rest =>
    if looksLikeOption value then .error .usage else (g.add key value).map (·, rest)

/-- Reads an option by its long name, with the value after an equals sign if there is one. -/
def readLong (specs : List Spec) (g : Given) (body : Text) (rest : List Text) :
    Except Invocation (Given × List Text) :=
  let (name, value) := match Text.splitFirst? '=' body with
    | some (name, value) => (name, some value)
    | none => (body, none)
  match specs.find? fun s => s.long == name, value with
  | none, _ => .error .usage
  | some s, some value =>
    if s.takesValue then (g.add s.key value).map (·, rest) else .error .usage
  | some s, none =>
    if s.takesValue then nextValue g s.key rest else (g.add s.key []).map (·, rest)

/-- Reads a group of one-letter options.  One that takes a value takes the rest of the group, or
else the next argument. -/
def readShort (specs : List Spec) (g : Given) : Text → List Text →
    Except Invocation (Given × List Text)
  | [], rest => .ok (g, rest)
  | c :: group, rest =>
    match specs.find? fun s => s.short == some c with
    | none => .error .usage
    | some s =>
      if s.takesValue then
        if group.isEmpty then nextValue g s.key rest
        else (g.add s.key ((Text.after? "=" group).getD group)).map (·, rest)
      else (g.add s.key []).bind fun g => readShort specs g group rest

/-- Adds an operand. -/
def Given.addOperand (g : Given) (task : TaskName) (operand : Text) : Except Invocation Given :=
  if task.maxOperands ≤ g.operands.length || (task.operandIsPath && operand.isEmpty) then
    .error .usage
  else .ok { g with operands := g.operands ++ [operand] }

/-- Reads the arguments of a task. -/
def readTask (task : TaskName) : (fuel : Nat) → Given → List Text → Except Invocation Given
  | 0, g, _ => .ok g
  | _, g, [] => .ok g
  | fuel + 1, g, arg :: rest =>
    match arg with
    | ['-', '-'] => rest.foldlM (fun g operand => g.addOperand task operand) g
    | '-' :: '-' :: body =>
      (readLong task.specs g body rest).bind fun (g, rest) => readTask task fuel g rest
    | '-' :: c :: group =>
      (readShort task.specs g (c :: group) rest).bind fun (g, rest) => readTask task fuel g rest
    | operand => (g.addOperand task operand).bind fun g => readTask task fuel g rest

/-- The task that options and operands ask for.  The language is required, a report cannot be
re-flowed, and only a file can be changed in place. -/
def taskOf? (task : TaskName) (g : Given) : Option Task :=
  (g.get? .lang).bind fun lang =>
    let width := (g.get? .width).bind width?
    let operand := g.operands.head?
    match task with
    | .generate =>
      if g.has .json && width.isSome then none
      else some (.generate lang operand (g.has .plain) (g.has .json) width)
    | .format =>
      if g.has .inPlace && operand.isNone then none
      else some (.format lang operand width (g.has .inPlace))
    | .tags => some (.tags lang (operand.getD []) (g.has .json))
    | .header => some (.header lang (g.get? .fileName) (g.get? .workspace) (g.has .plain))

/-- What the arguments from the name of a task on ask for, given the options before it.  A
configuration file after the name of the task counts before one in front of it. -/
def invocationOf (top : Given) (name : Text) (rest : List Text) : Invocation :=
  match TaskName.ofText? name with
  | some task =>
    match readTask task rest.length {} rest with
    | .error stop => stop
    | .ok g =>
      match taskOf? task g with
      | none => .usage
      | some t => .run ((g.get? .config).orElse fun _ => top.get? .config) t
  | none =>
    if name = "help".toList then
      match rest with
      | [] => .help
      | [topic] =>
        if (TaskName.ofText? topic).isSome || topic = "help".toList then .help else .usage
      | _ => .usage
    else .usage

/-- Reads the arguments before the name of a task, and then those after it. -/
def readTop : (fuel : Nat) → Given → List Text → Invocation
  | 0, _, _ => .usage
  | _, _, [] => .usage
  | fuel + 1, g, arg :: rest =>
    let continue' : Except Invocation (Given × List Text) → Invocation
      | .error stop => stop
      | .ok (g, rest) => readTop fuel g rest
    match arg with
    | ['-', '-'] => .usage
    | '-' :: '-' :: body => continue' (readLong topSpecs g body rest)
    | '-' :: c :: group => continue' (readShort topSpecs g (c :: group) rest)
    | name => invocationOf g name rest

/-- What a command line asks for. -/
def Invocation.ofArgs (args : List Text) : Invocation := readTop args.length {} args

end DocComment.CommandLine
