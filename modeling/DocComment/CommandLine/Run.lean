import DocComment.CommandLine.Invocation
import DocComment.ConfigFile
import DocComment.Header
import DocComment.Reformat
import DocComment.Report

/-!
# Runs of the program

A run is a function of the arguments, the standard input, the files of the working directory and the
current year.  Its outcome is an exit code, what is printed, and the files as they are afterwards.
-/

namespace DocComment.CommandLine

/-- What a run finds. -/
structure World where
  files : Files := []
  stdin : List UInt8 := []
  year : Int

/-- Why a run fails. -/
inductive Failure where
  /-- The configuration file given by the user cannot be loaded. -/
  | config (path : Text)
  /-- The configuration file of the working directory cannot be loaded. -/
  | defaultConfig
  | unreadableFile (path : Text)
  | unreadableInput
  | unknownLanguage (name : Text)
  | disabledLanguage (language : Language)
  deriving DecidableEq

/-- The configuration file that is used when the user gives none. -/
def defaultConfigPath : Text := "docblockr.toml"

/-- The message of a failure. -/
def Failure.message : Failure → Text
  | config path => "failed to load config ".toList ++ path
  | defaultConfig => "failed to load ".toList ++ defaultConfigPath
  | unreadableFile path => "failed to read ".toList ++ path
  | unreadableInput => "failed to read stdin"
  | unknownLanguage name => "unsupported language: ".toList ++ name
  | disabledLanguage language =>
    "language '".toList ++ language.id ++ "' is disabled in the configuration".toList

/-- How a run ends. -/
structure Outcome where
  code : Nat := 0
  stdout : Text := []
  failure : Option Failure := none
  files : Files

/-- The configuration of a run. -/
def loadConfig (world : World) (path : Option Text) : Except Failure Config :=
  match path with
  | some path => (Config.load world.files path).mapError fun _ => .config path
  | none =>
    if (world.files.find? defaultConfigPath).isSome then
      (Config.load world.files defaultConfigPath).mapError fun _ => .defaultConfig
    else .ok {}

/-- The text to work on: that of a file, or the standard input. -/
def readInput (world : World) : Option Text → Except Failure Text
  | some path =>
    match world.files.read? path with
    | some text => .ok text
    | none => .error (.unreadableFile path)
  | none =>
    match Text.ofOctets? world.stdin with
    | some text => .ok text
    | none => .error .unreadableInput

/-- The language a user means. -/
def knownLanguage (name : Text) : Except Failure Language :=
  match Language.ofName? name with
  | some language => .ok language
  | none => .error (.unknownLanguage name)

/-- The language a user means, which must not be disabled. -/
def enabledLanguage (config : Config) (name : Text) : Except Failure Language :=
  (knownLanguage name).bind fun language =>
    if config.isEnabled language then .ok language else .error (.disabledLanguage language)

/-- Lines as they are printed, each with a line feed at its end. -/
def printed (lines : List Text) : Text := lines.flatMap fun line => line ++ ['\n']

/-- What the documentation of an input prints. -/
def generateText (config : Config) (language : Language) (asSnippet : Bool) (width : Option Nat)
    (input : Text) : Text :=
  let p := Profile.of language config
  match document language config input with
  | some documented =>
    let options := { LayoutOptions.of p config asSnippet with width := width }
    printed (documented.block.format p options)
  | none => printed (fallbackLines p asSnippet)

/-- The report on an input. -/
def generateReport (config : Config) (language : Language) (input : Text) : Text :=
  printed [(Json.ofOption Documented.toJson (document language config input)).pretty]

/-- The list of known tags. -/
def tagsText (language : Language) (typed : Text) (json : Bool) : Text :=
  let found := KnownTag.lookup language typed
  if json then printed [(Json.array (found.map KnownTag.toJson)).pretty]
  else printed (found.map KnownTag.snippet)

/-- What a task prints, and the file it saves with its new text. -/
structure Effect where
  stdout : Text := []
  saved : Option (Text × Text) := none

/-- What a task does under a configuration. -/
def perform (world : World) (config : Config) : Task → Except Failure Effect
  | .generate lang file plain json width => do
    let language ← enabledLanguage config lang
    let input ← readInput world file
    pure { stdout :=
      if json then generateReport config language input
      else generateText config language (!plain) width input }
  | .format lang file width inPlace => do
    let language ← enabledLanguage config lang
    let input ← readInput world file
    let output := reformatAllIn language config (width.getD config.wrapWidth) input
    match file, inPlace with
    | some path, true => pure { saved := some (path, output) }
    | _, _ => pure { stdout := output }
  | .tags lang typed json => do
    let language ← knownLanguage lang
    pure { stdout := tagsText language typed json }
  | .header lang fileName workspaceName plain => do
    let language ← enabledLanguage config lang
    let p := Profile.of language config
    let block := Header.block p config.customTags { year := world.year, fileName, workspaceName }
    pure { stdout := printed (block.formatHeader p (LayoutOptions.of p config (!plain))) }

/-- The name and version of the program. -/
def versionLine : Text := "docblockr 0.1.0"

/-- How an invocation ends. -/
def Invocation.outcome (world : World) : Invocation → Outcome
  | version => { stdout := printed [versionLine], files := world.files }
  | help => { files := world.files }
  | usage => { code := 2, files := world.files }
  | run configPath task =>
    match (loadConfig world configPath).bind fun config => perform world config task with
    | .error failure => { code := 1, failure := some failure, files := world.files }
    | .ok effect =>
      { stdout := effect.stdout
        files := match effect.saved with
          | some (path, text) => world.files.write path (Text.toOctets text)
          | none => world.files }

/-- How a run with the given arguments ends. -/
def run (args : List Text) (world : World) : Outcome := (Invocation.ofArgs args).outcome world

end DocComment.CommandLine
