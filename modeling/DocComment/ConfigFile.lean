import DocComment.Config
import DocComment.Files
import DocComment.Toml.Document

/-!
# Configuration files

A configuration is a TOML document with a fixed schema.  Every key is optional, an unknown key is an
error, and what a document leaves out has its default.
-/

namespace DocComment

/-- Why a configuration cannot be loaded. -/
inductive ConfigError where
  /-- There is no such file. -/
  | missing (path : Text)
  /-- The file is not text. -/
  | unreadable (path : Text)
  /-- The document is malformed or does not fit the schema. -/
  | malformed
  /-- The number of columns to align is too large. -/
  | alignOutOfRange (n : Nat)
  deriving DecidableEq

/-- The message of an error. -/
def ConfigError.message : ConfigError → Text
  | missing path =>
    "failed to read config '".toList ++ path ++
      "': No such file or directory (os error 2)".toList
  | unreadable path =>
    "failed to read config '".toList ++ path ++
      "': stream did not contain valid UTF-8".toList
  | malformed => "invalid config"
  | alignOutOfRange n => "align-tags must be between 0 and 3, got ".toList ++ Text.ofNat n

namespace ConfigFile

open Toml

/-- Whether a value is an empty table or array. -/
def isEmptyCollection : Value → Bool
  | .array [] | .table _ [] | .tables [] => true
  | _ => false

/-- One of several named choices: a string, or a table whose only key is the name and holds
nothing. -/
def choice? {α : Type} (ofId? : Text → Option α) : Value → Option α
  | .string name => ofId? name
  | .table _ [(name, v)] => if isEmptyCollection v then ofId? name else none
  | _ => none

/-- A natural number up to a bound. -/
def natural? (bound : Nat) : Value → Option Nat
  | .integer n => if 0 ≤ n && n ≤ bound then some n.toNat else none
  | _ => none

/-- A string. -/
def string? : Value → Option Text
  | .string t => some t
  | _ => none

/-- A truth value. -/
def boolean? : Value → Option Bool
  | .boolean b => some b
  | _ => none

/-- A list of strings. -/
def strings? : Value → Option (List Text)
  | .array items => items.mapM string?
  | _ => none

/-- The choices for a language with one more key. -/
def addLanguageSetting (c : LanguageConfig) (entry : Text × Value) : Option LanguageConfig :=
  if entry.1 = "enabled".toList then
    (boolean? entry.2).map fun b => { c with enabled := b }
  else if entry.1 = "empty-lines".toList then
    (choice? EmptyLines.ofId? entry.2).map fun p => { c with emptyLines := some p }
  else none

/-- The choices for a language: a table, or a list of its values in the order of the keys. -/
def languageConfig? : Value → Option LanguageConfig
  | .table _ entries => entries.foldlM addLanguageSetting {}
  | .array [] => some {}
  | .array [enabled] => (boolean? enabled).map fun b => { enabled := b }
  | .array (enabled :: policy :: _) =>
    (boolean? enabled).bind fun b =>
      (choice? EmptyLines.ofId? policy).map fun p => { enabled := b, emptyLines := some p }
  | _ => none

/-- The choices for several languages under their canonical identifiers. -/
def languages? : Value → Option (List (Language × LanguageConfig))
  | .table _ entries =>
    entries.mapM fun (id, v) =>
      (Language.ofId? id).bind fun language => (languageConfig? v).map (language, ·)
  | _ => none

/-- The configuration with one more key. -/
def addSetting (c : Config) (entry : Text × Value) : Option Config :=
  if entry.1 = "align-tags".toList then
    (natural? 255 entry.2).map fun n => { c with alignTags := n }
  else if entry.1 = "comment-style".toList then
    (choice? CommentStyle.ofId? entry.2).map fun s => { c with commentStyle := s }
  else if entry.1 = "ruby-style".toList then
    (choice? RubyStyle.ofId? entry.2).map fun s => { c with rubyStyle := s }
  else if entry.1 = "custom-tags".toList then
    (strings? entry.2).map fun ts => { c with customTags := ts }
  else if entry.1 = "wrap-width".toList then
    (natural? 0x7fffffffffffffff entry.2).map fun n => { c with wrapWidth := n }
  else if entry.1 = "languages".toList then
    (languages? entry.2).map fun ls => { c with languages := ls }
  else none

end ConfigFile

namespace Config

/-- The configuration in a document.  The schema is checked before the range of the columns to
align. -/
def ofToml (document : Text) : Except ConfigError Config :=
  match (Toml.parse? document).bind fun entries => entries.foldlM ConfigFile.addSetting {} with
  | none => .error .malformed
  | some config =>
    if 3 < config.alignTags then .error (.alignOutOfRange config.alignTags) else .ok config

/-- The configuration in a file. -/
def load (files : Files) (path : Text) : Except ConfigError Config :=
  match files.find? path with
  | none => .error (.missing path)
  | some octets =>
    match Text.ofOctets? octets with
    | none => .error (.unreadable path)
    | some document => ofToml document

end Config

end DocComment
