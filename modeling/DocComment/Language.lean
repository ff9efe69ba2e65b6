import DocComment.Text.Basic

/-!
# Languages

The source languages, their canonical identifiers and the spellings a user may give.
-/

namespace DocComment

/-- A supported source language. -/
inductive Language where
  | javascript
  | typescript
  | php
  | java
  /-- C, C++ and LSL share one set of declarations. -/
  | cpp
  | objc
  | rust
  | ruby
  | swift
  deriving DecidableEq, Repr

namespace Language

/-- Every language, in the order of the configuration. -/
def all : List Language :=
  [javascript, typescript, php, java, cpp, objc, rust, ruby, swift]

/-- The canonical identifier. -/
def id : Language → Text
  | javascript => "javascript"
  | typescript => "typescript"
  | php => "php"
  | java => "java"
  | cpp => "cpp"
  | objc => "objc"
  | rust => "rust"
  | ruby => "ruby"
  | swift => "swift"

/-- The other spellings a user may give. -/
def aliases : Language → List Text
  | javascript => ["js", "jsx"].map String.toList
  | typescript => ["ts", "tsx"].map String.toList
  | cpp => ["c", "c++", "lsl"].map String.toList
  | objc => ["objective-c"].map String.toList
  | rust => ["rs"].map String.toList
  | ruby => ["rb"].map String.toList
  | _ => []

/-- The language with a canonical identifier. -/
def ofId? (id : Text) : Option Language := all.find? fun l => l.id == id

/-- The language a user means: blanks around the name and the case of ASCII letters do not count. -/
def ofName? (name : Text) : Option Language :=
  let name := Text.asciiLower (Text.trim name)
  all.find? fun l => l.id == name || l.aliases.contains name

/-- Every language is listed. -/
theorem mem_all (l : Language) : l ∈ all := by cases l <;> simp [all]

/-- The identifier of a language names it. -/
theorem ofId?_id (l : Language) : ofId? l.id = some l := by cases l <;> rfl

/-- A user may give the canonical identifier. -/
theorem ofName?_id (l : Language) : ofName? l.id = some l := by cases l <;> decide

end Language

end DocComment
