import DocComment.Grammar.Cpp
import DocComment.Grammar.Java
import DocComment.Grammar.JavaScript
import DocComment.Grammar.ObjectiveC
import DocComment.Grammar.Php
import DocComment.Grammar.Ruby
import DocComment.Grammar.Rust
import DocComment.Grammar.Swift
import DocComment.Grammar.TypeScript
import DocComment.Language

/-!
# The grammar of each language
-/

namespace DocComment

/-- The grammar of a language. -/
def Language.grammar : Language → Grammar
  | .javascript => Grammar.javaScript
  | .typescript => Grammar.typeScript
  | .php => Grammar.php
  | .java => Grammar.java
  | .cpp => Grammar.cpp
  | .objc => Grammar.objectiveC
  | .rust => Grammar.rust
  | .ruby => Grammar.ruby
  | .swift => Grammar.swift

end DocComment
