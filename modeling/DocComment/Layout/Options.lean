import DocComment.Block
import DocComment.Profile

/-!
# Layout options
-/

namespace DocComment

/-- The choices shared by every layout. -/
structure LayoutOptions where
  /-- Whether tab stops are written in snippet form. -/
  asSnippet : Bool := false
  /-- How many leading columns are padded to a common width. -/
  align : Nat := 0
  emptyLines : EmptyLines := .none
  /-- The width to re-flow to, if any. -/
  width : Option Nat := none
  deriving DecidableEq

/-- The options that a profile and a configuration ask for. -/
def LayoutOptions.of (p : Profile) (config : Config) (asSnippet : Bool) : LayoutOptions where
  asSnippet := asSnippet
  align := config.alignTags
  emptyLines := p.emptyLines

/-- The text of an optional field, empty when it is absent. -/
def cell (field : Option Field) (asSnippet : Bool) : Text :=
  (field.map fun f => f.render asSnippet).getD []

end DocComment
