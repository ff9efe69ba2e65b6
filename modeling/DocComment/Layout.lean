import DocComment.Layout.Prose
import DocComment.Layout.Table
import DocComment.Reflow

/-!
# Layout

The lines of a block in the dialect of a profile.
-/

namespace DocComment.Block

/-- The lines of a block before re-flowing. -/
def layout (b : Block) (p : Profile) (options : LayoutOptions) : List Text :=
  match p.dialect with
  | .table d => Table.lines p d options b
  | .rustdoc => Prose.rustdocLines options.asSnippet b.rows
  | .swiftMarkup => Prose.swiftLines options.asSnippet b.rows
  | .rdoc => Prose.rdocLines options.asSnippet b.rows

/-- The lines of a block, re-flowed if the options give a width. -/
def format (b : Block) (p : Profile) (options : LayoutOptions) : List Text :=
  let lines := b.layout p options
  match options.width with
  | some width => Reflow.wrap p width lines
  | none => lines

/-- The lines of a header block.  A header is never re-flowed. -/
def formatHeader (b : Block) (p : Profile) (options : LayoutOptions) : List Text :=
  match p.dialect with
  | .table d => Table.lines p d options b
  | .rustdoc => Prose.rustdocHeader options.asSnippet b.rows
  | .swiftMarkup => Prose.swiftHeader options.asSnippet b.rows
  | .rdoc => Prose.rdocHeader options.asSnippet b.rows

end DocComment.Block
