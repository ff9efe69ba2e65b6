import DocComment.CommandLine.Invocation
import DocComment.CommandLine.Run
import DocComment.ConfigFile
import DocComment.Document
import DocComment.Header
import DocComment.KnownTag
import DocComment.Main
import DocComment.Pattern.Ends
import DocComment.Ranges
import DocComment.Reading
import DocComment.Reformat
import DocComment.Report
import DocComment.Synthesis
import DocComment.Proofs.Text.Trim
import DocComment.Proofs.Text.Words
import DocComment.Proofs.Reading.Conservation
import DocComment.Proofs.Snippet.Carries
import DocComment.Proofs.Snippet.TabStops
import DocComment.Proofs.Layout.Table
import DocComment.Proofs.Reading.Lines
import DocComment.Proofs.Reading.Frame
import DocComment.Proofs.Reading.Rows
import DocComment.Proofs.Reading.Blocks
import DocComment.Proofs.Reading.Canonical
import DocComment.Proofs.Reading.Normal
import DocComment.Proofs.Reading.Settled
import DocComment.Proofs.Ranges
import DocComment.Proofs.Reading.Stable
import DocComment.Proofs.Reformat
import DocComment.Proofs.Reading.Sentence
import DocComment.Proofs.Splice
import DocComment.Proofs.Snippet.Expansion
import DocComment.Proofs.Snippet.Preview
import DocComment.Proofs.Text.Occurrence
import DocComment.Proofs.Reading.Heredity
import DocComment.Proofs.Enclosure
import DocComment.Proofs.Pattern.Captures
import DocComment.Proofs.Grammar.Types
import DocComment.Proofs.Synthesis.ReadBack
import DocComment.Proofs.Fallback
import DocComment.Proofs.LineEnds
import DocComment.Proofs.Snippet.Decoding
import DocComment.Proofs.CommandLine.Frame
import DocComment.Proofs.Reflow.Breaking
import DocComment.Proofs.Reflow.FewestLines
import DocComment.Proofs.Pattern.Residuals
import DocComment.Proofs.Pattern.Preferred
import DocComment.Proofs.Grammar.Statements
import DocComment.Proofs.ArgumentList.Joined
import DocComment.Proofs.ArgumentList.Nested
import DocComment.Proofs.Reflow.Again
import DocComment.Proofs.Layout.Alignment
import DocComment.Proofs.ArgumentList.Stable
import DocComment.Proofs.Reading.NormalForm
import DocComment.Proofs.Ranges.Located
import DocComment.Proofs.Ranges.Delimited
import DocComment.Proofs.Text.Indent
import DocComment.Proofs.Pattern.Replacing
import DocComment.Proofs.Indentation
import DocComment.Proofs.Definition
import DocComment.Proofs.Synthesis.Columns
import DocComment.Proofs.Header
import DocComment.Proofs.Layout.Separators
import DocComment.Proofs.Definition.Stripping
import DocComment.Proofs.Definition.Pieces
import DocComment.Proofs.Definition.Legible
import DocComment.Proofs.KnownTag
import DocComment.Proofs.Snippet.Template
import DocComment.Proofs.Pattern.Covering
import DocComment.Proofs.Header.Year
import DocComment.Proofs.Grammar.Selectors
import DocComment.Proofs.Pattern.ParameterList
import DocComment.Proofs.TagLine.Slices
