import DocComment.Document
import DocComment.Ranges
import DocComment.Reading

/-!
# Reformatting existing comments
-/

namespace DocComment

/-- The blanks and tabs that the first line of a comment starts with. -/
def indentOf (comment : Text) : Text :=
  ((Text.lines comment).head?.getD []).takeWhile fun c => c == ' ' || c == '\t'

/-- The lines of a comment, read back and laid out anew.  The indentation of its first line is kept
on every line and counts against the width. -/
def reformatIn (language : Language) (config : Config) (width : Nat) (comment : Text) :
    Option (List Text) :=
  let p := Profile.of language config
  let indent := indentOf comment
  (Reading.block? p comment).map fun block =>
    let options := { LayoutOptions.of p config false with width := some (width - indent.length) }
    (block.format p options).map (indent ++ ·)

/-- The lines of a comment laid out anew; none when the language is unknown or disabled, when its
dialect is prose and when the comment is empty. -/
def reformat (config : Config) (lang : Text) (width : Nat) (comment : Text) :
    Option (List Text) :=
  (config.language? lang).bind fun language => reformatIn language config width comment

/-- The lines of a file with one comment reformatted. -/
def reformatRange (language : Language) (config : Config) (width : Nat) (range : LineRange)
    (lines : List Text) : List Text :=
  let comment := Text.unlines ((lines.take range.stop).drop range.start)
  match reformatIn language config width comment with
  | some formatted => lines.take range.start ++ formatted ++ lines.drop range.stop
  | none => lines

/-- A source file with every comment reformatted, the last one first, so that the line numbers of the
others stay valid.  The text ends in a line feed exactly if it did before. -/
def reformatAllIn (language : Language) (config : Config) (width : Nat) (text : Text) : Text :=
  let ranges := Ranges.ofText (Profile.of language config) text
  let lines := ranges.foldr (reformatRange language config width) (Text.lines text)
  Text.unlines lines ++ if text.getLast? == some '\n' then ['\n'] else []

/-- A source file with every comment reformatted; none when the language is unknown or disabled. -/
def reformatAll (config : Config) (lang : Text) (width : Nat) (text : Text) : Option Text :=
  (config.language? lang).map fun language => reformatAllIn language config width text

end DocComment
