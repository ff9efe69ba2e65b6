import DocComment.Text.Basic

/-!
# Files

The part of a file system that the command line works in: a directory of named files, without links
between them and without steps up (`..`).
-/

namespace DocComment

/-- The text that a sequence of octets encodes, if it is well-formed UTF-8. -/
def Text.ofOctets? (octets : List UInt8) : Option Text :=
  (ByteArray.mk octets.toArray).utf8Decode?.map Array.toList

/-- A text as a sequence of octets. -/
def Text.toOctets (t : Text) : List UInt8 := t.flatMap String.utf8EncodeChar

/-- The files of a directory with their octets. -/
abbrev Files := List (Text × List UInt8)

namespace Files

/-- The rest of a path without the steps that stay in the directory, `.` and empty ones; `inside`
says whether a step has begun. -/
def resolveFrom (inside : Bool) : Text → Text
  | [] => []
  | '.' :: '/' :: rest =>
    if inside then '.' :: '/' :: resolveFrom false rest else resolveFrom false rest
  | '/' :: rest => if inside then '/' :: resolveFrom false rest else resolveFrom false rest
  | c :: rest => c :: resolveFrom true rest

/-- A path without the steps that stay in the directory.  A slash at its start is the root, and one
at its end asks for a directory. -/
def resolve (path : Text) : Text := resolveFrom (path.head? == some '/') path

/-- The octets of a file. -/
def find? (files : Files) (path : Text) : Option (List UInt8) := files.lookup (resolve path)

/-- The text of a file, if there is such a file and it is well-formed. -/
def read? (files : Files) (path : Text) : Option Text := (files.find? path).bind Text.ofOctets?

/-- The files with the octets of one replaced. -/
def write (files : Files) (path : Text) (octets : List UInt8) : Files :=
  files.map fun (name, old) => if name == resolve path then (name, octets) else (name, old)

end Files

end DocComment
