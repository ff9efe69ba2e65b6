import DocComment.CommandLine.Run
import Std.Time

/-!
# The program

Reads what a run needs, lets `CommandLine.run` decide, and carries out what it decided.
-/

namespace DocComment.CommandLine

/-- The files among the given paths that can be read. -/
def readFiles (paths : List Text) : IO Files := do
  let mut files : Files := []
  for path in paths do
    try
      let octets ← IO.FS.readBinFile (String.ofList path)
      files := files ++ [(Files.resolve path, octets.toList)]
    catch _ => pure ()
  return files

/-- The files that an invocation may read. -/
def Invocation.paths : Invocation → List Text
  | run config task => config.getD defaultConfigPath :: task.file?.toList
  | _ => []

/-- What an invocation finds. -/
def Invocation.world (invocation : Invocation) : IO World := do
  let files ← readFiles invocation.paths
  let stdin ← match invocation with
    | run _ task => if task.readsInput then (← IO.getStdin).readBinToEnd else pure .empty
    | _ => pure .empty
  let today ← Std.Time.PlainDate.now
  return { files, stdin := stdin.toList, year := today.year }

/-- A reminder of the tasks and their options. -/
def usageLines : List String := [
  "Usage: docblockr [-c CONFIG] generate -l LANG [--plain] [--json | -w WIDTH] [FILE]",
  "       docblockr [-c CONFIG] format -l LANG [-w WIDTH] [-i] [FILE]",
  "       docblockr [-c CONFIG] tags -l LANG [--json] [PARTIAL]",
  "       docblockr [-c CONFIG] header -l LANG [--file-name NAME] [--workspace NAME] [--plain]"]

end DocComment.CommandLine

open DocComment.CommandLine in
/-- Runs the program. -/
def main (args : List String) : IO UInt32 := do
  let invocation := Invocation.ofArgs (args.map String.toList)
  let world ← invocation.world
  let outcome := invocation.outcome world
  for (name, octets) in outcome.files do
    if world.files.lookup name != some octets then
      IO.FS.writeBinFile (String.ofList name) (ByteArray.mk octets.toArray)
  if invocation = .help then usageLines.forM fun line => IO.println line
  if invocation = .usage then usageLines.forM fun line => IO.eprintln line
  IO.print (String.ofList outcome.stdout)
  if let some failure := outcome.failure then
    IO.eprintln ("Error: " ++ String.ofList failure.message)
  return outcome.code.toUInt32
