import Reckon.CommandLine

/-!
The program: reads what a command needs, carries it out, prints the outcome and ends with its status.
-/

open Reckon.CommandLine

/-- The bytes of a stream up to its end. -/
partial def readToEnd (stream : IO.FS.Stream) (read : ByteArray) : IO ByteArray := do
  let bytes ← stream.read 65536
  if bytes.isEmpty then pure read else readToEnd stream (read ++ bytes)

/-- The text of the input, if it is text. -/
def readInput : IO (Option String) := do
  pure (String.fromUTF8? (← readToEnd (← IO.getStdin) ByteArray.empty))

/-- The text of a file, if it can be read. -/
def readNamed (path : String) : IO (Option String) := do
  try pure (some (← IO.FS.readFile path)) catch _ => pure none

/-- The second at which the program runs: that of a file made for the purpose. -/
def presentSecond : IO Int := do
  let (_, path) ← IO.FS.createTempFile
  let data ← path.metadata
  IO.FS.removeFile path
  pure data.modified.sec

def main (arguments : List String) : IO UInt32 := do
  let outcome ← match Command.read arguments with
    | .error stop => pure (stopped stop)
    | .ok command =>
      let input? ← if command.readsInput then readInput else pure (some "")
      let files ← command.files.mapM fun path => do pure (path, ← readNamed path)
      match input? with
      | none => pure ⟨3, "", "Error: the input is no text\n"⟩
      | some input =>
        pure (command.run ⟨← presentSecond, input, fun path => (files.lookup path).join⟩)
  (← IO.getStdout).putStr outcome.output
  (← IO.getStderr).putStr outcome.errors
  pure (UInt32.ofNat outcome.status)
