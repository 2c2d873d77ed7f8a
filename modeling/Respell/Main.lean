-- SUMMARY: The command line program.
import Respell.Command

/-!
# Main

The outer layer: it reads what the arguments name, lets `Command.respond` do the work, and passes
the output on.
-/

namespace Respell.Command

/-- The files that the options name. -/
def Options.paths (o : Options) : List String :=
  o.keywords.toList ++ if o.eval.isSome then [] else o.file.toList

/-- Whether the options ask for the input stream, by its name or by naming nothing else. -/
def Options.wantsStdin (o : Options) : Bool :=
  (o.eval.isNone && o.file.isNone) || o.paths.any Tree.isStream

/-- The content of a file, or why there is none. -/
def readContent (path : String) : IO (Except ReadError Content) := do
  if Tree.isStream path then
    return .ok .stream
  try
    return .ok (.fixed (← IO.FS.readBinFile path).toList)
  catch
    | .noFileOrDirectory .. => return .error .notFound
    | e => return .error (.other (toString e))

/-- Read what the options name. -/
def gather (o : Options) : IO Inputs := do
  let files ← o.paths.mapM fun path => do return (path, ← readContent path)
  let stdin ← if o.wantsStdin then (← IO.getStdin).readBinToEnd else pure ByteArray.empty
  return ⟨fun path => (files.lookup path).getD (.error .notFound), stdin.toList⟩

/-- Run the program on its arguments; the answer is its exit code. -/
def start (args : List String) : IO UInt32 := do
  let inputs ← match Request.ofArguments args with
    | .ok (.run o) => gather o
    | _ => pure ⟨fun _ => .error .notFound, []⟩
  let response := respond inputs true args (.ofWriter .unlimited)
  (← IO.getStdout).write ⟨response.sink.writer.written⟩
  (← IO.getStderr).putStr response.stderr
  return UInt32.ofNat response.code

end Respell.Command

/-- The program. -/
def main (args : List String) : IO UInt32 :=
  Respell.Command.start args
