-- SUMMARY: Writing lines to a writer that may fail.

/-!
# Line sinks

A writer takes bytes as long as it has room and can be flushed only so often. A sink writes whole
lines to it and flushes after each. It keeps the first failure and drops every line after it.
-/

namespace Respell

/-- Why a writer refused. -/
inductive WriteError where
  /-- there is no room left -/
  | closed
  /-- it cannot be flushed again -/
  | notFlushed
deriving Repr, DecidableEq

/-- How messages name the failure of a writer. -/
def WriteError.message : WriteError → String
  | .closed => "closed"
  | .notFlushed => "flush failed"

/-- A limit that may be missing. -/
abbrev Limit := Option Nat

namespace Limit

/-- Whether `n` is within the limit. -/
def allows (limit : Limit) (n : Nat) : Bool :=
  match limit with
  | some most => n ≤ most
  | none => true

/-- The limit after `n` has been used. -/
def less (limit : Limit) (n : Nat) : Limit :=
  limit.map (· - n)

/-- As much of a list as the limit allows. -/
def cut {α : Type} (limit : Limit) (xs : List α) : List α :=
  match limit with
  | some most => xs.take most
  | none => xs

end Limit

/-- A writer: how many bytes it still takes, how often it can still be flushed, and what it got. -/
structure Writer where
  room : Limit
  flushes : Limit
  written : Array UInt8
deriving Repr, DecidableEq

namespace Writer

/-- A writer that never fails. -/
def unlimited : Writer :=
  ⟨none, none, #[]⟩

/-- Write bytes; what does not fit is lost, and then the writer has failed. -/
def write : Writer → List UInt8 → Except WriteError Unit × Writer
  | ⟨room, flushes, written⟩, bytes =>
    (if room.allows bytes.length then .ok () else .error .closed,
      ⟨room.less bytes.length, flushes, written ++ room.cut bytes⟩)

/-- Flush. -/
def flush (w : Writer) : Except WriteError Unit × Writer :=
  let used : Writer := { w with flushes := w.flushes.less 1 }
  (if w.flushes.allows 1 then .ok () else .error .notFlushed, used)

end Writer

/-- A writer of lines and the first failure that it met. -/
structure Sink where
  writer : Writer
  failure : Option WriteError
deriving Repr, DecidableEq

namespace Sink

/-- A sink that has not written anything. -/
def ofWriter (w : Writer) : Sink :=
  ⟨w, none⟩

/-- The bytes of a line. -/
def lineBytes (line : String) : List UInt8 :=
  (line ++ "\n").toUTF8.toList

/-- Write a line and flush, unless something has failed before. -/
def writeLine (s : Sink) (line : String) : Sink :=
  match s.failure with
  | some _ => s
  | none =>
    match s.writer.write (lineBytes line) with
    | (.error e, w) => ⟨w, some e⟩
    | (.ok (), w) =>
      match w.flush with
      | (.error e, w) => ⟨w, some e⟩
      | (.ok (), w) => ⟨w, none⟩

/-- Write lines in order. -/
def writeLines (s : Sink) (lines : List String) : Sink :=
  lines.foldl writeLine s

/-- Whether all went well. -/
def finish (s : Sink) : Except WriteError Unit :=
  match s.failure with
  | some e => .error e
  | none => .ok ()

end Sink

end Respell
