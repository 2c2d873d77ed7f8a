-- SUMMARY: Writing diagnostics with the lines of the source that they mark.
import Respell.Diagnostic
import Respell.Position

/-!
# Rendering

A diagnostic is written as a header, the place of its first label, each marked line with an
underline below it, and the notes. A gutter on the left holds the line numbers; it is as wide as
the number of the first label's line needs.
-/

namespace Respell

/-! ## Colours -/

/-- What a terminal does to a text. -/
inductive Ink where
  | red
  | yellow
  | blue
  | bold
deriving Repr, DecidableEq

namespace Ink

/-- The sequence with the given number that a terminal understands. -/
def sequence (n : String) : String :=
  "\x1b[" ++ n ++ "m"

/-- A text between the sequences that start and end an effect. -/
def paint (ink : Ink) (s : String) : String :=
  match ink with
  | .red => sequence "31" ++ s ++ sequence "39"
  | .yellow => sequence "33" ++ s ++ sequence "39"
  | .blue => sequence "34" ++ s ++ sequence "39"
  | .bold => sequence "1" ++ s ++ sequence "0"

end Ink

/-- The ink of a severity. -/
def Severity.ink : Severity → Ink
  | .error => .red
  | .warning => .yellow

/-! ## Lines -/

/-- What a rendering needs to know besides the diagnostic. -/
structure Renderer where
  source : List Char
  file : String
  color : Bool

/-- A row of `n` characters `c`. -/
def times (n : Nat) (c : Char) : String :=
  String.ofList (List.replicate n c)

@[simp] theorem length_times (n : Nat) (c : Char) : (times n c).length = n := by
  simp [times]

@[simp] theorem toList_times (n : Nat) (c : Char) : (times n c).toList = List.replicate n c := by
  simp [times]

/-- A text with blanks before it, so that it has at least `width` characters. -/
def padLeft (width : Nat) (s : String) : String :=
  times (width - s.length) ' ' ++ s

theorem length_padLeft (width : Nat) (s : String) :
    (padLeft width s).length = max width s.length := by
  rw [padLeft, String.length_append, length_times]
  omega

namespace Renderer

/-- A text in some inks, the first of them outermost, if colours are used at all. -/
def paint (r : Renderer) (inks : List Ink) (s : String) : String :=
  if r.color then inks.foldr Ink.paint s else s

theorem paint_of_plain {r : Renderer} (h : r.color = false) (inks : List Ink) (s : String) :
    r.paint inks s = s := by
  simp [paint, h]

/-- A part of the frame around the source lines. -/
def accent (r : Renderer) (s : String) : String :=
  r.paint [.blue] s

/-- The first line of a diagnostic. -/
def header (r : Renderer) (d : Diagnostic) : String :=
  let code := match d.code with
    | some code => "[" ++ code ++ "]"
    | none => ""
  r.paint [.bold, d.severity.ink] d.severity.text ++ code ++ ": " ++ r.paint [.bold] d.message ++
    "\n"

/-- How many carets underline a span that starts on the given line, which has `width` characters.
    A span that ends on another line is underlined to the end of its first one. -/
def caretCount (start stop : Position) (width : Nat) : Nat :=
  let last := if stop.line = start.line then stop.column else width + 1
  max (last - start.column) 1

/-- The blanks, carets and message below a marked line. -/
def underline (start : Position) (carets : Nat) (message : String) : String :=
  times (start.column - 1) ' ' ++ times carets '^' ++
    if message.isEmpty then "" else " " ++ message

/-- A marked line and its underline. -/
def label (r : Renderer) (gutter : Nat) (l : Label) : String :=
  let start := positionOf r.source l.span.start
  match lineText? r.source start.line with
  | none => ""
  | some text =>
    let stop := positionOf r.source l.span.stop
    let carets := caretCount start stop text.length
    padLeft gutter (r.accent (toString start.line)) ++ " " ++ r.accent "|" ++ " " ++
      String.ofList text ++ "\n" ++
    times gutter ' ' ++ " " ++ r.accent "|" ++ " " ++
      r.paint [.red] (underline start carets l.message) ++ "\n"

/-- The place of the first label, and all labels between two lines of the frame. -/
def labels (r : Renderer) : List Label → String
  | [] => ""
  | first :: rest =>
    let start := positionOf r.source first.span.start
    let gutter := (toString start.line).length + 1
    let bar := times gutter ' ' ++ " " ++ r.accent "|" ++ "\n"
    times (gutter - 1) ' ' ++ r.accent "-->" ++ " " ++ r.file ++ ":" ++ toString start.line ++
      ":" ++ toString start.column ++ "\n" ++
    bar ++ String.join ((first :: rest).map (r.label gutter)) ++ bar

/-- A note below the labels. -/
def note (r : Renderer) (s : String) : String :=
  "  " ++ r.accent "=" ++ " " ++ s ++ "\n"

/-- A diagnostic. -/
def render (r : Renderer) (d : Diagnostic) : String :=
  r.header d ++ r.labels d.labels ++ String.join (d.notes.map r.note)

/-- The last line of a rendering, which counts the errors. -/
def summary (errors : Nat) : String :=
  if errors = 0 then ""
  else "error: aborting due to " ++ toString errors ++
    (if errors = 1 then " error" else " errors") ++ "\n"

/-- Every diagnostic and a blank line after it, and the summary. -/
def renderAll (r : Renderer) (ds : List Diagnostic) : String :=
  String.join (ds.map fun d => r.render d ++ "\n") ++
    summary (ds.filter fun d => d.severity == .error).length

end Renderer

end Respell
