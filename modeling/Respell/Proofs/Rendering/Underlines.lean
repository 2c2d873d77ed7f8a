-- SUMMARY: The carets of a rendering stand under the text that a label marks.
import Mathlib.Data.Nat.PSub
import Respell.Diagnostic.Render
import Respell.Proofs.Positions
import Respell.Proofs.Lexing.Tiling

/-!
# Underlines

A label marks a span of the source. Its start lies on one line, which `MarkedLine` cuts at the start
and, if the span ends there, at its end. A rendering without colours shows that line and the carets
right below the characters that the span marks on it. Lines and columns start at one, so no
subtraction on the way is of more than there is, whatever a span is; `Renderer.renderAll?` is the
rendering with these subtractions tested.
-/

namespace Respell

open Text (size)

/-! ## The line of a span -/

/-- A line of a source, cut into what stands before the marked text, the marked text and what stands
    after it, with the lines above and the text below. -/
structure MarkedLine where
  above : List Char
  left : List Char
  marked : List Char
  right : List Char
  below : List Char

namespace MarkedLine

/-- The number of the line. -/
def number (m : MarkedLine) : Nat :=
  m.above.count '\n' + 1

/-- The column of the marked text. -/
def column (m : MarkedLine) : Nat :=
  m.left.length + 1

theorem column_sub_one (m : MarkedLine) : m.column - 1 = m.left.length := rfl

/-- The start of the span lies on the line, and the marked text is what the span covers up to its
    end or that of the line. -/
structure Holds (m : MarkedLine) (source : List Char) (span : Span) : Prop where
  source_eq : source = m.above ++ ((m.left ++ (m.marked ++ m.right)) ++ m.below)
  above : WholeLines m.above
  line : '\n' ∉ m.left ++ (m.marked ++ m.right)
  below : Lexer.LineEnd m.below
  start_eq : span.start = size (m.above ++ m.left)
  stop_eq : min span.stop (size (m.above ++ (m.left ++ (m.marked ++ m.right)))) =
    size (m.above ++ (m.left ++ m.marked))

variable {m : MarkedLine} {source : List Char} {span : Span}

theorem Holds.positionOf_start (h : m.Holds source span) :
    positionOf source span.start = ⟨m.number, m.column⟩ := by
  have hleft : '\n' ∉ m.left := fun hmem => h.line (List.mem_append_left _ hmem)
  rw [h.source_eq, h.start_eq, List.append_assoc, ← List.append_assoc m.above, positionOf_append]
  exact after_lines h.above hleft

theorem Holds.lineText?_eq (h : m.Holds source span) (hreturn : '\r' ∉ source) :
    lineText? source m.number = some (m.left ++ (m.marked ++ m.right)) := by
  have hline : '\r' ∉ m.left ++ (m.marked ++ m.right) := by
    intro hmem
    rw [h.source_eq] at hreturn
    exact hreturn (List.mem_append_right _ (List.mem_append_left _ hmem))
  have htext := lineText?_append h.above h.line h.below
  rw [withoutReturns_of_not_mem hline, ← h.source_eq] at htext
  exact htext

end MarkedLine

/-- Every span between characters has a line that it starts on, and the span ends there or on a
    line below it. -/
theorem Lexer.Slice.exists_markedLine {source before text after : List Char} {span : Span}
    (h : Lexer.Slice source span before text after) : ∃ m : MarkedLine, m.Holds source span ∧
      (positionOf source span.stop = ⟨m.number, m.column + m.marked.length⟩ ∨
        m.right = [] ∧ (positionOf source span.stop).line ≠ m.number) := by
  obtain ⟨above, left, rfl, habove, hleft⟩ := exists_wholeLines before
  have hstop : positionOf source span.stop =
      (⟨1, 1⟩ : Position).after (above ++ left ++ text) := by
    rw [h.source_eq, h.stop_eq, ← Text.size_append, ← List.append_assoc, positionOf_append]
  by_cases htext : '\n' ∈ text
  · obtain ⟨marked, more, rfl, hmarked⟩ := List.eq_append_cons_of_mem htext
    refine ⟨⟨above, left, marked, [], '\n' :: (more ++ after)⟩, ⟨?_, habove, ?_, .inr ⟨_, rfl⟩,
      h.start_eq, ?_⟩, .inr ⟨rfl, ?_⟩⟩
    · simp [h.source_eq]
    · simp [hleft, hmarked]
    · rw [h.stop_eq]
      simp only [Text.size_append, Text.size_cons, Text.size_nil]
      omega
    · rw [hstop, Position.line_after, MarkedLine.number]
      simp only [List.count_append, List.count_cons_self]
      omega
  · have hafter := Text.stops_dropWhile (· != '\n') after
    have hright : '\n' ∉ after.takeWhile (· != '\n') := fun hmem => by
      simpa using List.mem_takeWhile_imp hmem
    have hbelow : Lexer.LineEnd (after.dropWhile (· != '\n')) := by
      generalize after.dropWhile (· != '\n') = below at hafter
      cases below with
      | nil => exact .inl rfl
      | cons c below =>
        obtain rfl : c = '\n' := by simpa using Text.stops_cons.mp hafter
        exact .inr ⟨below, rfl⟩
    refine ⟨⟨above, left, text, after.takeWhile (· != '\n'), after.dropWhile (· != '\n')⟩,
      ⟨?_, habove, ?_, hbelow, h.start_eq, ?_⟩, .inl ?_⟩
    · simp [h.source_eq]
    · simp [hleft, htext, hright]
    · rw [h.stop_eq]
      simp only [Text.size_append]
      omega
    · have hline : '\n' ∉ left ++ text := by simp [hleft, htext]
      rw [hstop, List.append_assoc, after_lines habove hline, MarkedLine.number, MarkedLine.column,
        List.length_append, Nat.add_right_comm]

namespace Renderer

/-! ## What a rendering shows -/

/-- The text before the line in the row that shows it: the number at the right end of a gutter of
    one blank more than it has digits, a bar, and the line up to the marked text. -/
def lead (m : MarkedLine) : String :=
  " " ++ toString m.number ++ " | " ++ String.ofList m.left

/-- The text before the carets in the row below. -/
def indent (m : MarkedLine) : String :=
  times (toString m.number).length ' ' ++ "  | " ++ times m.left.length ' '

/-- The line, and below it a caret for each marked character, but at least one, with the message
    behind. -/
def rows (m : MarkedLine) (message : String) : String :=
  lead m ++ String.ofList m.marked ++ String.ofList m.right ++ "\n" ++
    indent m ++ times (max 1 m.marked.length) '^' ++
      (if message.isEmpty then "" else " " ++ message) ++ "\n"

/-- The row above that, with the place of the marked text. -/
def place (file : String) (m : MarkedLine) : String :=
  times (toString m.number).length ' ' ++ "--> " ++ file ++ ":" ++ toString m.number ++ ":" ++
    toString m.column ++ "\n"

/-- The rows between these, and at the end. -/
def bar (m : MarkedLine) : String :=
  times (toString m.number).length ' ' ++ "  |\n"

/-- The marked text and the carets start in the same column. -/
theorem length_indent (m : MarkedLine) : (indent m).length = (lead m).length := by
  simp only [indent, lead, String.length_append, length_times, String.length_ofList]
  change (toString m.number).length + 4 + _ = 1 + (toString m.number).length + 3 + _
  omega

theorem caret_not_mem_indent (m : MarkedLine) : '^' ∉ (indent m).toList := by
  simp [indent]

theorem caretCount_eq {m : MarkedLine} {stop : Position}
    (h : stop = ⟨m.number, m.column + m.marked.length⟩ ∨ m.right = [] ∧ stop.line ≠ m.number) :
    caretCount ⟨m.number, m.column⟩ stop (m.left ++ (m.marked ++ m.right)).length =
      max 1 m.marked.length := by
  rw [caretCount, max_comm]
  obtain rfl | ⟨hright, hline⟩ := h
  · simp
  · simp only [hline, if_false, hright, List.append_nil, List.length_append, MarkedLine.column]
    congr 1
    omega

section Plain

variable {r : Renderer} {l : Label} {m : MarkedLine}

theorem label_eq_rows (hcolor : r.color = false) (hreturn : '\r' ∉ r.source)
    (hm : m.Holds r.source l.span)
    (hstop : positionOf r.source l.span.stop = ⟨m.number, m.column + m.marked.length⟩ ∨
      m.right = [] ∧ (positionOf r.source l.span.stop).line ≠ m.number) :
    r.label ((toString m.number).length + 1) l = rows m l.message := by
  have hpad : padLeft ((toString m.number).length + 1) (toString m.number) =
      " " ++ toString m.number := by
    rw [padLeft, Nat.add_sub_cancel_left]
    rfl
  simp only [label, accent, paint_of_plain hcolor, hm.positionOf_start, hm.lineText?_eq hreturn,
    caretCount_eq hstop, hpad, underline, MarkedLine.column_sub_one, rows, lead, indent]
  apply String.toList_injective
  simp [List.replicate_succ']

theorem labels_eq (hcolor : r.color = false) (hm : m.Holds r.source l.span) :
    r.labels [l] = place r.file m ++ bar m ++ r.label ((toString m.number).length + 1) l ++
      bar m := by
  simp only [labels, accent, paint_of_plain hcolor, hm.positionOf_start, place, bar,
    List.map_cons, List.map_nil, String.join_cons, String.join_nil, Nat.add_sub_cancel]
  apply String.toList_injective
  simp [List.replicate_succ']

end Plain

/-! ## Rendering with its subtractions tested -/

/-- `label` where a subtraction of more than there is, or a line that is missing, ends it. -/
def label? (r : Renderer) (gutter : Nat) (l : Label) : Option String := do
  let start := positionOf r.source l.span.start
  let stop := positionOf r.source l.span.stop
  let rest ← dropLines (← start.line.psub 1) r.source
  let text := withoutReturns (rest.takeWhile (· != '\n'))
  let blanks ← start.column.psub 1
  let carets := caretCount start stop text.length
  return padLeft gutter (r.accent (toString start.line)) ++ " " ++ r.accent "|" ++ " " ++
      String.ofList text ++ "\n" ++
    times gutter ' ' ++ " " ++ r.accent "|" ++ " " ++
      r.paint [.red] (times blanks ' ' ++ times carets '^' ++
        if l.message.isEmpty then "" else " " ++ l.message) ++ "\n"

/-- `labels` with such labels. -/
def labels? (r : Renderer) : List Label → Option String
  | [] => some ""
  | first :: rest => do
    let start := positionOf r.source first.span.start
    let gutter := (toString start.line).length + 1
    let bar := times gutter ' ' ++ " " ++ r.accent "|" ++ "\n"
    let blanks ← gutter.psub 1
    let rows ← (first :: rest).mapM (r.label? gutter)
    return times blanks ' ' ++ r.accent "-->" ++ " " ++ r.file ++ ":" ++ toString start.line ++
      ":" ++ toString start.column ++ "\n" ++ bar ++ String.join rows ++ bar

/-- `render` with such labels. -/
def render? (r : Renderer) (d : Diagnostic) : Option String := do
  return r.header d ++ (← r.labels? d.labels) ++ String.join (d.notes.map r.note)

/-- `renderAll` with such labels. -/
def renderAll? (r : Renderer) (ds : List Diagnostic) : Option String := do
  let texts ← ds.mapM r.render?
  return String.join (texts.map (· ++ "\n")) ++
    summary (ds.filter fun d => d.severity == .error).length

theorem succ_psub_one (n : Nat) : (n + 1).psub 1 = some n := rfl

/-- The number and the column of a line are more than one below, and the line is there. -/
theorem label?_eq (r : Renderer) (gutter : Nat) (l : Label) :
    r.label? gutter l = some (r.label gutter l) := by
  obtain ⟨above, left, rest, hsource, habove, -, hposition⟩ :=
    exists_positionOf r.source l.span.start
  have hline := dropLines_append habove (left ++ rest)
  rw [← hsource] at hline
  simp only [label?, label, lineText?, hposition, underline, succ_psub_one, Nat.add_sub_cancel]
  simp only [Option.bind_eq_bind, Option.bind_some, hline, Option.map_some, withoutReturns]
  rfl

theorem labels?_eq (r : Renderer) (ls : List Label) : r.labels? ls = some (r.labels ls) := by
  cases ls with
  | nil => rfl
  | cons first rest =>
    have hrows : ∀ gutter, (first :: rest).mapM (r.label? gutter) =
        some ((first :: rest).map (r.label gutter)) := by
      intro gutter
      rw [funext (r.label?_eq gutter)]
      exact List.mapM_pure
    simp only [labels?, labels, succ_psub_one, hrows, Nat.add_sub_cancel]
    rfl

theorem render?_eq (r : Renderer) (d : Diagnostic) : r.render? d = some (r.render d) := by
  rw [render?, labels?_eq]
  rfl

theorem renderAll?_eq (r : Renderer) (ds : List Diagnostic) :
    r.renderAll? ds = some (r.renderAll ds) := by
  have htexts : ds.mapM r.render? = some (ds.map r.render) := by
    rw [funext r.render?_eq]
    exact List.mapM_pure
  simp only [renderAll?, htexts, renderAll, List.map_map, Function.comp_def, Option.bind_eq_bind,
    Option.bind_some]
  rfl

/-! ## Carets below the marked text -/

/-- A diagnostic with one label, which marks a piece of a source without carriage returns, is
    rendered with the line where the piece starts and the carets below it. Any other is rendered
    without a subtraction that goes below zero or a line that is missing. -/
theorem underlines_marked_text :
    (∀ (r : Renderer) (d : Diagnostic) (l : Label) (before text after : List Char),
      r.color = false → '\r' ∉ r.source → d.labels = [l] →
      Lexer.Slice r.source l.span before text after →
      ∃ m : MarkedLine, m.Holds r.source l.span ∧
        r.render d = r.header d ++
          (place r.file m ++ bar m ++ rows m l.message ++ bar m) ++
          String.join (d.notes.map r.note) ∧
        (indent m).length = (lead m).length ∧ '^' ∉ (indent m).toList) ∧
    (∀ (r : Renderer) (d : Diagnostic), r.render? d = some (r.render d)) ∧
    ∀ (r : Renderer) (ds : List Diagnostic), r.renderAll? ds = some (r.renderAll ds) := by
  refine ⟨fun r d l before text after hcolor hreturn hlabels hspan => ?_, render?_eq,
    renderAll?_eq⟩
  obtain ⟨m, hm, hstop⟩ := hspan.exists_markedLine
  refine ⟨m, hm, ?_, length_indent m, caret_not_mem_indent m⟩
  rw [render, hlabels, labels_eq hcolor hm, label_eq_rows hcolor hreturn hm hstop]

/-- A span over two lines, of which the first has a character of two bytes before it. -/
theorem underlines_marked_text_of_two_lines :
    let r : Renderer := ⟨"é =\n\"1\n2\";".toList, "f", false⟩
    let l : Label := ⟨⟨5, 10⟩, "here"⟩
    let d : Diagnostic := ⟨.error, none, "m", [l], []⟩
    Lexer.Slice r.source l.span "é =\n".toList "\"1\n2\"".toList ";".toList ∧
      ∃ m : MarkedLine, m.Holds r.source l.span ∧
        r.render d = r.header d ++ (place "f" m ++ bar m ++ rows m "here" ++ bar m) ++ "" := by
  intro r l d
  have hspan : Lexer.Slice r.source l.span "é =\n".toList "\"1\n2\"".toList ";".toList :=
    ⟨by decide, by decide, by decide⟩
  obtain ⟨m, hm, hrender, -⟩ :=
    underlines_marked_text.1 r d l _ _ _ rfl (by decide) rfl hspan
  exact ⟨hspan, m, hm, hrender⟩

end Renderer

end Respell
