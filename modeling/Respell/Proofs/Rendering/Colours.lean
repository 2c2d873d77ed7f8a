-- SUMMARY: A rendering with colours, without its sequences, has its line numbers further left.
import Respell.Diagnostic.Render
import Respell.Proofs.Positions

/-!
# Colours

`Ink.strip` deletes the sequences that colour a text. What it leaves of a rendering with colours is
the rendering without them, but for the column of the line numbers: a number is painted before it is
padded, and the ten characters of its two sequences count as width. `Renderer.renderAllAt` is the
rendering with a column that is narrower than the gutter by any number of characters.
-/

namespace Respell

/-! ## Texts without their sequences -/

namespace Ink

/-- How many characters the sequence at the start of a text has, or zero if none is there. -/
def sequenceLength : List Char → Nat
  | '\x1b' :: '[' :: cs =>
    let digits := cs.takeWhile Char.isDigit
    if digits ≠ [] ∧ (cs.dropWhile Char.isDigit).head? = some 'm' then digits.length + 3 else 0
  | _ => 0

/-- What is left after the first `n` characters, without sequences. -/
def stripFrom : Nat → List Char → List Char
  | _, [] => []
  | n + 1, _ :: cs => stripFrom n cs
  | 0, c :: cs =>
    match sequenceLength (c :: cs) with
    | 0 => c :: stripFrom 0 cs
    | n + 1 => stripFrom n cs

/-- A text without its sequences. -/
def strip (s : String) : String :=
  String.ofList (stripFrom 0 s.toList)

theorem stripFrom_append (cs rest : List Char) :
    stripFrom cs.length (cs ++ rest) = stripFrom 0 rest := by
  induction cs with
  | nil => rfl
  | cons c cs ih => exact ih

theorem sequenceLength_cons_of_ne {c : Char} (h : c ≠ '\x1b') (cs : List Char) :
    sequenceLength (c :: cs) = 0 := by
  rw [sequenceLength]
  intro cs' heq
  exact h (List.cons.inj heq).1

theorem sequenceLength_sequence {digits : List Char} (hne : digits ≠ [])
    (hdigits : ∀ c ∈ digits, c.isDigit = true) (rest : List Char) :
    sequenceLength ('\x1b' :: '[' :: (digits ++ 'm' :: rest)) = digits.length + 3 := by
  have hstop : Text.Stops Char.isDigit ('m' :: rest) := Text.stops_cons.mpr (by decide)
  rw [sequenceLength, hstop.takeWhile_append hdigits, hstop.dropWhile_append hdigits]
  exact if_pos ⟨hne, rfl⟩

/-- Whatever follows, what `strip` leaves of a text is the other one. -/
def Shows (s t : String) : Prop :=
  ∀ rest, stripFrom 0 (s.toList ++ rest) = t.toList ++ stripFrom 0 rest

theorem Shows.strip_eq {s t : String} (h : Shows s t) : strip s = t := by
  apply String.toList_injective
  simpa [strip, stripFrom] using h []

theorem shows_self {s : String} (h : '\x1b' ∉ s.toList) : Shows s s := by
  intro rest
  generalize s.toList = cs at h
  induction cs with
  | nil => rfl
  | cons c cs ih =>
    simp only [List.mem_cons, not_or] at h
    rw [List.cons_append, stripFrom, sequenceLength_cons_of_ne (Ne.symm h.1)]
    exact congrArg (c :: ·) (ih h.2)

theorem shows_sequence {n : String} (hne : n.toList ≠ [])
    (hdigits : n.toList.all Char.isDigit = true) : Shows (sequence n) "" := by
  intro rest
  have htext : (sequence n).toList ++ rest = '\x1b' :: '[' :: (n.toList ++ 'm' :: rest) := by
    simp [sequence]
  have hskip := stripFrom_append ('[' :: (n.toList ++ ['m'])) rest
  rw [htext, stripFrom, sequenceLength_sequence hne (List.all_eq_true.mp hdigits)]
  simpa using hskip

theorem Shows.append {s t s' t' : String} (h : Shows s t) (h' : Shows s' t') :
    Shows (s ++ s') (t ++ t') := by
  intro rest
  rw [String.toList_append, List.append_assoc, h, h', String.toList_append, List.append_assoc]

theorem Shows.join {α : Type} {f g : α → String} {as : List α}
    (h : ∀ a ∈ as, Shows (f a) (g a)) :
    Shows (String.join (as.map f)) (String.join (as.map g)) := by
  induction as with
  | nil => exact shows_self (by simp)
  | cons a as ih =>
    rw [List.map_cons, List.map_cons, String.join_cons, String.join_cons]
    exact (h a List.mem_cons_self).append (ih fun b hb => h b (List.mem_cons_of_mem _ hb))

theorem Shows.paint {s t : String} (h : Shows s t) (ink : Ink) : Shows (ink.paint s) t := by
  have hwrap : ∀ {start stop : String}, Shows (sequence start) "" → Shows (sequence stop) "" →
      Shows (sequence start ++ s ++ sequence stop) t := by
    intro start stop hstart hstop
    simpa using (hstart.append h).append hstop
  cases ink <;> exact hwrap (shows_sequence (by decide) (by decide))
    (shows_sequence (by decide) (by decide))

end Ink

/-- No text of the diagnostic has an escape character. -/
structure Diagnostic.Unescaped (d : Diagnostic) : Prop where
  code : ∀ code ∈ d.code, '\x1b' ∉ code.toList
  message : '\x1b' ∉ d.message.toList
  labels : ∀ l ∈ d.labels, '\x1b' ∉ l.message.toList
  notes : ∀ note ∈ d.notes, '\x1b' ∉ note.toList

namespace Renderer

/-! ## Numbers further left -/

/-- `label` with its number in a column that is narrower than the gutter. -/
def labelAt (r : Renderer) (narrow gutter : Nat) (l : Label) : String :=
  let start := positionOf r.source l.span.start
  match lineText? r.source start.line with
  | none => ""
  | some text =>
    let stop := positionOf r.source l.span.stop
    let carets := caretCount start stop text.length
    padLeft (gutter - narrow) (r.accent (toString start.line)) ++ " " ++ r.accent "|" ++ " " ++
      String.ofList text ++ "\n" ++
    times gutter ' ' ++ " " ++ r.accent "|" ++ " " ++
      r.paint [.red] (underline start carets l.message) ++ "\n"

/-- `labels` with such labels. -/
def labelsAt (r : Renderer) (narrow : Nat) : List Label → String
  | [] => ""
  | first :: rest =>
    let start := positionOf r.source first.span.start
    let gutter := (toString start.line).length + 1
    let bar := times gutter ' ' ++ " " ++ r.accent "|" ++ "\n"
    times (gutter - 1) ' ' ++ r.accent "-->" ++ " " ++ r.file ++ ":" ++ toString start.line ++
      ":" ++ toString start.column ++ "\n" ++
    bar ++ String.join ((first :: rest).map (r.labelAt narrow gutter)) ++ bar

/-- `render` with such labels. -/
def renderAt (r : Renderer) (narrow : Nat) (d : Diagnostic) : String :=
  r.header d ++ r.labelsAt narrow d.labels ++ String.join (d.notes.map r.note)

/-- `renderAll` with such labels. -/
def renderAllAt (r : Renderer) (narrow : Nat) (ds : List Diagnostic) : String :=
  String.join (ds.map fun d => r.renderAt narrow d ++ "\n") ++
    summary (ds.filter fun d => d.severity == .error).length

theorem labelsAt_zero (r : Renderer) (ls : List Label) : r.labelsAt 0 ls = r.labels ls := by
  cases ls <;> rfl

theorem renderAllAt_zero (r : Renderer) (ds : List Diagnostic) :
    r.renderAllAt 0 ds = r.renderAll ds := by
  simp only [renderAllAt, renderAt, labelsAt_zero]
  rfl

section Width

variable {r : Renderer} {narrow : Nat}

theorem length_join_le {α : Type} {f g : α → String} {as : List α}
    (h : ∀ a ∈ as, (f a).length ≤ (g a).length) :
    (String.join (as.map f)).length ≤ (String.join (as.map g)).length := by
  induction as with
  | nil => exact Nat.le_refl _
  | cons a as ih =>
    simp only [List.map_cons, String.join_cons, String.length_append]
    exact Nat.add_le_add (h a List.mem_cons_self) (ih fun b hb => h b (List.mem_cons_of_mem _ hb))

theorem length_join_lt {α : Type} {f g : α → String} {as : List α}
    (h : ∀ a ∈ as, (f a).length ≤ (g a).length) {a : α} (ha : a ∈ as)
    (hlt : (f a).length < (g a).length) :
    (String.join (as.map f)).length < (String.join (as.map g)).length := by
  obtain ⟨before, after, rfl⟩ := List.append_of_mem ha
  have hbefore := length_join_le fun b hb => h b (List.mem_append_left _ hb)
  have hafter := length_join_le fun b hb =>
    h b (List.mem_append_right _ (List.mem_cons_of_mem _ hb))
  simp only [List.map_append, List.map_cons, String.join_append, String.join_cons,
    String.length_append]
  omega

/-- The width of its column is all that the place of a number changes. -/
theorem exists_labelAt (r : Renderer) (gutter : Nat) (l : Label) : ∃ tail, ∀ narrow,
    r.labelAt narrow gutter l =
      padLeft (gutter - narrow) (r.accent (toString (positionOf r.source l.span.start).line)) ++
        tail := by
  obtain ⟨text, htext⟩ := exists_lineText? r.source l.span.start
  simp only [labelAt, htext, String.append_assoc]
  exact ⟨_, fun _ => rfl⟩

theorem length_labelAt_le (r : Renderer) (narrow gutter : Nat) (l : Label) :
    (r.labelAt narrow gutter l).length ≤ (r.labelAt 0 gutter l).length := by
  obtain ⟨tail, htail⟩ := r.exists_labelAt gutter l
  simp only [htail, String.length_append, length_padLeft]
  omega

/-- Without colours there is a blank before the number of the first label, unless the column is
    narrower than the gutter. -/
theorem length_labelAt_lt (hcolor : r.color = false) (hnarrow : 0 < narrow) (l : Label) :
    let gutter := (toString (positionOf r.source l.span.start).line).length + 1
    (r.labelAt narrow gutter l).length < (r.labelAt 0 gutter l).length := by
  intro gutter
  obtain ⟨tail, htail⟩ := r.exists_labelAt gutter l
  simp only [htail, accent, paint_of_plain hcolor, String.length_append, length_padLeft]
  omega

theorem length_labelsAt_le (r : Renderer) (narrow : Nat) (ls : List Label) :
    (r.labelsAt narrow ls).length ≤ (r.labelsAt 0 ls).length := by
  cases ls with
  | nil => exact Nat.le_refl _
  | cons first rest =>
    simp only [labelsAt, String.length_append]
    refine Nat.add_le_add_right (Nat.add_le_add_left (length_join_le fun l _ => ?_) _) _
    exact r.length_labelAt_le narrow _ l

theorem length_labelsAt_lt (hcolor : r.color = false) (hnarrow : 0 < narrow) {ls : List Label}
    (hls : ls ≠ []) : (r.labelsAt narrow ls).length < (r.labelsAt 0 ls).length := by
  obtain ⟨first, rest, rfl⟩ := List.exists_cons_of_ne_nil hls
  simp only [labelsAt, String.length_append]
  refine Nat.add_lt_add_right (Nat.add_lt_add_left ?_ _) _
  exact length_join_lt (fun l _ => r.length_labelAt_le narrow _ l) List.mem_cons_self
    (length_labelAt_lt hcolor hnarrow first)

/-- A narrower column changes the rendering of every diagnostic with a label. -/
theorem renderAllAt_eq_iff (hcolor : r.color = false) (hnarrow : 0 < narrow)
    {ds : List Diagnostic} :
    r.renderAllAt narrow ds = r.renderAll ds ↔ ∀ d ∈ ds, d.labels = [] := by
  rw [← renderAllAt_zero]
  constructor
  · -- No text gets longer, and that of a diagnostic with a label gets shorter.
    intro heq d hd
    by_contra hlabels
    refine absurd (congrArg String.length heq) (Nat.ne_of_lt ?_)
    rw [renderAllAt, renderAllAt, String.length_append, String.length_append]
    refine Nat.add_lt_add_right (length_join_lt (fun e _ => ?_) hd ?_) _
    · simpa [renderAt] using r.length_labelsAt_le narrow e.labels
    · simpa [renderAt] using length_labelsAt_lt hcolor hnarrow hlabels
  · intro hlabels
    have htexts : ∀ d ∈ ds, r.renderAt narrow d = r.renderAt 0 d := fun d hd => by
      rw [renderAt, renderAt, hlabels d hd]
      rfl
    rw [renderAllAt, renderAllAt, List.map_congr_left fun d hd => by rw [htexts d hd]]

end Width

/-! ## Painted texts -/

theorem escape_not_mem_toDigits (n : Nat) : '\x1b' ∉ Nat.toDigits 10 n := fun h =>
  absurd (Nat.isDigit_of_mem_toDigits (by decide) (by decide) h) (by decide)

theorem escape_not_mem_toString (n : Nat) : '\x1b' ∉ (toString n).toList := by
  simpa using escape_not_mem_toDigits n

theorem shows_times (n : Nat) {c : Char} (h : c ≠ '\x1b') : Ink.Shows (times n c) (times n c) :=
  Ink.shows_self (by simp [Ne.symm h])

theorem shows_paint (r : Renderer) (inks : List Ink) {s t : String} (h : Ink.Shows s t) :
    Ink.Shows (r.paint inks s) t := by
  rw [paint]
  split
  · induction inks with
    | nil => exact h
    | cons ink inks ih => exact ih.paint ink
  · exact h

theorem shows_accent (r : Renderer) {s : String} (h : '\x1b' ∉ s.toList) :
    Ink.Shows (r.accent s) s :=
  r.shows_paint _ (Ink.shows_self h)

/-- The sequences around a painted text count as ten characters of its width. -/
theorem shows_padLeft_accent {r : Renderer} (hcolor : r.color = true) (gutter : Nat) {s : String}
    (h : '\x1b' ∉ s.toList) :
    Ink.Shows (padLeft gutter (r.accent s)) (padLeft (gutter - 10) s) := by
  have hwidth : gutter - (r.accent s).length = gutter - 10 - s.length := by
    have hlength : (r.accent s).length = s.length + 10 := by
      simp only [accent, paint, hcolor, if_true, List.foldr_cons, List.foldr_nil, Ink.paint,
        Ink.sequence, String.length_append]
      change 5 + s.length + 5 = _
      omega
    omega
  rw [padLeft, padLeft, hwidth]
  exact (shows_times _ (by decide)).append (r.shows_accent h)

section Shows

variable {source : List Char} {file : String}

theorem shows_header {d : Diagnostic} (hd : d.Unescaped) :
    Ink.Shows ((⟨source, file, true⟩ : Renderer).header d)
      ((⟨source, file, false⟩ : Renderer).header d) := by
  have hseverity : '\x1b' ∉ d.severity.text.toList := by
    cases d.severity <;> decide
  have hline : ∀ {code : String}, '\x1b' ∉ code.toList →
      Ink.Shows ((⟨source, file, true⟩ : Renderer).paint [.bold, d.severity.ink] d.severity.text ++
        code ++ ": " ++ (⟨source, file, true⟩ : Renderer).paint [.bold] d.message ++ "\n")
        (d.severity.text ++ code ++ ": " ++ d.message ++ "\n") := fun hcode =>
    shows_paint _ _ (Ink.shows_self hseverity)
      |>.append (Ink.shows_self hcode)
      |>.append (Ink.shows_self (by decide))
      |>.append (shows_paint _ _ (Ink.shows_self hd.message))
      |>.append (Ink.shows_self (by decide))
  cases hcode : d.code with
  | none =>
    simp only [header, hcode]
    exact hline (by decide)
  | some code =>
    simp only [header, hcode]
    exact hline (by simpa using hd.code code hcode)

theorem shows_underline (start : Position) (carets : Nat) {message : String}
    (h : '\x1b' ∉ message.toList) :
    Ink.Shows (underline start carets message) (underline start carets message) := by
  refine Ink.shows_self ?_
  rw [underline]
  split <;> simp [h]

theorem shows_label (hsource : '\x1b' ∉ source) (gutter : Nat) {l : Label}
    (hl : '\x1b' ∉ l.message.toList) :
    Ink.Shows ((⟨source, file, true⟩ : Renderer).label gutter l)
      ((⟨source, file, false⟩ : Renderer).labelAt 10 gutter l) := by
  obtain ⟨text, htext⟩ := exists_lineText? source l.span.start
  have hline : '\x1b' ∉ (String.ofList text).toList := fun hmem =>
    hsource (mem_of_mem_lineText? htext (by simpa using hmem))
  have hblank : Ink.Shows " " " " := Ink.shows_self (by decide)
  have hnewline : Ink.Shows "\n" "\n" := Ink.shows_self (by decide)
  have hbar : Ink.Shows ((⟨source, file, true⟩ : Renderer).accent "|") "|" :=
    shows_accent _ (by decide)
  simp only [label, labelAt, htext]
  exact shows_padLeft_accent rfl gutter (escape_not_mem_toString _)
    |>.append hblank |>.append hbar |>.append hblank
    |>.append (Ink.shows_self hline) |>.append hnewline
    |>.append (shows_times gutter (by decide))
    |>.append hblank |>.append hbar |>.append hblank
    |>.append (shows_paint _ _ (shows_underline _ _ hl)) |>.append hnewline

theorem shows_labels (hsource : '\x1b' ∉ source) (hfile : '\x1b' ∉ file.toList)
    {ls : List Label} (hls : ∀ l ∈ ls, '\x1b' ∉ l.message.toList) :
    Ink.Shows ((⟨source, file, true⟩ : Renderer).labels ls)
      ((⟨source, file, false⟩ : Renderer).labelsAt 10 ls) := by
  cases ls with
  | nil => exact Ink.shows_self (s := "") (by decide)
  | cons first rest =>
    have hcolon : Ink.Shows ":" ":" := Ink.shows_self (by decide)
    have hnumber : ∀ n : Nat, Ink.Shows (toString n) (toString n) := fun n =>
      Ink.shows_self (escape_not_mem_toString n)
    have hbar : ∀ n, Ink.Shows
        (times n ' ' ++ " " ++ (⟨source, file, true⟩ : Renderer).accent "|" ++ "\n")
        (times n ' ' ++ " " ++ "|" ++ "\n") := fun n =>
      shows_times n (by decide)
        |>.append (Ink.shows_self (by decide))
        |>.append (shows_accent _ (by decide))
        |>.append (Ink.shows_self (by decide))
    exact shows_times _ (by decide)
      |>.append (shows_accent _ (by decide))
      |>.append (Ink.shows_self (by decide))
      |>.append (Ink.shows_self hfile)
      |>.append hcolon |>.append (hnumber _)
      |>.append hcolon |>.append (hnumber _)
      |>.append (Ink.shows_self (by decide))
      |>.append (hbar _)
      |>.append (Ink.Shows.join fun l hl => shows_label hsource _ (hls l hl))
      |>.append (hbar _)

theorem shows_render (hsource : '\x1b' ∉ source) (hfile : '\x1b' ∉ file.toList)
    {d : Diagnostic} (hd : d.Unescaped) :
    Ink.Shows ((⟨source, file, true⟩ : Renderer).render d)
      ((⟨source, file, false⟩ : Renderer).renderAt 10 d) := by
  refine shows_header hd |>.append (shows_labels hsource hfile hd.labels)
    |>.append (Ink.Shows.join fun note hnote => ?_)
  exact Ink.shows_self (by decide)
    |>.append (shows_accent _ (by decide))
    |>.append (Ink.shows_self (by decide))
    |>.append (Ink.shows_self (hd.notes note hnote))
    |>.append (Ink.shows_self (by decide))

theorem shows_summary (errors : Nat) : Ink.Shows (summary errors) (summary errors) := by
  refine Ink.shows_self ?_
  rw [summary]
  split
  · decide
  · have hword : '\x1b' ∉ (if errors = 1 then " error" else " errors").toList := by
      split <;> decide
    simp [hword, escape_not_mem_toDigits]

theorem shows_renderAll (hsource : '\x1b' ∉ source) (hfile : '\x1b' ∉ file.toList)
    {ds : List Diagnostic} (hds : ∀ d ∈ ds, d.Unescaped) :
    Ink.Shows ((⟨source, file, true⟩ : Renderer).renderAll ds)
      ((⟨source, file, false⟩ : Renderer).renderAllAt 10 ds) :=
  (Ink.Shows.join fun d hd =>
    (shows_render hsource hfile (hds d hd)).append (Ink.shows_self (by decide)))
    |>.append (shows_summary _)

end Shows

/-! ## With and without colours -/

/-- Without its sequences, a rendering with colours is the one without colours whose line numbers
    stand in a column that is ten characters narrower. Any label makes that a different text. -/
theorem strip_renderAll (source : List Char) (file : String) (ds : List Diagnostic)
    (hsource : '\x1b' ∉ source) (hfile : '\x1b' ∉ file.toList)
    (hds : ∀ d ∈ ds, d.Unescaped) :
    let coloured : Renderer := ⟨source, file, true⟩
    let plain : Renderer := ⟨source, file, false⟩
    Ink.strip (coloured.renderAll ds) = plain.renderAllAt 10 ds ∧
      (Ink.strip (coloured.renderAll ds) = plain.renderAll ds ↔ ∀ d ∈ ds, d.labels = []) := by
  intro coloured plain
  have hstrip := (shows_renderAll hsource hfile hds).strip_eq
  refine ⟨hstrip, ?_⟩
  rw [hstrip]
  exact renderAllAt_eq_iff rfl (by decide)

/-- A warning without a label and an error with one. -/
theorem strip_renderAll_of_label :
    let coloured : Renderer := ⟨"let é;\nx".toList, "f", true⟩
    let plain : Renderer := ⟨"let é;\nx".toList, "f", false⟩
    let ds := [.warning "w", .errorAt "E0201" "m" ⟨8, 9⟩ "here"]
    (∀ d ∈ ds, d.Unescaped) ∧ Ink.strip (coloured.renderAll ds) = plain.renderAllAt 10 ds ∧
      Ink.strip (coloured.renderAll ds) ≠ plain.renderAll ds := by
  intro coloured plain ds
  have hds : ∀ d ∈ ds, d.Unescaped := by
    intro d hd
    simp only [ds, List.mem_cons, List.not_mem_nil, or_false] at hd
    obtain rfl | rfl := hd
    · exact ⟨nofun, by decide, nofun, nofun⟩
    · exact ⟨by decide, by decide, by decide, nofun⟩
  obtain ⟨hstrip, hsame⟩ := strip_renderAll "let é;\nx".toList "f" ds (by decide) (by decide) hds
  exact ⟨hds, hstrip, fun heq => absurd (hsame.mp heq) (by decide)⟩

/-- The number of a line has a blank before it only without colours. -/
theorem strip_renderAll_ne :
    let d : Diagnostic := ⟨.error, none, "m", [⟨⟨0, 1⟩, "here"⟩], []⟩
    d.Unescaped ∧ Ink.strip ((⟨['x'], "f", true⟩ : Renderer).renderAll [d]) ≠
      (⟨['x'], "f", false⟩ : Renderer).renderAll [d] := by
  intro d
  have hd : d.Unescaped := ⟨nofun, by decide, by decide, nofun⟩
  have hcoloured : Ink.strip ((⟨['x'], "f", true⟩ : Renderer).renderAll [d]) =
      "error: m\n --> f:1:1\n   |\n1 | x\n   | ^ here\n   |\n\n" ++
        "error: aborting due to 1 error\n" := by
    rw [(shows_renderAll (by decide) (by decide) (by simpa using hd)).strip_eq]
    decide
  have hplain : (⟨['x'], "f", false⟩ : Renderer).renderAll [d] =
      "error: m\n --> f:1:1\n   |\n 1 | x\n   | ^ here\n   |\n\n" ++
        "error: aborting due to 1 error\n" := by
    decide
  refine ⟨hd, ?_⟩
  rw [hcoloured, hplain]
  decide

end Renderer

end Respell
