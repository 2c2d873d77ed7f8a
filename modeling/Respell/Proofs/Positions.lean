-- SUMMARY: The line and the column of an offset count line feeds and characters before it.
import Mathlib.Data.List.Basic
import Mathlib.Data.List.Induction
import Respell.Position
import Respell.Proofs.Lexing.Lexemes

/-!
# Lines and columns

The text before an offset is some whole lines and the start of one more. The line of the offset is
the number of the first, and its column the number of characters of the second, each plus one. The
line is then found again by its number, whatever the offset is.
-/

namespace Respell

open Text (size)

/-- No text, or lines that end with a line feed each. -/
def WholeLines (cs : List Char) : Prop :=
  ∀ c ∈ cs.getLast?, c = '\n'

theorem wholeLines_nil : WholeLines [] := nofun

theorem wholeLines_newline (cs : List Char) : WholeLines (cs ++ ['\n']) := by
  simp [WholeLines]

/-- Every text is some whole lines and the start of one more. -/
theorem exists_wholeLines (cs : List Char) :
    ∃ above left, cs = above ++ left ∧ WholeLines above ∧ '\n' ∉ left := by
  induction cs using List.reverseRecOn with
  | nil => exact ⟨[], [], rfl, wholeLines_nil, by simp⟩
  | append_singleton cs c ih =>
    by_cases hc : c = '\n'
    · exact ⟨cs ++ [c], [], by simp, hc ▸ wholeLines_newline cs, by simp⟩
    · obtain ⟨above, left, rfl, habove, hleft⟩ := ih
      exact ⟨above, left ++ [c], by simp, habove, by simpa [hleft] using Ne.symm hc⟩

/-! ## Counting -/

namespace Position

/-- The position after a text. -/
def after (p : Position) (cs : List Char) : Position :=
  cs.foldl next p

@[simp] theorem after_cons (p : Position) (c : Char) (cs : List Char) :
    p.after (c :: cs) = (p.next c).after cs := rfl

theorem after_append (p : Position) (cs ds : List Char) :
    p.after (cs ++ ds) = (p.after cs).after ds :=
  List.foldl_append

theorem line_after (p : Position) (cs : List Char) :
    (p.after cs).line = p.line + cs.count '\n' := by
  induction cs generalizing p with
  | nil => rfl
  | cons c cs ih =>
    rw [after_cons, ih, next, List.count_cons]
    by_cases hc : c = '\n'
    · simp [hc]
      omega
    · simp [hc]

/-- Within a line only the column grows. -/
theorem after_of_not_mem (p : Position) {cs : List Char} (h : '\n' ∉ cs) :
    p.after cs = ⟨p.line, p.column + cs.length⟩ := by
  induction cs generalizing p with
  | nil => rfl
  | cons c cs ih =>
    simp only [List.mem_cons, not_or] at h
    rw [after_cons, next, if_neg (Ne.symm h.1), ih _ h.2, List.length_cons]
    simp only [Position.mk.injEq, true_and]
    omega

theorem after_wholeLines {cs : List Char} (h : WholeLines cs) :
    (⟨1, 1⟩ : Position).after cs = ⟨cs.count '\n' + 1, 1⟩ := by
  have hline := line_after ⟨1, 1⟩ cs
  have hcolumn : ((⟨1, 1⟩ : Position).after cs).column = 1 := by
    cases cs using List.reverseRecOn with
    | nil => rfl
    | append_singleton cs c =>
      obtain rfl : c = '\n' := h c (by simp)
      rw [after_append]
      rfl
  rw [Nat.add_comm] at hline
  exact congrArg₂ Position.mk hline hcolumn

/-! ## Offsets -/

theorem seek_of_le {offset here : Nat} (h : offset ≤ here) (cs : List Char) (p : Position) :
    seek offset cs here p = p := by
  cases cs with
  | nil => rfl
  | cons c cs => exact if_pos h

theorem seek_append (front rest : List Char) (here : Nat) (p : Position) :
    seek (here + size front) (front ++ rest) here p = p.after front := by
  induction front generalizing here p with
  | nil => exact seek_of_le (Nat.le_refl _) rest p
  | cons c front ih =>
    have hpos := c.utf8Size_pos
    rw [List.cons_append, seek, if_neg (by simp only [Text.size_cons]; omega), after_cons,
      ← ih, Text.size_cons, Nat.add_assoc]

/-- Whatever the offset, its position is that after some of the text. -/
theorem exists_seek (offset : Nat) (cs : List Char) (here : Nat) (p : Position) :
    ∃ front rest, cs = front ++ rest ∧ seek offset cs here p = p.after front := by
  induction cs generalizing here p with
  | nil => exact ⟨[], [], rfl, rfl⟩
  | cons c cs ih =>
    by_cases h : offset ≤ here
    · exact ⟨[], c :: cs, rfl, seek_of_le h _ p⟩
    · obtain ⟨front, rest, rfl, hseek⟩ := ih (here + c.utf8Size) (p.next c)
      exact ⟨c :: front, rest, rfl, by rw [seek, if_neg h, hseek, after_cons]⟩

end Position

theorem positionOf_append (front rest : List Char) :
    positionOf (front ++ rest) (size front) = (⟨1, 1⟩ : Position).after front := by
  rw [positionOf, ← Position.seek_append front rest 0 ⟨1, 1⟩, Nat.zero_add]

theorem after_lines {above left : List Char} (habove : WholeLines above) (hleft : '\n' ∉ left) :
    (⟨1, 1⟩ : Position).after (above ++ left) = ⟨above.count '\n' + 1, left.length + 1⟩ := by
  rw [Position.after_append, Position.after_wholeLines habove, Position.after_of_not_mem _ hleft,
    Nat.add_comm 1]

/-- Every offset has the position of the end of some text before it. -/
theorem exists_positionOf (source : List Char) (offset : Nat) :
    ∃ above left rest, source = above ++ (left ++ rest) ∧ WholeLines above ∧ '\n' ∉ left ∧
      positionOf source offset = ⟨above.count '\n' + 1, left.length + 1⟩ := by
  obtain ⟨front, rest, rfl, hseek⟩ := Position.exists_seek offset source 0 ⟨1, 1⟩
  obtain ⟨above, left, rfl, habove, hleft⟩ := exists_wholeLines front
  exact ⟨above, left, rest, List.append_assoc .., habove, hleft,
    hseek.trans (after_lines habove hleft)⟩

/-! ## Lines -/

theorem dropLines_append {above : List Char} (h : WholeLines above) (rest : List Char) :
    dropLines (above.count '\n') (above ++ rest) = some rest := by
  by_cases hnil : above = []
  · subst hnil
    rfl
  · have hmem : '\n' ∈ above := by
      have hlast := h _ (List.getLast?_eq_some_getLast hnil)
      exact hlast ▸ List.getLast_mem hnil
    obtain ⟨line, more, rfl, hline⟩ := List.eq_append_cons_of_mem hmem
    have hmore : WholeLines more := by
      intro c hc
      refine h c ?_
      have hne : more ≠ [] := by
        rintro rfl
        cases hc
      rwa [List.getLast?_append_of_ne_nil _ (List.cons_ne_nil _ _),
        List.getLast?_cons_of_ne_nil hne]
    have hstop : Text.Stops (· != '\n') ('\n' :: (more ++ rest)) := Text.stops_cons.mpr (by decide)
    have hdrop := hstop.dropWhile_append (Text.forall_bne hline)
    have hcount : (line ++ '\n' :: more).count '\n' = more.count '\n' + 1 := by
      simp [List.count_eq_zero.mpr hline]
    rw [hcount, List.append_assoc, List.cons_append, dropLines, hdrop]
    exact dropLines_append hmore rest
termination_by above.length

/-- A line without the carriage returns at its end. -/
def withoutReturns (line : List Char) : List Char :=
  (line.reverse.dropWhile (· == '\r')).reverse

theorem withoutReturns_of_not_mem {line : List Char} (h : '\r' ∉ line) :
    withoutReturns line = line := by
  have hstop : Text.Stops (· == '\r') line.reverse := by
    intro c hc
    rw [beq_eq_false_iff_ne]
    rintro rfl
    exact h (List.mem_reverse.mp (List.mem_of_mem_head? hc))
  rw [withoutReturns, ← List.nil_append line.reverse,
    hstop.dropWhile_append (List.forall_mem_nil _), List.reverse_reverse]

theorem lineText?_append {above line below : List Char} (habove : WholeLines above)
    (hline : '\n' ∉ line) (hbelow : Lexer.LineEnd below) :
    lineText? (above ++ (line ++ below)) (above.count '\n' + 1) = some (withoutReturns line) := by
  have hstop : Text.Stops (· != '\n') below := by
    obtain rfl | ⟨rest, rfl⟩ := hbelow
    · exact Text.stops_nil _
    · exact Text.stops_cons.mpr (by decide)
  have htake := hstop.takeWhile_append (Text.forall_bne hline)
  rw [lineText?, Nat.add_sub_cancel, dropLines_append habove, Option.map_some, htake,
    withoutReturns]

/-- The line of every offset is there. -/
theorem exists_lineText? (source : List Char) (offset : Nat) :
    ∃ text, lineText? source (positionOf source offset).line = some text := by
  obtain ⟨above, left, rest, rfl, habove, -, hposition⟩ := exists_positionOf source offset
  rw [hposition, lineText?, Nat.add_sub_cancel, dropLines_append habove]
  exact ⟨_, rfl⟩

theorem suffix_of_dropLines {n : Nat} {cs rest : List Char} (h : dropLines n cs = some rest) :
    rest <:+ cs := by
  induction n generalizing cs with
  | zero =>
    obtain rfl := Option.some.inj h
    exact List.suffix_rfl
  | succ n ih =>
    have hdrop := cs.dropWhile_suffix (· != '\n')
    rw [dropLines] at h
    split at h
    · cases h
    · rename_i c line heq
      rw [heq] at hdrop
      exact (ih h).trans ((List.suffix_cons c line).trans hdrop)

/-- The characters of a line are characters of the source. -/
theorem mem_of_mem_lineText? {source text : List Char} {n : Nat} {c : Char}
    (h : lineText? source n = some text) (hc : c ∈ text) : c ∈ source := by
  obtain ⟨rest, hrest, rfl⟩ := Option.map_eq_some_iff.mp h
  have hline := (List.dropWhile_suffix _).mem (List.mem_reverse.mp hc)
  exact (suffix_of_dropLines hrest).mem ((List.takeWhile_prefix _).mem (List.mem_reverse.mp hline))

end Respell
