-- SUMMARY: A line and a column stand for one offset between characters, and grow with it.
import Mathlib.Algebra.GroupWithZero.Nat
import Mathlib.Data.Prod.Lex
import Mathlib.Order.Lattice.Nat
import Respell.Proofs.Positions

/-!
# Offsets of positions

An offset inside a character has the position of the end of that character, so only offsets between
characters matter. Such an offset can be computed from its position again: it is the bytes of the
lines above, with their line feeds, and of the characters to the left. Positions are ordered by line
and then by column, and grow with the offset.
-/

namespace Respell

open Text (size)

/-- The offset lies between two characters, or at an end of the source. -/
def Boundary (source : List Char) (offset : Nat) : Prop :=
  ∃ front rest, source = front ++ rest ∧ offset = size front

namespace Position

/-- The order of positions: by line, and on a line by column. -/
def key (p : Position) : ℕ ×ₗ ℕ :=
  toLex (p.line, p.column)

/-- The position is on a line of the source, or right behind it, and the offset counts what stands
    before it: the bytes of the lines above, each with its line feed, and those of the characters
    to the left. -/
def Locates (p : Position) (source : List Char) (offset : Nat) : Prop :=
  ∃ above line below, source.splitOn '\n' = above ++ line :: below ∧
    p.line = above.length + 1 ∧ 1 ≤ p.column ∧ p.column - 1 ≤ line.length ∧
    offset = (above.map fun l => size l + 1).sum + size (line.take (p.column - 1))

/-! ## Positions grow -/

theorem key_lt_next (p : Position) (c : Char) : p.key < (p.next c).key := by
  rw [key, key, Prod.Lex.toLex_lt_toLex, next]
  split
  · exact .inl (Nat.lt_succ_self _)
  · exact .inr ⟨rfl, Nat.lt_succ_self _⟩

theorem key_le_after (p : Position) (cs : List Char) : p.key ≤ (p.after cs).key := by
  induction cs generalizing p with
  | nil => exact le_rfl
  | cons c cs ih => exact (p.key_lt_next c).le.trans (ih _)

theorem key_lt_after (p : Position) {cs : List Char} (h : cs ≠ []) :
    p.key < (p.after cs).key := by
  cases cs with
  | nil => exact absurd rfl h
  | cons c cs => exact (p.key_lt_next c).trans_le (key_le_after _ cs)

/-- A greater offset is found at the same place or further on. -/
theorem key_seek_le {offset offset' : Nat} (h : offset ≤ offset') (cs : List Char) (here : Nat)
    (p : Position) : (seek offset cs here p).key ≤ (seek offset' cs here p).key := by
  induction cs generalizing here p with
  | nil => exact le_rfl
  | cons c cs ih =>
    by_cases hhere : offset ≤ here
    · obtain ⟨front, rest, -, hseek⟩ := exists_seek offset' (c :: cs) here p
      rw [seek_of_le hhere, hseek]
      exact p.key_le_after front
    · rw [seek, seek, if_neg hhere, if_neg (fun hle => hhere (h.trans hle))]
      exact ih _ _

/-! ## Offsets inside characters -/

/-- Only the offsets right before characters are compared with. -/
theorem seek_congr {offset offset' : Nat} {cs : List Char} {here : Nat}
    (h : ∀ front c rest, cs = front ++ c :: rest →
      (offset ≤ here + size front ↔ offset' ≤ here + size front)) (p : Position) :
    seek offset cs here p = seek offset' cs here p := by
  induction cs generalizing here p with
  | nil => rfl
  | cons c cs ih =>
    have hfirst := h [] c cs rfl
    rw [Text.size_nil, Nat.add_zero] at hfirst
    simp only [seek, hfirst]
    split
    · rfl
    · refine ih (fun front d rest hcs => ?_) _
      have hlater := h (c :: front) d rest (by rw [hcs]; rfl)
      rwa [Text.size_cons, ← Nat.add_assoc] at hlater

end Position

theorem boundary_size (source : List Char) : Boundary source (size source) :=
  ⟨source, [], (List.append_nil source).symm, rfl⟩

/-- An offset within the source has a first one at or behind it that lies between characters. -/
theorem exists_isLeast_boundary {source : List Char} {offset : Nat} (h : offset ≤ size source) :
    ∃ b, IsLeast {b | Boundary source b ∧ offset ≤ b} b :=
  ⟨_, Nat.sInf_mem ⟨size source, boundary_size source, h⟩, fun _ => Nat.sInf_le⟩

/-- An offset has the position of the first one at or behind it that lies between characters. -/
theorem positionOf_of_isLeast {source : List Char} {offset b : Nat}
    (h : IsLeast {b | Boundary source b ∧ offset ≤ b} b) :
    positionOf source offset = positionOf source b := by
  refine Position.seek_congr (fun front c rest hsource => ?_) _
  rw [Nat.zero_add]
  exact ⟨fun hle => h.2 ⟨⟨front, c :: rest, hsource, rfl⟩, hle⟩, h.1.2.trans⟩

/-- An offset past the end has the position of the end. -/
theorem positionOf_of_size_le {source : List Char} {offset : Nat} (h : size source ≤ offset) :
    positionOf source offset = positionOf source (size source) := by
  refine Position.seek_congr (fun front c rest hsource => ?_) _
  have hbefore : size front < size source := by
    have hpos := c.utf8Size_pos
    rw [hsource, Text.size_append, Text.size_cons]
    omega
  omega

/-! ## Lines and bytes -/

theorem length_splitOn (cs : List Char) : (cs.splitOn '\n').length = cs.count '\n' + 1 := by
  induction cs with
  | nil => rfl
  | cons c cs ih =>
    rw [List.splitOn_cons_eq_if_modifyHead, List.count_cons]
    split
    · rw [List.length_cons, ih]
    · rw [List.length_modifyHead, ih, Nat.add_zero]

/-- The lines with a line feed each are one line feed longer than the text. -/
theorem sum_size_splitOn (cs : List Char) :
    ((cs.splitOn '\n').map fun l => size l + 1).sum = size cs + 1 := by
  induction cs with
  | nil => rfl
  | cons c cs ih =>
    obtain ⟨line, lines, hlines⟩ := List.exists_cons_of_ne_nil (List.splitOn_ne_nil '\n' cs)
    rw [hlines] at ih
    rw [List.splitOn_cons_eq_if_modifyHead, hlines]
    simp only [List.map_cons, List.sum_cons] at ih
    split
    · next hc =>
      obtain rfl : c = '\n' := by simpa using hc
      have hsize : '\n'.utf8Size = 1 := rfl
      simp only [List.map_cons, List.sum_cons, Text.size_nil, Text.size_cons, hsize]
      omega
    · simp only [List.modifyHead_cons, List.map_cons, List.sum_cons, Text.size_cons]
      omega

/-- Whole lines are the first lines of every text that starts with them. -/
theorem WholeLines.exists_lines {above : List Char} (h : WholeLines above) :
    ∃ lines : List (List Char), lines.length = above.count '\n' ∧
      (lines.map fun l => size l + 1).sum = size above ∧
      ∀ rest, (above ++ rest).splitOn '\n' = lines ++ rest.splitOn '\n' := by
  cases above using List.reverseRecOn with
  | nil => exact ⟨[], rfl, rfl, fun rest => rfl⟩
  | append_singleton cs c =>
    obtain rfl : c = '\n' := h c (by simp)
    refine ⟨cs.splitOn '\n', ?_, ?_, fun rest => ?_⟩
    · rw [length_splitOn, List.count_append]
      rfl
    · rw [sum_size_splitOn, Text.size_append]
      rfl
    · rw [List.append_assoc, List.singleton_append, List.splitOn_append_cons_self]

/-- The start of a line is the start of the first line of what begins there. -/
theorem exists_first_line {left : List Char} (h : '\n' ∉ left) (rest : List Char) :
    ∃ more below, (left ++ rest).splitOn '\n' = (left ++ more) :: below := by
  induction left with
  | nil => exact List.exists_cons_of_ne_nil (List.splitOn_ne_nil '\n' rest)
  | cons c left ih =>
    obtain ⟨hc, hleft⟩ := not_or.mp (mt List.mem_cons.mpr h)
    obtain ⟨more, below, hlines⟩ := ih hleft
    refine ⟨more, below, ?_⟩
    rw [List.cons_append, List.splitOn_cons_eq_if_modifyHead, if_neg (by simpa using Ne.symm hc),
      hlines, List.modifyHead_cons, List.cons_append]

/-- The position of an offset between characters locates it. -/
theorem Boundary.locates {source : List Char} {offset : Nat} (h : Boundary source offset) :
    (positionOf source offset).Locates source offset := by
  obtain ⟨front, rest, rfl, rfl⟩ := h
  obtain ⟨above, left, rfl, habove, hleft⟩ := exists_wholeLines front
  obtain ⟨lines, hlength, hsum, hlines⟩ := habove.exists_lines
  obtain ⟨more, below, hline⟩ := exists_first_line hleft rest
  rw [positionOf_append, after_lines habove hleft]
  refine ⟨lines, left ++ more, below, ?_, ?_, Nat.le_add_left _ _, ?_, ?_⟩
  · rw [List.append_assoc, hlines, hline]
  · rw [hlength]
  · rw [Nat.add_sub_cancel, List.length_append]
    exact Nat.le_add_right _ _
  · rw [hsum, Nat.add_sub_cancel, List.take_left, Text.size_append]

/-! ## Offsets in order -/

/-- Of two offsets between characters, the smaller one has the smaller position. -/
theorem strictMonoOn_key (source : List Char) :
    StrictMonoOn (fun o => (positionOf source o).key) {o | Boundary source o} := by
  rintro _ ⟨front, rest, rfl, rfl⟩ _ ⟨front', rest', hsource, rfl⟩ hlt
  -- The longer of two beginnings of the source goes on where the shorter one stops.
  obtain ⟨more, rfl⟩ : front <+: front' := by
    rcases List.prefix_or_prefix_of_prefix (List.prefix_append front rest)
      (hsource ▸ List.prefix_append front' rest') with hprefix | ⟨more, rfl⟩
    · exact hprefix
    · rw [Text.size_append] at hlt
      omega
  have hmore : more ≠ [] := by
    rintro rfl
    rw [List.append_nil] at hlt
    exact lt_irrefl _ hlt
  have hafter := Position.key_lt_after ((⟨1, 1⟩ : Position).after front) hmore
  rw [← Position.after_append, ← positionOf_append front rest,
    ← positionOf_append (front ++ more) rest', ← hsource] at hafter
  exact hafter

/-- No two offsets between characters have the same position. -/
theorem injOn_positionOf (source : List Char) :
    Set.InjOn (positionOf source) {o | Boundary source o} := by
  intro o ho o' ho' heq
  exact (strictMonoOn_key source).injOn ho ho' (congrArg Position.key heq)

/-- The line and the column of an offset are those of the first one at or behind it that lies
    between characters, or of the end. From the position of an offset between characters the offset
    can be computed again, and no other has it; a greater offset has a greater position. -/
theorem position_identifies_offset (source : List Char) :
    (∀ o ≤ size source, ∃ b, IsLeast {b | Boundary source b ∧ o ≤ b} b ∧
      positionOf source o = positionOf source b) ∧
    (∀ o, size source < o → positionOf source o = positionOf source (size source)) ∧
    (∀ o, Boundary source o → (positionOf source o).Locates source o) ∧
    Set.InjOn (positionOf source) {o | Boundary source o} ∧
    StrictMonoOn (fun o => (positionOf source o).key) {o | Boundary source o} ∧
    Monotone fun o => (positionOf source o).key := by
  refine ⟨fun o ho => ?_, fun o ho => positionOf_of_size_le ho.le, fun o ho => ho.locates,
    injOn_positionOf source, strictMonoOn_key source, fun o o' hle => ?_⟩
  · obtain ⟨b, hb⟩ := exists_isLeast_boundary ho
    exact ⟨b, hb, positionOf_of_isLeast hb⟩
  · exact Position.key_seek_le hle source 0 ⟨1, 1⟩

/-- The second byte of the clef has the position of the character behind it, and that is on the
    second line, behind two characters of two and four bytes. -/
theorem position_identifies_offset_inside_clef :
    5 ≤ size "x\né𝄞y".toList ∧ Boundary "x\né𝄞y".toList 8 ∧
      (∃ b, IsLeast {b | Boundary "x\né𝄞y".toList b ∧ 5 ≤ b} b ∧
        positionOf "x\né𝄞y".toList 5 = positionOf "x\né𝄞y".toList b) ∧
      (⟨2, 3⟩ : Position).Locates "x\né𝄞y".toList 8 := by
  have hsize : 5 ≤ size "x\né𝄞y".toList := by decide
  have hboundary : Boundary "x\né𝄞y".toList 8 :=
    ⟨"x\né𝄞".toList, "y".toList, by decide, by decide⟩
  obtain ⟨hceiling, -, hlocates, -⟩ := position_identifies_offset "x\né𝄞y".toList
  exact ⟨hsize, hboundary, hceiling 5 hsize, hlocates 8 hboundary⟩

end Respell
