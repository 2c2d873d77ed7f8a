-- SUMMARY: Byte sizes of texts, their order, and reading back a text that was cut at some byte.

/-!
# Bytes of a text

Spans and writers count the bytes of the UTF-8 form. `size` measures a list of characters,
`precedes` compares texts byte by byte, and `decodeCut` reads bytes that start as UTF-8 and may end
in the middle of a character.
-/

namespace Respell.Text

/-- The number of bytes that the characters take in UTF-8. -/
def size : List Char → Nat
  | [] => 0
  | c :: cs => c.utf8Size + size cs

@[simp] theorem size_nil : size [] = 0 := rfl

@[simp] theorem size_cons (c : Char) (cs : List Char) : size (c :: cs) = c.utf8Size + size cs := rfl

@[simp] theorem size_append (as bs : List Char) : size (as ++ bs) = size as + size bs := by
  induction as with
  | nil => simp
  | cons a as ih => simp [ih, Nat.add_assoc]

/-- Every character takes at least one byte. -/
theorem length_le_size (cs : List Char) : cs.length ≤ size cs := by
  induction cs with
  | nil => simp
  | cons c cs ih =>
    have := c.utf8Size_pos
    simp only [List.length_cons, size_cons]
    omega

@[simp] theorem size_eq_zero_iff {cs : List Char} : size cs = 0 ↔ cs = [] := by
  constructor
  · intro h
    have := length_le_size cs
    exact List.length_eq_zero_iff.mp (by omega)
  · rintro rfl
    rfl

/-- A text is cut at one place if the bytes before it are as many. -/
theorem append_inj_of_size {as bs cs ds : List Char} (h : as ++ bs = cs ++ ds)
    (hsize : size as = size cs) : as = cs ∧ bs = ds := by
  obtain ⟨es, rfl, rfl⟩ | ⟨es, rfl, rfl⟩ := List.append_eq_append_iff.mp h
  · rw [size_append] at hsize
    obtain rfl := size_eq_zero_iff.mp (show size es = 0 by omega)
    simp
  · rw [size_append] at hsize
    obtain rfl := size_eq_zero_iff.mp (show size es = 0 by omega)
    simp

/-- The bytes of a text. -/
def bytes (s : String) : List UInt8 :=
  s.toUTF8.data.toList

/-- Whether the first text comes before the second: at the first byte in which they differ it has
    the smaller one, or it ends there. -/
def precedes (a b : String) : Bool :=
  decide (bytes a < bytes b)

/-- The text of some bytes, if they are UTF-8. -/
def decode? (bytes : List UInt8) : Option String :=
  String.fromUTF8? ⟨bytes.toArray⟩

/-- The text of bytes that were UTF-8 before the end was cut off. A character takes four bytes at
    most, so at most three bytes of one can be left; they are shown by a replacement character. -/
def decodeCut (bytes : List UInt8) : Option String :=
  match decode? bytes with
  | some s => some s
  | none =>
    [1, 2, 3].findSome? fun n =>
      (decode? (bytes.take (bytes.length - n))).map (· ++ "\uFFFD")

end Respell.Text
