-- SUMMARY: Byte ranges of a source text.

/-!
# Spans

A span is a range of byte offsets. Spans made by hand may run backwards, so nothing here assumes
`start ≤ stop`.
-/

namespace Respell

/-- A byte range of the source, from `start` up to `stop`. -/
structure Span where
  start : Nat
  stop : Nat
deriving Repr, DecidableEq, Inhabited

namespace Span

/-- The span from the smaller start to the greater stop. -/
def merge (a b : Span) : Span :=
  ⟨min a.start b.start, max a.stop b.stop⟩

/-- The span moved right by `n` bytes. -/
def shift (n : Nat) (s : Span) : Span :=
  ⟨s.start + n, s.stop + n⟩

theorem shift_merge (n : Nat) (a b : Span) :
    (a.merge b).shift n = (a.shift n).merge (b.shift n) := by
  simp [merge, shift, Nat.add_min_add_right, Nat.add_max_add_right]

end Span

end Respell
