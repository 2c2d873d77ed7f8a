-- SUMMARY: What lies ahead of a cursor, and how to reason about the reply of a parser.
import Mathlib.Data.List.TakeWhile
import Respell.Program.Cursor

/-!
# Cursors and replies

All that a parser can see of a cursor are the tokens up to the end of the input. `Cursor.Reads` says
that some of them lead from one cursor to another. `Reply.Meets` is a postcondition of a reply; its
rules take a parser apart step by step, so that no other proof unfolds `bind`.
-/

namespace Respell

namespace Kind

theorem eq_eof_of_isEof {k : Kind} (h : k.isEof = true) : k = .eof := by
  cases k <;> first | rfl | cases h

@[simp] theorem isSymbol_iff {k : Kind} {s : Symbol} : k.isSymbol s = true ↔ k = .symbol s := by
  cases k <;> simp [isSymbol]

@[simp] theorem isKeyword_iff {k : Kind} {r : Role} : k.isKeyword r = true ↔ k = .keyword r := by
  cases k <;> simp [isKeyword]

end Kind

/-! ## Cursors -/

namespace Cursor

/-- The kinds of the tokens from here up to the end of the input. -/
def ahead (c : Cursor) : List Kind :=
  ((c.current :: c.later).map Token.kind).takeWhile fun k => !k.isEof

/-- The end of the input comes at last. -/
def Closed (c : Cursor) : Prop :=
  ∃ t ∈ c.current :: c.later, t.kind.isEof = true

/-- The tokens that lead from one cursor to another. -/
def Reads (c : Cursor) (ks : List Kind) (after : Cursor) : Prop :=
  after.Closed ∧ c.ahead = ks ++ after.ahead

theorem ahead_eq_nil_iff {c : Cursor} : c.ahead = [] ↔ c.kind.isEof = true := by
  cases h : c.current.kind.isEof <;> simp [ahead, kind, h]

theorem kind_eq_headD (c : Cursor) : c.kind = c.ahead.headD .eof := by
  cases h : c.kind.isEof with
  | true => rw [ahead_eq_nil_iff.mpr h, Kind.eq_eof_of_isEof h]; rfl
  | false =>
    have hk : c.current.kind.isEof = false := h
    simp [ahead, kind, hk]

theorem Closed.length_ahead_le {c : Cursor} (h : c.Closed) : c.ahead.length ≤ c.later.length := by
  obtain ⟨t, ht, heof⟩ := h
  have hne : c.ahead.length ≠ ((c.current :: c.later).map Token.kind).length := by
    intro hlen
    have hall := (List.takeWhile_prefix fun k : Kind => !k.isEof).eq_of_length hlen
    rw [List.takeWhile_eq_self_iff] at hall
    simpa [heof] using hall t.kind (List.mem_map_of_mem ht)
  have hle := (List.takeWhile_prefix (l := (c.current :: c.later).map Token.kind)
    fun k : Kind => !k.isEof).length_le
  simp only [ahead, List.length_map, List.length_cons] at hne hle ⊢
  omega

theorem Closed.advance {c : Cursor} (h : c.Closed) : c.advance.Closed := by
  obtain ⟨t, ht, heof⟩ := h
  unfold Cursor.advance
  split
  · exact ⟨t, ht, heof⟩
  · next next later hl =>
    split
    · exact ⟨t, ht, heof⟩
    · next hne =>
      rcases List.mem_cons.mp ht with rfl | ht
      · exact absurd heof hne
      · exact ⟨t, hl ▸ ht, heof⟩

/-- One token is read. -/
theorem Closed.reads_advance {c : Cursor} (h : c.Closed) (hk : c.kind.isEof = false) :
    c.Reads [c.kind] c.advance := by
  refine ⟨h.advance, ?_⟩
  obtain ⟨t, ht, heof⟩ := h
  obtain ⟨index, previous, current, later⟩ := c
  have hne : t ≠ current := by
    rintro rfl
    rw [kind, heof] at hk
    cases hk
  cases later with
  | nil => exact absurd (List.mem_singleton.mp ht) hne
  | cons next later =>
    have hk' : current.kind.isEof = false := hk
    simp [Cursor.advance, ahead, kind, hk']

theorem Closed.reads_nil {c : Cursor} (h : c.Closed) : c.Reads [] c :=
  ⟨h, rfl⟩

theorem Reads.trans {c mid after : Cursor} {ks ls : List Kind} (h : c.Reads ks mid)
    (h' : mid.Reads ls after) : c.Reads (ks ++ ls) after :=
  ⟨h'.1, by rw [h.2, h'.2, List.append_assoc]⟩

theorem Reads.kind_eq {c after : Cursor} {ks : List Kind} (h : c.Reads ks after) :
    c.kind = ks.headD after.kind := by
  rw [kind_eq_headD, h.2, kind_eq_headD after]
  cases ks <;> rfl

theorem Reads.length_le {c after : Cursor} {ks : List Kind} (h : c.Reads ks after) :
    after.ahead.length + ks.length = c.ahead.length := by
  rw [h.2, List.length_append, Nat.add_comm]

/-- Reading what is ahead of a closed cursor. -/
theorem Closed.reads_of_ahead {c : Cursor} {k : Kind} {ks : List Kind} (h : c.Closed)
    (hk : c.ahead = k :: ks) : c.kind = k ∧ c.Reads [k] c.advance ∧ c.advance.ahead = ks := by
  have hkind : c.kind = k := by rw [kind_eq_headD, hk]; rfl
  have heof : c.kind.isEof = false := by
    rw [← Bool.not_eq_true, ← ahead_eq_nil_iff, hk]
    simp
  have hr := h.reads_advance heof
  rw [hkind] at hr
  refine ⟨hkind, hr, ?_⟩
  have := hr.2
  rw [hk] at this
  exact (List.cons.inj this).2.symm

theorem closed_ofTokens (tokens : List Token) : (ofTokens tokens).Closed := by
  unfold ofTokens
  cases tokens with
  | nil => exact ⟨_, List.mem_singleton_self _, rfl⟩
  | cons first rest =>
    dsimp only
    cases hl : (first :: rest).getLast? with
    | none => simp at hl
    | some last =>
      by_cases hc : last.kind.isEof = true
      · rw [if_pos hc]
        exact ⟨last, List.mem_of_getLast? hl, hc⟩
      · rw [if_neg hc]
        exact ⟨_, List.mem_cons_of_mem _ (List.mem_append_right _ (List.mem_singleton_self _)), rfl⟩

theorem ahead_ofTokens_eq {tokens : List Token} {ks : List Kind}
    (h : tokens.map Token.kind = ks ++ [.eof]) :
    (ofTokens tokens).ahead = ks.takeWhile fun k => !k.isEof := by
  cases tokens with
  | nil => simp at h
  | cons first rest =>
    have hlast : ∃ last, (first :: rest).getLast? = some last ∧ last.kind = .eof := by
      have := congrArg List.getLast? h
      rw [List.getLast?_map, List.getLast?_concat] at this
      exact Option.map_eq_some_iff.mp this
    obtain ⟨last, hl, hk⟩ := hlast
    have hclosed : last.kind.isEof = true := by rw [hk]; rfl
    simp only [ofTokens, hl, ahead, hclosed, if_true]
    rw [h, List.takeWhile_append]
    split
    · next hall =>
      rw [(List.takeWhile_prefix _).eq_of_length hall]
      simp [Kind.isEof]
    · rfl

theorem ahead_ofTokens {tokens : List Token} {ks : List Kind}
    (h : tokens.map Token.kind = ks ++ [.eof]) (heof : Kind.eof ∉ ks) :
    (ofTokens tokens).ahead = ks := by
  rw [ahead_ofTokens_eq h, List.takeWhile_eq_self_iff]
  intro k hk
  rw [Bool.not_eq_true', ← Bool.not_eq_true]
  intro he
  exact heof (Kind.eq_eof_of_isEof he ▸ hk)

end Cursor

/-! ## Replies -/

/-- The tree would be too deep. -/
def ParseError.TooDeep (e : ParseError) : Prop :=
  ∃ what, e.complaint = .tooDeep what

/-- A value and its cursor satisfy `Q`, and an error satisfies `E`. -/
def Reply.Meets {α : Type} (Q : α → Cursor → Prop) (E : ParseError → Prop) : Reply α → Prop
  | .ok a after => Q a after
  | .error e _ => E e

theorem Reply.Meets.mono {α : Type} {Q Q' : α → Cursor → Prop} {E E' : ParseError → Prop}
    {r : Reply α} (h : r.Meets Q E) (hQ : ∀ a after, Q a after → Q' a after)
    (hE : ∀ e, E e → E' e) : r.Meets Q' E' := by
  cases r with
  | ok a after => exact hQ a after h
  | error e place => exact hE e h

namespace Parser

variable {α β : Type} {Q : α → Cursor → Prop} {E : ParseError → Prop}

theorem meets_bind {p : Parser β} {f : β → Parser α} {c : Cursor} :
    ((p >>= f) c).Meets Q E ↔ (p c).Meets (fun b mid => (f b mid).Meets Q E) E := by
  change (Parser.bind p f c).Meets Q E ↔ _
  unfold Parser.bind
  cases p c <;> rfl

@[simp] theorem meets_wanted {what : Wanted} {c : Cursor} :
    ((wanted what : Parser α) c).Meets Q E ↔ E ⟨.wanted what c.kind, c.current.span⟩ := Iff.rfl

@[simp] theorem meets_tooDeep {what : Construct} {c : Cursor} :
    ((tooDeep what : Parser α) c).Meets Q E ↔ E ⟨.tooDeep what, c.current.span⟩ := Iff.rfl

theorem meets_eat {Q : Bool → Cursor → Prop} {s : Symbol} {c : Cursor} :
    (eat s c).Meets Q E ↔
      (c.kind = .symbol s → Q true c.advance) ∧ (c.kind ≠ .symbol s → Q false c) := by
  unfold eat
  by_cases h : c.kind = .symbol s
  · simp [h, Reply.Meets]
  · have hb : c.kind.isSymbol s = false := by simpa [← Bool.not_eq_true] using h
    simp [hb, h, Reply.Meets]

theorem meets_expect {Q : Span → Cursor → Prop} {s : Symbol} {c : Cursor} :
    (expect s c).Meets Q E ↔
      (c.kind = .symbol s → Q c.current.span c.advance) ∧
        (c.kind ≠ .symbol s → E ⟨.wanted (.symbol s) c.kind, c.current.span⟩) := by
  unfold expect
  by_cases h : c.kind = .symbol s
  · simp [h, Reply.Meets]
  · have hb : c.kind.isSymbol s = false := by simpa [← Bool.not_eq_true] using h
    simp [hb, h]

end Parser

end Respell
