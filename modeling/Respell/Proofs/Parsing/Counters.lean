-- SUMMARY: The parser that counts does what the parser does, and keeps its counters within bounds.
import Respell.Proofs.Parsing.Counting
import Respell.Proofs.Parsing.Failures

/-!
# The counters of the parser

Bounds on the counters, and rules that carry them through the productions. A parser that works on a
cursor has no counters: how many levels it may still enter is an argument of it. Here the two are
read side by side. The index is that of the cursor, and the depth and the levels that are left make
up the greatest depth. So the parser that counts comes to an end where the other does, with the same
value or the same error, and it never looks at a token that is not there.

A depth that a chain has raised is not set back where the chain breaks off. An error therefore says
only that the depth is at most some greatest one. A level that is left makes it exact again.
-/

namespace Respell

/-! ## Cursors among the tokens -/

/-- The cursor stands at one of the tokens, after tokens that are not the end of the input. -/
structure Cursor.In (tokens : List Token) (c : Cursor) : Prop where
  closed : c.Closed
  front : ∃ ts, tokens = ts ++ c.tokens ∧ c.index = ts.length ∧
    (∀ t ∈ ts, t.kind.isEof = false) ∧ c.previous = (ts.getLast?.map Token.span).getD ⟨0, 0⟩

namespace Cursor.In

variable {tokens : List Token} {c : Cursor}

theorem getElem?_index (h : c.In tokens) : tokens[c.index]? = some c.current := by
  obtain ⟨ts, rfl, hindex, -, -⟩ := h.front
  rw [hindex, List.getElem?_append_right (Nat.le_refl _), Nat.sub_self]
  rfl

theorem getElem?_previous (h : c.In tokens) (hpos : 0 < c.index) :
    ∃ t, tokens[c.index - 1]? = some t ∧ t.span = c.previous := by
  obtain ⟨ts, rfl, hindex, -, hprevious⟩ := h.front
  have hne : ts ≠ [] := List.ne_nil_of_length_pos (hindex ▸ hpos)
  refine ⟨ts.getLast hne, ?_, ?_⟩
  · rw [hindex, List.getElem?_append_left (by omega), ← List.getLast?_eq_getElem?]
    exact List.getLast?_eq_some_getLast hne
  · rw [hprevious, List.getLast?_eq_some_getLast hne]
    rfl

theorem previous_of_zero (h : c.In tokens) (hzero : c.index = 0) : c.previous = ⟨0, 0⟩ := by
  obtain ⟨ts, -, hindex, -, hprevious⟩ := h.front
  obtain rfl := List.length_eq_zero_iff.mp (hindex.symm.trans hzero)
  exact hprevious

theorem index_lt (h : c.In tokens) : c.index < tokens.length :=
  (List.getElem?_eq_some_iff.mp h.getElem?_index).1

theorem passed (h : c.In tokens) : ∀ t ∈ tokens.take c.index, t.kind.isEof = false := by
  obtain ⟨ts, rfl, hindex, hts, -⟩ := h.front
  rwa [hindex, List.take_left]

theorem advance (h : c.In tokens) (hk : c.kind.isEof = false) : c.advance.In tokens := by
  obtain ⟨ts, htokens, hindex, hts, -⟩ := h.front
  refine ⟨h.closed.advance, ts ++ [c.current], ?_, ?_, ?_, ?_⟩
  · rw [htokens, h.closed.tokens_advance hk, List.append_assoc, List.singleton_append]
  · rw [h.closed.index_advance hk, List.length_append, hindex]
    rfl
  · rw [List.forall_mem_append]
    exact ⟨hts, List.forall_mem_singleton.mpr hk⟩
  · rw [h.closed.previous_advance hk, List.getLast?_concat]
    rfl

end Cursor.In

theorem tokens_ofTokens_eq (tokens : List Token) :
    (Cursor.ofTokens tokens).tokens = closeTokens tokens := by
  unfold Cursor.ofTokens closeTokens
  cases tokens with
  | nil => rfl
  | cons first rest =>
    cases hlast : (first :: rest).getLast? with
    | none => simp at hlast
    | some last => cases hk : last.kind.isEof <;> simp [hk, Cursor.tokens]

theorem in_ofTokens (tokens : List Token) : (Cursor.ofTokens tokens).In (closeTokens tokens) := by
  refine ⟨Cursor.closed_ofTokens tokens, [], ?_, Cursor.index_ofTokens tokens, nofun, ?_⟩
  · rw [tokens_ofTokens_eq, List.nil_append]
  · exact Cursor.previous_ofTokens tokens

/-! ## Counters within bounds -/

/-- The counters are within their bounds: the next token is one of the tokens and not after the
    first end of the input, and the depth is at least the number of levels that are entered. A level
    has eight productions at most. -/
structure Tally.Sound (tokens : List Token) (now : Tally) : Prop where
  current_lt : now.current < tokens.length
  passed : ∀ t ∈ tokens.take now.current, t.kind.isEof = false
  depth_le : now.depth ≤ maxNesting
  opened_le : now.opened ≤ now.depth
  calls_le : now.calls ≤ 8 * (now.opened + 1)

theorem Tally.Sound.calls_le_maxNesting {tokens : List Token} {now : Tally} (h : now.Sound tokens) :
    now.calls ≤ 8 * (maxNesting + 1) :=
  h.calls_le.trans (Nat.mul_le_mul_left 8 (Nat.succ_le_succ (h.opened_le.trans h.depth_le)))

/-- The counters after a step are within their bounds, and a production that has answered a value
    has read a token and left the depth as it was. -/
def Note.Sound (tokens : List Token) : Note → Prop
  | .moment now => now.Sound tokens
  | .returned entry exit => exit.depth = entry.depth ∧ entry.current < exit.current

/-- What stays the same while the parts of a production are read. -/
structure Frame where
  /-- the levels that are entered -/
  opened : Nat
  /-- the productions that are under way -/
  calls : Nat
  /-- the greatest depth at which one of them may stop early -/
  top : Nat

namespace Frame

/-- The frame of a production that is called. -/
def call (f : Frame) : Frame :=
  { f with calls := f.calls + 1 }

/-- The frame of a level that is entered. -/
def enter (f : Frame) : Frame :=
  { f with opened := f.opened + 1, top := maxNesting }

/-- There are `room` levels left, and `height` productions more may be called before a level is
    entered. -/
structure Allows (f : Frame) (depth room height : Nat) : Prop where
  depth : depth + room = maxNesting
  calls : f.calls + height ≤ 8 * (f.opened + 1)

variable {f : Frame} {d room height : Nat}

theorem Allows.mono {height' : Nat} (h : f.Allows d room height) (hle : height' ≤ height) :
    f.Allows d room height' :=
  ⟨h.depth, Nat.le_trans (Nat.add_le_add_left hle _) h.calls⟩

theorem Allows.le_top (h : f.Allows d room height) (htop : f.top = maxNesting) : d ≤ f.top := by
  have := h.depth
  omega

theorem Allows.call (h : f.Allows d room (height + 1)) : f.call.Allows d room height := by
  obtain ⟨hdepth, hcalls⟩ := h
  refine ⟨hdepth, ?_⟩
  change f.calls + 1 + height ≤ 8 * (f.opened + 1)
  omega

/-- An operator of a chain takes a level, but enters none. -/
theorem Allows.deeper (h : f.Allows d (room + 1) height) : f.Allows (d + 1) room height := by
  refine ⟨?_, h.calls⟩
  have := h.depth
  omega

theorem Allows.enter (h : f.Allows d (room + 1) height) : f.enter.Allows (d + 1) room 8 := by
  obtain ⟨hdepth, hcalls⟩ := h
  refine ⟨by omega, ?_⟩
  change f.calls + 8 ≤ 8 * (f.opened + 1 + 1)
  omega

end Frame

/-- The account of a parser that stands at a cursor at a depth. -/
structure Stands (tokens : List Token) (f : Frame) (d : Nat) (c : Cursor) (account : Account) :
    Prop where
  place : c.In tokens
  now : account.now = ⟨c.index, d, f.opened, f.calls⟩
  sound : account.now.Sound tokens
  notes : ∀ note ∈ account.notes, note.Sound tokens

namespace Stands

variable {tokens : List Token} {f f' : Frame} {d d' : Nat} {c c' : Cursor} {account : Account}

theorem depth_le (h : Stands tokens f d c account) : d ≤ maxNesting := by
  have := h.sound.depth_le
  rwa [h.now] at this

theorem opened_le (h : Stands tokens f d c account) : f.opened ≤ d := by
  have := h.sound.opened_le
  rwa [h.now] at this

theorem calls_le (h : Stands tokens f d c account) : f.calls ≤ 8 * (f.opened + 1) := by
  have := h.sound.calls_le
  rwa [h.now] at this

/-- The counters change within their bounds. -/
theorem move (h : Stands tokens f d c account) {change : Tally → Tally} (hplace : c'.In tokens)
    (hnow : change ⟨c.index, d, f.opened, f.calls⟩ = ⟨c'.index, d', f'.opened, f'.calls⟩)
    (hdepth : d' ≤ maxNesting) (hopened : f'.opened ≤ d')
    (hcalls : f'.calls ≤ 8 * (f'.opened + 1)) :
    Stands tokens f' d' c' (account.move change) := by
  have hchange : change account.now = ⟨c'.index, d', f'.opened, f'.calls⟩ := by rw [h.now, hnow]
  have hsound : (change account.now).Sound tokens := by
    rw [hchange]
    exact ⟨hplace.index_lt, hplace.passed, hdepth, hopened, hcalls⟩
  exact ⟨hplace, hchange, hsound, List.forall_mem_cons.mpr ⟨hsound, h.notes⟩⟩

end Stands

/-! ## Following a parser -/

namespace Counting

/-- At the cursor, at the depth `d`, the parser that counts does what the parser does: with a value
    it stops at the depth `exit` and not before the token with the index `least`, and with an error
    at a depth that the frame admits. In particular it comes to an end, and every token that it
    looks up is there. -/
def Follows {α : Type} (tokens : List Token) (f : Frame) (d exit least : Nat) (p : Parser α)
    (m : Counting α) (c : Cursor) : Prop :=
  ∀ account, Stands tokens f d c account →
    match p c with
    | .ok a after => ∃ account', m.run account = some (.ok a, account') ∧
        Stands tokens f exit after account' ∧ least ≤ after.index
    | .error e place => ∃ account', m.run account = some (.error (.error e), account') ∧
        ∃ d' ≤ f.top, Stands tokens f d' place account'

section Lookups

variable {tokens : List Token} {f : Frame} {d : Nat} {c : Cursor} {account : Account}

theorem run_token (h : Stands tokens f d c account) :
    (token tokens).run account = some (.ok c.current, account) := by
  refine (run_bind_ok run_tally).trans ?_
  rw [h.now, tokenAt, h.place.getElem?_index]
  rfl

theorem run_previousSpan (h : Stands tokens f d c account) :
    (previousSpan tokens).run account = some (.ok c.previous, account) := by
  refine (run_bind_ok run_tally).trans ?_
  rw [h.now]
  split
  · next hpos =>
    obtain ⟨t, ht, hspan⟩ := h.place.getElem?_previous hpos
    rw [tokenAt, ht, ← hspan]
    rfl
  · next hpos =>
    rw [h.place.previous_of_zero (Nat.eq_zero_of_not_pos hpos)]
    rfl

theorem run_fail {α : Type} (h : Stands tokens f d c account) (complaint : Complaint) :
    (fail tokens complaint : Counting α).run account =
      some (.error (.error ⟨complaint, c.current.span⟩), account) :=
  run_bind_ok (run_token h)

theorem run_wanted {α : Type} (h : Stands tokens f d c account) (what : Wanted) :
    (wanted tokens what : Counting α).run account =
      some (.error (.error ⟨.wanted what c.kind, c.current.span⟩), account) :=
  (run_bind_ok (run_token h)).trans (run_fail h (.wanted what c.kind))

theorem run_sees (h : Stands tokens f d c account) (s : Symbol) :
    (sees tokens s).run account = some (.ok (c.kind.isSymbol s), account) :=
  run_bind_ok (run_token h)

theorem run_seesKeyword (h : Stands tokens f d c account) (r : Role) :
    (seesKeyword tokens r).run account = some (.ok (c.kind.isKeyword r), account) :=
  run_bind_ok (run_token h)

theorem run_descend_error {what : Construct} (h : Stands tokens f d c account)
    (hdepth : d = maxNesting) :
    (descend tokens what).run account =
      some (.error (.error ⟨.tooDeep what, c.current.span⟩), account) := by
  have hnow : maxNesting ≤ account.now.depth := by
    rw [h.now]
    exact hdepth.ge
  refine (run_bind_ok run_tally).trans ?_
  rw [if_pos hnow]
  exact run_fail h (.tooDeep what)

/-- One token is read. -/
theorem run_advance (h : Stands tokens f d c account) (hk : c.kind.isEof = false) :
    ∃ account', (advance tokens).run account = some (.ok c.current, account') ∧
      Stands tokens f d c.advance account' := by
  have hindex := h.place.closed.index_advance hk
  have hmoved : Stands tokens f d c.advance
      (account.move fun now => { now with current := now.current + 1 }) :=
    h.move (h.place.advance hk) (by rw [hindex]) h.depth_le h.opened_le h.calls_le
  refine ⟨_, ?_, hmoved⟩
  refine (run_bind_ok (run_token h)).trans ?_
  have hk' : ¬ c.current.kind.isEof = true := Bool.not_eq_true _ ▸ hk
  rw [if_neg hk']
  exact run_bind_ok (run_move _)

end Lookups

namespace Follows

variable {α β : Type} {tokens : List Token} {f : Frame} {d mid exit least least' room height : Nat}
  {c : Cursor}

theorem congr {p q : Parser α} {m : Counting α} (h : p c = q c)
    (hq : Follows tokens f d exit least q m c) : Follows tokens f d exit least p m c := by
  intro account hs
  rw [h]
  exact hq account hs

theorem pure (a : α) (hleast : least ≤ c.index) :
    Follows tokens f d d least (Pure.pure a) (Pure.pure a) c :=
  fun account hs => ⟨account, rfl, hs, hleast⟩

/-- Both complain about the token at the cursor. -/
theorem stop {p : Parser α} {m : Counting α} {e : ParseError} (htop : d ≤ f.top)
    (hp : p c = .error e c)
    (hm : ∀ account, Stands tokens f d c account →
      m.run account = some (.error (.error e), account)) :
    Follows tokens f d exit least p m c := by
  intro account hs
  rw [hp]
  exact ⟨account, hm account hs, d, htop, hs⟩

theorem bind {p : Parser β} {k : β → Parser α} {m : Counting β} {g : β → Counting α}
    (hp : Follows tokens f d mid least p m c)
    (hk : ∀ b after, least ≤ after.index →
      Follows tokens f mid exit least' (k b) (g b) after) :
    Follows tokens f d exit least' (p >>= k) (m >>= g) c := by
  intro account hs
  have hfirst := hp account hs
  change match Parser.bind p k c with | .ok a after => _ | .error e place => _
  unfold Parser.bind
  cases hpc : p c with
  | ok b after =>
    rw [hpc] at hfirst
    obtain ⟨account', hrun, hs', hleast⟩ := hfirst
    rw [run_bind_ok hrun]
    exact hk b after hleast account' hs'
  | error e place =>
    rw [hpc] at hfirst
    obtain ⟨account', hrun, hstopped⟩ := hfirst
    exact ⟨account', run_bind_error hrun, hstopped⟩

/-! ### Steps -/

/-- The run of the parser that counts is the same. -/
theorem of_run {p : Parser α} {m m' : Counting α}
    (hrun : ∀ account, Stands tokens f d c account → m.run account = m'.run account)
    (h : Follows tokens f d exit least p m' c) : Follows tokens f d exit least p m c := by
  intro account hs
  rw [hrun account hs]
  exact h account hs

theorem token_bind {p : Parser α} {g : Token → Counting α}
    (h : Follows tokens f d exit least p (g c.current) c) :
    Follows tokens f d exit least p (token tokens >>= g) c :=
  of_run (fun _ hs => run_bind_ok (run_token hs)) h

theorem sees_bind {p : Parser α} {g : Bool → Counting α} {s : Symbol}
    (htrue : c.kind = .symbol s → Follows tokens f d exit least p (g true) c)
    (hfalse : c.kind ≠ .symbol s → Follows tokens f d exit least p (g false) c) :
    Follows tokens f d exit least p (sees tokens s >>= g) c := by
  refine of_run (fun _ hs => run_bind_ok (run_sees hs s)) ?_
  cases hk : c.kind.isSymbol s with
  | true => exact htrue (Kind.isSymbol_iff.mp hk)
  | false => exact hfalse fun h => Bool.eq_false_iff.mp hk (Kind.isSymbol_iff.mpr h)

theorem seesKeyword_bind {p : Parser α} {g : Bool → Counting α} {r : Role}
    (htrue : c.kind = .keyword r → Follows tokens f d exit least p (g true) c)
    (hfalse : c.kind ≠ .keyword r → Follows tokens f d exit least p (g false) c) :
    Follows tokens f d exit least p (seesKeyword tokens r >>= g) c := by
  refine of_run (fun _ hs => run_bind_ok (run_seesKeyword hs r)) ?_
  cases hk : c.kind.isKeyword r with
  | true => exact htrue (Kind.isKeyword_iff.mp hk)
  | false => exact hfalse fun h => Bool.eq_false_iff.mp hk (Kind.isKeyword_iff.mpr h)

theorem tally_bind {p : Parser α} {g : Tally → Counting α}
    (h : Follows tokens f d exit least p (g ⟨c.index, d, f.opened, f.calls⟩) c) :
    Follows tokens f d exit least p (tally >>= g) c :=
  of_run (fun _ hs => (run_bind_ok run_tally).trans (by rw [hs.now])) h

theorem previousSpan_bind {p : Parser α} {g : Span → Counting α}
    (h : Follows tokens f d exit least p (g c.previous) c) :
    Follows tokens f d exit least p (previousSpan tokens >>= g) c :=
  of_run (fun _ hs => run_bind_ok (run_previousSpan hs)) h

theorem wanted (what : Wanted) (htop : d ≤ f.top) :
    Follows tokens f d exit least (Parser.wanted what : Parser α) (wanted tokens what) c :=
  stop htop rfl fun _ hs => run_wanted hs what

theorem fail (complaint : Complaint) (htop : d ≤ f.top) :
    Follows tokens f d exit least (Parser.fail complaint : Parser α) (fail tokens complaint) c :=
  stop htop rfl fun _ hs => run_fail hs complaint

theorem failAt (complaint : Complaint) (span : Span) (htop : d ≤ f.top) :
    Follows tokens f d exit least (Parser.failAt complaint span : Parser α)
      (failAt complaint span) c :=
  stop htop rfl fun _ _ => rfl

theorem next_bind {k : Token → Parser α} {g : Token → Counting α} (hk : c.kind.isEof = false)
    (h : c.advance.index = c.index + 1 →
      Follows tokens f d exit least (k c.current) (g c.current) c.advance) :
    Follows tokens f d exit least (Parser.next >>= k) (advance tokens >>= g) c := by
  intro account hs
  obtain ⟨account', hrun, hs'⟩ := run_advance hs hk
  rw [run_bind_ok hrun]
  exact h (hs.place.closed.index_advance hk) account' hs'

theorem expect_bind {k : Span → Parser α} {g : Span → Counting α} {s : Symbol} (htop : d ≤ f.top)
    (h : c.advance.index = c.index + 1 →
      Follows tokens f d exit least (k c.current.span) (g c.current.span) c.advance) :
    Follows tokens f d exit least (Parser.expect s >>= k) (expect tokens s >>= g) c := by
  intro account hs
  change match Parser.bind (Parser.expect s) k c with | .ok a after => _ | .error e place => _
  unfold Parser.bind Parser.expect
  cases hk : c.kind.isSymbol s with
  | true =>
    have heof : c.kind.isEof = false := by rw [Kind.isSymbol_iff.mp hk]; rfl
    obtain ⟨account', hrun, hs'⟩ := run_advance hs heof
    have hexpect : (expect tokens s).run account = some (.ok c.current.span, account') := by
      refine (run_bind_ok (run_sees hs s)).trans ?_
      rw [if_pos hk]
      exact run_bind_ok hrun
    rw [run_bind_ok hexpect]
    exact h (hs.place.closed.index_advance heof) account' hs'
  | false =>
    have hexpect : (expect tokens s).run account =
        some (.error (.error ⟨.wanted (.symbol s) c.kind, c.current.span⟩), account) := by
      refine (run_bind_ok (run_sees hs s)).trans ?_
      rw [if_neg (Bool.not_eq_true _ ▸ hk)]
      exact run_wanted hs (.symbol s)
    exact ⟨account, run_bind_error hexpect, d, htop, hs⟩

theorem eat_bind {k : Bool → Parser α} {g : Bool → Counting α} {s : Symbol}
    (htrue : c.advance.index = c.index + 1 →
      Follows tokens f d exit least (k true) (g true) c.advance)
    (hfalse : Follows tokens f d exit least (k false) (g false) c) :
    Follows tokens f d exit least (Parser.eat s >>= k) (eat tokens s >>= g) c := by
  intro account hs
  rw [Parser.eat_bind]
  cases hk : c.kind.isSymbol s with
  | true =>
    have heof : c.kind.isEof = false := by rw [Kind.isSymbol_iff.mp hk]; rfl
    obtain ⟨account', hrun, hs'⟩ := run_advance hs heof
    have heat : (eat tokens s).run account = some (.ok true, account') := by
      refine (run_bind_ok (run_sees hs s)).trans ?_
      rw [if_pos hk]
      exact run_bind_ok hrun
    rw [run_bind_ok heat]
    exact htrue (hs.place.closed.index_advance heof) account' hs'
  | false =>
    have heat : (eat tokens s).run account = some (.ok false, account) := by
      refine (run_bind_ok (run_sees hs s)).trans ?_
      rw [if_neg (Bool.not_eq_true _ ▸ hk)]
      rfl
    rw [run_bind_ok heat]
    exact hfalse account hs

theorem of_in {p : Parser α} {m : Counting α}
    (h : c.In tokens → Follows tokens f d exit least p m c) : Follows tokens f d exit least p m c :=
  fun account hs => h hs.place account hs

theorem of_opened_le {p : Parser α} {m : Counting α}
    (h : f.opened ≤ d → Follows tokens f d exit least p m c) :
    Follows tokens f d exit least p m c :=
  fun account hs => h hs.opened_le account hs

/-! ### Depth -/

/-- The depth is set to that at which the parser has to stop. -/
theorem setDepth (a : α) (hexit : exit ≤ d) (hopened : f.opened ≤ exit) (hleast : least ≤ c.index) :
    Follows tokens f d exit least (Pure.pure a)
      (do move fun now => { now with depth := exit }; return a) c := by
  intro account hs
  refine ⟨_, run_bind_ok (run_move _), ?_, hleast⟩
  exact hs.move hs.place rfl (hexit.trans hs.depth_le) hopened hs.calls_le

theorem descend_bind_zero {what : Construct} {g : Unit → Counting α} (h : f.Allows d 0 height)
    (htop : d ≤ f.top) :
    Follows tokens f d exit least (Parser.tooDeep what : Parser α)
      (descend tokens what >>= g) c :=
  stop htop rfl fun _ hs => run_bind_error (run_descend_error hs h.depth)

theorem descend_bind_succ {what : Construct} {p : Parser α} {g : Unit → Counting α}
    (h : f.Allows d (room + 1) height) (hg : Follows tokens f (d + 1) exit least p (g ()) c) :
    Follows tokens f d exit least p (descend tokens what >>= g) c := by
  intro account hs
  have hlt : d < maxNesting := by
    have := h.depth
    omega
  have hdepth : account.now.depth < maxNesting := by rwa [hs.now]
  rw [run_bind_ok (run_descend_ok tokens hdepth)]
  exact hg _ (hs.move hs.place rfl hlt (Nat.le_succ_of_le hs.opened_le) hs.calls_le)

/-! ### Brackets -/

/-- A production that is called has read a token when it answers. -/
theorem call {p : Parser α} {m : Counting α} (h : f.Allows d room (height + 1))
    (hm : f.call.Allows d room height → Follows tokens f.call d d (c.index + 1) p m c) :
    Follows tokens f d d (c.index + 1) p (call m) c := by
  intro account hs
  have hcalled : Stands tokens f.call d c
      (account.move fun now => { now with calls := now.calls + 1 }) :=
    hs.move hs.place rfl hs.depth_le hs.opened_le (h.mono (Nat.le_add_left 1 height)).calls
  have hproduction := hm h.call _ hcalled
  -- Either way the number of productions under way is again what it was.
  have hback {after : Cursor} {d' : Nat} {account' : Account}
      (hs' : Stands tokens f.call d' after account') : Stands tokens f d' after
        (account'.move fun now => { now with calls := now.calls - 1 }) :=
    hs'.move hs'.place rfl hs'.depth_le hs'.opened_le hs.calls_le
  cases hpc : p c with
  | ok a after =>
    rw [hpc] at hproduction
    obtain ⟨account', hrun, hs', hleast⟩ := hproduction
    have hreturned := hback hs'
    refine ⟨_, run_call_ok hrun, ⟨hreturned.place, hreturned.now, hreturned.sound, ?_⟩, hleast⟩
    refine List.forall_mem_cons.mpr ⟨?_, hreturned.notes⟩
    rw [hreturned.now, hs.now]
    exact ⟨rfl, hleast⟩
  | error e place =>
    rw [hpc] at hproduction
    obtain ⟨account', hrun, d', htop, hs'⟩ := hproduction
    exact ⟨_, run_call_error hrun, d', htop, hback hs'⟩

/-- There is no level left to be entered. -/
theorem nested_zero {what : Construct} {m : Counting α} (h : f.Allows d 0 height)
    (htop : d ≤ f.top) :
    Follows tokens f d exit least (Parser.tooDeep what : Parser α) (nested tokens what m) c := by
  refine stop htop rfl fun account hs => ?_
  exact (run_bind_ok run_tally).trans (run_bind_error (run_descend_error hs h.depth))

/-- A level that is entered is left at the depth at which it was entered, also with an error. -/
theorem nested_succ {what : Construct} {p : Parser α} {m : Counting α}
    (h : f.Allows d (room + 1) height) (htop : d ≤ f.top)
    (hm : f.enter.Allows (d + 1) room 8 → Follows tokens f.enter (d + 1) (d + 1) least p m c) :
    Follows tokens f d d least p (nested tokens what m) c := by
  intro account hs
  have hlt : d < maxNesting := by
    have := h.depth
    omega
  have hopened := hs.opened_le
  have hcalls := hs.calls_le
  have hdepth : account.now.depth = d := by rw [hs.now]
  have hentered : Stands tokens f.enter (d + 1) c
      ((account.move fun now => { now with depth := now.depth + 1 }).move
        fun now => { now with opened := now.opened + 1 }) := by
    have hdeeper : Stands tokens f (d + 1) c
        (account.move fun now => { now with depth := now.depth + 1 }) :=
      hs.move hs.place rfl hlt (Nat.le_succ_of_le hopened) hcalls
    refine hdeeper.move hs.place rfl hlt (Nat.succ_le_succ hopened) ?_
    change f.calls ≤ 8 * (f.opened + 1 + 1)
    omega
  have hproduction := hm h.enter _ hentered
  have hleft {after : Cursor} {d' : Nat} {account' : Account}
      (hs' : Stands tokens f.enter d' after account') : Stands tokens f d after
        (account'.move fun now =>
          { now with depth := account.now.depth, opened := now.opened - 1 }) :=
    hs'.move hs'.place (by rw [hdepth]; rfl) hs.depth_le hopened hcalls
  cases hpc : p c with
  | ok a after =>
    rw [hpc] at hproduction
    obtain ⟨account', hrun, hs', hleast⟩ := hproduction
    exact ⟨_, run_nested_ok tokens (hdepth ▸ hlt) hrun, hleft hs', hleast⟩
  | error e place =>
    rw [hpc] at hproduction
    obtain ⟨account', hrun, d', -, hs'⟩ := hproduction
    exact ⟨_, run_nested_error tokens (hdepth ▸ hlt) hrun, d, htop, hleft hs'⟩

end Follows

end Counting

end Respell
