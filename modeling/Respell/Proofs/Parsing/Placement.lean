-- SUMMARY: Where the expressions of a program stand among its tokens, and where its errors point.
import Respell.Proofs.Parsing.Acceptance
import Respell.Proofs.Parsing.Places

/-!
# Where the parser finds expressions and errors

Every production is followed through the tokens that it reads. An expression that it answers is
written with these tokens, they are read as it wherever they stand, and so it is for every
expression inside. An error points at the token that the parser had come to, or at the target of an
assignment together with its sign. `Locates` is the statement about one production, and its rules
take the productions apart.
-/

namespace Respell

/-! ## Places among tokens -/

/-- No parentheses stand directly around a place, but those that a keyword has after it. -/
def Exposed (before after : List Token) : Prop :=
  ∀ outer opening closing rest, before = outer ++ [opening] → after = closing :: rest →
    opening.kind = .symbol .leftParen → closing.kind = .symbol .rightParen →
      ∃ t role, outer.getLast? = some t ∧ t.kind = .keyword role

theorem exposed_of_before {before after : List Token} {t : Token}
    (h : t.kind ≠ .symbol .leftParen) : Exposed (before ++ [t]) after := by
  intro outer opening closing rest hbefore _ hopening
  obtain rfl : t = opening := by simpa using (List.append_inj' hbefore rfl).2
  exact absurd hopening h

theorem exposed_of_after {before after : List Token} {t : Token}
    (h : t.kind ≠ .symbol .rightParen) : Exposed before (t :: after) := by
  intro outer opening closing rest _ hafter _ hclosing
  obtain rfl : t = closing := (List.cons.inj hafter).1
  exact absurd hclosing h

theorem exposed_of_keyword {before after : List Token} {t opening : Token} {role : Role}
    (h : t.kind = .keyword role) : Exposed (before ++ [t] ++ [opening]) after := by
  intro outer opening' closing rest hbefore _ _ _
  rw [← (List.append_inj' hbefore rfl).1]
  exact ⟨t, role, List.getLast?_concat, h⟩

/-- An expression stands among the tokens: it is written with some of them, which have no further
    parentheses around them and are read as it also on their own. -/
def Expr.Stands (all : List Token) (e : Expr) : Prop :=
  ∃ before ts after, all = before ++ (ts ++ after) ∧ e.Written ts ∧ Exposed before after ∧
    Parser.ReadsWhole Parser.loneRoom e ts

/-- What an error of the parser points at: a token, which is then also the one that was found, or
    the target of an assignment up to and with the sign. -/
inductive ParseError.PointsInto (all : List Token) : ParseError → Prop where
  | token {complaint : Complaint} {t : Token} : t ∈ all →
      (∀ what found, complaint = .wanted what found → found = t.kind) →
      PointsInto all ⟨complaint, t.span⟩
  | target {before ts after : List Token} {e : Expr} {t : Token} :
      all = before ++ (ts ++ t :: after) → e.Written ts → t.kind = .symbol .assign →
      PointsInto all ⟨.notAssignable, e.span.merge t.span⟩

namespace Parser

open Cursor (Takes)

/-- From a cursor with the tokens `before` to its left, what a parser answers stands in `R` to the
    tokens it has read and to the cursor after them, and an error points into the tokens. -/
def Locates {α : Type} (all : List Token) (p : Parser α) (before : List Token) (c : Cursor)
    (R : α → List Token → Cursor → Prop) : Prop :=
  c.Closed → all = before ++ c.tokens →
    (p c).Meets (fun a after => ∃ ts, c.Takes ts after ∧ R a ts after) (ParseError.PointsInto all)

namespace Locates

variable {α β : Type} {all before : List Token} {c : Cursor} {R : α → List Token → Cursor → Prop}

theorem congr {p q : Parser α} (h : p c = q c) (hq : Locates all q before c R) :
    Locates all p before c R :=
  fun hc hall => h ▸ hq hc hall

theorem mono {p : Parser α} {S : α → List Token → Cursor → Prop} (h : Locates all p before c R)
    (hS : ∀ a ts after, R a ts after → S a ts after) : Locates all p before c S := by
  intro hc hall
  refine (h hc hall).mono ?_ fun _ he => he
  rintro a after ⟨ts, htakes, ha⟩
  exact ⟨ts, htakes, hS a ts after ha⟩

/-- What is known of the cursor may be used. -/
theorem here {p : Parser α} (h : all = before ++ c.tokens → Locates all p before c R) :
    Locates all p before c R :=
  fun hc hall => h hall hc hall

theorem pure {a : α} (h : R a [] c) : Locates all (pure a) before c R :=
  fun _ _ => ⟨[], .nil c, h⟩

theorem bind {p : Parser β} {f : β → Parser α} {S : β → List Token → Cursor → Prop}
    (hp : Locates all p before c S)
    (hf : ∀ b ts mid, S b ts mid →
      Locates all (f b) (before ++ ts) mid fun a us after => R a (ts ++ us) after) :
    Locates all (p >>= f) before c R := by
  intro hc hall
  rw [meets_bind]
  refine (hp hc hall).mono ?_ fun _ he => he
  rintro b mid ⟨ts, htakes, hb⟩
  have hmid : all = before ++ ts ++ mid.tokens := by
    rw [hall, htakes.tokens_eq hc, List.append_assoc]
  refine (hf b ts mid hb (htakes.closed hc) hmid).mono ?_ fun _ he => he
  rintro a after ⟨us, htakes', ha⟩
  exact ⟨ts ++ us, htakes.trans htakes', ha⟩

/-- What comes second reads nothing. -/
theorem bind_pure {p : Parser β} {f : β → α} {S : β → List Token → Cursor → Prop}
    (hp : Locates all p before c S) (hf : ∀ b ts after, S b ts after → R (f b) ts after) :
    Locates all (p >>= fun b => Pure.pure (f b)) before c R := by
  refine hp.bind fun b ts mid hb => pure ?_
  rw [List.append_nil]
  exact hf b ts mid hb

theorem peek_bind {f : Token → Parser α} (h : Locates all (f c.current) before c R) :
    Locates all (peek >>= f) before c R :=
  congr rfl h

theorem next_bind {f : Token → Parser α} (hk : c.kind.isEof = false)
    (h : Locates all (f c.current) (before ++ [c.current]) c.advance fun a us after =>
      R a (c.current :: us) after) :
    Locates all (next >>= f) before c R := by
  refine .bind (S := fun t ts mid => t = c.current ∧ ts = [c.current] ∧ mid = c.advance)
    (fun _ _ => ⟨[c.current], Cursor.takes_advance hk, rfl, rfl, rfl⟩) ?_
  rintro t ts mid ⟨rfl, rfl, rfl⟩
  exact h

theorem token {p : Parser α} {complaint : Complaint} {place : Cursor}
    (h : p c = .error ⟨complaint, c.current.span⟩ place)
    (hfound : ∀ what found, complaint = .wanted what found → found = c.kind) :
    Locates all p before c R := by
  intro _ hall
  rw [h]
  refine .token ?_ hfound
  rw [hall]
  exact List.mem_append_right _ List.mem_cons_self

theorem wanted (what : Wanted) : Locates all (Parser.wanted what : Parser α) before c R :=
  token rfl fun _ _ h => by cases h; rfl

theorem tooDeep (what : Construct) : Locates all (Parser.tooDeep what : Parser α) before c R :=
  token rfl nofun

theorem expect_bind {s : Symbol} {f : Span → Parser α}
    (h : c.kind = .symbol s → Locates all (f c.current.span) (before ++ [c.current]) c.advance
      fun a us after => R a (c.current :: us) after) :
    Locates all (expect s >>= f) before c R := by
  intro hc hall
  rw [meets_bind, meets_expect]
  refine ⟨fun hk => ?_, fun _ => ?_⟩
  · have hnext := next_bind (f := fun t => f t.span) (by rw [hk]; rfl) (h hk)
    exact meets_bind.mp (hnext hc hall)
  · exact wanted (R := R) (.symbol s) hc hall

theorem eat_bind {s : Symbol} {f : Bool → Parser α}
    (htrue : c.kind = .symbol s → Locates all (f true) (before ++ [c.current]) c.advance
      fun a us after => R a (c.current :: us) after)
    (hfalse : c.kind ≠ .symbol s → Locates all (f false) before c R) :
    Locates all (eat s >>= f) before c R := by
  intro hc hall
  rw [meets_bind, meets_eat]
  refine ⟨fun hk => ?_, fun hne => hfalse hne hc hall⟩
  have hnext := next_bind (f := fun _ => f true) (by rw [hk]; rfl) (htrue hk)
  exact meets_bind.mp (hnext hc hall)

end Locates

/-! ## Expressions -/

/-- An operation that was read with the given tokens, and the expressions inside of it. -/
structure Located (all : List Token) (e : Expr) (ts : List Token) : Prop where
  written : e.Written ts
  inside : ∀ e' ∈ e.inside, e'.Stands all

theorem Located.stands {all before ts after : List Token} {e : Expr} {room : Nat}
    (h : Located all e ts) (hall : all = before ++ (ts ++ after)) (hexposed : Exposed before after)
    (hreads : ReadsWhole room e ts) (hroom : room ≤ loneRoom) : ∀ e' ∈ e.nodes, e'.Stands all :=
  List.forall_mem_cons.mpr
    ⟨⟨before, ts, after, hall, h.written, hexposed, hreads.mono hroom⟩, h.inside⟩

/-- What reading an operation with operators of the given levels finds. -/
def FindsOperation (all : List Token) (room : Nat) (ls : List Level) (e : Expr) (ts : List Token)
    (after : Cursor) : Prop :=
  Located all e ts ∧ ReadsAs room ls e ts ∧ ∀ l ∈ ls, l.operator? after.kind = none

/-- What reading an expression finds; `room` is that of what is nested in it. -/
def FindsWhole (all : List Token) (room : Nat) (e : Expr) (ts : List Token) (after : Cursor) :
    Prop :=
  Located all e ts ∧ ReadsWhole room e ts ∧ after.kind.joins = false

/-- What reading an expression one level deeper finds. -/
def FindsExpression (all : List Token) (room : Nat) (e : Expr) (ts : List Token)
    (after : Cursor) : Prop :=
  ∃ inner, room = inner + 1 ∧ FindsWhole all inner e ts after

/-- The productions of expressions locate what they read with the given room. -/
structure ExpressionsLocate (all : List Token) (room : Nat) : Prop where
  primary : ∀ before c, Locates all (primary room) before c (FindsOperation all room [])
  operation : ∀ ls, ls <:+ Level.all → ∀ before c,
    Locates all (operation room ls) before c (FindsOperation all room ls)
  chain : ∀ l ls, l :: ls <:+ Level.all → ∀ used left ts before c, room + used ≤ loneRoom →
    Located all left ts → Leads room used l ls left ts → (∀ l' ∈ ls, l'.operator? c.kind = none) →
      Locates all (chain room l ls left) (before ++ ts) c fun e us after =>
        FindsOperation all (room + used) (l :: ls) e (ts ++ us) after
  assignment : ∀ before c, Locates all (assignment room) before c (FindsWhole all room)

section Expressions

variable {all : List Token} {room : Nat}

theorem unary_locates (h : ∀ inner, room = inner + 1 → ExpressionsLocate all inner)
    (hroom : room ≤ loneRoom) {before : List Token} {c : Cursor} {op : UnaryOp}
    (hop : c.kind.unary? = some op) :
    Locates all (unary room op c.current.span) before c (FindsOperation all room []) := by
  have heof := Kind.isEof_of_unary? hop
  have hsign : c.kind ≠ .symbol .leftParen := by
    intro hk
    rw [hk] at hop
    cases hop
  cases room with
  | zero => exact .congr unary_zero (.next_bind heof (.tooDeep .expression))
  | succ inner =>
    refine .congr unary_succ (.next_bind heof ?_)
    refine .here fun hall => .bind ((h inner rfl).primary _ _) ?_
    rintro e ts mid ⟨hlocated, hreads, -⟩
    refine .here fun hall => .pure ?_
    rw [List.append_nil]
    have hstands := hlocated.stands (by rw [hall, List.append_assoc]) (exposed_of_before hsign)
      (hreads.whole List.nil_suffix) (by omega)
    exact ⟨⟨.unary hop hlocated.written, hstands⟩, .unary hop hreads, by simp⟩

theorem primary_locates (h : ∀ inner, room = inner + 1 → ExpressionsLocate all inner)
    (hexpr : ∀ before c, Locates all (expression room) before c (FindsExpression all room))
    (hroom : room ≤ loneRoom) (before : List Token) (c : Cursor) :
    Locates all (primary room) before c (FindsOperation all room []) := by
  cases ha : c.kind.atom? c.current.span with
  | some e =>
    have hinside : e.inside = [] := by
      unfold Cursor.kind at ha
      cases hk : c.current.kind with
      | keyword r => rw [hk] at ha; cases r <;> cases ha <;> rfl
      | symbol s => rw [hk] at ha; cases ha
      | eof => rw [hk] at ha; cases ha
      | _ => rw [hk] at ha; cases ha; rfl
    refine .congr (primary_of_atom ha) (.next_bind (Kind.isEof_of_atom? ha) (.pure ?_))
    exact ⟨⟨.atom ha, by simp [hinside]⟩, .atom ha, by simp⟩
  | none =>
  cases hu : c.kind.unary? with
  | some op => exact .congr (primary_of_unary hu) (unary_locates h hroom hu)
  | none =>
  by_cases hp : c.kind = .symbol .leftParen
  · have heof : c.kind.isEof = false := by rw [hp]; rfl
    refine .congr (primary_of_leftParen hp) (.next_bind heof (.bind (hexpr _ _) ?_))
    rintro e ts mid ⟨inner, rfl, hlocated, hreads, -⟩
    refine .expect_bind fun hclosing => .pure ?_
    refine ⟨⟨.paren hp hlocated.written hclosing, ?_⟩, .paren hp hreads hclosing, by simp⟩
    rw [Expr.inside_withSpan]
    exact hlocated.inside
  · exact .congr (primary_of_other ha hp hu) (.wanted .expression)

theorem chain_locates (h : ∀ inner, room = inner + 1 → ExpressionsLocate all inner) {l : Level}
    {ls : List Level} (hls : l :: ls <:+ Level.all) {used : Nat} {left : Expr}
    {ts before : List Token} {c : Cursor} (hroom : room + used ≤ loneRoom)
    (hleft : Located all left ts) (hleads : Leads room used l ls left ts)
    (hc : ∀ l' ∈ ls, l'.operator? c.kind = none) :
    Locates all (chain room l ls left) (before ++ ts) c fun e us after =>
      FindsOperation all (room + used) (l :: ls) e (ts ++ us) after := by
  have hnodup : (l :: ls).Nodup := Level.nodup_all.sublist hls.sublist
  cases hop : l.operator? c.kind with
  | none =>
    refine .congr (chain_of_none hop) (.pure ?_)
    rw [List.append_nil]
    exact ⟨hleft, hleads.readsAs, List.forall_mem_cons.mpr ⟨hop, hc⟩⟩
  | some op =>
  have heof := Kind.isEof_of_operator? hop
  have hparen : ∀ s, l.operator? (.symbol s) = some op →
      s ≠ .leftParen ∧ s ≠ .rightParen := by
    intro s hs
    constructor <;> (rintro rfl; cases l <;> cases hs)
  cases room with
  | zero => exact .congr (chain_zero hop) (.tooDeep .expression)
  | succ inner =>
    have hsuffix : ls <:+ Level.all := (List.suffix_cons l ls).trans hls
    refine .congr (chain_succ hop) (.here fun hall => .next_bind heof ?_)
    -- The operator stands after the left operand, so no parenthesis does.
    have hstands : ∀ e' ∈ left.nodes, e'.Stands all := by
      refine hleft.stands (by rw [hall, List.append_assoc]; rfl) (exposed_of_after ?_)
        (hleads.readsAs.whole hls) hroom
      intro hk
      exact (hparen _ (hk ▸ hop)).2 rfl
    refine .bind ((h inner rfl).operation ls hsuffix _ _) ?_
    rintro right us mid ⟨hright, hreads, hmid⟩
    refine .here fun hall' => ?_
    have hstands' : ∀ e' ∈ right.nodes, e'.Stands all := by
      refine hright.stands (by rw [hall', List.append_assoc]) (exposed_of_before ?_)
        (hreads.whole hsuffix) (by omega)
      intro hk
      exact (hparen _ (hk ▸ hop)).1 rfl
    have hmore := hleads.more hnodup hop hreads
    have hbinary : Located all (.binary op left right (left.span.merge right.span))
        (ts ++ c.current :: us) :=
      ⟨.binary hleft.written hop hright.written,
        List.forall_mem_append.mpr ⟨hstands, hstands'⟩⟩
    have hrest := (h inner rfl).chain l ls hls (used + 1) _ _ before mid (by omega) hbinary hmore
      hmid
    rw [show inner + (used + 1) = inner + 1 + used by omega] at hrest
    simpa only [List.append_assoc, List.cons_append, List.nil_append] using hrest

theorem operation_locates (h : ∀ inner, room = inner + 1 → ExpressionsLocate all inner)
    (hprimary : ∀ before c, Locates all (primary room) before c (FindsOperation all room []))
    (hroom : room ≤ loneRoom) (ls : List Level) (hls : ls <:+ Level.all) (before : List Token)
    (c : Cursor) : Locates all (operation room ls) before c (FindsOperation all room ls) := by
  induction ls generalizing c with
  | nil => exact .congr (by rw [operation]) (hprimary before c)
  | cons l ls ih =>
    refine .congr (by rw [operation]) (.bind (ih ((List.suffix_cons l ls).trans hls) c) ?_)
    rintro left ts mid ⟨hleft, hreads, hmid⟩
    have hused : room + 0 ≤ loneRoom := hroom
    exact chain_locates h hls hused hleft hreads.leads hmid

theorem assignment_locates
    (hoperation : ∀ before c, Locates all (operation room Level.all) before c
      (FindsOperation all room Level.all))
    (hexpr : ∀ before c, Locates all (expression room) before c (FindsExpression all room))
    (hroom : room ≤ loneRoom) (before : List Token) (c : Cursor) :
    Locates all (assignment room) before c (FindsWhole all room) := by
  refine .congr (by rw [assignment]) (.bind (hoperation before c) ?_)
  rintro target ts mid ⟨htarget, hreads, hmid⟩
  refine .peek_bind (.here fun hall => .eat_bind (fun hsign => ?_) fun hne => ?_)
  · rw [if_pos rfl]
    refine .bind (hexpr _ _) ?_
    rintro value us after ⟨inner, rfl, hvalue, hreads', hafter⟩
    have hnotParen : mid.current.kind ≠ .symbol .leftParen := by
      rw [show mid.current.kind = .symbol .assign from hsign]
      simp
    cases target with
    | name x s =>
      refine .here fun hall' => .pure ?_
      rw [List.append_nil]
      have hstands := hvalue.stands (by rw [hall', List.append_assoc])
        (exposed_of_before hnotParen) hreads' (by omega)
      exact ⟨⟨.assign htarget.written hsign hvalue.written, hstands⟩, .assign hreads hsign hreads',
        hafter⟩
    | _ =>
      intro _ _
      exact .target (by rw [hall, List.append_assoc]; rfl) htarget.written hsign
  · refine .pure ?_
    rw [List.append_nil]
    have hjoins : mid.kind.joins = false := joins_eq_false hne hmid
    exact ⟨htarget, hreads.whole List.suffix_rfl, hjoins⟩

theorem expression_locates_of (h : ∀ inner, room = inner + 1 → ExpressionsLocate all inner)
    (before : List Token) (c : Cursor) :
    Locates all (expression room) before c (FindsExpression all room) := by
  cases room with
  | zero => exact .congr (by rw [expression]) (.tooDeep .expression)
  | succ inner =>
    refine .congr (by rw [expression]) (((h inner rfl).assignment before c).mono ?_)
    exact fun e ts after hfinds => ⟨inner, rfl, hfinds⟩

theorem expressionsLocate (hroom : room ≤ loneRoom) : ExpressionsLocate all room := by
  have of_inner : ∀ room, room ≤ loneRoom →
      (∀ inner, room = inner + 1 → ExpressionsLocate all inner) → ExpressionsLocate all room := by
    intro room hroom h
    have hexpr := expression_locates_of h
    have hprimary := primary_locates h hexpr hroom
    have hoperation := operation_locates h hprimary hroom
    exact ⟨hprimary, hoperation, fun l ls hls used left ts before c => chain_locates h hls,
      assignment_locates (hoperation Level.all List.suffix_rfl) hexpr hroom⟩
  induction room with
  | zero => exact of_inner 0 hroom nofun
  | succ room ih =>
    refine of_inner (room + 1) hroom fun inner hi => ?_
    cases hi
    exact ih (by omega)

/-- An expression is located, whatever room it has. -/
theorem expression_locates (hroom : room ≤ loneRoom + 1) (before : List Token) (c : Cursor) :
    Locates all (expression room) before c (FindsExpression all room) :=
  expression_locates_of (fun _ hi => expressionsLocate (by omega)) before c

end Expressions

/-! ## Statements -/

section Statements

variable {all : List Token} {room : Nat} {statement : Parser Stmt}
  {elseIf : Parser (Expr × Block × Otherwise)} {before : List Token} {c : Cursor}

theorem FindsExpression.stands {e : Expr} {ts : List Token} {after : Cursor}
    (h : FindsExpression all room e ts after) (hroom : room ≤ loneRoom + 1)
    (hall : all = before ++ ts ++ after.tokens) (hexposed : Exposed before after.tokens) :
    ∀ e' ∈ e.nodes, e'.Stands all := by
  obtain ⟨inner, rfl, hlocated, hreads, -⟩ := h
  exact hlocated.stands (by rw [hall, List.append_assoc]) hexposed hreads (by omega)

theorem binding_locates (hroom : room ≤ loneRoom + 1) (h : c.kind = .keyword .letWord) :
    Locates all (binding room) before c fun b _ _ => ∀ e ∈ b.value.nodes, e.Stands all := by
  have heof : c.kind.isEof = false := by rw [h]; rfl
  by_cases hw : ∃ x, c.advance.kind = .word x
  · obtain ⟨x, hx⟩ := hw
    refine .congr (binding_of_word hx) (.next_bind heof (.next_bind (by rw [hx]; rfl) ?_))
    refine .expect_bind fun hsign => .bind (expression_locates hroom _ _) ?_
    intro value ts after hvalue
    refine .here fun hall => .pure (hvalue.stands hroom hall (exposed_of_before ?_))
    rw [show c.advance.advance.current.kind = .symbol .assign from hsign]
    nofun
  · rw [not_exists] at hw
    have hfail : binding room c =
        (next >>= fun _ => fail (.wantedName c.advance.kind) : Parser Binding) c :=
      binding_of_other hw
    exact .congr hfail (.next_bind heof (.token rfl nofun))

theorem parenthesised_locates (hroom : room ≤ loneRoom + 1) {r : Role} (h : c.kind = .keyword r) :
    Locates all (parenthesised room) before c fun e _ _ => ∀ e' ∈ e.nodes, e'.Stands all := by
  refine .next_bind (by rw [h]; rfl) (.expect_bind fun _ => ?_)
  refine .bind (expression_locates hroom _ _) ?_
  intro e ts mid he
  refine .here fun hall => .expect_bind fun _ => .pure ?_
  exact he.stands hroom hall (exposed_of_keyword h)

theorem clause_locates (hroom : room ≤ loneRoom + 1) {stop : Symbol} {t : Token}
    (ht : t.kind ≠ .symbol .leftParen) :
    Locates all (clause room stop) (before ++ [t]) c fun e _ _ =>
      ∀ e' ∈ nodesOf e, e'.Stands all := by
  by_cases hstop : c.kind = .symbol stop
  · exact .congr (clause_of_stop hstop) (.pure nofun)
  · refine .congr (clause_of_other hstop) (.bind (expression_locates hroom _ _) ?_)
    intro e ts after he
    exact .here fun hall => .pure (he.stands hroom hall (exposed_of_before ht))

/-- What a `for` does before it starts is followed by a semicolon, which tells it from an expression
    in parentheses. -/
theorem init_locates (hroom : room ≤ loneRoom + 1) :
    Locates all (init room) before c fun i _ after =>
      after.kind = .symbol .semicolon → ∀ e ∈ Init.nodes i, e.Stands all := by
  by_cases hs : c.kind = .symbol .semicolon
  · exact .congr (init_of_semicolon hs) (.pure fun _ => nofun)
  by_cases hl : c.kind = .keyword .letWord
  · refine .congr (init_of_let hl) (.bind_pure (binding_locates hroom hl) ?_)
    exact fun b ts after hb _ => hb
  · refine .congr (init_of_other hs hl) (.bind (expression_locates hroom _ _) ?_)
    intro e ts after he
    refine .here fun hall => .pure fun hafter => he.stands hroom hall (exposed_of_after ?_)
    rw [show after.current.kind = .symbol .semicolon from hafter]
    nofun

/-- The expressions of a statement stand among the tokens. -/
def StatementLocates (all : List Token) (statement : Parser Stmt) : Prop :=
  ∀ before c, Locates all statement before c fun s _ _ => ∀ e ∈ s.nodes, e.Stands all

/-- The expressions of what follows an `else` that an `if` follows stand among the tokens. -/
def ElseIfLocates (all : List Token) (elseIf : Parser (Expr × Block × Otherwise)) : Prop :=
  ∀ before c, c.kind = .keyword .ifWord → Locates all elseIf before c fun parts _ _ =>
    ∀ e ∈ (Otherwise.branch parts.1 parts.2.1 parts.2.2).nodes, e.Stands all

theorem statementsWithin_locates (hs : StatementLocates all statement) (stops : Kind → Bool)
    (count : Nat) :
    Locates all (statementsWithin statement stops count) before c fun ss _ _ =>
      ∀ e ∈ Stmt.nodesAll ss, e.Stands all := by
  induction count generalizing before c with
  | zero => exact .pure nofun
  | succ count ih =>
    refine .peek_bind ?_
    split
    · exact .pure nofun
    · refine .bind (hs before c) fun s ts mid hfirst => .bind_pure ih ?_
      exact fun ss us after hrest => List.forall_mem_append.mpr ⟨hfirst, hrest⟩

theorem statements_locates (hs : StatementLocates all statement) (stops : Kind → Bool) :
    Locates all (statements statement stops) before c fun ss _ _ =>
      ∀ e ∈ Stmt.nodesAll ss, e.Stands all :=
  .congr rfl (statementsWithin_locates hs stops c.later.length)

theorem block_locates (hs : StatementLocates all statement) :
    Locates all (block statement) before c fun b _ _ => ∀ e ∈ b.nodes, e.Stands all := by
  refine .expect_bind fun _ => .bind (statements_locates hs endsBlock) ?_
  exact fun ss ts mid hss => .expect_bind fun _ => .pure hss

theorem body_locates (hs : StatementLocates all statement) :
    Locates all (body statement) before c fun b _ _ => ∀ e ∈ b.nodes, e.Stands all := by
  by_cases hk : c.kind = .symbol .leftBrace
  · exact .congr (body_of_leftBrace hk) (block_locates hs)
  · refine .congr (body_of_other hk) (.peek_bind (.bind (hs before c) ?_))
    intro s ts mid hstmt
    refine .congr rfl (.pure ?_)
    simpa [Block.nodes, Stmt.nodesAll] using hstmt

theorem otherwise_locates (hs : StatementLocates all statement) (he : ElseIfLocates all elseIf) :
    Locates all (otherwise statement elseIf) before c fun o _ _ =>
      ∀ e ∈ o.nodes, e.Stands all := by
  by_cases helse : c.kind = .keyword .elseWord
  · have heof : c.kind.isEof = false := by rw [helse]; rfl
    by_cases hif : c.advance.kind = .keyword .ifWord
    · refine .congr (otherwise_of_if helse hif) (.next_bind heof ?_)
      exact .bind_pure (he _ _ hif) fun parts ts after ho => ho
    · refine .congr (otherwise_of_else helse hif) (.next_bind heof ?_)
      exact .bind_pure (block_locates hs) fun b ts after hb => hb
  · exact .congr (otherwise_of_other helse) (.pure nofun)

theorem branch_locates (hroom : room ≤ loneRoom + 1) (hs : StatementLocates all statement)
    (he : ElseIfLocates all elseIf) (h : c.kind = .keyword .ifWord) :
    Locates all (branch room statement elseIf) before c fun parts _ _ =>
      ∀ e ∈ (Otherwise.branch parts.1 parts.2.1 parts.2.2).nodes, e.Stands all := by
  refine .congr (by rw [branch_eq]) (.bind (parenthesised_locates hroom h) ?_)
  intro condition ts mid hcondition
  refine .bind (block_locates hs) fun consequence us mid' hconsequence => ?_
  refine .bind_pure (otherwise_locates hs he) fun alternative vs after halternative => ?_
  simp only [Otherwise.nodes, List.forall_mem_append]
  exact ⟨⟨hcondition, hconsequence⟩, halternative⟩

theorem forLoop_locates (hroom : room ≤ loneRoom + 1) (hs : StatementLocates all statement)
    (h : c.kind = .keyword .forWord) :
    Locates all (forLoop room statement) before c fun s _ _ => ∀ e ∈ s.nodes, e.Stands all := by
  have hsemicolon : ∀ {t : Token}, t.kind = .symbol .semicolon → t.kind ≠ .symbol .leftParen := by
    intro t ht
    rw [ht]
    nofun
  refine .next_bind (by rw [h]; rfl) (.expect_bind fun _ => .bind (init_locates hroom) ?_)
  intro start _ _ hstart
  refine .expect_bind fun hstop => .bind (clause_locates hroom (hsemicolon hstop)) ?_
  intro condition _ _ hcondition
  refine .expect_bind fun hstop' => .bind (clause_locates hroom (hsemicolon hstop')) ?_
  intro increment _ _ hincrement
  refine .expect_bind fun _ => .bind_pure (body_locates hs) ?_
  intro b _ _ hb
  simp only [Stmt.nodes, List.forall_mem_append]
  exact ⟨⟨⟨hstart hstop, hcondition⟩, hincrement⟩, hb⟩

theorem expressionStatement_locates (hroom : room ≤ loneRoom + 1) :
    Locates all (expressionStatement room) before c fun s _ _ =>
      ∀ e ∈ s.nodes, e.Stands all := by
  refine .bind (expression_locates hroom _ _) ?_
  intro e ts mid he
  have hstands : mid.kind ≠ .symbol .rightParen → all = before ++ ts ++ mid.tokens →
      ∀ e' ∈ e.nodes, e'.Stands all :=
    fun hk hall => he.stands hroom hall (exposed_of_after hk)
  refine .here fun hall => .eat_bind (fun hk => .pure (hstands (by rw [hk]; nofun) hall)) ?_
  refine fun _ => .peek_bind ?_
  by_cases hends : endsBlock mid.kind = true
  · refine .congr (congrFun (if_pos hends) mid) (.pure (hstands ?_ hall))
    intro hk
    rw [hk] at hends
    cases hends
  · exact .congr (congrFun (if_neg hends) mid) (.wanted (.symbol .semicolon))

theorem statementAt_locates (hroom : room ≤ loneRoom + 1) (hs : StatementLocates all statement)
    (he : ElseIfLocates all elseIf) :
    Locates all (statementAt room statement elseIf) before c fun s _ _ =>
      ∀ e ∈ s.nodes, e.Stands all := by
  by_cases hlet : c.kind = .keyword .letWord
  · refine .congr (statementAt_let hlet) (.bind (binding_locates hroom hlet) ?_)
    exact fun b ts mid hb => .eat_bind (fun _ => .pure hb) fun _ => .pure hb
  by_cases hprint : c.kind = .keyword .printWord
  · refine .congr (statementAt_print hprint) (.bind (parenthesised_locates hroom hprint) ?_)
    exact fun e ts mid hv => .eat_bind (fun _ => .pure hv) fun _ => .pure hv
  by_cases hif : c.kind = .keyword .ifWord
  · refine .congr (statementAt_if hif) (.bind_pure (branch_locates hroom hs he hif) ?_)
    exact fun parts ts after hb => hb
  by_cases hwhile : c.kind = .keyword .whileWord
  · refine .congr (statementAt_while hwhile) (.bind (parenthesised_locates hroom hwhile) ?_)
    refine fun condition ts mid hc => .bind_pure (body_locates hs) fun b us after hb => ?_
    exact List.forall_mem_append.mpr ⟨hc, hb⟩
  by_cases hfor : c.kind = .keyword .forWord
  · exact .congr (statementAt_for hfor) (forLoop_locates hroom hs hfor)
  by_cases hbrace : c.kind = .symbol .leftBrace
  · refine .congr (statementAt_leftBrace hbrace) (.bind_pure (block_locates hs) ?_)
    exact fun b ts after hb => hb
  · refine .congr (statementAt_expression ?_) (expressionStatement_locates hroom)
    simp [Kind.leads, ← Bool.not_eq_true, *]

end Statements

theorem statement_elseIf_locates (all : List Token) {room : Nat} (hroom : room ≤ maxNesting) :
    StatementLocates all (statement room) ∧ ElseIfLocates all (elseIf room) := by
  induction room with
  | zero =>
    refine ⟨fun before c => ?_, fun before c _ => ?_⟩
    · exact .congr (by rw [statement]) (.tooDeep .statement)
    · exact .congr (by rw [elseIf]) (.tooDeep .statement)
  | succ room ih =>
    have ih := ih (by omega)
    have hinner : room ≤ loneRoom + 1 := Nat.le_of_succ_le_succ hroom
    refine ⟨fun before c => ?_, fun before c hif => ?_⟩
    · exact .congr (by rw [statement]) (statementAt_locates hinner ih.1 ih.2)
    · exact .congr (by rw [elseIf]) (branch_locates hinner ih.1 ih.2 hif)

theorem program_locates (all : List Token) (c : Cursor) :
    Locates all program [] c fun p _ _ => ∀ e ∈ p.nodes, e.Stands all :=
  .bind_pure (statements_locates (statement_elseIf_locates all (Nat.le_refl _)).1 Kind.isEof)
    fun _ _ _ hss => hss

end Parser

/-! ## Programs -/

namespace Program

variable {tokens body : List Token} {s : Span}

theorem meets_program (h : tokens = body ++ [⟨.eof, s⟩]) :
    (Parser.program (.ofTokens tokens)).Meets (fun p _ => ∀ e ∈ p.nodes, e.Stands tokens)
      (ParseError.PointsInto tokens) := by
  have hprogram := Parser.program_locates tokens (.ofTokens tokens)
    (Cursor.closed_ofTokens tokens) (Cursor.tokens_ofTokens h).symm
  exact hprogram.mono (fun p after ⟨_, _, hp⟩ => hp) fun _ he => he

/-- Every expression of a program stands among its tokens. -/
theorem stands_of_parse {p : Program} (h : tokens = body ++ [⟨.eof, s⟩])
    (hp : parse tokens = .ok p) : ∀ e ∈ p.nodes, e.Stands tokens := by
  obtain ⟨after, hok⟩ := parse_eq_ok_iff.mp hp
  have hmeets := meets_program h
  rwa [hok] at hmeets

/-- Every error of the parser points into the tokens. -/
theorem pointsInto_of_parse {e : ParseError} (h : tokens = body ++ [⟨.eof, s⟩])
    (he : parse tokens = .error e) : e.PointsInto tokens := by
  obtain ⟨place, herror⟩ := parse_eq_error_iff.mp he
  have hmeets := meets_program h
  rwa [herror] at hmeets

end Program

end Respell
