-- SUMMARY: Tokens with other labels are parsed to the tree with these labels.
import Respell.Proofs.Parsing.Soundness
import Respell.Proofs.Relabelling

/-!
# Parsing relabelled tokens

No production looks at a name, and spans are only merged. So if every token gets other labels, and
merging spans goes with that, the parser answers the same with the labels changed. Cursors mirror
one another if their tokens do; `Tracks` says that two parsers keep this up, and holds of every
production.
-/

namespace Respell

/-! ## Tokens and complaints with other labels -/

/-- A kind with other labels. -/
def Kind.relabel (ℓ : Labels) : Kind → Kind
  | .word x => .word (ℓ.name x)
  | k => k

/-- A token with other labels. -/
def Token.relabel (ℓ : Labels) (t : Token) : Token :=
  ⟨t.kind.relabel ℓ, ℓ.span t.span⟩

@[simp] theorem Token.kind_relabel (ℓ : Labels) (t : Token) :
    (t.relabel ℓ).kind = t.kind.relabel ℓ := rfl

@[simp] theorem Token.span_relabel (ℓ : Labels) (t : Token) :
    (t.relabel ℓ).span = ℓ.span t.span := rfl

/-- A complaint with other labels. -/
def Complaint.relabel (ℓ : Labels) : Complaint → Complaint
  | .wanted what found => .wanted what (found.relabel ℓ)
  | .wantedName found => .wantedName (found.relabel ℓ)
  | .notAssignable => .notAssignable
  | .tooDeep what => .tooDeep what

/-- A parse error with other labels. -/
def ParseError.relabel (ℓ : Labels) (e : ParseError) : ParseError :=
  ⟨e.complaint.relabel ℓ, ℓ.span e.span⟩

/-- Merging spans goes with the labels. -/
def Labels.Merges (ℓ : Labels) : Prop :=
  ∀ a b : Span, ℓ.span (a.merge b) = (ℓ.span a).merge (ℓ.span b)

namespace Kind

variable (ℓ : Labels)

@[simp] theorem isSymbol_relabel (k : Kind) (s : Symbol) :
    (k.relabel ℓ).isSymbol s = k.isSymbol s := by
  cases k <;> rfl

@[simp] theorem isKeyword_relabel (k : Kind) (r : Role) :
    (k.relabel ℓ).isKeyword r = k.isKeyword r := by
  cases k <;> rfl

@[simp] theorem isEof_relabel (k : Kind) : (k.relabel ℓ).isEof = k.isEof := by
  cases k <;> rfl

theorem relabel_of_name {k : Kind} {ℓ : Labels} (hℓ : ℓ.name = id) : k.relabel ℓ = k := by
  cases k with
  | word x =>
    rw [relabel, hℓ]
    rfl
  | _ => rfl

@[simp] theorem operator?_relabel (l : Level) (k : Kind) :
    l.operator? (k.relabel ℓ) = l.operator? k := by
  cases k with
  | word x => cases l <;> rfl
  | _ => rfl

@[simp] theorem endsBlock_relabel (k : Kind) :
    Parser.endsBlock (k.relabel ℓ) = Parser.endsBlock k := by
  simp [Parser.endsBlock]

end Kind

theorem Kind.relabel_same (k : Kind) : k.relabel .same = k :=
  relabel_of_name rfl

theorem ParseError.relabel_same (e : ParseError) : e.relabel .same = e := by
  obtain ⟨complaint, span⟩ := e
  cases complaint <;> simp [relabel, Complaint.relabel, Kind.relabel_same]

theorem Token.relabel_same (t : Token) : t.relabel .same = t := by
  rw [relabel, Kind.relabel_same, Labels.same_span]

theorem Expr.relabel_withSpan (ℓ : Labels) (s : Span) (e : Expr) :
    (e.withSpan s).relabel ℓ = (e.relabel ℓ).withSpan (ℓ.span s) := by
  cases e <;> rfl

/-! ## Cursors -/

/-- The second cursor is the first with other labels. At the start, where all `total` tokens are
    still ahead, nothing has been read and the previous span may be any. -/
structure Cursor.Mirrors (ℓ : Labels) (total : Nat) (c c' : Cursor) : Prop where
  current : c'.current = c.current.relabel ℓ
  later : c'.later = c.later.map (Token.relabel ℓ)
  closed : c.Closed
  ahead_le : c.ahead.length ≤ total
  previous : c.ahead.length < total → c'.previous = ℓ.span c.previous

/-- The second reply is the first with other labels; `f` changes them in its value. -/
inductive Reply.Mirrors {α : Type} (ℓ : Labels) (total : Nat) (f : α → α) :
    Reply α → Reply α → Prop where
  | ok {c c' : Cursor} (a : α) : c.Mirrors ℓ total c' → Mirrors ℓ total f (.ok a c) (.ok (f a) c')
  | error {c c' : Cursor} (e : ParseError) :
      Mirrors ℓ total f (.error e c) (.error (e.relabel ℓ) c')

namespace Cursor.Mirrors

variable {ℓ : Labels} {total : Nat} {c c' : Cursor}

theorem kind (h : c.Mirrors ℓ total c') : c'.kind = c.kind.relabel ℓ := by
  rw [Cursor.kind, h.current]
  rfl

theorem advance (h : c.Mirrors ℓ total c') : c.advance.Mirrors ℓ total c'.advance := by
  have heof' : c'.kind.isEof = c.kind.isEof := by rw [h.kind, Kind.isEof_relabel]
  cases heof : c.kind.isEof with
  | true =>
    rw [heof] at heof'
    rwa [advance_of_isEof heof, advance_of_isEof heof']
  | false =>
    rw [heof] at heof'
    have hahead := (h.closed.reads_advance heof).length_le
    have hle := h.ahead_le
    simp only [List.length_singleton] at hahead
    refine ⟨?_, ?_, h.closed.advance, by omega, fun _ => ?_⟩ <;>
    cases hl : c.later with
    | nil =>
      obtain ⟨t, ht, hk⟩ := h.closed
      rw [hl, List.mem_singleton] at ht
      subst ht
      rw [Cursor.kind, hk] at heof
      cases heof
    | cons next later =>
      have hl' := h.later
      rw [hl, List.map_cons] at hl'
      simp [Cursor.advance, hl, hl', heof, heof', h.current, Token.relabel]

end Cursor.Mirrors

/-! ## Parsers -/

namespace Parser

/-- From cursors that mirror one another, the parsers give replies that do. -/
def Tracks {α : Type} (ℓ : Labels) (total : Nat) (f : α → α) (p p' : Parser α) : Prop :=
  ∀ ⦃c c' : Cursor⦄, c.Mirrors ℓ total c' → (p c).Mirrors ℓ total f (p' c')

namespace Tracks

variable {α β : Type} {ℓ : Labels} {total : Nat} {f : α → α} {g : β → β}

theorem pure {a a' : α} (ha : f a = a') : Tracks ℓ total f (pure a) (pure a') :=
  fun _ _ h => ha ▸ .ok a h

/-- The second parsers start where the first ones have stopped. -/
theorem bind_at {p p' : Parser β} {k k' : β → Parser α} {c c' : Cursor}
    (hp : Tracks ℓ total g p p') (h : c.Mirrors ℓ total c')
    (hk : ∀ b mid mid', p c = .ok b mid → mid.Mirrors ℓ total mid' →
      (k b mid).Mirrors ℓ total f (k' (g b) mid')) :
    ((p >>= k) c).Mirrors ℓ total f ((p' >>= k') c') := by
  change (Parser.bind p k c).Mirrors ℓ total f (Parser.bind p' k' c')
  have hr := hp h
  unfold Parser.bind
  generalize p c = r, p' c' = r' at hr hk
  cases hr with
  | ok b hmid => exact hk b _ _ rfl hmid
  | error e => exact .error e

theorem bind {p p' : Parser β} {k k' : β → Parser α} (hp : Tracks ℓ total g p p')
    (hk : ∀ b, Tracks ℓ total f (k b) (k' (g b))) :
    Tracks ℓ total f (p >>= k) (p' >>= k') :=
  fun _ _ h => bind_at hp h fun b _ _ _ hmid => hk b hmid

theorem peek : Tracks ℓ total (Token.relabel ℓ) peek peek := by
  intro c c' h
  rw [Parser.peek, Parser.peek, h.current]
  exact .ok c.current h

theorem next : Tracks ℓ total (Token.relabel ℓ) next next := by
  intro c c' h
  rw [Parser.next, Parser.next, h.current]
  exact .ok c.current h.advance

theorem failAt (complaint : Complaint) {s s' : Span} (hs : ℓ.span s = s') :
    Tracks ℓ total f (failAt complaint s) (failAt (complaint.relabel ℓ) s') :=
  fun _ _ _ => hs ▸ .error ⟨complaint, s⟩

theorem fail (complaint : Complaint) :
    Tracks ℓ total f (fail complaint) (fail (complaint.relabel ℓ)) := by
  intro c c' h
  rw [Parser.fail, Parser.fail, h.current]
  exact .error ⟨complaint, c.current.span⟩

theorem tooDeep (what : Construct) : Tracks ℓ total f (tooDeep what) (tooDeep what) :=
  fail (.tooDeep what)

theorem wanted (what : Wanted) : Tracks ℓ total f (wanted what) (wanted what) := by
  intro c c' h
  rw [Parser.wanted, Parser.wanted, h.kind]
  exact fail (.wanted what c.kind) h

theorem sees (s : Symbol) : Tracks ℓ total id (sees s) (sees s) := by
  intro c c' h
  rw [Parser.sees, Parser.sees, h.kind, Kind.isSymbol_relabel]
  exact .ok _ h

theorem eat (s : Symbol) : Tracks ℓ total id (eat s) (eat s) := by
  intro c c' h
  rw [Parser.eat, Parser.eat, h.kind, Kind.isSymbol_relabel]
  split
  · exact .ok true h.advance
  · exact .ok false h

theorem expect (s : Symbol) : Tracks ℓ total ℓ.span (expect s) (expect s) := by
  intro c c' h
  rw [Parser.expect, Parser.expect, h.kind, Kind.isSymbol_relabel]
  split
  · rw [h.current]
    exact .ok c.current.span h.advance
  · exact wanted (.symbol s) h

end Tracks

/-! ## Expressions -/

section Expressions

variable {ℓ : Labels} {total : Nat}

mutual

theorem expression_tracks (hℓ : ℓ.Merges) (room : Nat) :
    Tracks ℓ total (Expr.relabel ℓ) (expression room) (expression room) := by
  match room with
  | 0 =>
    rw [expression]
    exact .tooDeep .expression
  | room + 1 =>
    rw [expression]
    exact assignment_tracks hℓ room
termination_by (room, 0)

theorem assignment_tracks (hℓ : ℓ.Merges) (room : Nat) :
    Tracks ℓ total (Expr.relabel ℓ) (assignment room) (assignment room) := by
  rw [assignment]
  refine .bind (operation_tracks hℓ room Level.all) fun target => .bind .peek fun sign => ?_
  refine .bind (.eat .assign) fun eaten => ?_
  cases eaten with
  | false => exact .pure rfl
  | true =>
    refine .bind (expression_tracks hℓ room) fun value => ?_
    cases target with
    | name x s => exact .pure (by rw [Expr.relabel, hℓ, Expr.span_relabel])
    | _ => exact .failAt .notAssignable (hℓ _ _)
termination_by (room, 4 + Level.all.length)

theorem operation_tracks (hℓ : ℓ.Merges) (room : Nat) (levels : List Level) :
    Tracks ℓ total (Expr.relabel ℓ) (operation room levels) (operation room levels) := by
  match levels with
  | [] =>
    rw [operation]
    exact primary_tracks hℓ room
  | level :: levels =>
    rw [operation]
    exact .bind (operation_tracks hℓ room levels) fun left => chain_tracks hℓ room level levels left
termination_by (room, 3 + levels.length)

theorem chain_tracks (hℓ : ℓ.Merges) (room : Nat) (level : Level) (levels : List Level)
    (left : Expr) :
    Tracks ℓ total (Expr.relabel ℓ) (chain room level levels left)
      (chain room level levels (left.relabel ℓ)) := by
  rw [chain.eq_def, chain.eq_def]
  refine .bind .peek fun t => ?_
  rw [Token.kind_relabel, Kind.operator?_relabel]
  cases level.operator? t.kind with
  | none => exact .pure rfl
  | some op =>
    match room with
    | 0 => exact .tooDeep .expression
    | room + 1 =>
      refine .bind .next fun _ => .bind (operation_tracks hℓ room levels) fun right => ?_
      have := chain_tracks hℓ room level levels (.binary op left right (left.span.merge right.span))
      rwa [Expr.relabel, hℓ, ← Expr.span_relabel, ← Expr.span_relabel] at this
termination_by (room, 0)

theorem primary_tracks (hℓ : ℓ.Merges) (room : Nat) :
    Tracks ℓ total (Expr.relabel ℓ) (primary room) (primary room) := by
  rw [primary.eq_def]
  refine .bind .peek fun t => ?_
  obtain ⟨kind, span⟩ := t
  cases kind with
  | number x => exact .bind .next fun _ => .pure rfl
  | text s => exact .bind .next fun _ => .pure rfl
  | word x => exact .bind .next fun _ => .pure rfl
  | eof => exact .wanted .expression
  | keyword role =>
    cases role with
    | trueWord => exact .bind .next fun _ => .pure rfl
    | falseWord => exact .bind .next fun _ => .pure rfl
    | _ => exact .wanted .expression
  | symbol s =>
    cases s with
    | plus => exact unary_tracks hℓ room .plus span
    | minus => exact unary_tracks hℓ room .negate span
    | bang => exact unary_tracks hℓ room .not span
    | leftParen =>
      refine .bind .next fun _ => .bind (expression_tracks hℓ room) fun inner => ?_
      exact .bind (.expect .rightParen) fun stop => .pure (by
        rw [Expr.relabel_withSpan, hℓ, Token.span_relabel])
    | _ => exact .wanted .expression
termination_by (room, 2)

theorem unary_tracks (hℓ : ℓ.Merges) (room : Nat) (op : UnaryOp) (start : Span) :
    Tracks ℓ total (Expr.relabel ℓ) (unary room op start) (unary room op (ℓ.span start)) := by
  rw [unary.eq_def, unary.eq_def]
  refine .bind .next fun _ => ?_
  match room with
  | 0 => exact .tooDeep .expression
  | room + 1 =>
    refine .bind (primary_tracks hℓ room) fun operand => .pure ?_
    rw [Expr.relabel, hℓ, Expr.span_relabel]
termination_by (room, 1)

end

end Expressions

/-! ## Statements -/

section Statements

variable {ℓ : Labels} {total room : Nat} {statement : Parser Stmt}
  {elseIf : Parser (Expr × Block × Otherwise)}

/-- The parts of an `if` with other labels. -/
def relabelParts (ℓ : Labels) (parts : Expr × Block × Otherwise) : Expr × Block × Otherwise :=
  (parts.1.relabel ℓ, parts.2.1.relabel ℓ, parts.2.2.relabel ℓ)

theorem binding_tracks (hℓ : ℓ.Merges) :
    Tracks ℓ total (Binding.relabel ℓ) (binding room) (binding room) := by
  refine .bind .next fun start => .bind .peek fun t => ?_
  obtain ⟨kind, span⟩ := t
  cases kind with
  | word x =>
    refine .bind .next fun _ => .bind (.expect .assign) fun _ => ?_
    refine .bind (expression_tracks hℓ room) fun value => .pure ?_
    rw [Binding.relabel, hℓ, Expr.span_relabel, Token.span_relabel]
  | _ => exact .fail (.wantedName _)

theorem parenthesised_tracks (hℓ : ℓ.Merges) :
    Tracks ℓ total (Expr.relabel ℓ) (parenthesised room) (parenthesised room) := by
  refine .bind .next fun _ => .bind (.expect .leftParen) fun _ => ?_
  refine .bind (expression_tracks hℓ room) fun inner => ?_
  exact .bind (.expect .rightParen) fun _ => .pure rfl

theorem clause_tracks (hℓ : ℓ.Merges) (stop : Symbol) :
    Tracks ℓ total (Option.map (Expr.relabel ℓ)) (clause room stop) (clause room stop) := by
  refine .bind (.sees stop) fun seen => ?_
  cases seen with
  | true => exact .pure rfl
  | false => exact .bind (expression_tracks hℓ room) fun e => .pure rfl

theorem init_tracks (hℓ : ℓ.Merges) :
    Tracks ℓ total (Option.map (Init.relabel ℓ)) (init room) (init room) := by
  refine .bind .peek fun t => ?_
  obtain ⟨kind, span⟩ := t
  have hexpr : Tracks ℓ total (Option.map (Init.relabel ℓ))
      (do return some (.expr (← expression room))) (do return some (.expr (← expression room))) :=
    .bind (expression_tracks hℓ room) fun e => .pure rfl
  cases kind with
  | keyword role =>
    cases role with
    | letWord => exact .bind (binding_tracks hℓ) fun b => .pure rfl
    | _ => exact hexpr
  | symbol s =>
    cases s with
    | semicolon => exact .pure rfl
    | _ => exact hexpr
  | _ => exact hexpr

theorem statementsWithin_tracks (hs : Tracks ℓ total (Stmt.relabel ℓ) statement statement)
    {stops : Kind → Bool} (hstops : ∀ k : Kind, stops (k.relabel ℓ) = stops k) (count : Nat) :
    Tracks ℓ total (Stmt.relabelAll ℓ) (statementsWithin statement stops count)
      (statementsWithin statement stops count) := by
  induction count with
  | zero => exact .pure rfl
  | succ count ih =>
    refine .bind .peek fun t => ?_
    rw [Token.kind_relabel, hstops]
    split
    · exact .pure rfl
    · exact .bind hs fun first => .bind ih fun rest => .pure rfl

theorem statements_tracks (hs : Tracks ℓ total (Stmt.relabel ℓ) statement statement)
    {stops : Kind → Bool} (hstops : ∀ k : Kind, stops (k.relabel ℓ) = stops k) :
    Tracks ℓ total (Stmt.relabelAll ℓ) (statements statement stops)
      (statements statement stops) := by
  intro c c' h
  rw [statements, statements, h.later, List.length_map]
  exact statementsWithin_tracks hs hstops c.later.length h

theorem block_tracks (hℓ : ℓ.Merges) (hs : Tracks ℓ total (Stmt.relabel ℓ) statement statement) :
    Tracks ℓ total (Block.relabel ℓ) (block statement) (block statement) := by
  refine .bind (.expect .leftBrace) fun start => ?_
  refine .bind (statements_tracks hs (Kind.endsBlock_relabel ℓ)) fun inner => ?_
  exact .bind (.expect .rightBrace) fun stop => .pure (by rw [Block.relabel, hℓ])

-- A single statement has read a token, so the previous span is that of the token it ends with.
theorem body_tracks (hℓ : ℓ.Merges) (hs : Tracks ℓ total (Stmt.relabel ℓ) statement statement)
    (hsound : StatementSound room statement) :
    Tracks ℓ total (Block.relabel ℓ) (body statement) (body statement) := by
  refine .bind (.sees .leftBrace) fun seen => ?_
  cases seen with
  | true => exact block_tracks hℓ hs
  | false =>
    refine .bind .peek fun first c c' h => ?_
    refine Tracks.bind_at hs h fun only mid mid' hmid h' => ?_
    have hmeets := hsound c h.closed
    rw [hmid] at hmeets
    obtain ⟨ks, hreads, hyields⟩ := hmeets
    obtain ⟨k, us, rfl, -⟩ := hyields.starts
    have hlength := hreads.length_le
    have hle := h.ahead_le
    simp only [List.length_cons] at hlength
    refine Tracks.pure ?_ h'
    rw [Block.relabel, hℓ, h'.previous (by omega)]
    rfl

theorem otherwise_tracks (hℓ : ℓ.Merges)
    (hs : Tracks ℓ total (Stmt.relabel ℓ) statement statement)
    (he : Tracks ℓ total (relabelParts ℓ) elseIf elseIf) :
    Tracks ℓ total (Otherwise.relabel ℓ) (otherwise statement elseIf)
      (otherwise statement elseIf) := by
  refine .bind .peek fun t => ?_
  rw [Token.kind_relabel, Kind.isKeyword_relabel]
  split
  · refine .bind .next fun _ => .bind .peek fun t => ?_
    rw [Token.kind_relabel, Kind.isKeyword_relabel]
    split
    · exact .bind he fun parts => .pure rfl
    · exact .bind (block_tracks hℓ hs) fun b => .pure rfl
  · exact .pure rfl

theorem branch_tracks (hℓ : ℓ.Merges)
    (hs : Tracks ℓ total (Stmt.relabel ℓ) statement statement)
    (he : Tracks ℓ total (relabelParts ℓ) elseIf elseIf) :
    Tracks ℓ total (relabelParts ℓ) (branch room statement elseIf)
      (branch room statement elseIf) := by
  rw [branch_eq]
  refine .bind (parenthesised_tracks hℓ) fun condition => ?_
  refine .bind (block_tracks hℓ hs) fun consequence => ?_
  exact .bind (otherwise_tracks hℓ hs he) fun alternative => .pure rfl

theorem forLoop_tracks (hℓ : ℓ.Merges)
    (hs : Tracks ℓ total (Stmt.relabel ℓ) statement statement)
    (hsound : StatementSound room statement) :
    Tracks ℓ total (Stmt.relabel ℓ) (forLoop room statement) (forLoop room statement) := by
  refine .bind .next fun _ => .bind (.expect .leftParen) fun _ => ?_
  refine .bind (init_tracks hℓ) fun start => .bind (.expect .semicolon) fun _ => ?_
  refine .bind (clause_tracks hℓ .semicolon) fun condition => .bind (.expect .semicolon) fun _ => ?_
  refine .bind (clause_tracks hℓ .rightParen) fun increment => ?_
  refine .bind (.expect .rightParen) fun _ => ?_
  exact .bind (body_tracks hℓ hs hsound) fun inner => .pure rfl

theorem expressionStatement_tracks (hℓ : ℓ.Merges) :
    Tracks ℓ total (Stmt.relabel ℓ) (expressionStatement room) (expressionStatement room) := by
  refine .bind (expression_tracks hℓ room) fun value => .bind (.eat .semicolon) fun eaten => ?_
  cases eaten with
  | true => exact .pure rfl
  | false =>
    refine .bind .peek fun t => ?_
    rw [Token.kind_relabel, Kind.endsBlock_relabel]
    split
    · exact .pure rfl
    · exact .wanted (.symbol .semicolon)

theorem statementAt_tracks (hℓ : ℓ.Merges)
    (hs : Tracks ℓ total (Stmt.relabel ℓ) statement statement)
    (hsound : StatementSound room statement)
    (he : Tracks ℓ total (relabelParts ℓ) elseIf elseIf) :
    Tracks ℓ total (Stmt.relabel ℓ) (statementAt room statement elseIf)
      (statementAt room statement elseIf) := by
  have hexpr : Tracks ℓ total (Stmt.relabel ℓ) (expressionStatement room)
      (expressionStatement room) := expressionStatement_tracks hℓ
  refine .bind .peek fun t => ?_
  obtain ⟨kind, span⟩ := t
  cases kind with
  | keyword role =>
    cases role with
    | letWord => exact .bind (binding_tracks hℓ) fun b => .bind (.eat .semicolon) fun _ => .pure rfl
    | printWord =>
      exact .bind (parenthesised_tracks hℓ) fun e => .bind (.eat .semicolon) fun _ => .pure rfl
    | ifWord => exact .bind (branch_tracks hℓ hs he) fun parts => .pure rfl
    | whileWord =>
      refine .bind (parenthesised_tracks hℓ) fun condition => ?_
      exact .bind (body_tracks hℓ hs hsound) fun inner => .pure rfl
    | forWord => exact forLoop_tracks hℓ hs hsound
    | _ => exact hexpr
  | symbol s =>
    cases s with
    | leftBrace => exact .bind (block_tracks hℓ hs) fun b => .pure rfl
    | _ => exact hexpr
  | _ => exact hexpr

end Statements

theorem statement_elseIf_tracks {ℓ : Labels} (hℓ : ℓ.Merges) (total room : Nat) :
    Tracks ℓ total (Stmt.relabel ℓ) (statement room) (statement room) ∧
      Tracks ℓ total (relabelParts ℓ) (elseIf room) (elseIf room) := by
  induction room with
  | zero => exact ⟨.tooDeep .statement, .tooDeep .statement⟩
  | succ room ih =>
    have hsound := (statement_elseIf_sound room).1
    exact ⟨statementAt_tracks hℓ ih.1 hsound ih.2, branch_tracks hℓ ih.1 ih.2⟩

theorem program_tracks {ℓ : Labels} (hℓ : ℓ.Merges) (total : Nat) :
    Tracks ℓ total (Program.relabel ℓ) program program := by
  have hs := (statement_elseIf_tracks hℓ total maxNesting).1
  exact .bind (statements_tracks hs (Kind.isEof_relabel ℓ)) fun ss => .pure rfl

end Parser

/-! ## Programs -/

theorem Cursor.ofTokens_eq {first last : Token} {rest : List Token}
    (h : (first :: rest).getLast? = some last) (heof : last.kind.isEof = true) :
    ofTokens (first :: rest) = ⟨0, ⟨0, 0⟩, first, rest⟩ := by
  simp [ofTokens, h, heof]

theorem Cursor.mirrors_ofTokens (ℓ : Labels) {tokens body : List Token} {s : Span}
    (h : tokens = body ++ [⟨.eof, s⟩]) :
    (ofTokens tokens).Mirrors ℓ (ofTokens tokens).ahead.length
      (ofTokens (tokens.map (Token.relabel ℓ))) := by
  cases tokens with
  | nil => simp at h
  | cons first rest =>
    have hlast : (first :: rest).getLast? = some ⟨.eof, s⟩ := by rw [h, List.getLast?_concat]
    have hlast' : (first.relabel ℓ :: rest.map (Token.relabel ℓ)).getLast? =
        some ⟨.eof, ℓ.span s⟩ := by
      rw [← List.map_cons, List.getLast?_map, hlast]
      rfl
    have hclosed := closed_ofTokens (first :: rest)
    rw [List.map_cons, ofTokens_eq hlast' rfl]
    rw [ofTokens_eq hlast rfl] at hclosed ⊢
    exact ⟨rfl, rfl, hclosed, Nat.le_refl _, fun hlt => absurd hlt (Nat.lt_irrefl _)⟩

/-- Relabelled tokens are parsed to the relabelled program, or to the relabelled error. -/
theorem Program.parse_relabel {ℓ : Labels} (hℓ : ℓ.Merges) {tokens body : List Token} {s : Span}
    (h : tokens = body ++ [⟨.eof, s⟩]) :
    Program.parse (tokens.map (Token.relabel ℓ)) =
      ((Program.parse tokens).mapError (ParseError.relabel ℓ)).map (Program.relabel ℓ) := by
  have hm := Parser.program_tracks hℓ _ (Cursor.mirrors_ofTokens ℓ h)
  unfold Program.parse
  generalize Parser.program (Cursor.ofTokens tokens) = r,
    Parser.program (Cursor.ofTokens (tokens.map (Token.relabel ℓ))) = r' at hm
  cases hm with
  | ok p _ => rfl
  | error e => rfl

-- Labels that change every other name change nothing in the tokens, and so nothing in the program.
/-- The names of a program are words of its tokens. -/
theorem Program.names_of_parse {tokens body : List Token} {s : Span} {p : Program}
    (h : tokens = body ++ [⟨.eof, s⟩]) (hp : Program.parse tokens = .ok p) :
    ∀ x ∈ Stmt.namesAll p.statements, ∃ t ∈ tokens, t.kind = .word x := by
  classical
  let ℓ : Labels := ⟨fun x => if ∃ t ∈ tokens, t.kind = .word x then x else x ++ "'", id⟩
  have htokens : tokens.map (Token.relabel ℓ) = tokens := by
    refine (List.map_congr_left fun t ht => ?_).trans (List.map_id tokens)
    obtain ⟨kind, span⟩ := t
    cases kind with
    | word x =>
      have hx : ∃ t ∈ tokens, t.kind = .word x := ⟨_, ht, rfl⟩
      simp [Token.relabel, Kind.relabel, ℓ, hx]
    | _ => rfl
  have hself := Program.parse_relabel (ℓ := ℓ) (fun _ _ => rfl) h
  rw [htokens, hp] at hself
  have hnames : (Stmt.namesAll p.statements).map ℓ.name = Stmt.namesAll p.statements := by
    have hp : p.relabel ℓ = p := (Except.ok.inj hself).symm
    rw [← Stmt.namesAll_relabelAll]
    exact congrArg (fun q => Stmt.namesAll q.statements) hp
  intro x hx
  have hfixed : ℓ.name x = x := List.map_eq_map_iff.mp (hnames.trans (List.map_id _).symm) x hx
  by_contra hno
  rw [show ℓ.name x = x ++ "'" from if_neg hno] at hfixed
  have := congrArg String.length hfixed
  simp at this

end Respell
