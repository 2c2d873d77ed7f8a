-- SUMMARY: What each production does, by the token at the cursor.
import Respell.Proofs.Parsing.Grammar
import Respell.Proofs.Parsing.Replies

/-!
# Productions

The productions that choose by the next token, one equation for each choice. Proofs about the parser
use these equations and never its definitions.
-/

namespace Respell.Parser

theorem peek_bind {α : Type} (f : Token → Parser α) (c : Cursor) :
    (peek >>= f) c = f c.current c := rfl

theorem next_bind {α : Type} (f : Token → Parser α) (c : Cursor) :
    (next >>= f) c = f c.current c.advance := rfl

theorem eat_bind {α : Type} (s : Symbol) (f : Bool → Parser α) (c : Cursor) :
    (eat s >>= f) c = if c.kind.isSymbol s then f true c.advance else f false c := by
  change Parser.bind (eat s) f c = _
  unfold Parser.bind eat
  cases c.kind.isSymbol s <;> rfl

theorem expect_eq_ok {s : Symbol} {c after : Cursor} {span : Span}
    (h : expect s c = .ok span after) :
    c.kind = .symbol s ∧ span = c.current.span ∧ after = c.advance := by
  unfold expect at h
  split at h
  · next hs =>
    cases h
    exact ⟨Kind.isSymbol_iff.mp hs, rfl, rfl⟩
  · cases h

theorem bind_eq_bind {α β : Type} {p q : Parser β} {f g : β → Parser α} {c : Cursor}
    (hp : p c = q c) (hf : ∀ b mid, p c = .ok b mid → f b mid = g b mid) :
    (p >>= f) c = (q >>= g) c := by
  change Parser.bind p f c = Parser.bind q g c
  unfold Parser.bind
  rw [← hp]
  cases hpc : p c with
  | ok b mid => exact hf b mid hpc
  | error e place => rfl

/-! ## Expressions -/

section Expressions

variable {room : Nat} {c : Cursor}

theorem primary_of_atom {e : Expr} (h : c.kind.atom? c.current.span = some e) :
    primary room c = (do let _ ← next; return e : Parser Expr) c := by
  rw [primary.eq_def, peek_bind]
  unfold Cursor.kind at h
  cases hk : c.current.kind with
  | number x => rw [hk] at h; cases h; rfl
  | text s => rw [hk] at h; cases h; rfl
  | word x => rw [hk] at h; cases h; rfl
  | keyword r => rw [hk] at h; cases r <;> cases h <;> rfl
  | symbol s => rw [hk] at h; cases h
  | eof => rw [hk] at h; cases h

theorem primary_of_leftParen (h : c.kind = .symbol .leftParen) :
    primary room c =
      (do
        let _ ← next
        let inner ← expression room
        let stop ← expect .rightParen
        return inner.withSpan (c.current.span.merge stop) : Parser Expr) c := by
  have hk : c.current.kind = .symbol .leftParen := h
  rw [primary.eq_def, peek_bind]
  simp only [hk]

theorem primary_of_unary {op : UnaryOp} (h : c.kind.unary? = some op) :
    primary room c = unary room op c.current.span c := by
  rw [primary.eq_def, peek_bind]
  unfold Cursor.kind at h
  cases hk : c.current.kind with
  | symbol s => rw [hk] at h; cases s <;> cases h <;> rfl
  | _ => rw [hk] at h; cases h

theorem primary_of_other (ha : c.kind.atom? c.current.span = none)
    (hp : c.kind ≠ .symbol .leftParen) (hu : c.kind.unary? = none) :
    primary room c = wanted .expression c := by
  rw [primary.eq_def, peek_bind]
  unfold Cursor.kind at ha hp hu
  cases hk : c.current.kind with
  | keyword r => rw [hk] at ha; cases r <;> first | rfl | cases ha
  | symbol s =>
    rw [hk] at hp hu
    cases s <;> first | rfl | exact absurd rfl hp | cases hu
  | eof => rfl
  | _ => rw [hk] at ha; cases ha

theorem unary_zero {op : UnaryOp} {start : Span} :
    unary 0 op start c = (do let _ ← next; tooDeep .expression : Parser Expr) c := by
  rw [unary.eq_def]

theorem unary_succ {op : UnaryOp} {start : Span} :
    unary (room + 1) op start c =
      (do
        let _ ← next
        let operand ← primary room
        return .unary op operand (start.merge operand.span) : Parser Expr) c := by
  rw [unary.eq_def]

theorem chain_of_none {l : Level} {ls : List Level} {left : Expr}
    (h : l.operator? c.kind = none) : chain room l ls left c = .ok left c := by
  have h' : l.operator? c.current.kind = none := h
  rw [chain.eq_def, peek_bind]
  simp only [h']
  rfl

theorem chain_zero {l : Level} {ls : List Level} {left : Expr} {op : BinaryOp}
    (h : l.operator? c.kind = some op) : chain 0 l ls left c = tooDeep .expression c := by
  have h' : l.operator? c.current.kind = some op := h
  rw [chain.eq_def, peek_bind]
  simp only [h']

theorem chain_succ {l : Level} {ls : List Level} {left : Expr} {op : BinaryOp}
    (h : l.operator? c.kind = some op) :
    chain (room + 1) l ls left c =
      (do
        let _ ← next
        let right ← operation room ls
        chain room l ls (.binary op left right (left.span.merge right.span)) : Parser Expr) c := by
  have h' : l.operator? c.current.kind = some op := h
  rw [chain.eq_def, peek_bind]
  simp only [h']

end Expressions

/-! ## Statements -/

section Statements

variable {room : Nat} {statement : Parser Stmt} {elseIf : Parser (Expr × Block × Otherwise)}
  {c : Cursor}

theorem statementAt_let (h : c.kind = .keyword .letWord) :
    statementAt room statement elseIf c =
      (do
        let definition ← binding room
        let _ ← eat .semicolon
        return .define definition : Parser Stmt) c := by
  have hk : c.current.kind = .keyword .letWord := h
  rw [statementAt, peek_bind]
  simp only [hk]

theorem statementAt_print (h : c.kind = .keyword .printWord) :
    statementAt room statement elseIf c =
      (do
        let value ← parenthesised room
        let _ ← eat .semicolon
        return .print value : Parser Stmt) c := by
  have hk : c.current.kind = .keyword .printWord := h
  rw [statementAt, peek_bind]
  simp only [hk]

theorem statementAt_if (h : c.kind = .keyword .ifWord) :
    statementAt room statement elseIf c =
      (do
        let parts ← branch room statement elseIf
        return .branch parts.1 parts.2.1 parts.2.2 : Parser Stmt) c := by
  have hk : c.current.kind = .keyword .ifWord := h
  rw [statementAt, peek_bind]
  simp only [hk]

theorem statementAt_while (h : c.kind = .keyword .whileWord) :
    statementAt room statement elseIf c =
      (do
        let condition ← parenthesised room
        let inner ← body statement
        return .whileLoop condition inner : Parser Stmt) c := by
  have hk : c.current.kind = .keyword .whileWord := h
  rw [statementAt, peek_bind]
  simp only [hk]

theorem statementAt_for (h : c.kind = .keyword .forWord) :
    statementAt room statement elseIf c = forLoop room statement c := by
  have hk : c.current.kind = .keyword .forWord := h
  rw [statementAt, peek_bind]
  simp only [hk]

theorem statementAt_leftBrace (h : c.kind = .symbol .leftBrace) :
    statementAt room statement elseIf c =
      (do
        let inner ← block statement
        return .block inner : Parser Stmt) c := by
  have hk : c.current.kind = .symbol .leftBrace := h
  rw [statementAt, peek_bind]
  simp only [hk]

theorem statementAt_expression (h : c.kind.leads = false) :
    statementAt room statement elseIf c = expressionStatement room c := by
  rw [statementAt, peek_bind]
  unfold Cursor.kind at h
  cases hk : c.current.kind with
  | keyword r => rw [hk] at h; cases r <;> first | rfl | cases h
  | symbol s => rw [hk] at h; cases s <;> first | rfl | cases h
  | _ => rfl

theorem binding_of_word {x : String} (h : c.advance.kind = .word x) :
    binding room c =
      (do
        let start ← next
        let _ ← next
        let _ ← expect .assign
        let value ← expression room
        return ⟨x, value, start.span.merge value.span⟩ : Parser Binding) c := by
  have hk : c.advance.current.kind = .word x := h
  rw [binding, next_bind, peek_bind, next_bind]
  simp only [hk]

theorem binding_of_other (h : ∀ x, c.advance.kind ≠ .word x) :
    binding room c =
      .error ⟨.wantedName c.advance.kind, c.advance.current.span⟩ c.advance := by
  rw [binding, next_bind, peek_bind]
  unfold Cursor.kind at h ⊢
  cases hk : c.advance.current.kind with
  | word x => exact absurd hk (h x)
  | _ => rfl

/-- What follows the consequence of an `if`. -/
def otherwise (statement : Parser Stmt) (elseIf : Parser (Expr × Block × Otherwise)) :
    Parser Otherwise := do
  if (← peek).kind.isKeyword .elseWord then
    let _ ← next
    if (← peek).kind.isKeyword .ifWord then
      let parts ← elseIf
      return .branch parts.1 parts.2.1 parts.2.2
    else
      return .block (← block statement)
  else
    return .nothing

theorem branch_eq :
    branch room statement elseIf =
      (do
        let condition ← parenthesised room
        let consequence ← block statement
        let alternative ← otherwise statement elseIf
        return (condition, consequence, alternative)) := by
  unfold branch
  refine congrArg _ (funext fun e => congrArg _ (funext fun b => funext fun c => ?_))
  rw [otherwise, peek_bind]
  cases helse : c.current.kind.isKeyword .elseWord with
  | false => simp [Bind.bind, Parser.bind, peek, helse]
  | true =>
    cases hif : c.advance.current.kind.isKeyword .ifWord with
    | false =>
      simp only [Bind.bind, Parser.bind, peek, next, helse, hif, if_true, Bool.false_eq_true,
        if_false]
      cases block statement c.advance <;> rfl
    | true =>
      simp only [Bind.bind, Parser.bind, peek, next, helse, hif, if_true]
      cases elseIf c.advance <;> rfl

theorem otherwise_of_if (h : c.kind = .keyword .elseWord)
    (hif : c.advance.kind = .keyword .ifWord) :
    otherwise statement elseIf c =
      (do
        let _ ← next
        let parts ← elseIf
        return .branch parts.1 parts.2.1 parts.2.2 : Parser Otherwise) c := by
  have hk : c.current.kind.isKeyword .elseWord = true := Kind.isKeyword_iff.mpr h
  have hk' : c.advance.current.kind.isKeyword .ifWord = true := Kind.isKeyword_iff.mpr hif
  rw [otherwise, peek_bind, if_pos hk, next_bind, peek_bind, if_pos hk', next_bind]

theorem otherwise_of_else (h : c.kind = .keyword .elseWord)
    (hif : c.advance.kind ≠ .keyword .ifWord) :
    otherwise statement elseIf c =
      (do
        let _ ← next
        return .block (← block statement) : Parser Otherwise) c := by
  have hk : c.current.kind.isKeyword .elseWord = true := Kind.isKeyword_iff.mpr h
  have hk' : ¬ c.advance.current.kind.isKeyword .ifWord = true := mt Kind.isKeyword_iff.mp hif
  rw [otherwise, peek_bind, if_pos hk, next_bind, peek_bind, if_neg hk', next_bind]

theorem otherwise_of_other (h : c.kind ≠ .keyword .elseWord) :
    otherwise statement elseIf c = .ok .nothing c := by
  have hk : ¬ c.current.kind.isKeyword .elseWord = true := mt Kind.isKeyword_iff.mp h
  rw [otherwise, peek_bind, if_neg hk]
  rfl

theorem body_of_leftBrace (h : c.kind = .symbol .leftBrace) :
    body statement c = block statement c := by
  have hk : c.kind.isSymbol .leftBrace = true := Kind.isSymbol_iff.mpr h
  simp only [body, Bind.bind, Parser.bind, sees, hk, if_true]

theorem body_of_other (h : c.kind ≠ .symbol .leftBrace) :
    body statement c =
      (do
        let first ← peek
        let only ← statement
        return .mk [only] (first.span.merge (← previous)) : Parser Block) c := by
  have hk : c.kind.isSymbol .leftBrace = false := by simpa [← Bool.not_eq_true] using h
  simp only [body, Bind.bind, Parser.bind, sees, hk]
  rfl

theorem clause_of_stop {stop : Symbol} (h : c.kind = .symbol stop) :
    clause room stop c = .ok none c := by
  have hk : c.kind.isSymbol stop = true := Kind.isSymbol_iff.mpr h
  simp [clause, Bind.bind, Parser.bind, sees, hk]

theorem clause_of_other {stop : Symbol} (h : c.kind ≠ .symbol stop) :
    clause room stop c =
      (do let e ← expression room; return some e : Parser (Option Expr)) c := by
  have hk : c.kind.isSymbol stop = false := by simpa [← Bool.not_eq_true] using h
  simp [clause, Bind.bind, Parser.bind, sees, hk]

theorem init_of_semicolon (h : c.kind = .symbol .semicolon) : init room c = .ok none c := by
  have hk : c.current.kind = .symbol .semicolon := h
  rw [init, peek_bind]
  simp only [hk]
  rfl

theorem init_of_let (h : c.kind = .keyword .letWord) :
    init room c = (do let b ← binding room; return some (.define b) : Parser (Option Init)) c := by
  have hk : c.current.kind = .keyword .letWord := h
  rw [init, peek_bind]
  simp only [hk]

theorem init_of_other (hs : c.kind ≠ .symbol .semicolon) (hl : c.kind ≠ .keyword .letWord) :
    init room c = (do let e ← expression room; return some (.expr e) : Parser (Option Init)) c := by
  rw [init, peek_bind]
  unfold Cursor.kind at hs hl
  cases hk : c.current.kind with
  | keyword r => rw [hk] at hl; cases r <;> first | rfl | exact absurd rfl hl
  | symbol s => rw [hk] at hs; cases s <;> first | rfl | exact absurd rfl hs
  | _ => rfl

theorem statementsWithin_of_stop {stops : Kind → Bool} {c : Cursor} (h : stops c.kind = true)
    (count : Nat) : statementsWithin statement stops count c = .ok [] c := by
  have hk : stops c.current.kind = true := h
  cases count with
  | zero => rfl
  | succ count =>
    rw [statementsWithin, peek_bind, if_pos hk]
    rfl

theorem statementsWithin_of_other {stops : Kind → Bool} {c : Cursor} (h : stops c.kind = false)
    (count : Nat) :
    statementsWithin statement stops (count + 1) c =
      (do
        let first ← statement
        let rest ← statementsWithin statement stops count
        return first :: rest : Parser (List Stmt)) c := by
  have hk : ¬ stops c.current.kind = true := Bool.not_eq_true _ ▸ h
  rw [statementsWithin, peek_bind, if_neg hk]

end Statements

end Respell.Parser
