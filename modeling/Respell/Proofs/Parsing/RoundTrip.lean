-- SUMMARY: Writing programs as tokens, and reading them back.
import Respell.Proofs.Parsing.Acceptance

/-!
# Unparsing

`Program.unparse` writes a program with a separator after every statement that can have one, with
braces around every body, and with parentheses only where the strength of the operators asks for
them. What it writes is parsed as the same program up to spans.
-/

namespace Respell

open Grammar

/-! ## Strength -/

namespace Level

/-- How tightly the operators of a level bind. An assignment has strength 0. -/
def strength : Level → Nat
  | .either => 1
  | .both => 2
  | .comparison => 3
  | .sum => 4
  | .product => 5

/-- The strength of what is not put together by a binary operator or an assignment. -/
def topStrength : Nat := 6

/-- The levels of at least the given strength, the loosest first. -/
def atLeast (n : Nat) : List Level :=
  all.filter fun l => n ≤ l.strength

theorem atLeast_topStrength : atLeast topStrength = [] := by
  decide

theorem atLeast_strength (l : Level) : atLeast l.strength = l :: atLeast (l.strength + 1) := by
  cases l <;> decide

end Level

namespace BinaryOp

/-- The level of an operator. -/
def level : BinaryOp → Level
  | .add => .sum
  | .sub => .sum
  | .mul => .product
  | .div => .product
  | .equal => .comparison
  | .notEqual => .comparison
  | .less => .comparison
  | .greater => .comparison
  | .both => .both
  | .either => .either

/-- The symbol of a binary operator. -/
def symbol : BinaryOp → Symbol
  | .add => .plus
  | .sub => .minus
  | .mul => .star
  | .div => .slash
  | .equal => .equal
  | .notEqual => .notEqual
  | .less => .less
  | .greater => .greater
  | .both => .both
  | .either => .either

theorem operator?_symbol (op : BinaryOp) : op.level.operator? (.symbol op.symbol) = some op := by
  cases op <;> rfl

end BinaryOp

namespace UnaryOp

/-- The symbol of a unary operator. -/
def symbol : UnaryOp → Symbol
  | .plus => .plus
  | .negate => .minus
  | .not => .bang

theorem unary?_symbol (op : UnaryOp) : (Kind.symbol op.symbol).unary? = some op := by
  cases op <;> rfl

end UnaryOp

/-! ## Unparsing -/

/-- How tightly an expression is bound together. -/
def Expr.strength : Expr → Nat
  | .assign _ _ _ => 0
  | .binary op _ _ _ => op.level.strength
  | _ => Level.topStrength

/-- The tokens of an operand, in parentheses unless it has at least the given strength. -/
def asOperand (needed strength : Nat) (ks : List Kind) : List Kind :=
  if strength < needed then inParens ks else ks

/-- The tokens of an expression. A left operand may be as strong as its operator, which groups to
    the left; a right operand has to be stronger. -/
def Expr.unparse : Expr → List Kind
  | .number x _ => [.number x]
  | .text s _ => [.text s]
  | .bool true _ => [.keyword .trueWord]
  | .bool false _ => [.keyword .falseWord]
  | .name x _ => [.word x]
  | .assign x v _ => .word x :: .symbol .assign :: v.unparse
  | .binary op l r _ =>
    asOperand op.level.strength l.strength l.unparse ++
      .symbol op.symbol :: asOperand (op.level.strength + 1) r.strength r.unparse
  | .unary op e _ => .symbol op.symbol :: asOperand Level.topStrength e.strength e.unparse

/-- The tokens of a definition, without a separator. -/
def Binding.unparse (b : Binding) : List Kind :=
  .keyword .letWord :: .word b.name :: .symbol .assign :: b.value.unparse

/-- The tokens of the start of a `for`. -/
def Init.unparse : Init → List Kind
  | .define b => b.unparse
  | .expr e => e.unparse

/-- The tokens of what may be left out. -/
def unparse? {α : Type} (unparse : α → List Kind) : Option α → List Kind
  | none => []
  | some a => unparse a

mutual

/-- The tokens of a statement. -/
def Stmt.unparse : Stmt → List Kind
  | .define b => b.unparse ++ [.symbol .semicolon]
  | .print e => .keyword .printWord :: (inParens e.unparse ++ [.symbol .semicolon])
  | .block b => b.unparse
  | .branch c b o => .keyword .ifWord :: (inParens c.unparse ++ (b.unparse ++ o.unparse))
  | .whileLoop c b => .keyword .whileWord :: (inParens c.unparse ++ b.unparse)
  | .forLoop i c n b =>
    .keyword .forWord :: (inParens (unparse? Init.unparse i ++ .symbol .semicolon ::
      (unparse? Expr.unparse c ++ .symbol .semicolon :: unparse? Expr.unparse n)) ++ b.unparse)
  | .expr e => e.unparse ++ [.symbol .semicolon]

/-- The tokens of statements. -/
def Stmt.unparseAll : List Stmt → List Kind
  | [] => []
  | s :: ss => s.unparse ++ Stmt.unparseAll ss

/-- The tokens of a block. -/
def Block.unparse : Block → List Kind
  | .mk ss _ => inBraces (Stmt.unparseAll ss)

/-- The tokens of what an `if` does when its condition fails. -/
def Otherwise.unparse : Otherwise → List Kind
  | .nothing => []
  | .block b => .keyword .elseWord :: b.unparse
  | .branch c b o =>
    .keyword .elseWord :: .keyword .ifWord :: (inParens c.unparse ++ (b.unparse ++ o.unparse))

end

/-- The tokens of a program. -/
def Program.unparse (p : Program) : List Kind :=
  Stmt.unparseAll p.statements

/-! ## Derivations of expressions -/

namespace Grammar

/-- What is derived with the tighter levels is derived with one more. -/
theorem Derives.loosen {room : ℕ∞} {e : Expr} {ts : List Kind} {n m : Nat} (hnm : n ≤ m)
    (h : Derives room (.operation (Level.atLeast m)) e ts) :
    Derives room (.operation (Level.atLeast n)) e ts := by
  induction m, hnm using Nat.le_induction with
  | base => exact h
  | succ m _ ih =>
    refine ih ?_
    have hstep : Level.atLeast m = Level.atLeast (m + 1) ∨
        ∃ l, Level.atLeast m = l :: Level.atLeast (m + 1) := by
      match m with
      | 0 => exact .inl (by decide)
      | 1 => exact .inr ⟨.either, by decide⟩
      | 2 => exact .inr ⟨.both, by decide⟩
      | 3 => exact .inr ⟨.comparison, by decide⟩
      | 4 => exact .inr ⟨.sum, by decide⟩
      | 5 => exact .inr ⟨.product, by decide⟩
      | n + 6 => exact .inl (by simp [Level.atLeast, Level.all, Level.strength])
    rcases hstep with hsame | ⟨l, hl⟩
    · rwa [hsame]
    · rw [hl, ← List.append_nil ts]
      exact .chain h .stop

/-- One more operator at the end of a chain. -/
theorem Derives.snoc_rest {room : ℕ∞} {category : Category} {a e : Expr} {us : List Kind}
    (h : Derives room category e us) {l : Level} {ls : List Level}
    (hcategory : category = .rest l ls a) {k : Kind} {op : BinaryOp} {b : Expr} {s : Span}
    {vs : List Kind} (hop : l.operator? k = some op) (hb : Derives ⊤ (.operation ls) b vs) :
    Derives ⊤ (.rest l ls a) (.binary op e b s) (us ++ k :: vs) := by
  induction h generalizing a with
  | stop =>
    cases hcategory
    rw [List.nil_append, ← List.append_nil vs]
    exact .more le_top hop hb .stop
  | more _ hop' hb' _ _ ih =>
    cases hcategory
    rw [List.cons_append, List.append_assoc]
    exact .more le_top hop' (hb'.mono le_top) (ih rfl)
  | _ => cases hcategory

/-- An operator of a level joins an operation of that level and one of the tighter levels. -/
theorem Derives.binary {room : ℕ∞} {l : Level} {ls : List Level} {k : Kind} {op : BinaryOp}
    {a b : Expr} {s : Span} {ts us : List Kind} (ha : Derives room (.operation (l :: ls)) a ts)
    (hop : l.operator? k = some op) (hb : Derives ⊤ (.operation ls) b us) :
    Derives ⊤ (.operation (l :: ls)) (.binary op a b s) (ts ++ k :: us) := by
  cases ha with
  | chain ha₀ ha =>
    rw [List.append_assoc]
    exact .chain (ha₀.mono le_top) (ha.snoc_rest rfl hop hb)

theorem Derives.of_primary {room : ℕ∞} {e : Expr} {ts : List Kind} (ls : List Level)
    (h : Derives room .primary e ts) : Derives room (.operation ls) e ts := by
  induction ls with
  | nil => exact .primary h
  | cons l ls ih =>
    rw [← List.append_nil ts]
    exact .chain ih .stop

end Grammar

/-- The tokens of an expression are an assignment, and an operation of its own strength unless the
    expression is an assignment. -/
def Expr.Unparses (e : Expr) : Prop :=
  Derives ⊤ .assignment e e.unparse ∧
    (0 < e.strength → Derives ⊤ (.operation (Level.atLeast e.strength)) e e.unparse)

theorem Expr.Unparses.of_operation {e : Expr} (hpos : 0 < e.strength)
    (h : Derives ⊤ (.operation (Level.atLeast e.strength)) e e.unparse) : e.Unparses :=
  ⟨.operation (h.loosen hpos), fun _ => h⟩

theorem Expr.Unparses.of_primary {e : Expr} (htop : e.strength = Level.topStrength)
    (h : Derives ⊤ .primary e e.unparse) : e.Unparses :=
  .of_operation (htop ▸ Nat.succ_pos _) (h.of_primary _)

theorem Expr.Unparses.paren {e : Expr} (h : e.Unparses) :
    Derives ⊤ .primary e (inParens e.unparse) := by
  have hparen : Derives ⊤ .primary (e.withSpan e.span) (inParens e.unparse) :=
    .paren (.expression le_top h.1)
  rwa [e.withSpan_span] at hparen

/-- An operand has the strength that is asked for, in parentheses if need be. -/
theorem Expr.Unparses.asOperand {e : Expr} (h : e.Unparses) {n : Nat} (hn : 0 < n) :
    Derives ⊤ (.operation (Level.atLeast n)) e (asOperand n e.strength e.unparse) := by
  unfold Respell.asOperand
  split
  · exact h.paren.of_primary _
  · next hle =>
    have hge : n ≤ e.strength := Nat.le_of_not_lt hle
    exact (h.2 (Nat.lt_of_lt_of_le hn hge)).loosen hge

theorem Expr.unparses (e : Expr) : e.Unparses := by
  induction e with
  | number x s => exact .of_primary rfl (.atom (s := s) rfl)
  | text t s => exact .of_primary rfl (.atom (s := s) rfl)
  | bool b s => cases b <;> exact .of_primary rfl (.atom (s := s) rfl)
  | name x s => exact .of_primary rfl (.atom (s := s) rfl)
  | assign x v s ih =>
    have htarget : Derives ⊤ .primary (.name x s) [.word x] := .atom rfl
    refine ⟨?_, nofun⟩
    exact .assign (htarget.of_primary _) (.expression le_top ih.1)
  | binary op l r s ihl ihr =>
    have hpos : 0 < op.level.strength := by cases op <;> decide
    have hl := ihl.asOperand hpos
    rw [op.level.atLeast_strength] at hl
    refine .of_operation hpos ?_
    rw [Expr.strength, op.level.atLeast_strength]
    exact hl.binary op.operator?_symbol (ihr.asOperand (Nat.succ_pos _))
  | unary op e s ih =>
    have hoperand := ih.asOperand (n := Level.topStrength) (Nat.succ_pos _)
    rw [Level.atLeast_topStrength] at hoperand
    cases hoperand with
    | primary h => exact .of_primary rfl (.unary le_top op.unary?_symbol h)

theorem Expr.derives_unparse (e : Expr) : Derives ⊤ .expression e e.unparse :=
  .expression le_top e.unparses.1

/-! ## Derivations of statements -/

theorem Binding.derives_unparse (b : Binding) : DerivesBinding ⊤ b b.unparse :=
  ⟨_, rfl, b.value.derives_unparse⟩

theorem derivesClause_unparse (e : Option Expr) : DerivesClause ⊤ e (unparse? Expr.unparse e) := by
  cases e with
  | none => rfl
  | some e => exact e.derives_unparse

theorem derivesInit_unparse (i : Option Init) : DerivesInit ⊤ i (unparse? Init.unparse i) := by
  match i with
  | none => rfl
  | some (.define b) => exact b.derives_unparse
  | some (.expr e) => exact e.derives_unparse

mutual

theorem Stmt.yields_unparse (s : Stmt) (after : Kind) :
    Yields Greedy ⊤ (.bare s) s.unparse after := by
  match s with
  | .define b => exact .defineEnded b.derives_unparse
  | .print e => exact .print e.derives_unparse (.inr rfl)
  | .block b => exact .block (b.yields_unparse after)
  | .branch c b o =>
    exact .branch (.ifThen c.derives_unparse (b.yields_unparse _) (o.yields_unparse after))
  | .whileLoop c b => exact .whileLoop c.derives_unparse (.bodyBlock (b.yields_unparse after))
  | .forLoop i c n b =>
    exact .forLoop (derivesInit_unparse i) (derivesClause_unparse c) (derivesClause_unparse n)
      (.bodyBlock (b.yields_unparse after))
  | .expr e => exact .exprEnded e.derives_unparse

theorem Stmt.yields_unparseAll (ss : List Stmt) (after : Kind) :
    Yields Greedy ⊤ (.statements ss) (Stmt.unparseAll ss) after := by
  match ss with
  | [] => exact .nil
  | s :: ss =>
    exact .cons (.statement le_top (s.yields_unparse _)) (Stmt.yields_unparseAll ss after)

theorem Block.yields_unparse (b : Block) (after : Kind) :
    Yields Greedy ⊤ (.block b) b.unparse after := by
  match b with
  | .mk ss s => exact .braces (Stmt.yields_unparseAll ss _)

theorem Otherwise.yields_unparse (o : Otherwise) (after : Kind) :
    Yields Greedy ⊤ (.otherwise o) o.unparse after := by
  match o with
  | .nothing => exact .nothing
  | .block b => exact .elseBlock (b.yields_unparse after)
  | .branch c b o =>
    exact .elseIf le_top
      (.ifThen c.derives_unparse (b.yields_unparse _) (o.yields_unparse after))

end

/-- Parsing undoes unparsing: what a program is written as, with whatever spans, is parsed as a
    program that is the same up to spans, unless it is nested too deeply. -/
theorem Program.parse_unparse (p : Program) (tokens : List Token)
    (hks : tokens.map Token.kind = p.unparse ++ [.eof]) :
    (∃ q, parse tokens = .ok q ∧ q.erase = p.erase) ∨
      ∃ e, parse tokens = .error e ∧ e.BlamesDepth := by
  have hd := Stmt.yields_unparseAll p.statements .eof
  rcases parse_of_yields hks hd.eof_not_mem hd with hok | ⟨e, he, hdeep, -⟩
  · exact .inl hok
  · exact .inr ⟨e, he, ParseError.blamesDepth_iff.mpr hdeep⟩

/-- The tokens `a = -(b + c) * d - (e - f);` are what a program is written as. -/
theorem Program.parse_unparse_grouped :
    let x (name : String) : Expr := .name name ⟨0, 0⟩
    let value : Expr := .binary .sub
      (.binary .mul (.unary .negate (.binary .add (x "b") (x "c") ⟨0, 0⟩) ⟨0, 0⟩) (x "d") ⟨0, 0⟩)
      (.binary .sub (x "e") (x "f") ⟨0, 0⟩) ⟨0, 0⟩
    let p : Program := ⟨[.expr (.assign "a" value ⟨0, 0⟩)]⟩
    let kinds : List Kind := [.word "a", .symbol .assign, .symbol .minus, .symbol .leftParen,
      .word "b", .symbol .plus, .word "c", .symbol .rightParen, .symbol .star, .word "d",
      .symbol .minus, .symbol .leftParen, .word "e", .symbol .minus, .word "f",
      .symbol .rightParen, .symbol .semicolon, .eof]
    let tokens : List Token := kinds.map (⟨·, ⟨0, 0⟩⟩)
    tokens.map Token.kind = p.unparse ++ [.eof] ∧
      ((∃ q, parse tokens = .ok q ∧ q.erase = p.erase) ∨
        ∃ e, parse tokens = .error e ∧ e.BlamesDepth) :=
  ⟨rfl, parse_unparse _ _ rfl⟩

end Respell
