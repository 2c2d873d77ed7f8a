-- SUMMARY: The grammar of programs: which tokens a tree can be written with.
import Mathlib.Data.ENat.Basic
import Respell.Program.Parser

/-!
# The grammar

Two relations between trees and the kinds of tokens they are written with, one for expressions and
one for statements, with a rule for every production. Spans do not matter.

Nesting is counted by a `room` that every derivation has to fit in: what lies one level deeper has
one level less of it. With `⊤` there is always room, and the relations are the plain grammar.

A separator after a definition can be left out. The grammar does not mind what comes next, although
a sign there could be read as part of the value. The parameter `free` says before which tokens the
separator may be left out, so that the derivations which a greedy reader makes can be told apart.
-/

namespace Respell

namespace Level

theorem mem_all (l : Level) : l ∈ all := by
  cases l <;> decide

theorem nodup_all : all.Nodup := by
  decide

/-- A token is an operator of one level at most. -/
theorem eq_of_operator? {l l' : Level} {k : Kind} {op op' : BinaryOp}
    (h : l.operator? k = some op) (h' : l'.operator? k = some op') : l = l' := by
  cases k with
  | symbol s => cases s <;> cases l <;> cases h <;> cases l' <;> first | rfl | cases h'
  | _ => cases l <;> cases h

theorem operator?_eq_none_of_ne {l l' : Level} {k : Kind} {op : BinaryOp}
    (h : l.operator? k = some op) (hne : l' ≠ l) : l'.operator? k = none := by
  cases h' : l'.operator? k with
  | none => rfl
  | some op' => exact absurd (eq_of_operator? h' h) hne

end Level

namespace Kind

/-- The expression that a single token is. -/
def atom? (span : Span) : Kind → Option Expr
  | .number x => some (.number x span)
  | .text s => some (.text s span)
  | .keyword .trueWord => some (.bool true span)
  | .keyword .falseWord => some (.bool false span)
  | .word x => some (.name x span)
  | _ => none

/-- The unary operator that a token stands for. -/
def unary? : Kind → Option UnaryOp
  | .symbol .plus => some .plus
  | .symbol .minus => some .negate
  | .symbol .bang => some .not
  | _ => none

/-- Whether a token goes on with the expression before it: a binary operator or an assignment. -/
def joins (k : Kind) : Bool :=
  k.isSymbol .assign || Level.all.any fun l => (l.operator? k).isSome

/-- Whether an expression can start with a token. -/
def startsExpression (k : Kind) : Bool :=
  (k.atom? ⟨0, 0⟩).isSome || k.isSymbol .leftParen || k.unary?.isSome

/-- Whether a statement other than an expression can start with a token. -/
def leads (k : Kind) : Bool :=
  k.isSymbol .leftBrace ||
    [Role.letWord, .printWord, .ifWord, .whileWord, .forWord].any k.isKeyword

/-- Whether a statement can start with a token. -/
def startsStatement (k : Kind) : Bool :=
  k.startsExpression || k.leads

/-- Whether a token can be part of an expression. -/
def inExpression (k : Kind) : Bool :=
  k.startsExpression || k.joins || k.isSymbol .rightParen

/-- Whether a token can follow a statement. -/
def endsStatement (k : Kind) : Bool :=
  k.startsStatement || Parser.endsBlock k

theorem startsExpression_of_atom? {k : Kind} {s : Span} {e : Expr} (h : k.atom? s = some e) :
    k.startsExpression = true := by
  cases k with
  | keyword r => cases r <;> first | rfl | cases h
  | symbol s => cases h
  | eof => cases h
  | _ => rfl

theorem joins_of_operator? {l : Level} {k : Kind} {op : BinaryOp} (h : l.operator? k = some op) :
    k.joins = true := by
  have hany : Level.all.any (fun l => (l.operator? k).isSome) = true :=
    List.any_eq_true.mpr ⟨l, Level.mem_all l, by rw [h]; rfl⟩
  rw [joins, hany, Bool.or_true]

theorem leads_of_startsExpression {k : Kind} (h : k.startsExpression = true) :
    k.leads = false := by
  cases k with
  | keyword r => cases r <;> first | rfl | cases h
  | symbol s => cases s <;> first | rfl | cases h
  | _ => rfl

theorem endsBlock_of_startsStatement {k : Kind} (h : k.startsStatement = true) :
    Parser.endsBlock k = false := by
  cases k with
  | symbol s => cases s <;> first | rfl | cases h
  | eof => cases h
  | _ => rfl

theorem joins_of_endsBlock {k : Kind} (h : Parser.endsBlock k = true) : k.joins = false := by
  cases k with
  | symbol s => cases s <;> first | rfl | cases h
  | eof => rfl
  | _ => cases h

theorem isEof_of_startsStatement {k : Kind} (h : k.startsStatement = true) : k.isEof = false := by
  cases k <;> first | rfl | cases h

theorem ne_of_endsStatement {k : Kind} (h : k.endsStatement = true) :
    k ≠ .symbol .semicolon ∧ k ≠ .keyword .elseWord := by
  constructor <;> (rintro rfl; cases h)

theorem isEof_of_atom? {k : Kind} {s : Span} {e : Expr} (h : k.atom? s = some e) :
    k.isEof = false := by
  cases k <;> first | rfl | cases h

theorem isEof_of_unary? {k : Kind} {op : UnaryOp} (h : k.unary? = some op) : k.isEof = false := by
  cases k <;> first | rfl | cases h

theorem isEof_of_operator? {l : Level} {k : Kind} {op : BinaryOp} (h : l.operator? k = some op) :
    k.isEof = false := by
  cases k <;> first | rfl | (cases l <;> cases h)

end Kind

namespace Grammar

/-- One level deeper. -/
theorem room_succ (n : ℕ) : (n : ℕ∞) + 1 ≤ ((n + 1 : ℕ) : ℕ∞) := by
  simp

/-- Tokens in parentheses. -/
def inParens (ks : List Kind) : List Kind :=
  .symbol .leftParen :: (ks ++ [.symbol .rightParen])

/-- Tokens in braces. -/
def inBraces (ks : List Kind) : List Kind :=
  .symbol .leftBrace :: (ks ++ [.symbol .rightBrace])

/-! ## Expressions -/

/-- The categories of expressions. -/
inductive Category where
  | expression
  | assignment
  /-- operands joined by operators of the given levels -/
  | operation (levels : List Level)
  /-- operators of one level and their right operands, after a left operand -/
  | rest (level : Level) (levels : List Level) (left : Expr)
  | primary

/-- An expression of a category is written with the given tokens, and fits in the room. -/
inductive Derives : ℕ∞ → Category → Expr → List Kind → Prop where
  | expression {room inner : ℕ∞} {e : Expr} {ks : List Kind} :
      inner + 1 ≤ room → Derives inner .assignment e ks → Derives room .expression e ks
  | operation {room : ℕ∞} {e : Expr} {ks : List Kind} :
      Derives room (.operation Level.all) e ks → Derives room .assignment e ks
  /-- the target is a variable, which may be in parentheses -/
  | assign {room : ℕ∞} {x : String} {s s' : Span} {v : Expr} {ts us : List Kind} :
      Derives room (.operation Level.all) (.name x s) ts → Derives room .expression v us →
      Derives room .assignment (.assign x v s') (ts ++ .symbol .assign :: us)
  | primary {room : ℕ∞} {e : Expr} {ks : List Kind} :
      Derives room .primary e ks → Derives room (.operation []) e ks
  | chain {room : ℕ∞} {l : Level} {ls : List Level} {a e : Expr} {ts us : List Kind} :
      Derives room (.operation ls) a ts → Derives room (.rest l ls a) e us →
      Derives room (.operation (l :: ls)) e (ts ++ us)
  | stop {room : ℕ∞} {l : Level} {ls : List Level} {e : Expr} : Derives room (.rest l ls e) e []
  /-- operators of one level group to the left -/
  | more {room inner : ℕ∞} {l : Level} {ls : List Level} {k : Kind} {op : BinaryOp} {a b e : Expr}
      {s : Span} {us vs : List Kind} :
      inner + 1 ≤ room → l.operator? k = some op → Derives inner (.operation ls) b us →
      Derives inner (.rest l ls (.binary op a b s)) e vs →
      Derives room (.rest l ls a) e (k :: (us ++ vs))
  | atom {room : ℕ∞} {k : Kind} {s : Span} {e : Expr} :
      k.atom? s = some e → Derives room .primary e [k]
  | paren {room : ℕ∞} {e : Expr} {s : Span} {ks : List Kind} :
      Derives room .expression e ks → Derives room .primary (e.withSpan s) (inParens ks)
  | unary {room inner : ℕ∞} {k : Kind} {op : UnaryOp} {e : Expr} {s : Span} {ks : List Kind} :
      inner + 1 ≤ room → k.unary? = some op → Derives inner .primary e ks →
      Derives room .primary (.unary op e s) (k :: ks)

/-! ## Statements -/

/-- A definition `let name = value`, without a separator. -/
def DerivesBinding (room : ℕ∞) (b : Binding) (ks : List Kind) : Prop :=
  ∃ vs, ks = .keyword .letWord :: .word b.name :: .symbol .assign :: vs ∧
    Derives room .expression b.value vs

/-- An expression that may be left out. -/
def DerivesClause (room : ℕ∞) : Option Expr → List Kind → Prop
  | none, ks => ks = []
  | some e, ks => Derives room .expression e ks

/-- What a `for` does before it starts. -/
def DerivesInit (room : ℕ∞) : Option Init → List Kind → Prop
  | none, ks => ks = []
  | some (.define b), ks => DerivesBinding room b ks
  | some (.expr e), ks => Derives room .expression e ks

/-- The phrases of the statement grammar, each with its tree. -/
inductive Phrase where
  | statement (s : Stmt)
  /-- a statement without the level of nesting that it takes -/
  | bare (s : Stmt)
  | statements (ss : List Stmt)
  | block (b : Block)
  /-- the body of a loop -/
  | body (b : Block)
  /-- an `if` from its keyword on -/
  | branch (condition : Expr) (consequence : Block) (otherwise : Otherwise)
  | otherwise (o : Otherwise)

/-- A phrase is written with the given tokens, directly before the token `after`, and fits in the
    room. Before the tokens in `free` a definition may do without its separator. -/
inductive Yields (free : Kind → Prop) : ℕ∞ → Phrase → List Kind → Kind → Prop where
  | statement {room inner : ℕ∞} {s : Stmt} {ks : List Kind} {after : Kind} :
      inner + 1 ≤ room → Yields free inner (.bare s) ks after →
      Yields free room (.statement s) ks after
  | define {room : ℕ∞} {b : Binding} {ks : List Kind} {after : Kind} :
      DerivesBinding room b ks → free after → Yields free room (.bare (.define b)) ks after
  | defineEnded {room : ℕ∞} {b : Binding} {ks : List Kind} {after : Kind} :
      DerivesBinding room b ks →
      Yields free room (.bare (.define b)) (ks ++ [.symbol .semicolon]) after
  | print {room : ℕ∞} {e : Expr} {ks sep : List Kind} {after : Kind} :
      Derives room .expression e ks → (sep = [] ∨ sep = [.symbol .semicolon]) →
      Yields free room (.bare (.print e)) (.keyword .printWord :: (inParens ks ++ sep)) after
  | branch {room : ℕ∞} {c : Expr} {b : Block} {o : Otherwise} {ks : List Kind} {after : Kind} :
      Yields free room (.branch c b o) ks after →
      Yields free room (.bare (.branch c b o)) ks after
  | whileLoop {room : ℕ∞} {c : Expr} {b : Block} {ks bs : List Kind} {after : Kind} :
      Derives room .expression c ks → Yields free room (.body b) bs after →
      Yields free room (.bare (.whileLoop c b)) (.keyword .whileWord :: (inParens ks ++ bs)) after
  | forLoop {room : ℕ∞} {i : Option Init} {c n : Option Expr} {b : Block} {is cs ns bs : List Kind}
      {after : Kind} :
      DerivesInit room i is → DerivesClause room c cs → DerivesClause room n ns →
      Yields free room (.body b) bs after →
      Yields free room (.bare (.forLoop i c n b)) (.keyword .forWord ::
        (inParens (is ++ .symbol .semicolon :: (cs ++ .symbol .semicolon :: ns)) ++ bs)) after
  | block {room : ℕ∞} {b : Block} {ks : List Kind} {after : Kind} :
      Yields free room (.block b) ks after → Yields free room (.bare (.block b)) ks after
  /-- an expression may do without its separator only where nothing can follow -/
  | expr {room : ℕ∞} {e : Expr} {ks : List Kind} {after : Kind} :
      Derives room .expression e ks → Parser.endsBlock after = true →
      Yields free room (.bare (.expr e)) ks after
  | exprEnded {room : ℕ∞} {e : Expr} {ks : List Kind} {after : Kind} :
      Derives room .expression e ks →
      Yields free room (.bare (.expr e)) (ks ++ [.symbol .semicolon]) after
  | nil {room : ℕ∞} {after : Kind} : Yields free room (.statements []) [] after
  | cons {room : ℕ∞} {s : Stmt} {ss : List Stmt} {ks us : List Kind} {after : Kind} :
      Yields free room (.statement s) ks (us.headD after) →
      Yields free room (.statements ss) us after →
      Yields free room (.statements (s :: ss)) (ks ++ us) after
  | braces {room : ℕ∞} {ss : List Stmt} {s : Span} {ks : List Kind} {after : Kind} :
      Yields free room (.statements ss) ks (.symbol .rightBrace) →
      Yields free room (.block (.mk ss s)) (inBraces ks) after
  | bodyBlock {room : ℕ∞} {b : Block} {ks : List Kind} {after : Kind} :
      Yields free room (.block b) ks after → Yields free room (.body b) ks after
  /-- what stands in braces is a block and not a single statement -/
  | bodyStatement {room : ℕ∞} {s : Stmt} {span : Span} {ks : List Kind} {after : Kind} :
      (∀ b, s ≠ .block b) → Yields free room (.statement s) ks after →
      Yields free room (.body (.mk [s] span)) ks after
  | ifThen {room : ℕ∞} {c : Expr} {b : Block} {o : Otherwise} {cs bs os : List Kind}
      {after : Kind} :
      Derives room .expression c cs → Yields free room (.block b) bs (os.headD after) →
      Yields free room (.otherwise o) os after →
      Yields free room (.branch c b o) (.keyword .ifWord :: (inParens cs ++ (bs ++ os))) after
  | nothing {room : ℕ∞} {after : Kind} : Yields free room (.otherwise .nothing) [] after
  | elseBlock {room : ℕ∞} {b : Block} {ks : List Kind} {after : Kind} :
      Yields free room (.block b) ks after →
      Yields free room (.otherwise (.block b)) (.keyword .elseWord :: ks) after
  | elseIf {room inner : ℕ∞} {c : Expr} {b : Block} {o : Otherwise} {ks : List Kind}
      {after : Kind} :
      inner + 1 ≤ room → Yields free inner (.branch c b o) ks after →
      Yields free room (.otherwise (.branch c b o)) (.keyword .elseWord :: ks) after

/-- More room does no harm. -/
theorem Derives.mono {room room' : ℕ∞} {category : Category} {e : Expr} {ks : List Kind}
    (h : Derives room category e ks) (hr : room ≤ room') : Derives room' category e ks := by
  induction h generalizing room' with
  | expression hn hd _ => exact .expression (hn.trans hr) hd
  | operation _ ih => exact .operation (ih hr)
  | assign _ _ iht ihv => exact .assign (iht hr) (ihv hr)
  | primary _ ih => exact .primary (ih hr)
  | chain _ _ iha ihe => exact .chain (iha hr) (ihe hr)
  | stop => exact .stop
  | more hn hop hb he _ _ => exact .more (hn.trans hr) hop hb he
  | atom ha => exact .atom ha
  | paren _ ih => exact .paren (ih hr)
  | unary hn hop hd _ => exact .unary (hn.trans hr) hop hd

theorem DerivesBinding.mono {room room' : ℕ∞} {b : Binding} {ks : List Kind}
    (h : DerivesBinding room b ks) (hr : room ≤ room') : DerivesBinding room' b ks := by
  obtain ⟨vs, rfl, hv⟩ := h
  exact ⟨vs, rfl, hv.mono hr⟩

theorem DerivesClause.mono {room room' : ℕ∞} {e : Option Expr} {ks : List Kind}
    (h : DerivesClause room e ks) (hr : room ≤ room') : DerivesClause room' e ks := by
  cases e with
  | none => exact h
  | some e => exact Derives.mono h hr

theorem DerivesInit.mono {room room' : ℕ∞} {i : Option Init} {ks : List Kind}
    (h : DerivesInit room i ks) (hr : room ≤ room') : DerivesInit room' i ks := by
  match i, h with
  | none, h => exact h
  | some (.define b), h => exact DerivesBinding.mono h hr
  | some (.expr e), h => exact Derives.mono h hr

/-- More room does no harm, and neither does more freedom to leave out separators. -/
theorem Yields.mono {free free' : Kind → Prop} {room room' : ℕ∞} {phrase : Phrase}
    {ks : List Kind} {after : Kind} (h : Yields free room phrase ks after)
    (hf : ∀ k, free k → free' k) (hr : room ≤ room') : Yields free' room' phrase ks after := by
  induction h generalizing room' with
  | statement hn _ ih => exact .statement (hn.trans hr) (ih le_rfl)
  | define hb hfree => exact .define (hb.mono hr) (hf _ hfree)
  | defineEnded hb => exact .defineEnded (hb.mono hr)
  | print he hsep => exact .print (he.mono hr) hsep
  | branch _ ih => exact .branch (ih hr)
  | whileLoop hc _ ih => exact .whileLoop (hc.mono hr) (ih hr)
  | forLoop hi hc hn _ ih => exact .forLoop (hi.mono hr) (hc.mono hr) (hn.mono hr) (ih hr)
  | block _ ih => exact .block (ih hr)
  | expr he hends => exact .expr (he.mono hr) hends
  | exprEnded he => exact .exprEnded (he.mono hr)
  | nil => exact .nil
  | cons _ _ ih ih' => exact .cons (ih hr) (ih' hr)
  | braces _ ih => exact .braces (ih hr)
  | bodyBlock _ ih => exact .bodyBlock (ih hr)
  | bodyStatement hs _ ih => exact .bodyStatement hs (ih hr)
  | ifThen hc _ _ ihb iho => exact .ifThen (hc.mono hr) (ihb hr) (iho hr)
  | nothing => exact .nothing
  | elseBlock _ ih => exact .elseBlock (ih hr)
  | elseIf hn _ ih => exact .elseIf (hn.trans hr) (ih le_rfl)

/-- The tokens before the end of the input are a program. -/
def Accepts (p : Program) (ks : List Kind) : Prop :=
  Yields (fun _ => True) ⊤ (.statements p.statements) ks .eof

/-- A greedy reader leaves no token behind that goes on with an expression. -/
def Greedy (k : Kind) : Prop :=
  k.joins = false

/-! ## First tokens -/

/-- How the tokens of a category start. -/
def Category.Starts : Category → List Kind → Prop
  | .rest l _ _, ks => ks = [] ∨ ∃ k us, ks = k :: us ∧ (l.operator? k).isSome = true
  | _, ks => ∃ k us, ks = k :: us ∧ k.startsExpression = true

theorem Derives.starts {room : ℕ∞} {category : Category} {e : Expr} {ks : List Kind}
    (h : Derives room category e ks) : category.Starts ks := by
  induction h with
  | expression _ _ ih => exact ih
  | operation _ ih => exact ih
  | assign _ _ iht _ =>
    obtain ⟨k, us, rfl, hk⟩ := iht
    exact ⟨k, _, rfl, hk⟩
  | primary _ ih => exact ih
  | chain _ _ iha _ =>
    obtain ⟨k, us, rfl, hk⟩ := iha
    exact ⟨k, _, rfl, hk⟩
  | stop => exact .inl rfl
  | more _ hop _ _ _ _ => exact .inr ⟨_, _, rfl, by rw [hop]; rfl⟩
  | @atom _ k _ _ ha => exact ⟨k, [], rfl, Kind.startsExpression_of_atom? ha⟩
  | paren _ _ => exact ⟨_, _, rfl, rfl⟩
  | unary _ hop _ _ => exact ⟨_, _, rfl, by simp [Kind.startsExpression, hop]⟩

/-- How the tokens of a phrase start. -/
def Phrase.Starts : Phrase → List Kind → Prop
  | .statement _, ks => ∃ k us, ks = k :: us ∧ k.startsStatement = true
  | .bare _, ks => ∃ k us, ks = k :: us ∧ k.startsStatement = true
  | .statements ss, ks => (ss = [] ∧ ks = []) ∨ ∃ k us, ks = k :: us ∧ k.startsStatement = true
  | .block _, ks => ∃ us, ks = .symbol .leftBrace :: us
  | .body _, ks => ∃ k us, ks = k :: us ∧ k.startsStatement = true
  | .branch _ _ _, ks => ∃ us, ks = .keyword .ifWord :: us
  | .otherwise o, ks => (o = .nothing ∧ ks = []) ∨ ∃ us, ks = .keyword .elseWord :: us

theorem Derives.startsStatement {room : ℕ∞} {e : Expr} {ks : List Kind}
    (h : Derives room .expression e ks) : ∃ k us, ks = k :: us ∧ k.startsStatement = true := by
  obtain ⟨k, us, rfl, hk⟩ := h.starts
  exact ⟨k, us, rfl, by simp [Kind.startsStatement, hk]⟩

theorem DerivesBinding.starts {room : ℕ∞} {b : Binding} {ks : List Kind}
    (h : DerivesBinding room b ks) : ∃ us, ks = .keyword .letWord :: us := by
  obtain ⟨vs, rfl, -⟩ := h
  exact ⟨_, rfl⟩

theorem Yields.starts {free : Kind → Prop} {room : ℕ∞} {phrase : Phrase} {ks : List Kind}
    {after : Kind} (h : Yields free room phrase ks after) : phrase.Starts ks := by
  induction h with
  | statement _ _ ih => exact ih
  | define hb _ =>
    obtain ⟨us, rfl⟩ := hb.starts
    exact ⟨_, us, rfl, rfl⟩
  | defineEnded hb =>
    obtain ⟨us, rfl⟩ := hb.starts
    exact ⟨_, _, rfl, rfl⟩
  | print _ _ => exact ⟨_, _, rfl, rfl⟩
  | branch _ ih =>
    obtain ⟨us, rfl⟩ := ih
    exact ⟨_, us, rfl, rfl⟩
  | whileLoop _ _ _ => exact ⟨_, _, rfl, rfl⟩
  | forLoop _ _ _ _ _ => exact ⟨_, _, rfl, rfl⟩
  | block _ ih =>
    obtain ⟨us, rfl⟩ := ih
    exact ⟨_, us, rfl, rfl⟩
  | expr he _ => exact he.startsStatement
  | exprEnded he =>
    obtain ⟨k, us, rfl, hk⟩ := he.startsStatement
    exact ⟨k, _, rfl, hk⟩
  | nil => exact .inl ⟨rfl, rfl⟩
  | cons _ _ ih _ =>
    obtain ⟨k, us, rfl, hk⟩ := ih
    exact .inr ⟨k, _, rfl, hk⟩
  | braces _ _ => exact ⟨_, rfl⟩
  | bodyBlock _ ih =>
    obtain ⟨us, rfl⟩ := ih
    exact ⟨_, us, rfl, rfl⟩
  | bodyStatement _ _ ih => exact ih
  | ifThen _ _ _ _ _ => exact ⟨_, rfl⟩
  | nothing => exact .inl ⟨rfl, rfl⟩
  | elseBlock _ _ => exact .inr ⟨_, rfl⟩
  | elseIf _ _ _ => exact .inr ⟨_, rfl⟩

/-- Only a block starts with a brace. -/
theorem Yields.eq_block {free : Kind → Prop} {room : ℕ∞} {s : Stmt} {ks : List Kind}
    {after : Kind} (h : Yields free room (.statement s) (.symbol .leftBrace :: ks) after) :
    ∃ b, s = .block b := by
  have hexpr : ∀ {room e} {us : List Kind}, us.head? = some (.symbol .leftBrace) →
      ¬ Derives room .expression e us := by
    intro room e us hus he
    obtain ⟨k, us, rfl, hk⟩ := he.starts
    cases hus
    cases hk
  generalize hks : Kind.symbol .leftBrace :: ks = us at h
  have hhead : us.head? = some (.symbol .leftBrace) := by rw [← hks]; rfl
  cases h with
  | statement _ h =>
    cases h with
    | define hb _ => obtain ⟨vs, rfl⟩ := hb.starts; cases hhead
    | defineEnded hb => obtain ⟨vs, rfl⟩ := hb.starts; cases hhead
    | print _ _ => cases hhead
    | branch hb => obtain ⟨vs, rfl⟩ := hb.starts; cases hhead
    | whileLoop _ _ => cases hhead
    | forLoop _ _ _ _ => cases hhead
    | block _ => exact ⟨_, rfl⟩
    | expr he _ => exact absurd he (hexpr hhead)
    | exprEnded he =>
      obtain ⟨k, vs, rfl, hk⟩ := he.starts
      exact absurd he (hexpr hhead)

theorem Yields.starts_block {free : Kind → Prop} {room : ℕ∞} {b : Block} {ks : List Kind}
    {after : Kind} (h : Yields free room (.statement (.block b)) ks after) :
    ∃ us, ks = .symbol .leftBrace :: us := by
  cases h with
  | statement _ h =>
    cases h with
    | block h => exact h.starts

/-! ## Which tokens a phrase holds -/

/-- An expression is written with literals, names, operators and parentheses. -/
theorem Derives.inExpression {room : ℕ∞} {category : Category} {e : Expr} {ks : List Kind}
    (h : Derives room category e ks) : ∀ k ∈ ks, k.inExpression = true := by
  induction h with
  | expression _ _ ih => exact ih
  | operation _ ih => exact ih
  | assign _ _ iht ihv =>
    rw [List.forall_mem_append, List.forall_mem_cons]
    exact ⟨iht, rfl, ihv⟩
  | primary _ ih => exact ih
  | chain _ _ iha ihe => exact List.forall_mem_append.mpr ⟨iha, ihe⟩
  | stop => exact List.forall_mem_nil _
  | more _ hop _ _ ihb ihe =>
    rw [List.forall_mem_cons, List.forall_mem_append]
    exact ⟨by simp [Kind.inExpression, Kind.joins_of_operator? hop], ihb, ihe⟩
  | atom ha =>
    rw [List.forall_mem_singleton]
    simp [Kind.inExpression, Kind.startsExpression_of_atom? ha]
  | paren _ ih =>
    rw [inParens, List.forall_mem_cons, List.forall_mem_append, List.forall_mem_singleton]
    exact ⟨rfl, ih, rfl⟩
  | unary _ hop _ ih =>
    rw [List.forall_mem_cons]
    exact ⟨by simp [Kind.inExpression, Kind.startsExpression, hop], ih⟩

theorem Derives.eof_not_mem {room : ℕ∞} {category : Category} {e : Expr} {ks : List Kind}
    (h : Derives room category e ks) : Kind.eof ∉ ks :=
  fun hmem => nomatch h.inExpression .eof hmem

theorem DerivesBinding.eof_not_mem {room : ℕ∞} {b : Binding} {ks : List Kind}
    (h : DerivesBinding room b ks) : Kind.eof ∉ ks := by
  obtain ⟨vs, rfl, hv⟩ := h
  simpa using hv.eof_not_mem

theorem DerivesClause.eof_not_mem {room : ℕ∞} {e : Option Expr} {ks : List Kind}
    (h : DerivesClause room e ks) : Kind.eof ∉ ks := by
  cases e with
  | none =>
    cases h
    exact List.not_mem_nil
  | some e => exact Derives.eof_not_mem h

theorem DerivesInit.eof_not_mem {room : ℕ∞} {i : Option Init} {ks : List Kind}
    (h : DerivesInit room i ks) : Kind.eof ∉ ks := by
  match i, h with
  | none, h =>
    cases h
    exact List.not_mem_nil
  | some (.define b), h => exact DerivesBinding.eof_not_mem h
  | some (.expr e), h => exact Derives.eof_not_mem h

/-- The end of the input is not part of a phrase. -/
theorem Yields.eof_not_mem {free : Kind → Prop} {room : ℕ∞} {phrase : Phrase} {ks : List Kind}
    {after : Kind} (h : Yields free room phrase ks after) : Kind.eof ∉ ks := by
  induction h with
  | define hb _ => exact hb.eof_not_mem
  | defineEnded hb => simpa using hb.eof_not_mem
  | print he hsep =>
    have := he.eof_not_mem
    rcases hsep with rfl | rfl <;> simpa [inParens]
  | whileLoop hc _ ih => simpa [inParens, hc.eof_not_mem] using ih
  | forLoop hi hc hn _ ih =>
    simpa [inParens, hi.eof_not_mem, hc.eof_not_mem, hn.eof_not_mem] using ih
  | expr he _ => exact he.eof_not_mem
  | exprEnded he => simpa using he.eof_not_mem
  | ifThen hc _ _ ihb iho => simpa [inParens, hc.eof_not_mem] using ⟨ihb, iho⟩
  | _ => simp_all [inBraces]

end Grammar

end Respell
