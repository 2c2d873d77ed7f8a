-- SUMMARY: The span of an expression is its text, which alone is read as the same expression.
import Mathlib
import Respell.Proofs.Lexing.Slicing
import Respell.Proofs.Parsing.Placement

/-!
# Spans and texts

An expression is written with tokens that stand next to each other. As tokens follow one another,
its span goes from the start of the first to the end of the last, and the spans of its parts lie
inside, side by side. The text at its span has the same tokens alone, only further to the left, and
they are read as the same expression.
-/

namespace Respell

namespace Span

/-- The one span lies inside the other. -/
def Within (s t : Span) : Prop :=
  t.start ≤ s.start ∧ s.stop ≤ t.stop

theorem Within.trans {s t u : Span} (h : s.Within t) (h' : t.Within u) : s.Within u :=
  ⟨h'.1.trans h.1, h.2.trans h'.2⟩

theorem within_merge_left (s t : Span) : s.Within (s.merge t) :=
  ⟨Nat.min_le_left _ _, Nat.le_max_left _ _⟩

theorem within_merge_right (s t : Span) : t.Within (s.merge t) :=
  ⟨Nat.min_le_right _ _, Nat.le_max_right _ _⟩

end Span

/-! ## From the first token to the last -/

namespace Token

/-- The span goes from the start of the first token to the end of the last. -/
def Covered (ts : List Token) (s : Span) : Prop :=
  ∃ first last, ts.head? = some first ∧ ts.getLast? = some last ∧
    s = ⟨first.span.start, last.span.stop⟩

variable {ts us : List Token} {s s' : Span}

theorem Ordered.sublist (h : Ordered us) (hsub : ts.Sublist us) : Ordered ts :=
  ⟨fun t ht => h.start_le t (hsub.subset ht), h.pairwise.sublist hsub⟩

theorem covered_singleton (t : Token) : Covered [t] t.span :=
  ⟨t, t, rfl, rfl, rfl⟩

theorem Covered.start_le (h : Covered ts s) (ho : Ordered ts) : s.start ≤ s.stop := by
  obtain ⟨first, last, hfirst, hlast, rfl⟩ := h
  obtain ⟨us, rfl⟩ := List.head?_eq_some_iff.mp hfirst
  have hle := ho.start_le first List.mem_cons_self
  have hle' := ho.start_le last (List.mem_of_getLast? hlast)
  rcases List.mem_cons.mp (List.mem_of_getLast? hlast) with rfl | hmem
  · exact hle
  · have hafter := (List.pairwise_cons.mp ho.pairwise).1 last hmem
    show first.span.start ≤ last.span.stop
    omega

theorem Covered.stop_le (mid : List Token) (h : Covered ts s) (h' : Covered us s')
    (ho : Ordered (ts ++ (mid ++ us))) : s.stop ≤ s'.start := by
  obtain ⟨_, last, -, hlast, rfl⟩ := h
  obtain ⟨first, _, hfirst, -, rfl⟩ := h'
  exact (List.pairwise_append.mp ho.pairwise).2.2 last (List.mem_of_getLast? hlast) first
    (List.mem_append_right _ (List.mem_of_head? hfirst))

/-- The spans of two pieces merge to that of all from the one to the other. -/
theorem Covered.merge (mid : List Token) (h : Covered ts s) (h' : Covered us s')
    (ho : Ordered (ts ++ (mid ++ us))) : Covered (ts ++ (mid ++ us)) (s.merge s') := by
  have hle := h.start_le (ho.sublist (List.sublist_append_left _ _))
  have hmid := h.stop_le mid h' ho
  have hle' := h'.start_le (ho.sublist
    ((List.sublist_append_right _ _).trans (List.sublist_append_right _ _)))
  obtain ⟨first, _, hfirst, -, hs⟩ := h
  obtain ⟨_, last, -, hlast, hs'⟩ := h'
  refine ⟨first, last, by simp [hfirst], by simp [hlast], ?_⟩
  rw [Span.merge, Nat.min_eq_left (by omega), Nat.max_eq_right (by omega), hs, hs']

end Token

theorem Lexer.Tiling.ordered_infix {table : Table} {offset : Nat} {cs : List Char}
    {before ts after : List Token} (h : Tiling table offset cs (before ++ (ts ++ after))) :
    Token.Ordered ts := by
  have hall : Token.Ordered (before ++ (ts ++ after)) := ⟨h.start_le_stop, h.ordered⟩
  exact hall.sublist ((List.sublist_append_left _ _).trans (List.sublist_append_right _ _))

theorem Lexer.Tiling.ne_nil {table : Table} {offset : Nat} {cs : List Char} {t : Token}
    {ts : List Token} (h : Tiling table offset cs (t :: ts)) (ht : t.kind ≠ .eof) : cs ≠ [] := by
  cases h with
  | eof => exact absurd rfl ht
  | token _ hspells _ _ =>
    obtain ⟨c, cs, rfl, -⟩ := hspells.exists_cons
    simp

namespace Expr

theorem span_of_atom? {k : Kind} {s : Span} {e : Expr} (h : k.atom? s = some e) :
    e.span = s ∧ e.children = [] := by
  cases k with
  | keyword r => cases r <;> cases h <;> exact ⟨rfl, rfl⟩
  | symbol => cases h
  | eof => cases h
  | _ => cases h; exact ⟨rfl, rfl⟩

@[simp] theorem children_withSpan (s : Span) (e : Expr) : (e.withSpan s).children = e.children := by
  cases e <;> rfl

/-- The span of an expression is that of its tokens. -/
theorem Written.covered {e : Expr} {ts : List Token} (h : e.Written ts) (ho : Token.Ordered ts) :
    Token.Covered ts e.span := by
  induction h with
  | @atom t e ha =>
    rw [(span_of_atom? ha).1]
    exact Token.covered_singleton t
  | @paren opening closing e ts _ _ _ _ =>
    rw [span_withSpan]
    exact (Token.covered_singleton opening).merge ts (Token.covered_singleton closing) ho
  | @unary t op e ts _ _ ih =>
    have hoperand := ih (ho.sublist (List.sublist_cons_self _ _))
    exact (Token.covered_singleton t).merge [] hoperand ho
  | @binary l t op a b ts us _ _ _ iha ihb =>
    have hleft := iha (ho.sublist (List.sublist_append_left _ _))
    have hright := ihb (ho.sublist
      ((List.sublist_cons_self _ _).trans (List.sublist_append_right _ _)))
    exact hleft.merge [t] hright ho
  | @assign t x s v ts us _ _ _ ihx ihv =>
    have hname := ihx (ho.sublist (List.sublist_append_left _ _))
    have hvalue := ihv (ho.sublist
      ((List.sublist_cons_self _ _).trans (List.sublist_append_right _ _)))
    exact hname.merge [t] hvalue ho

/-- The spans of the children lie inside that of the expression, side by side. -/
structure Nested (e : Expr) : Prop where
  within : ∀ child ∈ e.children, child.span.Within e.span
  apart : e.children.Pairwise fun left right => left.span.stop ≤ right.span.start

theorem Written.nested {e : Expr} {ts : List Token} (h : e.Written ts) (ho : Token.Ordered ts) :
    e.Nested := by
  induction h with
  | atom ha =>
    have hchildren := (span_of_atom? ha).2
    exact ⟨by simp [hchildren], by simp [hchildren]⟩
  | @paren opening closing e ts _ hwritten _ ih =>
    have hinner : Token.Ordered ts := ho.sublist ((List.sublist_append_left _ _).cons _)
    have hcovered := hwritten.covered hinner
    have hopening := (Token.covered_singleton opening).stop_le [] hcovered
      (ho.sublist ((List.sublist_append_left _ _).cons_cons _))
    have hclosing := hcovered.stop_le [] (Token.covered_singleton closing)
      (ho.sublist (List.sublist_cons_self _ _))
    have hle := ho.start_le opening List.mem_cons_self
    have hle' := ho.start_le closing (by simp)
    have hwithin : e.span.Within (opening.span.merge closing.span) := by
      constructor
      · exact (Nat.min_le_left _ _).trans (hle.trans hopening)
      · exact (hclosing.trans hle').trans (Nat.le_max_right _ _)
    constructor
    · rw [children_withSpan, span_withSpan]
      exact fun child hchild => ((ih hinner).within child hchild).trans hwithin
    · rw [children_withSpan]
      exact (ih hinner).apart
  | @unary t op e ts _ _ _ =>
    exact ⟨List.forall_mem_singleton.mpr (Span.within_merge_right _ _), List.pairwise_singleton _ _⟩
  | @binary l t op a b ts us hleft _ hright _ _ =>
    have hleft := hleft.covered (ho.sublist (List.sublist_append_left _ _))
    have hright := hright.covered (ho.sublist
      ((List.sublist_cons_self _ _).trans (List.sublist_append_right _ _)))
    constructor
    · rw [children, List.forall_mem_cons, List.forall_mem_singleton]
      exact ⟨Span.within_merge_left _ _, Span.within_merge_right _ _⟩
    · exact List.pairwise_pair.mpr (hleft.stop_le [t] hright ho)
  | @assign t x s v ts us _ _ _ _ _ =>
    exact ⟨List.forall_mem_singleton.mpr (Span.within_merge_right _ _), List.pairwise_singleton _ _⟩

end Expr

/-! ## The text of an expression -/

/-- The text at the span of the expression, which alone is a program of one statement: the same
    expression, with spans that count from the start of the text. -/
def Expr.ReadsAlone (table : Table) (source : String) (e : Expr) : Prop :=
  ∃ before text after, Lexer.Slice source.toList e.span before text after ∧
    ∃ tokens e', tokenize table (String.ofList text) = .ok tokens ∧
      Program.parse tokens = .ok ⟨[.expr e']⟩ ∧ e'.relabel (.moved e.span.start) = e

theorem Program.eq_of_relabel_eq {ℓ : Labels} {p : Program} {e : Expr}
    (h : p.relabel ℓ = ⟨[.expr e]⟩) : ∃ e', p = ⟨[.expr e']⟩ ∧ e'.relabel ℓ = e := by
  obtain ⟨statements⟩ := p
  have hall := congrArg Program.statements h
  match statements with
  | [] => simp [relabel, Stmt.relabelAll] at hall
  | s :: t :: rest => simp [relabel, Stmt.relabelAll] at hall
  | [s] =>
    simp only [relabel, Stmt.relabelAll, List.cons.injEq, and_true] at hall
    cases s with
    | expr e' => exact ⟨e', rfl, Stmt.expr.inj (by rwa [Stmt.relabel] at hall)⟩
    | _ => simp [Stmt.relabel] at hall

/-- Tokens that are moved are parsed as the same expression, moved likewise. -/
theorem Program.parse_moved {n : Nat} {tokens body : List Token} {s : Span} {e : Expr}
    (htokens : tokens = body ++ [⟨.eof, s⟩])
    (h : parse (tokens.map (Token.relabel (.moved n))) = .ok ⟨[.expr e]⟩) :
    ∃ e', parse tokens = .ok ⟨[.expr e']⟩ ∧ e'.relabel (.moved n) = e := by
  rw [parse_relabel (Labels.moved_merges n) htokens] at h
  cases hp : parse tokens with
  | error err =>
    rw [hp] at h
    cases h
  | ok p =>
    rw [hp] at h
    obtain ⟨e', rfl, he⟩ := eq_of_relabel_eq (Except.ok.inj h)
    exact ⟨e', rfl, he⟩

/-- What goes from one token to another, the end of the input not among them, is a text that has
    these tokens. -/
theorem Token.Covered.slice {table : Table} {source : String} {before ts after : List Token}
    {s : Span} (h : Token.Covered ts s)
    (htiling : Lexer.Tiling table 0 source.toList (before ++ (ts ++ after)))
    (hts : ∀ t ∈ ts, t.kind.isEof = false) :
    ∃ left text right, Lexer.Slice source.toList s left text right ∧ text ≠ [] ∧
      Lexer.Tiling table s.start text (ts ++ [⟨.eof, ⟨s.stop, s.stop⟩⟩]) := by
  obtain ⟨first, last, hfirst, hlast, rfl⟩ := h
  have heof : ∀ t ∈ ts, t.kind ≠ .eof := by
    intro t ht hk
    have := hts t ht
    rw [hk] at this
    cases this
  obtain ⟨left, text, right, hsource, hstart, hstop, htext⟩ := htiling.slice heof hfirst hlast
  rw [Nat.zero_add] at hstart hstop
  refine ⟨left, text, right, ⟨hsource, hstart, hstop⟩, ?_, htext⟩
  obtain ⟨us, rfl⟩ := List.head?_eq_some_iff.mp hfirst
  exact htext.ne_nil (heof first List.mem_cons_self)

theorem Expr.readsAlone {table : Table} {source : String} {before ts after : List Token} {e : Expr}
    (htiling : Lexer.Tiling table 0 source.toList (before ++ (ts ++ after)))
    (hwritten : e.Written ts)
    (hreads : Parser.ReadsWhole Parser.loneRoom e ts) : e.ReadsAlone table source := by
  have hcovered := hwritten.covered htiling.ordered_infix
  obtain ⟨left, text, right, hslice, -, htext⟩ := hcovered.slice htiling hwritten.isEof
  rw [← Nat.zero_add e.span.start] at htext
  obtain ⟨tokens, hmoved, hmap⟩ := htext.moveLeft
  have hlone := Program.parse_expression hwritten hreads ⟨e.span.stop, e.span.stop⟩
  obtain ⟨body, hbody, -⟩ := hmoved.eof_last
  rw [hmap] at hlone
  obtain ⟨e', hparse, he⟩ := Program.parse_moved hbody hlone
  refine ⟨left, text, right, hslice, tokens, e', ?_, hparse, he⟩
  rw [tokenize_eq_ok_iff, String.toList_ofList]
  exact hmoved

/-- Every expression of a program is written with tokens that stand next to each other, the
    parentheses around it included. Its span is that of these tokens, the spans of its children lie
    inside, side by side, and its text alone is read as the same expression. -/
theorem Program.node_spans_exact (table : Table) (source : String) (tokens : List Token)
    (p : Program) (htokens : tokenize table source = .ok tokens)
    (hparse : Program.parse tokens = .ok p) :
    ∀ e ∈ p.nodes, ∃ before ts after, tokens = before ++ (ts ++ after) ∧ e.Written ts ∧
      Exposed before after ∧ Token.Covered ts e.span ∧ e.Nested ∧ e.ReadsAlone table source := by
  intro e he
  have htiling := tokenize_eq_ok_iff.mp htokens
  obtain ⟨body, hbody, -⟩ := htiling.eof_last
  obtain ⟨before, ts, after, rfl, hwritten, hexposed, hreads⟩ :=
    Program.stands_of_parse hbody hparse e he
  have hordered := htiling.ordered_infix
  exact ⟨before, ts, after, rfl, hwritten, hexposed, hwritten.covered hordered,
    hwritten.nested hordered, Expr.readsAlone htiling hwritten hreads⟩

set_option maxRecDepth 4000 in
theorem Program.node_spans_exact_parenthesised :
    (Expr.binary .add (.name "é" ⟨3, 5⟩) (.name "y" ⟨7, 8⟩) ⟨2, 9⟩).ReadsAlone .english
      "- (é +y)" := by
  have htokens : tokenize .english "- (é +y)" = .ok
      [⟨.symbol .minus, ⟨0, 1⟩⟩, ⟨.symbol .leftParen, ⟨2, 3⟩⟩, ⟨.word "é", ⟨3, 5⟩⟩,
        ⟨.symbol .plus, ⟨6, 7⟩⟩, ⟨.word "y", ⟨7, 8⟩⟩, ⟨.symbol .rightParen, ⟨8, 9⟩⟩,
        ⟨.eof, ⟨9, 9⟩⟩] := by
    cbv
  have hparse : Program.parse
      [⟨.symbol .minus, ⟨0, 1⟩⟩, ⟨.symbol .leftParen, ⟨2, 3⟩⟩, ⟨.word "é", ⟨3, 5⟩⟩,
        ⟨.symbol .plus, ⟨6, 7⟩⟩, ⟨.word "y", ⟨7, 8⟩⟩, ⟨.symbol .rightParen, ⟨8, 9⟩⟩,
        ⟨.eof, ⟨9, 9⟩⟩] = .ok ⟨[.expr (.unary .negate
          (.binary .add (.name "é" ⟨3, 5⟩) (.name "y" ⟨7, 8⟩) ⟨2, 9⟩) ⟨0, 9⟩)]⟩ := by
    cbv
  obtain ⟨_, _, _, -, -, -, -, -, halone⟩ :=
    Program.node_spans_exact .english "- (é +y)" _ _ htokens hparse
      (.binary .add (.name "é" ⟨3, 5⟩) (.name "y" ⟨7, 8⟩) ⟨2, 9⟩) (by
        simp [Program.nodes, Stmt.nodesAll, Stmt.nodes, Expr.nodes, Expr.inside])
  exact halone

end Respell
