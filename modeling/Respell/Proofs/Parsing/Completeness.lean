-- SUMMARY: What has a derivation is read as its tree, unless there is too little room for it.
import Respell.Proofs.Parsing.Erasure
import Respell.Proofs.Parsing.Productions

/-!
# Completeness

The tokens of a derivation, followed by a token that cannot go on with it, are read as the tree of
the derivation. The parser complains only of depth, and only if it has less room than the derivation
takes; with `⊤` as that room, the statement is about the plain grammar.
-/

namespace Respell.Parser

open Grammar

/-- With the tokens `ks` and then `rest` ahead, a parser answers a value in `Q` and stops before
    `rest`, or it complains that the tree is too deep, having less room than is needed. -/
def Complete {α : Type} (p : Parser α) (room : Nat) (need : ℕ∞) (c : Cursor) (ks rest : List Kind)
    (Q : α → Prop) : Prop :=
  c.Closed → c.ahead = ks ++ rest →
    (p c).Meets (fun a after => Q a ∧ after.Closed ∧ after.ahead = rest)
      fun err => err.TooDeep ∧ (room : ℕ∞) < need

namespace Complete

variable {α β : Type} {room : Nat} {need : ℕ∞} {c : Cursor} {ks rest : List Kind} {Q : α → Prop}

theorem congr {p q : Parser α} (h : c.kind = (ks ++ rest).headD .eof → p c = q c)
    (hq : Complete q room need c ks rest Q) : Complete p room need c ks rest Q := by
  intro hc hk
  rw [h (by rw [Cursor.kind_eq_headD, hk])]
  exact hq hc hk

/-- The token at the cursor chooses the production. -/
theorem choose {k : Kind} {p q : Parser α} (h : c.kind = k → p c = q c)
    (hq : Complete q room need c (k :: ks) rest Q) : Complete p room need c (k :: ks) rest Q :=
  congr h hq

/-- The two tokens at the cursor choose the production. -/
theorem choose_two {k k' : Kind} {p q : Parser α}
    (h : c.kind = k → c.advance.kind = k' → p c = q c)
    (hq : Complete q room need c (k :: k' :: ks) rest Q) :
    Complete p room need c (k :: k' :: ks) rest Q := by
  intro hc hk
  obtain ⟨hkind, hr, hahead⟩ := hc.reads_of_ahead hk
  rw [h hkind (by rw [Cursor.kind_eq_headD, hahead]; rfl)]
  exact hq hc hk

/-- Both the parser and the derivation go one level deeper. -/
theorem deeper {p : Parser α} {inner : ℕ∞} (h : Complete p room inner c ks rest Q)
    (hn : inner + 1 ≤ need) : Complete p (room + 1) need c ks rest Q := by
  intro hc hk
  refine (h hc hk).mono (fun _ _ ha => ha) fun err he => ⟨he.1, ?_⟩
  refine lt_of_lt_of_le ?_ hn
  rw [Nat.cast_add, Nat.cast_one]
  exact (ENat.add_lt_add_iff_right ENat.one_ne_top).mpr he.2

theorem tooDeep {what : Construct} {inner : ℕ∞} (hn : inner + 1 ≤ need) :
    Complete (tooDeep what : Parser α) 0 need c ks rest Q := by
  intro _ _
  rw [meets_tooDeep]
  refine ⟨⟨what, rfl⟩, lt_of_lt_of_le ?_ hn⟩
  simp

theorem pure {a : α} (h : Q a) : Complete (pure a) room need c [] rest Q :=
  fun hc hk => ⟨h, hc, hk⟩

theorem bind {p : Parser β} {f : β → Parser α} {ls : List Kind} {S : β → Prop}
    (hp : Complete p room need c ks (ls ++ rest) S)
    (hf : ∀ b mid, S b → Complete (f b) room need mid ls rest Q) :
    Complete (p >>= f) room need c (ks ++ ls) rest Q := by
  intro hc hk
  rw [meets_bind]
  refine (hp hc (by rw [hk, List.append_assoc])).mono ?_ fun err he => he
  rintro b mid ⟨hb, hmid, hahead⟩
  exact hf b mid hb hmid hahead

/-- The parser that comes second reads nothing. -/
theorem bind_nil {p : Parser β} {f : β → Parser α} {S : β → Prop}
    (hp : Complete p room need c ks rest S)
    (hf : ∀ b mid, S b → Complete (f b) room need mid [] rest Q) :
    Complete (p >>= f) room need c ks rest Q := by
  rw [← List.append_nil ks]
  exact hp.bind hf

theorem next_bind {k : Kind} {f : Token → Parser α}
    (h : c.kind = k → Complete (f c.current) room need c.advance ks rest Q) :
    Complete (next >>= f) room need c (k :: ks) rest Q := by
  intro hc hk
  obtain ⟨hkind, hr, hahead⟩ := hc.reads_of_ahead hk
  exact h hkind hr.1 hahead

theorem peek_bind {f : Token → Parser α} (h : Complete (f c.current) room need c ks rest Q) :
    Complete (peek >>= f) room need c ks rest Q :=
  h

theorem expect_bind {s : Symbol} {f : Span → Parser α}
    (h : Complete (f c.current.span) room need c.advance ks rest Q) :
    Complete (expect s >>= f) room need c (.symbol s :: ks) rest Q := by
  intro hc hk
  obtain ⟨hkind, hr, hahead⟩ := hc.reads_of_ahead hk
  rw [meets_bind, meets_expect]
  exact ⟨fun _ => h hr.1 hahead, fun hne => absurd hkind hne⟩

theorem eat_bind {s : Symbol} {f : Bool → Parser α}
    (h : Complete (f true) room need c.advance ks rest Q) :
    Complete (eat s >>= f) room need c (.symbol s :: ks) rest Q := by
  intro hc hk
  obtain ⟨hkind, hr, hahead⟩ := hc.reads_of_ahead hk
  rw [meets_bind, meets_eat]
  exact ⟨fun _ => h hr.1 hahead, fun hne => absurd hkind hne⟩

theorem not_eat_bind {s : Symbol} {f : Bool → Parser α}
    (hne : (ks ++ rest).headD .eof ≠ .symbol s) (h : Complete (f false) room need c ks rest Q) :
    Complete (eat s >>= f) room need c ks rest Q := by
  intro hc hk
  rw [meets_bind, meets_eat]
  refine ⟨fun hkind => ?_, fun _ => h hc hk⟩
  rw [Cursor.kind_eq_headD, hk] at hkind
  exact absurd hkind hne

end Complete

/-! ## Expressions -/

/-- The production of a category reads the given tokens as the given tree, whatever room it has and
    whatever follows that cannot go on with the expression. -/
def Completes (need : ℕ∞) (category : Category) (e : Expr) (ks : List Kind) : Prop :=
  ∀ room c rest, match category with
  | .expression => (rest.headD .eof).joins = false →
      Complete (expression room) room need c ks rest (·.erase = e.erase)
  | .assignment => (rest.headD .eof).joins = false →
      Complete (assignment room) room need c ks rest (·.erase = e.erase)
  | .operation ls => ls.Nodup → (∀ l ∈ ls, l.operator? (rest.headD .eof) = none) →
      Complete (operation room ls) room need c ks rest (·.erase = e.erase)
  | .rest l ls a => (l :: ls).Nodup → (∀ l' ∈ l :: ls, l'.operator? (rest.headD .eof) = none) →
      ∀ left : Expr, left.erase = a.erase →
        Complete (chain room l ls left) room need c ks rest (·.erase = e.erase)
  | .primary => Complete (primary room) room need c ks rest (·.erase = e.erase)

theorem operator?_of_joins {k : Kind} (h : k.joins = false) (l : Level) : l.operator? k = none := by
  simp only [Kind.joins, Bool.or_eq_false_iff, List.any_eq_false] at h
  have := h.2 l l.mem_all
  simpa using this

theorem ne_assign_of_joins {k : Kind} (h : k.joins = false) : k ≠ .symbol .assign := by
  rintro rfl
  cases h

theorem operator?_assign (l : Level) : l.operator? (.symbol .assign) = none := by
  cases l <;> rfl

theorem atom?_erase {k : Kind} {s : Span} {e : Expr} (h : k.atom? s = some e) (s' : Span) :
    ∃ e', k.atom? s' = some e' ∧ e'.erase = e.erase := by
  cases k with
  | keyword r => cases r <;> cases h <;> exact ⟨_, rfl, rfl⟩
  | symbol s => cases h
  | eof => cases h
  | _ => cases h; exact ⟨_, rfl, rfl⟩

theorem completes_atom {need : ℕ∞} {k : Kind} {s : Span} {e : Expr} (h : k.atom? s = some e) :
    Completes need .primary e [k] := by
  intro room c rest
  obtain ⟨e', he', herase⟩ := atom?_erase h c.current.span
  exact .choose (fun hk => primary_of_atom (hk ▸ he')) (.next_bind fun _ => .pure herase)

theorem completes_paren {need : ℕ∞} {e : Expr} {s : Span} {ks : List Kind}
    (h : Completes need .expression e ks) :
    Completes need .primary (e.withSpan s) (inParens ks) := by
  intro room c rest
  refine .choose primary_of_leftParen (.next_bind fun _ => .bind (h room _ _ rfl) ?_)
  intro e' mid he'
  refine .expect_bind (.pure ?_)
  rw [Expr.erase_withSpan, Expr.erase_withSpan, he']

theorem completes_unary {need inner : ℕ∞} {k : Kind} {op : UnaryOp} {e : Expr} {s : Span}
    {ks : List Kind} (hn : inner + 1 ≤ need) (hop : k.unary? = some op)
    (h : Completes inner .primary e ks) : Completes need .primary (.unary op e s) (k :: ks) := by
  intro room c rest
  refine .choose (fun hk => primary_of_unary (hk ▸ hop)) ?_
  cases room with
  | zero => exact .congr (fun _ => unary_zero) (.next_bind fun _ => .tooDeep hn)
  | succ room =>
    refine .congr (fun _ => unary_succ) (.next_bind fun _ => ?_)
    refine .bind_nil ((h room _ _).deeper hn) ?_
    intro e' mid he'
    refine .pure ?_
    rw [Expr.erase, Expr.erase, he']

theorem completes_stop {need : ℕ∞} {l : Level} {ls : List Level} {e : Expr} :
    Completes need (.rest l ls e) e [] := by
  intro room c rest _ hrest left hleft
  refine .congr (fun hk => ?_) (.pure hleft)
  exact chain_of_none (hk ▸ hrest l List.mem_cons_self)

/-- An operand ends before the operators of the next looser level. -/
theorem operator?_headD_rest {need : ℕ∞} {l : Level} {ls : List Level} {a e : Expr}
    {us rest : List Kind} (hd : Derives need (.rest l ls a) e us) (hnodup : (l :: ls).Nodup)
    (hrest : ∀ l' ∈ l :: ls, l'.operator? (rest.headD .eof) = none) :
    ∀ l' ∈ ls, l'.operator? ((us ++ rest).headD .eof) = none := by
  intro l' hl'
  rcases hd.starts with rfl | ⟨k, us', rfl, hk⟩
  · exact hrest l' (List.mem_cons_of_mem l hl')
  · obtain ⟨op, hop⟩ := Option.isSome_iff_exists.mp hk
    refine Level.operator?_eq_none_of_ne hop ?_
    rintro rfl
    exact (List.nodup_cons.mp hnodup).1 hl'

theorem completes_more {need inner : ℕ∞} {l : Level} {ls : List Level} {k : Kind} {op : BinaryOp}
    {a b e : Expr} {s : Span} {us vs : List Kind} (hn : inner + 1 ≤ need)
    (hop : l.operator? k = some op) (hd : Derives inner (.rest l ls (.binary op a b s)) e vs)
    (hb : Completes inner (.operation ls) b us)
    (he : Completes inner (.rest l ls (.binary op a b s)) e vs) :
    Completes need (.rest l ls a) e (k :: (us ++ vs)) := by
  intro room c rest hnodup hrest left hleft
  cases room with
  | zero => exact .choose (fun hk => chain_zero (hk ▸ hop)) (.tooDeep hn)
  | succ room =>
    refine .choose (fun hk => chain_succ (hk ▸ hop)) (.next_bind fun _ => ?_)
    have hfollow := operator?_headD_rest hd hnodup hrest
    refine .bind ((hb room _ _ (List.nodup_cons.mp hnodup).2 hfollow).deeper hn) ?_
    intro right mid hright
    refine (he room mid rest hnodup hrest _ ?_).deeper hn
    rw [Expr.erase, Expr.erase, hleft, hright]

theorem completes_chain {need : ℕ∞} {l : Level} {ls : List Level} {a e : Expr} {ts us : List Kind}
    (hd : Derives need (.rest l ls a) e us) (ha : Completes need (.operation ls) a ts)
    (he : Completes need (.rest l ls a) e us) :
    Completes need (.operation (l :: ls)) e (ts ++ us) := by
  intro room c rest hnodup hrest
  refine .congr (fun _ => by rw [operation]) ?_
  have hfollow := operator?_headD_rest hd hnodup hrest
  refine .bind (ha room c _ (List.nodup_cons.mp hnodup).2 hfollow) ?_
  exact fun left mid hleft => he room mid rest hnodup hrest left hleft

theorem completes_assign {need : ℕ∞} {x : String} {s s' : Span} {v : Expr} {ts us : List Kind}
    (ht : Completes need (.operation Level.all) (.name x s) ts)
    (hv : Completes need .expression v us) :
    Completes need .assignment (.assign x v s') (ts ++ .symbol .assign :: us) := by
  intro room c rest hrest
  refine .congr (fun _ => by rw [assignment]) ?_
  refine .bind (ht room c _ Level.nodup_all fun l _ => operator?_assign l) ?_
  intro target mid htarget
  obtain ⟨s'', rfl⟩ := Expr.eq_name_of_erase htarget
  refine .peek_bind (.eat_bind ?_)
  rw [if_pos rfl]
  refine .bind_nil (hv room _ _ hrest) ?_
  intro value mid' hvalue
  refine .pure ?_
  rw [Expr.erase, Expr.erase, hvalue]

theorem completes_operation {need : ℕ∞} {e : Expr} {ks : List Kind}
    (h : Completes need (.operation Level.all) e ks) : Completes need .assignment e ks := by
  intro room c rest hrest
  refine .congr (fun _ => by rw [assignment]) ?_
  refine .bind_nil (h room c _ Level.nodup_all fun l _ => operator?_of_joins hrest l) ?_
  intro target mid htarget
  exact .peek_bind (.not_eat_bind (ne_assign_of_joins hrest) (.pure htarget))

theorem completes_expression {need inner : ℕ∞} {e : Expr} {ks : List Kind} (hn : inner + 1 ≤ need)
    (h : Completes inner .assignment e ks) : Completes need .expression e ks := by
  intro room c rest hrest
  cases room with
  | zero => exact .congr (fun _ => by rw [expression]) (.tooDeep hn)
  | succ room => exact .congr (fun _ => by rw [expression]) ((h room c rest hrest).deeper hn)

/-- Expressions are read as their trees. -/
theorem completes_of_derives {need : ℕ∞} {category : Category} {e : Expr}
    {ks : List Kind} (h : Derives need category e ks) : Completes need category e ks := by
  induction h with
  | expression hn _ ih => exact completes_expression hn ih
  | operation _ ih => exact completes_operation ih
  | assign _ _ iht ihv => exact completes_assign iht ihv
  | primary _ ih =>
    intro room c rest _ _
    exact .congr (fun _ => by rw [operation]) (ih room c rest)
  | chain _ hd iha ihe => exact completes_chain hd iha ihe
  | stop => exact completes_stop
  | more hn hop _ hd ihb ihe => exact completes_more hn hop hd ihb ihe
  | atom ha => exact completes_atom ha
  | paren _ ih => exact completes_paren ih
  | unary hn hop _ ih => exact completes_unary hn hop ih

/-! ## Parts of statements -/

section Parts

variable {room : Nat} {need : ℕ∞} {c : Cursor} {ks rest : List Kind}

theorem expression_complete {e : Expr} (h : Derives need .expression e ks)
    (hrest : (rest.headD .eof).joins = false) :
    Complete (expression room) room need c ks rest (·.erase = e.erase) :=
  completes_of_derives h room c rest hrest

theorem binding_complete {b : Binding} (h : DerivesBinding need b ks)
    (hrest : (rest.headD .eof).joins = false) :
    Complete (binding room) room need c ks rest (·.erase = b.erase) := by
  obtain ⟨vs, rfl, hv⟩ := h
  refine .choose_two (fun _ hx => binding_of_word hx) (.next_bind fun _ => .next_bind fun _ => ?_)
  refine .expect_bind ?_
  refine .bind_nil (expression_complete hv hrest) ?_
  intro value mid hvalue
  refine .pure ?_
  simp [Binding.erase, hvalue]

theorem parenthesised_complete {r : Role} {e : Expr} (h : Derives need .expression e ks) :
    Complete (parenthesised room) room need c (.keyword r :: inParens ks) rest
      (·.erase = e.erase) := by
  refine .next_bind fun _ => .expect_bind (.bind (expression_complete h rfl) ?_)
  exact fun e' mid he' => .expect_bind (.pure he')

theorem clause_complete {stop : Symbol} {e : Option Expr} (h : DerivesClause need e ks)
    (hrest : rest.headD .eof = .symbol stop) (hjoins : (Kind.symbol stop).joins = false)
    (hstarts : (Kind.symbol stop).startsExpression = false) :
    Complete (clause room stop) room need c ks rest (·.map Expr.erase = e.map Expr.erase) := by
  cases e with
  | none =>
    cases h
    exact .congr (fun hk => clause_of_stop (hk.trans hrest)) (.pure rfl)
  | some e =>
    obtain ⟨k, us, rfl, hk⟩ := Derives.starts h
    refine .choose (fun hkind => clause_of_other ?_) ?_
    · rintro hstop
      rw [← hkind, hstop, hstarts] at hk
      cases hk
    · refine .bind_nil (expression_complete h (hrest ▸ hjoins)) fun e' mid he' => .pure ?_
      simp [he']

theorem init_complete {i : Option Init} (h : DerivesInit need i ks)
    (hrest : rest.headD .eof = .symbol .semicolon) :
    Complete (init room) room need c ks rest (·.map Init.erase = i.map Init.erase) := by
  have hjoins : (rest.headD .eof).joins = false := by rw [hrest]; rfl
  match i, h with
  | none, h =>
    cases h
    exact .congr (fun hk => init_of_semicolon (hk.trans hrest)) (.pure rfl)
  | some (.define b), h =>
    obtain ⟨us, rfl⟩ := DerivesBinding.starts h
    refine .choose init_of_let ?_
    refine .bind_nil (binding_complete h hjoins) fun b' mid hb' => .pure ?_
    simp [Init.erase, hb']
  | some (.expr e), h =>
    obtain ⟨k, us, rfl, hk⟩ := Derives.starts h
    refine .choose (fun hkind => init_of_other ?_ ?_) ?_
    · rintro hs
      rw [← hkind, hs] at hk
      cases hk
    · rintro hl
      rw [← hkind, hl] at hk
      cases hk
    · refine .bind_nil (expression_complete h hjoins) fun e' mid he' => .pure ?_
      simp [Init.erase, he']

end Parts

/-! ## Statements -/

/-- The production of a phrase reads the given tokens as the given tree, whatever room it has, if
    the token that follows can follow a statement. -/
def PhraseCompletes (need : ℕ∞) (phrase : Phrase) (ks : List Kind) (after : Kind) : Prop :=
  ∀ room c rest, rest.headD .eof = after → match phrase with
  | .statement s => after.endsStatement = true →
      Complete (statement room) room need c ks rest (·.erase = s.erase)
  | .bare s => after.endsStatement = true →
      Complete (statementAt room (statement room) (elseIf room)) room need c ks rest
        (·.erase = s.erase)
  | .statements ss => after.endsStatement = true → ∀ stops count,
      (∀ k, k.startsStatement = true → stops k = false) → stops after = true →
      ks.length ≤ count →
        Complete (statementsWithin (statement room) stops count) room need c ks rest
          (Stmt.eraseAll · = Stmt.eraseAll ss)
  | .block b => Complete (block (statement room)) room need c ks rest (·.erase = b.erase)
  | .body b => after.endsStatement = true →
      Complete (body (statement room)) room need c ks rest (·.erase = b.erase)
  | .branch e b o => after.endsStatement = true →
      Complete (branch room (statement room) (elseIf room)) room need c ks rest fun parts =>
        parts.1.erase = e.erase ∧ parts.2.1.erase = b.erase ∧ parts.2.2.erase = o.erase
  | .otherwise o => after.endsStatement = true →
      Complete (otherwise (statement room) (elseIf room)) room need c ks rest (·.erase = o.erase)

theorem completes_statement {need inner : ℕ∞} {s : Stmt} {ks : List Kind} {after : Kind}
    (hn : inner + 1 ≤ need) (h : PhraseCompletes inner (.bare s) ks after) :
    PhraseCompletes need (.statement s) ks after := by
  intro room c rest hafter hends
  cases room with
  | zero => exact .congr (fun _ => by rw [statement]) (.tooDeep hn)
  | succ room =>
    exact .congr (fun _ => by rw [statement]) ((h room c rest hafter hends).deeper hn)

theorem completes_define {need : ℕ∞} {b : Binding} {ks sep : List Kind} {after : Kind}
    (h : DerivesBinding need b ks)
    (hsep : sep = [] ∧ Greedy after ∨ sep = [.symbol .semicolon]) :
    PhraseCompletes need (.bare (.define b)) (ks ++ sep) after := by
  intro room c rest hafter hends
  obtain ⟨us, rfl⟩ := h.starts
  have hjoins : ((sep ++ rest).headD .eof).joins = false := by
    rcases hsep with ⟨rfl, hfree⟩ | rfl
    · exact hafter ▸ hfree
    · rfl
  refine .choose statementAt_let (.bind (binding_complete h hjoins) ?_)
  intro b' mid hb'
  have hdone : (Stmt.define b').erase = (Stmt.define b).erase := by
    rw [Stmt.erase, Stmt.erase, hb']
  rcases hsep with ⟨rfl, -⟩ | rfl
  · refine .not_eat_bind ?_ (.pure hdone)
    rw [List.nil_append, hafter]
    exact (Kind.ne_of_endsStatement hends).1
  · exact .eat_bind (.pure hdone)

theorem completes_print {need : ℕ∞} {e : Expr} {ks sep : List Kind} {after : Kind}
    (h : Derives need .expression e ks) (hsep : sep = [] ∨ sep = [.symbol .semicolon]) :
    PhraseCompletes need (.bare (.print e)) (.keyword .printWord :: (inParens ks ++ sep))
      after := by
  intro room c rest hafter hends
  refine .choose statementAt_print ?_
  rw [← List.cons_append]
  refine .bind (parenthesised_complete h) ?_
  intro e' mid he'
  have hdone : (Stmt.print e').erase = (Stmt.print e).erase := by
    rw [Stmt.erase, Stmt.erase, he']
  rcases hsep with rfl | rfl
  · refine .not_eat_bind ?_ (.pure hdone)
    rw [List.nil_append, hafter]
    exact (Kind.ne_of_endsStatement hends).1
  · exact .eat_bind (.pure hdone)

theorem completes_branch {need : ℕ∞} {e : Expr} {b : Block} {o : Otherwise} {ks : List Kind}
    {after : Kind} (hd : Yields Greedy need (.branch e b o) ks after)
    (h : PhraseCompletes need (.branch e b o) ks after) :
    PhraseCompletes need (.bare (.branch e b o)) ks after := by
  intro room c rest hafter hends
  obtain ⟨us, rfl⟩ := hd.starts
  refine .choose statementAt_if ?_
  refine .bind_nil (h room c rest hafter hends) ?_
  rintro ⟨e', b', o'⟩ mid ⟨he, hb, ho⟩
  refine .pure ?_
  rw [Stmt.erase, Stmt.erase, he, hb, ho]

theorem completes_block {need : ℕ∞} {b : Block} {ks : List Kind} {after : Kind}
    (hd : Yields Greedy need (.block b) ks after) (h : PhraseCompletes need (.block b) ks after) :
    PhraseCompletes need (.bare (.block b)) ks after := by
  intro room c rest hafter _
  obtain ⟨us, rfl⟩ := hd.starts
  refine .choose statementAt_leftBrace ?_
  refine .bind_nil (h room c rest hafter) fun b' _ hb' => .pure ?_
  rw [Stmt.erase, Stmt.erase, hb']

theorem completes_whileLoop {need : ℕ∞} {e : Expr} {b : Block} {ks bs : List Kind} {after : Kind}
    (h : Derives need .expression e ks) (hb : PhraseCompletes need (.body b) bs after) :
    PhraseCompletes need (.bare (.whileLoop e b)) (.keyword .whileWord :: (inParens ks ++ bs))
      after := by
  intro room c rest hafter hends
  refine .choose statementAt_while ?_
  rw [← List.cons_append]
  refine .bind (parenthesised_complete h) ?_
  intro e' mid he'
  refine .bind_nil (hb room mid rest hafter hends) ?_
  intro b' mid' hb'
  refine .pure ?_
  rw [Stmt.erase, Stmt.erase, he', hb']

theorem completes_forLoop {need : ℕ∞} {i : Option Init} {e n : Option Expr} {b : Block}
    {is cs ns bs : List Kind} {after : Kind} (hi : DerivesInit need i is)
    (he : DerivesClause need e cs) (hn : DerivesClause need n ns)
    (hb : PhraseCompletes need (.body b) bs after) :
    PhraseCompletes need (.bare (.forLoop i e n b)) (.keyword .forWord ::
      (inParens (is ++ .symbol .semicolon :: (cs ++ .symbol .semicolon :: ns)) ++ bs)) after := by
  intro room c rest hafter hends
  have hks : inParens (is ++ .symbol .semicolon :: (cs ++ .symbol .semicolon :: ns)) ++ bs =
      .symbol .leftParen :: (is ++ .symbol .semicolon :: (cs ++ .symbol .semicolon ::
        (ns ++ .symbol .rightParen :: bs))) := by
    simp [inParens]
  rw [hks]
  refine .choose statementAt_for (.next_bind fun _ => .expect_bind ?_)
  refine .bind (init_complete hi rfl) fun i' _ hi' => .expect_bind ?_
  refine .bind (clause_complete he rfl rfl rfl) fun e' _ he' => .expect_bind ?_
  refine .bind (clause_complete hn rfl rfl rfl) fun n' mid hn' => .expect_bind ?_
  refine .bind_nil (hb room _ rest hafter hends) fun b' _ hb' => .pure ?_
  rw [Stmt.erase, Stmt.erase, hi', he', hn', hb']

theorem completes_expr {need : ℕ∞} {e : Expr} {ks sep : List Kind} {after : Kind}
    (h : Derives need .expression e ks)
    (hsep : sep = [] ∧ endsBlock after = true ∨ sep = [.symbol .semicolon]) :
    PhraseCompletes need (.bare (.expr e)) (ks ++ sep) after := by
  intro room c rest hafter hends
  obtain ⟨k, us, rfl, hk⟩ := h.starts
  have hjoins : ((sep ++ rest).headD .eof).joins = false := by
    rcases hsep with ⟨rfl, hblock⟩ | rfl
    · exact hafter ▸ Kind.joins_of_endsBlock hblock
    · rfl
  refine .choose (fun hkind => statementAt_expression ?_) ?_
  · rw [hkind]
    exact Kind.leads_of_startsExpression hk
  refine .bind (expression_complete h hjoins) ?_
  intro e' mid he'
  have hdone : (Stmt.expr e').erase = (Stmt.expr e).erase := by
    rw [Stmt.erase, Stmt.erase, he']
  rcases hsep with ⟨rfl, hblock⟩ | rfl
  · refine .not_eat_bind ?_ (.peek_bind (.congr (fun hkind => ?_) (.pure hdone)))
    · rw [List.nil_append, hafter]
      exact (Kind.ne_of_endsStatement hends).1
    · rw [List.nil_append, hafter] at hkind
      exact congrFun (if_pos (by rw [← hblock, ← hkind]; rfl)) mid
  · exact .eat_bind (.pure hdone)

theorem headD_append (ks : List Kind) {rest : List Kind} {after : Kind}
    (h : rest.headD .eof = after) : (ks ++ rest).headD .eof = ks.headD after := by
  cases ks with
  | nil => exact h
  | cons k ks => rfl

theorem completes_nil {need : ℕ∞} {after : Kind} :
    PhraseCompletes need (.statements []) [] after := by
  intro room c rest hafter _ stops count _ hstop _
  cases count with
  | zero => exact .pure rfl
  | succ count =>
    refine .peek_bind (.congr (fun hkind => ?_) (.pure rfl))
    rw [List.nil_append, hafter] at hkind
    exact congrFun (if_pos (by rw [← hstop, ← hkind]; rfl)) c

theorem completes_cons {need : ℕ∞} {s : Stmt} {ss : List Stmt}
    {ks us : List Kind} {after : Kind} (hd : Yields Greedy need (.statement s) ks (us.headD after))
    (hd' : Yields Greedy need (.statements ss) us after)
    (h : PhraseCompletes need (.statement s) ks (us.headD after))
    (h' : PhraseCompletes need (.statements ss) us after) :
    PhraseCompletes need (.statements (s :: ss)) (ks ++ us) after := by
  intro room c rest hafter hends stops count hstops hstop hcount
  obtain ⟨k, vs, rfl, hk⟩ := hd.starts
  cases count with
  | zero => simp at hcount
  | succ count =>
    simp only [List.length_append, List.length_cons] at hcount
    rw [List.cons_append]
    refine .peek_bind (.choose (fun hkind => congrFun (if_neg ?_) c) ?_)
    · have hkind' : c.current.kind = k := hkind
      rw [hkind', hstops k hk]
      exact Bool.false_ne_true
    have hfollow := headD_append us hafter
    have hends' : (us.headD after).endsStatement = true := by
      rcases hd'.starts with ⟨-, rfl⟩ | ⟨u, us', rfl, hu⟩
      · exact hends
      · simp [Kind.endsStatement, hu]
    rw [← List.cons_append]
    refine .bind (h room c _ hfollow hends') ?_
    intro first mid hfirst
    refine .bind_nil (h' room mid rest hafter hends stops count hstops hstop (by omega)) ?_
    intro others mid' hothers
    refine .pure ?_
    rw [Stmt.eraseAll, Stmt.eraseAll, hfirst, hothers]

theorem completes_braces {need : ℕ∞} {ss : List Stmt} {s : Span} {ks : List Kind} {after : Kind}
    (h : PhraseCompletes need (.statements ss) ks (.symbol .rightBrace)) :
    PhraseCompletes need (.block (.mk ss s)) (inBraces ks) after := by
  intro room c rest hafter
  refine .expect_bind (.bind (S := (Stmt.eraseAll · = Stmt.eraseAll ss)) ?_ ?_)
  · intro hc hk
    refine h room c.advance _ rfl rfl endsBlock _ ?_ rfl ?_ hc hk
    · exact fun k hk => Kind.endsBlock_of_startsStatement hk
    · have := hc.length_ahead_le
      simp only [hk, List.length_append] at this
      omega
  · intro inner mid hinner
    refine .expect_bind (.pure ?_)
    rw [Block.erase, Block.erase, hinner]

theorem completes_bodyBlock {need : ℕ∞} {b : Block} {ks : List Kind}
    {after : Kind} (hd : Yields Greedy need (.block b) ks after)
    (h : PhraseCompletes need (.block b) ks after) : PhraseCompletes need (.body b) ks after := by
  intro room c rest hafter hends
  obtain ⟨us, rfl⟩ := hd.starts
  exact .choose body_of_leftBrace (h room c rest hafter)

theorem completes_bodyStatement {need : ℕ∞} {s : Stmt} {span : Span}
    {ks : List Kind} {after : Kind} (hs : ∀ b, s ≠ .block b)
    (hd : Yields Greedy need (.statement s) ks after)
    (h : PhraseCompletes need (.statement s) ks after) :
    PhraseCompletes need (.body (.mk [s] span)) ks after := by
  intro room c rest hafter hends
  obtain ⟨k, us, rfl, -⟩ := hd.starts
  refine .choose (fun hkind => body_of_other ?_) ?_
  · rw [hkind]
    rintro rfl
    obtain ⟨b, hb⟩ := hd.eq_block
    exact hs b hb
  refine .peek_bind (.bind_nil (h room c rest hafter hends) ?_)
  intro only mid honly
  refine .congr (fun _ => rfl) (.pure ?_)
  simp [Block.erase, Stmt.eraseAll, honly]

theorem completes_ifThen {need : ℕ∞} {e : Expr} {b : Block} {o : Otherwise}
    {cs bs os : List Kind} {after : Kind} (he : Derives need .expression e cs)
    (hb : PhraseCompletes need (.block b) bs (os.headD after))
    (ho : PhraseCompletes need (.otherwise o) os after) :
    PhraseCompletes need (.branch e b o) (.keyword .ifWord :: (inParens cs ++ (bs ++ os)))
      after := by
  intro room c rest hafter hends
  have hfollow := headD_append os hafter
  refine .congr (fun _ => by rw [branch_eq]) ?_
  rw [← List.cons_append]
  refine .bind (parenthesised_complete he) fun e' mid he' => ?_
  refine .bind (hb room mid _ hfollow) fun b' mid' hb' => ?_
  exact .bind_nil (ho room mid' rest hafter hends) fun o' _ ho' => .pure ⟨he', hb', ho'⟩

theorem completes_nothing {need : ℕ∞} {after : Kind} :
    PhraseCompletes need (.otherwise .nothing) [] after := by
  intro room c rest hafter hends
  refine .congr (fun hkind => otherwise_of_other ?_) (.pure rfl)
  rw [hkind, List.nil_append, hafter]
  exact (Kind.ne_of_endsStatement hends).2

theorem completes_elseBlock {need : ℕ∞} {b : Block} {ks : List Kind}
    {after : Kind} (hd : Yields Greedy need (.block b) ks after)
    (h : PhraseCompletes need (.block b) ks after) :
    PhraseCompletes need (.otherwise (.block b)) (.keyword .elseWord :: ks) after := by
  intro room c rest hafter hends
  obtain ⟨us, rfl⟩ := hd.starts
  refine .choose_two (fun hk hk' => otherwise_of_else hk ?_) (.next_bind fun _ => ?_)
  · rw [hk']
    nofun
  refine .bind_nil (h room _ rest hafter) fun b' _ hb' => .pure ?_
  rw [Otherwise.erase, Otherwise.erase, hb']

theorem completes_elseIf {need inner : ℕ∞} {e : Expr} {b : Block}
    {o : Otherwise} {ks : List Kind} {after : Kind} (hn : inner + 1 ≤ need)
    (hd : Yields Greedy inner (.branch e b o) ks after)
    (h : PhraseCompletes inner (.branch e b o) ks after) :
    PhraseCompletes need (.otherwise (.branch e b o)) (.keyword .elseWord :: ks) after := by
  intro room c rest hafter hends
  obtain ⟨us, rfl⟩ := hd.starts
  refine .choose_two otherwise_of_if (.next_bind fun _ => ?_)
  refine .bind_nil (S := fun parts => parts.1.erase = e.erase ∧ parts.2.1.erase = b.erase ∧
    parts.2.2.erase = o.erase) ?_ ?_
  · cases room with
    | zero => exact .congr (fun _ => by rw [elseIf]) (.tooDeep hn)
    | succ room =>
      exact .congr (fun _ => by rw [elseIf]) ((h room _ rest hafter hends).deeper hn)
  · rintro ⟨e', b', o'⟩ mid ⟨he, hb, ho⟩
    refine .pure ?_
    rw [Otherwise.erase, Otherwise.erase, he, hb, ho]

/-- Statements are read as their trees. -/
theorem completes_of_yields {need : ℕ∞} {phrase : Phrase} {ks : List Kind} {after : Kind}
    (h : Yields Greedy need phrase ks after) : PhraseCompletes need phrase ks after := by
  induction h with
  | statement hn _ ih => exact completes_statement hn ih
  | define hb hfree =>
    have := completes_define hb (.inl ⟨rfl, hfree⟩)
    rwa [List.append_nil] at this
  | defineEnded hb => exact completes_define hb (.inr rfl)
  | print he hsep => exact completes_print he hsep
  | branch hd ih => exact completes_branch hd ih
  | whileLoop he _ ih => exact completes_whileLoop he ih
  | forLoop hi he hn _ ih => exact completes_forLoop hi he hn ih
  | block hd ih => exact completes_block hd ih
  | expr he hends =>
    have := completes_expr he (.inl ⟨rfl, hends⟩)
    rwa [List.append_nil] at this
  | exprEnded he => exact completes_expr he (.inr rfl)
  | nil => exact completes_nil
  | cons hd hd' ih ih' => exact completes_cons hd hd' ih ih'
  | braces _ ih => exact completes_braces ih
  | bodyBlock hd ih => exact completes_bodyBlock hd ih
  | bodyStatement hs hd ih => exact completes_bodyStatement hs hd ih
  | ifThen he _ _ ihb iho => exact completes_ifThen he ihb iho
  | nothing => exact completes_nothing
  | elseBlock hd ih => exact completes_elseBlock hd ih
  | elseIf hn hd ih => exact completes_elseIf hn hd ih

/-- A program is read as its tree. -/
theorem program_complete {need : ℕ∞} {p : Program} {ks : List Kind} {c : Cursor}
    (h : Yields Greedy need (.statements p.statements) ks .eof) :
    Complete program maxNesting need c ks [] (·.erase = p.erase) := by
  refine .bind_nil (S := (Stmt.eraseAll · = Stmt.eraseAll p.statements)) ?_ ?_
  · intro hc hk
    refine completes_of_yields h maxNesting c [] rfl rfl Kind.isEof _ ?_ rfl ?_ hc hk
    · exact fun k hk => Kind.isEof_of_startsStatement hk
    · have := hc.length_ahead_le
      simp only [hk, List.length_append] at this
      omega
  · intro ss mid hss
    refine .pure ?_
    rw [Program.erase, Program.erase, hss]

end Respell.Parser
