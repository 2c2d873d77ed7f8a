-- SUMMARY: Whatever the grammar derives, a greedy reader can derive from the same tokens.
import Respell.Proofs.Parsing.Grammar

/-!
# Greedy derivations

Where a definition without its separator stands before a statement that starts with a sign, the
greedy reader takes the sign for an operator and the statement for the end of the value. The result
is another tree, but one that is derived from the same tokens.
-/

namespace Respell

theorem Kind.operator_of_joins {k : Kind} (h : k.startsExpression = true) (hj : k.joins = true) :
    ∃ (op : UnaryOp) (l : Level) (op' : BinaryOp),
      k.unary? = some op ∧ l.operator? k = some op' := by
  cases k with
  | symbol s =>
    cases s with
    | plus => exact ⟨.plus, .sum, .add, rfl, rfl⟩
    | minus => exact ⟨.negate, .sum, .sub, rfl, rfl⟩
    | bang => cases hj
    | leftParen => cases hj
    | _ => cases h
  | _ => cases hj

namespace Grammar

/-! ## Operations without their levels -/

/-- Operands joined by operators of the given levels. -/
inductive Run (ls : List Level) : List Kind → Prop where
  | operand {e : Expr} {ts : List Kind} : Derives ⊤ .primary e ts → Run ls ts
  | join {e : Expr} {l : Level} {k : Kind} {op : BinaryOp} {ts us : List Kind} :
      Derives ⊤ .primary e ts → l ∈ ls → l.operator? k = some op → Run ls us →
      Run ls (ts ++ k :: us)

/-- Operators of one level, each with a run of the levels that bind more tightly. -/
inductive Tail (l : Level) (ls : List Level) : List Kind → Prop where
  | nil : Tail l ls []
  | cons {k : Kind} {op : BinaryOp} {us vs : List Kind} :
      l.operator? k = some op → Run ls us → Tail l ls vs → Tail l ls (k :: (us ++ vs))

theorem Run.append {ls : List Level} {l : Level} {k : Kind} {op : BinaryOp} {ts us : List Kind}
    (h : Run ls ts) (hl : l ∈ ls) (hop : l.operator? k = some op) (h' : Run ls us) :
    Run ls (ts ++ k :: us) := by
  induction h with
  | operand hd => exact .join hd hl hop h'
  | join hd hl₀ hop₀ _ ih =>
    rw [List.append_assoc, List.cons_append]
    exact .join hd hl₀ hop₀ ih

/-- A run is cut at its operators of the loosest level. -/
theorem Run.cut {l : Level} {ls : List Level} {ts : List Kind} (h : Run (l :: ls) ts) :
    ∃ us vs, ts = us ++ vs ∧ Run ls us ∧ Tail l ls vs := by
  induction h with
  | operand hd => exact ⟨_, [], (List.append_nil _).symm, .operand hd, .nil⟩
  | @join e l' k op ts _ hd hl hop _ ih =>
    obtain ⟨us, vs, rfl, hus, hvs⟩ := ih
    rcases List.mem_cons.mp hl with rfl | hl
    · exact ⟨ts, k :: (us ++ vs), rfl, .operand hd, .cons hop hus hvs⟩
    · exact ⟨ts ++ k :: us, vs, by simp, .join hd hl hop hus, hvs⟩

theorem Tail.derives {l : Level} {ls : List Level} {vs : List Kind} (h : Tail l ls vs)
    (hrun : ∀ us, Run ls us → ∃ e, Derives ⊤ (.operation ls) e us) (left : Expr) :
    ∃ e, Derives ⊤ (.rest l ls left) e vs := by
  induction h generalizing left with
  | nil => exact ⟨left, .stop⟩
  | @cons k op us vs hop hus _ ih =>
    obtain ⟨b, hb⟩ := hrun us hus
    obtain ⟨e, he⟩ := ih (.binary op left b ⟨0, 0⟩)
    exact ⟨e, .more le_top hop hb he⟩

/-- Every run is an operation: the levels say how it is grouped, never whether. -/
theorem Run.derives {ls : List Level} {ts : List Kind} (h : Run ls ts) :
    ∃ e, Derives ⊤ (.operation ls) e ts := by
  induction ls generalizing ts with
  | nil =>
    cases h with
    | operand hd => exact ⟨_, .primary hd⟩
    | join _ hl _ _ => cases hl
  | cons l ls ih =>
    obtain ⟨us, vs, rfl, hus, hvs⟩ := h.cut
    obtain ⟨a, ha⟩ := ih hus
    obtain ⟨e, he⟩ := hvs.derives (fun _ hrun => ih hrun) a
    exact ⟨e, .chain ha he⟩

/-- The tokens of an operation are a run, and those of a rest carry on with one. -/
def Category.Runs : Category → List Kind → Prop
  | .operation _, ks => Run Level.all ks
  | .rest _ _ _, ks => ∀ ts, Run Level.all ts → Run Level.all (ts ++ ks)
  | _, _ => True

theorem Derives.runs {room : ℕ∞} {category : Category} {e : Expr} {ks : List Kind}
    (h : Derives room category e ks) : category.Runs ks := by
  induction h with
  | primary hd _ => exact .operand (hd.mono le_top)
  | chain _ _ iha ihe => exact ihe _ iha
  | stop =>
    intro ts hts
    rwa [List.append_nil]
  | @more _ _ l _ k _ _ _ _ _ us vs _ hop _ _ ihb ihe =>
    intro ts hts
    have hrun := ihe (ts ++ k :: us) (hts.append l.mem_all hop ihb)
    rwa [List.append_assoc, List.cons_append] at hrun
  | _ => trivial

theorem Derives.of_sign {room : ℕ∞} {k : Kind} {op : UnaryOp} {e : Expr} {ts : List Kind}
    (h : Derives room .primary e (k :: ts)) (hk : k.unary? = some op) :
    ∃ e', Derives ⊤ .primary e' ts := by
  generalize hks : k :: ts = ks at h
  cases h with
  | atom ha =>
    cases hks
    cases k with
    | symbol s => cases ha
    | _ => cases hk
  | paren _ => cases hks; cases hk
  | unary _ _ hd => cases hks; exact ⟨_, hd.mono le_top⟩

/-- A run that starts with a sign is still one without the sign. -/
theorem Run.of_sign {ls : List Level} {k : Kind} {op : UnaryOp} {ts : List Kind}
    (h : Run ls (k :: ts)) (hk : k.unary? = some op) : Run ls ts := by
  generalize hks : k :: ts = ks at h
  cases h with
  | operand hd =>
    cases hks
    obtain ⟨e', hd'⟩ := hd.of_sign hk
    exact .operand hd'
  | join hd hl hop hrun =>
    obtain ⟨k', us, rfl, -⟩ := hd.starts
    cases hks
    obtain ⟨e', hd'⟩ := hd.of_sign hk
    exact .join hd' hl hop hrun

/-! ## Expressions one after another -/

/-- How the tokens of a variable start. -/
def Category.Named : Category → Expr → List Kind → Prop
  | .rest _ _ a, e, ks => ∀ x s, e = .name x s → a = e ∧ ks = []
  | _, e, ks => ∀ x s, e = .name x s → ∀ k us, ks = k :: us → k.unary? = none

theorem Derives.named {room : ℕ∞} {category : Category} {e : Expr} {ks : List Kind}
    (h : Derives room category e ks) : category.Named e ks := by
  induction h with
  | expression _ _ ih => exact ih
  | operation _ ih => exact ih
  | assign _ _ _ _ => nofun
  | primary _ ih => exact ih
  | chain _ _ iha ihe =>
    rintro x s rfl k us hks
    obtain ⟨rfl, rfl⟩ := ihe x s rfl
    rw [List.append_nil] at hks
    exact iha x s rfl k us hks
  | stop => exact fun _ _ _ => ⟨rfl, rfl⟩
  | more _ _ _ _ _ ihe =>
    intro x s he
    obtain ⟨hbinary, -⟩ := ihe x s he
    rw [he] at hbinary
    cases hbinary
  | @atom _ k _ _ ha =>
    rintro x s - k' us hks
    cases hks
    cases k with
    | symbol s => cases ha
    | _ => rfl
  | paren _ _ =>
    rintro x s - k' us hks
    cases hks
    rfl
  | unary _ _ _ _ => nofun

/-- An expression that starts with a sign is an operation. -/
theorem Derives.run_of_sign {room : ℕ∞} {k : Kind} {op : UnaryOp} {e : Expr} {ts : List Kind}
    (h : Derives room .expression e (k :: ts)) (hk : k.unary? = some op) : Run Level.all ts := by
  generalize hks : k :: ts = ks at h
  cases h with
  | expression _ h =>
    cases h with
    | operation h =>
      have hrun : Run Level.all (k :: ts) := hks ▸ h.runs
      exact hrun.of_sign hk
    | assign ht _ =>
      obtain ⟨k', us, rfl, -⟩ := ht.starts
      cases hks
      have := ht.named _ _ rfl k us rfl
      rw [this] at hk
      cases hk

/-- Tokens that start with an operator carry on with an expression, at its last operand. -/
theorem Derives.extend {room : ℕ∞} {category : Category} {v : Expr} {vs : List Kind}
    (h : Derives room category v vs) {l : Level} {k : Kind} {op : BinaryOp} {ts : List Kind}
    (hop : l.operator? k = some op) (hts : Run Level.all ts)
    (hcategory : category = .expression ∨ category = .assignment) :
    ∃ e, Derives ⊤ category e (vs ++ k :: ts) := by
  induction h with
  | expression _ _ ih =>
    obtain ⟨e, he⟩ := ih (.inr rfl)
    exact ⟨e, .expression le_top he⟩
  | operation h _ =>
    have hrun : Run Level.all _ := h.runs
    obtain ⟨e, he⟩ := (hrun.append l.mem_all hop hts).derives
    exact ⟨e, .operation he⟩
  | assign ht _ _ ihv =>
    obtain ⟨e, he⟩ := ihv (.inl rfl)
    rw [List.append_assoc, List.cons_append]
    exact ⟨.assign _ e ⟨0, 0⟩, .assign (ht.mono le_top) he⟩
  | _ => rcases hcategory with h | h <;> cases h

/-- An expression and one that starts with a sign are together an expression. -/
theorem Derives.join {room room' : ℕ∞} {v e : Expr} {k : Kind} {vs ts : List Kind}
    (hv : Derives room .expression v vs) (he : Derives room' .expression e (k :: ts))
    (hk : k.joins = true) : ∃ e', Derives ⊤ .expression e' (vs ++ k :: ts) := by
  obtain ⟨k', us, hks, hstarts⟩ := he.starts
  cases hks
  obtain ⟨op, l, op', hu, hop⟩ := Kind.operator_of_joins hstarts hk
  exact hv.extend hop (he.run_of_sign hu) (.inl rfl)

/-! ## Statements one after another -/

/-- What the greedy reader takes for the rest of a definition: nothing, or a statement that starts
    with a sign. -/
inductive Continues : List Kind → Kind → Prop where
  | nothing {after : Kind} : Greedy after → Continues [] after
  | expr {room : ℕ∞} {e : Expr} {k : Kind} {ts : List Kind} {after : Kind} :
      k.joins = true → Derives room .expression e (k :: ts) → Parser.endsBlock after = true →
      Continues (k :: ts) after
  | exprEnded {room : ℕ∞} {e : Expr} {k : Kind} {ts : List Kind} {after : Kind} :
      k.joins = true → Derives room .expression e (k :: ts) →
      Continues (k :: (ts ++ [.symbol .semicolon])) after

/-- There is a greedy derivation of a phrase. -/
def Written {α : Type} (phrase : α → Phrase) (ks : List Kind) (after : Kind) : Prop :=
  ∃ a, Yields Greedy ⊤ (phrase a) ks after

/-- A statement ends for itself, or with a definition that can be carried on with, or before the end
    of the statements around it. -/
def Settles (P : List Kind → Kind → Prop) (ks : List Kind) (after : Kind) : Prop :=
  (∀ after', P ks after') ∨ (∀ us after', Continues us after' → P (ks ++ us) after') ∨
    (Parser.endsBlock after = true ∧ P ks after)

theorem Settles.map {P Q : List Kind → Kind → Prop} {ks js : List Kind} {after : Kind}
    (h : Settles P ks after) (hmap : ∀ us after', P (ks ++ us) after' → Q (js ++ us) after') :
    Settles Q js after := by
  have hmap' : ∀ after', P ks after' → Q js after' := by
    intro after' hP
    have hQ := hmap [] after' (by rwa [List.append_nil])
    rwa [List.append_nil] at hQ
  rcases h with hclosed | hopen | ⟨hends, hP⟩
  · exact .inl fun after' => hmap' after' (hclosed after')
  · exact .inr (.inl fun us after' hus => hmap us after' (hopen us after' hus))
  · exact .inr (.inr ⟨hends, hmap' after hP⟩)

theorem settles_define {room : ℕ∞} {b : Binding} {ks : List Kind} {after : Kind}
    (h : DerivesBinding room b ks) : Settles (Written .bare) ks after := by
  obtain ⟨vs, rfl, hv⟩ := h
  refine .inr (.inl fun us after' hus => ?_)
  cases hus with
  | nothing hfree =>
    rw [List.append_nil]
    exact ⟨.define b, .define ⟨vs, rfl, hv.mono le_top⟩ hfree⟩
  | expr hk he hends =>
    obtain ⟨e, he'⟩ := hv.join he hk
    exact ⟨.define ⟨b.name, e, b.span⟩, .define ⟨_, rfl, he'⟩ (Kind.joins_of_endsBlock hends)⟩
  | @exprEnded _ _ k ts _ hk he =>
    obtain ⟨e, he'⟩ := hv.join he hk
    have hb : DerivesBinding ⊤ ⟨b.name, e, b.span⟩ _ := ⟨_, rfl, he'⟩
    exact ⟨.define ⟨b.name, e, b.span⟩, by simpa using Yields.defineEnded hb⟩

/-- A statement that starts with a sign is an expression. -/
theorem Yields.continues {free : Kind → Prop} {room : ℕ∞} {s : Stmt} {k : Kind} {ks : List Kind}
    {after : Kind} (h : Yields free room (.statement s) (k :: ks) after) (hk : k.joins = true) :
    Continues (k :: ks) after := by
  generalize hus : k :: ks = us at h
  cases h with
  | statement _ h =>
    cases h with
    | define hb _ => obtain ⟨vs, rfl, -⟩ := hb; cases hus; cases hk
    | defineEnded hb => obtain ⟨vs, rfl, -⟩ := hb; cases hus; cases hk
    | print _ _ => cases hus; cases hk
    | branch hb => obtain ⟨vs, rfl⟩ := hb.starts; cases hus; cases hk
    | whileLoop _ _ => cases hus; cases hk
    | forLoop _ _ _ _ => cases hus; cases hk
    | block hb => obtain ⟨vs, rfl⟩ := hb.starts; cases hus; cases hk
    | expr he hends => cases hus; exact .expr hk he hends
    | exprEnded he =>
      obtain ⟨k', vs, rfl, -⟩ := he.starts
      cases hus
      exact .exprEnded hk he

-- Case by case on how the first statement ends; what it takes in is the first of the others.
theorem written_cons {ks us : List Kind} {after : Kind} (hends : Parser.endsBlock after = true)
    (h : Settles (Written .statement) ks (us.headD after))
    (h' : Written .statements us after) : Written .statements (ks ++ us) after := by
  obtain ⟨ss, hss⟩ := h'
  rcases h with hclosed | hopen | ⟨-, s, hs⟩
  · obtain ⟨s, hs⟩ := hclosed (us.headD after)
    exact ⟨s :: ss, .cons hs hss⟩
  · cases hj : (us.headD after).joins with
    | false =>
      obtain ⟨s, hs⟩ := hopen [] _ (.nothing hj)
      rw [List.append_nil] at hs
      exact ⟨s :: ss, .cons hs hss⟩
    | true =>
      generalize hphrase : Phrase.statements ss = phrase at hss
      cases hss with
      | nil =>
        rw [List.headD_nil, Kind.joins_of_endsBlock hends] at hj
        cases hj
      | @cons _ s' ss' us vs _ hs' hss' =>
        obtain ⟨k, us, rfl, -⟩ := hs'.starts
        obtain ⟨s, hs⟩ := hopen _ _ (hs'.continues hj)
        rw [← List.append_assoc]
        exact ⟨s :: ss', .cons hs hss'⟩
      | _ => cases hphrase
  · exact ⟨s :: ss, .cons hs hss⟩

/-- What there is of greedy derivations for the tokens of a phrase. -/
def Phrase.Normal : Phrase → List Kind → Kind → Prop
  | .statement _, ks, after => Settles (Written .statement) ks after
  | .bare _, ks, after => Settles (Written .bare) ks after
  | .statements _, ks, after => Parser.endsBlock after = true → Written .statements ks after
  | .block _, ks, _ => ∀ after, Written .block ks after
  | .body _, ks, after => Settles (Written .body) ks after
  | .branch _ _ _, ks, _ => ∀ after, ∃ c b o, Yields Greedy ⊤ (.branch c b o) ks after
  | .otherwise _, ks, _ => ∀ after, Written .otherwise ks after

theorem Yields.normal {free : Kind → Prop} {room : ℕ∞} {phrase : Phrase} {ks : List Kind}
    {after : Kind} (h : Yields free room phrase ks after) : phrase.Normal ks after := by
  induction h with
  | statement _ _ ih =>
    refine Settles.map ih fun us after' => ?_
    rintro ⟨s, hs⟩
    exact ⟨s, .statement le_top hs⟩
  | define hb _ => exact settles_define hb
  | defineEnded hb => exact .inl fun _ => ⟨_, .defineEnded (hb.mono le_top)⟩
  | print he hsep => exact .inl fun _ => ⟨_, .print (he.mono le_top) hsep⟩
  | branch _ ih =>
    refine .inl fun after' => ?_
    obtain ⟨c, b, o, h⟩ := ih after'
    exact ⟨_, .branch h⟩
  | whileLoop hc _ ih =>
    refine Settles.map ih fun us after' => ?_
    rintro ⟨b, hb⟩
    exact ⟨_, by simpa using Yields.whileLoop (hc.mono le_top) hb⟩
  | forLoop hi hc hn _ ih =>
    refine Settles.map ih fun us after' => ?_
    rintro ⟨b, hb⟩
    have hloop := Yields.forLoop (hi.mono le_top) (hc.mono le_top) (hn.mono le_top) hb
    exact ⟨_, by simpa using hloop⟩
  | block _ ih =>
    refine .inl fun after' => ?_
    obtain ⟨b, hb⟩ := ih after'
    exact ⟨_, .block hb⟩
  | expr he hends => exact .inr (.inr ⟨hends, _, .expr (he.mono le_top) hends⟩)
  | exprEnded he => exact .inl fun _ => ⟨_, .exprEnded (he.mono le_top)⟩
  | nil => exact fun _ => ⟨[], .nil⟩
  | cons _ _ ih ih' => exact fun hends => written_cons hends ih (ih' hends)
  | braces _ ih =>
    intro after'
    obtain ⟨ss, hss⟩ := ih rfl
    exact ⟨.mk ss ⟨0, 0⟩, .braces hss⟩
  | bodyBlock _ ih =>
    refine .inl fun after' => ?_
    obtain ⟨b, hb⟩ := ih after'
    exact ⟨b, .bodyBlock hb⟩
  | bodyStatement hs hd ih =>
    obtain ⟨k, ks, rfl, -⟩ := hd.starts
    refine Settles.map ih fun us after' => ?_
    rintro ⟨s', hs'⟩
    refine ⟨.mk [s'] ⟨0, 0⟩, .bodyStatement ?_ hs'⟩
    rintro b rfl
    obtain ⟨vs, hvs⟩ := hs'.starts_block
    cases hvs
    obtain ⟨b', hb'⟩ := hd.eq_block
    exact hs b' hb'
  | @ifThen _ _ _ _ _ _ os _ hc _ _ ihb iho =>
    intro after'
    obtain ⟨b, hb⟩ := ihb (os.headD after')
    obtain ⟨o, ho⟩ := iho after'
    exact ⟨_, b, o, .ifThen (hc.mono le_top) hb ho⟩
  | nothing => exact fun _ => ⟨.nothing, .nothing⟩
  | elseBlock _ ih =>
    intro after'
    obtain ⟨b, hb⟩ := ih after'
    exact ⟨.block b, .elseBlock hb⟩
  | elseIf _ _ ih =>
    intro after'
    obtain ⟨c, b, o, h⟩ := ih after'
    exact ⟨.branch c b o, .elseIf le_top h⟩

/-- The tokens of a program have a greedy derivation. -/
theorem Accepts.greedy {p : Program} {ks : List Kind} (h : Accepts p ks) :
    ∃ q : Program, Yields Greedy ⊤ (.statements q.statements) ks .eof := by
  obtain ⟨ss, hss⟩ := Yields.normal h rfl
  exact ⟨⟨ss⟩, hss⟩

end Grammar

end Respell
