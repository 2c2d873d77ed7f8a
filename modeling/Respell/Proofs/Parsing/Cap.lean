-- SUMMARY: The tallest trees that the cap on nesting lets through.
import Respell.Proofs.Parsing.Paths
import Respell.Proofs.Parsing.RoundTrip

/-!
# The cap on nesting

The cap bounds the nodes on a path other than the operators that it leaves to the left. With those
there can be more than the cap, up to a bound that the tallest tree reaches.
-/

namespace Respell

open Grammar

/-- The bound for operands when all nodes count. -/
def tallest : Nat → Nat
  | 0 => 1
  | 1 => 2
  | n + 2 => tallest (n + 1) + Level.all.length * (n + 1)

theorem bounds_tallest : Bounds 1 tallest where
  atom := Nat.le_refl 1
  unary n := by
    match n with
    | 0 => exact Nat.le_refl 2
    | n + 1 =>
      have hpos : 0 < Level.all.length * (n + 1) := Nat.mul_pos (by decide) (Nat.succ_pos n)
      exact Nat.add_le_add_left hpos _
  paren n := by
    rw [Nat.one_mul]
    match n with
    | 0 => decide
    | n + 1 => exact Nat.le_refl _

/-! ## Tall expressions -/

/-- A variable, as the operands that are not tall. -/
def leaf : Expr := .name "a" .blank

/-- A chain of `n` operators after its first operand. -/
def chained (op : BinaryOp) : Nat → Expr → Expr
  | 0, e => e
  | n + 1, e => chained op n (.binary op e leaf .blank)

/-- The tokens of a chain after its first operand. -/
def chainTokens (op : BinaryOp) : Nat → List Kind
  | 0 => []
  | n + 1 => .symbol op.symbol :: .word "a" :: chainTokens op n

/-- A chain of operators at every level, each with the chain of the tighter level as its first
    operand. -/
def crowned (n : Level → Nat) (e : Expr) : Expr :=
  chained .either (n .either) (chained .both (n .both) (chained .less (n .comparison)
    (chained .add (n .sum) (chained .mul (n .product) e))))

/-- The tokens of chains at every level. -/
def crownTokens (n : Level → Nat) (ts : List Kind) : List Kind :=
  ts ++ chainTokens .mul (n .product) ++ chainTokens .add (n .sum) ++
    chainTokens .less (n .comparison) ++ chainTokens .both (n .both) ++
    chainTokens .either (n .either)

/-- The tallest operand for each room but none: chains in parentheses, one in another, around
    a sign. -/
def peak : Nat → Expr
  | 0 => .unary .negate leaf .blank
  | n + 1 => crowned (fun _ => n + 1) (peak n)

/-- The tokens of the tallest operands. -/
def peakTokens : Nat → List Kind
  | 0 => [.symbol .minus, .word "a"]
  | n + 1 => inParens (crownTokens (fun _ => n + 1) (peakTokens n))

theorem derives_leaf (room : ℕ∞) : Derives room .primary leaf [.word "a"] :=
  .atom rfl

theorem derives_rest_chained (op : BinaryOp) (ls : List Level) (n : Nat) (e : Expr) :
    Derives n (.rest op.level ls e) (chained op n e) (chainTokens op n) := by
  induction n generalizing e with
  | zero => exact .stop
  | succ n ih =>
    exact .more (room_succ n) op.operator?_symbol ((derives_leaf n).of_primary ls) (ih _)

theorem derives_chained {room : ℕ∞} {ls : List Level} {e : Expr} {ts : List Kind} {n : Nat}
    (op : BinaryOp) (h : Derives room (.operation ls) e ts) (hn : n ≤ room) :
    Derives room (.operation (op.level :: ls)) (chained op n e) (ts ++ chainTokens op n) :=
  .chain h ((derives_rest_chained op ls n e).mono hn)

theorem derives_crowned {room : ℕ∞} {n : Level → Nat} {e : Expr} {ts : List Kind}
    (h : Derives room .primary e ts) (hn : ∀ l, n l ≤ room) :
    Derives room (.operation Level.all) (crowned n e) (crownTokens n ts) := by
  have hproduct := derives_chained .mul (.primary h) (hn .product)
  have hsum := derives_chained .add hproduct (hn .sum)
  have hcomparison := derives_chained .less hsum (hn .comparison)
  have hboth := derives_chained .both hcomparison (hn .both)
  exact derives_chained .either hboth (hn .either)

theorem derives_peak (n : Nat) : Derives (n + 1 : Nat) .primary (peak n) (peakTokens n) := by
  induction n with
  | zero => exact .unary (room_succ 0) rfl (derives_leaf _)
  | succ n ih =>
    have hparen : Derives (n + 1 + 1 : Nat) .primary ((peak (n + 1)).withSpan (peak (n + 1)).span)
        (peakTokens (n + 1)) :=
      .paren (.expression (room_succ (n + 1)) (.operation (derives_crowned ih fun _ => le_rfl)))
    rwa [Expr.withSpan_span] at hparen

/-- There is a path of the given length. -/
def Expr.Reaches (n : Nat) (e : Expr) : Prop :=
  ∃ path ∈ e.paths, path.length = n

theorem reaches_leaf : leaf.Reaches 1 :=
  ⟨[.onward], List.mem_singleton_self _, rfl⟩

theorem reaches_unary {n : Nat} {op : UnaryOp} {e : Expr} {s : Span} (h : e.Reaches n) :
    (Expr.unary op e s).Reaches (n + 1) := by
  obtain ⟨path, hpath, rfl⟩ := h
  refine ⟨.onward :: path, ?_, rfl⟩
  rw [Expr.paths, through, if_neg (by simp [List.ne_nil_of_mem hpath])]
  exact List.mem_map_of_mem hpath

/-- The operators of a chain all lie on the paths to its first operand. -/
theorem reaches_chained {l : Nat} (op : BinaryOp) (n : Nat) {e : Expr} (h : e.Reaches l) :
    (chained op n e).Reaches (l + n) := by
  induction n generalizing l e with
  | zero => exact h
  | succ n ih =>
    obtain ⟨path, hpath, rfl⟩ := h
    have hbinary : (Expr.binary op e leaf .blank).Reaches (path.length + 1) :=
      ⟨.left :: path, List.mem_append_left _ (List.mem_map_of_mem hpath), rfl⟩
    have hlen : path.length + (n + 1) = path.length + 1 + n := by omega
    rw [hlen]
    exact ih hbinary

theorem reaches_crowned {l : Nat} (n : Level → Nat) {e : Expr} (h : e.Reaches l) :
    (crowned n e).Reaches (l + (Level.all.map n).sum) := by
  have hsum : l + (Level.all.map n).sum =
      l + n .product + n .sum + n .comparison + n .both + n .either := by
    simp only [Level.all, List.map_cons, List.map_nil, List.sum_cons, List.sum_nil]
    omega
  have hproduct := reaches_chained .mul (n .product) h
  have hadd := reaches_chained .add (n .sum) hproduct
  have hcomparison := reaches_chained .less (n .comparison) hadd
  have hboth := reaches_chained .both (n .both) hcomparison
  rw [hsum]
  exact reaches_chained .either (n .either) hboth

theorem reaches_peak (n : Nat) : (peak n).Reaches (tallest (n + 1)) := by
  induction n with
  | zero => exact reaches_unary reaches_leaf
  | succ n ih =>
    have hcrowned := reaches_crowned (fun _ => n + 1) ih
    rwa [List.map_const', List.sum_replicate_nat] at hcrowned

/-! ## Programs of one expression -/

/-- A list of tokens without spans, up to the end of the input. -/
def tokensOf (ks : List Kind) : List Token :=
  (ks ++ [Kind.eof]).map (⟨·, .blank⟩)

theorem kinds_tokensOf (ks : List Kind) : (tokensOf ks).map Token.kind = ks ++ [.eof] := by
  simp [tokensOf, Function.comp_def]

/-- Chains on an operand within the cap are parsed, as an expression that is a statement. -/
theorem Program.parse_crowned {l : Nat} {n : Level → Nat} {e : Expr} {ts : List Kind}
    (h : Derives (254 : Nat) .primary e ts) (hn : ∀ l, n l ≤ 254) (hreaches : e.Reaches l) :
    ∃ p, parse (tokensOf (crownTokens n ts)) = .ok p ∧
      ∃ path ∈ p.paths, path.length = l + (Level.all.map n).sum + 1 := by
  let written : Program := ⟨[.expr (crowned n e)]⟩
  have he : Derives (255 : Nat) .expression (crowned n e) (crownTokens n ts) :=
    .expression (room_succ 254) (.operation (derives_crowned h fun l => Nat.cast_le.mpr (hn l)))
  have hd : Yields Greedy maxNesting (.statements written.statements) (crownTokens n ts ++ [])
      .eof :=
    .cons (.statement (room_succ 255) (.expr he rfl)) .nil
  rw [List.append_nil] at hd
  rcases parse_of_yields (kinds_tokensOf _) hd.eof_not_mem hd with
    ⟨p, hp, herase⟩ | ⟨_, _, _, hlt⟩
  · refine ⟨p, hp, ?_⟩
    obtain ⟨path, hpath, hlen⟩ := reaches_crowned n hreaches
    refine ⟨.onward :: path, ?_, by rw [List.length_cons, hlen]⟩
    rw [paths_eq_of_erase herase]
    refine List.mem_append_left _ ?_
    rw [Stmt.paths, through, if_neg (by simp [List.ne_nil_of_mem hpath])]
    exact List.mem_map_of_mem hpath
  · exact absurd hlt (lt_irrefl _)

/-! ## The cap -/

/-- A row of signs before a variable. -/
def signed : Nat → Expr
  | 0 => leaf
  | n + 1 => .unary .negate (signed n) .blank

/-- The tokens of a row of signs before a variable. -/
def signTokens : Nat → List Kind
  | 0 => [.word "a"]
  | n + 1 => .symbol .minus :: signTokens n

theorem derives_signed (n : Nat) : Derives n .primary (signed n) (signTokens n) := by
  induction n with
  | zero => exact derives_leaf _
  | succ n ih => exact .unary (room_succ n) rfl ih

theorem reaches_signed (n : Nat) : (signed n).Reaches (n + 1) := by
  induction n with
  | zero => exact reaches_leaf
  | succ n ih => exact reaches_unary ih

theorem length_signTokens (n : Nat) : (signTokens n).length = n + 1 := by
  induction n with
  | zero => rfl
  | succ n ih => rw [signTokens, List.length_cons, ih]

/-- The fewest tokens that make a tree too tall: 254 signs and a variable, and a sum around them. -/
theorem Program.parse_signed_sum :
    ∃ tokens p, parse tokens = .ok p ∧
      (Cursor.ofTokens tokens).ahead.length = maxNesting + 1 ∧
      ∃ path ∈ p.paths, path.length = maxNesting + 1 := by
  let n : Level → Nat := fun
    | .sum => 1
    | _ => 0
  have hn : ∀ l, n l ≤ 254 := by
    intro l
    cases l <;> decide
  have hd := derives_crowned (derives_signed 254) fun l => Nat.cast_le.mpr (hn l)
  obtain ⟨p, hp, hpath⟩ := parse_crowned (derives_signed 254) hn (reaches_signed 254)
  refine ⟨_, p, hp, ?_, hpath⟩
  rw [Cursor.ahead_ofTokens (kinds_tokensOf _) hd.eof_not_mem]
  simp [crownTokens, chainTokens, n, length_signTokens, maxNesting]

theorem two_mul_tallest (n : Nat) : 2 * tallest (n + 1) = 4 + 5 * (n * (n + 1)) := by
  induction n with
  | zero => rfl
  | succ n ih =>
    have hall : Level.all.length = 5 := rfl
    rw [tallest, hall]
    grind

theorem storey_tallest (n : Nat) :
    storey 1 tallest (n + 2) = tallest n + Level.all.length * n + 1 := by
  rw [storey, roof, Nat.one_mul]

theorem storey_maxNesting : storey 1 tallest maxNesting = 161928 := by
  have hstorey : storey 1 tallest maxNesting = tallest 254 + Level.all.length * 254 + 1 :=
    storey_tallest 254
  have htallest := two_mul_tallest 253
  have hall : Level.all.length = 5 := rfl
  simp only [Nat.reduceAdd, Nat.reduceMul] at htallest
  rw [hstorey, hall]
  generalize tallest 254 = t at htallest ⊢
  omega

/-- The tallest tree: all five chains as long as can be, in parentheses as deep as can be. -/
theorem Program.parse_peak :
    ∃ tokens p, parse tokens = .ok p ∧ ∃ path ∈ p.paths, path.length = 161928 := by
  obtain ⟨p, hp, path, hpath, hlen⟩ :=
    parse_crowned (derives_peak 253) (fun _ => le_rfl) (reaches_peak 253)
  refine ⟨_, p, hp, path, hpath, ?_⟩
  rw [hlen, List.map_const', List.sum_replicate_nat, ← storey_tallest]
  exact storey_maxNesting

/-- What the cap on nesting says about the paths through a program that is parsed. They stay within
    the cap exactly if the operators that they leave to the left are no more than the other nodes
    spare, and those other nodes always stay within it. All together they can be as many as 161928,
    no more; and they exceed the cap only if there are more tokens than it allows, which 257 are. -/
theorem Program.paths_of_parse (tokens : List Token) :
    ((∀ p, parse tokens = .ok p → ∀ path ∈ p.paths, path.length ≤ maxNesting) ↔
        ∀ p, parse tokens = .ok p → ∀ path ∈ p.paths,
          path.count .left ≤ maxNesting - path.count .onward) ∧
      (∀ p, parse tokens = .ok p → ∀ path ∈ p.paths,
        path.count .onward ≤ maxNesting ∧ path.length ≤ 161928 ∧
          path.length ≤ max maxNesting (Cursor.ofTokens tokens).ahead.length) ∧
      (∃ others p, parse others = .ok p ∧ ∃ path ∈ p.paths, path.length = 161928) ∧
      ∃ others p, parse others = .ok p ∧
        (Cursor.ofTokens others).ahead.length = maxNesting + 1 ∧
        ∃ path ∈ p.paths, path.length = maxNesting + 1 := by
  have honward : ∀ p, parse tokens = .ok p → ∀ path ∈ p.paths,
      path.count .onward ≤ maxNesting := by
    intro p hp path hpath
    rw [← path.weight_zero]
    exact fits_of_parse bounds_succ hp path hpath
  refine ⟨⟨fun h p hp path hpath => ?_, fun h p hp path hpath => ?_⟩, fun p hp path hpath => ?_,
    parse_peak, parse_signed_sum⟩
  · have hlen := h p hp path hpath
    rw [← path.count_left_add_count_onward] at hlen
    exact Nat.le_sub_of_add_le hlen
  · have hsum := Nat.add_le_of_le_sub (honward p hp path hpath) (h p hp path hpath)
    rwa [path.count_left_add_count_onward] at hsum
  · refine ⟨honward p hp path hpath, ?_, length_le_of_parse hp hpath⟩
    rw [← path.weight_one, ← storey_maxNesting]
    exact fits_of_parse bounds_tallest hp path hpath

/-- A product of 128 operators as the left operand of a sum of 128 is parsed, although a path
    through it has 258 nodes. -/
theorem Program.paths_exceed_cap :
    ∃ p, parse (tokensOf (.word "a" :: (chainTokens .mul 128 ++ chainTokens .add 128))) = .ok p ∧
      ∃ path ∈ p.paths, path.length = maxNesting + 2 := by
  let n : Level → Nat := fun
    | .product => 128
    | .sum => 128
    | _ => 0
  have hn : ∀ l, n l ≤ 254 := by
    intro l
    cases l <;> decide
  have hks : crownTokens n [.word "a"] =
      .word "a" :: (chainTokens .mul 128 ++ chainTokens .add 128) := by
    change [.word "a"] ++ chainTokens .mul 128 ++ chainTokens .add 128 ++ [] ++ [] ++ [] = _
    simp only [List.append_nil, List.nil_append, List.cons_append]
  obtain ⟨p, hp, path, hpath, hlen⟩ := parse_crowned (derives_leaf _) hn reaches_leaf
  rw [hks] at hp
  refine ⟨p, hp, path, hpath, ?_⟩
  rw [hlen]
  decide

end Respell
