-- SUMMARY: The paths through a tree, bounded by the room it is in and by its tokens.
import Respell.Proofs.Parsing.Acceptance

/-!
# Paths

A path goes from the root of a tree to a leaf, through statements, the `if` of an `else if`, and
expressions. The room for nesting is given back at the end of a chain of operators, although the
chain then is the left operand of the next one. So paths remember which of their nodes are operators
that they leave to the left, and those get a weight of their own.
-/

namespace Respell

open Grammar

/-- How a path leaves a node. -/
inductive Turn where
  /-- from a binary operator to its left operand -/
  | left
  /-- to any other part, or nowhere from a leaf -/
  | onward
deriving Repr, DecidableEq

/-- The nodes of a path, from the root on. -/
abbrev Path := List Turn

/-- The paths of a node, given those of its parts. -/
def through (below : List Path) : List Path :=
  if below.isEmpty then [[.onward]] else below.map (.onward :: ·)

/-- The paths through an expression. -/
def Expr.paths : Expr → List Path
  | .assign _ v _ => through v.paths
  | .binary _ l r _ => l.paths.map (.left :: ·) ++ through r.paths
  | .unary _ e _ => through e.paths
  | _ => through []

/-- The paths through the start of a `for`. -/
def Init.paths : Init → List Path
  | .define b => b.value.paths
  | .expr e => e.paths

/-- The paths through what may be left out. -/
def paths? {α : Type} (paths : α → List Path) : Option α → List Path
  | none => []
  | some a => paths a

mutual

/-- The paths through a statement. -/
def Stmt.paths : Stmt → List Path
  | .define b => through b.value.paths
  | .print e => through e.paths
  | .block b => through b.paths
  | .branch c b o => through (c.paths ++ (b.paths ++ o.paths))
  | .whileLoop c b => through (c.paths ++ b.paths)
  | .forLoop i c n b =>
    through (paths? Init.paths i ++ (paths? Expr.paths c ++ (paths? Expr.paths n ++ b.paths)))
  | .expr e => through e.paths

/-- The paths through statements. -/
def Stmt.pathsAll : List Stmt → List Path
  | [] => []
  | s :: ss => s.paths ++ Stmt.pathsAll ss

/-- The paths through a block, which is no node itself. -/
def Block.paths : Block → List Path
  | .mk ss _ => Stmt.pathsAll ss

/-- The paths through what an `if` does when its condition fails. -/
def Otherwise.paths : Otherwise → List Path
  | .nothing => []
  | .block b => b.paths
  | .branch c b o => through (c.paths ++ (b.paths ++ o.paths))

end

/-- The paths through a program. -/
def Program.paths (p : Program) : List Path :=
  Stmt.pathsAll p.statements

/-! ## Spans do not matter -/

@[simp] theorem Expr.paths_withSpan (s : Span) (e : Expr) : (e.withSpan s).paths = e.paths := by
  cases e <;> rfl

@[simp] theorem Expr.paths_erase (e : Expr) : e.erase.paths = e.paths := by
  induction e with
  | assign x v s ih => rw [Expr.erase, Expr.paths, Expr.paths, ih]
  | binary op l r s ihl ihr => rw [Expr.erase, Expr.paths, Expr.paths, ihl, ihr]
  | unary op e s ih => rw [Expr.erase, Expr.paths, Expr.paths, ih]
  | _ => rfl

@[simp] theorem Init.paths_erase (i : Init) : i.erase.paths = i.paths := by
  cases i with
  | define b => exact b.value.paths_erase
  | expr e => exact e.paths_erase

theorem paths?_map {α : Type} {paths : α → List Path} {erase : α → α}
    (h : ∀ a, paths (erase a) = paths a) (a : Option α) :
    paths? paths (a.map erase) = paths? paths a := by
  cases a with
  | none => rfl
  | some a => exact h a

mutual

theorem Stmt.paths_erase (s : Stmt) : s.erase.paths = s.paths := by
  match s with
  | .define b => simp [Stmt.erase, Stmt.paths, Binding.erase]
  | .print e => simp [Stmt.erase, Stmt.paths]
  | .block b => simp [Stmt.erase, Stmt.paths, b.paths_erase]
  | .branch c b o => simp [Stmt.erase, Stmt.paths, b.paths_erase, o.paths_erase]
  | .whileLoop c b => simp [Stmt.erase, Stmt.paths, b.paths_erase]
  | .forLoop i c n b =>
    simp [Stmt.erase, Stmt.paths, paths?_map Init.paths_erase, paths?_map Expr.paths_erase,
      b.paths_erase]
  | .expr e => simp [Stmt.erase, Stmt.paths]

theorem Stmt.pathsAll_erase (ss : List Stmt) :
    Stmt.pathsAll (Stmt.eraseAll ss) = Stmt.pathsAll ss := by
  match ss with
  | [] => rfl
  | s :: ss => simp [Stmt.eraseAll, Stmt.pathsAll, s.paths_erase, Stmt.pathsAll_erase ss]

theorem Block.paths_erase (b : Block) : b.erase.paths = b.paths := by
  match b with
  | .mk ss s => simp [Block.erase, Block.paths, Stmt.pathsAll_erase ss]

theorem Otherwise.paths_erase (o : Otherwise) : o.erase.paths = o.paths := by
  match o with
  | .nothing => rfl
  | .block b => simp [Otherwise.erase, Otherwise.paths, b.paths_erase]
  | .branch c b o => simp [Otherwise.erase, Otherwise.paths, b.paths_erase, o.paths_erase]

end

theorem Program.paths_eq_of_erase {p q : Program} (h : q.erase = p.erase) : q.paths = p.paths := by
  have hss : Stmt.eraseAll q.statements = Stmt.eraseAll p.statements :=
    congrArg Program.statements h
  rw [Program.paths, ← Stmt.pathsAll_erase, hss, Stmt.pathsAll_erase, Program.paths]

/-! ## Weights -/

/-- The nodes of a path, where those that it leaves to the left count as `left` each. -/
def Path.weight (left : Nat) : Path → Nat
  | [] => 0
  | .left :: path => Path.weight left path + left
  | .onward :: path => Path.weight left path + 1

theorem Path.weight_zero (path : Path) : path.weight 0 = path.count .onward := by
  induction path with
  | nil => rfl
  | cons t path ih => cases t <;> simp [Path.weight, ih]

theorem Path.weight_one (path : Path) : path.weight 1 = path.length := by
  induction path with
  | nil => rfl
  | cons t path ih => cases t <;> rw [Path.weight, ih, List.length_cons]

theorem Path.count_left_add_count_onward (path : Path) :
    path.count .left + path.count .onward = path.length := by
  induction path with
  | nil => rfl
  | cons t path ih => cases t <;> simp [← ih] <;> omega

/-- No path weighs more than `n`. -/
def Fits (left n : Nat) (paths : List Path) : Prop :=
  ∀ path ∈ paths, path.weight left ≤ n

section Fits

variable {left n m : Nat} {ps qs : List Path}

theorem Fits.mono (h : Fits left n ps) (hn : n ≤ m) : Fits left m ps :=
  fun path hpath => (h path hpath).trans hn

theorem Fits.nil : Fits left n [] :=
  fun _ hpath => absurd hpath List.not_mem_nil

theorem Fits.append (h : Fits left n ps) (h' : Fits left n qs) : Fits left n (ps ++ qs) := by
  intro path hpath
  rcases List.mem_append.mp hpath with hp | hq
  · exact h path hp
  · exact h' path hq

/-- A node adds to the paths of its parts. -/
theorem Fits.through (h : Fits left n ps) : Fits left (n + 1) (through ps) := by
  intro path hpath
  unfold Respell.through at hpath
  split at hpath
  · rw [List.mem_singleton.mp hpath]
    exact Nat.succ_le_succ (Nat.zero_le n)
  · obtain ⟨path', hpath', rfl⟩ := List.mem_map.mp hpath
    exact Nat.succ_le_succ (h path' hpath')

theorem Fits.toLeft (h : Fits left n ps) : Fits left (n + left) (ps.map (.left :: ·)) := by
  intro path hpath
  obtain ⟨path', hpath', rfl⟩ := List.mem_map.mp hpath
  exact Nat.add_le_add_right (h path' hpath') left

end Fits

/-! ## Paths and room -/

/-- What bounds the paths through operands, given the room they are in: a sign adds a node and takes
    a level; parentheses take a level, and add what the chains in them add at every level. -/
structure Bounds (left : Nat) (operand : Nat → Nat) : Prop where
  atom : 1 ≤ operand 0
  unary : ∀ n, operand n + 1 ≤ operand (n + 1)
  paren : ∀ n, operand n + Level.all.length * (left * n) ≤ operand (n + 1)

theorem paths_of_atom? {k : Kind} {s : Span} {e : Expr} (h : k.atom? s = some e) :
    e.paths = through [] := by
  cases k with
  | keyword r => cases r <;> cases h <;> rfl
  | symbol s => cases h
  | eof => cases h
  | _ => cases h; rfl

/-- The bound for expressions, and for all that a statement holds. -/
def roof (left : Nat) (operand : Nat → Nat) : Nat → Nat
  | 0 => 0
  | n + 1 => operand n + Level.all.length * (left * n)

/-- The bound for statements. -/
def storey (left : Nat) (operand : Nat → Nat) : Nat → Nat
  | 0 => 0
  | n + 1 => roof left operand n + 1

section Bounds

variable {left : Nat} {operand : Nat → Nat}

theorem Bounds.one_le (hb : Bounds left operand) (n : Nat) : 1 ≤ operand n := by
  induction n with
  | zero => exact hb.atom
  | succ n ih => exact (Nat.le_succ_of_le ih).trans (hb.unary n)

theorem Bounds.roof_le (hb : Bounds left operand) (n : Nat) : roof left operand n ≤ operand n := by
  cases n with
  | zero => exact Nat.zero_le _
  | succ n => exact hb.paren n

theorem Bounds.roof_succ_le (hb : Bounds left operand) (n : Nat) :
    roof left operand n + 1 ≤ operand n + Level.all.length * (left * n) := by
  cases n with
  | zero => exact (Nat.succ_le_succ (Nat.le_refl 0)).trans (Nat.le_add_right_of_le hb.atom)
  | succ n =>
    have hmono : Level.all.length * (left * n) ≤ Level.all.length * (left * (n + 1)) := by
      gcongr
      exact Nat.le_succ n
    have := hb.unary n
    rw [roof]
    omega

theorem Bounds.storey_le (hb : Bounds left operand) (n : Nat) :
    storey left operand n ≤ roof left operand n := by
  cases n with
  | zero => exact Nat.le_refl 0
  | succ n => exact hb.roof_succ_le n

/-- A level of nesting takes one off the room. -/
theorem exists_inner {inner room : ℕ∞} {n : Nat} (hi : inner + 1 ≤ room) (hn : room ≤ n) :
    ∃ m : Nat, n = m + 1 ∧ inner ≤ m := by
  have h := hi.trans hn
  cases n with
  | zero => simp at h
  | succ m =>
    refine ⟨m, rfl, ?_⟩
    rw [Nat.cast_add, Nat.cast_one] at h
    exact (ENat.add_le_add_iff_right ENat.one_ne_top).mp h

/-- The paths of a category are bounded in the given room. A rest adds to what bounds both the left
    operand and the operands of its own. -/
def Grammar.Category.Within (left : Nat) (operand : Nat → Nat) (n : Nat) :
    Category → Expr → Prop
  | .expression, e => Fits left (roof left operand n) e.paths
  | .assignment, e => Fits left (operand n + Level.all.length * (left * n)) e.paths
  | .operation ls, e => Fits left (operand n + ls.length * (left * n)) e.paths
  | .rest _ ls a, e => ∀ h, operand n + ls.length * (left * n) ≤ h → Fits left h a.paths →
      Fits left (h + left * n) e.paths
  | .primary, e => Fits left (operand n) e.paths

theorem within_more (hb : Bounds left operand) {m : Nat} {l : Level} {ls : List Level}
    {op : BinaryOp} {a b e : Expr} {s : Span}
    (hright : Category.Within left operand m (.operation ls) b)
    (hrest : Category.Within left operand m (.rest l ls (.binary op a b s)) e) :
    Category.Within left operand (m + 1) (.rest l ls a) e := by
  intro h hh ha
  have hmono : ls.length * (left * m) ≤ ls.length * (left * (m + 1)) := by
    gcongr
    exact Nat.le_succ m
  have hunary := hb.unary m
  have hbinary : Fits left (h + left) (Expr.binary op a b s).paths :=
    ha.toLeft.append (hright.through.mono (by omega))
  refine (hrest (h + left) (by omega) hbinary).mono ?_
  rw [Nat.mul_succ]
  omega

theorem Grammar.Derives.within (hb : Bounds left operand) {room : ℕ∞} {category : Category}
    {e : Expr} {ks : List Kind} (h : Derives room category e ks) {n : Nat} (hn : room ≤ n) :
    category.Within left operand n e := by
  induction h generalizing n with
  | expression hi _ ih =>
    obtain ⟨m, rfl, hm⟩ := exists_inner hi hn
    exact ih hm
  | operation _ ih => exact ih hn
  | assign _ _ _ ihv => exact (ihv hn).through.mono (hb.roof_succ_le n)
  | primary _ ih => exact (ih hn).mono (Nat.le_add_right _ _)
  | chain _ _ iha ihe =>
    refine (ihe hn _ (Nat.le_refl _) (iha hn)).mono ?_
    rw [Nat.add_assoc, ← Nat.succ_mul, List.length_cons]
  | stop => exact fun h _ ha => ha.mono (Nat.le_add_right _ _)
  | more hi _ _ _ ihb ihe =>
    obtain ⟨m, rfl, hm⟩ := exists_inner hi hn
    exact within_more hb (ihb hm) (ihe hm)
  | atom ha =>
    rw [Category.Within, paths_of_atom? ha]
    exact Fits.nil.through.mono (hb.one_le n)
  | paren _ ih =>
    rw [Category.Within, Expr.paths_withSpan]
    exact (ih hn).mono (hb.roof_le n)
  | unary hi _ _ ih =>
    obtain ⟨m, rfl, hm⟩ := exists_inner hi hn
    exact (ih hm).through.mono (hb.unary m)

theorem fits_of_clause (hb : Bounds left operand) {room : ℕ∞} {e : Option Expr} {ks : List Kind}
    (h : DerivesClause room e ks) {n : Nat} (hn : room ≤ n) :
    Fits left (roof left operand n) (paths? Expr.paths e) := by
  cases e with
  | none => exact .nil
  | some e => exact Derives.within hb h hn

theorem fits_of_init (hb : Bounds left operand) {room : ℕ∞} {i : Option Init} {ks : List Kind}
    (h : DerivesInit room i ks) {n : Nat} (hn : room ≤ n) :
    Fits left (roof left operand n) (paths? Init.paths i) := by
  match i, h with
  | none, _ => exact .nil
  | some (.define b), ⟨vs, _, hv⟩ => exact Derives.within hb hv hn
  | some (.expr e), h => exact Derives.within hb h hn

/-- The paths of a phrase are bounded in the given room. -/
def Grammar.Phrase.Within (left : Nat) (operand : Nat → Nat) (n : Nat) : Phrase → Prop
  | .statement s => Fits left (storey left operand n) s.paths
  | .bare s => Fits left (roof left operand n + 1) s.paths
  | .statements ss => Fits left (storey left operand n) (Stmt.pathsAll ss)
  | .block b => Fits left (storey left operand n) b.paths
  | .body b => Fits left (storey left operand n) b.paths
  | .branch c b o => Fits left (roof left operand n) (c.paths ++ (b.paths ++ o.paths))
  | .otherwise o => Fits left (roof left operand n) o.paths

theorem Grammar.Yields.within (hb : Bounds left operand) {free : Kind → Prop} {room : ℕ∞}
    {phrase : Phrase} {ks : List Kind} {after : Kind} (h : Yields free room phrase ks after)
    {n : Nat} (hn : room ≤ n) : phrase.Within left operand n := by
  induction h generalizing n with
  | statement hi _ ih =>
    obtain ⟨m, rfl, hm⟩ := exists_inner hi hn
    exact ih hm
  | define hd _ =>
    obtain ⟨vs, -, hv⟩ := hd
    exact Fits.through (hv.within hb hn)
  | defineEnded hd =>
    obtain ⟨vs, -, hv⟩ := hd
    exact Fits.through (hv.within hb hn)
  | print he _ => exact Fits.through (he.within hb hn)
  | branch _ ih => exact Fits.through (ih hn)
  | whileLoop hc _ ih =>
    exact .through (.append (hc.within hb hn) ((ih hn).mono (hb.storey_le n)))
  | forLoop hi hc hs _ ih =>
    refine .through (.append (fits_of_init hb hi hn) (.append (fits_of_clause hb hc hn) ?_))
    exact .append (fits_of_clause hb hs hn) ((ih hn).mono (hb.storey_le n))
  | block _ ih => exact .through ((ih hn).mono (hb.storey_le n))
  | expr he _ => exact Fits.through (he.within hb hn)
  | exprEnded he => exact Fits.through (he.within hb hn)
  | nil => exact Fits.nil
  | cons _ _ ih ih' => exact Fits.append (ih hn) (ih' hn)
  | braces _ ih => exact ih hn
  | bodyBlock _ ih => exact ih hn
  | bodyStatement _ _ ih => exact Fits.append (ih hn) .nil
  | ifThen hc _ _ ihb iho =>
    exact Fits.append (hc.within hb hn) (.append ((ihb hn).mono (hb.storey_le n)) (iho hn))
  | nothing => exact Fits.nil
  | elseBlock _ ih => exact (ih hn).mono (hb.storey_le n)
  | elseIf hi _ ih =>
    obtain ⟨m, rfl, hm⟩ := exists_inner hi hn
    exact (Fits.through (ih hm)).mono (hb.roof_succ_le m)

/-- The cap bounds the paths of every program that is parsed. -/
theorem Program.fits_of_parse (hb : Bounds left operand) {tokens : List Token} {p : Program}
    (h : parse tokens = .ok p) : Fits left (storey left operand maxNesting) p.paths :=
  (yields_of_parse h).within hb le_rfl

end Bounds

/-- Without the operators that a path leaves to the left, every node takes a level. -/
theorem bounds_succ : Bounds 0 (· + 1) where
  atom := Nat.le_refl 1
  unary n := Nat.le_refl _
  paren n := by simp

/-! ## Paths and tokens -/

/-- A path has at most `n` nodes, and fewer if there is an operator that it leaves to the left. -/
def Path.Sparse (n : Nat) (path : Path) : Prop :=
  path.length ≤ n ∧ (.left ∈ path → path.length < n)

/-- A node above takes a token. -/
theorem Path.Sparse.onward {n : Nat} {path : Path} (h : path.Sparse n) :
    Path.Sparse (n + 1) (.onward :: path) := by
  refine ⟨Nat.succ_le_succ h.1, fun hleft => Nat.succ_lt_succ (h.2 ?_)⟩
  simpa using hleft

theorem Path.Sparse.of_lt {n : Nat} {path : Path} (h : path.length < n) : path.Sparse n :=
  ⟨Nat.le_of_lt h, fun _ => h⟩

theorem Path.Sparse.mono {n m : Nat} {path : Path} (h : path.Sparse n) (hn : n ≤ m) :
    path.Sparse m :=
  ⟨h.1.trans hn, fun hleft => (h.2 hleft).trans_le hn⟩

theorem mem_through {ps : List Path} {path : Path} (h : path ∈ through ps) :
    path = [.onward] ∨ ∃ path' ∈ ps, path = .onward :: path' := by
  unfold through at h
  split at h
  · exact .inl (List.mem_singleton.mp h)
  · obtain ⟨path', hpath', rfl⟩ := List.mem_map.mp h
    exact .inr ⟨path', hpath', rfl⟩

/-- The tokens of an expression are at least as many as the nodes on its paths. A rest brings its
    operators with it. -/
def Grammar.Category.Spread : Category → Expr → List Kind → Prop
  | .rest _ _ a, e, ks => ∀ n, 0 < n → (∀ path ∈ a.paths, path.length ≤ n) →
      (e = a ∧ ks = []) ∨ ∀ path ∈ e.paths, path.length < n + ks.length
  | _, e, ks => ∀ path ∈ e.paths, path.Sparse ks.length

theorem spread_more {l : Level} {ls : List Level} {k : Kind} {op : BinaryOp} {a b e : Expr}
    {s : Span} {us vs : List Kind} (hus : us ≠ [])
    (hright : Category.Spread (.operation ls) b us)
    (hrest : Category.Spread (.rest l ls (.binary op a b s)) e vs) :
    Category.Spread (.rest l ls a) e (k :: (us ++ vs)) := by
  intro n hn ha
  have hpos := List.length_pos_iff.mpr hus
  have hbinary : ∀ path ∈ (Expr.binary op a b s).paths, path.length ≤ n + us.length := by
    intro path hpath
    rcases List.mem_append.mp hpath with hleft | hthrough
    · obtain ⟨path', hpath', rfl⟩ := List.mem_map.mp hleft
      have := ha path' hpath'
      rw [List.length_cons]
      omega
    · rcases mem_through hthrough with rfl | ⟨path', hpath', rfl⟩
      · rw [List.length_singleton]
        omega
      · have := (hright path' hpath').1
        rw [List.length_cons]
        omega
  refine .inr fun path hpath => ?_
  simp only [List.length_cons, List.length_append]
  rcases hrest (n + us.length) (by omega) hbinary with ⟨rfl, rfl⟩ | hlt
  · have := hbinary path hpath
    rw [List.length_nil]
    omega
  · have := hlt path hpath
    omega

theorem Grammar.Derives.spread {room : ℕ∞} {category : Category} {e : Expr} {ks : List Kind}
    (h : Derives room category e ks) : category.Spread e ks := by
  induction h with
  | expression _ _ ih => exact ih
  | operation _ ih => exact ih
  | assign ht _ _ ihv =>
    intro path hpath
    obtain ⟨k, ts, rfl, -⟩ := ht.starts
    refine .of_lt ?_
    simp only [List.length_append, List.length_cons]
    rcases mem_through hpath with rfl | ⟨path', hpath', rfl⟩
    · rw [List.length_singleton]
      omega
    · have := (ihv path' hpath').1
      rw [List.length_cons]
      omega
  | primary _ ih => exact ih
  | chain ha _ iha ihe =>
    obtain ⟨k, ts, rfl, -⟩ := ha.starts
    rcases ihe _ (Nat.succ_pos _) fun path hpath => (iha path hpath).1 with ⟨rfl, rfl⟩ | hlt
    · rwa [List.append_nil]
    · intro path hpath
      rw [List.length_append]
      exact .of_lt (hlt path hpath)
  | stop => exact fun _ _ _ => .inl ⟨rfl, rfl⟩
  | more _ _ hb _ ihb ihe =>
    refine spread_more ?_ ihb ihe
    rintro rfl
    obtain ⟨k, ts, hks, -⟩ := hb.starts
    cases hks
  | atom ha =>
    intro path hpath
    rw [paths_of_atom? ha] at hpath
    rw [List.mem_singleton.mp hpath]
    exact ⟨Nat.le_refl 1, nofun⟩
  | paren _ ih =>
    intro path hpath
    rw [Expr.paths_withSpan] at hpath
    refine (ih path hpath).mono ?_
    simp only [inParens, List.length_cons, List.length_append]
    omega
  | unary _ _ _ ih =>
    intro path hpath
    rcases mem_through hpath with rfl | ⟨path', hpath', rfl⟩
    · exact ⟨Nat.succ_le_succ (Nat.zero_le _), nofun⟩
    · exact (ih path' hpath').onward

/-- Paths that leave an operator to the left have at most `n` nodes. -/
def Covered (n : Nat) (paths : List Path) : Prop :=
  ∀ path ∈ paths, .left ∈ path → path.length ≤ n

section Covered

variable {n m : Nat} {ps qs : List Path}

theorem Covered.mono (h : Covered n ps) (hn : n ≤ m) : Covered m ps :=
  fun path hpath hleft => (h path hpath hleft).trans hn

theorem Covered.nil : Covered n [] :=
  fun _ hpath => absurd hpath List.not_mem_nil

theorem Covered.append (h : Covered n ps) (h' : Covered n qs) : Covered n (ps ++ qs) := by
  intro path hpath
  rcases List.mem_append.mp hpath with hp | hq
  · exact h path hp
  · exact h' path hq

theorem Covered.through (h : Covered n ps) : Covered (n + 1) (through ps) := by
  intro path hpath hleft
  rcases mem_through hpath with rfl | ⟨path', hpath', rfl⟩
  · simp at hleft
  · exact Nat.succ_le_succ (h path' hpath' (by simpa using hleft))

end Covered

theorem Grammar.Derives.covered {room : ℕ∞} {e : Expr} {ks : List Kind}
    (h : Derives room .expression e ks) : Covered (ks.length - 1) e.paths :=
  fun path hpath hleft => Nat.le_sub_one_of_lt ((h.spread path hpath).2 hleft)

/-- A node above an expression takes the token that its paths have to spare. -/
theorem Grammar.Derives.covered_through {room : ℕ∞} {e : Expr} {ks : List Kind}
    (h : Derives room .expression e ks) : Covered ks.length (through e.paths) := by
  obtain ⟨k, us, rfl, -⟩ := h.starts
  exact h.covered.through

theorem covered_of_clause {room : ℕ∞} {e : Option Expr} {ks : List Kind}
    (h : DerivesClause room e ks) : Covered ks.length (paths? Expr.paths e) := by
  cases e with
  | none => exact .nil
  | some e => exact (Derives.covered h).mono (Nat.sub_le _ 1)

theorem covered_of_init {room : ℕ∞} {i : Option Init} {ks : List Kind}
    (h : DerivesInit room i ks) : Covered ks.length (paths? Init.paths i) := by
  match i, h with
  | none, _ => exact .nil
  | some (.define b), ⟨vs, hks, hv⟩ =>
    refine hv.covered.mono ?_
    simp only [hks, List.length_cons]
    omega
  | some (.expr e), h => exact (Derives.covered h).mono (Nat.sub_le _ 1)

/-- The paths of a phrase that leave an operator to the left are covered by its tokens. -/
def Grammar.Phrase.Spread : Phrase → List Kind → Prop
  | .statement s, ks => Covered ks.length s.paths
  | .bare s, ks => Covered ks.length s.paths
  | .statements ss, ks => Covered ks.length (Stmt.pathsAll ss)
  | .block b, ks => Covered (ks.length - 1) b.paths
  | .body b, ks => Covered ks.length b.paths
  | .branch c b o, ks => Covered (ks.length - 1) (c.paths ++ (b.paths ++ o.paths))
  | .otherwise o, ks => Covered ks.length o.paths

theorem spread_whileLoop {room : ℕ∞} {c : Expr} {b : Block} {ks bs : List Kind}
    (hc : Derives room .expression c ks) (hb : Phrase.Spread (.body b) bs) :
    Phrase.Spread (.bare (.whileLoop c b)) (.keyword .whileWord :: (inParens ks ++ bs)) := by
  have hlen : (inParens ks ++ bs).length = ks.length + bs.length + 2 := by
    simp only [inParens, List.length_append, List.length_cons, List.length_nil]
    omega
  rw [Phrase.Spread, List.length_cons, hlen]
  exact .through (.append (hc.covered.mono (by omega)) (hb.mono (by omega)))

theorem spread_forLoop {room : ℕ∞} {i : Option Init} {c n : Option Expr} {b : Block}
    {is cs ns bs : List Kind} (hi : DerivesInit room i is) (hc : DerivesClause room c cs)
    (hn : DerivesClause room n ns) (hb : Phrase.Spread (.body b) bs) :
    Phrase.Spread (.bare (.forLoop i c n b)) (.keyword .forWord ::
      (inParens (is ++ .symbol .semicolon :: (cs ++ .symbol .semicolon :: ns)) ++ bs)) := by
  have hlen : (inParens (is ++ .symbol .semicolon :: (cs ++ .symbol .semicolon :: ns)) ++
      bs).length = is.length + cs.length + ns.length + bs.length + 4 := by
    simp only [inParens, List.length_append, List.length_cons, List.length_nil]
    omega
  rw [Phrase.Spread, List.length_cons, hlen]
  refine .through (.append ((covered_of_init hi).mono (by omega)) ?_)
  refine .append ((covered_of_clause hc).mono (by omega)) ?_
  exact .append ((covered_of_clause hn).mono (by omega)) (hb.mono (by omega))

theorem spread_ifThen {room : ℕ∞} {c : Expr} {b : Block} {o : Otherwise} {cs bs os : List Kind}
    (hc : Derives room .expression c cs) (hb : Phrase.Spread (.block b) bs)
    (ho : Phrase.Spread (.otherwise o) os) :
    Phrase.Spread (.branch c b o) (.keyword .ifWord :: (inParens cs ++ (bs ++ os))) := by
  have hlen : (inParens cs ++ (bs ++ os)).length = cs.length + bs.length + os.length + 2 := by
    simp only [inParens, List.length_append, List.length_cons, List.length_nil]
    omega
  rw [Phrase.Spread, List.length_cons, hlen, Nat.add_sub_cancel]
  refine .append (hc.covered.mono (by omega)) ?_
  exact .append (Covered.mono hb (by omega)) (ho.mono (by omega))

theorem Grammar.Yields.spread {free : Kind → Prop} {room : ℕ∞} {phrase : Phrase} {ks : List Kind}
    {after : Kind} (h : Yields free room phrase ks after) : phrase.Spread ks := by
  induction h with
  | statement _ _ ih => exact ih
  | define hd _ =>
    obtain ⟨vs, rfl, hv⟩ := hd
    refine hv.covered_through.mono ?_
    simp only [List.length_cons]
    omega
  | defineEnded hd =>
    obtain ⟨vs, rfl, hv⟩ := hd
    refine hv.covered_through.mono ?_
    simp only [List.length_append, List.length_cons]
    omega
  | print he _ =>
    refine he.covered_through.mono ?_
    simp only [inParens, List.length_append, List.length_cons]
    omega
  | branch hd ih =>
    obtain ⟨us, rfl⟩ := hd.starts
    exact Covered.through ih
  | whileLoop hc _ ih => exact spread_whileLoop hc ih
  | forLoop hi hc hn _ ih => exact spread_forLoop hi hc hn ih
  | block hd ih =>
    obtain ⟨us, rfl⟩ := hd.starts
    exact Covered.through ih
  | expr he _ => exact he.covered_through
  | exprEnded he =>
    refine he.covered_through.mono ?_
    simp only [List.length_append]
    omega
  | nil => exact Covered.nil
  | cons _ _ ih ih' =>
    rw [Phrase.Spread, List.length_append]
    exact .append (Covered.mono ih (Nat.le_add_right _ _)) (Covered.mono ih' (Nat.le_add_left _ _))
  | braces _ ih =>
    refine Covered.mono ih ?_
    simp only [inBraces, List.length_append, List.length_cons]
    omega
  | bodyBlock _ ih => exact Covered.mono ih (Nat.sub_le _ 1)
  | bodyStatement _ _ ih => exact Covered.append ih .nil
  | ifThen hc _ _ ihb iho => exact spread_ifThen hc ihb iho
  | nothing => exact Covered.nil
  | elseBlock _ ih =>
    refine Covered.mono ih ?_
    rw [List.length_cons]
    omega
  | elseIf _ hd ih =>
    obtain ⟨us, rfl⟩ := hd.starts
    exact (Covered.through ih).mono (Nat.le_succ _)

/-- A path has no more nodes than the cap allows, or no more than there are tokens. -/
theorem Program.length_le_of_parse {tokens : List Token} {p : Program} (h : parse tokens = .ok p)
    {path : Path} (hpath : path ∈ p.paths) :
    path.length ≤ max maxNesting (Cursor.ofTokens tokens).ahead.length := by
  by_cases hleft : .left ∈ path
  · have hcovered := (yields_of_parse h).spread path hpath hleft
    exact hcovered.trans (le_max_right _ _)
  · have hfits := fits_of_parse bounds_succ h path hpath
    have hcount : path.count .left = 0 := List.count_eq_zero.mpr hleft
    rw [Path.weight_zero] at hfits
    rw [← path.count_left_add_count_onward, hcount, Nat.zero_add]
    exact hfits.trans (le_max_left _ _)

end Respell
