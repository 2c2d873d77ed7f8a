-- SUMMARY: Static resolution: which names are in scope at every occurrence of a variable.
import Respell.Program

/-!
# Static resolution

A walk over a program in the order of its text, with a stack of the names that are defined so far.
It meets every occurrence of a variable once, and notes the stack there. Nothing is executed, so a
loop is walked once however often its rounds run.
-/

namespace Respell

/-! ## Stacks of names -/

/-- The names of the open scopes in the order of their definition, the innermost scope first. -/
abbrev Frames := List (List String)

namespace Frames

/-- A scope is opened. -/
def push (σ : Frames) : Frames :=
  [] :: σ

/-- The innermost scope is closed. -/
def pop (σ : Frames) : Frames :=
  σ.tail

/-- The innermost scope defines a name, at its end unless the name is there already. -/
def declare (σ : Frames) (name : String) : Frames :=
  match σ with
  | [] => []
  | names :: outer => (if name ∈ names then names else names ++ [name]) :: outer

/-- How far out the innermost scope is that has a name. -/
def pick (σ : Frames) (name : String) : Option Nat :=
  σ.findIdx? fun names => decide (name ∈ names)

end Frames

/-! ## Occurrences -/

/-- Where an occurrence stands in the tree: the numbers of the children from it up to the root. -/
abbrev Site := List Nat

/-- What an occurrence of a variable asks for, and the place that an error about it points at. -/
structure Access where
  /-- whether the variable is assigned; otherwise it is read -/
  assigns : Bool
  name : String
  span : Span

/-- An occurrence of a variable, with the names in scope there. -/
structure Use where
  site : Site
  access : Access
  frames : Frames

/-! ## The walk -/

/-- The occurrences in an expression, which defines nothing. -/
def Expr.uses (site : Site) (σ : Frames) : Expr → List Use
  | .number _ _ => []
  | .text _ _ => []
  | .bool _ _ => []
  | .name x span => [⟨site, ⟨false, x, span⟩, σ⟩]
  | .assign x value span => ⟨0 :: site, ⟨true, x, span⟩, σ⟩ :: value.uses (1 :: site) σ
  | .binary _ left right _ => left.uses (0 :: site) σ ++ right.uses (1 :: site) σ
  | .unary _ operand _ => operand.uses (0 :: site) σ

/-- The occurrences in an expression that may be left out. -/
def usesOf (site : Site) (σ : Frames) : Option Expr → List Use
  | some e => e.uses site σ
  | none => []

/-- A definition is in scope only after its value. -/
def Binding.walk (site : Site) (σ : Frames) (b : Binding) : Frames × List Use :=
  (σ.declare b.name, b.value.uses site σ)

/-- What a `for` does before it starts. -/
def Init.walk (site : Site) (σ : Frames) : Option Init → Frames × List Use
  | some (.define b) => b.walk site σ
  | some (.expr e) => (σ, e.uses site σ)
  | none => (σ, [])

mutual

/-- Walk over a statement: the stack after it, and the occurrences in it. -/
def Stmt.walk (site : Site) (σ : Frames) : Stmt → Frames × List Use
  | .define b => b.walk (0 :: site) σ
  | .print e => (σ, e.uses (0 :: site) σ)
  | .block b => b.walk (0 :: site) σ
  | .branch c b o =>
    let consequence := b.walk (1 :: site) σ
    let otherwise := o.walk (2 :: site) consequence.1
    (otherwise.1, c.uses (0 :: site) σ ++ consequence.2 ++ otherwise.2)
  | .whileLoop c b =>
    let body := b.walk (1 :: site) σ
    (body.1, c.uses (0 :: site) σ ++ body.2)
  | .forLoop i c n b =>
    let init := Init.walk (0 :: site) σ.push i
    let body := b.walk (3 :: site) init.1
    (body.1.pop, init.2 ++ usesOf (1 :: site) init.1 c ++ usesOf (2 :: site) init.1 n ++ body.2)
  | .expr e => (σ, e.uses (0 :: site) σ)

/-- Walk over statements, the first of which is child number `i`. -/
def Stmt.walkAll (site : Site) (i : Nat) (σ : Frames) : List Stmt → Frames × List Use
  | [] => (σ, [])
  | stmt :: stmts =>
    let first := stmt.walk (i :: site) σ
    let rest := Stmt.walkAll site (i + 1) first.1 stmts
    (rest.1, first.2 ++ rest.2)

/-- Walk over a block, whose statements have a scope of their own. -/
def Block.walk (site : Site) (σ : Frames) : Block → Frames × List Use
  | .mk stmts _ =>
    let inner := Stmt.walkAll site 0 σ.push stmts
    (inner.1.pop, inner.2)

/-- Walk over what an `if` does when its condition fails. -/
def Otherwise.walk (site : Site) (σ : Frames) : Otherwise → Frames × List Use
  | .nothing => (σ, [])
  | .block b => b.walk (0 :: site) σ
  | .branch c b o =>
    let consequence := b.walk (1 :: site) σ
    let otherwise := o.walk (2 :: site) consequence.1
    (otherwise.1, c.uses (0 :: site) σ ++ consequence.2 ++ otherwise.2)

end

/-- The occurrences in a program, which starts with a single scope that defines nothing. -/
def Program.uses (p : Program) : List Use :=
  (Stmt.walkAll [] 0 [[]] p.statements).2

/-! ## The stack after a walk -/

@[simp] theorem Frames.tail_declare (σ : Frames) (name : String) :
    (σ.declare name).tail = σ.tail := by
  cases σ <;> rfl

theorem Init.tail_walk (site : Site) (σ : Frames) (i : Option Init) :
    (Init.walk site σ i).1.tail = σ.tail := by
  match i with
  | some (.define b) => exact Frames.tail_declare σ b.name
  | some (.expr e) => rfl
  | none => rfl

-- Only the innermost scope can have changed, and only after statements: a block closes its own.
mutual

theorem Stmt.tail_walk (site : Site) (σ : Frames) (s : Stmt) :
    (s.walk site σ).1.tail = σ.tail := by
  match s with
  | .define b => exact Frames.tail_declare σ b.name
  | .print e => rfl
  | .block b => simp only [Stmt.walk, Block.walk_frames]
  | .branch c b o => simp only [Stmt.walk, Block.walk_frames, Otherwise.walk_frames]
  | .whileLoop c b => simp only [Stmt.walk, Block.walk_frames]
  | .forLoop i c n b =>
    simp only [Stmt.walk, Block.walk_frames, Frames.pop, Init.tail_walk]
    rfl
  | .expr e => rfl

theorem Stmt.tail_walkAll (site : Site) (i : Nat) (σ : Frames) (ss : List Stmt) :
    (Stmt.walkAll site i σ ss).1.tail = σ.tail := by
  match ss with
  | [] => rfl
  | s :: ss =>
    simp only [Stmt.walkAll]
    rw [Stmt.tail_walkAll, Stmt.tail_walk]

theorem Block.walk_frames (site : Site) (σ : Frames) (b : Block) : (b.walk site σ).1 = σ := by
  match b with
  | .mk ss span => exact Stmt.tail_walkAll site 0 σ.push ss

theorem Otherwise.walk_frames (site : Site) (σ : Frames) (o : Otherwise) :
    (o.walk site σ).1 = σ := by
  match o with
  | .nothing => rfl
  | .block b => exact Block.walk_frames (0 :: site) σ b
  | .branch c b o => simp only [Otherwise.walk, Block.walk_frames, Otherwise.walk_frames]

end

/-! ## Every occurrence has a site of its own -/

/-- Occurrences in the tree at a site, no two of them in one place. -/
structure Placed (site : Site) (us : List Use) : Prop where
  below : ∀ u ∈ us, site <:+ u.site
  apart : us.Pairwise fun u v => u.site ≠ v.site

/-- Occurrences in the children of a site from number `lo` up to number `hi`. -/
structure PlacedIn (site : Site) (lo hi : Nat) (us : List Use) : Prop where
  below : ∀ u ∈ us, ∃ j, lo ≤ j ∧ j < hi ∧ (j :: site) <:+ u.site
  apart : us.Pairwise fun u v => u.site ≠ v.site

theorem Placed.nil (site : Site) : Placed site [] :=
  ⟨by simp, .nil⟩

theorem Placed.single (site : Site) (access : Access) (σ : Frames) :
    Placed site [⟨site, access, σ⟩] :=
  ⟨by simp, List.pairwise_singleton _ _⟩

theorem Placed.child {site : Site} {j : Nat} {us : List Use} (h : Placed (j :: site) us) :
    PlacedIn site j (j + 1) us :=
  ⟨fun u hu => ⟨j, Nat.le_refl j, Nat.lt_succ_self j, h.below u hu⟩, h.apart⟩

theorem PlacedIn.tree {site : Site} {lo hi : Nat} {us : List Use} (h : PlacedIn site lo hi us) :
    Placed site us := by
  refine ⟨fun u hu => ?_, h.apart⟩
  obtain ⟨j, -, -, hj⟩ := h.below u hu
  exact (List.suffix_cons j site).trans hj

theorem ne_of_child_ne {site s t : Site} {i j : Nat} (hij : i ≠ j) (hs : (i :: site) <:+ s)
    (ht : (j :: site) <:+ t) : s ≠ t := by
  rintro rfl
  have hsub := List.suffix_of_suffix_length_le hs ht (by simp)
  have heq := hsub.eq_of_length (by simp)
  exact hij (List.cons.inj heq).1

theorem PlacedIn.append {site : Site} {lo mid hi : Nat} {us vs : List Use}
    (hu : PlacedIn site lo mid us) (hv : PlacedIn site mid hi vs) (hlo : lo ≤ mid)
    (hhi : mid ≤ hi) : PlacedIn site lo hi (us ++ vs) := by
  refine ⟨fun w hw => ?_, List.pairwise_append.mpr ⟨hu.apart, hv.apart, fun u hmu v hmv => ?_⟩⟩
  · rcases List.mem_append.mp hw with hw | hw
    · obtain ⟨j, h₁, h₂, h₃⟩ := hu.below w hw
      exact ⟨j, h₁, by omega, h₃⟩
    · obtain ⟨j, h₁, h₂, h₃⟩ := hv.below w hw
      exact ⟨j, by omega, h₂, h₃⟩
  · obtain ⟨i, -, hi', hsu⟩ := hu.below u hmu
    obtain ⟨j, hj', -, hsv⟩ := hv.below v hmv
    exact ne_of_child_ne (by omega) hsu hsv

theorem Expr.placed_uses (site : Site) (σ : Frames) (e : Expr) : Placed site (e.uses site σ) := by
  induction e generalizing site with
  | number x s => exact .nil site
  | text t s => exact .nil site
  | bool b s => exact .nil site
  | name x s => exact .single site _ σ
  | assign x value s ih =>
    have htarget := (Placed.single (0 :: site) ⟨true, x, s⟩ σ).child
    exact (htarget.append (ih (1 :: site)).child (by omega) (by omega)).tree
  | binary op left right s ihl ihr =>
    exact ((ihl (0 :: site)).child.append (ihr (1 :: site)).child (by omega) (by omega)).tree
  | unary op operand s ih => exact (ih (0 :: site)).child.tree

theorem placed_usesOf (site : Site) (σ : Frames) (e : Option Expr) :
    Placed site (usesOf site σ e) := by
  match e with
  | some e => exact e.placed_uses site σ
  | none => exact .nil site

theorem Init.placed_walk (site : Site) (σ : Frames) (i : Option Init) :
    Placed site (Init.walk site σ i).2 := by
  match i with
  | some (.define b) => exact b.value.placed_uses site σ
  | some (.expr e) => exact e.placed_uses site σ
  | none => exact .nil site

mutual

theorem Stmt.placed_walk (site : Site) (σ : Frames) (s : Stmt) : Placed site (s.walk site σ).2 := by
  match s with
  | .define b => exact (b.value.placed_uses (0 :: site) σ).child.tree
  | .print e => exact (e.placed_uses (0 :: site) σ).child.tree
  | .block b => exact (Block.placed_walk (0 :: site) σ b).child.tree
  | .branch c b o =>
    have hc := (c.placed_uses (0 :: site) σ).child
    have hb := (Block.placed_walk (1 :: site) σ b).child
    have ho := (Otherwise.placed_walk (2 :: site) (b.walk (1 :: site) σ).1 o).child
    exact ((hc.append hb (by omega) (by omega)).append ho (by omega) (by omega)).tree
  | .whileLoop c b =>
    have hc := (c.placed_uses (0 :: site) σ).child
    have hb := (Block.placed_walk (1 :: site) σ b).child
    exact (hc.append hb (by omega) (by omega)).tree
  | .forLoop i c n b =>
    let inner := (Init.walk (0 :: site) σ.push i).1
    have hi := (Init.placed_walk (0 :: site) σ.push i).child
    have hc := (placed_usesOf (1 :: site) inner c).child
    have hn := (placed_usesOf (2 :: site) inner n).child
    have hb := (Block.placed_walk (3 :: site) inner b).child
    have hcn := (hi.append hc (by omega) (by omega)).append hn (by omega) (by omega)
    exact (hcn.append hb (by omega) (by omega)).tree
  | .expr e => exact (e.placed_uses (0 :: site) σ).child.tree

theorem Stmt.placed_walkAll (site : Site) (i : Nat) (σ : Frames) (ss : List Stmt) :
    PlacedIn site i (i + ss.length) (Stmt.walkAll site i σ ss).2 := by
  match ss with
  | [] => exact ⟨by simp [Stmt.walkAll], .nil⟩
  | s :: ss =>
    have hfirst := (Stmt.placed_walk (i :: site) σ s).child
    have hrest := Stmt.placed_walkAll site (i + 1) (s.walk (i :: site) σ).1 ss
    have hlen : i + 1 + ss.length = i + (s :: ss).length := by simp; omega
    exact hlen ▸ hfirst.append hrest (by omega) (by omega)

theorem Block.placed_walk (site : Site) (σ : Frames) (b : Block) :
    Placed site (b.walk site σ).2 := by
  match b with
  | .mk ss span => exact (Stmt.placed_walkAll site 0 σ.push ss).tree

theorem Otherwise.placed_walk (site : Site) (σ : Frames) (o : Otherwise) :
    Placed site (o.walk site σ).2 := by
  match o with
  | .nothing => exact .nil site
  | .block b => exact (Block.placed_walk (0 :: site) σ b).child.tree
  | .branch c b o =>
    have hc := (c.placed_uses (0 :: site) σ).child
    have hb := (Block.placed_walk (1 :: site) σ b).child
    have ho := (Otherwise.placed_walk (2 :: site) (b.walk (1 :: site) σ).1 o).child
    exact ((hc.append hb (by omega) (by omega)).append ho (by omega) (by omega)).tree

end

/-- The walk meets no occurrence twice. -/
theorem Program.uses_apart (p : Program) : p.uses.Pairwise fun u v => u.site ≠ v.site :=
  (Stmt.placed_walkAll [] 0 [[]] p.statements).apart

end Respell
