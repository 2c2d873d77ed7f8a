-- SUMMARY: A running program never meets null.
import Respell.Proofs.Running.Raising
import Respell.Proofs.Scoping.Discipline
import Mathlib.Data.List.Chain

/-!
# Null is never met

Many statements have the value null, but what a program binds, prints, tests and computes with are
values of expressions. A state is without null if no variable and no printed value is null. From
such a state an expression has a value other than null or an error that does not name null, and it
leaves a state without null again; so all points of a run are without null, whatever the statements
between them have as their values.
-/

namespace Respell

/-! ## Operations -/

/-- The kinds of values that a mismatch names. -/
def Mismatch.types : Mismatch → List ValueType
  | .binary _ left right => [left, right]
  | .unary _ operand => [operand]

/-- The error does not say that something is null. -/
def RuntimeError.Nonnull : RuntimeError → Prop
  | .typeError mismatch _ => .null ∉ mismatch.types
  | _ => True

/-- A value other than null, or an error that does not say that something is null. -/
def Nonnull : Except RuntimeError Value → Prop
  | .ok v => v ≠ .null
  | .error err => err.Nonnull

theorem Value.null_ne_type {v : Value} (h : v ≠ .null) : .null ≠ v.type := by
  cases v with
  | null => exact absurd rfl h
  | _ => exact nofun

theorem Value.eq_false_of_falsy {v : Value} (h : v ≠ .null) (hfalse : v.truthy = false) :
    v = .bool false := by
  cases v with
  | null => exact absurd rfl h
  | bool b => exact congrArg Value.bool hfalse
  | number x => cases hfalse
  | text s => cases hfalse

theorem BinaryOp.apply_nonnull (op : BinaryOp) {a b : Value} (ha : a ≠ .null) (hb : b ≠ .null)
    (span divisor : Span) : Nonnull (op.apply a b span divisor) := by
  have hmismatch : .null ∉ (Mismatch.binary op a.type b.type).types := by
    simp [Mismatch.types, Value.null_ne_type ha, Value.null_ne_type hb]
  cases op with
  | equal => exact nofun
  | notEqual => exact nofun
  | both => exact nofun
  | either => exact nofun
  | div =>
    simp only [apply]
    split
    · split
      · exact trivial
      · exact nofun
    · exact hmismatch
  | _ =>
    simp only [apply]
    split <;> first | exact hmismatch | exact nofun

theorem UnaryOp.apply_nonnull (op : UnaryOp) {v : Value} (hv : v ≠ .null) (span : Span) :
    Nonnull (op.apply v span) := by
  have hmismatch : .null ∉ (Mismatch.unary op v.type).types := by
    simp [Mismatch.types, Value.null_ne_type hv]
  cases op with
  | not => exact nofun
  | _ => cases v <;> first | exact hmismatch | exact nofun

/-- The operators whose values are truth values. -/
def BinaryOp.truthValued : List BinaryOp :=
  [.equal, .notEqual, .less, .greater, .both, .either]

/-- Whether the values of the expression are truth values, whatever it is about. -/
def Expr.truthValued : Expr → Bool
  | .binary op _ _ _ => op ∈ BinaryOp.truthValued
  | .unary .not _ _ => true
  | _ => false

theorem BinaryOp.apply_truthValued {op : BinaryOp} (hop : op ∈ truthValued) {a b v : Value}
    {span divisor : Span} (h : op.apply a b span divisor = .ok v) : ∃ t, v = .bool t := by
  cases op with
  | less => simp only [apply] at h; split at h <;> cases h <;> exact ⟨_, rfl⟩
  | greater => simp only [apply] at h; split at h <;> cases h <;> exact ⟨_, rfl⟩
  | equal => cases h; exact ⟨_, rfl⟩
  | notEqual => cases h; exact ⟨_, rfl⟩
  | both => cases h; exact ⟨_, rfl⟩
  | either => cases h; exact ⟨_, rfl⟩
  | _ => simp [truthValued] at hop

theorem Expr.eval_truthValued {e : Expr} (he : e.truthValued = true) {env after : Environment}
    {v : Value} (h : e.eval env = (.ok v, after)) : ∃ t, v = .bool t := by
  cases e with
  | binary op left right span =>
    simp only [eval] at h
    split at h
    · cases h
    · split at h
      · cases h; exact ⟨_, rfl⟩
      · split at h
        · cases h; exact ⟨_, rfl⟩
        · split at h
          · cases h
          · exact BinaryOp.apply_truthValued (of_decide_eq_true he) (Prod.mk.inj h).1
  | unary op operand span =>
    cases op with
    | not =>
      simp only [eval] at h
      split at h <;> cases h
      exact ⟨_, rfl⟩
    | _ => cases he
  | _ => cases he

/-! ## Environments -/

/-- No variable of the scope is null. -/
def Scope.Nonnull (s : Scope) : Prop :=
  ∀ x, s.get? x ≠ some .null

/-- No variable in any scope is null. -/
def Environment.Nonnull (env : Environment) : Prop :=
  ∀ s ∈ env.scopes, s.Nonnull

namespace Environment.Nonnull

variable {env after : Environment} {x : String} {v : Value}

theorem lookup (h : env.Nonnull) (hx : env.lookup x = some v) : v ≠ .null := by
  obtain ⟨s, hs, hv⟩ := List.exists_of_findSome?_eq_some hx
  rintro rfl
  exact h s hs x hv

theorem push (h : env.Nonnull) : env.push.Nonnull :=
  List.forall_mem_cons.mpr ⟨nofun, h⟩

theorem pop (h : env.Nonnull) : env.pop.Nonnull := by
  obtain ⟨inner, globals⟩ := env
  intro s hs
  refine h s ?_
  obtain hs | hs := List.mem_append.mp hs
  · exact List.mem_append_left _ (List.mem_of_mem_tail hs)
  · exact List.mem_append_right _ hs

theorem define (h : env.Nonnull) (x : String) (hv : v ≠ .null) : (env.define x v).Nonnull := by
  obtain ⟨scope, outer, hscopes, hdefine⟩ := env.scopes_define x v
  unfold Nonnull at h ⊢
  rw [hscopes, List.forall_mem_cons] at h
  rw [hdefine, List.forall_mem_cons]
  refine ⟨fun y => ?_, h.2⟩
  rw [scope.get?_insert]
  split
  · simpa using hv
  · exact h.1 y

theorem assignIn {scopes scopes' : List Scope} (h : ∀ s ∈ scopes, s.Nonnull) (hv : v ≠ .null)
    (ha : assignIn x v scopes = some scopes') : ∀ s ∈ scopes', s.Nonnull := by
  induction scopes generalizing scopes' with
  | nil => cases ha
  | cons scope outer ih =>
    rw [List.forall_mem_cons] at h
    rw [Environment.assignIn] at ha
    split at ha
    · cases ha
      refine List.forall_mem_cons.mpr ⟨fun y => ?_, h.2⟩
      rw [scope.get?_replace]
      split
      · simp [hv]
      · exact h.1 y
    · obtain ⟨rest, hr, rfl⟩ := Option.map_eq_some_iff.mp ha
      exact List.forall_mem_cons.mpr ⟨h.1, ih h.2 hr⟩

theorem assign (h : env.Nonnull) (hv : v ≠ .null) (ha : env.assign? x v = some after) :
    after.Nonnull := by
  have hscopes := env.assign?_scopes x v
  rw [ha] at hscopes
  exact assignIn h hv hscopes.symm

end Environment.Nonnull

/-! ## Runs -/

/-- No variable and no printed value is null. -/
structure Machine.Nonnull (m : Machine) : Prop where
  env : m.env.Nonnull
  printed : ∀ v ∈ m.printed, v ≠ .null

theorem Machine.Nonnull.opened {m : Machine} (h : m.Nonnull) : m.opened.Nonnull :=
  ⟨h.env.push, h.printed⟩

/-- The state that the run left is without null, and its value, if it has one, is in `V`. -/
inductive Run.Nonnull (V : Value → Prop) : Run → Prop where
  | done {v : Value} {m : Machine} : V v → m.Nonnull → Nonnull V (.done v m)
  | failed {err : RuntimeError} {m : Machine} : m.Nonnull → Nonnull V (.failed err m)
  | cut {m : Machine} : m.Nonnull → Nonnull V (.cut m)

namespace Run.Nonnull

variable {V W : Value → Prop} {r : Run}

theorem state (h : r.Nonnull V) : r.state.Nonnull := by
  cases h with
  | done _ hm => exact hm
  | failed hm => exact hm
  | cut hm => exact hm

theorem value {v : Value} {m : Machine} (h : (Run.done v m).Nonnull V) : V v := by
  cases h with
  | done hv _ => exact hv

theorem mono (h : r.Nonnull V) (hVW : ∀ v, V v → W v) : r.Nonnull W := by
  cases h with
  | done hv hm => exact .done (hVW _ hv) hm
  | failed hm => exact .failed hm
  | cut hm => exact .cut hm

theorem andThen {next : Value → Machine → Run} (h : r.Nonnull V)
    (hnext : ∀ v m, V v → m.Nonnull → (next v m).Nonnull W) : (r.andThen next).Nonnull W := by
  cases h with
  | done hv hm => exact hnext _ _ hv hm
  | failed hm => exact .failed hm
  | cut hm => exact .cut hm

theorem mapState {f : Machine → Machine} (h : r.Nonnull V)
    (hf : ∀ m : Machine, m.Nonnull → (f m).Nonnull) : (r.mapState f).Nonnull V := by
  cases h with
  | done hv hm => exact .done hv (hf _ hm)
  | failed hm => exact .failed (hf _ hm)
  | cut hm => exact .cut (hf _ hm)

theorem ofResult {result : Except RuntimeError Value} {m : Machine}
    (h : Respell.Nonnull result) (hm : m.Nonnull) : (ofResult result m).Nonnull (· ≠ .null) := by
  cases result with
  | ok v => exact .done h hm
  | error err => exact .failed hm

/-- Where the run goes on, it does so without null. -/
theorem of_goesOn {P : Value → Machine → Prop} {Q : Prop} (h : r.Nonnull V) (hgoes : r.GoesOn P)
    (hP : ∀ v m, m.Nonnull → P v m → Q) : Q := by
  obtain ⟨v, m, rfl, hv⟩ := hgoes
  exact hP v m h.state hv

end Run.Nonnull

namespace Machine

variable {m : Machine}

/-- From a state without null, an expression has another value than null. -/
theorem eval_nonnull (h : m.Nonnull) (e : Expr) : (m.eval e).Nonnull (· ≠ .null) := by
  induction e generalizing m with
  | number x s => exact .done Value.noConfusion h
  | text t s => exact .done Value.noConfusion h
  | bool b s => exact .done Value.noConfusion h
  | name x s =>
    rw [eval, Expr.eval]
    cases hx : m.env.lookup x with
    | some v => exact .done (h.env.lookup hx) h
    | none => exact .failed h
  | assign x value s ih =>
    rw [eval_assign]
    refine (ih h).andThen fun v m hv hm => ?_
    cases ha : m.env.assign? x v with
    | some env => exact .done hv ⟨hm.env.assign hv ha, hm.printed⟩
    | none => exact .failed hm
  | binary op left right s ihl ihr =>
    rw [eval_binary]
    refine (ihl h).andThen fun a m ha hm => ?_
    split
    · exact .done Value.noConfusion hm
    · split
      · exact .done Value.noConfusion hm
      · exact (ihr hm).andThen fun b m hb hm =>
          .ofResult (op.apply_nonnull ha hb s right.span) hm
  | unary op operand s ih =>
    rw [eval_unary]
    exact (ih h).andThen fun v m hv hm => .ofResult (op.apply_nonnull hv s) hm

theorem eval_truthValued {e : Expr} (he : e.truthValued = true) {v : Value} {after : Machine}
    (h : m.eval e = .done v after) : ∃ t, v = .bool t := by
  unfold eval at h
  split at h
  · next heq =>
    cases h
    exact Expr.eval_truthValued he heq
  · cases h

theorem eval?_nonnull (h : m.Nonnull) (e : Option Expr) : (m.eval? e).Nonnull fun _ => True := by
  cases e with
  | none => exact .done trivial h
  | some e => exact (eval_nonnull h e).mono fun _ _ => trivial

theorem define_nonnull (h : m.Nonnull) (b : Binding) : (m.define b).Nonnull fun _ => True :=
  (eval_nonnull h b.value).andThen fun _ _ hv hm =>
    .done trivial ⟨hm.env.define b.name hv, hm.printed⟩

theorem init_nonnull (h : m.Nonnull) (i : Option Init) : (m.init i).Nonnull fun _ => True := by
  match i with
  | some (.define b) => exact define_nonnull h b
  | some (.expr e) => exact (eval_nonnull h e).mono fun _ _ => trivial
  | none => exact .done trivial h

theorem inScope_nonnull {body : Machine → Run} {V : Value → Prop}
    (hbody : (body m.opened).Nonnull V) : (m.inScope body).Nonnull V :=
  hbody.mapState fun _ hm => ⟨hm.env.pop, hm.printed⟩

theorem print_nonnull (h : m.Nonnull) {v : Value} (hv : v ≠ .null) : (m.print v).Nonnull := by
  refine ⟨h.env, fun w hw => ?_⟩
  obtain hw | rfl := Array.mem_push.mp hw
  · exact h.printed w hw
  · exact hv

end Machine

/-! ## Points -/

namespace Point

/-- Whatever is worked on, nothing becomes null by it. -/
theorem run_nonnull (steps : Nat) {p : Point} (h : p.state.Nonnull) :
    (p.run steps).Nonnull fun _ => True := by
  induction steps generalizing p with
  | zero =>
    obtain ⟨m, task⟩ := p
    cases task with
    | expr e => exact (Machine.eval_nonnull h e).mono fun _ _ => trivial
    | _ => exact .cut h
  | succ n ih =>
    obtain ⟨m, task⟩ := p
    have hblock : ∀ (b : Block) {m : Machine}, m.Nonnull →
        (m.execBlock n b).Nonnull fun _ => True := fun b m hm => ih (p := ⟨m, .block b⟩) hm
    cases task with
    | expr e => exact (Machine.eval_nonnull h e).mono fun _ _ => trivial
    | stmt s =>
      cases s with
      | define b => exact Machine.define_nonnull h b
      | print e =>
        exact (Machine.eval_nonnull h e).andThen fun v m hv hm =>
          .done trivial (Machine.print_nonnull hm hv)
      | block b => exact hblock b h
      | branch c b o => exact ih (p := ⟨m, .branch c b o⟩) h
      | whileLoop c b => exact ih (p := ⟨m, .whileRounds c b .null⟩) h
      | forLoop i c k b =>
        simp only [run, Machine.exec]
        refine Machine.inScope_nonnull ?_
        exact (Machine.init_nonnull h.opened i).andThen fun _ m _ hm =>
          ih (p := ⟨m, .forRounds c k b .null⟩) hm
      | expr e => exact (Machine.eval_nonnull h e).mono fun _ _ => trivial
    | all ss last =>
      cases ss with
      | nil => exact .done trivial h
      | cons s ss =>
        exact (ih (p := ⟨m, .stmt s⟩) h).andThen fun v m _ hm => ih (p := ⟨m, .all ss v⟩) hm
    | block b =>
      exact Machine.inScope_nonnull (ih (p := ⟨m.opened, .all b.statements .null⟩) h.opened)
    | branch c b o =>
      refine (Machine.eval_nonnull h c).andThen fun v m _ hm => ?_
      split
      · exact hblock b hm
      · match o with
        | .nothing => exact .done trivial hm
        | .block b => exact hblock b hm
        | .branch c b o => exact ih (p := ⟨m, .branch c b o⟩) hm
    | whileRounds c b last =>
      refine (Machine.eval_nonnull h c).andThen fun v m _ hm => ?_
      split
      · exact (hblock b hm).andThen fun w m _ hm => ih (p := ⟨m, .whileRounds c b w⟩) hm
      · exact .done trivial hm
    | forRounds c k b last =>
      refine (Machine.eval?_nonnull h c).andThen fun v m _ hm => ?_
      split
      · refine (hblock b hm).andThen fun w m _ hm => ?_
        exact (Machine.eval?_nonnull hm k).andThen fun _ m _ hm =>
          ih (p := ⟨m, .forRounds c k b w⟩) hm
      · exact .done trivial hm

theorem optional_nonnull {m : Machine} {e : Option Expr} {q : Point} (h : optional m e q)
    (hm : m.Nonnull) : q.state.Nonnull := by
  obtain ⟨e, -, rfl⟩ := h
  exact hm

/-- From a point without null the work comes to points without null only. -/
theorem Leads.nonnull {steps : Nat} {p q : Point} (h : p.Leads steps q) (hp : p.state.Nonnull) :
    q.state.Nonnull := by
  obtain ⟨m, task⟩ := p
  have hblock : ∀ (b : Block) {m : Machine}, m.Nonnull →
      (m.execBlock steps b).Nonnull fun _ => True :=
    fun b m hm => run_nonnull steps (p := ⟨m, .block b⟩) hm
  cases task with
  | expr e =>
    cases e with
    | assign x e span => cases h; exact hp
    | binary op left right span =>
      obtain rfl | hright := h
      · exact hp
      · refine (Machine.eval_nonnull hp left).of_goesOn hright ?_
        rintro a m hm ⟨-, -, rfl⟩
        exact hm
    | unary op e span => cases h; exact hp
    | _ => cases h
  | stmt s =>
    cases s with
    | forLoop i c k b =>
      obtain hinit | hrounds := h
      · exact optional_nonnull hinit hp.opened
      · refine (Machine.init_nonnull hp.opened i).of_goesOn hrounds ?_
        rintro v m hm rfl
        exact hm
    | _ => cases h; exact hp
  | all ss last =>
    cases ss with
    | nil => cases h
    | cons s ss =>
      obtain rfl | hrest := h
      · exact hp
      · refine (run_nonnull steps (p := ⟨m, .stmt s⟩) hp).of_goesOn hrest ?_
        rintro v m hm rfl
        exact hm
  | block b => cases h; exact hp.opened
  | branch c b o =>
    obtain rfl | hbranch := h
    · exact hp
    · refine (Machine.eval_nonnull hp c).of_goesOn hbranch fun v m hm hq => ?_
      split at hq
      · cases hq; exact hm
      · cases o with
        | nothing => cases hq
        | block b => cases hq; exact hm
        | branch c b o => cases hq; exact hm
  | whileRounds c b last =>
    obtain rfl | hround := h
    · exact hp
    · refine (Machine.eval_nonnull hp c).of_goesOn hround ?_
      rintro v m hm ⟨-, rfl | hnext⟩
      · exact hm
      · refine (hblock b hm).of_goesOn hnext ?_
        rintro w m hm rfl
        exact hm
  | forRounds c k b last =>
    obtain hcondition | hround := h
    · exact optional_nonnull hcondition hp
    · refine (Machine.eval?_nonnull hp c).of_goesOn hround ?_
      rintro v m hm ⟨-, rfl | hafter⟩
      · exact hm
      · refine (hblock b hm).of_goesOn hafter ?_
        rintro w m hm (hincrement | hnext)
        · exact optional_nonnull hincrement hm
        · refine (Machine.eval?_nonnull hm k).of_goesOn hnext ?_
          rintro z m hm rfl
          exact hm

/-- An error that is raised at a point without null does not say that something is null. -/
theorem Raises.nonnull {err : RuntimeError} {p : Point} (h : p.Raises err)
    (hp : p.state.Nonnull) : err.Nonnull := by
  obtain ⟨m, task⟩ := p
  match task with
  | .expr (.name x span) =>
    obtain ⟨-, rfl⟩ := h
    exact trivial
  | .expr (.assign x e span) =>
    obtain ⟨_, _, _, -, rfl⟩ := h
    exact trivial
  | .expr (.binary op left right span) =>
    obtain ⟨a, m', ha, -, -, b, m'', hb, happly⟩ := h
    have hleft := ha ▸ Machine.eval_nonnull hp left
    have hright := hb ▸ Machine.eval_nonnull hleft.state right
    have hresult := op.apply_nonnull hleft.value hright.value span right.span
    rwa [happly] at hresult
  | .expr (.unary op e span) =>
    obtain ⟨v, m', hv, happly⟩ := h
    have hoperand := hv ▸ Machine.eval_nonnull hp e
    have hresult := op.apply_nonnull hoperand.value span
    rwa [happly] at hresult

theorem Reaches.nonnull {p q : Point} (h : p.Reaches q) (hp : p.state.Nonnull) :
    q.state.Nonnull := by
  induction h with
  | refl => exact hp
  | tail _ hlast ih =>
    obtain ⟨steps, hlast⟩ := hlast
    exact hlast.nonnull ih

end Point

/-! ## Messages -/

/-- The text does not begin with `l`, and nowhere in it is an `l` after another. -/
structure SingleL (s : String) : Prop where
  head : s.toList.head? ≠ some 'l'
  chain : s.toList.IsChain fun a b => ¬(a = 'l' ∧ b = 'l')

namespace SingleL

instance (s : String) : Decidable (SingleL s) :=
  decidable_of_iff (s.toList.head? ≠ some 'l' ∧ s.toList.IsChain fun a b => ¬(a = 'l' ∧ b = 'l'))
    ⟨fun h => ⟨h.1, h.2⟩, fun h => ⟨h.head, h.chain⟩⟩

theorem append {s t : String} (hs : SingleL s) (ht : SingleL t) : SingleL (s ++ t) := by
  obtain ⟨hshead, hschain⟩ := hs
  obtain ⟨hthead, htchain⟩ := ht
  refine ⟨?_, ?_⟩
  · rw [String.toList_append, List.head?_append]
    cases h : s.toList.head? with
    | none => simpa [h] using hthead
    | some c => simpa [h] using hshead
  · rw [String.toList_append, List.isChain_append]
    refine ⟨hschain, htchain, ?_⟩
    rintro a - b hb ⟨-, rfl⟩
    exact hthead hb

theorem without_null {s : String} (h : SingleL s) : ¬"null".toList <:+: s.toList := by
  intro hinfix
  have hnull := h.chain.infix hinfix
  revert hnull
  decide

end SingleL

theorem singleL_describe {t : ValueType} (h : .null ≠ t) : SingleL t.describe := by
  cases t with
  | null => exact absurd rfl h
  | _ => decide

theorem singleL_describe_mismatch {mismatch : Mismatch} (h : .null ∉ mismatch.types) :
    SingleL mismatch.describe := by
  cases mismatch with
  | binary op left right =>
    simp only [Mismatch.types, List.mem_cons, List.not_mem_nil, or_false, not_or] at h
    have hop : SingleL op.text := by cases op <;> decide
    have hstart := SingleL.append (s := "cannot apply `") (by decide) hop
    have hleft := (hstart.append (t := "` to ") (by decide)).append (singleL_describe h.1)
    exact (hleft.append (t := " and ") (by decide)).append (singleL_describe h.2)
  | unary op operand =>
    simp only [Mismatch.types, List.mem_singleton] at h
    have hop : SingleL op.text := by cases op <;> decide
    have hstart := SingleL.append (s := "cannot apply unary `") (by decide) hop
    exact (hstart.append (t := "` to ") (by decide)).append (singleL_describe h)

/-- The message of a type error has no `null` in it, unless one of the operands was null. -/
theorem RuntimeError.message_without_null {mismatch : Mismatch} (h : .null ∉ mismatch.types)
    (span : Span) : ¬"null".toList <:+: (typeError mismatch span).message.toList :=
  (SingleL.append (s := "Type error: ") (by decide) (singleL_describe_mismatch h)).without_null

/-! ## Sessions -/

namespace Machine

theorem start_nonnull : start.Nonnull := by
  refine ⟨?_, nofun⟩
  intro s hs
  rw [List.mem_singleton.mp hs]
  exact nofun

/-- The point at which the answer to a call begins. -/
def Call.point (m : Machine) : Call → Point
  | .run p => ⟨m, .all p.statements .null⟩
  | .evaluate e => ⟨m, .expr e⟩

theorem Call.run_point (m : Machine) (steps : Nat) (call : Call) :
    (call.point m).run steps = m.answer steps call := by
  cases call <;> rfl

theorem Call.state_point (m : Machine) (call : Call) : (call.point m).state = m := by
  cases call <;> rfl

theorem Session.nonnull {m last : Machine} {calls : List Call} (h : Session m calls last)
    (hm : m.Nonnull) : last.Nonnull := by
  induction h with
  | nil m => exact hm
  | @cons m last call calls steps _ _ ih =>
    refine ih ?_
    rw [← call.run_point]
    exact (Point.run_nonnull steps (by rwa [call.state_point])).state

/-- No program ever meets null. Between the calls of a session, and at every point of the answer to
    a call, no variable in any scope and no printed value is null, however the work there goes, and
    no type error names null. An expression that has a value there has one other than null, so a
    condition fails only if it is false; and the operators that compare or combine truth values have
    truth values. -/
theorem never_meets_null {calls : List Call} {m : Machine} (h : Session start calls m) :
    m.Nonnull ∧
    ∀ (call : Call) (q : Point), (call.point m).Reaches q →
      q.state.Nonnull ∧
      (∀ steps, (q.run steps).state.Nonnull) ∧
      (∀ steps mismatch span after, q.run steps = .failed (.typeError mismatch span) after →
        .null ∉ mismatch.types ∧
          ¬"null".toList <:+: (RuntimeError.typeError mismatch span).message.toList) ∧
      ∀ e v after, q.task = .expr e → q.state.eval e = .done v after →
        v ≠ .null ∧ (v.truthy = false → v = .bool false) ∧
          (e.truthValued = true → ∃ t, v = .bool t) := by
  have hm := h.nonnull start_nonnull
  refine ⟨hm, fun call q hq => ?_⟩
  have hstate := hq.nonnull (by rwa [call.state_point])
  have hrun := fun steps => Point.run_nonnull steps hstate
  refine ⟨hstate, fun steps => (hrun steps).state, ?_, ?_⟩
  · intro steps mismatch span after hfailed
    obtain ⟨r, hr, hraises⟩ :=
      (q.fails_iff (.typeError mismatch span)).mp ⟨steps, congrArg Run.error? hfailed⟩
    have hnames : .null ∉ mismatch.types := hraises.nonnull (hr.nonnull hstate)
    exact ⟨hnames, RuntimeError.message_without_null hnames span⟩
  · intro e v after _ hdone
    have hv := (hdone ▸ eval_nonnull hstate e).value
    exact ⟨hv, fun hfalse => Value.eq_false_of_falsy hv hfalse, fun he => eval_truthValued he hdone⟩

-- A program defines `a`, prints it in a block and fails there. In a second program the condition
-- `!a` of an `if` is evaluated inside a block.
theorem never_meets_null_after_failure :
    ∃ (p : Program) (m after : Machine) (call : Call) (q : Point) (e : Expr) (v : Value),
      Session start [.run p] m ∧ m.printed.size = 1 ∧ (call.point m).Reaches q ∧
      q.state.env.depth = 2 ∧ q.task = .expr e ∧ q.state.eval e = .done v after ∧
      m.Nonnull ∧ q.state.Nonnull ∧ v ≠ .null ∧ v = .bool false := by
  let p : Program := ⟨[.define ⟨"a", .bool true ⟨8, 12⟩, ⟨0, 12⟩⟩,
    .block (.mk [.print (.name "a" ⟨22, 23⟩), .expr (.name "b" ⟨25, 26⟩)] ⟨14, 29⟩)]⟩
  let m : Machine := (start.run 8 p).state
  let e : Expr := .unary .not (.name "a" ⟨7, 8⟩) ⟨6, 8⟩
  let call : Call :=
    .run ⟨[.block (.mk [.branch e (.mk [] ⟨10, 12⟩) .nothing] ⟨0, 14⟩)]⟩
  have hsession : Session start [.run p] m := .cons 8 rfl (.nil _)
  have hreaches : (call.point m).Reaches ⟨m.opened, .expr e⟩ :=
    .tail (.tail (.tail (.tail (.tail (.single ⟨0, .inl rfl⟩) ⟨0, rfl⟩) ⟨0, rfl⟩) ⟨0, .inl rfl⟩)
      ⟨0, rfl⟩) ⟨0, .inl rfl⟩
  obtain ⟨hm, hpoints⟩ := never_meets_null hsession
  obtain ⟨hstate, -, -, hvalues⟩ := hpoints call ⟨m.opened, .expr e⟩ hreaches
  obtain ⟨hv, hfalse, -⟩ := hvalues e (.bool false) _ rfl rfl
  exact ⟨p, m, _, call, _, e, .bool false, hsession, rfl, hreaches, rfl, rfl, rfl, hm, hstate, hv,
    hfalse rfl⟩

end Machine

end Respell
