-- SUMMARY: More steps never change a run that has come to its end.
import Respell.Eval

/-!
# Steps and ends

The steps of a run are only a bound. A run that has not been cut short is the same with every
greater bound, so a statement has at most one end from a given state, and `Ends` can forget the
bound.
-/

namespace Respell

namespace Run

/-- Whether a run came to its end, with a value or an error. -/
def ended : Run → Bool
  | .done _ _ => true
  | .failed _ _ => true
  | .cut _ => false

/-- The error of a run that failed. -/
def error? : Run → Option RuntimeError
  | .failed e _ => some e
  | _ => none

/-- The run is the other one, unless it has been cut short. -/
def Extends (r r' : Run) : Prop :=
  r.ended = true → r' = r

namespace Extends

theorem refl (r : Run) : r.Extends r :=
  fun _ => rfl

theorem cut (m : Machine) (r : Run) : (Run.cut m).Extends r :=
  nofun

theorem trans {r s t : Run} (h : r.Extends s) (h' : s.Extends t) : r.Extends t := by
  intro hr
  have hs := h hr
  rw [h' (hs ▸ hr), hs]

theorem andThen {r r' : Run} {next next' : Value → Machine → Run} (h : r.Extends r')
    (hnext : ∀ v m, (next v m).Extends (next' v m)) :
    (r.andThen next).Extends (r'.andThen next') := by
  cases r with
  | done v m =>
    rw [h rfl]
    exact hnext v m
  | failed e m =>
    rw [h rfl]
    exact .refl _
  | cut m => exact .cut m _

theorem mapState {r r' : Run} (f : Machine → Machine) (h : r.Extends r') :
    (r.mapState f).Extends (r'.mapState f) := by
  cases r with
  | done v m => rw [h rfl]; exact .refl _
  | failed e m => rw [h rfl]; exact .refl _
  | cut m => exact .cut _ _

/-- What one more step extends, any number of further steps does. -/
theorem of_le {runs : Nat → Run} (h : ∀ n, (runs n).Extends (runs (n + 1))) {n k : Nat}
    (hle : n ≤ k) : (runs n).Extends (runs k) := by
  induction hle with
  | refl => exact .refl _
  | step _ ih => exact ih.trans (h _)

end Extends

end Run

namespace Machine

theorem inScope_extends {body body' : Machine → Run} (m : Machine)
    (h : ∀ m, (body m).Extends (body' m)) : (m.inScope body).Extends (m.inScope body') :=
  (h _).mapState _

-- By recursion on the steps: every call inside gets one step more as well.
mutual

theorem exec_extends (steps : Nat) (s : Stmt) (m : Machine) :
    (exec steps s m).Extends (exec (steps + 1) s m) := by
  match steps, s with
  | 0, _ => exact .cut m _
  | steps + 1, .define b => exact .refl _
  | steps + 1, .print e => exact .refl _
  | steps + 1, .block b => exact execBlock_extends steps b m
  | steps + 1, .branch c b o => exact execBranch_extends steps c b o m
  | steps + 1, .whileLoop c b => exact execWhile_extends steps c b .null m
  | steps + 1, .forLoop i c n b =>
    simp only [exec]
    refine m.inScope_extends fun m => ?_
    exact (Run.Extends.refl _).andThen fun _ m => execFor_extends steps c n b .null m
  | steps + 1, .expr e => exact .refl _

theorem execAll_extends (steps : Nat) (ss : List Stmt) (last : Value) (m : Machine) :
    (execAll steps ss last m).Extends (execAll (steps + 1) ss last m) := by
  match steps, ss with
  | 0, _ => exact .cut m _
  | steps + 1, [] => exact .refl _
  | steps + 1, s :: ss =>
    exact (exec_extends steps s m).andThen fun v m => execAll_extends steps ss v m

theorem execBlock_extends (steps : Nat) (b : Block) (m : Machine) :
    (execBlock steps b m).Extends (execBlock (steps + 1) b m) := by
  match steps with
  | 0 => exact .cut m _
  | steps + 1 => exact m.inScope_extends fun m => execAll_extends steps b.statements .null m

theorem execBranch_extends (steps : Nat) (c : Expr) (b : Block) (o : Otherwise) (m : Machine) :
    (execBranch steps c b o m).Extends (execBranch (steps + 1) c b o m) := by
  match steps with
  | 0 => exact .cut m _
  | steps + 1 =>
    refine (Run.Extends.refl _).andThen fun v m => ?_
    split
    · exact execBlock_extends steps b m
    · match o with
      | .nothing => exact .refl _
      | .block b => exact execBlock_extends steps b m
      | .branch c b o => exact execBranch_extends steps c b o m

theorem execWhile_extends (steps : Nat) (c : Expr) (b : Block) (last : Value) (m : Machine) :
    (execWhile steps c b last m).Extends (execWhile (steps + 1) c b last m) := by
  match steps with
  | 0 => exact .cut m _
  | steps + 1 =>
    refine (Run.Extends.refl _).andThen fun v m => ?_
    split
    · exact (execBlock_extends steps b m).andThen fun v m => execWhile_extends steps c b v m
    · exact .refl _

theorem execFor_extends (steps : Nat) (c n : Option Expr) (b : Block) (last : Value)
    (m : Machine) :
    (execFor steps c n b last m).Extends (execFor (steps + 1) c n b last m) := by
  match steps with
  | 0 => exact .cut m _
  | steps + 1 =>
    refine (Run.Extends.refl _).andThen fun v m => ?_
    split
    · refine (execBlock_extends steps b m).andThen fun v m => ?_
      exact (Run.Extends.refl _).andThen fun _ m => execFor_extends steps c n b v m
    · exact .refl _

end

/-- Executing a statement from `m` comes to the end `r`, with a value or an error. -/
def Ends (m : Machine) (s : Stmt) (r : Run) : Prop :=
  r.ended = true ∧ ∃ steps, exec steps s m = r

/-- A statement has at most one end. -/
theorem Ends.unique {m : Machine} {s : Stmt} {r r' : Run} (h : m.Ends s r) (h' : m.Ends s r') :
    r = r' := by
  obtain ⟨hr, n, rfl⟩ := h
  obtain ⟨hr', k, rfl⟩ := h'
  have hstep : ∀ n, (exec n s m).Extends (exec (n + 1) s m) := fun n => exec_extends n s m
  rw [← Run.Extends.of_le hstep (Nat.le_max_left n k) hr,
    Run.Extends.of_le hstep (Nat.le_max_right n k) hr']

end Machine

end Respell
