-- SUMMARY: Which spelling each role has, and changing one of them by an override.
import Respell.Keyword.Role

/-!
# Keyword configurations

A configuration has a slot for each role, which holds the chosen spelling if there is one. A role
without one, or with a blank one, is spelled by its English word.

The slots are read by one table and changed by another. That the two agree is said by
`chosen_set`, and everything about configurations goes by it.
-/

namespace Respell

/-- The spellings that were chosen. -/
structure Config where
  letKeyword : Option String
  printKeyword : Option String
  ifKeyword : Option String
  elseKeyword : Option String
  trueKeyword : Option String
  falseKeyword : Option String
  whileKeyword : Option String
  forKeyword : Option String
deriving Repr, DecidableEq

/-- Why an override was refused. -/
inductive OverrideError where
  /-- the text has no `=` -/
  | noAssignment (text : String)
  /-- the text before the first `=` names no role -/
  | unknownRole (cause : UnknownRole)
deriving Repr, DecidableEq

namespace Config

/-- Nothing is chosen: every role has its English spelling. -/
def english : Config :=
  ⟨none, none, none, none, none, none, none, none⟩

instance : Inhabited Config := ⟨english⟩

/-- The spelling that was chosen for a role. -/
def chosen (c : Config) : Role → Option String
  | .letWord => c.letKeyword
  | .printWord => c.printKeyword
  | .ifWord => c.ifKeyword
  | .elseWord => c.elseKeyword
  | .trueWord => c.trueKeyword
  | .falseWord => c.falseKeyword
  | .whileWord => c.whileKeyword
  | .forWord => c.forKeyword

/-- Choose a spelling for one role. -/
def set (c : Config) (r : Role) (spelling : String) : Config :=
  match r with
  | .letWord => { c with letKeyword := some spelling }
  | .printWord => { c with printKeyword := some spelling }
  | .ifWord => { c with ifKeyword := some spelling }
  | .elseWord => { c with elseKeyword := some spelling }
  | .trueWord => { c with trueKeyword := some spelling }
  | .falseWord => { c with falseKeyword := some spelling }
  | .whileWord => { c with whileKeyword := some spelling }
  | .forWord => { c with forKeyword := some spelling }

/-- The spelling of a role. -/
def spelling (c : Config) (r : Role) : String :=
  match c.chosen r with
  | some s => if Text.isAllBlank s then r.word else s
  | none => r.word

/-- Split a text at its first `=`. -/
def splitAssignment (text : String) : Option (String × String) :=
  match text.toList.span (· != '=') with
  | (_, []) => none
  | (before, _ :: after) => some (String.ofList before, String.ofList after)

/-- Apply an override `role=spelling`; blanks around the spelling are dropped. -/
def override (c : Config) (text : String) : Except OverrideError Config :=
  match splitAssignment text with
  | none => .error (.noAssignment text)
  | some (role, spelling) =>
    match Role.read role with
    | .error e => .error (.unknownRole e)
    | .ok r => .ok (c.set r (Text.trim spelling))

/-- Apply overrides in order, up to the first that is refused. -/
def overrideAll (c : Config) : List String → Except OverrideError Config
  | [] => .ok c
  | text :: texts =>
    match c.override text with
    | .error e => .error e
    | .ok c => c.overrideAll texts

@[simp] theorem chosen_english (r : Role) : english.chosen r = none := by
  cases r <;> rfl

theorem english_spelling (r : Role) : english.spelling r = r.word := by
  rw [spelling, chosen_english]

/-- The slot that is changed for a role is the one that is read for it, and no other is changed. -/
theorem chosen_set (c : Config) (r t : Role) (s : String) :
    (c.set r s).chosen t = if t = r then some s else c.chosen t := by
  cases r <;> cases t <;> rfl

@[simp] theorem set_chosen_self (c : Config) (r : Role) (s : String) :
    (c.set r s).chosen r = some s := by
  rw [chosen_set, if_pos rfl]

@[simp] theorem set_chosen_of_ne (c : Config) {r t : Role} (s : String) (h : t ≠ r) :
    (c.set r s).chosen t = c.chosen t := by
  rw [chosen_set, if_neg h]

/-- Every slot is that of a role. -/
theorem chosen_injective {c c' : Config} (h : c.chosen = c'.chosen) : c = c' := by
  rw [Config.mk.injEq]
  exact ⟨congrFun h .letWord, congrFun h .printWord, congrFun h .ifWord, congrFun h .elseWord,
    congrFun h .trueWord, congrFun h .falseWord, congrFun h .whileWord, congrFun h .forWord⟩

end Config

/-- The message for an override that was refused. -/
def OverrideError.message : OverrideError → String
  | .noAssignment text => "Expected ROLE=SPELLING, got `" ++ text ++ "`"
  | .unknownRole cause => cause.message

end Respell
