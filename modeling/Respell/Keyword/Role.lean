-- SUMMARY: The eight roles that a keyword can play, their words and their keys.
import Respell.Text.Blank
import Respell.Text.Fold

/-!
# Roles of keywords

The language fixes what a keyword does, its role, and leaves open how it is spelled. A role is known
by its English word, which is also its spelling by default.
-/

namespace Respell

/-- What a keyword does. -/
inductive Role where
  | letWord
  | printWord
  | ifWord
  | elseWord
  | trueWord
  | falseWord
  | whileWord
  | forWord
deriving Repr, DecidableEq, Inhabited

/-- A text that should have named a role. -/
structure UnknownRole where
  text : String
deriving Repr, DecidableEq

namespace Role

/-- Every role, in the order of messages and tables. -/
def all : List Role :=
  [.letWord, .printWord, .ifWord, .elseWord, .trueWord, .falseWord, .whileWord, .forWord]

/-- The English word of a role. -/
def word : Role → String
  | .letWord => "let"
  | .printWord => "print"
  | .ifWord => "if"
  | .elseWord => "else"
  | .trueWord => "true"
  | .falseWord => "false"
  | .whileWord => "while"
  | .forWord => "for"

/-- The key of a role in a keyword configuration, as messages give it. -/
def key : Role → String
  | .letWord => "letKeyword"
  | .printWord => "printKeyword"
  | .ifWord => "ifKeyword"
  | .elseWord => "elseKeyword"
  | .trueWord => "trueKeyword"
  | .falseWord => "falseKeyword"
  | .whileWord => "whileKeyword"
  | .forWord => "forKeyword"

/-- The role with the given word. -/
def ofWord? (w : String) : Option Role :=
  all.find? fun r => r.word == w

/-- The text `cs` without `ending`, if it ends so. -/
def dropEnding (ending cs : List Char) : List Char :=
  if ending.isSuffixOf cs then cs.take (cs.length - ending.length) else cs

/-- The role that a user names by its word or its key, in any case and with blanks around it. -/
def read (text : String) : Except UnknownRole Role :=
  let name := dropEnding "keyword".toList (Text.fold (Text.trim text)).toList
  match ofWord? (String.ofList name) with
  | some r => .ok r
  | none => .error ⟨text⟩

theorem mem_all (r : Role) : r ∈ all := by
  cases r <;> decide

theorem word_injective {r s : Role} (h : r.word = s.word) : r = s := by
  revert h
  cases r <;> cases s <;> decide

theorem key_injective {r s : Role} (h : r.key = s.key) : r = s := by
  revert h
  cases r <;> cases s <;> decide

/-- A role is found by a name that no other role has. -/
theorem find?_all_eq_some_iff {name : Role → String} (hname : ∀ {r s}, name r = name s → r = s)
    {text : String} {r : Role} : (all.find? fun r => name r == text) = some r ↔ name r = text := by
  constructor
  · intro h
    simpa using List.find?_some h
  · rintro rfl
    cases hfind : all.find? fun s => name s == name r with
    | none => exact absurd (beq_self_eq_true (name r)) (List.find?_eq_none.mp hfind r r.mem_all)
    | some s =>
      have hs : name s = name r := by simpa using List.find?_some hfind
      rw [hname hs]

theorem ofWord?_eq_some_iff {w : String} {r : Role} : ofWord? w = some r ↔ r.word = w :=
  find?_all_eq_some_iff word_injective

end Role

/-- The message for a text that names no role. -/
def UnknownRole.message (e : UnknownRole) : String :=
  "Unknown keyword role: " ++ e.text ++ ". Must be one of " ++
    ", ".intercalate (Role.all.map Role.word)

end Respell
