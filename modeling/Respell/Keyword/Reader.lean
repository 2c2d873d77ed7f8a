-- SUMMARY: Reading a keyword configuration from JSON.
import Respell.Keyword.Config
import Respell.Json
import Respell.Json.Read
import Respell.Text.Escape

/-!
# Configurations in JSON

A configuration is an object from the names of its slots to spellings, or an array with the
spellings in the order of the slots. Null leaves a slot empty. The text is read from front to back
and the first fault is the one reported: a name is judged before its value is looked at, and a value
of the wrong kind as soon as it starts.

In an object the names of the slots are written in camel case. So they are the keys of the roles,
though the two are given apart (`Role.field_eq_key`).
-/

namespace Respell

namespace Role

/-- The name of the slot of a role. -/
def slot : Role → String
  | .letWord => "let_keyword"
  | .printWord => "print_keyword"
  | .ifWord => "if_keyword"
  | .elseWord => "else_keyword"
  | .trueWord => "true_keyword"
  | .falseWord => "false_keyword"
  | .whileWord => "while_keyword"
  | .forWord => "for_keyword"

/-- Words with underscores between them in camel case. -/
def camelCase : List Char → List Char
  | '_' :: c :: cs => c.toUpper :: camelCase cs
  | c :: cs => c :: camelCase cs
  | [] => []

/-- The name of the slot of a role in an object. -/
def field (r : Role) : String :=
  String.ofList (camelCase r.slot.toList)

/-- The role whose slot has the given name in an object. -/
def ofField? (name : String) : Option Role :=
  all.find? fun r => r.field == name

/-- The objects have the keys that messages give. -/
theorem field_eq_key (r : Role) : r.field = r.key := by
  cases r <;> decide

theorem ofField?_eq_some_iff {name : String} {r : Role} :
    ofField? name = some r ↔ r.key = name := by
  rw [← field_eq_key]
  refine find?_all_eq_some_iff fun {r s} h => key_injective ?_
  rw [← field_eq_key, ← field_eq_key, h]

end Role

/-- What was found where something else was wanted. -/
inductive Found where
  | null
  | bool (value : Bool)
  | number (value : Json.Number)
  | text (contents : String)
  | array
  | object

/-- Why a text is no configuration. -/
inductive ConfigError where
  | unknownField (name : String)
  | duplicateField (role : Role)
  /-- a value of the wrong kind for a spelling -/
  | notSpelling (found : Found)
  /-- a value of the wrong kind for a configuration -/
  | notConfig (found : Found)
  | invalidJson

/-- How messages name what was found. -/
def Found.describe : Found → String
  | .null => "null"
  | .bool b => "boolean `" ++ (if b then "true" else "false") ++ "`"
  | .number (.integer i) => "integer `" ++ toString i ++ "`"
  | .number (.real x) => "floating point `" ++ Json.numberStyle.write x ++ "`"
  | .text s => "string " ++ Text.showQuoted s
  | .array => "sequence"
  | .object => "map"

/-- The message of the error. -/
def ConfigError.message (e : ConfigError) : String :=
  "Invalid keyword config: " ++
    match e with
    | .unknownField name =>
      "unknown field `" ++ name ++ "`, expected one of " ++
        ", ".intercalate (Role.all.map fun r => "`" ++ r.field ++ "`")
    | .duplicateField r => "duplicate field `" ++ r.field ++ "`"
    | .notSpelling found => "invalid type: " ++ found.describe ++ ", expected a string"
    | .notConfig found => "invalid type: " ++ found.describe ++ ", expected struct KeywordConfig"
    | .invalidJson => "invalid JSON"

namespace Config

open Json

/-- The value that starts a text, if it is one of those that are not wanted there. -/
def found? (cs : List Char) : Option Found :=
  match cs with
  | [] => none
  | c :: rest =>
    if c = 'n' then (dropWord? "null".toList cs).map fun _ => .null
    else if c = 't' then (dropWord? "true".toList cs).map fun _ => .bool true
    else if c = 'f' then (dropWord? "false".toList cs).map fun _ => .bool false
    else if c = '-' then (readNumber? true rest).map .number
    else if c.isDigit then (readNumber? false cs).map .number
    else if c = '"' then (readString? rest).map fun r => .text r.1
    else if c = '[' then some .array
    else if c = '{' then some .object
    else none

/-- A spelling or null, and what follows. -/
def readSpelling (cs : List Char) : Except ConfigError (Option String × List Char) :=
  let cs := skipBlanks cs
  match cs with
  | [] => .error .invalidJson
  | c :: rest =>
    if c = '"' then
      match readString? rest with
      | some (s, rest) => .ok (some s, rest)
      | none => .error .invalidJson
    else if c = 'n' then
      match dropWord? "null".toList cs with
      | some rest => .ok (none, rest)
      | none => .error .invalidJson
    else
      match found? cs with
      | some found => .error (.notSpelling found)
      | none => .error .invalidJson

/-- A field: its key, a colon and its value. `cs` starts after the first quote of the key, and
    `seen` are the roles that have had a field. -/
def readField (seen : List Role) (cs : List Char) :
    Except ConfigError (Role × Option String × List Char) :=
  match readString? cs with
  | none => .error .invalidJson
  | some (name, rest) =>
    match Role.ofField? name with
    | none => .error (.unknownField name)
    | some r =>
      if seen.contains r then .error (.duplicateField r)
      else
        match skipBlanks rest with
        | ':' :: rest =>
          match readSpelling rest with
          | .ok (s, rest) => .ok (r, s, rest)
          | .error e => .error e
        | _ => .error .invalidJson

/-- Choose a spelling unless it is left open. -/
def choose (c : Config) (r : Role) (s : Option String) : Config :=
  match s with
  | some s => c.set r s
  | none => c

/-- The fields of an object after the first one, up to its closing brace. A field beyond the
    eighth has no role left, so `count` is enough when it is the number of roles and one. -/
def readFields (c : Config) (seen : List Role) : Nat → List Char →
    Except ConfigError (Config × List Char)
  | 0, _ => .error .invalidJson
  | count + 1, cs =>
    match skipBlanks cs with
    | '}' :: rest => .ok (c, rest)
    | ',' :: rest =>
      match skipBlanks rest with
      | '"' :: rest =>
        match readField seen rest with
        | .ok (r, s, rest) => readFields (c.choose r s) (r :: seen) count rest
        | .error e => .error e
      | _ => .error .invalidJson
    | _ => .error .invalidJson

/-- An object; `cs` starts after its opening brace. -/
def readObject (cs : List Char) : Except ConfigError (Config × List Char) :=
  match skipBlanks cs with
  | '}' :: rest => .ok (english, rest)
  | '"' :: rest =>
    match readField [] rest with
    | .ok (r, s, rest) => readFields (english.choose r s) [r] (Role.all.length + 1) rest
    | .error e => .error e
  | _ => .error .invalidJson

/-- The elements of an array for the given roles, up to its closing bracket. -/
def readElements (c : Config) (first : Bool) : List Role → List Char →
    Except ConfigError (Config × List Char)
  | roles, cs =>
    match skipBlanks cs with
    | [] => .error .invalidJson
    | d :: rest =>
      if d = ']' then .ok (c, rest)
      else
        match roles with
        | [] => .error .invalidJson
        | r :: roles =>
          let element := if first then some (d :: rest)
            else if d = ',' && (skipBlanks rest).head? != some ']' then some rest
            else none
          match element with
          | none => .error .invalidJson
          | some cs =>
            match readSpelling cs with
            | .ok (s, rest) => readElements (c.choose r s) false roles rest
            | .error e => .error e

/-- The configuration that a JSON text holds. -/
def ofJson (text : String) : Except ConfigError Config :=
  let cs := skipBlanks text.toList
  let result := match cs with
    | '[' :: rest => readElements english true Role.all rest
    | '{' :: rest => readObject rest
    | cs =>
      match found? cs with
      | some found => .error (.notConfig found)
      | none => .error .invalidJson
  match result with
  | .error e => .error e
  | .ok (c, rest) => if (skipBlanks rest).isEmpty then .ok c else .error .invalidJson

end Config

end Respell
