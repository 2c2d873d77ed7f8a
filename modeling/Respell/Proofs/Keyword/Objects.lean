-- SUMMARY: A configuration is read from an object as its fields say, however the object is written.
import Mathlib.Data.List.Perm.Subperm
import Respell.Keyword.Reader
import Respell.Proofs.Json.Strings

/-!
# Configurations in objects

An object may have blanks between any two of its pieces, and in its strings each character can be
written in several ways. Reading leaves nothing of that: it is the same as going through the fields
in order, where a key has to be that of a role that has not had a field. The order decides only
which key is refused. Those that are accepted have a key each, so each says by itself what its role
is spelled like.
-/

namespace Respell

/-! ## Objects as they are written -/

namespace Json

/-- Nothing but blanks. -/
def Gap (cs : List Char) : Prop :=
  ∀ c ∈ cs, isGap c = true

instance (cs : List Char) : Decidable (Gap cs) :=
  decidable_of_iff (cs.all isGap = true) List.all_eq_true

/-- What stands for the value of a field: a string or null. -/
inductive ValueText : Option String → List Char → Prop where
  | text {s : String} {text : List Char} : StringText s text → ValueText (some s) text
  | null : ValueText none "null".toList

/-- A key, a colon and a value, with blanks around each of them. -/
inductive FieldText : String × Option String → List Char → Prop where
  | mk {key : String} {value : Option String} {name spelling front inner behind back : List Char} :
      StringText key name → ValueText value spelling → Gap front → Gap inner → Gap behind →
      Gap back → FieldText (key, value)
        (front ++ (name ++ (inner ++ ':' :: (behind ++ (spelling ++ back)))))

/-- Fields with commas between them. -/
inductive FieldsText : List (String × Option String) → List Char → Prop where
  | one {field : String × Option String} {text : List Char} : FieldText field text →
      FieldsText [field] text
  | cons {field : String × Option String} {fields : List (String × Option String)}
      {text rest : List Char} : FieldText field text → FieldsText fields rest →
      FieldsText (field :: fields) (text ++ ',' :: rest)

/-- An object with these fields, and blanks around it. -/
inductive ObjectText : List (String × Option String) → List Char → Prop where
  | empty {front inner back : List Char} : Gap front → Gap inner → Gap back →
      ObjectText [] (front ++ '{' :: (inner ++ '}' :: back))
  | nonempty {fields : List (String × Option String)} {front text back : List Char} : Gap front →
      FieldsText fields text → Gap back →
      ObjectText fields (front ++ '{' :: (text ++ '}' :: back))

theorem gap_nil : Gap [] :=
  List.forall_mem_nil _

theorem exists_fieldText (field : String × Option String) : ∃ text, FieldText field text := by
  obtain ⟨key, value⟩ := field
  cases value with
  | some s =>
    exact ⟨_, .mk (stringText_string key) (.text (stringText_string s)) gap_nil gap_nil gap_nil
      gap_nil⟩
  | none => exact ⟨_, .mk (stringText_string key) .null gap_nil gap_nil gap_nil gap_nil⟩

/-- All fields can be written as an object. -/
theorem exists_objectText (fields : List (String × Option String)) :
    ∃ text, ObjectText fields text := by
  cases fields with
  | nil => exact ⟨_, .empty gap_nil gap_nil gap_nil⟩
  | cons field fields =>
    obtain ⟨text, htext⟩ : ∃ text, FieldsText (field :: fields) text := by
      induction fields generalizing field with
      | nil =>
        obtain ⟨text, htext⟩ := exists_fieldText field
        exact ⟨text, .one htext⟩
      | cons field' fields ih =>
        obtain ⟨text, htext⟩ := exists_fieldText field
        obtain ⟨rest, hrest⟩ := ih field'
        exact ⟨_, .cons htext hrest⟩
    exact ⟨_, .nonempty gap_nil htext gap_nil⟩

end Json

open Json (Gap ValueText FieldText FieldsText ObjectText skipBlanks skipBlanks_append
  skipBlanks_gap)

/-! ## Roles and their keys -/

namespace Role

theorem length_le_of_nodup {rs : List Role} (h : rs.Nodup) : rs.length ≤ all.length :=
  (List.subperm_of_subset h fun r _ => r.mem_all).length_le

end Role

namespace Config

/-! ## The fields without their text -/

/-- The role of a key, unless it has had a field. -/
def judge (seen : List Role) (key : String) : Except ConfigError Role :=
  match Role.ofField? key with
  | none => .error (.unknownField key)
  | some r => if seen.contains r then .error (.duplicateField r) else .ok r

/-- Add fields to a configuration, up to the first key that is refused. -/
def addFields (c : Config) (seen : List Role) :
    List (String × Option String) → Except ConfigError Config
  | [] => .ok c
  | (key, value) :: fields =>
    match judge seen key with
    | .ok r => addFields (c.choose r value) (r :: seen) fields
    | .error e => .error e

theorem judge_eq_ok_iff {seen : List Role} {key : String} {r : Role} :
    judge seen key = .ok r ↔ r.key = key ∧ r ∉ seen := by
  rw [← Role.ofField?_eq_some_iff, judge]
  cases hkey : Role.ofField? key with
  | none => simp
  | some r' =>
    by_cases hseen : r' ∈ seen
    · simp only [List.contains_eq_mem, hseen, decide_true, if_true, reduceCtorEq, false_iff,
        Option.some.injEq]
      rintro ⟨rfl, hnot⟩
      exact hnot hseen
    · simp only [List.contains_eq_mem, hseen, decide_false, Bool.false_eq_true, if_false,
        Except.ok.injEq, Option.some.injEq]
      constructor
      · rintro rfl
        exact ⟨rfl, hseen⟩
      · exact fun h => h.1

theorem addFields_cons_of_ok {seen : List Role} {key : String} {r : Role}
    (h : judge seen key = .ok r) (c : Config) (value : Option String)
    (fields : List (String × Option String)) :
    c.addFields seen ((key, value) :: fields) =
      (c.choose r value).addFields (r :: seen) fields := by
  rw [addFields, h]

theorem addFields_cons_of_error {seen : List Role} {key : String} {e : ConfigError}
    (h : judge seen key = .error e) (c : Config) (value : Option String)
    (fields : List (String × Option String)) :
    c.addFields seen ((key, value) :: fields) = .error e := by
  rw [addFields, h]

/-! ## Reading what was written -/

theorem readSpelling_of_valueText {value : Option String} {text : List Char}
    (h : ValueText value text) {gap : List Char} (hgap : Gap gap) (rest : List Char) :
    readSpelling (gap ++ (text ++ rest)) = .ok (value, rest) := by
  cases h with
  | text hstring =>
    obtain ⟨cs, rfl, hread⟩ := hstring.readString? rest
    have hskip : skipBlanks (gap ++ '"' :: (cs ++ rest)) = '"' :: (cs ++ rest) :=
      skipBlanks_append hgap (Text.stops_cons.mpr (by decide))
    rw [List.cons_append, readSpelling, hskip]
    simp [hread]
  | null =>
    have hskip : skipBlanks (gap ++ ("null".toList ++ rest)) = "null".toList ++ rest :=
      skipBlanks_append hgap (Text.stops_cons.mpr (by decide))
    rw [readSpelling, hskip]
    rfl

/-- A field is read as its key is judged, up to the blanks behind it. -/
theorem readField_of_fieldText {field : String × Option String} {text : List Char}
    (h : FieldText field text) (seen : List Role) (rest : List Char) :
    ∃ cs gap, skipBlanks (text ++ rest) = '"' :: cs ∧ Gap gap ∧
      readField seen cs = (judge seen field.1).map fun r => (r, field.2, gap ++ rest) := by
  cases h with
  | @mk key value name spelling front inner behind back hname hvalue hfront hinner hbehind hback =>
    obtain ⟨cs, rfl, hread⟩ :=
      hname.readString? (inner ++ ':' :: (behind ++ (spelling ++ (back ++ rest))))
    have hskip : skipBlanks
        (front ++ ('"' :: cs ++ (inner ++ ':' :: (behind ++ (spelling ++ back)))) ++ rest) =
          '"' :: (cs ++ (inner ++ ':' :: (behind ++ (spelling ++ (back ++ rest))))) := by
      simpa using skipBlanks_append hfront (Text.stops_cons.mpr (by decide))
    have hcolon : skipBlanks (inner ++ ':' :: (behind ++ (spelling ++ (back ++ rest)))) =
        ':' :: (behind ++ (spelling ++ (back ++ rest))) :=
      skipBlanks_append hinner (Text.stops_cons.mpr (by decide))
    refine ⟨_, back, hskip, hback, ?_⟩
    simp only [readField, hread, judge]
    cases Role.ofField? key with
    | none => rfl
    | some r =>
      by_cases hseen : seen.contains r = true
      · simp only [hseen, if_true]
        rfl
      · have hspelling := readSpelling_of_valueText hvalue hbehind (back ++ rest)
        simp only [hseen, Bool.false_eq_true, if_false, hcolon, hspelling]
        rfl

/-- Read fields of which the first is not read yet, up to the closing brace. -/
def readFrom (c : Config) (seen : List Role) (count : Nat) (cs : List Char) :
    Except ConfigError (Config × List Char) :=
  match skipBlanks cs with
  | '"' :: rest =>
    match readField seen rest with
    | .ok (r, s, rest) => readFields (c.choose r s) (r :: seen) count rest
    | .error e => .error e
  | _ => .error .invalidJson

theorem readFields_comma {gap : List Char} (hgap : Gap gap) (c : Config) (seen : List Role)
    (count : Nat) (rest : List Char) :
    c.readFields seen (count + 1) (gap ++ ',' :: rest) = c.readFrom seen count rest := by
  have hskip : skipBlanks (gap ++ ',' :: rest) = ',' :: rest :=
    skipBlanks_append hgap (Text.stops_cons.mpr (by decide))
  rw [readFields, hskip]
  rfl

theorem readFields_brace {gap : List Char} (hgap : Gap gap) (c : Config) (seen : List Role)
    (count : Nat) (rest : List Char) :
    c.readFields seen (count + 1) (gap ++ '}' :: rest) = .ok (c, rest) := by
  have hskip : skipBlanks (gap ++ '}' :: rest) = '}' :: rest :=
    skipBlanks_append hgap (Text.stops_cons.mpr (by decide))
  rw [readFields, hskip]
  rfl

/-- The first of the fields is judged, and the reader goes on behind it. -/
theorem readFrom_of_fieldText {field : String × Option String} {text : List Char}
    (h : FieldText field text) (c : Config) (seen : List Role) (count : Nat) (rest : List Char) :
    ∃ gap, Gap gap ∧ c.readFrom seen count (text ++ rest) =
      match judge seen field.1 with
      | .ok r => (c.choose r field.2).readFields (r :: seen) count (gap ++ rest)
      | .error e => .error e := by
  obtain ⟨cs, gap, hskip, hgap, hread⟩ := readField_of_fieldText h seen rest
  refine ⟨gap, hgap, ?_⟩
  rw [readFrom, hskip]
  simp only [hread]
  cases judge seen field.1 <;> rfl

/-- There are always turns left for the fields: no role has two of them. -/
theorem exists_count {seen : List Role} {count : Nat} (hseen : seen.Nodup)
    (hcount : count + seen.length = Role.all.length + 1) {key : String} {r : Role}
    (h : judge seen key = .ok r) : (r :: seen).Nodup ∧ ∃ less, count = less + 1 ∧
      less + (r :: seen).length = Role.all.length + 1 := by
  have hnodup : (r :: seen).Nodup := List.nodup_cons.mpr ⟨(judge_eq_ok_iff.mp h).2, hseen⟩
  have hle := Role.length_le_of_nodup hnodup
  rw [List.length_cons] at hle ⊢
  exact ⟨hnodup, count - 1, by omega, by omega⟩

/-- Fields are read as they are added. -/
theorem readFrom_of_fieldsText {fields : List (String × Option String)} {text : List Char}
    (h : FieldsText fields text) {seen : List Role} {count : Nat} (hseen : seen.Nodup)
    (hcount : count + seen.length = Role.all.length + 1) (c : Config) (rest : List Char) :
    c.readFrom seen count (text ++ '}' :: rest) =
      (c.addFields seen fields).map fun c => (c, rest) := by
  induction h generalizing c seen count with
  | @one field text hfield =>
    obtain ⟨gap, hgap, hread⟩ := readFrom_of_fieldText hfield c seen count ('}' :: rest)
    rw [hread]
    cases hjudge : judge seen field.1 with
    | error e =>
      rw [addFields_cons_of_error hjudge]
      rfl
    | ok r =>
      obtain ⟨-, count, rfl, -⟩ := exists_count hseen hcount hjudge
      rw [addFields_cons_of_ok hjudge]
      exact readFields_brace hgap _ _ _ _
  | @cons field fields text more hfield _ ih =>
    obtain ⟨gap, hgap, hread⟩ :=
      readFrom_of_fieldText hfield c seen count (',' :: (more ++ '}' :: rest))
    rw [List.append_assoc, List.cons_append, hread]
    cases hjudge : judge seen field.1 with
    | error e =>
      rw [addFields_cons_of_error hjudge]
      rfl
    | ok r =>
      obtain ⟨hnodup, count, rfl, hless⟩ := exists_count hseen hcount hjudge
      rw [addFields_cons_of_ok hjudge]
      dsimp only
      rw [readFields_comma hgap, ih hnodup hless]

theorem exists_quote {fields : List (String × Option String)} {text : List Char}
    (h : FieldsText fields text) (rest : List Char) :
    ∃ cs, skipBlanks (text ++ rest) = '"' :: cs := by
  cases h with
  | one hfield =>
    obtain ⟨cs, -, hskip, -⟩ := readField_of_fieldText hfield [] rest
    exact ⟨cs, hskip⟩
  | @cons _ _ text more hfield _ =>
    obtain ⟨cs, -, hskip, -⟩ := readField_of_fieldText hfield [] (',' :: (more ++ rest))
    exact ⟨cs, by rwa [List.append_assoc, List.cons_append]⟩

/-- An object is read as its fields are added to the English spellings. -/
theorem ofJson_of_objectText {fields : List (String × Option String)} {text : String}
    (h : ObjectText fields text.toList) : ofJson text = english.addFields [] fields := by
  generalize htext : text.toList = cs at h
  obtain ⟨rest, back, hskip, hback, hread⟩ : ∃ rest back, skipBlanks cs = '{' :: rest ∧ Gap back ∧
      readObject rest = (english.addFields [] fields).map fun c => (c, back) := by
    cases h with
    | @empty front inner back hfront hinner hback =>
      refine ⟨_, back, skipBlanks_append hfront (Text.stops_cons.mpr (by decide)), hback, ?_⟩
      have hskip : skipBlanks (inner ++ '}' :: back) = '}' :: back :=
        skipBlanks_append hinner (Text.stops_cons.mpr (by decide))
      rw [readObject, hskip]
      rfl
    | @nonempty _ front text back hfront hfields hback =>
      refine ⟨_, back, skipBlanks_append hfront (Text.stops_cons.mpr (by decide)), hback, ?_⟩
      obtain ⟨cs, hquote⟩ := exists_quote hfields ('}' :: back)
      rw [← readFrom_of_fieldsText hfields List.nodup_nil rfl, readObject, readFrom, hquote]
      rfl
  have hend : skipBlanks back = [] := by
    have := skipBlanks_gap hback []
    rwa [List.append_nil] at this
  rw [ofJson, htext, hskip]
  simp only [hread]
  cases english.addFields [] fields with
  | error e => rfl
  | ok c => simp [Except.map, hend]

/-! ## What fields say -/

variable {fields : List (String × Option String)}

/-- The keys are those of roles, each at most once. -/
structure Proper (fields : List (String × Option String)) : Prop where
  known : ∀ field ∈ fields, ∃ r : Role, field.1 = r.key
  once : (fields.map Prod.fst).Nodup

theorem Proper.perm {fields' : List (String × Option String)} (h : Proper fields)
    (hperm : fields'.Perm fields) : Proper fields' :=
  ⟨fun field hfield => h.known field (hperm.mem_iff.mp hfield),
    (hperm.map Prod.fst).nodup_iff.mpr h.once⟩

/-- A field is added if its key is that of a role that has had none, and the others are. -/
theorem addFields_cons_eq_ok_iff {c c' : Config} {seen : List Role} {key : String}
    {value : Option String} : c.addFields seen ((key, value) :: fields) = .ok c' ↔
      ∃ r : Role, r.key = key ∧ r ∉ seen ∧
        (c.choose r value).addFields (r :: seen) fields = .ok c' := by
  constructor
  · intro h
    cases hjudge : judge seen key with
    | error e =>
      rw [addFields_cons_of_error hjudge] at h
      cases h
    | ok r =>
      obtain ⟨hkey, hr⟩ := judge_eq_ok_iff.mp hjudge
      rw [addFields_cons_of_ok hjudge] at h
      exact ⟨r, hkey, hr, h⟩
  · rintro ⟨r, hkey, hr, h⟩
    rw [addFields_cons_of_ok (judge_eq_ok_iff.mpr ⟨hkey, hr⟩), h]

/-- Fields are added if their keys are proper, and no role of theirs is among those before. -/
theorem exists_addFields_iff {c : Config} {seen : List Role} :
    (∃ c', c.addFields seen fields = .ok c') ↔
      Proper fields ∧ ∀ r ∈ seen, r.key ∉ fields.map Prod.fst := by
  induction fields generalizing c seen with
  | nil =>
    have hproper : Proper [] := ⟨List.forall_mem_nil _, List.nodup_nil⟩
    exact ⟨fun _ => ⟨hproper, fun _ _ => List.not_mem_nil⟩, fun _ => ⟨c, rfl⟩⟩
  | cons field fields ih =>
    obtain ⟨key, value⟩ := field
    constructor
    · rintro ⟨c', h⟩
      obtain ⟨r, rfl, hr, h⟩ := addFields_cons_eq_ok_iff.mp h
      obtain ⟨hproper, hseen⟩ := ih.mp ⟨c', h⟩
      obtain ⟨hfresh, hseen⟩ := List.forall_mem_cons.mp hseen
      refine ⟨⟨List.forall_mem_cons.mpr ⟨⟨r, rfl⟩, hproper.known⟩,
        List.nodup_cons.mpr ⟨hfresh, hproper.once⟩⟩, fun r' hr' hmem => ?_⟩
      rcases List.mem_cons.mp hmem with heq | hmem
      · exact hr (Role.key_injective heq ▸ hr')
      · exact hseen r' hr' hmem
    · rintro ⟨hproper, hseen⟩
      obtain ⟨⟨r, rfl⟩, hknown⟩ := List.forall_mem_cons.mp hproper.known
      obtain ⟨hfresh, honce⟩ := List.nodup_cons.mp hproper.once
      have hr : r ∉ seen := fun hr => hseen r hr List.mem_cons_self
      have hrest : ∀ r' ∈ r :: seen, r'.key ∉ fields.map Prod.fst :=
        List.forall_mem_cons.mpr ⟨hfresh, fun r' hr' hmem =>
          hseen r' hr' (List.mem_cons_of_mem _ hmem)⟩
      obtain ⟨c', h⟩ := (@ih (c.choose r value) (r :: seen)).mpr ⟨⟨hknown, honce⟩, hrest⟩
      exact ⟨c', addFields_cons_eq_ok_iff.mpr ⟨r, rfl, hr, h⟩⟩

theorem exists_addFields_english_iff :
    (∃ c, english.addFields [] fields = .ok c) ↔ Proper fields :=
  exists_addFields_iff.trans (and_iff_left (List.forall_mem_nil _))

/-- A slot stays as it is if no field is for it, or only null. -/
theorem chosen_addFields_of_not_mem {c c' : Config} {seen : List Role}
    (h : c.addFields seen fields = .ok c') {r : Role} (hr : ∀ s, (r.key, some s) ∉ fields) :
    c'.chosen r = c.chosen r := by
  induction fields generalizing c seen with
  | nil =>
    cases h
    rfl
  | cons field fields ih =>
    obtain ⟨key, value⟩ := field
    obtain ⟨r', rfl, -, h⟩ := addFields_cons_eq_ok_iff.mp h
    rw [ih h fun s hmem => hr s (List.mem_cons_of_mem _ hmem)]
    cases value with
    | none => rfl
    | some s =>
      refine set_chosen_of_ne c s ?_
      rintro rfl
      exact hr s List.mem_cons_self

/-- A field for a slot decides on it. -/
theorem chosen_addFields_of_mem {c c' : Config} {seen : List Role}
    (h : c.addFields seen fields = .ok c') {r : Role} {s : String}
    (hr : (r.key, some s) ∈ fields) : c'.chosen r = some s := by
  induction fields generalizing c seen with
  | nil => cases hr
  | cons field fields ih =>
    obtain ⟨key, value⟩ := field
    obtain ⟨r', rfl, -, h⟩ := addFields_cons_eq_ok_iff.mp h
    rcases List.mem_cons.mp hr with heq | hmem
    · obtain ⟨hkey, rfl⟩ := Prod.mk.inj heq
      obtain rfl := Role.key_injective hkey
      -- The role has had its field, so none of the others is for it.
      obtain ⟨-, hseen⟩ := exists_addFields_iff.mp ⟨c', h⟩
      have hother : ∀ s', (r.key, some s') ∉ fields := fun s' hmem =>
        hseen r List.mem_cons_self (List.mem_map_of_mem (f := Prod.fst) hmem)
      rw [chosen_addFields_of_not_mem h hother]
      exact set_chosen_self c r s
    · exact ih h hmem

/-- The order of fields that are accepted does not matter. -/
theorem addFields_perm {fields' : List (String × Option String)} (hperm : fields'.Perm fields)
    {c : Config} (h : english.addFields [] fields = .ok c) :
    english.addFields [] fields' = .ok c := by
  have hproper := exists_addFields_english_iff.mp ⟨c, h⟩
  obtain ⟨c', h'⟩ := exists_addFields_english_iff.mpr (hproper.perm hperm)
  have hchosen : c'.chosen = c.chosen := by
    funext r
    by_cases hr : ∃ s, (r.key, some s) ∈ fields
    · obtain ⟨s, hs⟩ := hr
      rw [chosen_addFields_of_mem h hs, chosen_addFields_of_mem h' (hperm.mem_iff.mpr hs)]
    · have hr := not_exists.mp hr
      rw [chosen_addFields_of_not_mem h hr,
        chosen_addFields_of_not_mem h' fun s hs => hr s (hperm.mem_iff.mp hs)]
  rw [h', chosen_injective hchosen]

/-! ## Which key is refused -/

theorem judge_of_unknown {key : String} (h : ∀ r : Role, key ≠ r.key) (seen : List Role) :
    judge seen key = .error (.unknownField key) := by
  have hnone : Role.ofField? key = none := by
    cases hkey : Role.ofField? key with
    | none => rfl
    | some r => exact absurd (Role.ofField?_eq_some_iff.mp hkey).symm (h r)
  rw [judge, hnone]

theorem judge_of_mem {seen : List Role} {r : Role} (h : r ∈ seen) :
    judge seen r.key = .error (.duplicateField r) := by
  rw [judge, Role.ofField?_eq_some_iff.mpr rfl]
  exact if_pos (List.contains_iff_mem.mpr h)

/-- Behind fields that are accepted, their roles are those that have had a field. -/
theorem exists_addFields_append {c c' : Config} {seen : List Role}
    (h : c.addFields seen fields = .ok c') (more : List (String × Option String)) :
    ∃ seen', (∀ r : Role, r ∈ seen ∨ r.key ∈ fields.map Prod.fst → r ∈ seen') ∧
      c.addFields seen (fields ++ more) = c'.addFields seen' more := by
  induction fields generalizing c seen with
  | nil =>
    cases h
    exact ⟨seen, fun r hr => hr.resolve_right List.not_mem_nil, rfl⟩
  | cons field fields ih =>
    obtain ⟨key, value⟩ := field
    obtain ⟨r', rfl, hr', h⟩ := addFields_cons_eq_ok_iff.mp h
    obtain ⟨seen', hseen', hadd⟩ := ih h
    refine ⟨seen', fun r hr => hseen' r ?_, ?_⟩
    · rcases hr with hr | hr
      · exact .inl (List.mem_cons_of_mem _ hr)
      · rcases List.mem_cons.mp hr with hkey | hr
        · exact .inl (Role.key_injective hkey ▸ List.mem_cons_self)
        · exact .inr hr
    · rw [List.cons_append, addFields_cons_of_ok (judge_eq_ok_iff.mpr ⟨rfl, hr'⟩), hadd]

/-- The first key that cannot be accepted is the one that is reported. -/
theorem addFields_append_of_error {before after : List (String × Option String)}
    (hbefore : Proper before) {key : String} {e : ConfigError}
    (h : ∀ seen : List Role, (∀ r : Role, r.key ∈ before.map Prod.fst → r ∈ seen) →
      judge seen key = .error e) (value : Option String) :
    english.addFields [] (before ++ (key, value) :: after) = .error e := by
  obtain ⟨c, hc⟩ := exists_addFields_english_iff.mpr hbefore
  obtain ⟨seen, hseen, hadd⟩ := exists_addFields_append hc ((key, value) :: after)
  rw [hadd]
  exact addFields_cons_of_error (h seen fun r hr => hseen r (.inr hr)) c value after

/-! ## Objects -/

/-- The answer is what the fields say. -/
structure IsReading (fields : List (String × Option String))
    (answer : Except ConfigError Config) : Prop where
  /-- an object is accepted if and only if its keys are those of roles, each at most once -/
  accepts : (∃ c, answer = .ok c) ↔ Proper fields
  /-- a role is spelled as its field says, and in English if that is blank -/
  given : ∀ c, answer = .ok c → ∀ r s, (r.key, some s) ∈ fields →
    c.spelling r = if Text.isAllBlank s then r.word else s
  /-- without a field, or with null, a role is spelled in English -/
  left : ∀ c, answer = .ok c → ∀ r : Role, (∀ s, (r.key, some s) ∉ fields) →
    c.spelling r = r.word
  /-- the error is the first key that is not that of a role -/
  unknown : ∀ before key value after, fields = before ++ (key, value) :: after → Proper before →
    (∀ r : Role, key ≠ r.key) → answer = .error (.unknownField key)
  /-- or that has been there before -/
  repeated : ∀ before r value after, fields = before ++ (Role.key r, value) :: after →
    Proper before → r.key ∈ before.map Prod.fst → answer = .error (.duplicateField r)

theorem isReading_addFields (fields : List (String × Option String)) :
    IsReading fields (english.addFields [] fields) where
  accepts := exists_addFields_english_iff
  given c h r s hr := by rw [spelling, chosen_addFields_of_mem h hr]
  left c h r hr := by
    rw [spelling, chosen_addFields_of_not_mem h hr, chosen_english]
  unknown before key value after hfields hbefore hkey := by
    rw [hfields]
    exact addFields_append_of_error hbefore (fun seen _ => judge_of_unknown hkey seen) value
  repeated before r value after hfields hbefore hr := by
    rw [hfields]
    exact addFields_append_of_error hbefore (fun seen hseen => judge_of_mem (hseen r hr)) value

/-- All fields can be written as an object. From the object the reader gives the answer that the
    fields say, however it is written; and the same configuration if their order is another one. -/
theorem ofJson_reads_fields (fields : List (String × Option String)) :
    (∃ text : String, ObjectText fields text.toList) ∧
    ∀ text : String, ObjectText fields text.toList →
      IsReading fields (ofJson text) ∧
      (∀ text' : String, ObjectText fields text'.toList → ofJson text' = ofJson text) ∧
      ∀ (fields' : List (String × Option String)) (text' : String), fields'.Perm fields →
        ObjectText fields' text'.toList → ∀ c, ofJson text = .ok c → ofJson text' = .ok c := by
  refine ⟨?_, fun text htext => ?_⟩
  · obtain ⟨text, htext⟩ := Json.exists_objectText fields
    exact ⟨String.ofList text, by rwa [String.toList_ofList]⟩
  · rw [ofJson_of_objectText htext]
    refine ⟨isReading_addFields fields, fun text' htext' => ofJson_of_objectText htext', ?_⟩
    intro fields' text' hperm htext' c hc
    rw [ofJson_of_objectText htext']
    exact addFields_perm hperm hc

/-- The first letter of a key is written by its number, and so is the clef, in two halves. -/
theorem ofJson_reads_fields_clef :
    ∃ c, ofJson
        "\x7b \"\\u006CetKeyword\" :\n\"\\ud834\\uDD1E\" ,\"ifKeyword\":null\x7d" = .ok c ∧
      c.spelling .letWord = "𝄞" ∧ c.spelling .ifWord = "if" := by
  have hletter : Json.CharText 'l' "\\u006C".toList :=
    .number (@Json.HexNumber.mk '0' '0' '6' 'C' 0 0 6 12 _ (by decide) (by decide) (by decide)
      (by decide) (by decide))
  have hclef : Json.CharText '𝄞' "\\ud834\\uDD1E".toList :=
    .pair (by decide)
      (@Json.HexNumber.mk 'd' '8' '3' '4' 13 8 3 4 _ (by decide) (by decide) (by decide)
        (by decide) (by decide))
      (@Json.HexNumber.mk 'D' 'D' '1' 'E' 13 13 1 14 _ (by decide) (by decide) (by decide)
        (by decide) (by decide))
  have hlet : FieldText ("letKeyword", some "𝄞")
      " \"\\u006CetKeyword\" :\n\"\\ud834\\uDD1E\" ".toList := by
    have hkey : Json.StringText "letKeyword" _ :=
      .mk (.cons hletter (Json.bodyText_escape "etKeyword".toList))
    have hvalue : Json.StringText "𝄞" _ := .mk (.cons hclef .nil)
    have hfield := @FieldText.mk _ _ _ _ [' '] [' '] ['\n'] [' '] hkey (.text hvalue)
      (by decide) (by decide) (by decide) (by decide)
    exact (congrArg (FieldText _) (by decide +kernel)).mp hfield
  have hif : FieldText ("ifKeyword", none) "\"ifKeyword\":null".toList := by
    have hfield := @FieldText.mk _ _ _ _ [] [] [] [] (Json.stringText_string "ifKeyword") .null
      Json.gap_nil Json.gap_nil Json.gap_nil Json.gap_nil
    exact (congrArg (FieldText _) (by decide +kernel)).mp hfield
  have hobject : ObjectText [("letKeyword", some "𝄞"), ("ifKeyword", none)]
      "\x7b \"\\u006CetKeyword\" :\n\"\\ud834\\uDD1E\" ,\"ifKeyword\":null\x7d".toList := by
    have hfields := ObjectText.nonempty Json.gap_nil (.cons hlet (.one hif)) Json.gap_nil
    exact (congrArg (ObjectText _) (by decide +kernel)).mp hfields
  have hproper : Proper [("letKeyword", some "𝄞"), ("ifKeyword", none)] :=
    ⟨List.forall_mem_cons.mpr ⟨⟨.letWord, by decide⟩,
      List.forall_mem_singleton.mpr ⟨.ifWord, by decide⟩⟩, by decide⟩
  have hne : Role.ifWord.key ≠ "letKeyword" := by decide
  obtain ⟨hreading, -⟩ := (ofJson_reads_fields _).2 _ hobject
  obtain ⟨c, hc⟩ := hreading.accepts.mpr hproper
  refine ⟨c, hc, ?_, ?_⟩
  · exact hreading.given c hc .letWord "𝄞" List.mem_cons_self
  · exact hreading.left c hc .ifWord (by simp [hne])

end Config

end Respell
