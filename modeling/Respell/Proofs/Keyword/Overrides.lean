-- SUMMARY: Of the overrides for a role the last one counts, and those that are refused do nothing.
import Mathlib.Data.List.TakeDrop
import Mathlib.Logic.Function.Basic
import Respell.Command
import Respell.Proofs.Lexing.Lexemes

/-!
# Overrides in a row

An override names a role before its first `=` and gives it the text behind, without the blanks at
its ends. Whether it is refused does not depend on the configuration, and a refused one leaves every
slot as it is. So in a row of overrides each role has what the last one gave to it, and if that is
blank, its English word.
-/

namespace Respell

/-! ## Blanks around a text -/

namespace Text

/-- Trimming drops blanks at both ends. -/
theorem exists_trimChars (cs : List Char) : ∃ before after,
    cs = before ++ (trimChars cs ++ after) ∧ (∀ c ∈ before, isBlank c = true) ∧
      ∀ c ∈ after, isBlank c = true := by
  refine ⟨cs.takeWhile isBlank, ((cs.dropWhile isBlank).reverse.takeWhile isBlank).reverse, ?_,
    fun c hc => List.mem_takeWhile_imp hc, fun c hc => ?_⟩
  · rw [trimChars, ← List.reverse_append, List.takeWhile_append_dropWhile, List.reverse_reverse,
      List.takeWhile_append_dropWhile]
  · exact List.mem_takeWhile_imp (List.mem_reverse.mp hc)

/-- Only the blanks at the ends are dropped. -/
theorem trimChars_append {before name after : List Char} (hbefore : ∀ c ∈ before, isBlank c = true)
    (hname : ∀ c ∈ name, isBlank c = false) (hafter : ∀ c ∈ after, isBlank c = true) :
    trimChars (before ++ (name ++ after)) = name := by
  cases name with
  | nil =>
    rw [List.nil_append, trimChars_eq_nil_iff, List.all_eq_true]
    exact fun c hc => (List.mem_append.mp hc).elim (hbefore c) (hafter c)
  | cons d ds =>
    have hstart : Stops isBlank (d :: ds ++ after) :=
      stops_cons.mpr (hname d List.mem_cons_self)
    have hstop : Stops isBlank (d :: ds).reverse := fun c hc =>
      hname c (List.mem_reverse.mp (List.mem_of_mem_head? hc))
    have hrest : ∀ c ∈ after.reverse, isBlank c = true := fun c hc =>
      hafter c (List.mem_reverse.mp hc)
    rw [trimChars, hstart.dropWhile_append hbefore, List.reverse_append,
      hstop.dropWhile_append hrest, List.reverse_reverse]

theorem isBlank_foldChar {c : Char} (h : isBlank c = true) : isBlank (foldChar c) = true := by
  have hall : ∀ n ∈ blanks, isBlank (foldChar (Char.ofNat n)) = true := by decide +kernel
  rw [← c.ofNat_toNat]
  exact hall c.toNat (toNat_mem_blanks h)

/-- Folding does not make blanks into letters. -/
theorem isBlank_of_map_foldChar {name word : List Char} (h : name.map foldChar = word)
    (hword : ∀ c ∈ word, isBlank c = false) : ∀ c ∈ name, isBlank c = false := by
  intro c hc
  rw [← Bool.not_eq_true]
  intro hblank
  have hfold := hword (foldChar c) (h ▸ List.mem_map_of_mem hc)
  rw [isBlank_foldChar hblank] at hfold
  cases hfold

end Text

/-! ## Names of roles -/

namespace Role

/-- The text is the word or the key of the role, in any case and with blanks around it. -/
def NamedBy (r : Role) (text : List Char) : Prop :=
  ∃ before name after, text = before ++ (name ++ after) ∧
    (∀ c ∈ before, Text.isBlank c = true) ∧ (∀ c ∈ after, Text.isBlank c = true) ∧
    (name.map Text.foldChar = r.word.toList.map Text.foldChar ∨
      name.map Text.foldChar = r.key.toList.map Text.foldChar)

theorem map_foldChar_word (r : Role) : r.word.toList.map Text.foldChar = r.word.toList := by
  cases r <;> rfl

theorem map_foldChar_key (r : Role) :
    r.key.toList.map Text.foldChar = r.word.toList ++ "keyword".toList := by
  cases r <;> rfl

theorem isBlank_of_mem_key (r : Role) :
    ∀ c ∈ r.word.toList ++ "keyword".toList, Text.isBlank c = false := by
  have hall : (r.word.toList ++ "keyword".toList).all (fun c => !Text.isBlank c) = true := by
    cases r <;> decide
  intro c hc
  have hc := List.all_eq_true.mp hall c hc
  rwa [Bool.not_eq_true'] at hc

/-- No word ends like a key. -/
theorem dropEnding_eq_word_iff {cs : List Char} {r : Role} :
    dropEnding "keyword".toList cs = r.word.toList ↔
      cs = r.word.toList ∨ cs = r.word.toList ++ "keyword".toList := by
  unfold dropEnding
  split
  · next hsuffix =>
    obtain ⟨front, rfl⟩ := List.isSuffixOf_iff_suffix.mp hsuffix
    have hword : front ++ "keyword".toList ≠ r.word.toList := by
      intro h
      have hends : "keyword".toList.isSuffixOf r.word.toList = true :=
        List.isSuffixOf_iff_suffix.mpr ⟨front, h⟩
      cases r <;> revert hends <;> decide
    rw [List.length_append, Nat.add_sub_cancel, List.take_left, or_iff_right hword,
      List.append_left_inj]
  · next hsuffix =>
    have hkey : cs ≠ r.word.toList ++ "keyword".toList := by
      rintro rfl
      exact hsuffix (List.isSuffixOf_iff_suffix.mpr (List.suffix_append _ _))
    exact (or_iff_left hkey).symm

theorem read_eq_ok_iff_ofWord? {text : String} {r : Role} : read text = .ok r ↔
    ofWord? (String.ofList (dropEnding "keyword".toList (Text.fold (Text.trim text)).toList)) =
      some r := by
  unfold read
  extract_lets name
  cases ofWord? (String.ofList name) <;> simp

/-- A role is read from the texts that name it. -/
theorem read_eq_ok_iff {text : String} {r : Role} : read text = .ok r ↔ r.NamedBy text.toList := by
  have hfold : (Text.fold (Text.trim text)).toList =
      (Text.trimChars text.toList).map Text.foldChar := by
    rw [Text.fold, Text.trim, String.toList_ofList, String.toList_ofList]
  rw [read_eq_ok_iff_ofWord?, ofWord?_eq_some_iff, eq_comm, ← String.toList_inj,
    String.toList_ofList, dropEnding_eq_word_iff, hfold]
  constructor
  · intro h
    obtain ⟨before, after, htext, hbefore, hafter⟩ := Text.exists_trimChars text.toList
    refine ⟨before, _, after, htext, hbefore, hafter, ?_⟩
    rwa [map_foldChar_word, map_foldChar_key]
  · rintro ⟨before, name, after, htext, hbefore, hafter, hname⟩
    rw [map_foldChar_word, map_foldChar_key] at hname
    have hblank : ∀ c ∈ name, Text.isBlank c = false := by
      rcases hname with hname | hname
      · exact Text.isBlank_of_map_foldChar hname fun c hc =>
          r.isBlank_of_mem_key c (List.mem_append_left _ hc)
      · exact Text.isBlank_of_map_foldChar hname r.isBlank_of_mem_key
    rwa [htext, Text.trimChars_append hbefore hblank hafter]

theorem eq_of_read_eq_error {text : String} {e : UnknownRole} (h : read text = .error e) :
    e = ⟨text⟩ := by
  unfold read at h
  extract_lets name at h
  cases hfound : ofWord? (String.ofList name) with
  | some r =>
    rw [hfound] at h
    cases h
  | none =>
    rw [hfound] at h
    cases h
    rfl

end Role

/-! ## One override -/

/-- The override gives the spelling `s` to the role `r`: the role is named before the first `=`, and
    what stands behind is the spelling, but for the blanks at its ends. -/
def Assigns (text : String) (r : Role) (s : String) : Prop :=
  ∃ name value, text.toList = name ++ '=' :: value ∧ '=' ∉ name ∧ r.NamedBy name ∧
    s = Text.trim (String.ofList value)

/-- The override is refused, and this is the error. -/
inductive Refused : String → OverrideError → Prop where
  | noAssignment {text : String} : '=' ∉ text.toList → Refused text (.noAssignment text)
  | unknownRole {text : String} {name value : List Char} : text.toList = name ++ '=' :: value →
      '=' ∉ name → (∀ r : Role, ¬ r.NamedBy name) →
      Refused text (.unknownRole ⟨String.ofList name⟩)

namespace Config

/-- Do an override to the configuration in hand: the text is split, the role is read, and only then
    a slot is set. The answer is whether it was refused, and the configuration that is left. -/
def attempt (c : Config) (text : String) : Except OverrideError Unit × Config :=
  match splitAssignment text with
  | none => (.error (.noAssignment text), c)
  | some (role, spelling) =>
    match Role.read role with
    | .error e => (.error (.unknownRole e), c)
    | .ok r => (.ok (), c.set r (Text.trim spelling))

theorem override_eq (c : Config) (text : String) : c.override text =
    match c.attempt text with
    | (.ok (), c') => .ok c'
    | (.error e, _) => .error e := by
  unfold attempt override
  cases splitAssignment text with
  | none => rfl
  | some parts =>
    dsimp only
    cases Role.read parts.1 <;> rfl

theorem splitAssignment_eq_some {text : String} {name value : List Char}
    (htext : text.toList = name ++ '=' :: value) (h : '=' ∉ name) :
    splitAssignment text = some (String.ofList name, String.ofList value) := by
  have hstop : Text.Stops (· != '=') ('=' :: value) := Text.stops_cons.mpr (by decide)
  have hname := Text.forall_bne h
  rw [splitAssignment, htext, List.span_eq_takeWhile_dropWhile, hstop.takeWhile_append hname,
    hstop.dropWhile_append hname]

theorem splitAssignment_eq_none {text : String} (h : '=' ∉ text.toList) :
    splitAssignment text = none := by
  have hrest : text.toList.dropWhile (· != '=') = [] :=
    List.dropWhile_eq_nil_iff.mpr (Text.forall_bne h)
  rw [splitAssignment, List.span_eq_takeWhile_dropWhile, hrest]

/-- An override that assigns a spelling sets it, and nothing else. -/
theorem attempt_of_assigns {text : String} {r : Role} {s : String} (h : Assigns text r s)
    (c : Config) : c.attempt text = (.ok (), c.set r s) := by
  obtain ⟨name, value, htext, hname, hrole, rfl⟩ := h
  have hread : Role.read (String.ofList name) = .ok r :=
    Role.read_eq_ok_iff.mpr (by rwa [String.toList_ofList])
  simp only [attempt, splitAssignment_eq_some htext hname, hread]

/-- An override that is refused leaves the configuration as it is. -/
theorem attempt_of_refused {text : String} {e : OverrideError} (h : Refused text e) (c : Config) :
    c.attempt text = (.error e, c) := by
  cases h with
  | noAssignment hnone => simp only [attempt, splitAssignment_eq_none hnone]
  | @unknownRole name value htext hname hrole =>
    have hread : Role.read (String.ofList name) = .error ⟨String.ofList name⟩ := by
      cases hread : Role.read (String.ofList name) with
      | ok r =>
        have hnamed := Role.read_eq_ok_iff.mp hread
        rw [String.toList_ofList] at hnamed
        exact absurd hnamed (hrole r)
      | error e => exact congrArg _ (Role.eq_of_read_eq_error hread)
    simp only [attempt, splitAssignment_eq_some htext hname, hread]

end Config

/-- Every override assigns a spelling or is refused. -/
theorem assigns_or_refused (text : String) :
    (∃ r s, Assigns text r s) ∨ ∃ e, Refused text e := by
  by_cases hmem : '=' ∈ text.toList
  · obtain ⟨name, value, htext, hname⟩ := List.eq_append_cons_of_mem hmem
    by_cases hrole : ∃ r : Role, r.NamedBy name
    · obtain ⟨r, hr⟩ := hrole
      exact .inl ⟨r, _, name, value, htext, hname, hr, rfl⟩
    · exact .inr ⟨_, .unknownRole htext hname (not_exists.mp hrole)⟩
  · exact .inr ⟨_, .noAssignment hmem⟩

namespace Config

/-- Whether an override succeeds does not depend on the configuration. -/
theorem attempt_eq_ok_iff {c : Config} {text : String} :
    (c.attempt text).1 = .ok () ↔ ∃ r s, Assigns text r s := by
  constructor
  · intro h
    obtain hassigns | ⟨e, hrefused⟩ := assigns_or_refused text
    · exact hassigns
    · rw [attempt_of_refused hrefused] at h
      cases h
  · rintro ⟨r, s, h⟩
    rw [attempt_of_assigns h]

theorem attempt_eq_error_iff {c : Config} {text : String} {e : OverrideError} :
    (c.attempt text).1 = .error e ↔ Refused text e := by
  constructor
  · intro h
    obtain ⟨r, s, hassigns⟩ | ⟨e', hrefused⟩ := assigns_or_refused text
    · rw [attempt_of_assigns hassigns] at h
      cases h
    · rw [attempt_of_refused hrefused] at h
      cases h
      exact hrefused
  · intro h
    rw [attempt_of_refused h]

/-! ## Many overrides -/

/-- Do overrides in order, and go on after those that are refused. -/
def attemptAll (c : Config) (texts : List String) : Config :=
  texts.foldl (fun c text => (c.attempt text).2) c

theorem attemptAll_cons (c : Config) (text : String) (texts : List String) :
    c.attemptAll (text :: texts) = (c.attempt text).2.attemptAll texts := rfl

theorem attemptAll_append (c : Config) (texts more : List String) :
    c.attemptAll (texts ++ more) = (c.attemptAll texts).attemptAll more :=
  List.foldl_append

/-- A slot that no override is for stays as it is. -/
theorem chosen_attempt_of_not_assigns {text : String} {r : Role} (h : ∀ s, ¬ Assigns text r s)
    (c : Config) : (c.attempt text).2.chosen r = c.chosen r := by
  obtain ⟨r', s, hassigns⟩ | ⟨e, hrefused⟩ := assigns_or_refused text
  · have hne : r ≠ r' := by
      rintro rfl
      exact h s hassigns
    rw [attempt_of_assigns hassigns, set_chosen_of_ne c s hne]
  · rw [attempt_of_refused hrefused]

theorem chosen_attemptAll_of_not_assigns {texts : List String} {r : Role}
    (h : ∀ text ∈ texts, ∀ s, ¬ Assigns text r s) (c : Config) :
    (c.attemptAll texts).chosen r = c.chosen r := by
  induction texts generalizing c with
  | nil => rfl
  | cons text texts ih =>
    obtain ⟨hfirst, hrest⟩ := List.forall_mem_cons.mp h
    rw [attemptAll_cons, ih hrest, chosen_attempt_of_not_assigns hfirst]

/-- The last override for a role decides on its slot. -/
theorem chosen_attemptAll_of_last {before after : List String} {text : String} {r : Role}
    {s : String} (h : Assigns text r s) (hafter : ∀ t ∈ after, ∀ s', ¬ Assigns t r s')
    (c : Config) : (c.attemptAll (before ++ text :: after)).chosen r = some s := by
  rw [attemptAll_append, attemptAll_cons, chosen_attemptAll_of_not_assigns hafter,
    attempt_of_assigns h, set_chosen_self]

/-- Up to the first that is refused, the overrides are those that are done one after another. -/
theorem overrideAll_append {before : List String}
    (h : ∀ text ∈ before, ∃ r s, Assigns text r s) (c : Config) (texts : List String) :
    c.overrideAll (before ++ texts) = (c.attemptAll before).overrideAll texts := by
  induction before generalizing c with
  | nil => rfl
  | cons text before ih =>
    obtain ⟨⟨r, s, hassigns⟩, hrest⟩ := List.forall_mem_cons.mp h
    rw [List.cons_append, overrideAll, override_eq, attemptAll_cons, attempt_of_assigns hassigns]
    exact ih hrest (c.set r s)

theorem overrideAll_of_refused {text : String} {e : OverrideError} (h : Refused text e)
    (c : Config) (texts : List String) : c.overrideAll (text :: texts) = .error e := by
  rw [overrideAll, override_eq, attempt_of_refused h]

/-- What a row of overrides makes of a configuration. -/
structure LastWins (base : Config) (texts : List String) : Prop where
  /-- the answer of an override is the error, or the configuration that is left -/
  answers : ∀ c : Config, ∀ text ∈ texts, c.override text =
    match c.attempt text with
    | (.ok (), c') => .ok c'
    | (.error e, _) => .error e
  /-- an override succeeds if and only if it names a role before its first `=` -/
  succeeds : ∀ c : Config, ∀ text ∈ texts,
    (c.attempt text).1 = .ok () ↔ ∃ r s, Assigns text r s
  /-- one that fails leaves every slot as it is -/
  fails : ∀ c : Config, ∀ text ∈ texts, (c.attempt text).1 ≠ .ok () →
    (c.attempt text).2.chosen = c.chosen
  /-- one that succeeds changes only the slot of its role -/
  changes : ∀ c : Config, ∀ text ∈ texts, ∀ r s, Assigns text r s →
    (c.attempt text).2.chosen = Function.update c.chosen r (some s)
  /-- a role is spelled as the last override for it says, and if that is blank, in English -/
  last : ∀ before text after r s, texts = before ++ text :: after → Assigns text r s →
    (∀ t ∈ after, ∀ s', ¬ Assigns t r s') →
    (base.attemptAll texts).spelling r = if Text.isAllBlank s then r.word else s
  /-- and as before if there is none -/
  untouched : ∀ r, (∀ text ∈ texts, ∀ s, ¬ Assigns text r s) →
    (base.attemptAll texts).spelling r = base.spelling r

theorem spelling_of_chosen {c : Config} {r : Role} {s : String} (h : c.chosen r = some s) :
    c.spelling r = if Text.isAllBlank s then r.word else s := by
  rw [spelling, h]

theorem lastWins (base : Config) (texts : List String) : base.LastWins texts where
  answers c text _ := override_eq c text
  succeeds _ _ _ := attempt_eq_ok_iff
  fails c text _ h := by
    obtain hassigns | ⟨e, hrefused⟩ := assigns_or_refused text
    · exact absurd (attempt_eq_ok_iff.mpr hassigns) h
    · rw [attempt_of_refused hrefused]
  changes c text _ r s h := by
    rw [attempt_of_assigns h]
    funext t
    rw [Function.update_apply, chosen_set]
  last before text after r s htexts h hafter := by
    rw [htexts]
    exact spelling_of_chosen (chosen_attemptAll_of_last h hafter base)
  untouched r h := by
    rw [spelling, spelling, chosen_attemptAll_of_not_assigns h]

end Config

theorem Command.keywordConfig_of_baseConfig {inputs rest : Command.Inputs} {o : Command.Options}
    {base : Config} (h : Command.baseConfig inputs o = .ok (base, rest)) :
    Command.keywordConfig inputs o =
      match base.overrideAll o.overrides with
      | .ok c => .ok (c, rest)
      | .error e => .error e.message := by
  rw [Command.keywordConfig, h]
  rfl

/-- In a row of overrides, of those for a role the last one counts, and those that are refused do
    nothing. The options ask for the configuration that they make together, unless one of them is
    refused: then the first of these is the error. -/
theorem overrides_last_wins :
    (∀ (base : Config) (texts : List String), base.LastWins texts) ∧
    ∀ (inputs rest : Command.Inputs) (o : Command.Options) (base : Config),
      Command.baseConfig inputs o = .ok (base, rest) →
      ((∀ text ∈ o.overrides, ∃ r s, Assigns text r s) →
        Command.keywordConfig inputs o = .ok (base.attemptAll o.overrides, rest)) ∧
      ∀ before text after e, o.overrides = before ++ text :: after →
        (∀ t ∈ before, ∃ r s, Assigns t r s) → (base.attempt text).1 = .error e →
        Command.keywordConfig inputs o = .error e.message := by
  refine ⟨Config.lastWins, fun inputs rest o base hbase => ⟨fun h => ?_, ?_⟩⟩
  · have hall := Config.overrideAll_append h base []
    rw [List.append_nil] at hall
    rw [Command.keywordConfig_of_baseConfig hbase, hall]
    rfl
  · intro before text after e htexts hbefore herror
    have hall := Config.overrideAll_append hbefore base (text :: after)
    rw [← htexts, Config.overrideAll_of_refused (Config.attempt_eq_error_iff.mp herror)] at hall
    rw [Command.keywordConfig_of_baseConfig hbase, hall]

/-- A blank spelling brings the English word back, whatever was refused before it. The options stop
    at what is refused. -/
theorem overrides_last_wins_blank :
    ((Config.english.set .letWord "x").attemptAll ["let=y=z", "oops", "LETKeyword= "]).spelling
        .letWord = "let" ∧
      Command.keywordConfig ⟨fun _ => .error .notFound, []⟩
          { Command.Options.none with overrides := ["oops", "let=x"] } =
        .error "Expected ROLE=SPELLING, got `oops`" := by
  have hassigns : Assigns "LETKeyword= " .letWord "" :=
    ⟨"LETKeyword".toList, " ".toList, by decide, by decide,
      ⟨[], "LETKeyword".toList, [], by decide, List.forall_mem_nil _, List.forall_mem_nil _,
        .inr (by decide)⟩, by decide⟩
  have hrefused : (Config.english.attempt "oops").1 = .error (.noAssignment "oops") :=
    Config.attempt_eq_error_iff.mpr (.noAssignment (by decide))
  obtain ⟨hwins, hoptions⟩ := overrides_last_wins
  refine ⟨?_, ?_⟩
  · exact (hwins _ _).last ["let=y=z", "oops"] _ [] .letWord "" rfl hassigns
      fun _ hmem => absurd hmem List.not_mem_nil
  · exact (hoptions _ _ _ .english rfl).2 [] "oops" ["let=x"] _ rfl
      (fun _ hmem => absurd hmem List.not_mem_nil) hrefused

end Respell
