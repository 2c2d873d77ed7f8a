-- SUMMARY: Looking a word up among the keyword spellings.
import Respell.Keyword.Config
import Respell.Text.Word

/-!
# Keyword tables

A table lists the spellings of the roles in order. Two roles may share a spelling; then the later
one has it. A spelling that is no word can never be read as a keyword.
-/

namespace Respell

/-- The spellings of the roles, in order. -/
structure Table where
  entries : List (String × Role)
deriving Repr, DecidableEq, Inhabited

namespace Table

/-- The table of a configuration. -/
def ofConfig (c : Config) : Table :=
  ⟨Role.all.map fun r => (c.spelling r, r)⟩

/-- The last role with the given spelling. -/
def lookup (t : Table) (word : String) : Option Role :=
  (t.entries.reverse.find? fun e => e.1 == word).map (·.2)

/-- The entries whose spelling is no word, so that no script can use them. -/
def unreachable (t : Table) : List (String × Role) :=
  t.entries.filter fun e => !Text.isWord e.1

/-- The table of the English spellings. -/
def english : Table :=
  ofConfig .english

end Table

end Respell
