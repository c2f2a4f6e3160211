import ModalLexer.Segment

/-!
# Character groups

The transition tables of a lexer have a column per group of characters that
its rules do not tell apart. A character finds its group by exactly one
route: an ASCII character through a table, any other through a map of single
characters and, if it is not in there, a map of segments.
-/

namespace ModalLexer

abbrev GroupId := Nat

/-- Groups of single characters; a later entry replaces an earlier one for
the same character. -/
structure CharMap where
  /-- Most recent entry first. -/
  entries : List (Char × GroupId) := []
  deriving Repr, Inhabited

namespace CharMap

def insert (m : CharMap) (c : Char) (g : GroupId) : CharMap where
  entries := (c, g) :: m.entries

def get? (m : CharMap) (c : Char) : Option GroupId := m.entries.lookup c

/-- Inserts the entries one after the other. -/
def ofList (entries : List (Char × GroupId)) : CharMap :=
  entries.foldl (fun m e => m.insert e.1 e.2) {}

theorem get?_insert (m : CharMap) (c d : Char) (g : GroupId) :
    (m.insert c g).get? d = if d = c then some g else m.get? d := by
  unfold get? insert
  rw [List.lookup_cons]
  by_cases h : d = c
  · simp [h]
  · simp [h, beq_eq_false_iff_ne.mpr h]

end CharMap

/-- The three routes from a character to its group. -/
structure CharGroups where
  /-- Group of each ASCII character; a short table leaves the rest without. -/
  ascii : Array GroupId := #[]
  chars : CharMap := {}
  segments : SegmentMap GroupId := {}
  deriving Inhabited

/-- A table of the ASCII characters in which the ranges get their groups and
every other character gets `fill`. Of two ranges the later one counts. -/
def CharGroups.asciiTable (size : Nat) (fill : GroupId) (ranges : List (Nat × Nat × GroupId)) :
    Array GroupId :=
  (Array.range size).map fun c =>
    ((ranges.reverse.find? fun (lo, hi, _) => lo ≤ c ∧ c ≤ hi).map (·.2.2)).getD fill

/-- The group of a character, if it has one. -/
def CharGroups.group? (g : CharGroups) (c : Char) : Option GroupId :=
  if c.toNat < 128 then g.ascii[c.toNat]?
  else (g.chars.get? c).or (g.segments.get? c.toNat)

end ModalLexer
