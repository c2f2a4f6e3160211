import ModalLexer.Text.Escape

/-!
# Segments and maps on segments

A segment is an inclusive range of code points. A `SegmentMap` gives values
to segments. It answers for a code point by looking at one segment only, the
last one that begins at or before it; this is the right one as long as the
segments do not overlap.
-/

namespace ModalLexer

/-- Inclusive range of code points. -/
structure Segment where
  lo : Nat
  hi : Nat
  deriving DecidableEq, Repr, Inhabited

namespace Segment

/-- Order by beginning, then by end. -/
def Before (a b : Segment) : Prop := a.lo < b.lo ∨ (a.lo = b.lo ∧ a.hi < b.hi)

instance (a b : Segment) : Decidable (Before a b) :=
  inferInstanceAs (Decidable (_ ∨ _))

theorem Before.trans {a b c : Segment} (hab : Before a b) (hbc : Before b c) :
    Before a c := by
  unfold Before at *; omega

theorem before_of_not_before {a b : Segment} (hab : ¬ Before a b) (hne : b ≠ a) :
    Before b a := by
  unfold Before at *
  have : ¬ (b.lo = a.lo ∧ b.hi = a.hi) := fun h => hne (by
    cases a; cases b; simp_all)
  omega

def Contains (s : Segment) (v : Nat) : Prop := s.lo ≤ v ∧ v ≤ s.hi

/-- One end of a segment: the character, or its number if it has none. -/
def renderBound (classes : Text.EscapeClasses) (v : Nat) : String :=
  if h : v.isValidChar then Text.escapeSingle classes (Char.ofNatAux v h)
  else String.ofList (Text.numericEscape v)

/-- Printed form: one quoted character, or the first and the last. -/
def renderWith (classes : Text.EscapeClasses) (s : Segment) : String :=
  if s.lo = s.hi then "'" ++ renderBound classes s.lo ++ "'"
  else "'" ++ renderBound classes s.lo ++ "'-'" ++ renderBound classes s.hi ++ "'"

def render (s : Segment) : String := s.renderWith .unicode

/-- The segments in order. -/
def sort (segments : List Segment) : List Segment :=
  segments.mergeSort fun a b => ¬ Before b a

end Segment

/-! ## Maps -/

/-- Entries of a segment map, in strict order of their segments. -/
structure SegmentMap (α : Type) where
  entries : List (Segment × α) := []
  sorted : entries.Pairwise (fun a b => a.1.Before b.1) := by exact .nil

namespace SegmentMap

variable {α : Type}

instance : Inhabited (SegmentMap α) := ⟨{}⟩

def size (m : SegmentMap α) : Nat := m.entries.length

def isEmpty (m : SegmentMap α) : Bool := m.entries.isEmpty

/-- Puts an entry at its place, over one of the same segment. -/
def insertEntry (k : Segment) (v : α) : List (Segment × α) → List (Segment × α)
  | [] => [(k, v)]
  | e :: rest =>
    if e.1 = k then (k, v) :: rest
    else if k.Before e.1 then (k, v) :: e :: rest
    else e :: insertEntry k v rest

theorem mem_insertEntry {k : Segment} {v : α} {x : Segment × α} :
    ∀ {entries : List (Segment × α)},
      x ∈ insertEntry k v entries → x = (k, v) ∨ x ∈ entries
  | [], h => by simpa [insertEntry] using h
  | e :: rest, h => by
      unfold insertEntry at h
      split at h
      · simp only [List.mem_cons] at h ⊢; grind
      · split at h
        · simpa only [List.mem_cons] using h
        · simp only [List.mem_cons] at h ⊢
          rcases h with h | h
          · exact .inr (.inl h)
          · rcases mem_insertEntry h with h | h
            · exact .inl h
            · exact .inr (.inr h)

theorem insertEntry_sorted (k : Segment) (v : α) :
    ∀ {entries : List (Segment × α)}, entries.Pairwise (fun a b => a.1.Before b.1) →
      (insertEntry k v entries).Pairwise (fun a b => a.1.Before b.1)
  | [], _ => by simp [insertEntry]
  | e :: rest, h => by
      obtain ⟨first, tail⟩ := List.pairwise_cons.mp h
      unfold insertEntry
      split
      · rename_i same
        exact List.pairwise_cons.mpr ⟨fun x hx => same ▸ first x hx, tail⟩
      · rename_i other
        split
        · rename_i before
          refine List.pairwise_cons.mpr ⟨fun x hx => ?_, h⟩
          rcases List.mem_cons.mp hx with rfl | hx
          · exact before
          · exact before.trans (first x hx)
        · rename_i after
          refine List.pairwise_cons.mpr ⟨fun x hx => ?_, insertEntry_sorted k v tail⟩
          rcases mem_insertEntry hx with rfl | hx
          · exact Segment.before_of_not_before after other
          · exact first x hx

def find? (m : SegmentMap α) (k : Segment) : Option α :=
  (m.entries.find? (·.1 == k)).map (·.2)

def insert (m : SegmentMap α) (k : Segment) (v : α) : SegmentMap α where
  entries := insertEntry k v m.entries
  sorted := insertEntry_sorted k v m.sorted

/-- Gives a segment its value and returns the one it had. -/
def exchange (m : SegmentMap α) (k : Segment) (v : α) : Option α × SegmentMap α :=
  (m.find? k, m.insert k v)

/-- Inserts the entries one after the other; of two for one segment the later
one counts. -/
def ofList (entries : List (Segment × α)) : SegmentMap α :=
  entries.foldl (fun m e => m.insert e.1 e.2) {}

/-- The last entry that begins at or before a code point. -/
def floor? (m : SegmentMap α) (v : Nat) : Option (Segment × α) :=
  (m.entries.takeWhile fun e => decide (e.1.lo ≤ v)).getLast?

/-- The value at a code point: that of the last segment beginning at or
before it, provided the code point does not lie beyond the segment's end. -/
def get? (m : SegmentMap α) (v : Nat) : Option α :=
  match m.floor? v with
  | some (k, a) => if v ≤ k.hi then some a else none
  | none => none

end SegmentMap

end ModalLexer
