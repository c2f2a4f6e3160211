import ModalLexer.Basic
import ModalLexer.Fault

/-!
# Streams over a text

The whole text is at hand, so looking ahead, going back and quoting are
possible anywhere and never change anything but the position.
-/

namespace ModalLexer

/-- A text and a position in it. -/
structure TextStream where
  chars : Array Char
  position : Nat := 0
  name : String := unknownSourceName
  position_le : position ≤ chars.size := by exact Nat.zero_le _
  deriving DecidableEq

namespace TextStream

def ofString (text : String) (name : String) : TextStream where
  chars := text.toList.toArray
  name := name

instance : Inhabited TextStream := ⟨ofString "" unknownSourceName⟩

def peek? (s : TextStream) : Option Char := s.chars[s.position]?

def lookahead (s : TextStream) (i : Nat) : Except Fault (Option Char) := do
  if i = 0 then throw .zeroLookahead
  let stop ← Checked.add s.position i
  return s.chars[stop - 1]?

def consume (s : TextStream) : TextStream :=
  if h : s.position < s.chars.size then
    { s with position := s.position + 1, position_le := h }
  else s

def seek (s : TextStream) (index : Nat) : TextStream :=
  { s with position := min index s.chars.size, position_le := Nat.min_le_right .. }

def slice (s : TextStream) (a b : Nat) : String :=
  String.ofList (s.chars.extract a b).toList

def remaining (s : TextStream) : Nat := s.chars.size - s.position

theorem remaining_consume_lt {s : TextStream} {c : Char} (h : s.peek? = some c) :
    s.consume.remaining < s.remaining := by
  have lt : s.position < s.chars.size := (Array.getElem?_eq_some_iff.mp h).1
  simp only [remaining, consume, dif_pos lt]
  omega

end TextStream

end ModalLexer
