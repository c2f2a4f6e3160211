import ModalLexer.Stream.Decoder
import ModalLexer.Fault

/-!
# Streams over a byte source

The characters come from a decoder as they are asked for, and only those are
kept that may be needed again: as long as a marker is outstanding, everything
from the current position at the time it was given out, and otherwise nothing
that lies behind the current position. The two invariants of the structure
say this: the position lies within the buffer, and at its very beginning when
no marker is outstanding.
-/

namespace ModalLexer

/-- A byte source with the characters kept from it. -/
structure Reader where
  decoder : Decoder
  buffer : Array Char := #[]
  /-- Stream index of the first character kept. -/
  bufferStart : Nat := 0
  offset : Nat := 0
  markers : Nat := 0
  name : String := unknownSourceName
  offset_le : offset ≤ buffer.size := by exact Nat.zero_le _
  offset_eq_zero : markers = 0 → offset = 0 := by exact fun _ => rfl

namespace Reader

/-- A stream at the beginning of a byte source. -/
def ofSource (source : ByteSource) (name : String) : Reader where
  decoder := { source }
  name := name

def index (r : Reader) : Nat := r.bufferStart + r.offset

/-- Stream index behind the last character kept. -/
def bufferStop (r : Reader) : Nat := r.bufferStart + r.buffer.size

/-! ## Reading ahead -/

/-- Takes a character from the decoder into the buffer. -/
def append (r : Reader) (c : Char) (decoder : Decoder) : Reader :=
  { r with
    decoder
    buffer := r.buffer.push c
    offset_le := by have := r.offset_le; simp only [Array.size_push]; omega }

/-- Takes up to `n` more characters into the buffer. -/
def readMore : Nat → Reader → Reader
  | 0, r => r
  | n + 1, r =>
    match r.decoder.next with
    | (some c, decoder) => readMore n (r.append c decoder)
    | (none, decoder) => { r with decoder }

/-- Has `n` characters from the current position on in the buffer, or all
there are. -/
def fill (r : Reader) (n : Nat) : Reader :=
  r.readMore (r.offset + n - r.buffer.size)

def peek (r : Reader) : Option Char × Reader :=
  let r := r.fill 1
  (r.buffer[r.offset]?, r)

def lookahead (r : Reader) (i : Nat) : Except Fault (Option Char × Reader) := do
  if i = 0 then throw .zeroLookahead
  let stop ← Checked.add r.offset i
  let r := r.fill i
  return (r.buffer[stop - 1]?, r)

/-! ## Moving -/

/-- Moves to a position within the buffer with so many markers outstanding,
and drops what lies behind the position if there are none. -/
def place (r : Reader) (markers position : Nat) (h : position ≤ r.buffer.size) : Reader :=
  if hm : markers = 0 then
    { r with
      buffer := r.buffer.extract position
      bufferStart := r.bufferStart + position
      offset := 0
      markers
      offset_le := Nat.zero_le _
      offset_eq_zero := fun _ => rfl }
  else
    { r with
      offset := position
      markers
      offset_le := h
      offset_eq_zero := fun h => absurd h hm }

def consume (r : Reader) : Reader :=
  let r := r.fill 1
  if h : r.offset < r.buffer.size then r.place r.markers (r.offset + 1) h else r

/-- Moves past up to `n` characters, as many as there are. -/
def advance : Nat → Reader → Reader
  | 0, r => r
  | n + 1, r =>
    match r.peek with
    | (some _, r) => advance n r.consume
    | (none, r) => r

/-- Moves to an index, or to the end if there is no such index. Characters
that have been dropped cannot be gone back to. -/
def seek (r : Reader) (index : Nat) : Except StreamError Reader :=
  if index < r.bufferStart then .error (.seekOutOfBuffer index r.bufferStart)
  else if h : index ≤ r.bufferStop then
    .ok (r.place r.markers (index - r.bufferStart) (by unfold bufferStop at h; omega))
  else .ok (r.advance (index - r.index))

/-! ## Keeping characters -/

/-- Has the characters from the current position on kept, and gives out the
marker to end that with. -/
def mark (r : Reader) : Nat × Reader :=
  (r.markers + 1, { r with
    markers := r.markers + 1
    offset_eq_zero := fun h => absurd h (Nat.succ_ne_zero _) })

/-- Takes a marker back. It has to be the last one of those outstanding. -/
def release (r : Reader) (marker : Nat) : Option Reader :=
  if marker ≠ r.markers ∨ r.markers = 0 then none
  else some (r.place (r.markers - 1) r.offset r.offset_le)

/-- The characters from `a` up to but not including `b`, as far as they are
kept. -/
def slice (r : Reader) (a b : Nat) : String :=
  String.ofList (r.buffer.extract (a - r.bufferStart) (b - r.bufferStart)).toList

/-! ## What is left -/

/-- Bound on the number of characters left. -/
def remaining (r : Reader) : Nat :=
  r.buffer.size - r.offset + r.decoder.source.size

theorem remaining_readMore_le : ∀ (n : Nat) (r : Reader),
    (r.readMore n).remaining ≤ r.remaining
  | 0, _ => Nat.le_refl _
  | n + 1, r => by
      unfold readMore
      split
      · rename_i c decoder h
        have lt := Decoder.size_next_lt h
        have ih := remaining_readMore_le n (r.append c decoder)
        have bound := r.offset_le
        simp only [remaining, append, Array.size_push] at ih ⊢
        omega
      · rename_i decoder h
        have le := Decoder.size_next_le r.decoder
        rw [h] at le
        simp only [remaining] at le ⊢
        omega

theorem fill_eq_self {r : Reader} {n : Nat} (h : r.offset + n ≤ r.buffer.size) :
    r.fill n = r := by
  unfold fill
  rw [Nat.sub_eq_zero_of_le h]
  rfl

theorem remaining_place {r : Reader} {markers p : Nat} (h : p ≤ r.buffer.size) :
    (r.place markers p h).remaining = r.buffer.size - p + r.decoder.source.size := by
  unfold place
  split <;> simp [remaining]

theorem consume_of_lt {r : Reader} (h : r.offset < r.buffer.size) :
    r.consume = r.place r.markers (r.offset + 1) h := by
  have same : r.fill 1 = r := fill_eq_self h
  unfold consume
  simp only [same, dif_pos h]

theorem remaining_consume_lt {r r' : Reader} {c : Char} (h : r.peek = (some c, r')) :
    r'.consume.remaining < r.remaining := by
  simp only [peek, Prod.mk.injEq] at h
  obtain ⟨hc, rfl⟩ := h
  have lt := (Array.getElem?_eq_some_iff.mp hc).1
  have le := remaining_readMore_le (r.offset + 1 - r.buffer.size) r
  change (r.fill 1).remaining ≤ _ at le
  rw [consume_of_lt lt, remaining_place]
  simp only [remaining] at le ⊢
  omega

end Reader

end ModalLexer
