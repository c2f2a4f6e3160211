import ModalLexer.Run
import ModalLexer.Stream.Reader
import ModalLexer.Stream.Text

/-!
# Character streams

What a lexer reads from: a text held in memory, or a byte source of which
only the characters still needed are kept. Both answer the same questions. A
character has the index at which it stands from the beginning, and `peek`
shows the one at the current index.

Asking can make a stream read ahead, so the operations that look at the next
character return the stream as well.
-/

namespace ModalLexer

/-- A stream of characters with a current index. -/
inductive CharStream where
  | text (s : TextStream)
  | reader (r : Reader)

/-- Receipt for characters to be kept, to be given back in the reverse order
of handing out. -/
structure Marker where
  depth : Nat
  deriving DecidableEq, Repr, Inhabited

namespace CharStream

instance : Inhabited CharStream := ⟨.text default⟩

def ofString (text : String) (name : String := unknownSourceName) : CharStream :=
  .text (.ofString text name)

def ofSource (source : ByteSource) (name : String := unknownSourceName) : CharStream :=
  .reader (.ofSource source name)

def name : CharStream → String
  | text s => s.name
  | reader r => r.name

def index : CharStream → Nat
  | text s => s.position
  | reader r => r.index

/-- Number of characters of the whole stream, if it is known. -/
def size? : CharStream → Option Nat
  | text s => some s.chars.size
  | reader _ => none

/-- The next character, none at the end. -/
def peek : CharStream → Option Char × CharStream
  | text s => (s.peek?, text s)
  | reader r => let (c, r) := r.peek; (c, reader r)

/-- The character at distance `i`, the next one being at distance one. -/
def lookahead : CharStream → Nat → Except Fault (Option Char × CharStream)
  | text s, i => return (← s.lookahead i, text s)
  | reader r, i => do let (c, r) ← r.lookahead i; return (c, reader r)

/-- Moves past the next character; at the end there is none to pass. -/
def consume : CharStream → CharStream
  | text s => text s.consume
  | reader r => reader r.consume

/-- Has the characters from the current index on kept until the marker is
given back. A text keeps all of its characters anyway. -/
def mark : CharStream → Marker × CharStream
  | text s => (⟨0⟩, text s)
  | reader r => let (depth, r) := r.mark; (⟨depth⟩, reader r)

/-- Takes a marker back. One that is not the last of those outstanding is
refused, with a record in the log. -/
def release (s : CharStream) (marker : Marker) : Run CharStream :=
  match s with
  | text s => pure (text s)
  | reader r =>
    match r.release marker.depth with
    | some r => pure (reader r)
    | none => do
      Run.emit [.markerRejected marker.depth r.markers]
      return reader r

/-- Moves to an index, or to the end if there is no such index. -/
def seek : CharStream → Nat → Except StreamError CharStream
  | text s, i => .ok (text (s.seek i))
  | reader r, i => (r.seek i).map reader

/-- The characters from `a` up to but not including `b`, as far as they are
available. -/
def slice : CharStream → Nat → Nat → String
  | text s, a, b => s.slice a b
  | reader r, a, b => r.slice a b

/-! ## What is left -/

/-- Bound on the number of characters left. -/
def remaining : CharStream → Nat
  | text s => s.remaining
  | reader r => r.remaining

theorem remaining_consume_lt {s s' : CharStream} {c : Char} (h : s.peek = (some c, s')) :
    s'.consume.remaining < s.remaining := by
  cases s with
  | text s =>
    simp only [peek, Prod.mk.injEq] at h
    obtain ⟨hc, rfl⟩ := h
    exact TextStream.remaining_consume_lt hc
  | reader r =>
    simp only [peek, Prod.mk.injEq] at h
    obtain ⟨hc, rfl⟩ := h
    exact Reader.remaining_consume_lt (Prod.ext hc rfl)

/-- Limit for loops that go over the stream. It leaves room for two to the
power of 64 rounds that do not move on. -/
def stepLimit (s : CharStream) : Nat := s.remaining + 0x10000000000000000

/-- Consumes all characters that are left and returns them. -/
def drain (s : CharStream) : List Char × CharStream :=
  match _h : s.peek with
  | (some c, s') =>
    let (rest, last) := drain s'.consume
    (c :: rest, last)
  | (none, s') => ([], s')
termination_by s.remaining
decreasing_by exact remaining_consume_lt (by assumption)

end CharStream

end ModalLexer
