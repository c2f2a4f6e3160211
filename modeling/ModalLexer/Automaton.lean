import ModalLexer.Caret
import ModalLexer.CharGroup
import ModalLexer.Automaton.Terminal
import ModalLexer.State
import ModalLexer.Stream

/-!
# The automaton

A deterministic automaton with a start state per mode, given by tables. The
states are numbered so that the accepting ones come last; the table of
transitions has a row per state and a column per group of characters, and a
number that is no state stands for a missing transition.

The automaton is walked as long as there is a transition for the next
character. It does not go back to an accepting state that it has left: what
counts is where the walk ends.
-/

namespace ModalLexer

abbrev StateId := Nat

/-- Tables of an automaton. They come from outside and are not trusted: an
entry that is missing or out of range means that there is no transition, no
terminal or no mode. -/
structure Automaton where
  groupCount : Nat
  /-- Number of the first accepting state. -/
  firstAccepting : StateId
  stateCount : Nat
  groups : CharGroups
  /-- Rows of the states, one after the other. -/
  transitions : Array StateId
  terminals : Array Terminal
  startStates : Array StateId
  deriving Inhabited

namespace Automaton

/-- Column of a character, if it has one. -/
def column? (a : Automaton) (c : Char) : Option GroupId :=
  (a.groups.group? c).filter (· < a.groupCount)

/-- State to which a character leads, if it leads to any. -/
def next? (a : Automaton) (state : StateId) (c : Char) : Except Fault (Option StateId) :=
  match a.column? c with
  | none => .ok none
  | some column => do
    let row ← Checked.mul a.groupCount state
    let cell ← Checked.add row column
    return a.transitions[cell]?.filter (· < a.stateCount)

/-- Instructions of a state, if it accepts. -/
def terminal? (a : Automaton) (state : StateId) : Option Terminal :=
  if a.firstAccepting ≤ state ∧ state < a.stateCount then
    a.terminals[state - a.firstAccepting]?
  else none

/-- Where a walk has ended. -/
structure Walk where
  stream : CharStream
  caret : Caret
  state : StateId
  /-- The character without a transition, none at the end of the stream. -/
  char? : Option Char

/-- Follows the transitions from a state as long as there is one. -/
def walk (a : Automaton) (tab : TabWidth) (state : StateId) (caret : Caret)
    (stream : CharStream) : Except Fault Walk :=
  match _h : stream.peek with
  | (none, ahead) => .ok { stream := ahead, caret, state, char? := none }
  | (some c, ahead) =>
    match a.next? state c with
    | .error fault => .error fault
    | .ok none => .ok { stream := ahead, caret, state, char? := some c }
    | .ok (some next) =>
      match caret.pass tab c with
      | .error fault => .error fault
      | .ok caret => a.walk tab next caret ahead.consume
termination_by stream.remaining
decreasing_by exact CharStream.remaining_consume_lt (by assumption)

end Automaton

/-- Actions of a terminal besides the decision about the match: leave the
mode, change it, choose the channel. -/
def Terminal.actions (t : Terminal) : List Action :=
  (if t.pop then [.popMode] else [])
    ++ (match t.change with
      | .stay => []
      | .switch mode => [.setMode mode]
      | .push mode => [.pushMode mode])
    ++ (if t.channel = defaultChannel then [] else [.setChannel t.channel])

end ModalLexer
