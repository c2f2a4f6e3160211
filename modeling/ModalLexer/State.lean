import ModalLexer.Caret
import ModalLexer.Run

/-!
# The state that rules act on

A rule of the grammar does more than match: it can change the mode, put the
token on another channel, replace its text, or decide that there is no token.
All of these are actions on a `State`, and an action can fail in one way
only, by leaving a mode that was not entered from another.
-/

namespace ModalLexer

/-! ## The token in progress -/

structure Start where
  index : Nat
  caret : Caret
  deriving DecidableEq, Repr, Inhabited

/-- A token being put together. -/
structure Candidate where
  /-- What the current match is decided to be, as far as it is. -/
  type? : Option TokenType := none
  channel : ChannelId := defaultChannel
  /-- None before the first token begins. -/
  start? : Option Start := none
  /-- Text to be used instead of the characters covered. -/
  text? : Option String := none
  deriving DecidableEq, Repr, Inhabited

/-- State of a lexer apart from its stream and its recognizer. -/
structure State where
  mode : ModeId := defaultMode
  modeStack : List ModeId := []
  candidate : Candidate := {}
  /-- The end of the stream has been seen, and only sentinels can follow. -/
  eofSeen : Bool := false
  /-- Token given out by the current call, or meant for it. -/
  token? : Option Token := none
  /-- Last token given out, after which the sentinel is placed. -/
  lastToken? : Option Token := none
  deriving DecidableEq, Repr, Inhabited

/-! ## Actions -/

/-- What a rule, or the user of a lexer, can do to its state. -/
inductive Action where
  | skip
  | more
  | setType (type : TokenType)
  | setChannel (channel : ChannelId)
  | setText (text : String)
  | setMode (mode : ModeId)
  | pushMode (mode : ModeId)
  | popMode
  /-- Gives the token to be used instead of one made from the candidate. -/
  | emit (token : Token)
  deriving DecidableEq, Repr, Inhabited

namespace State

def setType (s : State) (type : TokenType) : State :=
  { s with candidate := { s.candidate with type? := some type } }

def setChannel (s : State) (channel : ChannelId) : State :=
  { s with candidate := { s.candidate with channel } }

def setText (s : State) (text : String) : State :=
  { s with candidate := { s.candidate with text? := some text } }

/-- Replaces the mode. Whether there is such a mode shows at the next match. -/
def setMode (s : State) (mode : ModeId) : State := { s with mode }

def pushMode (s : State) (mode : ModeId) : State :=
  { s with mode, modeStack := s.mode :: s.modeStack }

/-- Returns to the mode from which the present one was entered. -/
def popMode (s : State) : Except LexerError State :=
  match s.modeStack with
  | [] => .error (.emptyModeStack s.mode)
  | mode :: rest => .ok { s with mode, modeStack := rest }

def emit (s : State) (token : Token) : State := { s with token? := some token }

/-- The candidate begins at `start`, with nothing decided. -/
def begin (s : State) (start : Start) : State :=
  { s with token? := none, candidate := { start? := some start } }

def act (s : State) : Action → Except LexerError State
  | .skip => .ok (s.setType .skip)
  | .more => .ok (s.setType .more)
  | .setType type => .ok (s.setType type)
  | .setChannel channel => .ok (s.setChannel channel)
  | .setText text => .ok (s.setText text)
  | .setMode mode => .ok (s.setMode mode)
  | .pushMode mode => .ok (s.pushMode mode)
  | .popMode => s.popMode
  | .emit token => .ok (s.emit token)

/-- The state after some actions, or the failure of the first that fails. -/
def actAll (s : State) (acts : List Action) : Except LexerError State := acts.foldlM act s

/-- What an action leaves in the log: the changes of mode that can be undone
and their undoing. -/
def actEvents (s : State) : Action → List Event
  | .pushMode mode => [.modePushed mode s.mode]
  | .popMode =>
    match s.modeStack with
    | [] => []
    | mode :: _ => [.modePopped mode]
  | _ => []

/-- The actions in order, up to the first that fails. The state returned is
that after the last one that did not. -/
def perform (s : State) : List Action → Run (State × Option LexerError)
  | [] => pure (s, none)
  | a :: rest => do
    Run.emit (s.actEvents a)
    match s.act a with
    | .ok s => s.perform rest
    | .error e => return (s, some e)

@[simp] theorem perform_nil (s : State) : s.perform [] = pure (s, none) := rfl

theorem outcome_perform : ∀ (acts : List Action) (s : State),
    ∃ r, (s.perform acts).outcome = .ok r
  | [], s => ⟨_, rfl⟩
  | a :: rest, s => by
      unfold perform
      rw [Run.bind_of_ok (Run.outcome_emit _)]
      split
      · exact outcome_perform rest _
      · exact ⟨_, rfl⟩

theorem outcome_perform_of_actAll_eq_ok {acts : List Action} {s t : State}
    (h : s.actAll acts = .ok t) : (s.perform acts).outcome = .ok (t, none) := by
  induction acts generalizing s with
  | nil => cases h; rfl
  | cons a rest ih =>
    unfold perform
    rw [Run.bind_of_ok (Run.outcome_emit _)]
    cases ha : s.act a with
    | ok u =>
      rw [actAll, List.foldlM_cons, ha] at h
      exact ih h
    | error e =>
      rw [actAll, List.foldlM_cons, ha] at h
      cases h

end State

end ModalLexer
