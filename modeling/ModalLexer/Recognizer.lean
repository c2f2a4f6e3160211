import ModalLexer.State
import ModalLexer.Stream

/-!
# Recognizers

A recognizer knows the rules of the grammar. It looks at a stream, says which
rule matches there and how far, and keeps the line and column of the current
character while it moves over the text. The actions of the rule are part of
its answer: they are carried out here, on the state of the lexer, so that
every recognizer treats a failing one alike.
-/

namespace ModalLexer

inductive Finding where
  /-- A rule matches, up to the index to which the stream was moved. -/
  | matched (type : TokenType)
  | noRule (site : ErrorSite)
  deriving DecidableEq, Repr, Inhabited

/-- Answer of a recognizer, with itself and the stream as they are after it.
The actions come before the outcome: if one of them fails, there is none. -/
structure Scan (ρ : Type) where
  recognizer : ρ
  stream : CharStream
  actions : List Action := []
  outcome : Except LexerError Finding

/-- What a lexer asks of its recognizer. -/
class Recognizer (ρ : Type) where
  /-- Matches a rule of the mode at the current index, the state being that
  before its actions. At the end of the stream with nothing consumed, the
  match is one of the reserved type. -/
  scan : ρ → CharStream → ModeId → State → Run (Scan ρ)
  consume : ρ → CharStream → Except Fault (ρ × CharStream)
  caret : ρ → Caret
  setCaret : ρ → Caret → ρ
  /-- Text of the current match, from its beginning to the current index. -/
  matchText : ρ → CharStream → String
  /-- The recognizer as if it had read nothing yet. -/
  reset : ρ → ρ

/-- The part of a lexer that moves: stream, recognizer and state. -/
structure Head (ρ : Type) where
  stream : CharStream
  recognizer : ρ
  state : State

namespace Head

variable {ρ : Type} [Recognizer ρ]

def index (h : Head ρ) : Nat := h.stream.index

def caret (h : Head ρ) : Caret := Recognizer.caret h.recognizer

/-- A token that began now would begin here. -/
def here (h : Head ρ) : Start where
  index := h.index
  caret := h.caret

def matchText (h : Head ρ) : String := Recognizer.matchText h.recognizer h.stream

def peek (h : Head ρ) : Option Char × Head ρ :=
  let (c, stream) := h.stream.peek
  (c, { h with stream })

def consume (h : Head ρ) : Except Fault (Head ρ) := do
  let (recognizer, stream) ← Recognizer.consume h.recognizer h.stream
  return { h with recognizer, stream }

/-- Matches a rule of the mode and carries out its actions. -/
def matchToken (h : Head ρ) (mode : ModeId) :
    Run (Head ρ × Except LexerError Finding) := do
  let scan ← Recognizer.scan h.recognizer h.stream mode h.state
  let (state, failure) ← h.state.perform scan.actions
  let head := { recognizer := scan.recognizer, stream := scan.stream, state }
  match failure with
  | some e => return (head, .error e)
  | none => return (head, scan.outcome)

end Head

end ModalLexer
