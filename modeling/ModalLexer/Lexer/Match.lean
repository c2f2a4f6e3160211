import ModalLexer.Listener
import ModalLexer.Recognizer

/-!
# One match of a candidate

A step asks the recognizer for one match and draws the conclusions: a failed
match is reported and left behind by dropping a character, the end of the
stream is noted, and the match is decided to be a skip, a part of a longer
token, or its end. The rule's own actions have the last word in this
decision.
-/

namespace ModalLexer

/-- Where reports are said to come from, and who hears them. -/
structure Reporter where
  source : Source
  listeners : Dispatch

namespace Head

variable {ρ : Type} [Recognizer ρ]

/-! ## Reporting -/

/-- The part of the text that a message about the current candidate quotes:
from its beginning up to and including the next character. -/
def quote (h : Head ρ) (start : Start) : String × Head ρ :=
  let text := h.stream.slice start.index (h.index + 1)
  if text.isEmpty then
    match h.peek with
    | (none, h) => ("<EOF>", h)
    | (some _, h) => ("", h)
  else (Text.visible text, h)

/-- Reports an error at the beginning of the current candidate, or here if
there is none. -/
def report (h : Head ρ) (reporter : Reporter) (e : RecognitionError) : Run (Head ρ) := do
  let start := h.state.candidate.start?.getD h.here
  let (quoted, h) := h.quote start
  Run.emit (reporter.listeners.deliver {
    source := reporter.source
    line := start.caret.line
    column := start.caret.column
    message := "token recognition error at: '" ++ quoted ++ "'"
    cause := e })
  return h

/-- Drops the character that made a match fail, if there is one. -/
def dropChar (h : Head ρ) (e : RecognitionError) : Run (Head ρ) :=
  match h.peek with
  | (none, h) => pure h
  | (some c, h) => do
    Run.emit [.skipping e c]
    h.consume

/-! ## Matching -/

/-- A match of the reserved type in the middle of a candidate is a failure:
the sentinel stays empty, so the text collected so far has to be reported. -/
def refuseEofText (h : Head ρ) (mode : ModeId) (outcome : Finding) : Finding :=
  match outcome, h.state.candidate.start? with
  | .matched (.type id), some start =>
    if id = eofType ∧ start.index < h.index then
      .noRule {
        index := start.index
        line := start.caret.line
        column := start.caret.column
        char? := none
        mode
        text := h.stream.slice start.index h.index }
    else outcome
  | _, _ => outcome

/-- What the match amounts to. A failed one is reported and skipped. -/
def settle (h : Head ρ) (reporter : Reporter) : Finding → Run (Head ρ × TokenType)
  | .matched type => return (h, type)
  | .noRule site => do
    let h ← h.report reporter (.noRule site)
    let h ← h.dropChar (.noRule site)
    return (h, .skip)

def noteEof (h : Head ρ) : Head ρ :=
  match h.peek with
  | (none, h) => { h with state := { h.state with eofSeen := true } }
  | (some _, h) => h

def conclude (h : Head ρ) (matched : TokenType) : TokenType × Head ρ :=
  let final := h.state.candidate.type?.getD matched
  (final, { h with state := h.state.setType final })

def undecided (h : Head ρ) : Head ρ :=
  { h with state := { h.state with candidate := { h.state.candidate with type? := none } } }

def step (h : Head ρ) (reporter : Reporter) : Run (Head ρ × Except LexerError TokenType) := do
  let mode := h.state.mode
  let (h, found) ← h.undecided.matchToken mode
  match found with
  | .error e => return (h, .error e)
  | .ok outcome =>
    let (h, matched) ← h.settle reporter (h.refuseEofText mode outcome)
    let (final, h) := h.noteEof.conclude matched
    Run.emit [.decided mode matched final h.index]
    return (h, .ok final)

end Head

end ModalLexer
