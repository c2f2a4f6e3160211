import ModalLexer.Lexer.Production

/-!
# The lexer

A lexer has a recognizer from the start and a stream as long as one is
attached. Text that the recognizer does not accept is reported to the
listeners and skipped; it never ends the lexing. What does end a call is an
error of the grammar or of the user, which is also remembered until the next
call.
-/

namespace ModalLexer

structure Options where
  /-- A character dropped on the user's request moves the caret along, or
  else is taken from the stream behind the recognizer's back. -/
  recoverTracksPosition : Bool := true
  deriving DecidableEq, Repr, Inhabited

structure Lexer (ρ : Type) where
  recognizer : ρ
  stream? : Option CharStream := none
  source : Source := {}
  /-- Number of streams attached so far. -/
  attachments : Nat := 0
  state : State := {}
  options : Options := {}
  /-- Error of the last call, if it ended with one. -/
  error? : Option LexerError := none
  listeners : Dispatch := .withConsole

namespace Lexer

variable {ρ : Type} [Recognizer ρ]

/-! ## Streams -/

/-- The lexer with its stream put back, or without one. -/
def restart (lx : Lexer ρ) (stream? : Option CharStream) : Lexer ρ :=
  { lx with
    stream?
    state := {}
    recognizer := Recognizer.reset lx.recognizer
    error? := none }

/-- Attaches a stream, as a source of its own, and starts again. The source is
the next in number, see `attachCounted`. -/
def attach (lx : Lexer ρ) (stream : CharStream) : Lexer ρ :=
  let number := lx.attachments + 1
  { lx.restart (some stream) with
    source := { name := stream.name, attachment := number }
    attachments := number }

/-- Attaches a stream if the number of streams stays in its range. -/
def attachCounted (lx : Lexer ρ) (stream : CharStream) : Except Fault (Lexer ρ) :=
  (fun _ => lx.attach stream) <$> Checked.addWord lx.attachments 1

theorem attachCounted_eq_ok {lx lx' : Lexer ρ} {stream : CharStream} :
    lx.attachCounted stream = .ok lx' ↔
      lx.attachments + 1 < Checked.wordLimit ∧ lx' = lx.attach stream := by
  unfold attachCounted Checked.addWord
  split
  · rename_i h
    exact ⟨fun heq => ⟨h, (Except.ok.inj heq).symm⟩, fun heq => congrArg Except.ok heq.2.symm⟩
  · rename_i h
    exact ⟨nofun, fun heq => absurd heq.1 h⟩

def detach (lx : Lexer ρ) : Lexer ρ := { lx with stream? := none }

/-- Goes back to the beginning of the stream and starts again. If the stream
cannot go back, nothing changes. -/
def reset (lx : Lexer ρ) : Except LexerError (Lexer ρ) :=
  match lx.stream? with
  | none => .ok (lx.restart none)
  | some stream =>
    match stream.seek 0 with
    | .ok stream => .ok (lx.restart (some stream))
    | .error cause => .error (.stream cause)

def head (lx : Lexer ρ) (stream : CharStream) : Head ρ where
  stream
  recognizer := lx.recognizer
  state := lx.state

def withHead (lx : Lexer ρ) (h : Head ρ) : Lexer ρ :=
  { lx with stream? := some h.stream, recognizer := h.recognizer, state := h.state }

def reporter (lx : Lexer ρ) : Reporter where
  source := lx.source
  listeners := lx.listeners

/-! ## Tokens -/

/-- The lexer with the outcome of a call remembered. -/
def remember {α : Type} (lx : Lexer ρ) (result : Except LexerError α) :
    Lexer ρ × Except LexerError α :=
  match result with
  | .ok _ => ({ lx with error? := none }, result)
  | .error e => ({ lx with error? := some e }, result)

/-- Produces the next token. The characters of the token stay available in
the stream until it is complete. -/
def nextToken (lx : Lexer ρ) : Run (Lexer ρ × Except LexerError Token) :=
  match lx.stream? with
  | none => return lx.remember (.error .noStreamAttached)
  | some stream => do
    let (marker, stream) := stream.mark
    let limit := stream.stepLimit
    let (h, result) ← (lx.head stream).produce lx.reporter limit limit
    let stream ← h.stream.release marker
    return (lx.withHead { h with stream }).remember result

/-! ## Errors in the text -/

def notify (lx : Lexer ρ) (e : RecognitionError) : Run (Lexer ρ) :=
  match lx.stream? with
  | none => return lx
  | some stream => do
    let h ← (lx.head stream).report lx.reporter e
    return lx.withHead h

/-- Leaves an error behind by dropping a character. -/
def recover (lx : Lexer ρ) (e : RecognitionError) : Run (Lexer ρ) :=
  match lx.stream? with
  | none => return lx
  | some stream => do
    Run.emit [.recovering e]
    if lx.options.recoverTracksPosition then
      match (lx.head stream).peek with
      | (none, h) => return lx.withHead h
      | (some _, h) => do
        let h ← h.consume
        return lx.withHead h
    else return { lx with stream? := some stream.consume }

/-! ## What the user sees and sets -/

def index (lx : Lexer ρ) : Nat :=
  match lx.stream? with
  | none => 0
  | some stream => stream.index

def caret (lx : Lexer ρ) : Caret := Recognizer.caret lx.recognizer

def setCaret (lx : Lexer ρ) (caret : Caret) : Lexer ρ :=
  { lx with recognizer := Recognizer.setCaret lx.recognizer caret }

/-- Text of the current match, or the one put in its place. -/
def text (lx : Lexer ρ) : String :=
  match lx.state.candidate.text?, lx.stream? with
  | some text, _ => text
  | none, some stream => Recognizer.matchText lx.recognizer stream
  | none, none => ""

def act (lx : Lexer ρ) (a : Action) : Run (Lexer ρ × Option LexerError) := do
  let (state, failure) ← lx.state.perform [a]
  return ({ lx with state }, failure)

/-- The token with the attached stream as its source. -/
def stamp (lx : Lexer ρ) (t : Token) : Token := { t with source := lx.source }

end Lexer

end ModalLexer
