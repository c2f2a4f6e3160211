import ModalLexer.Automaton
import ModalLexer.Recognizer

/-!
# The table-driven recognizer

A match is the longest walk through the automaton of the mode. If it ends in
a state with a terminal, that is the match; if there was nothing to walk on,
the match is the end of the stream; anything else fails.
-/

namespace ModalLexer

/-- An automaton with a position in the text. -/
structure TableRecognizer where
  automaton : Automaton
  tab : TabWidth := default
  caret : Caret := {}
  /-- Index at which the last match began. -/
  matchStart : Nat := 0
  deriving Inhabited

namespace TableRecognizer

def consume (r : TableRecognizer) (stream : CharStream) :
    Except Fault (TableRecognizer × CharStream) :=
  match stream.peek with
  | (none, stream) => .ok (r, stream)
  | (some c, stream) => do
    let caret ← r.caret.pass r.tab c
    return ({ r with caret }, stream.consume)

/-- Passes characters that are not taken from a stream. -/
def passText (r : TableRecognizer) (text : String) : Except Fault TableRecognizer := do
  return { r with caret := ← r.caret.passAll r.tab text.toList }

/-- Sets the distance of the tab stops; zero means one. -/
def setTabWidth (r : TableRecognizer) (width : UInt8) : TableRecognizer :=
  { r with tab := .ofByte width }

/-- The recognizer at the beginning of a text. The tab width is a setting and
stays. -/
def reset (r : TableRecognizer) : TableRecognizer :=
  { r with caret := {}, matchStart := 0 }

/-- Site of a match that began in `r` at index `start` and got stuck where the
walk ended. -/
def errorSite (r : TableRecognizer) (mode : ModeId) (start : Nat) (w : Automaton.Walk) :
    ErrorSite where
  index := start
  line := r.caret.line
  column := r.caret.column
  char? := w.char?
  mode
  text := w.stream.slice start w.stream.index

def scan (r : TableRecognizer) (stream : CharStream) (mode : ModeId) :
    Run (Scan TableRecognizer) :=
  match r.automaton.startStates[mode]? with
  | none => return { recognizer := r, stream, outcome := .error (.unknownMode mode) }
  | some start => do
    let w ← r.automaton.walk r.tab start r.caret stream
    let after := { r with caret := w.caret, matchStart := stream.index }
    match r.automaton.terminal? w.state with
    | some terminal => do
      Run.emit [.accepted mode w.state terminal]
      return {
        recognizer := after
        stream := w.stream
        actions := terminal.actions
        outcome := .ok (.matched terminal.action.tokenType) }
    | none =>
      if w.char? = none ∧ w.stream.index = stream.index then
        return {
          recognizer := after
          stream := w.stream
          outcome := .ok (.matched (.type eofType)) }
      else
        return {
          recognizer := after
          stream := w.stream
          outcome := .ok (.noRule (r.errorSite mode stream.index w)) }

instance : Recognizer TableRecognizer where
  scan r stream mode _ := r.scan stream mode
  consume := consume
  caret := caret
  setCaret r caret := { r with caret }
  matchText r stream := stream.slice r.matchStart stream.index
  reset := reset

end TableRecognizer

end ModalLexer
