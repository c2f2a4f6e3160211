import ModalLexer.Recognizer

/-!
# The scripted recognizer

A recognizer whose rules look at one character and then do as they are told:
consume so many characters, carry out some actions, and match or fail. It can
do anything a recognizer may do, also what tables cannot express, and so
serves to try out a lexer.
-/

namespace ModalLexer

structure ScriptRule where
  /-- The next character to which the rule applies, none for the end. -/
  trigger : Option Char
  eat : Nat := 1
  actions : List Action := []
  /-- The match, or none if the rule fails. -/
  result : Option TokenType
  deriving Repr, Inhabited

structure ScriptRecognizer where
  /-- Rules of each mode; the first that applies is used. -/
  modes : Array (List ScriptRule)
  caret : Caret := {}
  /-- Index at which the last match began. -/
  matchStart : Nat := 0
  deriving Repr, Inhabited

namespace ScriptRecognizer

def consume (r : ScriptRecognizer) (stream : CharStream) :
    Except Fault (ScriptRecognizer × CharStream) :=
  match stream.peek with
  | (none, stream) => .ok (r, stream)
  | (some c, stream) => do
    let caret ← r.caret.passPlain c
    return ({ r with caret }, stream.consume)

/-- Consumes up to `n` characters, as many as there are. -/
def consumeMany : Nat → ScriptRecognizer → CharStream →
    Except Fault (ScriptRecognizer × CharStream)
  | 0, r, stream => .ok (r, stream)
  | n + 1, r, stream =>
    match stream.peek with
    | (none, stream) => .ok (r, stream)
    | (some c, stream) =>
      match r.caret.passPlain c with
      | .ok caret => consumeMany n { r with caret } stream.consume
      | .error fault => .error fault

/-- Follows a rule, the match having begun at index `start` with the caret at
`caret`. A rule that fails is reported with the character after those it
consumed; if one of its actions fails, that is all there is to report, and no
character is asked for. -/
def follow (r : ScriptRecognizer) (stream : CharStream) (mode : ModeId) (state : State)
    (caret : Caret) (start : Nat) (rule : ScriptRule) :
    Except Fault (Scan ScriptRecognizer) := do
  let (recognizer, stream) ← r.consumeMany rule.eat stream
  match rule.result, state.actAll rule.actions with
  | some type, _ =>
    return { recognizer, stream, actions := rule.actions, outcome := .ok (.matched type) }
  | none, .error e =>
    return { recognizer, stream, actions := rule.actions, outcome := .error e }
  | none, .ok _ =>
    let (char?, stream) := stream.peek
    let site := {
      index := start
      line := caret.line
      column := caret.column
      char?
      mode
      text := stream.slice start stream.index }
    return {
      recognizer, stream, actions := rule.actions, outcome := .ok (.noRule site) }

def scan (r : ScriptRecognizer) (stream : CharStream) (mode : ModeId) (state : State) :
    Except Fault (Scan ScriptRecognizer) :=
  match r.modes[mode]? with
  | none => .ok { recognizer := r, stream, outcome := .error (.unknownMode mode) }
  | some rules =>
    let start := stream.index
    let r' := { r with matchStart := start }
    let (char?, stream) := stream.peek
    match rules.find? (·.trigger == char?), char? with
    | some rule, _ => r'.follow stream mode state r.caret start rule
    | none, none =>
      .ok { recognizer := r', stream, outcome := .ok (.matched (.type eofType)) }
    | none, some _ =>
      let site := {
        index := start
        line := r.caret.line
        column := r.caret.column
        char?
        mode }
      .ok { recognizer := r', stream, outcome := .ok (.noRule site) }

instance : Recognizer ScriptRecognizer where
  scan r stream mode state := Run.ofExcept (r.scan stream mode state)
  consume := consume
  caret := caret
  setCaret r caret := { r with caret }
  matchText r stream := stream.slice r.matchStart stream.index
  reset r := { r with caret := {}, matchStart := 0 }

end ScriptRecognizer

end ModalLexer
