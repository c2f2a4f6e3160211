import ModalLexer.Lexer.Match

/-!
# Producing a token

Matches are put together to a candidate, and candidates are tried until one
becomes a token. Once the end of the stream has been seen, the sentinel is
all there is; it covers nothing and stands right behind the last token.

Nothing keeps the rules of a grammar from matching nothing for ever, so both
loops take a limit on the number of their rounds. A limit that is reached
ends the run with a fault.
-/

namespace ModalLexer

namespace Head

variable {ρ : Type} [Recognizer ρ]

/-! ## The candidate -/

/-- Matches until the candidate is complete. -/
def assemble (reporter : Reporter) :
    (limit : Nat) → Head ρ → Run (Head ρ × Except LexerError TokenType)
  | 0, _ => Run.fail .stepLimit
  | limit + 1, h => do
    let (h, decision) ← h.step reporter
    match decision with
    | .ok .more => assemble reporter limit h
    | _ => return (h, decision)

/-! ## The token -/

def give (h : Head ρ) (t : Token) : Head ρ :=
  { h with state := { h.state with token? := some t, lastToken? := some t } }

def tokenAt (h : Head ρ) (source : Source) (start : Start) (type : TokenId) : Token where
  type
  channel := h.state.candidate.channel
  text := h.state.candidate.text?.getD (h.stream.slice start.index h.index)
  start := start.index
  stop := (h.index : Int) - 1
  line := start.caret.line
  column := start.caret.column
  source

/-- Column of the sentinel: behind the last token, or here if there is none. -/
def eofColumn (h : Head ρ) : Except Fault Nat :=
  match h.state.lastToken? with
  | none => .ok h.caret.column
  | some t => do Checked.add t.column (← t.length)

def eofToken (h : Head ρ) (source : Source) : Except Fault Token := do
  return {
    type := eofType
    text := ""
    start := h.index
    stop := (h.index : Int) - 1
    line := h.caret.line
    column := ← h.eofColumn
    source }

def giveEof (h : Head ρ) (source : Source) : Except Fault (Head ρ × Token) := do
  let t ← h.eofToken source
  return (h.give t, t)

/-- Gives out the token that has been completed: the one emitted by an action
if there is one, and otherwise one made from the candidate. -/
def complete (h : Head ρ) (source : Source) (start : Start) (type : TokenId) :
    Except Fault (Head ρ × Token) :=
  match h.state.token? with
  | some t => .ok (h.give t, t)
  | none =>
    if type = eofType then h.giveEof source
    else
      let t := h.tokenAt source start type
      .ok (h.give t, t)

/-! ## The loop -/

/-- Tries candidates until one is not skipped. Each of them may take up to
`matchLimit` matches. -/
def produce (reporter : Reporter) (matchLimit : Nat) :
    (limit : Nat) → Head ρ → Run (Head ρ × Except LexerError Token)
  | 0, _ => Run.fail .stepLimit
  | limit + 1, h =>
    if h.state.eofSeen then do
      let (h, t) ← h.giveEof reporter.source
      return (h, .ok t)
    else do
      let start := h.here
      let (h, decision) ←
        assemble reporter matchLimit { h with state := h.state.begin start }
      match decision with
      | .error e => return (h, .error e)
      | .ok (.type type) => do
        let (h, t) ← h.complete reporter.source start type
        return (h, .ok t)
      | .ok _ => produce reporter matchLimit limit h

end Head

end ModalLexer
