import ModalLexer.Lexer.Drain

/-!
# Sessions

A session is a sequence of commands to one lexer. `Command.perform` is the
only way in which a session changes its lexer, so what holds of it after any
sequence of commands holds of every use of the library.
-/

namespace ModalLexer

inductive Command (ρ : Type) where
  | attach (stream : CharStream)
  | detach
  | reset
  | next
  | nextMany (count : Nat)
  | all
  /-- Asks for so many tokens one by one. -/
  | iterate (count : Nat)
  | split (channel : ChannelId)
  | join (separator : String)
  | notify (error : RecognitionError)
  | recover (error : RecognitionError)
  | listen (kind : ListenerKind)
  | unlisten
  /-- Acts on the state as a rule can. -/
  | act (action : Action)
  | setLine (line : Nat)
  | setColumn (column : Nat)
  | setOptions (options : Options)
  /-- Changes settings of the recognizer. -/
  | adjust (change : ρ → ρ)

inductive Reply where
  | done
  | stream (previous : Option CharStream)
  | failure (error : LexerError)
  | token (result : Except LexerError Token)
  | results (results : List (Except LexerError Token))
  | tokens (result : Except LexerError (List Token))
  | items (items : List (Option Token))
  | split (kept others : List Token)
  | text (text : String)
  | listener (number : Nat)

variable {ρ : Type} [Recognizer ρ]

def Lexer.nextTokens : (n : Nat) → Lexer ρ → Run (Lexer ρ × List (Except LexerError Token))
  | 0, lx => return (lx, [])
  | n + 1, lx => do
    let (lx, result) ← lx.nextToken
    (fun (lx, rest) => (lx, result :: rest)) <$> nextTokens n lx

def Command.perform (c : Command ρ) (lx : Lexer ρ) : Run (Lexer ρ × Reply) :=
  match c with
  | attach stream => return (← lx.attachCounted stream, .stream lx.stream?)
  | detach => return (lx.detach, .stream lx.stream?)
  | reset =>
    match lx.reset with
    | .ok lx => return (lx, .done)
    | .error e => return (lx, .failure e)
  | next => do
    let (lx, result) ← lx.nextToken
    return (lx, .token result)
  | nextMany count => do
    let (lx, results) ← lx.nextTokens count
    return (lx, .results results)
  | all => do
    let (lx, result) ← lx.allTokens
    return (lx, .tokens result)
  | iterate count => do
    let (items, s) ← lx.tokens.take count
    return (s.lexer, .items items)
  | split channel => do
    let (kept, s) ← (lx.tokens.onChannel channel).toList
    return (s.tokens.lexer, .split kept s.others.toList)
  | join separator => do
    let (tokens, s) ← lx.tokens.toList
    return (s.lexer, .text (Token.renderAll separator tokens))
  | notify e => return (← lx.notify e, .done)
  | recover e => return (← lx.recover e, .done)
  | listen kind =>
    let (number, listeners) := lx.listeners.add kind
    return ({ lx with listeners }, .listener number)
  | unlisten => return ({ lx with listeners := lx.listeners.clear }, .done)
  | act a => do
    let (lx, failure) ← lx.act a
    return (lx, match failure with
      | none => .done
      | some e => .failure e)
  | setLine line => return (lx.setCaret { lx.caret with line }, .done)
  | setColumn column => return (lx.setCaret { lx.caret with column }, .done)
  | setOptions options => return ({ lx with options }, .done)
  | adjust change => return ({ lx with recognizer := change lx.recognizer }, .done)

def Command.performAll : List (Command ρ) → Lexer ρ → Run (Lexer ρ × List Reply)
  | [], lx => return (lx, [])
  | c :: cs, lx => do
    let (lx, reply) ← c.perform lx
    (fun (lx, replies) => (lx, reply :: replies)) <$> performAll cs lx

end ModalLexer
