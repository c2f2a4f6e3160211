import ModalLexer.Lexer

/-!
# Draining a lexer

Three ways of taking all tokens up to the sentinel: at once, one by one, and
one by one with the tokens of other channels set aside. The first returns an
error, the others end at it and leave it to be found in the lexer.
-/

namespace ModalLexer

variable {ρ : Type} [Recognizer ρ]

def Lexer.stepLimit (lx : Lexer ρ) : Nat :=
  match lx.stream? with
  | none => 1
  | some stream => stream.stepLimit

/-! ## All at once -/

namespace Lexer

/-- The tokens before the sentinel, of which there may be fewer than
`limit`. -/
def takeTokens : (limit : Nat) → Lexer ρ → Run (Lexer ρ × Except LexerError (List Token))
  | 0, _ => Run.fail .stepLimit
  | limit + 1, lx => do
    let (lx, result) ← lx.nextToken
    match result with
    | .error e => return (lx, .error e)
    | .ok t =>
      if t.isEof then return (lx, .ok [])
      else (fun (lx, rest) => (lx, rest.map (t :: ·))) <$> takeTokens limit lx

def allTokens (lx : Lexer ρ) : Run (Lexer ρ × Except LexerError (List Token)) :=
  lx.takeTokens lx.stepLimit

end Lexer

/-! ## One by one -/

/-- A lexer giving out its tokens until the first end of them. -/
structure TokenStream (ρ : Type) where
  lexer : Lexer ρ
  /-- The sentinel or an error has come, and nothing can follow. -/
  done : Bool := false

namespace TokenStream

def next (s : TokenStream ρ) : Run (Option Token × TokenStream ρ) :=
  if s.done then return (none, s)
  else do
    let (lexer, result) ← s.lexer.nextToken
    match result with
    | .ok t => if t.isEof then return (none, ⟨lexer, true⟩) else return (some t, ⟨lexer, false⟩)
    | .error _ => return (none, ⟨lexer, true⟩)

def take : (n : Nat) → TokenStream ρ → Run (List (Option Token) × TokenStream ρ)
  | 0, s => return ([], s)
  | n + 1, s => do
    let (t?, s) ← s.next
    (fun (rest, s) => (t? :: rest, s)) <$> take n s

/-- The tokens that are left, of which there may be fewer than `limit`. -/
def takeAll : (limit : Nat) → TokenStream ρ → Run (List Token × TokenStream ρ)
  | 0, _ => Run.fail .stepLimit
  | limit + 1, s => do
    match ← s.next with
    | (none, s) => return ([], s)
    | (some t, s) => (fun (rest, s) => (t :: rest, s)) <$> takeAll limit s

def toList (s : TokenStream ρ) : Run (List Token × TokenStream ρ) :=
  s.takeAll s.lexer.stepLimit

end TokenStream

def Lexer.tokens (lx : Lexer ρ) : TokenStream ρ where
  lexer := lx

/-! ## By channel -/

/-- A lexer giving out its tokens of one channel, with the others set aside
on the way. -/
structure ChannelStream (ρ : Type) where
  tokens : TokenStream ρ
  channel : ChannelId
  /-- Tokens of other channels, in order. -/
  others : Array Token := #[]

namespace ChannelStream

/-- The next token of the channel, fewer than `limit` tokens away. -/
def seek : (limit : Nat) → ChannelStream ρ → Run (Option Token × ChannelStream ρ)
  | 0, _ => Run.fail .stepLimit
  | limit + 1, s => do
    match ← s.tokens.next with
    | (none, tokens) => return (none, { s with tokens })
    | (some t, tokens) =>
      if t.channel = s.channel then return (some t, { s with tokens })
      else seek limit { s with tokens, others := s.others.push t }

def next (s : ChannelStream ρ) : Run (Option Token × ChannelStream ρ) :=
  s.seek s.tokens.lexer.stepLimit

/-- The tokens of the channel that are left, of which there may be fewer than
`limit`, each fewer than `seekLimit` tokens away. -/
def takeAll (seekLimit : Nat) :
    (limit : Nat) → ChannelStream ρ → Run (List Token × ChannelStream ρ)
  | 0, _ => Run.fail .stepLimit
  | limit + 1, s => do
    match ← s.seek seekLimit with
    | (none, s) => return ([], s)
    | (some t, s) => (fun (rest, s) => (t :: rest, s)) <$> takeAll seekLimit limit s

def toList (s : ChannelStream ρ) : Run (List Token × ChannelStream ρ) :=
  s.takeAll s.tokens.lexer.stepLimit s.tokens.lexer.stepLimit

end ChannelStream

def TokenStream.onChannel (s : TokenStream ρ) (channel : ChannelId) : ChannelStream ρ where
  tokens := s
  channel

end ModalLexer
