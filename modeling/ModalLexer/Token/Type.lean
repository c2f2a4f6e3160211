import ModalLexer.Basic

/-!
# What a match amounts to

A match either completes a token, or is thrown away, or is the first part of
a longer one.
-/

namespace ModalLexer

/-- What the lexer does with the text of a match. -/
inductive TokenType where
  /-- The text is dropped, and the next token begins after it. -/
  | skip
  /-- The text is kept, and the next match continues it. -/
  | more
  /-- The text completes a token of this type. -/
  | type (id : TokenId)
  deriving DecidableEq, Repr, Inhabited

namespace TokenType

def id? : TokenType → Option TokenId
  | type id => some id
  | _ => none

def render : TokenType → String
  | skip => "skip"
  | more => "more"
  | type id => if id = eofType then "EOF" else toString id

end TokenType

end ModalLexer
