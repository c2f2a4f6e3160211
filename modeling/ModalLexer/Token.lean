import ModalLexer.Fault
import ModalLexer.Text.Escape
import ModalLexer.Token.Type

/-!
# Tokens

A token is a stretch of a character stream with a type, a channel and the
text it stands for. The text is usually the stretch itself, but a rule of the
grammar may have replaced it; the two indices always tell what was covered.
-/

namespace ModalLexer

/-- The stream a token comes from. -/
structure Source where
  name : String := unknownSourceName
  /-- Sequence number of the attachment, which tells two streams of one name
  apart. -/
  attachment : Nat := 0
  deriving DecidableEq, Repr, Inhabited

/-- A token. The covered characters are those from `start` to `stop`, both
included, so `stop = start - 1` for a token that covers none. -/
structure Token where
  type : TokenId
  channel : ChannelId := defaultChannel
  text : String
  start : Nat
  stop : Int
  line : Nat
  column : Nat
  source : Source
  deriving DecidableEq, Repr, Inhabited

namespace Token

/-- The token is the sentinel that ends a token sequence. -/
def isEof (t : Token) : Bool := t.type == eofType

/-- Number of characters covered, none if `stop` lies before `start`. -/
def length (t : Token) : Except Fault Nat := do
  let next ← Checked.addSigned t.stop 1
  let covered ← Checked.subSigned next (Checked.toSigned t.start)
  return covered.toNat

/-- Text between the quotes of the printed form. -/
def renderText (classes : Text.EscapeClasses) (t : Token) : String :=
  if t.isEof then "<EOF>" else Text.escape classes t.text

/-- Printed form: covered indices, text, type, channel unless it is the
default one, and position. -/
def renderWith (classes : Text.EscapeClasses) (t : Token) : String :=
  "[@" ++ toString t.start ++ ":" ++ toString t.stop
    ++ "='" ++ t.renderText classes
    ++ "',<" ++ (TokenType.type t.type).render ++ ">"
    ++ (if t.channel = defaultChannel then "" else ",channel=" ++ toString t.channel)
    ++ "," ++ toString t.line ++ ":" ++ toString t.column ++ "]"

def render (t : Token) : String := t.renderWith .unicode

/-- The sublist of the tokens on `channel`, and the sublist of the others. -/
def splitChannel (channel : ChannelId) (tokens : List Token) : List Token × List Token :=
  tokens.partition (·.channel == channel)

def keepChannel (channel : ChannelId) (tokens : List Token) : List Token :=
  (splitChannel channel tokens).1

def renderAll (separator : String) (tokens : List Token) : String :=
  separator.intercalate (tokens.map render)

end Token

end ModalLexer
