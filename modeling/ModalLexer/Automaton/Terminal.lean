import ModalLexer.Token.Type

/-!
# Terminals

The instructions attached to an accepting state of the automaton: what
becomes of the text that led there, on which channel, and how the mode
changes.
-/

namespace ModalLexer

inductive TerminalAction where
  | skip
  | token (id : TokenId)
  | more
  deriving DecidableEq, Repr, Inhabited

namespace TerminalAction

/-- The token completed by the match, if one is. -/
def id? : TerminalAction → Option TokenId
  | token id => some id
  | _ => none

/-- The same decision as a lexer takes it. -/
def tokenType : TerminalAction → TokenType
  | skip => .skip
  | token id => .type id
  | more => .more

def render : TerminalAction → String
  | skip => "skip"
  | token id => "end:" ++ toString id
  | more => "more"

end TerminalAction

/-- How the mode changes after a match. -/
inductive ModeChange where
  | stay
  | switch (mode : ModeId)
  /-- The mode is entered from the present one, to return to it later. -/
  | push (mode : ModeId)
  deriving DecidableEq, Repr, Inhabited

/-- Instructions of an accepting state. Leaving the mode comes first, so that
one rule can leave a mode and enter another. -/
structure Terminal where
  action : TerminalAction := .skip
  channel : ChannelId := defaultChannel
  change : ModeChange := .stay
  pop : Bool := false
  deriving DecidableEq, Repr, Inhabited

namespace Terminal

/-- The match is dropped and leaves the mode as it was. -/
def isOnlySkip (t : Terminal) : Bool :=
  t.action == .skip && t.change == .stay && !t.pop

def render (t : Terminal) : String :=
  let channel := if t.channel = defaultChannel then "" else ",ch " ++ toString t.channel
  let change := match t.change with
    | .stay => ""
    | .switch m => ",mode(" ++ toString m ++ ")"
    | .push m => ",push(" ++ toString m ++ ")"
  "<" ++ t.action.render ++ channel ++ change ++ (if t.pop then ",pop" else "") ++ ">"

end Terminal

end ModalLexer
