/-!
# Identifiers

Numbers by which a grammar names its tokens, channels and modes, and the few
of them whose meaning is fixed. All of them are natural numbers: nothing is
computed from an identifier, it is only compared and printed.
-/

namespace ModalLexer

abbrev TokenId := Nat

/-- Identifier of a channel, by which the reader of a token sequence selects
the tokens meant for it. -/
abbrev ChannelId := Nat

abbrev ModeId := Nat

/-- Mode in which a lexer begins, and to which a reset brings it back. -/
def defaultMode : ModeId := 0

/-- Channel of the tokens meant for a parser. -/
def defaultChannel : ChannelId := 0

/-- Channel customarily given to what a parser should not see. -/
def hiddenChannel : ChannelId := 1

/-- Token type reserved for the sentinel that ends every token sequence. -/
def eofType : TokenId := 65535

/-- Name of a stream that was given none. -/
def unknownSourceName : String := "<unknown>"

end ModalLexer
