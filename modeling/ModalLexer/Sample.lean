import ModalLexer.Automaton.Recognizer
import ModalLexer.Lexer
import ModalLexer.Script

/-!
# Sample lexicons

Two small sets of tables, one for each way of using modes: `quotations`
enters a mode from another and returns, `alternating` replaces the mode back
and forth. `lexer` puts them to use. `wavering` and `stubborn` are scripts whose
rules use the actions that tables have no word for.
-/

namespace ModalLexer.Sample

/-- Words of letters and digits (1), numbers (2), blanks that are dropped, line
ends (4) on the hidden channel, and quotations (3) in double quotes. The
opening quote enters a mode of its own, and the closing quote leaves it. -/
def quotations : Automaton where
  groupCount := 5
  firstAccepting := 3
  stateCount := 9
  groups := {
    ascii := CharGroups.asciiTable 128 5
      [(0x61, 0x7a, 0), (0x30, 0x39, 1), (0x09, 0x09, 2), (0x20, 0x20, 2), (0x22, 0x22, 3),
        (0x0a, 0x0a, 4), (0x0d, 0x0d, 4)]
    chars := .ofList [('é', 0)]
    segments := .ofList [(⟨0x3b1, 0x3c9⟩, 0)] }
  transitions := #[
    3, 4, 5, 6, 8,
    2, 2, 2, 7, 2,
    2, 2, 2, 7, 2,
    3, 3, 9, 9, 9,
    9, 4, 9, 9, 9,
    9, 9, 5, 9, 9,
    9, 9, 9, 9, 9,
    9, 9, 9, 9, 9,
    9, 9, 9, 9, 8]
  terminals := #[
    { action := .token 1 },
    { action := .token 2 },
    { action := .skip },
    { action := .more, change := .push 1 },
    { action := .token 3, pop := true },
    { action := .token 4, channel := hiddenChannel }]
  startStates := #[0, 1]

/-- Words (1), blanks that are dropped, and semicolons (2). A semicolon leads
from the first mode to the second, and the one word (3) there is in the second
leads back. -/
def alternating : Automaton where
  groupCount := 3
  firstAccepting := 2
  stateCount := 6
  groups := {
    ascii := CharGroups.asciiTable 128 3 [(0x61, 0x7a, 0), (0x20, 0x20, 1), (0x3b, 0x3b, 2)] }
  transitions := #[
    2, 3, 4,
    5, 6, 6,
    2, 6, 6,
    6, 3, 6,
    6, 6, 6,
    5, 6, 6]
  terminals := #[
    { action := .token 1 },
    { action := .skip },
    { action := .token 2, change := .switch 1 },
    { action := .token 3, change := .switch 0 }]
  startStates := #[0, 1]

/-- A lexer with these tables at the beginning of a text. -/
def lexer (a : Automaton) (text : String) : Lexer TableRecognizer :=
  Lexer.attach { recognizer := { automaton := a } } (.ofString text)

/-- A blank is skipped, but sets a channel and a text before. An `a` waits for
what follows it, and a `b` takes another character along and changes its mind
about the type. -/
def wavering : ScriptRecognizer where
  modes := #[[
    { trigger := some ' ', result := some .skip, actions := [.setChannel 7, .setText "lost"] },
    { trigger := some 'a', result := some .more, actions := [.setChannel 2] },
    { trigger := some 'b', eat := 2, result := some (.type 5),
      actions := [.skip, .setType (.type 6)] }]]

/-- An `m` waits for what follows it. A `!` fails, having set a channel and a
text, and so does a `#`, having decided on a type. -/
def stubborn : ScriptRecognizer where
  modes := #[[
    { trigger := some 'm', result := some .more },
    { trigger := some '!', result := none, actions := [.setChannel 7, .setText "lost"] },
    { trigger := some '#', result := none, actions := [.setType (.type 7)] },
    { trigger := some 'x', result := some (.type 3) }]]

end ModalLexer.Sample
