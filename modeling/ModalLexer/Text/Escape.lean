import ModalLexer.Text.Unprintable
import ModalLexer.Text.GraphemeExtending

/-!
# Escaped text

Two ways of writing arbitrary text on one line. `visible` is for messages: it
spells out the three characters that would move the cursor and leaves the
rest alone. `escape` is for token dumps: quotes, backslashes and everything
unprintable are spelled out too, so that the text can be read back.

Which characters count as unprintable is a parameter of `escape`, because
what makes it readable does not depend on the choice.
-/

namespace ModalLexer.Text

/-! ## Messages -/

def visibleChar : Char → List Char
  | '\n' => ['\\', 'n']
  | '\t' => ['\\', 't']
  | '\r' => ['\\', 'r']
  | c => [c]

def visible (s : String) : String :=
  String.ofList (s.toList.flatMap visibleChar)

/-- A character in quotes as messages show it; no character is the end of the
stream. -/
def visibleQuoted : Option Char → String
  | some c => "'" ++ String.ofList (visibleChar c) ++ "'"
  | none => "'<EOF>'"

/-! ## Escaping -/

/-- The characters that `escape` spells out by number: some wherever they
stand, some only where there is no character before them to be drawn onto. -/
structure EscapeClasses where
  anywhere : Char → Bool
  atStart : Char → Bool

/-- The classes of the Unicode character database. -/
def EscapeClasses.unicode : EscapeClasses where
  anywhere := isUnprintable
  atStart := isGraphemeExtending

/-- A code point by number: lower-case hexadecimal digits without padding. -/
def numericEscape (n : Nat) : List Char :=
  ['\\', 'u', '\x7b'] ++ Nat.toDigits 16 n ++ ['\x7d']

/-- One character that follows another, or, if `first`, that follows none. -/
def escapeChar (classes : EscapeClasses) (first : Bool) (c : Char) : List Char :=
  match c with
  | '\x00' => ['\\', '0']
  | '\t' => ['\\', 't']
  | '\r' => ['\\', 'r']
  | '\n' => ['\\', 'n']
  | '\x27' => ['\\', '\x27']
  | '\x22' => ['\\', '\x22']
  | '\\' => ['\\', '\\']
  | c =>
    if classes.anywhere c || (first && classes.atStart c) then numericEscape c.toNat
    else [c]

/-- The characters of a whole text, the first one first. -/
def escapeList (classes : EscapeClasses) : List Char → List Char
  | [] => []
  | c :: cs => escapeChar classes true c ++ cs.flatMap (escapeChar classes false)

/-- The text with everything spelled out that would not survive quoting. -/
def escape (classes : EscapeClasses) (s : String) : String :=
  String.ofList (escapeList classes s.toList)

/-- A single character, escaped as a text of its own. -/
def escapeSingle (classes : EscapeClasses) (c : Char) : String :=
  String.ofList (escapeChar classes true c)

example : visible "a\tb\n" = "a\\tb\\n" := by decide
example : escape .unicode "a\u0301'\x7f" = "a\u0301\\'\\u\x7b7f\x7d" := by decide +kernel
example : escape .unicode "\u0301" = "\\u\x7b301\x7d" := by decide +kernel

end ModalLexer.Text
