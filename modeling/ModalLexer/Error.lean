import ModalLexer.Basic
import ModalLexer.Text.Escape

/-!
# Errors

Three kinds, by who has to deal with them. A `StreamError` says why a stream
cannot do what it was asked. A `LexerError` ends the current operation of the
lexer: the grammar or its user has made a mistake, or the stream failed. A
`RecognitionError` is about the text being read; it is reported, and the
lexer goes on behind it.
-/

namespace ModalLexer

/-! ## Streams -/

inductive StreamError where
  /-- The characters at `index` have been dropped; those from `bufferStart` on
  are left. -/
  | seekOutOfBuffer (index bufferStart : Nat)
  /-- The bytes at `offset` encode no character. -/
  | utf8 (offset : Nat)
  | io (reason : String)
  /-- A marker was given back out of turn. -/
  | invalidMarker
  deriving DecidableEq, Repr, Inhabited

def StreamError.message : StreamError → String
  | .seekOutOfBuffer index bufferStart =>
    "can't seek to index " ++ toString index ++ ", the buffer starts at index "
      ++ toString bufferStart
  | .utf8 offset => "UTF-8 encoding error at byte offset " ++ toString offset
  | .io reason => "I/O error: " ++ reason
  | .invalidMarker => "released a marker that isn't the last one acquired"

/-! ## The lexer -/

/-- What ends an operation of the lexer. -/
inductive LexerError where
  | noStreamAttached
  /-- A mode was to be left that had never been entered from another. -/
  | emptyModeStack (mode : ModeId)
  | unknownMode (mode : ModeId)
  | stream (cause : StreamError)
  deriving DecidableEq, Repr, Inhabited

def LexerError.message : LexerError → String
  | .noStreamAttached => "no stream attached"
  | .emptyModeStack mode =>
    "pop from empty mode stack (current mode = " ++ toString mode ++ ")"
  | .unknownMode mode => "unknown mode " ++ toString mode
  | .stream cause => cause.message

/-! ## The text being read -/

/-- Where and how a recognition got stuck. -/
structure ErrorSite where
  /-- Index at which the failing match began. -/
  index : Nat := 0
  line : Nat := 1
  column : Nat := 1
  /-- The character that no rule accepts, none at the end of the stream. -/
  char? : Option Char := none
  mode : ModeId := defaultMode
  /-- Text accepted before that character. -/
  text : String := ""
  deriving DecidableEq, Repr, Inhabited

inductive RecognitionError where
  /-- No rule of the mode matches here. -/
  | noRule (site : ErrorSite)
  /-- A condition attached to a rule does not hold. -/
  | failedPredicate (predicate : String) (site : ErrorSite)
  deriving DecidableEq, Repr, Inhabited

namespace RecognitionError

def site : RecognitionError → ErrorSite
  | noRule s => s
  | failedPredicate _ s => s

/-- Line, column and stream index of a message. -/
private def renderPosition (s : ErrorSite) (detail : String) : String :=
  "line " ++ toString s.line ++ ", col " ++ toString s.column ++ detail
    ++ " (stream index = " ++ toString s.index ++ ")"

def messageWith (classes : Text.EscapeClasses) : RecognitionError → String
  | noRule s =>
    let detail := match s.char? with
      | some c => ", chr = '" ++ Text.escapeSingle classes c ++ "'"
      | none => ""
    "no viable alternative in mode " ++ toString s.mode ++ ", " ++ renderPosition s detail
  | failedPredicate predicate s =>
    "failed predicate \x7b" ++ predicate ++ "\x7d, " ++ renderPosition s ""

def message (e : RecognitionError) : String := e.messageWith .unicode

end RecognitionError

end ModalLexer
