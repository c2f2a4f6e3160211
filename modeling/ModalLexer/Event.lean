import ModalLexer.Automaton.Terminal
import ModalLexer.Error
import ModalLexer.Token

/-!
# Events

What a run of the lexer lets the outside see while it goes on: reports of
errors in the text, each handed to a listener, and records for a log. A log
record is kept as what happened; `Event.level` and `Event.message` say how a
log shows it.
-/

namespace ModalLexer

/-! ## Reports to listeners -/

structure Report where
  source : Source
  line : Nat
  column : Nat
  message : String
  cause : RecognitionError
  deriving DecidableEq, Repr, Inhabited

/-- One line with the position in front of the message. -/
def Report.render (r : Report) : String :=
  "line " ++ toString r.line ++ ":" ++ toString r.column ++ " " ++ r.message

/-- What a listener does with a report. -/
inductive ListenerKind where
  | print
  | collect
  | record
  deriving DecidableEq, Repr, Inhabited

inductive Listener where
  /-- The one every lexer begins with; it prints to the console. -/
  | console
  /-- One that was added, known by a number. -/
  | added (number : Nat) (kind : ListenerKind)
  deriving DecidableEq, Repr, Inhabited

/-! ## Log records -/

/-- Severity of a log record, the gravest first. -/
inductive Level where
  | error
  | warn
  | info
  | debug
  | trace
  deriving DecidableEq, Repr, Inhabited

namespace Level

def rank : Level → Nat
  | error => 0
  | warn => 1
  | info => 2
  | debug => 3
  | trace => 4

def render : Level → String
  | error => "ERROR"
  | warn => "WARN"
  | info => "INFO"
  | debug => "DEBUG"
  | trace => "TRACE"

def shows (threshold level : Level) : Bool := level.rank ≤ threshold.rank

end Level

inductive Event where
  | notified (listener : Listener) (report : Report)
  /-- A report found no listener. -/
  | unheard (report : Report)
  | modePushed (mode previous : ModeId)
  | modePopped (mode : ModeId)
  /-- The automaton stopped in an accepting state. -/
  | accepted (mode : ModeId) (state : Nat) (terminal : Terminal)
  /-- A match found `matched`, and the actions of its rule made it `final`. -/
  | decided (mode : ModeId) (matched final : TokenType) (index : Nat)
  /-- A failed match is left behind by dropping a character. -/
  | skipping (error : RecognitionError) (char : Char)
  /-- The user asked to leave an error behind. -/
  | recovering (error : RecognitionError)
  /-- A marker was given back that is not the last of those outstanding. -/
  | markerRejected (marker outstanding : Nat)
  deriving DecidableEq, Repr

namespace Event

/-- Severity and text of an event in a log; a notification is not logged. -/
def record? : Event → Option (Level × String)
  | notified .. => none
  | unheard report => some (.warn, report.source.name ++ " " ++ report.render)
  | modePushed mode previous =>
    some (.debug, "push_mode " ++ toString mode ++ " (from " ++ toString previous ++ ")")
  | modePopped mode => some (.debug, "pop_mode back to " ++ toString mode)
  | accepted mode state terminal =>
    some (.trace, "mode " ++ toString mode ++ ": state " ++ toString state ++ " "
      ++ terminal.render)
  | decided mode matched final index =>
    some (.trace, "mode " ++ toString mode ++ ": matched " ++ matched.render ++ " -> "
      ++ final.render ++ ", index " ++ toString index)
  | skipping error char =>
    some (.debug, "recovering from " ++ error.message ++ ": skipping "
      ++ Text.visibleQuoted (some char))
  | recovering error => some (.debug, "recovering from " ++ error.message)
  | markerRejected marker outstanding =>
    some (.error, StreamError.invalidMarker.message ++ " (marker " ++ toString marker ++ ", "
      ++ toString outstanding ++ " outstanding)")

/-- The report an event hands to listener `number`, with what that listener
does with it. -/
def heardBy? (number : Nat) : Event → Option (ListenerKind × Report)
  | notified (.added n kind) report => if n = number then some (kind, report) else none
  | _ => none

/-- The report of an event, whether anybody heard it or not. -/
def report? : Event → Option Report
  | notified _ report => some report
  | unheard report => some report
  | _ => none

/-- What a match was decided to be, and the index behind it. -/
def decision? : Event → Option (TokenType × Nat)
  | decided _ _ final index => some (final, index)
  | _ => none

/-- The event is neither a report nor the decision about a match. -/
def IsQuiet (e : Event) : Prop := e.report? = none ∧ e.decision? = none

end Event

end ModalLexer
