import ModalLexer.Event

/-!
# Listeners and message logs

A dispatch hands every report to each of its listeners, in the order of their
registration. A report that nobody hears is not lost: it goes to the log as a
warning.

The two message logs are what a printing and a collecting listener are made
of, and can be used without a lexer.
-/

namespace ModalLexer

/-! ## Dispatch -/

structure Dispatch where
  listeners : List Listener := []
  /-- Number for the next listener that is added. Numbers are not used again,
  even after the listeners have been removed. -/
  nextNumber : Nat := 0
  deriving DecidableEq, Repr, Inhabited

namespace Dispatch

def withConsole : Dispatch where
  listeners := [.console]

/-- Registers a listener after the others, under the number returned. -/
def add (d : Dispatch) (kind : ListenerKind) : Nat × Dispatch :=
  (d.nextNumber, {
    listeners := d.listeners ++ [.added d.nextNumber kind]
    nextNumber := d.nextNumber + 1 })

def clear (d : Dispatch) : Dispatch := { d with listeners := [] }

def size (d : Dispatch) : Nat := d.listeners.length

def isEmpty (d : Dispatch) : Bool := d.listeners.isEmpty

def describe (d : Dispatch) : String :=
  "ErrorListenerDispatch \x7b " ++ toString d.size ++ " listener(s) \x7d"

def deliver (d : Dispatch) (report : Report) : List Event :=
  if d.isEmpty then [.unheard report] else d.listeners.map (.notified · report)

end Dispatch

/-! ## Message logs -/

/-- Log of messages that have been printed; only their number is kept. -/
structure ConsoleLog where
  count : Nat := 0
  deriving DecidableEq, Repr, Inhabited

namespace ConsoleLog

def add (log : ConsoleLog) (_message : String) : ConsoleLog where
  count := log.count + 1

def hasNoErrors (log : ConsoleLog) : Bool := log.count == 0

end ConsoleLog

/-- Log that keeps its messages in order of arrival. -/
structure MessageLog where
  messages : Array String := #[]
  deriving DecidableEq, Repr, Inhabited

namespace MessageLog

def add (log : MessageLog) (message : String) : MessageLog where
  messages := log.messages.push message

def count (log : MessageLog) : Nat := log.messages.size

def hasNoErrors (log : MessageLog) : Bool := log.count == 0

def render (log : MessageLog) : String :=
  "\n".intercalate (log.messages.toList.map ("- ERROR  : " ++ ·))

end MessageLog

end ModalLexer
