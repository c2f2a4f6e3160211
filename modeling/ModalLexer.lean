import ModalLexer.Automaton
import ModalLexer.Automaton.Recognizer
import ModalLexer.Automaton.Terminal
import ModalLexer.Basic
import ModalLexer.Caret
import ModalLexer.CharGroup
import ModalLexer.Error
import ModalLexer.Event
import ModalLexer.Fault
import ModalLexer.Lexer
import ModalLexer.Lexer.Drain
import ModalLexer.Lexer.Match
import ModalLexer.Lexer.Production
import ModalLexer.Lexer.Session
import ModalLexer.Listener
import ModalLexer.Proofs.Actions
import ModalLexer.Proofs.Automaton.Alike
import ModalLexer.Proofs.Automaton.Bounds
import ModalLexer.Proofs.Automaton.Candidate
import ModalLexer.Proofs.Automaton.Effect
import ModalLexer.Proofs.Automaton.Hiding
import ModalLexer.Proofs.Automaton.Kindred
import ModalLexer.Proofs.Automaton.LongestPath
import ModalLexer.Proofs.Automaton.Modes
import ModalLexer.Proofs.Automaton.Nesting
import ModalLexer.Proofs.Automaton.Position
import ModalLexer.Proofs.Automaton.Rest
import ModalLexer.Proofs.Automaton.Room
import ModalLexer.Proofs.Automaton.Turn
import ModalLexer.Proofs.Automaton.Walk
import ModalLexer.Proofs.Caret
import ModalLexer.Proofs.Expansion
import ModalLexer.Proofs.Lexer.Bounds
import ModalLexer.Proofs.Lexer.Call
import ModalLexer.Proofs.Lexer.Coordinates
import ModalLexer.Proofs.Lexer.Course
import ModalLexer.Proofs.Lexer.Draining
import ModalLexer.Proofs.Lexer.Failure
import ModalLexer.Proofs.Lexer.FatalErrors
import ModalLexer.Proofs.Lexer.Hiding
import ModalLexer.Proofs.Lexer.Independence
import ModalLexer.Proofs.Lexer.Isolation
import ModalLexer.Proofs.Lexer.Leftovers
import ModalLexer.Proofs.Lexer.Lockstep
import ModalLexer.Proofs.Lexer.Modes
import ModalLexer.Proofs.Lexer.Noninterference
import ModalLexer.Proofs.Lexer.Origin
import ModalLexer.Proofs.Lexer.Partition
import ModalLexer.Proofs.Lexer.Progress
import ModalLexer.Proofs.Lexer.Quotation
import ModalLexer.Proofs.Lexer.Restart
import ModalLexer.Proofs.Lexer.Resumption
import ModalLexer.Proofs.Lexer.Sentinel
import ModalLexer.Proofs.Lexer.Steps
import ModalLexer.Proofs.Lexer.Trace
import ModalLexer.Proofs.Script
import ModalLexer.Proofs.Segment
import ModalLexer.Proofs.Stream.Decoding
import ModalLexer.Proofs.Stream.Delivery
import ModalLexer.Proofs.Stream.Interruption
import ModalLexer.Proofs.Stream.Motion
import ModalLexer.Proofs.Stream.Naming
import ModalLexer.Proofs.Stream.Retention
import ModalLexer.Proofs.Stream.View
import ModalLexer.Proofs.Stream.Window
import ModalLexer.Proofs.Text.Escape
import ModalLexer.Proofs.Token
import ModalLexer.Proofs.Utf8
import ModalLexer.Recognizer
import ModalLexer.Run
import ModalLexer.Sample
import ModalLexer.Script
import ModalLexer.Segment
import ModalLexer.State
import ModalLexer.Stream
import ModalLexer.Stream.ByteSource
import ModalLexer.Stream.Decoder
import ModalLexer.Stream.Reader
import ModalLexer.Stream.Text
import ModalLexer.Text.Escape
import ModalLexer.Text.GraphemeExtending
import ModalLexer.Text.Unprintable
import ModalLexer.Token
import ModalLexer.Token.Type
import ModalLexer.Utf8
