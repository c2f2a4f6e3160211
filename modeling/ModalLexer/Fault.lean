/-!
# Faults and checked arithmetic

A fault is the end of a computation by a defect of its caller: a number left
the range of its field, or a question without an answer was asked. It is not
an error of the input, which the library reports and survives.

Lines, columns and table indices are unsigned 64-bit quantities and the last
index of a token is a signed one. A caller can set them to any value in
range, so the operations on them are checked; each returns the exact result
or names the operation that overflowed. Streams are counted in 32 bits, and so
many of them can be attached to one lexer.
-/

namespace ModalLexer

inductive Operation where
  | add
  | subtract
  | multiply
  deriving DecidableEq, Repr

/-- Why a computation was cut short. -/
inductive Fault where
  | overflow (operation : Operation)
  /-- Lookahead counts from one; distance zero is no character. -/
  | zeroLookahead
  /-- A loop was still running after its step limit, which no loop that ends
  by itself can reach. -/
  | stepLimit
  deriving DecidableEq, Repr

def Operation.verb : Operation → String
  | .add => "add"
  | .subtract => "subtract"
  | .multiply => "multiply"

def Fault.message : Fault → String
  | .overflow op => "attempt to " ++ op.verb ++ " with overflow"
  | .zeroLookahead => "la(0) is undefined"
  | .stepLimit => "step limit reached"

namespace Checked

/-- Least natural number above the unsigned range, two to the power of 64. -/
def unsignedLimit : Nat := 0x10000000000000000

/-- Least natural number above the signed range, two to the power of 63. -/
def signedLimit : Nat := 0x8000000000000000

/-- Least natural number above the range of 32 bits. -/
def wordLimit : Nat := 0x100000000

def add (a b : Nat) : Except Fault Nat :=
  if a + b < unsignedLimit then .ok (a + b) else .error (.overflow .add)

def addWord (a b : Nat) : Except Fault Nat :=
  if a + b < wordLimit then .ok (a + b) else .error (.overflow .add)

def sub (a b : Nat) : Except Fault Nat :=
  if b ≤ a then .ok (a - b) else .error (.overflow .subtract)

def mul (a b : Nat) : Except Fault Nat :=
  if a * b < unsignedLimit then .ok (a * b) else .error (.overflow .multiply)

/-- An integer in the signed range. -/
def InSigned (n : Int) : Prop := -(signedLimit : Int) ≤ n ∧ n < signedLimit

instance (n : Int) : Decidable (InSigned n) :=
  inferInstanceAs (Decidable (_ ∧ _))

def addSigned (a b : Int) : Except Fault Int :=
  if InSigned (a + b) then .ok (a + b) else .error (.overflow .add)

def subSigned (a b : Int) : Except Fault Int :=
  if InSigned (a - b) then .ok (a - b) else .error (.overflow .subtract)

/-- The unsigned number `n` read as a signed one: the upper half of the range
stands for the negative numbers. -/
def toSigned (n : Nat) : Int :=
  if n < signedLimit then n else (n : Int) - unsignedLimit

theorem add_eq_ok {a b : Nat} (h : a + b < unsignedLimit) : add a b = .ok (a + b) :=
  if_pos h

theorem sub_eq_ok {a b : Nat} (h : b ≤ a) : sub a b = .ok (a - b) :=
  if_pos h

theorem mul_eq_ok {a b : Nat} (h : a * b < unsignedLimit) : mul a b = .ok (a * b) :=
  if_pos h

theorem eq_of_add_eq_ok {a b c : Nat} (h : add a b = .ok c) : c = a + b := by
  unfold add at h
  split at h
  · exact (Except.ok.inj h).symm
  · cases h

/-- Checked computations in a row come through if each of them does. -/
theorem bind_eq_ok {α β : Type} {x : Except Fault α} {f : α → Except Fault β} {b : β} :
    x >>= f = .ok b ↔ ∃ a, x = .ok a ∧ f a = .ok b := by
  cases x with
  | error fault => simp [bind, Except.bind]
  | ok a => simp [bind, Except.bind]

theorem toSigned_of_lt {n : Nat} (h : n < signedLimit) : toSigned n = n :=
  if_pos h

end Checked

end ModalLexer
