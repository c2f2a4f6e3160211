import ModalLexer.Fault

/-!
# Lines and columns

Both count from one. Passing a character moves the column on by one cell,
with three exceptions: a line feed begins a line, a tab moves to the next tab
stop, and a carriage return has no width. Tab stops stand at the columns that
are congruent to one modulo the tab width.
-/

namespace ModalLexer

/-- Distance of the tab stops, in cells. -/
structure TabWidth where
  cells : Nat
  one_le : 1 ≤ cells
  le_byte : cells ≤ 255
  deriving DecidableEq, Repr

namespace TabWidth

/-- Tab stops every four cells. -/
instance : Inhabited TabWidth := ⟨⟨4, by decide, by decide⟩⟩

/-- A tab width as it is configured; zero means one. -/
def ofByte (n : UInt8) : TabWidth where
  cells := max n.toNat 1
  one_le := Nat.le_max_right ..
  le_byte := by have := n.toNat_lt; omega

end TabWidth

structure Caret where
  line : Nat := 1
  column : Nat := 1
  deriving DecidableEq, Repr, Inhabited

namespace Caret

def nextCell (p : Caret) : Except Fault Caret := do
  return { p with column := ← Checked.add p.column 1 }

def nextLine (p : Caret) : Except Fault Caret := do
  return { line := ← Checked.add p.line 1, column := 1 }

def nextTabStop (tab : TabWidth) (p : Caret) : Except Fault Caret := do
  let cellsBefore ← Checked.sub p.column 1
  return { p with column := ← Checked.add (p.column - cellsBefore % tab.cells) tab.cells }

def pass (tab : TabWidth) (p : Caret) (c : Char) : Except Fault Caret :=
  match c with
  | '\t' => p.nextTabStop tab
  | '\n' => p.nextLine
  | '\r' => .ok p
  | _ => p.nextCell

def passAll (tab : TabWidth) : Caret → List Char → Except Fault Caret
  | p, [] => .ok p
  | p, c :: cs =>
    match p.pass tab c with
    | .ok p => passAll tab p cs
    | .error fault => .error fault

/-- Passes a character where everything but a line feed takes one cell. -/
def passPlain (p : Caret) (c : Char) : Except Fault Caret :=
  if c = '\n' then p.nextLine else p.nextCell

example : Caret.pass default { column := 3 } '\t' = .ok { column := 5 } := rfl
example : Caret.pass default { column := 0 } '\t' = .error (.overflow .subtract) := rfl

end Caret

end ModalLexer
