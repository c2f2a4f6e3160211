import Mathlib.Data.Prod.Lex
import ModalLexer.Caret

/-!
# Positions in a text

The position of an index is where passing the characters in front of it leads
to from the first cell of the first line. Positions are compared as they are
read, by lines first and then by columns. No character leads back, so farther
on in the text is never before.
-/

namespace ModalLexer

namespace Caret

variable {tab : TabWidth} {cs : List Char} {p q : Caret}

/-! ## The order of positions -/

/-- Line and column, of which the line counts more. -/
def place (p : Caret) : ℕ ×ₗ ℕ := toLex (p.line, p.column)

instance : Preorder Caret := Preorder.lift place

theorem le_iff : p ≤ q ↔ p.line < q.line ∨ p.line = q.line ∧ p.column ≤ q.column :=
  Prod.Lex.toLex_le_toLex

theorem line_le_of_le (h : p ≤ q) : p.line ≤ q.line := by
  rcases le_iff.mp h with hlt | ⟨heq, -⟩
  · exact Nat.le_of_lt hlt
  · exact Nat.le_of_eq heq

/-- On the line of another position or below it, it is enough not to be to its
left. -/
theorem le_of_column_le (hline : p.line ≤ q.line) (hcolumn : p.column ≤ q.column) : p ≤ q := by
  rcases Nat.lt_or_eq_of_le hline with hlt | heq
  · exact le_iff.mpr (.inl hlt)
  · exact le_iff.mpr (.inr ⟨heq, hcolumn⟩)

/-! ## Passing characters -/

theorem le_of_nextCell (h : p.nextCell = .ok q) : p ≤ q := by
  obtain ⟨column, hadd, hq⟩ := Checked.bind_eq_ok.mp h
  obtain rfl := Except.ok.inj hq
  obtain rfl := Checked.eq_of_add_eq_ok hadd
  exact le_of_column_le (Nat.le_refl _) (Nat.le_succ _)

theorem le_of_nextLine (h : p.nextLine = .ok q) : p ≤ q := by
  obtain ⟨line, hadd, hq⟩ := Checked.bind_eq_ok.mp h
  obtain rfl := Except.ok.inj hq
  obtain rfl := Checked.eq_of_add_eq_ok hadd
  exact le_iff.mpr (.inl (Nat.lt_succ_self _))

/-- Going back to the last tab stop is less than going on to the next. -/
theorem le_of_nextTabStop (h : p.nextTabStop tab = .ok q) : p ≤ q := by
  obtain ⟨cellsBefore, -, hstop⟩ := Checked.bind_eq_ok.mp h
  obtain ⟨column, hadd, hq⟩ := Checked.bind_eq_ok.mp hstop
  obtain rfl := Except.ok.inj hq
  obtain rfl := Checked.eq_of_add_eq_ok hadd
  have hback : cellsBefore % tab.cells < tab.cells := Nat.mod_lt _ tab.one_le
  refine le_of_column_le (Nat.le_refl _) ?_
  show p.column ≤ p.column - cellsBefore % tab.cells + tab.cells
  omega

theorem le_of_pass {c : Char} (h : p.pass tab c = .ok q) : p ≤ q := by
  unfold pass at h
  split at h
  · exact le_of_nextTabStop h
  · exact le_of_nextLine h
  · obtain rfl := Except.ok.inj h
    exact le_refl p
  · exact le_of_nextCell h

theorem passAll_cons {c : Char} :
    passAll tab p (c :: cs) = .ok q ↔ ∃ m, p.pass tab c = .ok m ∧ passAll tab m cs = .ok q := by
  rw [passAll]
  cases p.pass tab c with
  | error f => simp
  | ok m => simp

theorem passAll_append {left right : List Char} :
    passAll tab p (left ++ right) = .ok q
      ↔ ∃ m, passAll tab p left = .ok m ∧ passAll tab m right = .ok q := by
  induction left generalizing p with
  | nil => simp [passAll]
  | cons c left ih =>
      simp only [List.cons_append, passAll_cons, ih]
      constructor
      · rintro ⟨m, hpass, n, hleft, hright⟩
        exact ⟨n, ⟨m, hpass, hleft⟩, hright⟩
      · rintro ⟨n, ⟨m, hpass, hleft⟩, hright⟩
        exact ⟨m, hpass, n, hleft, hright⟩

theorem le_of_passAll (h : passAll tab p cs = .ok q) : p ≤ q := by
  induction cs generalizing p with
  | nil =>
      obtain rfl := Except.ok.inj h
      exact le_refl p
  | cons c cs ih =>
      obtain ⟨m, hpass, hrest⟩ := passAll_cons.mp h
      exact le_trans (le_of_pass hpass) (ih hrest)

/-! ## The position of an index -/

/-- `p` is the position of index `k` of the text `cs`. -/
structure At (tab : TabWidth) (cs : List Char) (k : Nat) (p : Caret) : Prop where
  le_length : k ≤ cs.length
  passAll_eq : passAll tab {} (cs.take k) = .ok p

namespace At

variable {i j k : Nat}

theorem zero (tab : TabWidth) (cs : List Char) : At tab cs 0 {} := ⟨Nat.zero_le _, rfl⟩

theorem unique (hp : At tab cs k p) (hq : At tab cs k q) : p = q :=
  Except.ok.inj (hp.passAll_eq.symm.trans hq.passAll_eq)

/-- Passing a character leads to the position of the next one. -/
theorem pass {c : Char} (h : At tab cs k p) (hc : cs[k]? = some c) (hpass : p.pass tab c = .ok q) :
    At tab cs (k + 1) q where
  le_length := (List.getElem?_eq_some_iff.mp hc).1
  passAll_eq := by
    rw [List.take_add_one, hc]
    exact passAll_append.mpr ⟨p, h.passAll_eq, passAll_cons.mpr ⟨q, hpass, rfl⟩⟩

/-- Farther on in the text is never before. -/
theorem mono (hp : At tab cs i p) (hq : At tab cs j q) (hle : i ≤ j) : p ≤ q := by
  have hsplit := List.take_append_drop i (cs.take j)
  rw [List.take_take, Nat.min_eq_left hle] at hsplit
  have hfold := hq.passAll_eq
  rw [← hsplit] at hfold
  obtain ⟨m, hleft, hright⟩ := passAll_append.mp hfold
  obtain rfl := Except.ok.inj (hp.passAll_eq.symm.trans hleft)
  exact le_of_passAll hright

end At

example : At default ['a', '\t', 'b', '\r', '\n', 'c'] 3 { column := 6 } := ⟨by decide, rfl⟩

end Caret

end ModalLexer
