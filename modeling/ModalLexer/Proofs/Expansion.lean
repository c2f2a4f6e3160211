import Mathlib.Data.List.DropRight
import Mathlib.Data.Nat.Find
import Mathlib.Data.Nat.ModEq
import ModalLexer.Proofs.Caret

/-!
# Expanded lines

A column is the number of cells in front of it, and one. `expand` lays out the
text of a line in cells: a tab fills the cells up to the next tab stop, a
carriage return takes none, and every other character has one of its own. Where
passing a text leads to is then read off the text as a whole (`Caret.ending`):
it goes down a line for each line feed, and to the right by the cells of what
stands behind the last of them. One character is `pass_eq_ok_iff`; the rest is
an induction on the text, in which `ending_concat` takes the characters off one
by one.
-/

namespace ModalLexer

theorem Checked.add_eq_ok_iff {a b n : Nat} :
    Checked.add a b = .ok n ↔ n = a + b ∧ n < Checked.unsignedLimit := by
  unfold Checked.add
  split
  · rename_i hlt
    rw [Except.ok.injEq, eq_comm]
    exact ⟨fun heq => ⟨heq, heq ▸ hlt⟩, fun hn => hn.1⟩
  · rename_i hge
    exact ⟨nofun, fun hn => absurd (hn.1 ▸ hn.2) hge⟩

/-! ## Tab stops -/

namespace TabWidth

theorem exists_stop (tab : TabWidth) (column : Nat) :
    ∃ n, 0 < n ∧ column + n ≡ 1 [MOD tab.cells] := by
  refine ⟨column * (tab.cells - 1) + 1, Nat.succ_pos _, ?_⟩
  have hcells : column + column * (tab.cells - 1) = column * tab.cells := by
    rw [Nat.add_comm, ← Nat.mul_succ, Nat.succ_eq_add_one, Nat.sub_add_cancel tab.one_le]
  rw [← Nat.add_assoc, hcells, Nat.ModEq, Nat.mul_add_mod']

/-- The least number of cells, but one at least, that lead to a tab stop. -/
def toStop (tab : TabWidth) (column : Nat) : Nat := Nat.find (tab.exists_stop column)

/-- The cells up to the next tab stop are those of a whole width without the
ones that lie behind the last one. -/
theorem toStop_eq (tab : TabWidth) {column : Nat} (h : 1 ≤ column) :
    tab.toStop column = tab.cells - (column - 1) % tab.cells := by
  have hlt : (column - 1) % tab.cells < tab.cells := Nat.mod_lt _ tab.one_le
  have hdiv := Nat.div_add_mod (column - 1) tab.cells
  rw [toStop, Nat.find_eq_iff]
  refine ⟨⟨by omega, ?_⟩, ?_⟩
  · have hstop : column + (tab.cells - (column - 1) % tab.cells)
        = 1 + tab.cells * ((column - 1) / tab.cells + 1) := by
      rw [Nat.mul_add_one]
      omega
    rw [hstop, Nat.ModEq, Nat.add_mul_mod_self_left]
  · -- fewer cells do not get over the remainder
    rintro n hn ⟨hpos, hstop⟩
    have hzero : (column - 1) + n ≡ 0 [MOD tab.cells] := by
      refine Nat.ModEq.add_right_cancel' 1 ?_
      rwa [Nat.zero_add, Nat.add_right_comm, Nat.sub_add_cancel h]
    have hsum : (column - 1) % tab.cells + n ≡ 0 [MOD tab.cells] :=
      (Nat.ModEq.add_right n (Nat.mod_modEq ..)).trans hzero
    have hmod := Nat.mod_eq_of_lt (by omega : (column - 1) % tab.cells + n < tab.cells)
    rw [Nat.ModEq, hmod, Nat.zero_mod] at hsum
    omega

theorem one_le_toStop (tab : TabWidth) (column : Nat) : 1 ≤ tab.toStop column :=
  (Nat.find_spec (tab.exists_stop column)).1

theorem toStop_le (tab : TabWidth) {column : Nat} (h : 1 ≤ column) :
    tab.toStop column ≤ tab.cells := by
  rw [tab.toStop_eq h]
  exact Nat.sub_le ..

end TabWidth

namespace Caret

variable {tab : TabWidth} {p q : Caret} {cs us : List Char}

/-! ## Cells -/

/-- The cells that a character takes from a column on. -/
def cells (tab : TabWidth) (column : Nat) : Char → List Char
  | '\t' => List.replicate (tab.toStop column) ' '
  | '\r' => []
  | c => [c]

/-- The cells of the text of a line that is begun at a column. -/
def expand (tab : TabWidth) : Nat → List Char → List Char
  | _, [] => []
  | column, c :: cs =>
    cells tab column c ++ expand tab (column + (cells tab column c).length) cs

/-- What stands behind the last line feed. -/
def lastLine (cs : List Char) : List Char := cs.rtakeWhile (· ≠ '\n')

/-- Where the text leads to from `p`. -/
def ending (tab : TabWidth) (p : Caret) (cs : List Char) : Caret where
  line := p.line + cs.count '\n'
  column :=
    if '\n' ∈ cs then 1 + (expand tab 1 (lastLine cs)).length
    else p.column + (expand tab p.column cs).length

theorem expand_concat (column : Nat) (cs : List Char) (c : Char) :
    expand tab column (cs ++ [c]) = expand tab column cs
      ++ cells tab (column + (expand tab column cs).length) c := by
  induction cs generalizing column with
  | nil => simp [expand]
  | cons d cs ih => simp only [List.cons_append, expand, ih, List.append_assoc,
      List.length_append, Nat.add_assoc]

theorem ending_lf (p : Caret) : ending tab p ['\n'] = { line := p.line + 1, column := 1 } := rfl

theorem ending_of_ne {c : Char} (hc : c ≠ '\n') (p : Caret) :
    ending tab p [c] = { p with column := p.column + (cells tab p.column c).length } := by
  simp [ending, expand, hc, Ne.symm hc]

/-- The last character goes on from where the others lead to. -/
theorem ending_concat (p : Caret) (cs : List Char) (c : Char) :
    ending tab p (cs ++ [c]) = ending tab (ending tab p cs) [c] := by
  by_cases hc : c = '\n'
  · subst hc
    have hlast : lastLine (cs ++ ['\n']) = [] := List.rtakeWhile_concat_neg _ _ _ (by simp)
    rw [ending_lf, ending, if_pos (by simp), hlast, List.count_append]
    rfl
  · have hlast : lastLine (cs ++ [c]) = lastLine cs ++ [c] :=
      List.rtakeWhile_concat_pos _ _ _ (by simpa using hc)
    have hmem : '\n' ∈ cs ++ [c] ↔ '\n' ∈ cs := by simp [Ne.symm hc]
    have hcount : (cs ++ [c]).count '\n' = cs.count '\n' := by
      rw [List.count_append, List.count_singleton, if_neg (by simpa using hc), Nat.add_zero]
    rw [ending_of_ne hc, ending, hlast, hcount]
    simp only [hmem, ending, expand_concat, List.length_append]
    split <;> rw [Nat.add_assoc]

theorem one_le_column_ending (h : 1 ≤ p.column) (cs : List Char) :
    1 ≤ (ending tab p cs).column := by
  simp only [ending]
  split <;> omega

/-! ## Passing a text -/

/-- Line and column are numbers that there are. -/
def InRange (p : Caret) : Prop :=
  p.line < Checked.unsignedLimit ∧ p.column < Checked.unsignedLimit

instance (p : Caret) : Decidable p.InRange := inferInstanceAs (Decidable (_ ∧ _))

theorem nextCell_eq_ok_iff :
    p.nextCell = .ok q ↔ q = { p with column := p.column + 1 }
      ∧ p.column + 1 < Checked.unsignedLimit := by
  rw [nextCell, Checked.bind_eq_ok]
  constructor
  · rintro ⟨column, hadd, hq⟩
    obtain ⟨rfl, hlt⟩ := Checked.add_eq_ok_iff.mp hadd
    exact ⟨(Except.ok.inj hq).symm, hlt⟩
  · rintro ⟨rfl, hlt⟩
    exact ⟨_, Checked.add_eq_ok hlt, rfl⟩

theorem nextLine_eq_ok_iff :
    p.nextLine = .ok q ↔ q = { line := p.line + 1, column := 1 }
      ∧ p.line + 1 < Checked.unsignedLimit := by
  rw [nextLine, Checked.bind_eq_ok]
  constructor
  · rintro ⟨line, hadd, hq⟩
    obtain ⟨rfl, hlt⟩ := Checked.add_eq_ok_iff.mp hadd
    exact ⟨(Except.ok.inj hq).symm, hlt⟩
  · rintro ⟨rfl, hlt⟩
    exact ⟨_, Checked.add_eq_ok hlt, rfl⟩

theorem nextTabStop_eq_ok_iff (h : 1 ≤ p.column) :
    p.nextTabStop tab = .ok q ↔ q = { p with column := p.column + tab.toStop p.column }
      ∧ p.column + tab.toStop p.column < Checked.unsignedLimit := by
  have hle := Nat.mod_le (p.column - 1) tab.cells
  have hlt : (p.column - 1) % tab.cells < tab.cells := Nat.mod_lt _ tab.one_le
  have hstop : p.column + tab.toStop p.column
      = p.column - (p.column - 1) % tab.cells + tab.cells := by
    rw [tab.toStop_eq h]
    omega
  rw [nextTabStop, Checked.sub_eq_ok h, Checked.bind_eq_ok, hstop]
  constructor
  · rintro ⟨cellsBefore, hsub, hrest⟩
    obtain rfl := Except.ok.inj hsub
    obtain ⟨column, hadd, hq⟩ := Checked.bind_eq_ok.mp hrest
    obtain ⟨rfl, hlt⟩ := Checked.add_eq_ok_iff.mp hadd
    exact ⟨(Except.ok.inj hq).symm, hlt⟩
  · rintro ⟨rfl, hlt⟩
    exact ⟨_, rfl, Checked.bind_eq_ok.mpr ⟨_, Checked.add_eq_ok hlt, rfl⟩⟩

/-- A character is passed to where it leads, unless that is out of range. -/
theorem pass_eq_ok_iff (hp : p.InRange) (h : 1 ≤ p.column) {c : Char} :
    p.pass tab c = .ok q ↔ q = ending tab p [c] ∧ (ending tab p [c]).InRange := by
  obtain ⟨hline, hcolumn⟩ := hp
  unfold pass
  split
  · rw [nextTabStop_eq_ok_iff h, ending_of_ne (by decide), cells, List.length_replicate, InRange]
    simp only [hline, true_and]
  · rw [nextLine_eq_ok_iff, ending_lf, InRange]
    simp only [show 1 < Checked.unsignedLimit by decide, and_true]
  · rw [ending_of_ne (by decide), cells, InRange]
    simp only [List.length_nil, Nat.add_zero, hline, hcolumn, and_true, Except.ok.injEq]
    exact eq_comm
  · rename_i htab hlf hcr
    have hcell : cells tab p.column c = [c] := by
      unfold cells
      split
      · exact (htab rfl).elim
      · exact (hcr rfl).elim
      · rfl
    rw [nextCell_eq_ok_iff, ending_of_ne hlf, hcell, InRange]
    simp only [List.length_singleton, hline, true_and]

/-- A text is passed to where it leads, unless that is out of range somewhere on
the way. -/
theorem passAll_eq_ok_iff (hp : p.InRange) (h : 1 ≤ p.column) :
    passAll tab p cs = .ok q
      ↔ q = ending tab p cs ∧ ∀ us, us <+: cs → (ending tab p us).InRange := by
  induction cs using List.reverseRecOn generalizing q with
  | nil =>
      have hnil : ending tab p [] = p := by simp [ending, expand]
      simp only [passAll, Except.ok.injEq, hnil, List.prefix_nil, forall_eq, hp, and_true, eq_comm]
  | append_singleton cs c ih =>
      have hone : ∀ m, passAll tab m [c] = .ok q ↔ m.pass tab c = .ok q := by
        intro m
        rw [passAll_cons]
        simp [passAll]
      simp only [passAll_append, ih, hone, List.prefix_concat_iff]
      constructor
      · rintro ⟨m, ⟨rfl, hall⟩, hpass⟩
        obtain ⟨rfl, hlast⟩ := (pass_eq_ok_iff (hall cs (List.prefix_refl cs))
          (one_le_column_ending h cs)).mp hpass
        rw [← ending_concat] at hlast ⊢
        refine ⟨rfl, ?_⟩
        rintro us (rfl | hus)
        · exact hlast
        · exact hall us hus
      · rintro ⟨rfl, hall⟩
        refine ⟨_, ⟨rfl, fun us hus => hall us (.inr hus)⟩, ?_⟩
        refine (pass_eq_ok_iff (hall cs (.inr (List.prefix_refl cs)))
          (one_le_column_ending h cs)).mpr ?_
        rw [← ending_concat]
        exact ⟨rfl, hall _ (.inl rfl)⟩

/-- A text is passed part by part, faults included. -/
theorem foldlM_passAll (tab : TabWidth) (p : Caret) (parts : List (List Char)) :
    parts.foldlM (passAll tab) p = passAll tab p parts.flatten := by
  have hbind : ∀ (left right : List Char) (p : Caret),
      passAll tab p (left ++ right) = passAll tab p left >>= fun m => passAll tab m right := by
    intro left right
    induction left with
    | nil => exact fun p => rfl
    | cons c left ih =>
        intro p
        rw [List.cons_append, passAll, passAll]
        cases p.pass tab c with
        | error fault => rfl
        | ok m => exact ih m
  induction parts generalizing p with
  | nil => rfl
  | cons part parts ih =>
      rw [List.flatten_cons, hbind, List.foldlM_cons]
      cases passAll tab p part with
      | error fault => rfl
      | ok m => exact ih m

/-- A text that is passed leads down a line for each of its line feeds, and to
the right by the cells that what stands behind the last of them takes from the
first column on, or all of it from the column where it began. On the way every
tab leads farther right by a cell at least and by a tab width at most, no
column is before the first, and it is the same whether the text is passed at
once or in parts. -/
theorem passAll_leads_to_ending (tab : TabWidth) (p : Caret) (hp : p.InRange) (h : 1 ≤ p.column)
    (cs : List Char) :
    (∀ q, passAll tab p cs = .ok q ↔ q = {
          line := p.line + cs.count '\n'
          column :=
            if '\n' ∈ cs then 1 + (expand tab 1 (lastLine cs)).length
            else p.column + (expand tab p.column cs).length }
        ∧ ∀ us, us <+: cs → (ending tab p us).InRange)
      ∧ (∀ us, us <+: cs → 1 ≤ (ending tab p us).column)
      ∧ (∀ us, us ++ ['\t'] <+: cs →
        (ending tab p (us ++ ['\t'])).line = (ending tab p us).line
          ∧ (ending tab p us).column + 1 ≤ (ending tab p (us ++ ['\t'])).column
          ∧ (ending tab p (us ++ ['\t'])).column ≤ (ending tab p us).column + tab.cells)
      ∧ ∀ parts : List (List Char), parts.flatten = cs →
        parts.foldlM (passAll tab) p = passAll tab p cs := by
  refine ⟨fun q => passAll_eq_ok_iff hp h, fun us _ => one_le_column_ending h us, ?_, ?_⟩
  · intro us _
    have hcolumn : 1 ≤ (ending tab p us).column := one_le_column_ending h us
    rw [ending_concat, ending_of_ne (by decide), cells, List.length_replicate]
    exact ⟨rfl, Nat.add_le_add_left (tab.one_le_toStop _) _,
      Nat.add_le_add_left (tab.toStop_le hcolumn) _⟩
  · rintro parts rfl
    exact foldlM_passAll tab p parts

/-- Two tabs, one of them at a tab stop, a line feed, and a carriage return in
between. -/
theorem passAll_leads_to_ending_tabs :
    let p : Caret := { line := 3, column := 5 }
    let cs := ['a', '\n', 'b', '\t', '\r', '\t', 'c']
    p.InRange ∧ 1 ≤ p.column ∧ passAll default p cs = .ok { line := 4, column := 10 }
      ∧ 1 + (expand default 1 (lastLine cs)).length = 10 := by
  intro p cs
  have hpass : passAll default p cs = .ok { line := 4, column := 10 } := by decide
  obtain ⟨hending, -⟩ := passAll_leads_to_ending default p (by decide) (by decide) cs
  obtain ⟨hform, -⟩ := (hending _).mp hpass
  exact ⟨by decide, by decide, hpass, (Caret.mk.inj hform).2.symm⟩

end Caret

end ModalLexer
