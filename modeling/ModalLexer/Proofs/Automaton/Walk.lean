import ModalLexer.Automaton.Recognizer
import ModalLexer.Proofs.Caret
import ModalLexer.Proofs.Lexer.Course

/-!
# Walks over a text

A walk goes on as long as there is a transition for the next character. Over
a stream that shows a text it is known where it stops (`walk_stops`), that
two streams at the same place of the same text are walked alike
(`walk_alike`), and that it does not fault as long as the tables and the
position have room (`exists_walk`).

The room for the position is `Caret.Room`: a character takes at most one line
and, with the widest tab stops there are, 255 columns.
-/

namespace ModalLexer

/-! ## Room for the position -/

/-- `n` more characters can be passed from the position. -/
structure Caret.Room (p : Caret) (n : Nat) : Prop where
  column_pos : 1 ≤ p.column
  line_lt : p.line + n < Checked.unsignedLimit
  column_lt : p.column + 255 * n < Checked.unsignedLimit

namespace Caret.Room

variable {p : Caret} {n : Nat}

theorem mono {m : Nat} (h : p.Room n) (hle : m ≤ n) : p.Room m := by
  obtain ⟨hpos, hline, hcol⟩ := h
  exact ⟨hpos, by omega, by omega⟩

theorem nextCell (h : p.Room (n + 1)) : ∃ q, p.nextCell = .ok q ∧ q.Room n := by
  obtain ⟨hpos, hline, hcol⟩ := h
  refine ⟨{ p with column := p.column + 1 }, ?_, ⟨?_, ?_, ?_⟩⟩
  · rw [Caret.nextCell, Checked.add_eq_ok (by omega)]
    rfl
  all_goals simp only; omega

theorem nextLine (h : p.Room (n + 1)) : ∃ q, p.nextLine = .ok q ∧ q.Room n := by
  obtain ⟨hpos, hline, hcol⟩ := h
  refine ⟨{ line := p.line + 1, column := 1 }, ?_, ⟨?_, ?_, ?_⟩⟩
  · rw [Caret.nextLine, Checked.add_eq_ok (by omega)]
    rfl
  all_goals simp only; omega

theorem nextTabStop (h : p.Room (n + 1)) (tab : TabWidth) :
    ∃ q, p.nextTabStop tab = .ok q ∧ q.Room n := by
  obtain ⟨hpos, hline, hcol⟩ := h
  have hcells := tab.le_byte
  have hone := tab.one_le
  have hmod := Nat.mod_le (p.column - 1) tab.cells
  refine ⟨{ p with column := p.column - (p.column - 1) % tab.cells + tab.cells },
    ?_, ⟨?_, ?_, ?_⟩⟩
  · rw [Caret.nextTabStop, Checked.sub_eq_ok hpos]
    simp only [bind, Except.bind]
    rw [Checked.add_eq_ok (by omega)]
    rfl
  all_goals simp only; omega

theorem pass (h : p.Room (n + 1)) (tab : TabWidth) (c : Char) :
    ∃ q, p.pass tab c = .ok q ∧ q.Room n := by
  unfold Caret.pass
  split
  · exact h.nextTabStop tab
  · exact h.nextLine
  · exact ⟨p, rfl, h.mono (Nat.le_succ n)⟩
  · exact h.nextCell

end Caret.Room

namespace Automaton

variable {a : Automaton} {tab : TabWidth} {q : StateId} {p : Caret} {s : CharStream} {w : Walk}

/-- No cell number of the row of a state leaves its range. -/
def RowInRange (a : Automaton) (state : StateId) : Prop :=
  ∀ column < a.groupCount, a.groupCount * state + column < Checked.unsignedLimit

/-- No cell number leaves its range, whichever state a walk can be in. -/
structure CellsInRange (a : Automaton) : Prop where
  start : ∀ {mode : ModeId} {state : StateId},
    a.startStates[mode]? = some state → a.RowInRange state
  state : ∀ {state : StateId}, state < a.stateCount → a.RowInRange state

/-- No mode accepts before it has read anything. -/
def NoEmptyMatch (a : Automaton) : Prop :=
  ∀ {mode : ModeId} {state : StateId},
    a.startStates[mode]? = some state → a.terminal? state = none

theorem noEmptyMatch_iff :
    a.NoEmptyMatch ↔ ∀ state ∈ a.startStates, a.terminal? state = none := by
  constructor
  · intro h state hmem
    obtain ⟨mode, hmode⟩ := Array.mem_iff_getElem?.mp hmem
    exact h hmode
  · exact fun h _ _ hmode => h _ (Array.mem_of_getElem? hmode)

theorem cellsInRange_iff :
    a.CellsInRange ↔ (∀ state ∈ a.startStates, a.RowInRange state)
      ∧ ∀ state < a.stateCount, a.RowInRange state := by
  constructor
  · intro h
    refine ⟨fun state hmem => ?_, fun state => h.state⟩
    obtain ⟨mode, hmode⟩ := Array.mem_iff_getElem?.mp hmem
    exact h.start hmode
  · exact fun h => ⟨fun hmode => h.1 _ (Array.mem_of_getElem? hmode), h.2 _⟩

instance : Decidable a.NoEmptyMatch := decidable_of_iff _ noEmptyMatch_iff.symm

instance : Decidable (a.RowInRange q) := Nat.decidableBallLT _ _

instance : Decidable a.CellsInRange := decidable_of_iff _ cellsInRange_iff.symm

theorem exists_next (hrow : a.RowInRange q) (c : Char) :
    ∃ next?, a.next? q c = .ok next? ∧ ∀ next, next? = some next → next < a.stateCount := by
  unfold next?
  split
  · exact ⟨none, rfl, by simp⟩
  · rename_i column hcolumn
    obtain ⟨-, hlt⟩ := Option.filter_eq_some_iff.mp hcolumn
    have hcell := hrow column (of_decide_eq_true hlt)
    rw [Checked.mul_eq_ok (by omega)]
    simp only [bind, Except.bind]
    rw [Checked.add_eq_ok hcell]
    refine ⟨_, rfl, fun next hnext => ?_⟩
    obtain ⟨-, hstate⟩ := Option.filter_eq_some_iff.mp hnext
    exact of_decide_eq_true hstate

/-! ## Where a walk goes -/

theorem walk_moves {M : CharStream → CharStream → Prop} (hM : CharStream.Motion M)
    (h : a.walk tab q p s = .ok w) : M s w.stream := by
  fun_induction Automaton.walk a tab q p s with
  | case1 q p s ahead hp =>
      obtain rfl := Except.ok.inj h
      simpa [hp] using hM.peek s
  | case2 => cases h
  | case3 q p s c ahead hp =>
      obtain rfl := Except.ok.inj h
      simpa [hp] using hM.peek s
  | case4 => cases h
  | case5 q p s c ahead hp next hnext p' hpass ih =>
      have hpeek : M s ahead := by simpa [hp] using hM.peek s
      exact hM.trans hpeek (hM.trans (hM.consume ahead) (ih h))

/-- What passing a character hands on from its index to the next one holds where a
walk ends, if it holds where the walk begins. -/
theorem walk_caret {cs : List Char} {P : Nat → Caret → Prop}
    (hP : ∀ {k : Nat} {m n : Caret} {c : Char}, P k m → cs[k]? = some c →
      m.pass tab c = .ok n → P (k + 1) n)
    (hs : s.Shows cs) (hp : P s.index p) (h : a.walk tab q p s = .ok w) :
    P w.stream.index w.caret := by
  fun_induction Automaton.walk a tab q p s with
  | case1 q p s ahead hpeek =>
      obtain rfl := Except.ok.inj h
      obtain ⟨-, -, hindex, -⟩ := hs.of_peek_eq hpeek
      exact hindex ▸ hp
  | case2 => cases h
  | case3 q p s c ahead hpeek =>
      obtain rfl := Except.ok.inj h
      obtain ⟨-, -, hindex, -⟩ := hs.of_peek_eq hpeek
      exact hindex ▸ hp
  | case4 => cases h
  | case5 q p s c ahead hpeek next hnext p' hpass ih =>
      obtain ⟨hfst, hahead, hindex, -⟩ := hs.of_peek_eq hpeek
      obtain ⟨hlt, -⟩ := List.getElem?_eq_some_iff.mp hfst.symm
      have hconsume := hahead.index_consume_of_lt (hindex ▸ hlt)
      refine ih hahead.consume ?_ h
      rw [hconsume, hindex]
      exact hP hp hfst.symm hpass

/-- A walk passes the characters that it goes over, and no others. -/
theorem passAll_of_walk {cs : List Char} (hs : s.Shows cs) (h : a.walk tab q p s = .ok w) :
    Caret.passAll tab p (cs.extract s.index w.stream.index) = .ok w.caret := by
  refine (walk_caret (P := fun k m => s.index ≤ k
    ∧ Caret.passAll tab p (cs.extract s.index k) = .ok m) ?_ hs ⟨Nat.le_refl _, ?_⟩ h).2
  · rintro k m n c ⟨hle, hpassed⟩ hc hpass
    refine ⟨Nat.le_succ_of_le hle, ?_⟩
    have hc' : (cs.drop s.index)[k - s.index]? = some c := by
      rw [List.getElem?_drop, Nat.add_sub_cancel' hle, hc]
    rw [List.extract_eq_take_drop] at hpassed ⊢
    rw [Nat.succ_sub hle, List.take_add_one, hc']
    exact Caret.passAll_append.mpr ⟨m, hpassed, Caret.passAll_cons.mpr ⟨n, hpass, rfl⟩⟩
  · simp [List.extract_eq_take_drop, Caret.passAll]

/-- A walk stops in front of the character it has no transition for, which is
known by then. If that is where it began, the state is the one it began in. -/
theorem walk_stops {cs : List Char} (hs : s.Shows cs) (h : a.walk tab q p s = .ok w) :
    w.char? = cs[w.stream.index]? ∧ w.stream.KnowsNext
      ∧ (w.stream.index = s.index → w.state = q) := by
  fun_induction Automaton.walk a tab q p s with
  | case1 q p s ahead hp =>
      obtain rfl := Except.ok.inj h
      obtain ⟨hfst, -, hindex, hknows⟩ := hs.of_peek_eq hp
      exact ⟨hindex ▸ hfst, hknows, fun _ => rfl⟩
  | case2 => cases h
  | case3 q p s c ahead hp =>
      obtain rfl := Except.ok.inj h
      obtain ⟨hfst, -, hindex, hknows⟩ := hs.of_peek_eq hp
      exact ⟨hindex ▸ hfst, hknows, fun _ => rfl⟩
  | case4 => cases h
  | case5 q p s c ahead hp next hnext p' hpass ih =>
      obtain ⟨hfst, hahead, hindex, -⟩ := hs.of_peek_eq hp
      have hlt := (List.getElem?_eq_some_iff.mp hfst.symm).1
      have hconsume := hahead.index_consume_of_lt (hindex ▸ hlt)
      have hle := (walk_moves CharStream.Advances.motion h).index_le
      obtain ⟨hchar, hknows, -⟩ := ih hahead.consume h
      exact ⟨hchar, hknows, fun heq => by omega⟩

/-- A walk that ends in an accepting state has moved on, unless a mode accepts
nothing. -/
theorem lt_of_terminal (ha : a.NoEmptyMatch) {cs : List Char} (hs : s.Shows cs) {mode : ModeId}
    (hmode : a.startStates[mode]? = some q) (hwalk : a.walk tab q p s = .ok w)
    {terminal : Terminal} (hterminal : a.terminal? w.state = some terminal) :
    s.index < w.stream.index := by
  obtain ⟨-, -, hstay⟩ := walk_stops hs hwalk
  have hle := (walk_moves CharStream.Advances.motion hwalk).index_le
  refine Nat.lt_of_le_of_ne hle fun heq => ?_
  have hnone := ha hmode
  rw [← hstay heq.symm] at hnone
  cases hterminal.symm.trans hnone

/-- A walk that did not get anywhere for want of characters began at the end. -/
theorem index_of_atEnd {cs : List Char} (hs : s.Shows cs) (hwalk : a.walk tab q p s = .ok w)
    (hend : w.char? = none ∧ w.stream.index = s.index) : s.index = cs.length := by
  obtain ⟨hchar, -, -⟩ := walk_stops hs hwalk
  have hge := List.getElem?_eq_none_iff.mp (hchar.symm.trans hend.1)
  exact Nat.le_antisymm hs.index_le (hend.2 ▸ hge)

theorem lt_of_stuck {cs : List Char} (hs : s.Shows cs) (hwalk : a.walk tab q p s = .ok w)
    (hend : ¬(w.char? = none ∧ w.stream.index = s.index)) :
    s.index < w.stream.index ∨ w.stream.index < cs.length := by
  obtain ⟨hchar, -, -⟩ := walk_stops hs hwalk
  have hle := (walk_moves CharStream.Advances.motion hwalk).index_le
  rcases Nat.lt_or_ge w.stream.index cs.length with hlt | hge
  · exact .inr hlt
  · refine .inl (Nat.lt_of_le_of_ne hle fun heq => hend ⟨?_, heq.symm⟩)
    rw [hchar, List.getElem?_eq_none hge]

/-- With room in the tables and for the position, a walk comes to its end and
leaves room for what it has not read. -/
theorem exists_walk (tab : TabWidth) (ha : a.CellsInRange) {cs : List Char}
    (hs : s.Shows cs) (hrow : a.RowInRange q) (hroom : p.Room (cs.length - s.index)) :
    ∃ w, a.walk tab q p s = .ok w ∧ w.caret.Room (cs.length - w.stream.index) := by
  fun_induction Automaton.walk a tab q p s with
  | case1 q p s ahead hp =>
      obtain ⟨-, -, hindex, -⟩ := hs.of_peek_eq hp
      exact ⟨_, rfl, hindex ▸ hroom⟩
  | case2 q p s c ahead hp f hnext =>
      obtain ⟨next?, hok, -⟩ := exists_next hrow c
      simp [hok] at hnext
  | case3 q p s c ahead hp =>
      obtain ⟨-, -, hindex, -⟩ := hs.of_peek_eq hp
      exact ⟨_, rfl, hindex ▸ hroom⟩
  | case4 q p s c ahead hp next hnext f hpass =>
      obtain ⟨hfst, -⟩ := hs.of_peek_eq hp
      have hlt := (List.getElem?_eq_some_iff.mp hfst.symm).1
      obtain ⟨p', hok, -⟩ := (hroom.mono (by omega : 0 + 1 ≤ _)).pass tab c
      simp [hok] at hpass
  | case5 q p s c ahead hp next hnext p' hpass ih =>
      obtain ⟨hfst, hahead, hindex, -⟩ := hs.of_peek_eq hp
      have hlt := (List.getElem?_eq_some_iff.mp hfst.symm).1
      have hconsume := hahead.index_consume_of_lt (hindex ▸ hlt)
      obtain ⟨next?, hok, hstate⟩ := exists_next hrow c
      obtain rfl := Except.ok.inj (hok.symm.trans hnext)
      obtain ⟨p'', hok', hroom'⟩ :=
        (hroom.mono (by omega : cs.length - ahead.consume.index + 1 ≤ _)).pass tab c
      obtain rfl := Except.ok.inj (hok'.symm.trans hpass)
      exact ih hahead.consume (ha.state (hstate next rfl)) hroom'

/-- A walk depends on its stream by the text from the current index on only. -/
theorem walk_alike {cs : List Char} {t : CharStream} (hs : s.Shows cs) (ht : t.Shows cs)
    (hindex : t.index = s.index) (h : a.walk tab q p s = .ok w) :
    ∃ u, a.walk tab q p t = .ok { w with stream := u } ∧ u.index = w.stream.index := by
  fun_induction Automaton.walk a tab q p s generalizing t with
  | case1 q p s ahead hp =>
      obtain rfl := Except.ok.inj h
      obtain ⟨hfst, -, hahead, -⟩ := hs.of_peek_eq hp
      rcases htp : t.peek with ⟨c?, after⟩
      obtain ⟨hfst', -, hafter, -⟩ := ht.of_peek_eq htp
      obtain rfl : c? = none := by rw [hfst', hindex, ← hfst]
      refine ⟨after, ?_, hafter.trans (hindex.trans hahead.symm)⟩
      rw [walk, htp]
  | case2 => cases h
  | case3 q p s c ahead hp hnext =>
      obtain rfl := Except.ok.inj h
      obtain ⟨hfst, -, hahead, -⟩ := hs.of_peek_eq hp
      rcases htp : t.peek with ⟨c?, after⟩
      obtain ⟨hfst', -, hafter, -⟩ := ht.of_peek_eq htp
      obtain rfl : c? = some c := by rw [hfst', hindex, ← hfst]
      refine ⟨after, ?_, hafter.trans (hindex.trans hahead.symm)⟩
      rw [walk, htp]
      simp only [hnext]
  | case4 => cases h
  | case5 q p s c ahead hp next hnext p' hpass ih =>
      obtain ⟨hfst, hshows, hahead, -⟩ := hs.of_peek_eq hp
      rcases htp : t.peek with ⟨c?, after⟩
      obtain ⟨hfst', hshows', hafter, -⟩ := ht.of_peek_eq htp
      obtain rfl : c? = some c := by rw [hfst', hindex, ← hfst]
      have hlt := (List.getElem?_eq_some_iff.mp hfst.symm).1
      have hconsume := hshows.index_consume_of_lt (hahead ▸ hlt)
      have hconsume' := hshows'.index_consume_of_lt (by rw [hafter, hindex]; exact hlt)
      obtain ⟨u, hu, hrest⟩ := ih hshows.consume hshows'.consume (by omega) h
      refine ⟨u, ?_, hrest⟩
      rw [walk, htp]
      simp only [hnext, hpass, hu]

end Automaton

end ModalLexer
