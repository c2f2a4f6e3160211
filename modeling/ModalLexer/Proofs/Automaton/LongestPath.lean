import ModalLexer.Proofs.Automaton.Effect
import ModalLexer.Proofs.Automaton.Turn
import ModalLexer.Sample

/-!
# Matches as longest paths

The automaton seen apart from streams and positions: a character leads from
one state to another or it does not, and a word leads along a path if every
character of it does. Of the prefixes of a text that lead along a path from a
given state exactly one is the longest (`exists_longestPath`,
`LongestPath.unique`), and this is how far a walk goes (`walk_longest`).

What a match does is then read off the path: it passes the word, and the state
in which the path ends decides about the rest (`MatchesAlong`).
-/

namespace ModalLexer

namespace Automaton

variable {a : Automaton} {q q₁ q₂ : StateId} {c : Char} {text w w₁ w₂ : List Char}

/-! ## Steps -/

/-- The character has a group, and the table has a state in the row of `q` and
the column of the group. -/
def Leads (a : Automaton) (q : StateId) (c : Char) (q' : StateId) : Prop :=
  ∃ g, a.groups.group? c = some g ∧ g < a.groupCount
    ∧ a.transitions[a.groupCount * q + g]? = some q' ∧ q' < a.stateCount

theorem Leads.lt (h : a.Leads q c q₁) : q₁ < a.stateCount := by
  obtain ⟨_, _, _, _, hlt⟩ := h
  exact hlt

theorem Leads.unique (h₁ : a.Leads q c q₁) (h₂ : a.Leads q c q₂) : q₁ = q₂ := by
  obtain ⟨g, hgroup, -, hcell, -⟩ := h₁
  obtain ⟨g', hgroup', -, hcell', -⟩ := h₂
  obtain rfl := Option.some.inj (hgroup.symm.trans hgroup')
  exact Option.some.inj (hcell.symm.trans hcell')

theorem column?_eq_some_iff {g : GroupId} :
    a.column? c = some g ↔ a.groups.group? c = some g ∧ g < a.groupCount := by
  rw [column?, Option.filter_eq_some_iff, decide_eq_true_iff]

/-- Where the cell numbers stay in range, a transition is a step. -/
theorem next?_eq_ok_iff (hrow : a.RowInRange q) {next? : Option StateId} :
    a.next? q c = .ok next? ↔ ∀ q', next? = some q' ↔ a.Leads q c q' := by
  have hnext : ∃ found?, a.next? q c = .ok found? ∧ ∀ q', found? = some q' ↔ a.Leads q c q' := by
    unfold Automaton.next?
    cases hcolumn : a.column? c with
    | none =>
        refine ⟨none, rfl, fun q' => ⟨nofun, ?_⟩⟩
        rintro ⟨g, hgroup, hlt, -⟩
        cases hcolumn.symm.trans (column?_eq_some_iff.mpr ⟨hgroup, hlt⟩)
    | some g =>
        obtain ⟨hgroup, hlt⟩ := column?_eq_some_iff.mp hcolumn
        have hcell := hrow g hlt
        refine ⟨a.transitions[a.groupCount * q + g]?.filter (· < a.stateCount), ?_, ?_⟩
        · rw [Checked.mul_eq_ok (by omega)]
          simp only [bind, Except.bind]
          rw [Checked.add_eq_ok hcell]
          rfl
        · intro q'
          rw [Option.filter_eq_some_iff, decide_eq_true_iff]
          constructor
          · rintro ⟨hentry, hstate⟩
            exact ⟨g, hgroup, hlt, hentry, hstate⟩
          · rintro ⟨g', hgroup', -, hentry, hstate⟩
            obtain rfl := Option.some.inj (hgroup.symm.trans hgroup')
            exact ⟨hentry, hstate⟩
  obtain ⟨found?, hok, hleads⟩ := hnext
  constructor
  · intro h
    obtain rfl := Except.ok.inj (hok.symm.trans h)
    exact hleads
  · intro h
    rw [hok, Option.ext fun q' => (hleads q').trans (h q').symm]

/-! ## Paths -/

/-- The characters of a word lead one after the other from the first state to
the last. -/
inductive Path (a : Automaton) : StateId → List Char → StateId → Prop
  | nil {q : StateId} : Path a q [] q
  | cons {q q₁ q₂ : StateId} {c : Char} {w : List Char} (hstep : a.Leads q c q₁)
      (hrest : Path a q₁ w q₂) : Path a q (c :: w) q₂

theorem Path.unique (h₁ : a.Path q w q₁) (h₂ : a.Path q w q₂) : q₁ = q₂ := by
  induction h₁ with
  | nil => cases h₂; rfl
  | cons hstep _ ih =>
      cases h₂ with
      | cons hstep' hrest' => exact ih (hstep.unique hstep' ▸ hrest')

/-- `w` is the longest prefix of the text along which there is a path from `q`,
and the path ends in `q'`. -/
structure LongestPath (a : Automaton) (q : StateId) (text w : List Char) (q' : StateId) :
    Prop where
  begins : w <+: text
  path : a.Path q w q'
  longest : ∀ {w₁ q₁}, w₁ <+: text → a.Path q w₁ q₁ → w₁.length ≤ w.length

namespace LongestPath

/-- There is but one. -/
theorem unique (h₁ : a.LongestPath q text w₁ q₁) (h₂ : a.LongestPath q text w₂ q₂) :
    w₁ = w₂ ∧ q₁ = q₂ := by
  have hlength : w₁.length = w₂.length :=
    Nat.le_antisymm (h₂.longest h₁.begins h₁.path) (h₁.longest h₂.begins h₂.path)
  obtain rfl : w₁ = w₂ := by
    rw [List.prefix_iff_eq_take.mp h₁.begins, List.prefix_iff_eq_take.mp h₂.begins, hlength]
  exact ⟨rfl, h₁.path.unique h₂.path⟩

/-- It is empty if the text is, or begins with a character that does not lead
on. -/
theorem nil (hstuck : ∀ c ∈ text.head?, ∀ q', ¬a.Leads q c q') :
    a.LongestPath q text [] q where
  begins := List.nil_prefix
  path := .nil
  longest := by
    intro w₁ q₁ hbegins hpath
    cases hpath with
    | nil => exact Nat.le_refl _
    | @cons _ _ _ c w hstep _ =>
        obtain ⟨rest, rfl⟩ := hbegins
        exact absurd hstep (hstuck c (by simp) _)

/-- It goes on over a character that leads on. -/
theorem cons (hstep : a.Leads q c q₁) (hrest : a.LongestPath q₁ text w q₂) :
    a.LongestPath q (c :: text) (c :: w) q₂ where
  begins := List.cons_prefix_cons.mpr ⟨rfl, hrest.begins⟩
  path := .cons hstep hrest.path
  longest := by
    intro w₁ q' hbegins hpath
    cases hpath with
    | nil => exact Nat.zero_le _
    | cons hstep' hrest' =>
        obtain ⟨rfl, hbegins'⟩ := List.cons_prefix_cons.mp hbegins
        obtain rfl := hstep.unique hstep'
        exact Nat.succ_le_succ (hrest.longest hbegins' hrest')

end LongestPath

/-- From every state some prefix of the text is the longest. -/
theorem exists_longestPath (a : Automaton) (text : List Char) (q : StateId) :
    ∃ w q', a.LongestPath q text w q' := by
  induction text generalizing q with
  | nil => exact ⟨[], q, .nil (by simp)⟩
  | cons c text ih =>
      by_cases hstep : ∃ q', a.Leads q c q'
      · obtain ⟨q₁, hstep⟩ := hstep
        obtain ⟨w, q', hrest⟩ := ih q₁
        exact ⟨c :: w, q', .cons hstep hrest⟩
      · refine ⟨[], q, .nil fun d hd q' hleads => hstep ⟨q', ?_⟩⟩
        obtain rfl := Option.some.inj hd
        exact hleads

/-! ## Walks -/

/-- What a walk does along the longest path: it ends behind the word in the
state of the path, unless the position cannot pass the word. -/
def WalksAlong (tab : TabWidth) (p : Caret) (s : CharStream) (w : List Char) (q' : StateId)
    (walk : Except Fault Walk) : Prop :=
  match p.passAll tab w with
  | .error fault => walk = .error fault
  | .ok p' => ∃ stop, walk = .ok stop ∧ stop.caret = p' ∧ stop.state = q'
      ∧ stop.stream.index = s.index + w.length

/-- A walk goes as far as the longest path. -/
theorem walk_longest (ha : a.CellsInRange) (tab : TabWidth) (p : Caret) {s : CharStream}
    {cs : List Char} (hs : s.Shows cs) (hrow : a.RowInRange q) :
    ∃ w q', a.LongestPath q (cs.drop s.index) w q'
      ∧ WalksAlong tab p s w q' (a.walk tab q p s) := by
  fun_induction Automaton.walk a tab q p s with
  | case1 q p s ahead hp =>
      obtain ⟨hfst, -, hindex, -⟩ := hs.of_peek_eq hp
      have hnil := List.drop_of_length_le (List.getElem?_eq_none_iff.mp hfst.symm)
      exact ⟨[], q, .nil (by simp [hnil]), ⟨_, rfl, rfl, rfl, hindex⟩⟩
  | case2 q p s c ahead hp fault hnext =>
      obtain ⟨next?, hok, -⟩ := exists_next hrow c
      cases hok.symm.trans hnext
  | case3 q p s c ahead hp hnext =>
      obtain ⟨hfst, -, hindex, -⟩ := hs.of_peek_eq hp
      have hleads := (next?_eq_ok_iff hrow).mp hnext
      refine ⟨[], q, .nil fun d hd q' hstep => ?_, ⟨_, rfl, rfl, rfl, hindex⟩⟩
      rw [List.head?_drop, ← hfst] at hd
      obtain rfl := Option.some.inj hd
      cases (hleads q').mpr hstep
  | case4 q p s c ahead hp next hnext fault hpass =>
      obtain ⟨hfst, -⟩ := hs.of_peek_eq hp
      have hstep := ((next?_eq_ok_iff hrow).mp hnext next).mp rfl
      obtain ⟨w, q', hrest⟩ := a.exists_longestPath (cs.drop (s.index + 1)) next
      obtain ⟨hlt, hc⟩ := List.getElem?_eq_some_iff.mp hfst.symm
      refine ⟨c :: w, q', ?_, ?_⟩
      · rw [List.drop_eq_getElem_cons hlt, hc]
        exact .cons hstep hrest
      · simp only [WalksAlong, Caret.passAll, hpass]
  | case5 q p s c ahead hp next hnext p' hpass ih =>
      obtain ⟨hfst, hahead, hindex, -⟩ := hs.of_peek_eq hp
      have hstep := ((next?_eq_ok_iff hrow).mp hnext next).mp rfl
      obtain ⟨hlt, hc⟩ := List.getElem?_eq_some_iff.mp hfst.symm
      have hconsume := hahead.index_consume_of_lt (hindex ▸ hlt)
      obtain ⟨w, q', hrest, hwalk⟩ := ih hahead.consume (ha.state hstep.lt)
      rw [hconsume, hindex] at hrest
      refine ⟨c :: w, q', ?_, ?_⟩
      · rw [List.drop_eq_getElem_cons hlt, hc]
        exact .cons hstep hrest
      · simp only [WalksAlong, Caret.passAll, hpass, hconsume, hindex, List.length_cons] at hwalk ⊢
        split at hwalk
        · exact hwalk
        · obtain ⟨stop, hstop, hcaret, hstate, hstopped⟩ := hwalk
          exact ⟨stop, hstop, hcaret, hstate, by omega⟩

section

variable {tab : TabWidth} {p : Caret} {s : CharStream} {cs : List Char} {stop : Walk}

/-- What is left after a walk over a word. -/
theorem rest_of_walk (hs : s.Shows cs) (h : a.walk tab q p s = .ok stop)
    (hindex : stop.stream.index = s.index + w.length) :
    stop.stream.drain.1 = s.drain.1.drop w.length
      ∧ stop.char? = (s.drain.1.drop w.length).head? := by
  have hshown := (walk_moves CharStream.Advances.motion h).shows hs
  have hrest : stop.stream.drain.1 = s.drain.1.drop w.length := by
    rw [hshown.drain, hs.drain, hindex, List.drop_drop]
  refine ⟨hrest, ?_⟩
  rw [(walk_stops hs h).1, ← hrest, hshown.drain, List.head?_drop]

/-- A walk ends where it began and at the end if there was nothing to go over. -/
theorem atEnd_of_walk (hs : s.Shows cs) (h : a.walk tab q p s = .ok stop)
    (hindex : stop.stream.index = s.index + w.length) :
    (stop.char? = none ∧ stop.stream.index = s.index) ↔ w = [] ∧ s.drain.1 = [] := by
  rw [(rest_of_walk hs h hindex).2, hindex, List.head?_eq_none_iff]
  constructor
  · rintro ⟨hnil, hlength⟩
    obtain rfl : w = [] := List.eq_nil_of_length_eq_zero (Nat.add_left_cancel hlength)
    exact ⟨rfl, hnil⟩
  · rintro ⟨rfl, hnil⟩
    exact ⟨by rw [hnil]; rfl, rfl⟩

end

end Automaton

/-! ## Matches -/

namespace CharStream

/-- What can be quoted of a word that has just been passed. -/
theorem Advances.slice_passed {s t : CharStream} {cs w : List Char} (hadv : s.Advances t)
    (hs : s.Shows cs) (hw : w <+: cs.drop s.index) (hindex : t.index = s.index + w.length) :
    t.slice s.index t.index = if s.outstanding = some 0 then "" else String.ofList w := by
  split
  · rename_i hnone
    exact slice_of_unmarked (hadv.outstanding_eq.trans hnone)
  · rename_i hsome
    have hkeep := hadv.keepsFrom (keepsFrom_index hsome)
    rw [(hadv.shows hs).slice hkeep (Nat.le_refl _), List.extract_eq_take_drop, hindex,
      Nat.add_sub_cancel_left, ← List.prefix_iff_eq_take.mp hw]

end CharStream

namespace Head

/-- A match in the mode passes the word `w` along the longest path, which ends
in state `q`, and the position is `p` then. -/
structure MatchesAlong (h : Head TableRecognizer) (mode : ModeId) (w : List Char) (q : StateId)
    (p : Caret) (h' : Head TableRecognizer) (found : Except LexerError Finding) : Prop where
  index : h'.index = h.index + w.length
  /-- What comes then is what comes behind the word. -/
  rest : h'.stream.drain.1 = h.stream.drain.1.drop w.length
  recognizer : h'.recognizer = { h.recognizer with caret := p, matchStart := h.index }
  /-- A state with a terminal accepts the word, and the terminal is carried out
  once or fails. -/
  accepts : ∀ t, h.recognizer.automaton.terminal? q = some t →
    (∃ s, t.apply h.state = .ok s ∧ h'.state = s ∧ found = .ok (.matched t.action.tokenType))
      ∨ (t.apply h.state = .error (.emptyModeStack h.state.mode) ∧ h'.state = h.state
        ∧ found = .error (.emptyModeStack h.state.mode))
  /-- Without a terminal, the end of the stream is a match by itself. -/
  atEnd : h.recognizer.automaton.terminal? q = none → w = [] ∧ h.stream.drain.1 = [] →
    h'.state = h.state ∧ found = .ok (.matched (.type eofType))
  /-- Anything else fails where the match began. -/
  stuck : h.recognizer.automaton.terminal? q = none → ¬(w = [] ∧ h.stream.drain.1 = []) →
    h'.state = h.state ∧ found = .ok (.noRule {
      index := h.index
      line := h.caret.line
      column := h.caret.column
      char? := (h.stream.drain.1.drop w.length).head?
      mode
      text := if h.stream.outstanding = some 0 then "" else String.ofList w })

variable {h : Head TableRecognizer} {mode : ModeId} {start : StateId}

/-- Where the walk ends decides what the match is. -/
theorem exists_matchesAlong {cs w : List Char} {q : StateId} {stop : Automaton.Walk}
    (hs : h.stream.Shows cs) (hmode : h.recognizer.automaton.startStates[mode]? = some start)
    (hpath : h.recognizer.automaton.LongestPath start (cs.drop h.index) w q)
    (hwalk : h.recognizer.automaton.walk h.recognizer.tab start h.recognizer.caret h.stream
      = .ok stop)
    (hstate : stop.state = q) (hindex : stop.stream.index = h.index + w.length) :
    ∃ events h' found, h.matchToken mode = { events, outcome := .ok (h', found) }
      ∧ h.MatchesAlong mode w q stop.caret h' found := by
  have hadv := Automaton.walk_moves CharStream.Advances.motion hwalk
  obtain ⟨hrest, hchar⟩ := Automaton.rest_of_walk hs hwalk hindex
  have hend := Automaton.atEnd_of_walk hs hwalk hindex
  subst hstate
  cases hterminal : h.recognizer.automaton.terminal? stop.state with
  | some t =>
      have hscan := TableRecognizer.scan_eq_ok.mpr (.accepted hmode hwalk hterminal)
      obtain ⟨events, state, failure, hperform, hmatch⟩ := h.exists_matchToken_of_scan mode hscan
      refine ⟨events, _, _, hmatch, {
        index := hindex
        rest := hrest
        recognizer := rfl
        accepts := ?_
        atEnd := fun hnone => absurd (hterminal.symm.trans hnone) (Option.some_ne_none t)
        stuck := fun hnone => absurd (hterminal.symm.trans hnone) (Option.some_ne_none t) }⟩
      intro t' hterminal'
      obtain rfl := Option.some.inj (hterminal.symm.trans hterminal')
      obtain ⟨happly, rfl⟩ | ⟨e, happly, rfl, rfl⟩ := Terminal.perform_actions_eq_ok hperform
      · exact .inl ⟨state, happly, rfl, rfl⟩
      · obtain ⟨-, -, rfl⟩ := Terminal.apply_eq_error_iff.mp happly
        exact .inr ⟨happly, rfl, rfl⟩
  | none =>
      have hnot : ∀ t, h.recognizer.automaton.terminal? stop.state ≠ some t := by
        simp [hterminal]
      by_cases hatEnd : stop.char? = none ∧ stop.stream.index = h.stream.index
      · have hscan := TableRecognizer.scan_eq_ok.mpr (.atEnd hmode hwalk hterminal hatEnd)
        obtain ⟨events, state, failure, hperform, hmatch⟩ := h.exists_matchToken_of_scan mode hscan
        obtain ⟨rfl, rfl⟩ := Prod.mk.inj (Except.ok.inj hperform)
        exact ⟨events, _, _, hmatch, {
          index := hindex
          rest := hrest
          recognizer := rfl
          accepts := fun t ht => absurd ht (hnot t)
          atEnd := fun _ _ => ⟨rfl, rfl⟩
          stuck := fun _ hstuck => absurd (hend.mp hatEnd) hstuck }⟩
      · have hscan := TableRecognizer.scan_eq_ok.mpr (.stuck hmode hwalk hterminal hatEnd)
        obtain ⟨events, state, failure, hperform, hmatch⟩ := h.exists_matchToken_of_scan mode hscan
        obtain ⟨rfl, rfl⟩ := Prod.mk.inj (Except.ok.inj hperform)
        refine ⟨events, _, _, hmatch, {
          index := hindex
          rest := hrest
          recognizer := rfl
          accepts := fun t ht => absurd ht (hnot t)
          atEnd := fun _ hnil => absurd (hend.mpr hnil) hatEnd
          stuck := fun _ _ => ⟨rfl, ?_⟩ }⟩
        simp only [TableRecognizer.errorSite, hchar, hadv.slice_passed hs hpath.begins hindex]
        rfl

/-- A walk that faults is the end of the match. -/
theorem outcome_of_walk_eq_error {fault : Fault}
    (hmode : h.recognizer.automaton.startStates[mode]? = some start)
    (hwalk : h.recognizer.automaton.walk h.recognizer.tab start h.recognizer.caret h.stream
      = .error fault) : (h.matchToken mode).outcome = .error fault := by
  have hscan : (h.recognizer.scan h.stream mode).outcome = .error fault := by
    unfold TableRecognizer.scan
    simp only [hmode, hwalk]
    rfl
  exact congrArg Run.outcome (Run.bind_of_error hscan _)

/-- A match in a mode that does not exist changes nothing. In any other, the
longest prefix of what is left that leads along a path from the start state is
passed, and the rest is told by the state where the path ends; only a position
that cannot pass the prefix cuts the match short. -/
theorem matchToken_longest (h : Head TableRecognizer) (mode : ModeId)
    (ha : h.recognizer.automaton.CellsInRange) :
    (h.recognizer.automaton.startStates[mode]? = none →
        h.matchToken mode = pure (h, .error (.unknownMode mode)))
      ∧ ∀ start, h.recognizer.automaton.startStates[mode]? = some start →
        ∃ w q, h.recognizer.automaton.LongestPath start h.stream.drain.1 w q
          ∧ (∀ w' q', h.recognizer.automaton.LongestPath start h.stream.drain.1 w' q' →
            w' = w ∧ q' = q)
          ∧ match h.caret.passAll h.recognizer.tab w with
            | .error fault => (h.matchToken mode).outcome = .error fault
            | .ok p => ∃ events h' found, h.matchToken mode = { events, outcome := .ok (h', found) }
                ∧ h.MatchesAlong mode w q p h' found := by
  obtain ⟨cs, hs⟩ := h.stream.exists_shows
  constructor
  · intro hmode
    have hscan := TableRecognizer.scan_eq_ok.mpr (.unknown (s := h.stream) hmode)
    obtain ⟨events, state, failure, hperform, hmatch⟩ := h.exists_matchToken_of_scan mode hscan
    obtain ⟨rfl, rfl⟩ := Prod.mk.inj (Except.ok.inj hperform)
    refine Run.ext ?_ (by rw [hmatch]; rfl)
    unfold matchToken
    rw [show Recognizer.scan h.recognizer h.stream mode h.state = _ from hscan]
    rfl
  · intro start hmode
    obtain ⟨w, q, hpath, hwalk⟩ :=
      Automaton.walk_longest ha h.recognizer.tab h.recognizer.caret hs (ha.start hmode)
    refine ⟨w, q, hs.drain ▸ hpath, ?_, ?_⟩
    · intro w' q' hpath'
      rw [hs.drain] at hpath'
      exact hpath'.unique hpath
    · change match h.recognizer.caret.passAll h.recognizer.tab w with
        | .error fault => _
        | .ok p => _
      unfold Automaton.WalksAlong at hwalk
      split at hwalk
      · rename_i fault _
        exact outcome_of_walk_eq_error hmode hwalk
      · obtain ⟨stop, hstop, rfl, hstate, hindex⟩ := hwalk
        exact exists_matchesAlong hs hmode hpath hstop hstate hindex

/-- A quotation up to its closing quote, in a mode that was not entered from
another: the text is passed, and the match fails. -/
theorem matchToken_longest_unopened :
    let h : Head TableRecognizer := {
      stream := .ofString "ab\"c"
      recognizer := { automaton := Sample.quotations }
      state := { mode := 1 } }
    ∃ events h', h.matchToken 1 = { events, outcome := .ok (h', .error (.emptyModeStack 1)) }
      ∧ h'.index = 3 ∧ h'.stream.drain.1 = ['c'] ∧ h'.caret = { column := 4 }
      ∧ h'.state = h.state := by
  intro h
  have hdrain : h.stream.drain.1 = ['a', 'b', '"', 'c'] := (CharStream.shows_ofString ..).drain
  have hlongest : Sample.quotations.LongestPath 1 h.stream.drain.1 ['a', 'b', '"'] 7 := by
    rw [hdrain]
    have hletter : Sample.quotations.Leads 1 'a' 2 := ⟨0, by decide +kernel⟩
    have hletter' : Sample.quotations.Leads 2 'b' 2 := ⟨0, by decide +kernel⟩
    have hquote : Sample.quotations.Leads 2 '"' 7 := ⟨3, by decide +kernel⟩
    refine .cons hletter (.cons hletter' (.cons hquote (.nil ?_)))
    rintro c hc q' ⟨g, hgroup, -, hcell, hstate⟩
    obtain rfl := Option.some.inj hc
    obtain rfl : 0 = g := Option.some.inj
      ((by decide +kernel : Sample.quotations.groups.group? 'c' = some 0).symm.trans hgroup)
    obtain rfl : 9 = q' := Option.some.inj hcell
    exact absurd hstate (by decide)
  obtain ⟨-, hmode⟩ := matchToken_longest h 1 (by decide)
  obtain ⟨w, q, -, hunique, hmatch⟩ := hmode 1 rfl
  obtain ⟨rfl, rfl⟩ := hunique _ _ hlongest
  obtain ⟨events, h', found, hrun, halong⟩ := hmatch
  rcases halong.accepts _ rfl with ⟨s, happly, -, -⟩ | ⟨-, hstate, rfl⟩
  · cases happly
  · refine ⟨events, h', hrun, halong.index, ?_, ?_, hstate⟩
    · rw [halong.rest, hdrain]
      rfl
    · rw [caret, halong.recognizer]
      rfl

end Head

end ModalLexer
