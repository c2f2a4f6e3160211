import ModalLexer.Proofs.Automaton.Room

/-!
# Bounds of the numbers in a call

A character leads down by one line at most, and to the right by 255 columns at
most. So the index bounds the position (`Caret.Bounded`), in whichever way the
recognizer goes on in the text, and that leaves room to the end of every text
that is not enormous. With this room nothing that a call computes leaves its
range. It does not matter whether the call comes to its end: tables that accept
nothing can keep it going for ever, so what is shown of the loops is shown for
every limit on their rounds (`inRange_assemble`, `inRange_produce`).
-/

namespace ModalLexer

/-! ## Runs in which nothing leaves its range -/

/-- No number has left its range. If the run was cut short, a loop would not
end. -/
def Run.InRange {α : Type} (x : Run α) : Prop :=
  ∀ fault, x.outcome = .error fault → fault = .stepLimit

namespace Run

variable {α β : Type} {x : Run α}

theorem inRange_of_ok {a : α} (h : x.outcome = .ok a) : x.InRange := by
  intro fault hfault
  cases h.symm.trans hfault

theorem inRange_stepLimit : (Run.fail .stepLimit : Run α).InRange := by
  intro fault hfault
  exact (Except.error.inj hfault).symm

theorem InRange.bind (hx : x.InRange) {f : α → Run β}
    (hf : ∀ events a, x = { events, outcome := .ok a } → (f a).InRange) :
    (x >>= f).InRange := by
  intro fault hfault
  cases hout : x.outcome with
  | ok a =>
      rw [bind_of_ok hout] at hfault
      exact hf x.events a (Run.ext rfl hout) fault hfault
  | error _ =>
      rw [bind_of_error hout] at hfault
      obtain rfl := Except.error.inj hfault
      exact hx _ hout

theorem InRange.map (hx : x.InRange) (f : α → β) : (f <$> x).InRange := by
  rw [← bind_pure_eq_map]
  exact hx.bind fun _ a _ => inRange_of_ok (outcome_pure (f a))

end Run

/-! ## Positions bounded by the index -/

/-- The position can be that of the index in some text. -/
structure Caret.Bounded (p : Caret) (index : Nat) : Prop where
  one_le_line : 1 ≤ p.line
  line_le : p.line ≤ 1 + index
  one_le_column : 1 ≤ p.column
  column_le : p.column ≤ 1 + 255 * index

namespace Caret.Bounded

variable {tab : TabWidth} {p q : Caret} {i j : Nat}

theorem zero : Caret.Bounded {} 0 := ⟨Nat.le_refl 1, Nat.le_refl 1, Nat.le_refl 1, Nat.le_refl 1⟩

theorem mono (h : p.Bounded i) (hle : i ≤ j) : p.Bounded j := by
  obtain ⟨hline, hline', hcolumn, hcolumn'⟩ := h
  exact ⟨hline, by omega, hcolumn, by omega⟩

theorem nextCell (h : p.Bounded i) (hnext : p.nextCell = .ok q) : q.Bounded (i + 1) := by
  obtain ⟨hline, hline', hcolumn, hcolumn'⟩ := h
  obtain ⟨column, hadd, hq⟩ := Checked.bind_eq_ok.mp hnext
  obtain rfl := Except.ok.inj hq
  obtain rfl := Checked.eq_of_add_eq_ok hadd
  exact ⟨hline, by simp only; omega, by simp only; omega, by simp only; omega⟩

theorem nextLine (h : p.Bounded i) (hnext : p.nextLine = .ok q) : q.Bounded (i + 1) := by
  obtain ⟨hline, hline', -, -⟩ := h
  obtain ⟨line, hadd, hq⟩ := Checked.bind_eq_ok.mp hnext
  obtain rfl := Except.ok.inj hq
  obtain rfl := Checked.eq_of_add_eq_ok hadd
  exact ⟨by simp only; omega, by simp only; omega, Nat.le_refl 1, by simp only; omega⟩

/-- The next tab stop is farther to the right by a tab width at most. -/
theorem nextTabStop (h : p.Bounded i) (hnext : p.nextTabStop tab = .ok q) : q.Bounded (i + 1) := by
  obtain ⟨hline, hline', hcolumn, hcolumn'⟩ := h
  obtain ⟨cellsBefore, -, hstop⟩ := Checked.bind_eq_ok.mp hnext
  obtain ⟨column, hadd, hq⟩ := Checked.bind_eq_ok.mp hstop
  obtain rfl := Except.ok.inj hq
  obtain rfl := Checked.eq_of_add_eq_ok hadd
  have hone := tab.one_le
  have hcells := tab.le_byte
  exact ⟨hline, by simp only; omega, by simp only; omega, by simp only; omega⟩

theorem pass (h : p.Bounded i) {c : Char} (hpass : p.pass tab c = .ok q) : q.Bounded (i + 1) := by
  unfold Caret.pass at hpass
  split at hpass
  · exact h.nextTabStop hpass
  · exact h.nextLine hpass
  · obtain rfl := Except.ok.inj hpass
    exact h.mono (Nat.le_succ i)
  · exact h.nextCell hpass

/-- There is room for the rest of the text. -/
theorem room (h : p.Bounded i) (hle : i ≤ j) (hlt : 1 + 255 * j < Checked.unsignedLimit) :
    p.Room (j - i) := by
  obtain ⟨-, hline, hcolumn, hcolumn'⟩ := h
  exact ⟨hcolumn, by omega, by omega⟩

end Caret.Bounded

/-! ## The recognizer -/

namespace TableRecognizer

variable {cs : List Char} {r : TableRecognizer} {s : CharStream}

/-- The index of the stream bounds the position. -/
structure Bounded (cs : List Char) (r : TableRecognizer) (s : CharStream) : Prop where
  shows : s.Shows cs
  caret : r.caret.Bounded s.index

theorem bounded_iff : r.Bounded cs s ↔ s.Shows cs ∧ r.caret.Bounded s.index :=
  ⟨fun h => ⟨h.1, h.2⟩, fun h => ⟨h.1, h.2⟩⟩

/-- Whatever the recognizer does, the index bounds the position. -/
theorem bounded_invariant (cs : List Char) :
    Recognizer.Invariant TableRecognizer (Bounded cs) := by
  have heq : Bounded cs = fun r s => s.Shows cs ∧ r.caret.Bounded s.index := by
    funext r s
    exact propext bounded_iff
  rw [heq]
  refine caret_invariant (P := fun _ k p => p.Bounded k) ?_
  intro tab k p q c hp _ hpass
  exact hp.pass hpass

end TableRecognizer

namespace Head

/-! ## On the way of a call -/

section Visits

variable {ρ : Type} [Recognizer ρ]

/-- What a call that begins in `h` can come by: it begins candidates, and it
goes on by matches and by single characters. -/
inductive Visits (reporter : Reporter) (h : Head ρ) : Head ρ → Prop
  | here : Visits reporter h h
  | begun {h₁ : Head ρ} (hvisits : Visits reporter h h₁) : Visits reporter h h₁.begun
  | turn {h₁ h₂ : Head ρ} {events : List Event} {decision : Except LexerError TokenType}
      (hvisits : Visits reporter h h₁) (hturn : h₁.Turn reporter events h₂ decision) :
      Visits reporter h h₂
  | char {h₁ h₂ : Head ρ} (hvisits : Visits reporter h h₁) (hconsume : h₁.consume = .ok h₂) :
      Visits reporter h h₂

variable {reporter : Reporter} {h h' : Head ρ}

/-- What the recognizer keeps holds all the way. -/
theorem Visits.keeps {P : ρ → CharStream → Prop} (hP : Recognizer.Invariant ρ P)
    (hh : P h.recognizer h.stream) (hvisits : h.Visits reporter h') :
    P h'.recognizer h'.stream := by
  induction hvisits with
  | here | begun => assumption
  | turn _ hturn ih => exact hturn.keeps hP ih
  | char _ hconsume ih =>
      obtain ⟨r, s, hr, rfl⟩ := consume_eq_ok.mp hconsume
      exact hP.consume ih hr

theorem Visits.moves {M : CharStream → CharStream → Prop} (hM : CharStream.Motion M)
    (hρ : Recognizer.MovesBy ρ M) (hvisits : h.Visits reporter h') : M h.stream h'.stream :=
  hvisits.keeps (hρ.invariant hM h.stream) (hM.refl _)

end Visits

variable {cs : List Char} {start : Start} {reporter : Reporter}
  {h h' : Head TableRecognizer} {events : List Event}

/-- The index bounds the position. -/
def Bounded (cs : List Char) (h : Head TableRecognizer) : Prop :=
  h.recognizer.Bounded cs h.stream

theorem Bounded.caretRoom (hbounded : h.Bounded cs)
    (hlength : 1 + 255 * cs.length < Checked.unsignedLimit) : h.CaretRoom cs :=
  hbounded.caret.room hbounded.shows.index_le hlength

/-- What is computed at the head without a check would pass one. -/
structure Checks (h : Head TableRecognizer) : Prop where
  /-- The index at which the next character is looked up. -/
  lookahead : h.stream.lookahead 1 = .ok h.stream.peek
  /-- The index behind it. -/
  next : Checked.add h.index 1 = .ok (h.index + 1)
  /-- The last index of a token that ends here. -/
  stop : Checked.subSigned (Checked.toSigned h.index) 1 = .ok ((h.index : Int) - 1)
  /-- The tab stop that was passed last. -/
  tabStop : Checked.sub h.caret.column ((h.caret.column - 1) % h.recognizer.tab.cells)
    = .ok (h.caret.column - (h.caret.column - 1) % h.recognizer.tab.cells)
  /-- The place of an accepting state among the terminals. -/
  terminal : ∀ {state : StateId} {t : Terminal},
    h.recognizer.automaton.terminal? state = some t →
      ∃ i, Checked.sub state h.recognizer.automaton.firstAccepting = .ok i
        ∧ h.recognizer.automaton.terminals[i]? = some t

/-- The next character of a text is found where it is looked up. -/
theorem lookahead_one {s : CharStream} (htext : s.outstanding = none)
    (hlt : s.index + 1 < Checked.unsignedLimit) : s.lookahead 1 = .ok s.peek := by
  cases s with
  | reader r => cases htext
  | text t =>
      have hadd : Checked.add t.position 1 = .ok (t.position + 1) := Checked.add_eq_ok hlt
      simp only [CharStream.lookahead, TextStream.lookahead, hadd]
      rfl

/-- Over a text that is not enormous, a bounded position is all it takes. -/
theorem Bounded.checks (hbounded : h.Bounded cs) (htext : h.stream.outstanding = none)
    (hlength : 1 + 255 * cs.length < Checked.unsignedLimit) : h.Checks := by
  have hle : h.index ≤ cs.length := hbounded.shows.index_le
  have hnext : h.index + 1 < Checked.unsignedLimit := by omega
  have hsigned : h.index < Checked.signedLimit := by
    simp only [Checked.unsignedLimit] at hlength
    simp only [Checked.signedLimit]
    omega
  refine ⟨lookahead_one htext hnext, Checked.add_eq_ok hnext, ?_, ?_, ?_⟩
  · rw [Checked.toSigned_of_lt hsigned, Checked.subSigned, if_pos]
    constructor <;> simp only [Checked.signedLimit] at hsigned ⊢ <;> omega
  · refine Checked.sub_eq_ok ?_
    exact Nat.le_trans (Nat.mod_le ..) (Nat.sub_le ..)
  · intro state t hterminal
    unfold Automaton.terminal? at hterminal
    split at hterminal
    · rename_i haccepting
      exact ⟨_, Checked.sub_eq_ok haccepting.1, hterminal⟩
    · cases hterminal

/-! ## A candidate -/

theorem Turn.sameCandidate {decision : Except LexerError TokenType}
    (hturn : h.Turn reporter events h' decision) : h.SameCandidate h' where
  automaton := hturn.keeps (TableRecognizer.keepsAutomaton _) rfl
  lastToken? := hturn.lastToken?_eq
  start? := hturn.start?_eq

theorem Assembles.sameCandidate {decision : Except LexerError TokenType}
    (hcandidate : h.Assembles reporter events h' decision) : h.SameCandidate h' := by
  induction hcandidate with
  | last hturn _ => exact hturn.sameCandidate
  | more hturn _ ih => exact hturn.sameCandidate.trans ih

/-- No terminal emits a token. -/
theorem Turn.token?_eq {type : TokenType} (hturn : h.Turn reporter events h' (.ok type)) :
    h'.state.token? = h.state.token? := by
  cases hturn with
  | decided hmatch hsettle hfinal =>
      obtain ⟨-, -, htoken⟩ := untouched_of_matchToken hmatch
      obtain ⟨hstate, -⟩ := settle_state hsettle
      obtain ⟨-, rfl⟩ := Prod.mk.inj hfinal
      rw [noteEof_eq]
      simp only [State.setType, hstate]
      exact htoken

theorem Assembles.token?_eq {decision : Except LexerError TokenType}
    (hcandidate : h.Assembles reporter events h' decision) {type : TokenType}
    (hok : decision = .ok type) : h'.state.token? = h.state.token? := by
  induction hcandidate with
  | last hturn _ =>
      subst hok
      exact hturn.token?_eq
  | more hturn _ ih => exact (ih hok).trans hturn.token?_eq

/-- However often a candidate is extended, nothing leaves its range. -/
theorem inRange_assemble (hlength : 1 + 255 * cs.length < Checked.unsignedLimit) :
    ∀ {limit : Nat} {h : Head TableRecognizer}, h.recognizer.automaton.CellsInRange →
      h.Bounded cs → (h.assemble reporter limit).InRange
  | 0, _, _, _ => Run.inRange_stepLimit
  | limit + 1, h, hcells, hbounded => by
      obtain ⟨events, h₁, decision, hturn, -⟩ :=
        exists_turn reporter hcells hbounded.shows (hbounded.caretRoom hlength)
      have hstep := step_eq_ok.mpr hturn
      refine Run.InRange.bind (Run.inRange_of_ok (congrArg Run.outcome hstep)) ?_
      intro events' found hfound
      obtain ⟨rfl, hok⟩ := Run.mk.inj (hstep.symm.trans hfound)
      obtain rfl := Except.ok.inj hok
      simp only
      split
      · have hcells₁ := hturn.sameCandidate.automaton ▸ hcells
        exact inRange_assemble hlength hcells₁
          (hturn.keeps (TableRecognizer.bounded_invariant cs) hbounded)
      · exact Run.inRange_of_ok (Run.outcome_pure _)

/-! ## A call -/

/-- All that it takes for a call to stay in range. -/
structure Fit (cs : List Char) (h : Head TableRecognizer) : Prop where
  cells : h.recognizer.automaton.CellsInRange
  bounded : h.Bounded cs
  keeps : h.stream.KeepsFrom h.index
  length_lt : 1 + 255 * cs.length < Checked.unsignedLimit
  lastToken : ∀ t, h.state.lastToken? = some t → t.HasEnd

namespace Fit

theorem room (hfit : h.Fit cs) : h.HasRoom cs where
  caret := hfit.bounded.caretRoom hfit.length_lt
  length_lt := by
    have hlt := hfit.length_lt
    simp only [Checked.unsignedLimit] at hlt
    simp only [Checked.signedLimit]
    omega
  lastToken := hfit.lastToken

/-- What a candidate leaves is as fit, and the candidate has not been emitted as
a token of its own. -/
theorem assembles (hfit : h.Fit cs) {decision : Except LexerError TokenType}
    (hcandidate : h.begun.Assembles reporter events h' decision) :
    h'.Fit cs ∧ h'.InCandidate cs h.here
      ∧ ∀ type, decision = .ok type → h'.state.token? = none := by
  have hsame := hcandidate.sameCandidate
  have hadv := hcandidate.moves CharStream.Advances.motion TableRecognizer.advances
  have hin : h'.InCandidate cs h.here :=
    (inCandidate_begun hfit.bounded.shows hfit.keeps).of_advances hadv hsame
  refine ⟨⟨hsame.automaton ▸ hfit.cells, ?_, hin.keeps.mono hin.start_le, hfit.length_lt, ?_⟩,
    hin, fun type hok => hcandidate.token?_eq hok⟩
  · exact hcandidate.keeps (h := h.begun) (TableRecognizer.bounded_invariant cs) hfit.bounded
  · intro t ht
    exact hfit.lastToken t (hsame.lastToken?.symm.trans ht)

/-- A token that is given out has an end, and the call could go on. -/
theorem give (hfit : h.Fit cs) {t : Token} (ht : t.HasEnd) : (h.give t).Fit cs where
  cells := hfit.cells
  bounded := hfit.bounded
  keeps := hfit.keeps
  length_lt := hfit.length_lt
  lastToken := by
    intro u hu
    obtain rfl := Option.some.inj hu
    exact ht

theorem hasEnd_of_giveEof (hfit : h.Fit cs) {source : Source} {t : Token}
    (hgive : h.giveEof source = .ok (h', t)) : t.HasEnd := by
  obtain ⟨h₁, t₁, hgive₁, hroom⟩ := exists_giveEof hfit.bounded.shows hfit.room source
  obtain ⟨rfl, rfl⟩ := Prod.mk.inj (Except.ok.inj (hgive₁.symm.trans hgive))
  obtain ⟨-, rfl⟩ := giveEof_eq_ok hgive
  exact hroom.lastToken _ rfl

/-- A completed candidate has become a token with an end. -/
theorem exists_complete (hfit : h.Fit cs) {type : TokenId}
    (hcandidate : h.begun.Assembles reporter events h' (.ok (.type type))) (source : Source) :
    ∃ h₁ t, h'.complete source h.here type = .ok (h₁, t) ∧ t.HasEnd := by
  obtain ⟨hfit', hin, htoken⟩ := hfit.assembles hcandidate
  obtain ⟨h₁, t, hcomplete, hroom⟩ := Head.exists_complete hin hfit'.room
    (hfit.bounded.caretRoom hfit.length_lt) (htoken _ rfl) source type
  obtain ⟨rfl, -⟩ := complete_eq_ok hcomplete
  exact ⟨_, t, hcomplete, hroom.lastToken t rfl⟩

/-- A call leaves the lexer as fit, and its token has an end. -/
theorem produces (hfit : h.Fit cs) {result : Except LexerError Token}
    (hcall : h.Produces reporter events h' result) :
    h'.Fit cs ∧ ∀ t, result = .ok t → t.HasEnd := by
  induction hcall with
  | sentinel _ hgive =>
      have ht := hfit.hasEnd_of_giveEof hgive
      obtain ⟨-, rfl⟩ := giveEof_eq_ok hgive
      exact ⟨hfit.give ht, fun u hu => Except.ok.inj hu ▸ ht⟩
  | broken _ hcandidate => exact ⟨(hfit.assembles hcandidate).1, nofun⟩
  | completed _ hcandidate hcomplete =>
      obtain ⟨h₁, t, hcomplete', ht⟩ := hfit.exists_complete hcandidate reporter.source
      obtain ⟨rfl, rfl⟩ := Prod.mk.inj (Except.ok.inj (hcomplete'.symm.trans hcomplete))
      obtain ⟨rfl, -⟩ := complete_eq_ok hcomplete
      exact ⟨(hfit.assembles hcandidate).1.give ht, fun u hu => Except.ok.inj hu ▸ ht⟩
  | discarded _ hcandidate _ ih => exact ih (hfit.assembles hcandidate).1

end Fit

/-- However many candidates are discarded, nothing leaves its range. -/
theorem inRange_produce {matchLimit : Nat} : ∀ {limit : Nat} {h : Head TableRecognizer},
    h.Fit cs → (h.produce reporter matchLimit limit).InRange
  | 0, _, _ => Run.inRange_stepLimit
  | limit + 1, h, hfit => by
      unfold produce
      split
      · obtain ⟨h', t, hgive, -⟩ := exists_giveEof hfit.bounded.shows hfit.room reporter.source
        refine Run.InRange.bind (Run.inRange_of_ok hgive) ?_
        intro _ _ _
        exact Run.inRange_of_ok (Run.outcome_pure _)
      · refine Run.InRange.bind (inRange_assemble hfit.length_lt (h := h.begun) hfit.cells
          hfit.bounded) ?_
        rintro events ⟨h₁, decision⟩ hassemble
        have hcandidate : h.begun.Assembles reporter events h₁ decision :=
          assembles_of_assemble hassemble
        obtain ⟨hfit₁, -⟩ := hfit.assembles hcandidate
        simp only
        split
        · exact Run.inRange_of_ok (Run.outcome_pure _)
        · obtain ⟨h', t, hcomplete, -⟩ := hfit.exists_complete hcandidate reporter.source
          refine Run.InRange.bind (Run.inRange_of_ok hcomplete) ?_
          intro _ _ _
          exact Run.inRange_of_ok (Run.outcome_pure _)
        · exact inRange_produce hfit₁

end Head

end ModalLexer
