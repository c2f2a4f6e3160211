import ModalLexer.Proofs.Automaton.Turn

/-!
# Candidates of a table-driven lexer

A candidate is a sequence of matches that keep their text, all of them
quietly, and one that brings it to an end. The matches that keep their text
move on, so the indices behind them ascend.
-/

namespace ModalLexer

/-! ## Where matches stop -/

namespace Event

/-- The indices behind the matches of a run, in order. -/
def matchStops (events : List Event) : List Nat :=
  (events.filterMap decision?).map Prod.snd

@[simp] theorem matchStops_append (events rest : List Event) :
    matchStops (events ++ rest) = matchStops events ++ matchStops rest := by
  simp [matchStops]

theorem matchStops_of_quiet {events : List Event} (h : ∀ e ∈ events, e.IsQuiet) :
    matchStops events = [] := by
  have hnone : events.filterMap decision? = [] :=
    List.filterMap_eq_nil_iff.mpr fun e he => (h e he).2
  rw [matchStops, hnone, List.map_nil]

@[simp] theorem matchStops_decided (mode : ModeId) (matched final : TokenType) (i : Nat) :
    matchStops [.decided mode matched final i] = [i] := rfl

@[simp] theorem matchStops_deliver (d : Dispatch) (report : Report) :
    matchStops (d.deliver report) = [] := by
  unfold Dispatch.deliver
  split
  · rfl
  · simp [matchStops, List.filterMap_map, Function.comp_def, decision?]

end Event

/-- Two ascents of which the second begins where the first has come to. -/
theorem pairwise_lt_append {i j : Nat} {is js : List Nat} (hi : (i :: is).Pairwise (· < ·))
    (hle : ∀ k ∈ is, k ≤ j) (hij : i ≤ j) (hj : (j :: js).Pairwise (· < ·)) :
    (i :: (is ++ js)).Pairwise (· < ·) := by
  rw [List.pairwise_cons] at hi hj ⊢
  refine ⟨?_, List.pairwise_append.mpr ⟨hi.2, hj.2, ?_⟩⟩
  · intro k hk
    rcases List.mem_append.mp hk with hk | hk
    · exact hi.1 k hk
    · exact Nat.lt_of_le_of_lt hij (hj.1 k hk)
  · intro k hk l hl
    exact Nat.lt_of_le_of_lt (hle k hk) (hj.1 l hl)

namespace Head

variable {cs : List Char} {start : Start} {reporter : Reporter}
  {h h₁ h' : Head TableRecognizer} {events : List Event}

theorem Decided.trans (hle : h₁.index ≤ h'.index) (hlen : h'.index ≤ cs.length)
    (hfirst : h.Decided cs h₁) (hsecond : h₁.Decided cs h') : h.Decided cs h' where
  text? := hsecond.text?.trans hfirst.text?
  token? := hsecond.token?.trans hfirst.token?
  eofSeen := by
    rw [hsecond.eofSeen, hfirst.eofSeen, Bool.or_assoc]
    congr 1
    rw [Bool.eq_iff_iff, Bool.or_eq_true, decide_eq_true_iff, decide_eq_true_iff]
    omega

/-- A candidate begins in itself. -/
theorem inCandidate_begun (hs : h.stream.Shows cs) (hkeep : h.stream.KeepsFrom h.index) :
    h.begun.InCandidate cs h.here where
  shows := hs
  keeps := hkeep
  began := rfl
  start_le := Nat.le_refl _

/-- Matches that keep their text lead from `h` to `h₁` and let `before` be
seen, and one more leads on to `h'`. -/
structure TableCandidate (cs : List Char) (start : Start) (reporter : Reporter)
    (h h₁ h' : Head TableRecognizer) (before last : List Event)
    (decision : Except LexerError TokenType) : Prop where
  kept : ∀ e ∈ before, e.report? = none ∧ ∀ type i, e.decision? = some (type, i) → type = .more
  ascends : (h.index :: Event.matchStops before).Pairwise (· < ·)
  stops_le : ∀ i ∈ Event.matchStops before, i ≤ h₁.index
  index_le : h.index ≤ h₁.index
  last_le : h₁.index ≤ h'.index
  turn : TableTurn cs start reporter h₁ h' last decision

/-- A match that keeps its text is an accepted one. -/
theorem TableTurn.of_more (hturn : TableTurn cs start reporter h h' events (.ok .more)) :
    ∃ quiet mode, events = quiet ++ [.decided mode .more .more h'.index]
      ∧ (∀ e ∈ quiet, e.IsQuiet) ∧ h.index < h'.index := by
  cases hturn with
  | accepted hquiet hlt _ => exact ⟨_, _, rfl, hquiet, hlt⟩

/-- Every match that is decided leaves the index behind it. -/
theorem TableTurn.matchStops_eq {decision : Except LexerError TokenType}
    (hturn : TableTurn cs start reporter h h' events decision) :
    Event.matchStops events = if decision.isOk then [h'.index] else [] := by
  cases hturn with
  | unknownMode hquiet | emptyModeStack hquiet => exact Event.matchStops_of_quiet hquiet
  | accepted hquiet | atEnd hquiet =>
      rw [Event.matchStops_append, Event.matchStops_of_quiet hquiet]
      rfl
  | failed hbefore hafter =>
      simp only [Event.matchStops_append, Event.matchStops_of_quiet hbefore,
        Event.matchStops_of_quiet hafter, Event.matchStops_deliver]
      rfl

theorem TableCandidate.last {decision : Except LexerError TokenType}
    (hturn : TableTurn cs start reporter h h' events decision) (hle : h.index ≤ h'.index) :
    TableCandidate cs start reporter h h h' [] events decision where
  kept := by simp
  ascends := by simp [Event.matchStops]
  stops_le := by simp [Event.matchStops]
  index_le := Nat.le_refl _
  last_le := hle
  turn := hturn

/-- A match that keeps its text comes before the others. -/
theorem TableCandidate.more {h₂ : Head TableRecognizer} {before last : List Event}
    {decision : Except LexerError TokenType}
    (hturn : TableTurn cs start reporter h h₁ events (.ok .more))
    (hrest : TableCandidate cs start reporter h₁ h₂ h' before last decision) :
    TableCandidate cs start reporter h h₂ h' (events ++ before) last decision := by
  obtain ⟨quiet, mode, rfl, hquiet, hlt⟩ := hturn.of_more
  have hstops : Event.matchStops (quiet ++ [.decided mode .more .more h₁.index]) = [h₁.index] := by
    rw [Event.matchStops_append, Event.matchStops_of_quiet hquiet, Event.matchStops_decided,
      List.nil_append]
  refine { hrest with kept := ?_, ascends := ?_, stops_le := ?_, index_le := ?_ }
  · intro e he
    rcases List.mem_append.mp he with he | he
    · rcases List.mem_append.mp he with he | he
      · exact ⟨(hquiet e he).1, by simp [(hquiet e he).2]⟩
      · rw [List.mem_singleton.mp he]
        refine ⟨rfl, fun type i hdecision => ?_⟩
        exact (Prod.mk.inj (Option.some.inj hdecision)).1.symm
    · exact hrest.kept e he
  · rw [Event.matchStops_append, hstops]
    exact pairwise_lt_append (List.pairwise_pair.mpr hlt) (by simp) (Nat.le_of_lt hlt)
      hrest.ascends
  · intro i hi
    rw [Event.matchStops_append, hstops] at hi
    rcases List.mem_append.mp hi with hi | hi
    · rw [List.mem_singleton.mp hi]
      exact hrest.index_le
    · exact hrest.stops_le i hi
  · exact Nat.le_trans (Nat.le_of_lt hlt) hrest.index_le

theorem Assembles.table {decision : Except LexerError TokenType}
    (hcandidate : h.Assembles reporter events h' decision) (hin : h.InCandidate cs start)
    (ha : h.recognizer.automaton.NoEmptyMatch) :
    h.SameCandidate h' ∧ (∀ type, decision = .ok type → h.Decided cs h')
      ∧ ∃ before last h₁, events = before ++ last
        ∧ TableCandidate cs start reporter h h₁ h' before last decision := by
  -- the candidate goes on in what a match leaves, so `hin` is carried along
  induction hcandidate with
  | last hturn _ =>
      obtain ⟨hsame, hcase, hdecided⟩ := hturn.table hin ha
      have hadv := hturn.moves CharStream.Advances.motion TableRecognizer.advances
      exact ⟨hsame, hdecided, [], _, _, rfl, .last hcase hadv.index_le⟩
  | more hturn hrest ih =>
      obtain ⟨hsame, hcase, hdecided⟩ := hturn.table hin ha
      have hfirst := hturn.moves CharStream.Advances.motion TableRecognizer.advances
      have hin₁ := hin.of_advances hfirst hsame
      have hadv := hrest.moves CharStream.Advances.motion TableRecognizer.advances
      obtain ⟨hsame', hdecided', before, last, h₂, rfl, hcandidate⟩ :=
        ih hin₁ (hsame.automaton ▸ ha)
      refine ⟨hsame.trans hsame', fun type htype => ?_, _, last, h₂,
        (List.append_assoc ..).symm, hcandidate.more hcase⟩
      exact (hdecided .more rfl).trans hadv.index_le (hadv.shows hin₁.shows).index_le
        (hdecided' type htype)

/-! ## From the beginning to the decision -/

/-- What the candidate that began in `h` has come to in `h'`. -/
structure Tried (cs : List Char) (reporter : Reporter) (h h' : Head TableRecognizer)
    (events : List Event) (decision : Except LexerError TokenType) : Prop where
  within : h'.InCandidate cs h.here
  automaton : h'.recognizer.automaton = h.recognizer.automaton
  lastToken? : h'.state.lastToken? = h.state.lastToken?
  decided : ∀ type, decision = .ok type → h.begun.Decided cs h'
  turns : ∃ before last h₁, events = before ++ last
    ∧ TableCandidate cs h.here reporter h.begun h₁ h' before last decision

theorem Assembles.tried {decision : Except LexerError TokenType} (hs : h.stream.Shows cs)
    (hkeep : h.stream.KeepsFrom h.index) (ha : h.recognizer.automaton.NoEmptyMatch)
    (hcandidate : h.begun.Assembles reporter events h' decision) :
    h.Tried cs reporter h' events decision := by
  have hin := inCandidate_begun hs hkeep
  obtain ⟨hsame, hdecided, hturns⟩ := hcandidate.table hin ha
  have hadv := hcandidate.moves CharStream.Advances.motion TableRecognizer.advances
  exact ⟨hin.of_advances hadv hsame, hsame.automaton, hsame.lastToken?, hdecided, hturns⟩

namespace Tried

variable {decision : Except LexerError TokenType}

theorem keeps (htried : h.Tried cs reporter h' events decision) :
    h'.stream.KeepsFrom h'.index :=
  htried.within.keeps.mono htried.within.start_le

theorem index_le_length (htried : h.Tried cs reporter h' events decision) :
    h'.index ≤ cs.length :=
  htried.within.shows.index_le

/-- A candidate that is discarded has covered something. -/
theorem lt_of_skip (htried : h.Tried cs reporter h' events (.ok .skip)) :
    h.index < h'.index := by
  obtain ⟨before, last, h₁, -, hcandidate⟩ := htried.turns
  have hle : h.index ≤ h₁.index := hcandidate.index_le
  cases hcandidate.turn with
  | accepted _ hlt _ => exact Nat.lt_of_le_of_lt hle hlt
  | failed _ _ hlt _ _ _ _ => exact hlt

end Tried

end Head

end ModalLexer
