import ModalLexer.Proofs.Automaton.Modes
import ModalLexer.Proofs.Lexer.Noninterference
import ModalLexer.Proofs.Lexer.Trace
import ModalLexer.Sample

/-!
# Known modes

A table-driven lexer does nothing to its modes but to carry out the terminals
that the automaton comes to. `Shifts` says this of a computation: all of its
terminals are carried out, or the call ends at the last of them, or in a mode
that does not exist. It holds of a match, and adds up over the matches of a
candidate, the candidates of a call, whether they become a token or not, and
the calls since the lexer was last started. What is known of terminals in a row
is then known of every state that a lexer can reach.
-/

namespace ModalLexer

/-! ## The terminals of a run -/

namespace Event

/-- The terminal that the automaton came to, if it came to one. -/
def terminal? : Event → Option Terminal
  | accepted _ _ t => some t
  | _ => none

def terminals (events : List Event) : List Terminal := events.filterMap terminal?

@[simp] theorem terminals_append (events rest : List Event) :
    terminals (events ++ rest) = terminals events ++ terminals rest :=
  List.filterMap_append

theorem terminals_decided (mode : ModeId) (matched final : TokenType) (i : Nat) :
    terminals [.decided mode matched final i] = [] := rfl

theorem terminals_deliver (d : Dispatch) (report : Report) : terminals (d.deliver report) = [] := by
  unfold Dispatch.deliver
  split
  · rfl
  · simp [terminals, List.filterMap_map, Function.comp_def, terminal?]

end Event

theorem State.terminals_actEvents (s : State) (a : Action) :
    Event.terminals (s.actEvents a) = [] := by
  unfold actEvents
  split
  · rfl
  · split <;> rfl
  · rfl

theorem State.terminals_perform {s t : State} {acts : List Action} {events : List Event}
    {failure : Option LexerError}
    (h : s.perform acts = { events, outcome := .ok (t, failure) }) :
    Event.terminals events = [] := by
  induction acts generalizing s events with
  | nil =>
      obtain ⟨-, -, rfl⟩ := Run.pure_pair_eq_ok.mp h
      rfl
  | cons a acts ih =>
      obtain ⟨after, rfl, ⟨u, -, hrest⟩ | ⟨e, -, -, -, rfl⟩⟩ := perform_cons_eq_ok.mp h
      · rw [Event.terminals_append, s.terminals_actEvents, ih hrest]
        rfl
      · rw [Event.terminals_append, s.terminals_actEvents]
        rfl

/-- The error that a result is, if it is one. -/
def failure? {α : Type} : Except LexerError α → Option LexerError
  | .ok _ => none
  | .error e => some e

/-! ## What a computation does to the modes -/

/-- From the modes `m`, the terminals `ts` lead to the modes `m'`, and possibly
to an error there. -/
inductive Shifts (a : Automaton) (m : Modes) :
    List Terminal → Modes → Option LexerError → Prop
  | through {ts : List Terminal} {m' : Modes} (hmem : ∀ t ∈ ts, t ∈ a.terminals)
      (hshift : m.shiftAll ts = some m') : Shifts a m ts m' none
  /-- The last terminal would leave a mode that was not entered. -/
  | atBottom {ts : List Terminal} {t : Terminal} {m' : Modes} (hmem : ∀ t ∈ ts, t ∈ a.terminals)
      (hshift : m.shiftAll ts = some m') (ht : t ∈ a.terminals) (hpop : t.pop = true)
      (hbelow : m'.below = []) : Shifts a m (ts ++ [t]) m' (some (.emptyModeStack m'.current))
  | unknown {ts : List Terminal} {m' : Modes} (hmem : ∀ t ∈ ts, t ∈ a.terminals)
      (hshift : m.shiftAll ts = some m') (hmode : a.startStates[m'.current]? = none) :
      Shifts a m ts m' (some (.unknownMode m'.current))

/-- Those of the terminals that have been carried out: all, unless the last one
failed. -/
def carriedOut (e? : Option LexerError) (ts : List Terminal) : List Terminal :=
  match e? with
  | some (.emptyModeStack _) => ts.dropLast
  | _ => ts

namespace Shifts

variable {a : Automaton} {m m₁ m' : Modes} {ts us : List Terminal} {e? : Option LexerError}

theorem append (h : Shifts a m ts m₁ none) (h' : Shifts a m₁ us m' e?) :
    Shifts a m (ts ++ us) m' e? := by
  have hall : ∀ {vs : List Terminal} {m₂ : Modes}, (∀ t ∈ vs, t ∈ a.terminals) →
      m₁.shiftAll vs = some m₂ →
        (∀ t ∈ ts ++ vs, t ∈ a.terminals) ∧ m.shiftAll (ts ++ vs) = some m₂ := by
    intro vs m₂ hmem' hshift'
    cases h with
    | through hmem hshift =>
        refine ⟨List.forall_mem_append.mpr ⟨hmem, hmem'⟩, ?_⟩
        rw [Modes.shiftAll_append, hshift]
        exact hshift'
  cases h' with
  | through hmem hshift =>
      obtain ⟨hmem', hshift'⟩ := hall hmem hshift
      exact .through hmem' hshift'
  | atBottom hmem hshift ht hpop hbelow =>
      obtain ⟨hmem', hshift'⟩ := hall hmem hshift
      rw [← List.append_assoc]
      exact .atBottom hmem' hshift' ht hpop hbelow
  | unknown hmem hshift hmode =>
      obtain ⟨hmem', hshift'⟩ := hall hmem hshift
      exact .unknown hmem' hshift' hmode

/-- The modes are what the terminals carried out have made of them. -/
theorem carriedOut (h : Shifts a m ts m' e?) :
    (∀ t ∈ ModalLexer.carriedOut e? ts, t ∈ a.terminals)
      ∧ m.shiftAll (ModalLexer.carriedOut e? ts) = some m' := by
  cases h with
  | through hmem hshift | unknown hmem hshift _ => exact ⟨hmem, hshift⟩
  | atBottom hmem hshift =>
      rw [ModalLexer.carriedOut, List.dropLast_concat]
      exact ⟨hmem, hshift⟩

/-- From known modes, a closed automaton leads to one kind of error only, and
one without terminals that leave a mode to none. -/
theorem error_of_isClosed (ha : a.IsClosed) (hm : m.Within a.startStates.size) {e : LexerError}
    (h : Shifts a m ts m' (some e)) :
    e = .emptyModeStack m'.current ∧ ∃ t ∈ a.terminals, t.pop = true := by
  cases h with
  | atBottom _ _ ht hpop => exact ⟨rfl, _, ht, hpop⟩
  | unknown hmem hshift hmode =>
      have hwithin := Modes.within_of_shiftAll (fun t ht => ha.target_lt t (hmem t ht)) hm hshift
      exact absurd hwithin.current_lt (Nat.not_lt.mpr (Array.getElem?_eq_none_iff.mp hmode))

end Shifts

/-! ## Matches, candidates and calls -/

namespace Head

variable {a : Automaton} {reporter : Reporter} {h h' : Head TableRecognizer}
  {events : List Event}

theorem shifts_of_matchToken (ha : h.recognizer.automaton = a)
    {found : Except LexerError Finding}
    (hmatch : h.matchToken h.state.mode = { events, outcome := .ok (h', found) }) :
    Shifts a h.state.modes (Event.terminals events) h'.state.modes (failure? found) := by
  obtain ⟨before, after, scan, state, failure, hscan, hperform, rfl, rfl, rfl⟩ :=
    matchToken_eq_ok.mp hmatch
  rw [Event.terminals_append, State.terminals_perform hperform, List.append_nil]
  cases TableRecognizer.scan_eq_ok.mp hscan with
  | unknown hmode =>
      obtain ⟨rfl, rfl, -⟩ := Run.pure_pair_eq_ok.mp hperform
      exact .unknown nofun rfl (ha ▸ hmode)
  | accepted _ _ hterminal =>
      have hmem := ha ▸ Automaton.mem_of_terminal? hterminal
      have houtcome := congrArg Run.outcome hperform
      rcases Terminal.perform_actions_eq_ok houtcome with ⟨happly, rfl⟩ | ⟨e, happly, rfl, rfl⟩
      · refine .through (by simpa [Event.terminals, Event.terminal?] using hmem) ?_
        exact Modes.shiftAll_cons_eq_some.mpr ⟨_, Terminal.shift_modes_of_apply happly, rfl⟩
      · obtain ⟨hpop, hstack, rfl⟩ := Terminal.apply_eq_error_iff.mp happly
        have hnone : ∀ t ∈ ([] : List Terminal), t ∈ a.terminals := nofun
        exact .atBottom hnone rfl hmem hpop hstack
  | atEnd | stuck =>
      obtain ⟨rfl, rfl, -⟩ := Run.pure_pair_eq_ok.mp hperform
      exact .through nofun rfl

theorem terminals_settle {finding : Finding} {matched : TokenType}
    (hsettle : h.settle reporter finding = { events, outcome := .ok (h', matched) }) :
    Event.terminals events = [] := by
  cases finding with
  | matched type =>
      obtain ⟨-, -, rfl⟩ := settle_matched_eq_ok.mp hsettle
      rfl
  | noRule site =>
      obtain ⟨before, h₁, after, hreport, hdrop, -, rfl⟩ := settle_noRule_eq_ok.mp hsettle
      obtain ⟨report, rfl, -, -⟩ := exists_report hreport
      rw [Event.terminals_append, Event.terminals_deliver]
      rcases dropChar_eq_ok.mp hdrop with ⟨-, -, rfl⟩ | ⟨c, r, s, -, rfl, -, -⟩ <;> rfl

theorem Turn.shifts (ha : h.recognizer.automaton = a) {decision : Except LexerError TokenType}
    (hturn : h.Turn reporter events h' decision) :
    Shifts a h.state.modes (Event.terminals events) h'.state.modes (failure? decision) := by
  cases hturn with
  | stopped hmatch => exact shifts_of_matchToken (h := h.undecided) ha hmatch
  | decided hmatch hsettle hfinal =>
      have hshifts := shifts_of_matchToken (h := h.undecided) ha hmatch
      obtain ⟨hstate, -⟩ := settle_state hsettle
      obtain ⟨-, rfl⟩ := Prod.mk.inj hfinal
      rw [Event.terminals_append, Event.terminals_append, terminals_settle hsettle,
        Event.terminals_decided, List.append_nil, List.append_nil, noteEof_eq]
      simp only [State.setType, hstate]
      exact hshifts

/-- The matches of a candidate change the modes one after the other. -/
theorem Assembles.shifts (ha : h.recognizer.automaton = a)
    {decision : Except LexerError TokenType}
    (hcandidate : h.Assembles reporter events h' decision) :
    Shifts a h.state.modes (Event.terminals events) h'.state.modes (failure? decision) := by
  induction hcandidate with
  | last hturn _ => exact hturn.shifts ha
  | more hturn _ ih =>
      rw [Event.terminals_append]
      exact (hturn.shifts ha).append (ih (hturn.keeps (TableRecognizer.keepsAutomaton a) ha))

/-- The candidates of a call change the modes one after the other, those that
are discarded as well as the last one. -/
theorem Produces.shifts (ha : h.recognizer.automaton = a) {result : Except LexerError Token}
    (hcall : h.Produces reporter events h' result) :
    Shifts a h.state.modes (Event.terminals events) h'.state.modes (failure? result) := by
  induction hcall with
  | sentinel _ hgive =>
      obtain ⟨-, rfl⟩ := giveEof_eq_ok hgive
      exact .through nofun rfl
  | broken _ hcandidate => exact Assembles.shifts (h := begun _) ha hcandidate
  | completed _ hcandidate hcomplete =>
      have hshifts := Assembles.shifts (h := begun _) ha hcandidate
      obtain ⟨rfl, -⟩ := complete_eq_ok hcomplete
      exact hshifts
  | discarded _ hcandidate _ ih =>
      rw [Event.terminals_append]
      exact (Assembles.shifts (h := begun _) ha hcandidate).append
        (ih (Assembles.keeps (h := begun _) (TableRecognizer.keepsAutomaton a) ha hcandidate))

end Head

/-! ## Sessions -/

/-- The command asks for a token, starts the lexer again or drops a character. -/
def Command.Runs {ρ : Type} : Command ρ → Prop
  | .next | .reset | .attach _ | .recover _ => True
  | _ => False

/-- The command has started the lexer again, which a reset may fail to do. -/
def Command.restarts {ρ : Type} (c : Command ρ) (entry : Entry ρ) : Bool :=
  match c, entry.reply with
  | .attach _, _ => true
  | .reset, .done => true
  | _, _ => false

/-- The terminals that a call has carried out. -/
def Entry.carriedOut {ρ : Type} (entry : Entry ρ) : List Terminal :=
  match entry.reply with
  | .token result => ModalLexer.carriedOut (failure? result) (Event.terminals entry.events)
  | _ => []

/-- The terminals carried out since the lexer was last started, the session
beginning after the terminals `ts`. -/
def sinceStart {ρ : Type} : List Terminal → List (Command ρ) → List (Entry ρ) → List Terminal
  | ts, c :: commands, entry :: entries =>
    sinceStart (if c.restarts entry then [] else ts ++ entry.carriedOut) commands entries
  | ts, _, _ => ts

namespace Lexer

variable {a : Automaton} {lx lx' : Lexer TableRecognizer} {ts : List Terminal} {s : CharStream}
  {events : List Event}

theorem exists_restart_of_reset (h : lx.reset = .ok lx') : ∃ s?, lx' = lx.restart s? := by
  unfold reset at h
  split at h
  · exact ⟨none, (Except.ok.inj h).symm⟩
  · split at h
    · exact ⟨some _, (Except.ok.inj h).symm⟩
    · cases h

/-- Since its last start the lexer has carried out the terminals `ts` of the
automaton, and they have led to its modes. -/
structure Shifted (a : Automaton) (lx : Lexer TableRecognizer) (ts : List Terminal) : Prop where
  automaton : lx.recognizer.automaton = a
  mem : ∀ t ∈ ts, t ∈ a.terminals
  shifted : ({} : Modes).shiftAll ts = some lx.state.modes

namespace Shifted

theorem restart (h : lx.Shifted a ts) (s? : Option CharStream) : (lx.restart s?).Shifted a [] where
  automaton := h.automaton
  mem := nofun
  shifted := rfl

theorem attach (h : lx.Shifted a ts) (s : CharStream) : (lx.attach s).Shifted a [] where
  automaton := h.automaton
  mem := nofun
  shifted := rfl

/-- The modes are known whatever has been carried out. -/
theorem within (h : lx.Shifted a ts) (ha : a.IsClosed) :
    lx.state.modes.Within a.startStates.size :=
  Modes.within_of_shiftAll (fun t ht => ha.target_lt t (h.mem t ht)) ⟨ha.pos, by simp⟩ h.shifted

/-- What a call with a stream does to the modes. -/
theorem shifts (h : lx.Shifted a ts) (hstream : lx.stream? = some s)
    {result : Except LexerError Token}
    (hcall : lx.nextToken = { events, outcome := .ok (lx', result) }) :
    lx'.recognizer.automaton = a
      ∧ Shifts a lx.state.modes (Event.terminals events) lx'.state.modes (failure? result) := by
  obtain ⟨h₁, u, hcourse, -, rfl⟩ := produces_of_nextToken TableRecognizer.advances hstream hcall
  exact ⟨hcourse.keeps (TableRecognizer.keepsAutomaton a) h.automaton,
    hcourse.shifts (h := lx.marked s) h.automaton⟩

theorem next (h : lx.Shifted a ts) {result : Except LexerError Token}
    (hcall : lx.nextToken = { events, outcome := .ok (lx', result) }) :
    lx'.Shifted a (ts ++ ModalLexer.carriedOut (failure? result) (Event.terminals events)) := by
  cases hstream : lx.stream? with
  | none =>
      simp only [nextToken, hstream] at hcall
      obtain ⟨rfl, rfl, rfl⟩ := Run.pure_pair_eq_ok.mp hcall
      rw [← List.append_nil ts] at h
      exact ⟨h.automaton, h.mem, h.shifted⟩
  | some s =>
      obtain ⟨hautomaton, hshifts⟩ := h.shifts hstream hcall
      obtain ⟨hmem, hshift⟩ := hshifts.carriedOut
      refine ⟨hautomaton, List.forall_mem_append.mpr ⟨h.mem, hmem⟩, ?_⟩
      rw [Modes.shiftAll_append, h.shifted]
      exact hshift

theorem recover (h : lx.Shifted a ts) {e : RecognitionError}
    (hrecover : lx.recover e = { events, outcome := .ok lx' }) : lx'.Shifted a ts := by
  cases hstream : lx.stream? with
  | none =>
      simp only [Lexer.recover, hstream] at hrecover
      obtain ⟨rfl, -⟩ := Run.pure_eq_ok.mp hrecover
      exact h
  | some s =>
      obtain ⟨r, s', rfl, hautomaton, -⟩ := dropped_of_recover hstream hrecover
      exact ⟨hautomaton.trans h.automaton, h.mem, h.shifted⟩

/-- What one command adds to the terminals that have led to the modes. -/
theorem perform (h : lx.Shifted a ts) {c : Command TableRecognizer} (hc : c.Runs)
    {entry : Entry TableRecognizer} (hperform : c.perform lx = entry.run) :
    entry.lexer.Shifted a (if c.restarts entry then [] else ts ++ entry.carriedOut) := by
  obtain ⟨events, reply, lx'⟩ := entry
  cases c with
  | next =>
      obtain ⟨result, hcall, rfl⟩ := Command.perform_next_eq_ok.mp hperform
      exact h.next hcall
  | attach s =>
      obtain ⟨_, lx₁, _, hcounted, hrest, rfl⟩ := Run.bind_eq_ok.mp hperform
      obtain ⟨-, rfl⟩ := attachCounted_eq_ok.mp (Run.ofExcept_eq_ok.mp hcounted).1
      obtain ⟨rfl, rfl, -⟩ := Run.pure_pair_eq_ok.mp hrest
      exact h.attach s
  | reset =>
      simp only [Command.perform] at hperform
      cases hreset : lx.reset with
      | ok lx₁ =>
          rw [hreset] at hperform
          obtain ⟨rfl, rfl, rfl⟩ := Run.pure_pair_eq_ok.mp hperform
          obtain ⟨s?, rfl⟩ := exists_restart_of_reset hreset
          exact h.restart s?
      | error e =>
          rw [hreset] at hperform
          obtain ⟨rfl, rfl, rfl⟩ := Run.pure_pair_eq_ok.mp hperform
          rw [← List.append_nil ts] at h
          exact h
  | recover e =>
      obtain ⟨hcall, rfl⟩ := Command.perform_recover_eq_ok.mp hperform
      rw [← List.append_nil ts] at h
      exact h.recover hcall
  | _ => exact hc.elim

/-- Whatever a session does, the terminals since the last start have led to the
modes. -/
theorem trace {commands : List (Command TableRecognizer)} {entries : List (Entry TableRecognizer)}
    (htrace : Trace lx commands entries) (h : lx.Shifted a ts) (hc : ∀ c ∈ commands, c.Runs) :
    (Entry.last lx entries).Shifted a (sinceStart ts commands entries) := by
  induction htrace generalizing ts with
  | nil => exact h
  | cons hstep _ ih =>
      exact ih (h.perform (hc _ (List.mem_cons_self ..)) hstep)
        fun c hmem => hc c (List.mem_cons_of_mem _ hmem)

end Shifted

/-- A lexer with closed tables never comes to a mode that does not exist. The
terminals carried out since its last start have led to its modes; these are
known in the end and were known after each of the terminals, and as many of them
lie below the current one as modes have been entered and not yet left. The next
call can end with one error only, and with none if no terminal leaves a mode. -/
theorem modes_are_known (ha : a.IsClosed) (hnew : lx.state = {})
    (htables : lx.recognizer.automaton = a) {commands : List (Command TableRecognizer)}
    {entries : List (Entry TableRecognizer)} (hc : ∀ c ∈ commands, c.Runs)
    (htrace : Trace lx commands entries) :
    let last := Entry.last lx entries
    let done := sinceStart [] commands entries
    last.state.modes.Within a.startStates.size
      ∧ ({} : Modes).shiftAll done = some last.state.modes
      ∧ (∀ us, us <+: done →
        ∃ m, ({} : Modes).shiftAll us = some m ∧ m.Within a.startStates.size)
      ∧ last.state.modeStack.length + pops done = pushes done
      ∧ ∀ s events lx' e, last.stream? = some s →
        last.nextToken = { events, outcome := .ok (lx', .error e) } →
          e = .emptyModeStack lx'.state.mode ∧ ∃ t ∈ a.terminals, t.pop = true := by
  intro last done
  have hstart : lx.Shifted a [] := ⟨htables, nofun, by rw [hnew]; rfl⟩
  have hlast : last.Shifted a done := hstart.trace htrace hc
  have hwithin := hlast.within ha
  refine ⟨hwithin, hlast.shifted, ?_, ?_, ?_⟩
  · intro us hinit
    obtain ⟨m, hm⟩ := Modes.exists_shiftAll_of_prefix hlast.shifted hinit
    have hmem := fun t ht => ha.target_lt t (hlast.mem t (hinit.subset ht))
    exact ⟨m, hm, Modes.within_of_shiftAll hmem ⟨ha.pos, by simp⟩ hm⟩
  · have hlength := Modes.length_below_of_shiftAll hlast.shifted
    exact hlength.trans (Nat.zero_add _)
  · intro s events lx' e hstream hcall
    obtain ⟨-, hshifts⟩ := hlast.shifts hstream hcall
    exact hshifts.error_of_isClosed ha hwithin

/-- A quotation that is closed and one that is not, and then the same text again
without its first character. -/
theorem modes_are_known_quotations :
    let lx : Lexer TableRecognizer := { recognizer := { automaton := Sample.quotations } }
    let commands : List (Command TableRecognizer) :=
      [.attach (.ofString "\"a\" \"b"), .next, .next, .reset, .recover (.noRule {}), .next]
    (∀ c ∈ commands, c.Runs) ∧ ∃ entries, Trace lx commands entries
      ∧ (Entry.last lx entries).state.modes.Within 2
      ∧ (Entry.last lx entries).state.modeStack.length
          + pops (sinceStart [] commands entries) = pushes (sinceStart [] commands entries) := by
  intro lx commands
  have hc : ∀ c ∈ commands, c.Runs := by simp [commands, Command.Runs]
  obtain ⟨entries, htrace⟩ : ∃ entries, Trace lx commands entries :=
    exists_trace_of_isSome (by decide +kernel)
  obtain ⟨hwithin, -, -, hlength, -⟩ := modes_are_known (by decide) rfl rfl hc htrace
  exact ⟨hc, entries, htrace, hwithin, hlength⟩

end Lexer

end ModalLexer
