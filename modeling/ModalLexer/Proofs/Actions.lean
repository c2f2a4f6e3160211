import ModalLexer.State

/-!
# What actions leave behind

Of the actions of a rule the last one of its kind counts: the last decision
about the match, the last channel, the last text, the last token emitted.
`lastOf` is that rule, and `perform_all` says that it describes the candidate
after the actions of a match. What no action touches is the subject of
`perform_frame`, which also holds if one of them fails.
-/

namespace ModalLexer

namespace Action

/-- The decision about the match, if the action takes one. -/
def type? : Action → Option TokenType
  | skip => some .skip
  | more => some .more
  | setType type => some type
  | _ => none

/-- The channel, if the action sets one. -/
def channel? : Action → Option ChannelId
  | setChannel channel => some channel
  | _ => none

/-- The text, if the action sets one. -/
def text? : Action → Option String
  | setText text => some text
  | _ => none

/-- The token, if the action emits one. -/
def emitted? : Action → Option Token
  | emit token => some token
  | _ => none

/-- The candidate with what the action says. -/
def shape (a : Action) (c : Candidate) : Candidate where
  type? := a.type?.or c.type?
  channel := a.channel?.getD c.channel
  start? := c.start?
  text? := a.text?.or c.text?

/-- What the last of the actions that say something says. -/
def lastOf {α : Type} (f : Action → Option α) (acts : List Action) : Option α :=
  (acts.filterMap f).getLast?

theorem lastOf_cons {α : Type} (f : Action → Option α) (a : Action) (acts : List Action) :
    lastOf f (a :: acts) = (lastOf f acts).or (f a) := by
  unfold lastOf
  cases hf : f a with
  | none => simp [hf]
  | some x => cases hl : (acts.filterMap f).getLast? <;> simp [hf, List.getLast?_cons, hl]

theorem lastOf_append {α : Type} (f : Action → Option α) (acts rest : List Action) :
    lastOf f (acts ++ rest) = (lastOf f rest).or (lastOf f acts) := by
  simp only [lastOf, List.filterMap_append, List.getLast?_append]

end Action

namespace State

open ModalLexer.Action

theorem isQuiet_of_mem_actEvents {s : State} {a : Action} :
    ∀ e ∈ s.actEvents a, e.IsQuiet := by
  intro e he
  unfold actEvents at he
  split at he
  · rw [List.mem_singleton.mp he]
    exact ⟨rfl, rfl⟩
  · split at he
    · cases he
    · rw [List.mem_singleton.mp he]
      exact ⟨rfl, rfl⟩
  · cases he

/-- One of the actions is carried out, and then the others. -/
theorem perform_cons_eq_ok {s t : State} {a : Action} {acts : List Action}
    {events : List Event} {failure : Option LexerError} :
    s.perform (a :: acts) = { events, outcome := .ok (t, failure) } ↔
      ∃ after, events = s.actEvents a ++ after ∧
        ((∃ u, s.act a = .ok u ∧ u.perform acts = { events := after, outcome := .ok (t, failure) })
          ∨ ∃ e, s.act a = .error e ∧ t = s ∧ failure = some e ∧ after = []) := by
  rw [perform, Run.bind_eq_ok]
  constructor
  · rintro ⟨before, u, after, hemit, hrest, rfl⟩
    obtain rfl := Run.emit_eq_ok.mp hemit
    refine ⟨after, rfl, ?_⟩
    split at hrest
    · exact .inl ⟨_, ‹_›, hrest⟩
    · obtain ⟨rfl, rfl, rfl⟩ := Run.pure_pair_eq_ok.mp hrest
      exact .inr ⟨_, ‹_›, rfl, rfl, rfl⟩
  · rintro ⟨after, rfl, ⟨u, hact, hrest⟩ | ⟨e, hact, rfl, rfl, rfl⟩⟩
    · exact ⟨_, (), after, rfl, by simpa only [hact] using hrest, rfl⟩
    · exact ⟨_, (), [], rfl, by simp only [hact]; rfl, rfl⟩

/-- An action fails in one way only. -/
theorem act_eq_error {s : State} {a : Action} {e : LexerError} (h : s.act a = .error e) :
    ∃ mode, e = .emptyModeStack mode := by
  cases a
  case popMode =>
      change s.popMode = .error e at h
      unfold popMode at h
      split at h
      · exact ⟨_, (Except.error.inj h).symm⟩
      · cases h
  all_goals cases h

theorem act_frame {s t : State} {a : Action} (h : s.act a = .ok t) :
    t.eofSeen = s.eofSeen ∧ t.lastToken? = s.lastToken?
      ∧ t.candidate.start? = s.candidate.start? := by
  cases a
  case popMode =>
      change s.popMode = .ok t at h
      unfold popMode at h
      split at h
      · cases h
      · obtain rfl := Except.ok.inj h
        exact ⟨rfl, rfl, rfl⟩
  all_goals
    obtain rfl := Except.ok.inj h
    exact ⟨rfl, rfl, rfl⟩

theorem perform_frame {s t : State} : ∀ {acts : List Action} {events : List Event}
    {failure : Option LexerError}, s.perform acts = { events, outcome := .ok (t, failure) } →
      t.eofSeen = s.eofSeen ∧ t.lastToken? = s.lastToken?
        ∧ t.candidate.start? = s.candidate.start?
        ∧ (∀ e ∈ events, e.IsQuiet)
        ∧ ∀ e, failure = some e → ∃ mode, e = .emptyModeStack mode := by
  intro acts
  induction acts generalizing s with
  | nil =>
      intro events failure h
      obtain ⟨rfl, rfl, rfl⟩ := Run.pure_pair_eq_ok.mp h
      exact ⟨rfl, rfl, rfl, by simp, by simp⟩
  | cons a acts ih =>
      intro events failure h
      obtain ⟨after, rfl, ⟨u, hact, hrest⟩ | ⟨e, hact, rfl, rfl, rfl⟩⟩ :=
        perform_cons_eq_ok.mp h
      · obtain ⟨heof, hlast, hstart, hevents, hfail⟩ := ih hrest
        obtain ⟨heof', hlast', hstart'⟩ := act_frame hact
        refine ⟨heof.trans heof', hlast.trans hlast', hstart.trans hstart', ?_, hfail⟩
        intro e he
        rcases List.mem_append.mp he with he | he
        · exact isQuiet_of_mem_actEvents e he
        · exact hevents e he
      · refine ⟨rfl, rfl, rfl, ?_, ?_⟩
        · rw [List.append_nil]
          exact isQuiet_of_mem_actEvents
        · intro e' he
          obtain rfl := Option.some.inj he
          exact act_eq_error hact

/-- What one action leaves in the candidate. -/
theorem act_candidate {s t : State} {a : Action} (h : s.act a = .ok t) :
    t.candidate.type? = a.type?.or s.candidate.type?
      ∧ t.candidate.channel = a.channel?.getD s.candidate.channel
      ∧ t.candidate.text? = a.text?.or s.candidate.text?
      ∧ t.token? = a.emitted?.or s.token? := by
  cases a
  case popMode =>
      change s.popMode = .ok t at h
      unfold popMode at h
      split at h
      · cases h
      · obtain rfl := Except.ok.inj h
        exact ⟨rfl, rfl, rfl, rfl⟩
  all_goals
    obtain rfl := Except.ok.inj h
    exact ⟨rfl, rfl, rfl, rfl⟩

/-- The state after an action that leads to this mode, with these below it. -/
def acted (s : State) (a : Action) (mode : ModeId) (modeStack : List ModeId) : State :=
  { s with mode, modeStack, candidate := a.shape s.candidate, token? := a.emitted?.or s.token? }

/-- In two states with the same modes, an action fails alike, or leads to the
same modes and does the same to the candidates. -/
theorem act_alike {s t : State} (hmode : t.mode = s.mode) (hstack : t.modeStack = s.modeStack)
    (a : Action) :
    t.actEvents a = s.actEvents a
      ∧ ((∃ e, s.act a = .error e ∧ t.act a = .error e)
        ∨ ∃ mode modeStack, s.act a = .ok (s.acted a mode modeStack)
          ∧ t.act a = .ok (t.acted a mode modeStack)) := by
  obtain ⟨_, _, _, _, _, _⟩ := s
  obtain ⟨mode, stack, _, _, _, _⟩ := t
  obtain rfl := hmode
  obtain rfl := hstack
  cases a
  case popMode =>
      cases stack with
      | nil => exact ⟨rfl, .inl ⟨_, rfl, rfl⟩⟩
      | cons below rest => exact ⟨rfl, .inr ⟨below, rest, rfl, rfl⟩⟩
  case setMode next => exact ⟨rfl, .inr ⟨next, stack, rfl, rfl⟩⟩
  case pushMode next => exact ⟨rfl, .inr ⟨next, mode :: stack, rfl, rfl⟩⟩
  all_goals exact ⟨rfl, .inr ⟨mode, stack, rfl, rfl⟩⟩

/-- What all the actions of a match leave in the candidate: of each kind the
last one counts, and without one nothing changes. -/
theorem perform_all {s t : State} : ∀ {acts : List Action} {events : List Event},
    s.perform acts = { events, outcome := .ok (t, none) } →
      t.candidate.type? = (lastOf type? acts).or s.candidate.type?
        ∧ t.candidate.channel = (lastOf channel? acts).getD s.candidate.channel
        ∧ t.candidate.text? = (lastOf text? acts).or s.candidate.text?
        ∧ t.token? = (lastOf emitted? acts).or s.token? := by
  intro acts
  induction acts generalizing s with
  | nil =>
      intro events h
      obtain ⟨rfl, -, -⟩ := Run.pure_pair_eq_ok.mp h
      exact ⟨rfl, rfl, rfl, rfl⟩
  | cons a acts ih =>
      intro events h
      obtain ⟨after, -, ⟨u, hact, hrest⟩ | ⟨e, -, -, hfail, -⟩⟩ := perform_cons_eq_ok.mp h
      · obtain ⟨htype, hchannel, htext, htoken⟩ := ih hrest
        obtain ⟨htype', hchannel', htext', htoken'⟩ := act_candidate hact
        simp only [lastOf_cons, Option.or_assoc]
        refine ⟨by rw [htype, htype'], ?_, by rw [htext, htext'], by rw [htoken, htoken']⟩
        rw [hchannel, hchannel']
        cases lastOf channel? acts <;> rfl
      · cases hfail

end State

end ModalLexer
