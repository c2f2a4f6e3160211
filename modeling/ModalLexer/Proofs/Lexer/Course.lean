import ModalLexer.Lexer.Production
import ModalLexer.Proofs.Actions
import ModalLexer.Proofs.Stream.Motion

/-!
# The course of a call

What the loops of the lexer do, without the limits on their rounds. A `Turn`
is one match of a candidate with everything that follows from it; a candidate
is *assembled* by a sequence of turns, and a call *produces* its result by a
sequence of candidates. `step_eq_ok`, `assembles_of_assemble` and
`produces_of_produce` lead from the runs of the library to these relations,
so that what holds of every run is shown by induction on its course.

The first such property is that a call keeps whatever the recognizer keeps of
itself and its stream, as long as looking at the next character does no harm
(`Produces.keeps`). In particular, a lexer moves its stream as its recognizer
does, and otherwise only peeks and consumes (`Produces.moves`).
-/

namespace ModalLexer

/-- The recognizer moves its stream within `M`. -/
structure Recognizer.MovesBy (ρ : Type) [Recognizer ρ] (M : CharStream → CharStream → Prop) :
    Prop where
  scan : ∀ {r : ρ} {s : CharStream} {mode : ModeId} {state : State} {events : List Event}
    {found : Scan ρ},
    Recognizer.scan r s mode state = { events, outcome := .ok found } → M s found.stream
  consume : ∀ {r r' : ρ} {s s' : CharStream}, Recognizer.consume r s = .ok (r', s') → M s s'

/-- The recognizer keeps `P` of itself and its stream, and so does a look at
the next character. -/
structure Recognizer.Invariant (ρ : Type) [Recognizer ρ] (P : ρ → CharStream → Prop) : Prop where
  peek : ∀ {r : ρ} {s : CharStream}, P r s → P r s.peek.2
  scan : ∀ {r : ρ} {s : CharStream} {mode : ModeId} {state : State} {events : List Event}
    {found : Scan ρ}, P r s →
    Recognizer.scan r s mode state = { events, outcome := .ok found } →
      P found.recognizer found.stream
  consume : ∀ {r r' : ρ} {s s' : CharStream}, P r s →
    Recognizer.consume r s = .ok (r', s') → P r' s'

/-- Where the stream has got to from `s₀` is an invariant. -/
theorem Recognizer.MovesBy.invariant {ρ : Type} [Recognizer ρ]
    {M : CharStream → CharStream → Prop} (hM : CharStream.Motion M)
    (hρ : Recognizer.MovesBy ρ M) (s₀ : CharStream) :
    Recognizer.Invariant ρ fun _ s => M s₀ s where
  peek h := hM.trans h (hM.peek _)
  scan h hscan := hM.trans h (hρ.scan hscan)
  consume h hconsume := hM.trans h (hρ.consume hconsume)

namespace Head

variable {ρ : Type}

/-! ## Looking at the next character -/

theorem noteEof_eq (h : Head ρ) :
    h.noteEof = { h with
      stream := h.stream.peek.2
      state := { h.state with
        eofSeen := h.state.eofSeen || h.stream.peek.1.isNone } } := by
  unfold noteEof peek
  rcases h.stream.peek with ⟨_ | c, s⟩ <;> simp

theorem quote_eq (h : Head ρ) (start : Start) :
    h.quote start = if (h.stream.slice start.index (h.index + 1)).isEmpty
      then (if h.stream.peek.1.isNone then "<EOF>" else "", h.peek.2)
      else (Text.visible (h.stream.slice start.index (h.index + 1)), h) := by
  unfold quote peek
  rcases h.stream.peek with ⟨_ | c, s⟩ <;> rfl

/-- A match of the reserved type with text in the candidate counts as failed. -/
theorem refuseEofText_eq {h : Head ρ} {start : Start}
    (hbegan : h.state.candidate.start? = some start) {mode : ModeId} {finding : Finding} :
    h.refuseEofText mode finding =
      if finding = .matched (.type eofType) ∧ start.index < h.index then
        .noRule {
          index := start.index
          line := start.caret.line
          column := start.caret.column
          char? := none
          mode
          text := h.stream.slice start.index h.index }
      else finding := by
  unfold refuseEofText
  rw [hbegan]
  split
  · rename_i id start' heq
    obtain rfl := Option.some.inj heq
    simp
  · rename_i hne
    rw [if_neg]
    rintro ⟨rfl, -⟩
    exact hne _ _ rfl rfl

variable [Recognizer ρ]

/-! ## One match -/

theorem matchToken_eq_ok {h h' : Head ρ} {mode : ModeId} {events : List Event}
    {found : Except LexerError Finding} :
    h.matchToken mode = { events, outcome := .ok (h', found) } ↔
      ∃ before after scan state failure,
        Recognizer.scan h.recognizer h.stream mode h.state
            = { events := before, outcome := .ok scan }
          ∧ h.state.perform scan.actions
            = { events := after, outcome := .ok (state, failure) }
          ∧ h' = { stream := scan.stream, recognizer := scan.recognizer, state }
          ∧ found = failure.elim scan.outcome .error ∧ events = before ++ after := by
  unfold matchToken
  simp only [Run.bind_eq_ok]
  constructor
  · rintro ⟨before, scan, rest, hscan, ⟨after, ⟨state, failure⟩, last, hperform, hlast, rfl⟩,
      rfl⟩
    refine ⟨before, after, scan, state, failure, hscan, hperform, ?_⟩
    cases failure <;> obtain ⟨heq, rfl⟩ := Run.pure_eq_ok.mp hlast <;>
      obtain ⟨rfl, rfl⟩ := Prod.mk.inj heq <;> simp
  · rintro ⟨before, after, scan, state, failure, hscan, hperform, rfl, rfl, rfl⟩
    refine ⟨before, scan, after, hscan, ⟨after, _, [], hperform, ?_, by simp⟩, rfl⟩
    cases failure <;> exact Run.pure_eq_ok.mpr ⟨rfl, rfl⟩

/-- The actions of a match do not fault. -/
theorem exists_matchToken_of_scan (h : Head ρ) (mode : ModeId) {before : List Event}
    {scan : Scan ρ} (hscan : Recognizer.scan h.recognizer h.stream mode h.state
      = { events := before, outcome := .ok scan }) :
    ∃ events state failure, (h.state.perform scan.actions).outcome = .ok (state, failure)
      ∧ h.matchToken mode = {
        events
        outcome := .ok ({ stream := scan.stream, recognizer := scan.recognizer, state },
          failure.elim scan.outcome .error) } := by
  obtain ⟨⟨state, failure⟩, hperform⟩ := State.outcome_perform scan.actions h.state
  exact ⟨_, state, failure, hperform, matchToken_eq_ok.mpr
    ⟨before, _, scan, state, failure, hscan, Run.ext rfl hperform, rfl, rfl, rfl⟩⟩

/-- A candidate begins where it began. -/
theorem start?_of_matchToken {h h' : Head ρ} {mode : ModeId} {events : List Event}
    {found : Except LexerError Finding}
    (hmatch : h.matchToken mode = { events, outcome := .ok (h', found) }) :
    h'.state.candidate.start? = h.state.candidate.start? := by
  obtain ⟨_, _, _, _, _, -, hperform, rfl, -, -⟩ := matchToken_eq_ok.mp hmatch
  exact (State.perform_frame hperform).2.2.1

theorem settle_matched_eq_ok {h h' : Head ρ} {reporter : Reporter} {type matched : TokenType}
    {events : List Event} :
    h.settle reporter (.matched type) = { events, outcome := .ok (h', matched) } ↔
      h' = h ∧ matched = type ∧ events = [] := by
  constructor
  · intro h
    obtain ⟨rfl, rfl, rfl⟩ := Run.pure_pair_eq_ok.mp h
    exact ⟨rfl, rfl, rfl⟩
  · rintro ⟨rfl, rfl, rfl⟩
    rfl

theorem settle_noRule_eq_ok {h h' : Head ρ} {reporter : Reporter} {site : ErrorSite}
    {events : List Event} {matched : TokenType} :
    h.settle reporter (.noRule site) = { events, outcome := .ok (h', matched) } ↔
      ∃ before h₁ after,
        h.report reporter (.noRule site) = { events := before, outcome := .ok h₁ }
          ∧ h₁.dropChar (.noRule site) = { events := after, outcome := .ok h' }
          ∧ matched = .skip ∧ events = before ++ after := by
  simp only [settle, Run.bind_eq_ok]
  constructor
  · rintro ⟨before, h₁, rest, hreport, ⟨after, h₂, last, hdrop, hlast, rfl⟩, rfl⟩
    obtain ⟨rfl, rfl, rfl⟩ := Run.pure_pair_eq_ok.mp hlast
    exact ⟨before, h₁, after, hreport, hdrop, rfl, by simp⟩
  · rintro ⟨before, h₁, after, hreport, hdrop, rfl, rfl⟩
    exact ⟨before, h₁, after, hreport, ⟨after, h', [], hdrop, rfl, by simp⟩, rfl⟩

/-- A report is one delivery, and at most a look at the next character. -/
theorem report_eq (h : Head ρ) (reporter : Reporter) (e : RecognitionError) :
    h.report reporter e =
      { events := reporter.listeners.deliver {
          source := reporter.source
          line := (h.state.candidate.start?.getD h.here).caret.line
          column := (h.state.candidate.start?.getD h.here).caret.column
          message := "token recognition error at: '"
            ++ (h.quote (h.state.candidate.start?.getD h.here)).1 ++ "'"
          cause := e }
        outcome := .ok (h.quote (h.state.candidate.start?.getD h.here)).2 } := by
  simp only [report]
  generalize h.quote (h.state.candidate.start?.getD h.here) = q
  exact Run.bind_eq_ok.mpr ⟨_, (), [], rfl, rfl, (List.append_nil _).symm⟩

/-- A report names its cause to the listeners, and at most looks at the next
character. -/
theorem exists_report {h h' : Head ρ} {reporter : Reporter} {e : RecognitionError}
    {events : List Event} (hreport : h.report reporter e = { events, outcome := .ok h' }) :
    ∃ report, events = reporter.listeners.deliver report ∧ report.cause = e
      ∧ (h' = h ∨ h' = h.peek.2) := by
  rw [report_eq] at hreport
  obtain ⟨rfl, hok⟩ := Run.mk.inj hreport
  obtain rfl := Except.ok.inj hok
  refine ⟨_, rfl, rfl, ?_⟩
  rw [quote_eq]
  split
  · exact .inr rfl
  · exact .inl rfl

theorem consume_eq_ok {h h' : Head ρ} :
    h.consume = .ok h' ↔ ∃ r s, Recognizer.consume h.recognizer h.stream = .ok (r, s)
      ∧ h' = { h with recognizer := r, stream := s } := by
  rw [consume, Checked.bind_eq_ok]
  constructor
  · rintro ⟨⟨r, s⟩, hr, heq⟩
    exact ⟨r, s, hr, (Except.ok.inj heq).symm⟩
  · rintro ⟨r, s, hr, rfl⟩
    exact ⟨(r, s), hr, rfl⟩

theorem dropChar_eq_ok {h h' : Head ρ} {e : RecognitionError} {events : List Event} :
    h.dropChar e = { events, outcome := .ok h' } ↔
      (h.stream.peek.1 = none ∧ h' = h.peek.2 ∧ events = [])
        ∨ ∃ c r s, h.stream.peek.1 = some c ∧ events = [.skipping e c]
          ∧ Recognizer.consume h.recognizer h.stream.peek.2 = .ok (r, s)
          ∧ h' = { h with recognizer := r, stream := s } := by
  unfold dropChar peek
  rcases h.stream.peek with ⟨_ | c, s⟩
  · simp only [Run.pure_eq_ok]
    simp
  · simp only [Run.bind_eq_ok]
    constructor
    · rintro ⟨before, u, after, hemit, hconsume, rfl⟩
      obtain ⟨hok, rfl⟩ := Run.ofExcept_eq_ok.mp hconsume
      obtain rfl := Run.emit_eq_ok.mp hemit
      obtain ⟨r, s', hr, rfl⟩ := consume_eq_ok.mp hok
      exact .inr ⟨c, r, s', rfl, by simp, hr, rfl⟩
    · rintro (⟨hn, -⟩ | ⟨c', r, s', hc, rfl, hr, rfl⟩)
      · simp at hn
      · obtain rfl := Option.some.inj hc
        refine ⟨_, (), [], rfl, ?_, by simp⟩
        exact Run.ofExcept_eq_ok.mpr ⟨consume_eq_ok.mpr ⟨r, s', hr, rfl⟩, rfl⟩

/-- Reporting a failed match and leaving it behind changes nothing in the state. -/
theorem settle_state {h h' : Head ρ} {reporter : Reporter} {finding : Finding}
    {events : List Event} {matched : TokenType}
    (hsettle : h.settle reporter finding = { events, outcome := .ok (h', matched) }) :
    h'.state = h.state
      ∧ (finding = .matched matched ∨ ∃ site, finding = .noRule site ∧ matched = .skip) := by
  cases finding with
  | matched type =>
      obtain ⟨rfl, rfl, -⟩ := settle_matched_eq_ok.mp hsettle
      exact ⟨rfl, .inl rfl⟩
  | noRule site =>
      obtain ⟨before, h₁, after, hreport, hdrop, rfl, -⟩ := settle_noRule_eq_ok.mp hsettle
      have hquote : h₁.state = h.state := by
        rw [report_eq] at hreport
        rw [← Except.ok.inj (Run.mk.inj hreport).2, quote_eq]
        split <;> rfl
      refine ⟨?_, .inr ⟨site, rfl, rfl⟩⟩
      rcases dropChar_eq_ok.mp hdrop with ⟨-, rfl, -⟩ | ⟨c, r, s, -, -, -, rfl⟩ <;>
        exact hquote

/-- What one match can do: end the call, or be decided. -/
inductive Turn (reporter : Reporter) (h : Head ρ) :
    List Event → Head ρ → Except LexerError TokenType → Prop
  | stopped {events : List Event} {h' : Head ρ} {e : LexerError}
      (hmatch : h.undecided.matchToken h.state.mode
        = { events, outcome := .ok (h', .error e) }) :
      Turn reporter h events h' (.error e)
  | decided {before after : List Event} {h₁ h₂ h' : Head ρ} {outcome : Finding}
      {matched final : TokenType}
      (hmatch : h.undecided.matchToken h.state.mode
        = { events := before, outcome := .ok (h₁, .ok outcome) })
      (hsettle : h₁.settle reporter (h₁.refuseEofText h.state.mode outcome)
        = { events := after, outcome := .ok (h₂, matched) })
      (hfinal : h₂.noteEof.conclude matched = (final, h')) :
      Turn reporter h (before ++ after ++ [.decided h.state.mode matched final h'.index]) h'
        (.ok final)

theorem step_eq_ok {h h' : Head ρ} {reporter : Reporter} {events : List Event}
    {decision : Except LexerError TokenType} :
    h.step reporter = { events, outcome := .ok (h', decision) } ↔
      h.Turn reporter events h' decision := by
  unfold step
  constructor
  · intro hstep
    obtain ⟨before, ⟨h₁, found⟩, rest, hmatch, hrest, rfl⟩ := Run.bind_eq_ok.mp hstep
    cases found with
    | error e =>
        obtain ⟨rfl, rfl, rfl⟩ := Run.pure_pair_eq_ok.mp hrest
        rw [List.append_nil]
        exact .stopped hmatch
    | ok outcome =>
        obtain ⟨after, ⟨h₂, matched⟩, last, hsettle, hlast, rfl⟩ := Run.bind_eq_ok.mp hrest
        obtain ⟨emitted, u, none', hemit, hpure, rfl⟩ := Run.bind_eq_ok.mp hlast
        obtain ⟨heq, rfl⟩ := Run.pure_eq_ok.mp hpure
        obtain rfl := Run.emit_eq_ok.mp hemit
        obtain ⟨rfl, rfl⟩ := Prod.mk.inj heq
        rw [List.append_nil, ← List.append_assoc]
        exact .decided hmatch hsettle rfl
  · rintro (⟨hmatch⟩ | ⟨hmatch, hsettle, hfinal⟩)
    · exact Run.bind_eq_ok.mpr ⟨_, _, [], hmatch, rfl, by simp⟩
    · refine Run.bind_eq_ok.mpr ⟨_, _, _, hmatch, ?_, List.append_assoc ..⟩
      refine Run.bind_eq_ok.mpr ⟨_, _, _, hsettle, ?_, rfl⟩
      obtain ⟨rfl, rfl⟩ := Prod.mk.inj hfinal
      exact Run.bind_eq_ok.mpr ⟨_, (), [], rfl, rfl, by simp⟩

theorem Turn.unique {h h₁ h₂ : Head ρ} {reporter : Reporter} {events₁ events₂ : List Event}
    {decision₁ decision₂ : Except LexerError TokenType}
    (hone : h.Turn reporter events₁ h₁ decision₁) (htwo : h.Turn reporter events₂ h₂ decision₂) :
    events₁ = events₂ ∧ h₁ = h₂ ∧ decision₁ = decision₂ := by
  obtain ⟨hevents, hok⟩ := Run.mk.inj ((step_eq_ok.mpr hone).symm.trans (step_eq_ok.mpr htwo))
  exact ⟨hevents, Prod.mk.inj (Except.ok.inj hok)⟩

theorem Turn.start?_eq {h h' : Head ρ} {reporter : Reporter} {events : List Event}
    {decision : Except LexerError TokenType} (hturn : h.Turn reporter events h' decision) :
    h'.state.candidate.start? = h.state.candidate.start? := by
  cases hturn with
  | stopped hmatch => exact start?_of_matchToken (h := h.undecided) hmatch
  | decided hmatch hsettle hfinal =>
      obtain ⟨hstate, -⟩ := settle_state hsettle
      obtain ⟨-, rfl⟩ := Prod.mk.inj hfinal
      rw [noteEof_eq]
      simp only [State.setType, hstate]
      exact start?_of_matchToken (h := h.undecided) hmatch

theorem Turn.lastToken?_eq {h h' : Head ρ} {reporter : Reporter} {events : List Event}
    {decision : Except LexerError TokenType} (hturn : h.Turn reporter events h' decision) :
    h'.state.lastToken? = h.state.lastToken? := by
  cases hturn with
  | stopped hmatch =>
      obtain ⟨_, _, _, _, _, -, hperform, rfl, -, -⟩ := matchToken_eq_ok.mp hmatch
      exact (State.perform_frame hperform).2.1
  | decided hmatch hsettle hfinal =>
      obtain ⟨_, _, _, _, _, -, hperform, rfl, -, -⟩ := matchToken_eq_ok.mp hmatch
      obtain ⟨hstate, -⟩ := settle_state hsettle
      obtain ⟨-, rfl⟩ := Prod.mk.inj hfinal
      rw [noteEof_eq]
      simp only [State.setType, hstate]
      exact (State.perform_frame hperform).2.1

/-! ## Candidates and calls -/

/-- The head with a candidate that begins here. -/
def begun (h : Head ρ) : Head ρ := { h with state := h.state.begin h.here }

/-- Turns that keep their text, and one that does not. -/
inductive Assembles (reporter : Reporter) :
    Head ρ → List Event → Head ρ → Except LexerError TokenType → Prop
  | last {h h' : Head ρ} {events : List Event} {decision : Except LexerError TokenType}
      (hturn : h.Turn reporter events h' decision) (hlast : decision ≠ .ok .more) :
      Assembles reporter h events h' decision
  | more {h h₁ h' : Head ρ} {before after : List Event}
      {decision : Except LexerError TokenType}
      (hturn : h.Turn reporter before h₁ (.ok .more))
      (hrest : Assembles reporter h₁ after h' decision) :
      Assembles reporter h (before ++ after) h' decision

/-- Candidates that are discarded, and the end of the call. -/
inductive Produces (reporter : Reporter) :
    Head ρ → List Event → Head ρ → Except LexerError Token → Prop
  | sentinel {h h' : Head ρ} {t : Token} (heof : h.state.eofSeen = true)
      (hgive : h.giveEof reporter.source = .ok (h', t)) :
      Produces reporter h [] h' (.ok t)
  | broken {h h' : Head ρ} {events : List Event} {e : LexerError}
      (heof : h.state.eofSeen = false)
      (hcandidate : h.begun.Assembles reporter events h' (.error e)) :
      Produces reporter h events h' (.error e)
  | completed {h h₁ h' : Head ρ} {events : List Event} {type : TokenId} {t : Token}
      (heof : h.state.eofSeen = false)
      (hcandidate : h.begun.Assembles reporter events h₁ (.ok (.type type)))
      (hcomplete : h₁.complete reporter.source h.here type = .ok (h', t)) :
      Produces reporter h events h' (.ok t)
  | discarded {h h₁ h' : Head ρ} {before after : List Event}
      {result : Except LexerError Token} (heof : h.state.eofSeen = false)
      (hcandidate : h.begun.Assembles reporter before h₁ (.ok .skip))
      (hrest : Produces reporter h₁ after h' result) :
      Produces reporter h (before ++ after) h' result

theorem assembles_of_assemble {reporter : Reporter} :
    ∀ {limit : Nat} {h h' : Head ρ} {events : List Event}
      {decision : Except LexerError TokenType},
      assemble reporter limit h = { events, outcome := .ok (h', decision) } →
        h.Assembles reporter events h' decision
  | 0, _, _, _, _, hrun => nomatch (Run.mk.inj hrun).2
  | limit + 1, h, h', events, decision, hrun => by
      obtain ⟨before, ⟨h₁, d⟩, after, hstep, hrest, rfl⟩ := Run.bind_eq_ok.mp hrun
      have hturn := step_eq_ok.mp hstep
      simp only at hrest
      split at hrest
      · exact .more hturn (assembles_of_assemble hrest)
      · rename_i hmore
        obtain ⟨rfl, rfl, rfl⟩ := Run.pure_pair_eq_ok.mp hrest
        rw [List.append_nil]
        exact .last hturn hmore

/-- A candidate is never complete as a part of a longer one. -/
theorem Assembles.ne_more {reporter : Reporter} {h h' : Head ρ} {events : List Event}
    {decision : Except LexerError TokenType}
    (hcandidate : h.Assembles reporter events h' decision) : decision ≠ .ok .more := by
  induction hcandidate with
  | last _ hlast => exact hlast
  | more _ _ ih => exact ih

/-- No token is given out before a candidate is complete. -/
theorem Assembles.lastToken?_eq {reporter : Reporter} {h h' : Head ρ} {events : List Event}
    {decision : Except LexerError TokenType}
    (hcandidate : h.Assembles reporter events h' decision) :
    h'.state.lastToken? = h.state.lastToken? := by
  induction hcandidate with
  | last hturn _ => exact hturn.lastToken?_eq
  | more hturn _ ih => exact ih.trans hturn.lastToken?_eq

theorem produces_of_produce {reporter : Reporter} {matchLimit : Nat} :
    ∀ {limit : Nat} {h h' : Head ρ} {events : List Event} {result : Except LexerError Token},
      produce reporter matchLimit limit h = { events, outcome := .ok (h', result) } →
        h.Produces reporter events h' result
  | 0, _, _, _, _, hrun => nomatch (Run.mk.inj hrun).2
  | limit + 1, h, h', events, result, hrun => by
      unfold produce at hrun
      split at hrun
      · rename_i heof
        obtain ⟨before, ⟨h₁, t⟩, after, hlift, hrest, rfl⟩ := Run.bind_eq_ok.mp hrun
        obtain ⟨hgive, rfl⟩ := Run.ofExcept_eq_ok.mp hlift
        obtain ⟨rfl, rfl, rfl⟩ := Run.pure_pair_eq_ok.mp hrest
        exact .sentinel heof hgive
      · rename_i heof
        replace heof := Bool.eq_false_iff.mpr heof
        obtain ⟨before, ⟨h₁, d⟩, after, hassemble, hrest, rfl⟩ := Run.bind_eq_ok.mp hrun
        have hcandidate : h.begun.Assembles reporter before h₁ d :=
          assembles_of_assemble hassemble
        rcases d with e | matched
        · obtain ⟨rfl, rfl, rfl⟩ := Run.pure_pair_eq_ok.mp hrest
          rw [List.append_nil]
          exact .broken heof hcandidate
        cases matched with
        | type type =>
            obtain ⟨before', ⟨h₂, t⟩, after', hlift, hlast, rfl⟩ := Run.bind_eq_ok.mp hrest
            obtain ⟨hcomplete, rfl⟩ := Run.ofExcept_eq_ok.mp hlift
            obtain ⟨rfl, rfl, rfl⟩ := Run.pure_pair_eq_ok.mp hlast
            simp only [List.append_nil]
            exact .completed heof hcandidate hcomplete
        -- the loop above does not end at a match that keeps its text
        | more => exact absurd rfl hcandidate.ne_more
        | skip => exact .discarded heof hcandidate (produces_of_produce hrest)

/-- What a call that began in `h` makes of its first candidate, once this has
been decided in `k`. -/
inductive Concludes (h : Head ρ) (reporter : Reporter) (k : Head ρ) : Except LexerError TokenType →
    List Event → Head ρ → Except LexerError Token → Prop
  | broken {e : LexerError} : Concludes h reporter k (.error e) [] k (.error e)
  | completed {type : TokenId} {h' : Head ρ} {t : Token}
      (hcomplete : k.complete reporter.source h.here type = .ok (h', t)) :
      Concludes h reporter k (.ok (.type type)) [] h' (.ok t)
  | discarded {events : List Event} {h' : Head ρ} {result : Except LexerError Token}
      (hrest : k.Produces reporter events h' result) :
      Concludes h reporter k (.ok .skip) events h' result

/-- Unless the end of the stream has been seen, a call assembles a candidate and
concludes from it. -/
theorem Produces.first_candidate {reporter : Reporter} {h h' : Head ρ} {events : List Event}
    {result : Except LexerError Token} (hcall : h.Produces reporter events h' result)
    (hunseen : h.state.eofSeen = false) :
    ∃ tried rest k decision, events = tried ++ rest
      ∧ h.begun.Assembles reporter tried k decision
      ∧ h.Concludes reporter k decision rest h' result := by
  cases hcall with
  | sentinel heof => cases hunseen.symm.trans heof
  | broken _ hcandidate =>
      exact ⟨events, [], _, _, (List.append_nil _).symm, hcandidate, .broken⟩
  | completed _ hcandidate hcomplete =>
      exact ⟨events, [], _, _, (List.append_nil _).symm, hcandidate, .completed hcomplete⟩
  | discarded _ hcandidate hrest => exact ⟨_, _, _, _, rfl, hcandidate, .discarded hrest⟩

/-! ## One course at most -/

theorem Assembles.unique {reporter : Reporter} {h h₁ h₂ : Head ρ} {events₁ events₂ : List Event}
    {decision₁ decision₂ : Except LexerError TokenType}
    (hone : h.Assembles reporter events₁ h₁ decision₁)
    (htwo : h.Assembles reporter events₂ h₂ decision₂) :
    events₁ = events₂ ∧ h₁ = h₂ ∧ decision₁ = decision₂ := by
  induction hone generalizing events₂ h₂ decision₂ with
  | last hturn hlast =>
      cases htwo with
      | last hturn' _ => exact hturn.unique hturn'
      | more hturn' _ => exact absurd (hturn.unique hturn').2.2 hlast
  | more hturn _ ih =>
      cases htwo with
      | last hturn' hlast' => exact absurd (hturn.unique hturn').2.2.symm hlast'
      | more hturn' hrest' =>
          obtain ⟨rfl, rfl, -⟩ := hturn.unique hturn'
          obtain ⟨rfl, rfl, rfl⟩ := ih hrest'
          exact ⟨rfl, rfl, rfl⟩

theorem Produces.unique {reporter : Reporter} {h h₁ h₂ : Head ρ} {events₁ events₂ : List Event}
    {result₁ result₂ : Except LexerError Token} (hone : h.Produces reporter events₁ h₁ result₁)
    (htwo : h.Produces reporter events₂ h₂ result₂) :
    events₁ = events₂ ∧ h₁ = h₂ ∧ result₁ = result₂ := by
  induction hone generalizing events₂ h₂ result₂ with
  | sentinel heof hgive =>
      cases htwo with
      | sentinel _ hgive' =>
          obtain ⟨rfl, rfl⟩ := Prod.mk.inj (Except.ok.inj (hgive.symm.trans hgive'))
          exact ⟨rfl, rfl, rfl⟩
      | broken heof' | completed heof' | discarded heof' => cases heof.symm.trans heof'
  | broken heof hcandidate =>
      cases htwo with
      | sentinel heof' => cases heof.symm.trans heof'
      | broken _ hcandidate' =>
          obtain ⟨rfl, rfl, heq⟩ := hcandidate.unique hcandidate'
          exact ⟨rfl, rfl, congrArg _ (Except.error.inj heq)⟩
      | completed _ hcandidate' | discarded _ hcandidate' =>
          cases (hcandidate.unique hcandidate').2.2
  | completed heof hcandidate hcomplete =>
      cases htwo with
      | sentinel heof' => cases heof.symm.trans heof'
      | broken _ hcandidate' | discarded _ hcandidate' =>
          cases (hcandidate.unique hcandidate').2.2
      | completed _ hcandidate' hcomplete' =>
          obtain ⟨rfl, rfl, heq⟩ := hcandidate.unique hcandidate'
          obtain rfl := TokenType.type.inj (Except.ok.inj heq)
          obtain ⟨rfl, rfl⟩ := Prod.mk.inj (Except.ok.inj (hcomplete.symm.trans hcomplete'))
          exact ⟨rfl, rfl, rfl⟩
  | discarded heof hcandidate _ ih =>
      cases htwo with
      | sentinel heof' => cases heof.symm.trans heof'
      | broken _ hcandidate' | completed _ hcandidate' =>
          cases (hcandidate.unique hcandidate').2.2
      | discarded _ hcandidate' hrest' =>
          obtain ⟨rfl, rfl, -⟩ := hcandidate.unique hcandidate'
          obtain ⟨rfl, rfl, rfl⟩ := ih hrest'
          exact ⟨rfl, rfl, rfl⟩

/-! ## How the sentinel and the token are given out -/

section Give

variable {h h' : Head ρ}

theorem isEof_of_eofToken {source : Source} {t : Token} (h₀ : h.eofToken source = .ok t) :
    t.isEof = true := by
  obtain ⟨column, -, heq⟩ := Checked.bind_eq_ok.mp h₀
  obtain rfl := Except.ok.inj heq
  rfl

theorem giveEof_eq_ok {source : Source} {t : Token} (hgive : h.giveEof source = .ok (h', t)) :
    h.eofToken source = .ok t ∧ h' = h.give t := by
  obtain ⟨u, heof, heq⟩ := Checked.bind_eq_ok.mp hgive
  obtain ⟨rfl, rfl⟩ := Prod.mk.inj (Except.ok.inj heq)
  exact ⟨heof, rfl⟩

/-- However it comes about, the token is given out and nothing else changes. -/
theorem complete_eq_ok {source : Source} {start : Start} {type : TokenId} {t : Token}
    (hcomplete : h.complete source start type = .ok (h', t)) :
    h' = h.give t ∧
      (h.state.token? = some t
        ∨ (h.state.token? = none ∧ type = eofType ∧ h.eofToken source = .ok t)
        ∨ (h.state.token? = none ∧ type ≠ eofType ∧ t = h.tokenAt source start type)) := by
  unfold complete at hcomplete
  split at hcomplete
  · rename_i u hu
    obtain ⟨rfl, rfl⟩ := Prod.mk.inj (Except.ok.inj hcomplete)
    exact ⟨rfl, .inl hu⟩
  · rename_i hnone
    split at hcomplete
    · rename_i htype
      obtain ⟨heof, rfl⟩ := giveEof_eq_ok hcomplete
      exact ⟨rfl, .inr (.inl ⟨hnone, htype, heof⟩)⟩
    · rename_i htype
      obtain ⟨rfl, rfl⟩ := Prod.mk.inj (Except.ok.inj hcomplete)
      exact ⟨rfl, .inr (.inr ⟨hnone, htype, rfl⟩)⟩

end Give

/-! ## What a call keeps -/

section Keeps

variable {P : ρ → CharStream → Prop} {reporter : Reporter} {h h' : Head ρ}
  {events : List Event}

theorem matchToken_keeps (hP : Recognizer.Invariant ρ P) (hh : P h.recognizer h.stream)
    {mode : ModeId} {found : Except LexerError Finding}
    (hmatch : h.matchToken mode = { events, outcome := .ok (h', found) }) :
    P h'.recognizer h'.stream := by
  obtain ⟨_, _, scan, _, _, hscan, -, rfl, -⟩ := matchToken_eq_ok.mp hmatch
  exact hP.scan hh hscan

theorem settle_keeps (hP : Recognizer.Invariant ρ P) (hh : P h.recognizer h.stream)
    {finding : Finding} {matched : TokenType}
    (hsettle : h.settle reporter finding = { events, outcome := .ok (h', matched) }) :
    P h'.recognizer h'.stream := by
  cases finding with
  | matched type =>
      obtain ⟨rfl, -, -⟩ := settle_matched_eq_ok.mp hsettle
      exact hh
  | noRule site =>
      obtain ⟨before, h₁, after, hreport, hdrop, -⟩ := settle_noRule_eq_ok.mp hsettle
      rw [report_eq] at hreport
      have hquote : P h₁.recognizer h₁.stream := by
        rw [← Except.ok.inj (Run.mk.inj hreport).2, quote_eq]
        split
        · exact hP.peek hh
        · exact hh
      rcases dropChar_eq_ok.mp hdrop with ⟨-, rfl, -⟩ | ⟨c, r, s, -, -, hconsume, rfl⟩
      · exact hP.peek hquote
      · exact hP.consume (hP.peek hquote) hconsume

theorem Turn.keeps (hP : Recognizer.Invariant ρ P) (hh : P h.recognizer h.stream)
    {decision : Except LexerError TokenType} (hturn : h.Turn reporter events h' decision) :
    P h'.recognizer h'.stream := by
  cases hturn with
  | stopped hmatch => exact matchToken_keeps (h := h.undecided) hP hh hmatch
  | decided hmatch hsettle hfinal =>
      have hsettled := settle_keeps hP (matchToken_keeps (h := h.undecided) hP hh hmatch) hsettle
      obtain ⟨-, rfl⟩ := Prod.mk.inj hfinal
      simp only [noteEof_eq]
      exact hP.peek hsettled

theorem Assembles.keeps (hP : Recognizer.Invariant ρ P) (hh : P h.recognizer h.stream)
    {decision : Except LexerError TokenType}
    (hcandidate : h.Assembles reporter events h' decision) : P h'.recognizer h'.stream := by
  induction hcandidate with
  | last hturn => exact hturn.keeps hP hh
  | more hturn _ ih => exact ih (hturn.keeps hP hh)

theorem Produces.keeps (hP : Recognizer.Invariant ρ P) (hh : P h.recognizer h.stream)
    {result : Except LexerError Token} (hcall : h.Produces reporter events h' result) :
    P h'.recognizer h'.stream := by
  induction hcall with
  | sentinel _ hgive =>
      obtain ⟨-, rfl⟩ := giveEof_eq_ok hgive
      exact hh
  | broken _ hcandidate => exact Assembles.keeps (h := begun _) hP hh hcandidate
  | completed _ hcandidate hcomplete =>
      have hkept := Assembles.keeps (h := begun _) hP hh hcandidate
      obtain ⟨rfl, -⟩ := complete_eq_ok hcomplete
      exact hkept
  | discarded _ hcandidate _ ih => exact ih (Assembles.keeps (h := begun _) hP hh hcandidate)

end Keeps

/-! ## Where the stream goes -/

section Moves

variable {M : CharStream → CharStream → Prop} {reporter : Reporter} {h h' : Head ρ}
  {events : List Event}

theorem matchToken_moves (hM : CharStream.Motion M) (hρ : Recognizer.MovesBy ρ M) {mode : ModeId}
    {found : Except LexerError Finding}
    (hmatch : h.matchToken mode = { events, outcome := .ok (h', found) }) :
    M h.stream h'.stream :=
  matchToken_keeps (hρ.invariant hM h.stream) (hM.refl _) hmatch

theorem settle_moves (hM : CharStream.Motion M) (hρ : Recognizer.MovesBy ρ M)
    {finding : Finding} {matched : TokenType}
    (hsettle : h.settle reporter finding = { events, outcome := .ok (h', matched) }) :
    M h.stream h'.stream :=
  settle_keeps (hρ.invariant hM h.stream) (hM.refl _) hsettle

theorem Turn.moves (hM : CharStream.Motion M) (hρ : Recognizer.MovesBy ρ M)
    {decision : Except LexerError TokenType} (hturn : h.Turn reporter events h' decision) :
    M h.stream h'.stream :=
  hturn.keeps (hρ.invariant hM h.stream) (hM.refl _)

theorem Assembles.moves (hM : CharStream.Motion M) (hρ : Recognizer.MovesBy ρ M)
    {decision : Except LexerError TokenType}
    (hcandidate : h.Assembles reporter events h' decision) : M h.stream h'.stream :=
  hcandidate.keeps (hρ.invariant hM h.stream) (hM.refl _)

/-- A lexer moves its stream as its recognizer does, and otherwise only peeks
and consumes. -/
theorem Produces.moves (hM : CharStream.Motion M) (hρ : Recognizer.MovesBy ρ M)
    {result : Except LexerError Token} (hcall : h.Produces reporter events h' result) :
    M h.stream h'.stream :=
  hcall.keeps (hρ.invariant hM h.stream) (hM.refl _)

end Moves

end Head

end ModalLexer
