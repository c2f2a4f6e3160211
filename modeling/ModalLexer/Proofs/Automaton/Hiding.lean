import ModalLexer.Proofs.Automaton.Turn

/-!
# Tables that drop hidden tokens

A rule can keep a token from the parser in two ways: by putting it on another
channel, or by dropping it. `skipHidden` turns the first way into the second,
in all rules that make a token on another channel than the default one. Their
changes of mode stay, and so does the channel that they set, which is of no
use to a text that is dropped.

The tables are walked alike, so a match that completes a token for the one is
at most dropped by the other, and then the token was hidden. Two lexers that
take these decisions agree about stream, caret and modes, but not about the
tokens that they gave out before: `Head.skipHidden` replaces both the tables
and the last token.
-/

namespace ModalLexer

open ModalLexer.Action

/-! ## The tables -/

/-- The rule, with a token on another channel than the default one dropped. -/
def Terminal.skipHidden (t : Terminal) : Terminal :=
  match t.action with
  | .token _ => if t.channel = defaultChannel then t else { t with action := .skip }
  | .skip | .more => t

theorem Terminal.skipHidden_cases (t : Terminal) :
    t.skipHidden = t ∨ ∃ id, t.action = .token id ∧ t.channel ≠ defaultChannel
      ∧ t.skipHidden = { t with action := .skip } := by
  unfold skipHidden
  split
  · rename_i id hid
    by_cases hchannel : t.channel = defaultChannel
    · exact .inl (if_pos hchannel)
    · exact .inr ⟨id, hid, hchannel, if_neg hchannel⟩
  · exact .inl rfl
  · exact .inl rfl

namespace Automaton

def skipHidden (a : Automaton) : Automaton :=
  { a with terminals := a.terminals.map Terminal.skipHidden }

/-- No rule makes tokens of the type that is reserved for the sentinel. -/
def ReservesEof (a : Automaton) : Prop :=
  ∀ terminal ∈ a.terminals, terminal.action ≠ .token eofType

instance (a : Automaton) : Decidable a.ReservesEof :=
  inferInstanceAs (Decidable (∀ terminal ∈ a.terminals, terminal.action ≠ .token eofType))

variable {a : Automaton} {q : StateId}

theorem mem_of_terminal? {t : Terminal} (h : a.terminal? q = some t) : t ∈ a.terminals := by
  unfold terminal? at h
  split at h
  · exact Array.mem_of_getElem? h
  · cases h

theorem terminal?_skipHidden (a : Automaton) (q : StateId) :
    a.skipHidden.terminal? q = (a.terminal? q).map Terminal.skipHidden := by
  simp only [terminal?, skipHidden, Array.getElem?_map]
  split <;> rfl

theorem walk_skipHidden (a : Automaton) (tab : TabWidth) (q : StateId) (p : Caret)
    (s : CharStream) : a.skipHidden.walk tab q p s = a.walk tab q p s := by
  have hnext (q : StateId) (c : Char) : a.skipHidden.next? q c = a.next? q c := rfl
  fun_induction Automaton.walk a tab q p s with
  | case1 q p s ahead hp => rw [walk, hp]
  | case2 q p s c ahead hp fault hfault =>
      rw [walk, hp]
      simp only [hnext, hfault]
  | case3 q p s c ahead hp hstop =>
      rw [walk, hp]
      simp only [hnext, hstop]
  | case4 q p s c ahead hp next hstep fault hfault =>
      rw [walk, hp]
      simp only [hnext, hstep, hfault]
  | case5 q p s c ahead hp next hstep p₁ hpass ih =>
      rw [walk, hp]
      simp only [hnext, hstep, hpass, ih]

end Automaton

/-! ## Findings -/

/-- What two recognizers find by a rule of that channel, if the second one
drops hidden tokens. -/
inductive Finding.SkipsHidden (channel : ChannelId) :
    Except LexerError Finding → Except LexerError Finding → Prop
  | same (found : Except LexerError Finding) : SkipsHidden channel found found
  | hidden {id : TokenId} (hid : id ≠ eofType) (hchannel : channel ≠ defaultChannel) :
      SkipsHidden channel (.ok (.matched (.type id))) (.ok (.matched .skip))

namespace TableRecognizer

def skipHidden (r : TableRecognizer) : TableRecognizer :=
  { r with automaton := r.automaton.skipHidden }

variable {r r' : TableRecognizer} {s s' : CharStream} {mode : ModeId} {events : List Event}
  {found : Scan TableRecognizer}

/-- The tables find the same end, and carry out the same actions there. -/
theorem Scans.skipHidden (ha : r.automaton.ReservesEof) (hscan : r.Scans s mode events found)
    (channel : ChannelId) :
    ∃ events' outcome, r.skipHidden.Scans s mode events'
        { found with recognizer := found.recognizer.skipHidden, outcome }
      ∧ Finding.SkipsHidden ((lastOf channel? found.actions).getD channel) found.outcome
        outcome := by
  have hwalks {q : StateId} {w : Automaton.Walk}
      (hwalk : r.automaton.walk r.tab q r.caret s = .ok w) :
      r.skipHidden.automaton.walk r.skipHidden.tab q r.skipHidden.caret s = .ok w :=
    (Automaton.walk_skipHidden ..).trans hwalk
  have hnone {q : StateId} (hterminal : r.automaton.terminal? q = none) :
      r.skipHidden.automaton.terminal? q = none := by
    rw [TableRecognizer.skipHidden, Automaton.terminal?_skipHidden, hterminal, Option.map_none]
  cases hscan with
  | unknown hmode => exact ⟨_, _, .unknown hmode, .same _⟩
  | atEnd hmode hwalk hterminal hend =>
      exact ⟨_, _, .atEnd hmode (hwalks hwalk) (hnone hterminal) hend, .same _⟩
  | stuck hmode hwalk hterminal hend =>
      exact ⟨_, _, .stuck hmode (hwalks hwalk) (hnone hterminal) hend, .same _⟩
  | @accepted start w t hmode hwalk hterminal =>
      have hterminal' : r.skipHidden.automaton.terminal? w.state = some t.skipHidden := by
        rw [TableRecognizer.skipHidden, Automaton.terminal?_skipHidden, hterminal, Option.map_some]
      have haccepted := Scans.accepted (r := r.skipHidden) hmode (hwalks hwalk) hterminal'
      rcases t.skipHidden_cases with hsame | ⟨id, hid, hchannel, hskip⟩
      · rw [hsame] at haccepted
        exact ⟨_, _, haccepted, .same _⟩
      · rw [hskip] at haccepted
        refine ⟨_, _, haccepted, ?_⟩
        have hne : id ≠ eofType := by
          rintro rfl
          exact ha t (Automaton.mem_of_terminal? hterminal) hid
        have hlast : (lastOf channel? t.actions).getD channel = t.channel := by
          rw [lastOf_channel_terminal_actions, if_neg hchannel, Option.getD_some]
        simp only [hlast, hid]
        exact .hidden hne hchannel

theorem consume_skipHidden (h : r.consume s = .ok (r', s')) :
    r.skipHidden.consume s = .ok (r'.skipHidden, s') := by
  unfold consume at h ⊢
  rcases hp : s.peek with ⟨_ | c, t⟩ <;> rw [hp] at h
  · obtain ⟨rfl, rfl⟩ := Prod.mk.inj (Except.ok.inj h)
    rfl
  · obtain ⟨p, hpass, heq⟩ := Checked.bind_eq_ok.mp h
    obtain ⟨rfl, rfl⟩ := Prod.mk.inj (Except.ok.inj heq)
    exact Checked.bind_eq_ok.mpr ⟨p, hpass, rfl⟩

end TableRecognizer

/-! ## The state -/

namespace State

/-- The state after another token. -/
def after (s : State) (last? : Option Token) : State := { s with lastToken? := last? }

theorem act_after (s : State) (last? : Option Token) (a : Action) :
    (s.after last?).act a = (s.act a).map (·.after last?) := by
  cases a
  case popMode =>
      show (s.after last?).popMode = s.popMode.map (·.after last?)
      unfold popMode
      cases hstack : s.modeStack <;> simp only [after, hstack, Except.map]
  all_goals rfl

theorem perform_after {s t : State} {acts : List Action} {events : List Event}
    {failure : Option LexerError} (last? : Option Token)
    (h : s.perform acts = { events, outcome := .ok (t, failure) }) :
    (s.after last?).perform acts = { events, outcome := .ok (t.after last?, failure) } := by
  induction acts generalizing s events with
  | nil =>
      obtain ⟨rfl, rfl, rfl⟩ := Run.pure_pair_eq_ok.mp h
      rfl
  | cons a acts ih =>
      obtain ⟨after, rfl, ⟨u, hact, hrest⟩ | ⟨e, hact, rfl, rfl, rfl⟩⟩ := perform_cons_eq_ok.mp h
      · refine perform_cons_eq_ok.mpr ⟨after, rfl, .inl ⟨u.after last?, ?_, ih hrest⟩⟩
        rw [act_after, hact]
        rfl
      · refine perform_cons_eq_ok.mpr ⟨[], rfl, .inr ⟨e, ?_, rfl, rfl, rfl⟩⟩
        rw [act_after, hact]
        rfl

end State

/-! ## Reports -/

/-- The reports among the events, each with the listener that hears of it. -/
def reports (events : List Event) : List Event := events.filter fun e => e.report?.isSome

@[simp] theorem reports_append (before after : List Event) :
    reports (before ++ after) = reports before ++ reports after :=
  List.filter_append ..

theorem reports_of_quiet {events : List Event} (h : ∀ e ∈ events, e.IsQuiet) :
    reports events = [] := by
  rw [reports, List.filter_eq_nil_iff]
  intro e he
  rw [(h e he).1]
  simp

@[simp] theorem reports_decided (mode : ModeId) (matched final : TokenType) (i : Nat) :
    reports [.decided mode matched final i] = [] := rfl

/-! ## Matches -/

namespace Head

/-- The head with the tables that drop hidden tokens, after another token. -/
def skipHidden (h : Head TableRecognizer) (last? : Option Token) : Head TableRecognizer where
  stream := h.stream
  recognizer := h.recognizer.skipHidden
  state := h.state.after last?

variable {reporter : Reporter} {h h' k k' : Head TableRecognizer} {events : List Event}
  {last? : Option Token}

theorem matchToken_skipHidden (ha : h.recognizer.automaton.ReservesEof) {mode : ModeId}
    {found : Except LexerError Finding} (last? : Option Token)
    (hmatch : h.matchToken mode = { events, outcome := .ok (h', found) }) :
    ∃ events' found', (h.skipHidden last?).matchToken mode
        = { events := events', outcome := .ok (h'.skipHidden last?, found') }
      ∧ Finding.SkipsHidden h'.state.candidate.channel found found' := by
  obtain ⟨before, after, scan, state, failure, hscan, hperform, rfl, rfl, rfl⟩ :=
    matchToken_eq_ok.mp hmatch
  obtain ⟨events', outcome, hscan', hskips⟩ :=
    (TableRecognizer.scan_eq_ok.mp hscan).skipHidden ha h.state.candidate.channel
  refine ⟨events' ++ after, failure.elim outcome .error,
    matchToken_eq_ok.mpr ⟨events', after, _, state.after last?, failure,
      TableRecognizer.scan_eq_ok.mpr hscan', State.perform_after last? hperform, rfl, rfl, rfl⟩,
    ?_⟩
  cases failure with
  | some e => exact .same _
  | none =>
      obtain ⟨-, hchannel, -, -⟩ := State.perform_all hperform
      rw [← hchannel] at hskips
      exact hskips

theorem quote_skipHidden (h : Head TableRecognizer) (last? : Option Token) (start : Start) :
    (h.skipHidden last?).quote start
      = ((h.quote start).1, (h.quote start).2.skipHidden last?) := by
  rw [quote_eq, quote_eq]
  change (if (h.stream.slice start.index (h.index + 1)).isEmpty then _ else _) = _
  split <;> rfl

theorem dropChar_skipHidden {e : RecognitionError} (last? : Option Token)
    (hdrop : h.dropChar e = { events, outcome := .ok h' }) :
    (h.skipHidden last?).dropChar e = { events, outcome := .ok (h'.skipHidden last?) } := by
  rcases dropChar_eq_ok.mp hdrop with ⟨hnone, rfl, rfl⟩ | ⟨c, r, s, hsome, rfl, hconsume, rfl⟩
  · exact dropChar_eq_ok.mpr (.inl ⟨hnone, rfl, rfl⟩)
  · exact dropChar_eq_ok.mpr (.inr ⟨c, r.skipHidden, s, hsome, rfl,
      TableRecognizer.consume_skipHidden hconsume, rfl⟩)

theorem settle_skipHidden {finding : Finding} {matched : TokenType} (last? : Option Token)
    (hsettle : h.settle reporter finding = { events, outcome := .ok (h', matched) }) :
    (h.skipHidden last?).settle reporter finding
      = { events, outcome := .ok (h'.skipHidden last?, matched) } := by
  cases finding with
  | matched type =>
      obtain ⟨rfl, rfl, rfl⟩ := settle_matched_eq_ok.mp hsettle
      rfl
  | noRule site =>
      obtain ⟨before, h₁, after, hreport, hdrop, rfl, rfl⟩ := settle_noRule_eq_ok.mp hsettle
      refine settle_noRule_eq_ok.mpr
        ⟨before, h₁.skipHidden last?, after, ?_, dropChar_skipHidden last? hdrop, rfl, rfl⟩
      rw [report_eq] at hreport ⊢
      obtain ⟨rfl, hok⟩ := Run.mk.inj hreport
      obtain rfl := Except.ok.inj hok
      rw [quote_skipHidden]
      rfl

theorem noteEof_skipHidden (h : Head TableRecognizer) (last? : Option Token) :
    (h.skipHidden last?).noteEof = h.noteEof.skipHidden last? := by
  rw [noteEof_eq, noteEof_eq]
  rfl

/-! ## Decisions -/

/-- The second head has the tables that drop hidden tokens, and stands where
the first one stands. Between two candidates, what else they remember has an
effect on the sentinel only. -/
structure Counterpart (h k : Head TableRecognizer) : Prop where
  stream : k.stream = h.stream
  recognizer : k.recognizer = h.recognizer.skipHidden
  mode : k.state.mode = h.state.mode
  modeStack : k.state.modeStack = h.state.modeStack
  eofSeen : k.state.eofSeen = h.state.eofSeen

theorem counterpart_skipHidden (h : Head TableRecognizer) (last? : Option Token) :
    h.Counterpart (h.skipHidden last?) :=
  ⟨rfl, rfl, rfl, rfl, rfl⟩

/-- A candidate makes the difference in the last token the only one. -/
theorem Counterpart.begun (h₀ : h.Counterpart k) :
    k.begun = h.begun.skipHidden k.state.lastToken? := by
  obtain ⟨hstream, hrecognizer, hmode, hstack, heof⟩ := h₀
  rcases k with ⟨s, r, ⟨mode, modeStack, candidate, eofSeen, token?, lastToken?⟩⟩
  subst hstream hrecognizer hmode hstack heof
  rfl

/-- Decisions that lead to the two heads, if hidden tokens are dropped on the
way to the second. -/
inductive SkipsHidden (last? : Option Token) (h k : Head TableRecognizer) :
    Except LexerError TokenType → Except LexerError TokenType → Prop
  | same (decision : Except LexerError TokenType) (hhead : k = h.skipHidden last?) :
      SkipsHidden last? h k decision decision
  | hidden {id : TokenId} (hid : id ≠ eofType)
      (hchannel : h.state.candidate.channel ≠ defaultChannel) (hhead : h.Counterpart k) :
      SkipsHidden last? h k (.ok (.type id)) (.ok .skip)

theorem SkipsHidden.counterpart {decision decision' : Except LexerError TokenType}
    (h₀ : h.SkipsHidden last? k decision decision') : h.Counterpart k := by
  cases h₀ with
  | same _ hhead => exact hhead ▸ h.counterpart_skipHidden last?
  | hidden _ _ hhead => exact hhead

/-- The conclusion drawn from a match about which no action has decided. -/
theorem conclude_of_undecided (htype : h.state.candidate.type? = none) (matched : TokenType) :
    h.noteEof.conclude matched
      = (matched, { h.noteEof with state := h.noteEof.state.setType matched }) := by
  rw [noteEof_eq]
  simp only [conclude, htype, Option.getD_none]

/-- Only the reserved type can be refused. -/
theorem refuseEofText_matched {type : TokenType} (htype : type ≠ .type eofType) (mode : ModeId) :
    h.refuseEofText mode (.matched type) = .matched type := by
  unfold refuseEofText
  split
  · rename_i hmatched _
    obtain rfl := Finding.matched.inj hmatched
    exact if_neg fun hrefused => htype (by rw [hrefused.1])
  · rfl

/-- A match is decided alike, unless it completes a token that is hidden. -/
theorem Turn.skipHidden (ha : h.recognizer.automaton.ReservesEof)
    {decision : Except LexerError TokenType} (hturn : h.Turn reporter events h' decision)
    (last? : Option Token) :
    ∃ events' k' decision', (h.skipHidden last?).Turn reporter events' k' decision'
      ∧ reports events' = reports events ∧ h'.SkipsHidden last? k' decision decision' := by
  cases hturn with
  | stopped hmatch =>
      obtain ⟨events', found', hmatch', hskips⟩ :=
        matchToken_skipHidden (h := h.undecided) ha last? hmatch
      cases hskips with
      | same =>
          refine ⟨events', _, _, .stopped hmatch', ?_, .same _ rfl⟩
          rw [reports_of_quiet (quiet_of_matchToken hmatch),
            reports_of_quiet (quiet_of_matchToken (h := h.skipHidden last?) hmatch')]
  | @decided before after h₁ h₂ h' outcome matched final hmatch hsettle hfinal =>
      obtain ⟨events', found', hmatch', hskips⟩ :=
        matchToken_skipHidden (h := h.undecided) ha last? hmatch
      have hquiet := reports_of_quiet (quiet_of_matchToken hmatch)
      have hquiet' := reports_of_quiet (quiet_of_matchToken (h := h.skipHidden last?) hmatch')
      generalize hfound : Except.ok outcome = found at hskips
      cases hskips with
      | same =>
          subst hfound
          have hsettle' := settle_skipHidden last? hsettle
          have hconclude : (h₂.skipHidden last?).noteEof.conclude matched
              = (final, h'.skipHidden last?) := by
            rw [noteEof_skipHidden]
            obtain ⟨rfl, rfl⟩ := Prod.mk.inj hfinal
            rfl
          refine ⟨_, _, _, .decided (h := h.skipHidden last?) hmatch' hsettle' hconclude, ?_,
            .same _ rfl⟩
          simp only [reports_append, reports_decided, hquiet, hquiet']
      | @hidden id hid hchannel =>
          obtain rfl := Except.ok.inj hfound
          have htype := (untouched_of_matchToken hmatch).1
          rw [refuseEofText_matched (by simpa using hid)] at hsettle
          obtain ⟨rfl, rfl, rfl⟩ := settle_matched_eq_ok.mp hsettle
          rw [conclude_of_undecided htype] at hfinal
          obtain ⟨rfl, rfl⟩ := Prod.mk.inj hfinal
          have hsettle' : (h₂.skipHidden last?).settle reporter
              ((h₂.skipHidden last?).refuseEofText h.state.mode (.matched .skip))
                = { events := [], outcome := .ok (h₂.skipHidden last?, .skip) } := by
            rw [refuseEofText_matched (by simp)]
            rfl
          refine ⟨_, _, _, .decided (h := h.skipHidden last?) hmatch' hsettle'
            (conclude_of_undecided (h := h₂.skipHidden last?) htype .skip), ?_, .hidden hid ?_ ?_⟩
          · simp only [reports_append, reports_decided, hquiet, hquiet']
          · rw [noteEof_eq]
            exact hchannel
          · rw [noteEof_skipHidden]
            exact ⟨rfl, rfl, rfl, rfl, rfl⟩

/-! ## Candidates -/

/-- The tables stay as they are, and nothing is emitted. -/
theorem Turn.automaton_token? {decision : Except LexerError TokenType}
    (hturn : h.Turn reporter events h' decision) :
    h'.recognizer.automaton = h.recognizer.automaton
      ∧ ∀ type, decision = .ok type → h'.state.token? = h.state.token? := by
  refine ⟨hturn.keeps (TableRecognizer.keepsAutomaton h.recognizer.automaton) rfl, ?_⟩
  cases hturn with
  | stopped => simp
  | decided hmatch hsettle hfinal =>
      intro _ _
      obtain ⟨hstate, -⟩ := settle_state hsettle
      obtain ⟨-, rfl⟩ := Prod.mk.inj hfinal
      rw [noteEof_eq]
      simp only [State.setType, hstate]
      exact (untouched_of_matchToken hmatch).2.2

theorem Assembles.automaton_token? {decision : Except LexerError TokenType}
    (hcandidate : h.Assembles reporter events h' decision) :
    h'.recognizer.automaton = h.recognizer.automaton
      ∧ ∀ type, decision = .ok type → h'.state.token? = h.state.token? := by
  induction hcandidate with
  | last hturn => exact hturn.automaton_token?
  | more hturn _ ih =>
      obtain ⟨hautomaton, htoken⟩ := hturn.automaton_token?
      exact ⟨ih.1.trans hautomaton, fun type htype => (ih.2 type htype).trans (htoken _ rfl)⟩

theorem Assembles.skipHidden (ha : h.recognizer.automaton.ReservesEof)
    {decision : Except LexerError TokenType}
    (hcandidate : h.Assembles reporter events h' decision) (last? : Option Token) :
    ∃ events' k' decision', (h.skipHidden last?).Assembles reporter events' k' decision'
      ∧ reports events' = reports events ∧ h'.SkipsHidden last? k' decision decision' := by
  induction hcandidate with
  | last hturn hlast =>
      obtain ⟨events', k', decision', hturn', hreports, hskips⟩ := hturn.skipHidden ha last?
      refine ⟨events', k', decision', .last hturn' ?_, hreports, hskips⟩
      cases hskips with
      | same => exact hlast
      | hidden => simp
  | more hturn _ ih =>
      -- a text that is kept is kept by both, so the candidate goes on alike
      obtain ⟨events₁, k₁, decision₁, hturn', hreports₁, hskips₁⟩ := hturn.skipHidden ha last?
      cases hskips₁ with
      | same _ hhead =>
          subst hhead
          obtain ⟨events₂, k', decision', hrest', hreports₂, hskips⟩ :=
            ih (hturn.automaton_token?.1 ▸ ha)
          refine ⟨_, k', decision', .more hturn' hrest', ?_, hskips⟩
          rw [reports_append, reports_append, hreports₁, hreports₂]

/-- Where the one lexer takes a candidate, its counterpart takes one as well. -/
theorem Counterpart.assembles (h₀ : h.Counterpart k) (ha : h.recognizer.automaton.ReservesEof)
    {decision : Except LexerError TokenType}
    (hcandidate : h.begun.Assembles reporter events h' decision) :
    ∃ events' k' decision', k.begun.Assembles reporter events' k' decision'
      ∧ reports events' = reports events
      ∧ h'.SkipsHidden k.state.lastToken? k' decision decision' := by
  rw [h₀.begun]
  exact Assembles.skipHidden (h := h.begun) ha hcandidate k.state.lastToken?

end Head

end ModalLexer
