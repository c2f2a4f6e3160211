import ModalLexer.Proofs.Actions
import ModalLexer.Proofs.Automaton.Walk

/-!
# Matches of a table-driven lexer

What a match can come to when the recognizer is an automaton of which no mode
accepts before it has read anything. `TableMatch` lists the five ways in
which the automaton can end a match, and `TableTurn` what they become once
the lexer has drawn its conclusions: whatever it is, the lexer has moved on,
or it stands at the end of the text, or the call is over.
-/

namespace ModalLexer

open ModalLexer.Action

/-! ## Scanning -/

/-- The actions of a terminal decide nothing, and leave text and token alone. -/
theorem lastOf_terminal_actions (t : Terminal) :
    lastOf type? t.actions = none ∧ lastOf text? t.actions = none
      ∧ lastOf emitted? t.actions = none := by
  unfold Terminal.actions
  refine ⟨?_, ?_, ?_⟩ <;> rw [lastOf_append, lastOf_append] <;>
    (split <;> split <;> split <;> rfl)

/-- Of the channels, a rule sets its own unless that is the default one. -/
theorem lastOf_channel_terminal_actions (t : Terminal) :
    lastOf channel? t.actions = if t.channel = defaultChannel then none else some t.channel := by
  unfold Terminal.actions
  rw [lastOf_append, lastOf_append]
  split <;> split <;> split <;> rfl

namespace TableRecognizer

/-- What the automaton can find. -/
inductive Scans (r : TableRecognizer) (s : CharStream) (mode : ModeId) :
    List Event → Scan TableRecognizer → Prop
  | unknown (hmode : r.automaton.startStates[mode]? = none) :
      Scans r s mode [] { recognizer := r, stream := s, outcome := .error (.unknownMode mode) }
  | accepted {start : StateId} {w : Automaton.Walk} {terminal : Terminal}
      (hmode : r.automaton.startStates[mode]? = some start)
      (hwalk : r.automaton.walk r.tab start r.caret s = .ok w)
      (hterminal : r.automaton.terminal? w.state = some terminal) :
      Scans r s mode [.accepted mode w.state terminal] {
        recognizer := { r with caret := w.caret, matchStart := s.index }
        stream := w.stream
        actions := terminal.actions
        outcome := .ok (.matched terminal.action.tokenType) }
  | atEnd {start : StateId} {w : Automaton.Walk}
      (hmode : r.automaton.startStates[mode]? = some start)
      (hwalk : r.automaton.walk r.tab start r.caret s = .ok w)
      (hterminal : r.automaton.terminal? w.state = none)
      (hend : w.char? = none ∧ w.stream.index = s.index) :
      Scans r s mode [] {
        recognizer := { r with caret := w.caret, matchStart := s.index }
        stream := w.stream
        outcome := .ok (.matched (.type eofType)) }
  | stuck {start : StateId} {w : Automaton.Walk}
      (hmode : r.automaton.startStates[mode]? = some start)
      (hwalk : r.automaton.walk r.tab start r.caret s = .ok w)
      (hterminal : r.automaton.terminal? w.state = none)
      (hend : ¬(w.char? = none ∧ w.stream.index = s.index)) :
      Scans r s mode [] {
        recognizer := { r with caret := w.caret, matchStart := s.index }
        stream := w.stream
        outcome := .ok (.noRule (r.errorSite mode s.index w)) }

theorem scan_eq_ok {r : TableRecognizer} {s : CharStream} {mode : ModeId}
    {events : List Event} {found : Scan TableRecognizer} :
    r.scan s mode = { events, outcome := .ok found } ↔ r.Scans s mode events found := by
  unfold scan
  constructor
  · intro h
    split at h
    · obtain ⟨rfl, rfl⟩ := Run.pure_eq_ok.mp h
      exact .unknown ‹_›
    · obtain ⟨before, w, after, hlift, hrest, rfl⟩ := Run.bind_eq_ok.mp h
      obtain ⟨hwalk, rfl⟩ := Run.ofExcept_eq_ok.mp hlift
      simp only at hrest
      split at hrest
      · obtain ⟨emitted, u, last, hemit, hpure, rfl⟩ := Run.bind_eq_ok.mp hrest
        obtain rfl := Run.emit_eq_ok.mp hemit
        obtain ⟨rfl, rfl⟩ := Run.pure_eq_ok.mp hpure
        exact .accepted ‹_› hwalk ‹_›
      · split at hrest <;> obtain ⟨rfl, rfl⟩ := Run.pure_eq_ok.mp hrest
        · exact .atEnd ‹_› hwalk ‹_› ‹_›
        · exact .stuck ‹_› hwalk ‹_› ‹_›
  · rintro (⟨hmode⟩ | ⟨hmode, hwalk, hterminal⟩ | ⟨hmode, hwalk, hterminal, hend⟩ |
      ⟨hmode, hwalk, hterminal, hend⟩)
    · simp only [hmode]
      rfl
    all_goals
      simp only [hmode]
      refine Run.bind_eq_ok.mpr ⟨[], _, _, Run.ofExcept_eq_ok.mpr ⟨hwalk, rfl⟩, ?_, rfl⟩
      simp only [hterminal]
    · exact Run.bind_eq_ok.mpr ⟨_, (), [], rfl, rfl, rfl⟩
    · rw [if_pos hend]
      rfl
    · rw [if_neg hend]
      rfl

namespace Scans

variable {cs : List Char} {r : TableRecognizer} {s : CharStream} {mode : ModeId}
  {events : List Event} {found : Scan TableRecognizer}

theorem automaton (hscan : r.Scans s mode events found) :
    found.recognizer.automaton = r.automaton := by
  cases hscan <;> rfl

theorem quiet (hscan : r.Scans s mode events found) : ∀ e ∈ events, e.IsQuiet := by
  cases hscan with
  | unknown | atEnd | stuck => simp
  | accepted =>
      intro e he
      rw [List.mem_singleton.mp he]
      exact ⟨rfl, rfl⟩

theorem lastOf_actions (hscan : r.Scans s mode events found) :
    lastOf type? found.actions = none ∧ lastOf text? found.actions = none
      ∧ lastOf emitted? found.actions = none := by
  cases hscan with
  | unknown | atEnd | stuck => exact ⟨rfl, rfl, rfl⟩
  | accepted => exact lastOf_terminal_actions _

theorem knowsNext (hscan : r.Scans s mode events found) (hs : s.Shows cs) {finding : Finding}
    (hfound : found.outcome = .ok finding) : found.stream.KnowsNext := by
  cases hscan with
  | unknown => cases hfound
  | accepted _ hwalk | atEnd _ hwalk | stuck _ hwalk => exact (Automaton.walk_stops hs hwalk).2.1

end Scans

theorem consume_eq_ok {r r' : TableRecognizer} {s s' : CharStream}
    (h : r.consume s = .ok (r', s')) :
    (s.peek.1 = none ∧ r' = r ∧ s' = s.peek.2)
      ∨ ∃ c p, s.peek.1 = some c ∧ r.caret.pass r.tab c = .ok p
        ∧ r' = { r with caret := p } ∧ s' = s.peek.2.consume := by
  unfold consume at h
  split at h
  · rename_i t hp
    obtain ⟨rfl, rfl⟩ := Prod.mk.inj (Except.ok.inj h)
    exact .inl ⟨by rw [hp], rfl, by rw [hp]⟩
  · rename_i c t hp
    obtain ⟨p, hpass, heq⟩ := Checked.bind_eq_ok.mp h
    obtain ⟨rfl, rfl⟩ := Prod.mk.inj (Except.ok.inj heq)
    exact .inr ⟨c, p, by rw [hp], hpass, rfl, by rw [hp]⟩

/-- The tables are the same throughout. -/
theorem keepsAutomaton (a : Automaton) :
    Recognizer.Invariant TableRecognizer fun r _ => r.automaton = a where
  peek := id
  scan hr hscan := (scan_eq_ok.mp hscan).automaton.trans hr
  consume hr hconsume := by
    rcases consume_eq_ok hconsume with ⟨-, rfl, -⟩ | ⟨_, _, -, -, rfl, -⟩ <;> exact hr

/-- So is what passing a character hands on from its index to the next one. -/
theorem caret_invariant {cs : List Char} {P : TabWidth → Nat → Caret → Prop}
    (hP : ∀ {tab : TabWidth} {k : Nat} {p q : Caret} {c : Char}, P tab k p → cs[k]? = some c →
      p.pass tab c = .ok q → P tab (k + 1) q) :
    Recognizer.Invariant TableRecognizer fun r s => s.Shows cs ∧ P r.tab s.index r.caret where
  peek := by
    rintro r s ⟨hs, hp⟩
    exact ⟨hs.peek, s.index_peek.symm ▸ hp⟩
  scan := by
    rintro r s mode state events found ⟨hs, hp⟩ hscan
    cases scan_eq_ok.mp hscan with
    | unknown => exact ⟨hs, hp⟩
    | accepted _ hwalk | atEnd _ hwalk | stuck _ hwalk =>
        have hadv := Automaton.walk_moves CharStream.Advances.motion hwalk
        exact ⟨hadv.shows hs, Automaton.walk_caret hP hs hp hwalk⟩
  consume := by
    rintro r r' s s' ⟨hs, hp⟩ hconsume
    rcases consume_eq_ok hconsume with ⟨-, rfl, rfl⟩ | ⟨c, p, hsome, hpass, rfl, rfl⟩
    · exact ⟨hs.peek, s.index_peek.symm ▸ hp⟩
    · have hc : cs[s.index]? = some c := hs.peek_fst.symm.trans hsome
      obtain ⟨hlt, -⟩ := List.getElem?_eq_some_iff.mp hc
      have hnext := hs.peek.index_consume_of_lt (s.index_peek ▸ hlt)
      rw [s.index_peek] at hnext
      exact ⟨hs.peek.consume, hnext ▸ hP hp hc hpass⟩

/-- The automaton moves its stream by peeking and consuming. -/
theorem movesBy {M : CharStream → CharStream → Prop} (hM : CharStream.Motion M) :
    Recognizer.MovesBy TableRecognizer M where
  scan := by
    intro r s mode state events found h
    cases scan_eq_ok.mp h with
    | unknown => exact hM.refl _
    | accepted _ hwalk | atEnd _ hwalk | stuck _ hwalk => exact Automaton.walk_moves hM hwalk
  consume := by
    intro r r' s s' h
    rcases consume_eq_ok h with ⟨-, -, rfl⟩ | ⟨c, p, -, -, -, rfl⟩
    · exact hM.peek s
    · exact hM.trans (hM.peek s) (hM.consume _)

/-- So it moves it forward only. -/
theorem advances : Recognizer.MovesBy TableRecognizer CharStream.Advances :=
  movesBy CharStream.Advances.motion

end TableRecognizer

namespace Head

variable {cs : List Char} {start : Start} {reporter : Reporter} {h h' : Head TableRecognizer}
  {events : List Event}

/-- The head is in the middle of a candidate that began at `start`, over the
text `cs`. -/
structure InCandidate (cs : List Char) (start : Start) (h : Head TableRecognizer) : Prop where
  shows : h.stream.Shows cs
  keeps : h.stream.KeepsFrom start.index
  began : h.state.candidate.start? = some start
  start_le : start.index ≤ h.index

/-- What a candidate leaves alone until it is complete. -/
structure SameCandidate (h h' : Head TableRecognizer) : Prop where
  automaton : h'.recognizer.automaton = h.recognizer.automaton
  lastToken? : h'.state.lastToken? = h.state.lastToken?
  start? : h'.state.candidate.start? = h.state.candidate.start?

theorem SameCandidate.trans {h₁ h₂ h₃ : Head TableRecognizer} (h₁₂ : h₁.SameCandidate h₂)
    (h₂₃ : h₂.SameCandidate h₃) : h₁.SameCandidate h₃ :=
  ⟨h₂₃.1.trans h₁₂.1, h₂₃.2.trans h₁₂.2, h₂₃.3.trans h₁₂.3⟩

/-- A head over the same text, farther on, is still in the candidate. -/
theorem InCandidate.of_advances (hin : h.InCandidate cs start)
    (hadv : h.stream.Advances h'.stream) (hsame : h.SameCandidate h') :
    h'.InCandidate cs start where
  shows := hadv.shows hin.shows
  keeps := hadv.keepsFrom hin.keeps
  began := hsame.start?.trans hin.began
  start_le := Nat.le_trans hin.start_le hadv.index_le

/-! ## What a match finds -/

/-- How a match ends that leads from `h` to `h'`. -/
inductive TableMatch (cs : List Char) (h h' : Head TableRecognizer) :
    Except LexerError Finding → Prop
  | unknownMode {mode : ModeId} (hindex : h'.index = h.index) :
      TableMatch cs h h' (.error (.unknownMode mode))
  | emptyModeStack {mode : ModeId} (hlt : h.index < h'.index) :
      TableMatch cs h h' (.error (.emptyModeStack mode))
  | matched {type : TokenType} (hlt : h.index < h'.index) :
      TableMatch cs h h' (.ok (.matched type))
  | atEnd (hindex : h'.index = h.index) (hend : h.index = cs.length) :
      TableMatch cs h h' (.ok (.matched (.type eofType)))
  | noRule {site : ErrorSite} (hlt : h.index < h'.index ∨ h'.index < cs.length) :
      TableMatch cs h h' (.ok (.noRule site))

/-- What a match that found something leaves of what came before it. -/
structure Undisturbed (h h' : Head TableRecognizer) : Prop where
  type? : h'.state.candidate.type? = none
  text? : h'.state.candidate.text? = h.state.candidate.text?
  token? : h'.state.token? = h.state.token?
  eofSeen : h'.state.eofSeen = h.state.eofSeen
  knowsNext : h'.stream.KnowsNext

theorem sameCandidate_of_matchToken {found : Except LexerError Finding}
    (hmatch : h.undecided.matchToken h.state.mode = { events, outcome := .ok (h', found) }) :
    h.SameCandidate h' := by
  obtain ⟨_, _, scan, state, _, hscan, hperform, rfl, -, -⟩ := matchToken_eq_ok.mp hmatch
  obtain ⟨-, hlast, hstart, -, -⟩ := State.perform_frame hperform
  exact ⟨(TableRecognizer.scan_eq_ok.mp hscan).automaton, hlast, hstart⟩

theorem quiet_of_matchToken {found : Except LexerError Finding}
    (hmatch : h.undecided.matchToken h.state.mode = { events, outcome := .ok (h', found) }) :
    ∀ e ∈ events, e.IsQuiet := by
  obtain ⟨before, after, scan, _, _, hscan, hperform, -, -, rfl⟩ := matchToken_eq_ok.mp hmatch
  obtain ⟨-, -, -, hquiet, -⟩ := State.perform_frame hperform
  intro e he
  rcases List.mem_append.mp he with he | he
  · exact (TableRecognizer.scan_eq_ok.mp hscan).quiet e he
  · exact hquiet e he

/-- What the automaton finds makes no action decide, and none of them touches
the text or the token of the candidate. -/
theorem untouched_of_matchToken {finding : Finding}
    (hmatch : h.undecided.matchToken h.state.mode
      = { events, outcome := .ok (h', .ok finding) }) :
    h'.state.candidate.type? = none
      ∧ h'.state.candidate.text? = h.state.candidate.text? ∧ h'.state.token? = h.state.token? := by
  obtain ⟨_, _, scan, state, failure, hscan, hperform, rfl, hfound, -⟩ :=
    matchToken_eq_ok.mp hmatch
  cases failure with
  | some e => cases hfound
  | none =>
      obtain ⟨htype, -, htext, htoken⟩ := State.perform_all hperform
      obtain ⟨hnotype, hnotext, hnotoken⟩ :=
        (TableRecognizer.scan_eq_ok.mp hscan).lastOf_actions
      rw [hnotype] at htype
      rw [hnotext] at htext
      rw [hnotoken] at htoken
      exact ⟨htype, htext, htoken⟩

theorem undisturbed_of_matchToken (hs : h.stream.Shows cs) {finding : Finding}
    (hmatch : h.undecided.matchToken h.state.mode
      = { events, outcome := .ok (h', .ok finding) }) : h.Undisturbed h' := by
  obtain ⟨htype, htext, htoken⟩ := untouched_of_matchToken hmatch
  obtain ⟨_, _, scan, state, failure, hscan, hperform, rfl, hfound, -⟩ :=
    matchToken_eq_ok.mp hmatch
  cases failure with
  | some e => cases hfound
  | none =>
      obtain ⟨heof, -, -, -, -⟩ := State.perform_frame hperform
      have hcase := TableRecognizer.scan_eq_ok.mp hscan
      exact ⟨htype, htext, htoken, heof, hcase.knowsNext hs hfound.symm⟩

theorem tableMatch_of_matchToken (hs : h.stream.Shows cs)
    (ha : h.recognizer.automaton.NoEmptyMatch) {found : Except LexerError Finding}
    (hmatch : h.undecided.matchToken h.state.mode = { events, outcome := .ok (h', found) }) :
    h.TableMatch cs h' found := by
  obtain ⟨_, _, scan, state, failure, hscan, hperform, rfl, rfl, -⟩ :=
    matchToken_eq_ok.mp hmatch
  cases TableRecognizer.scan_eq_ok.mp hscan with
  | unknown =>
      obtain ⟨rfl, rfl, -⟩ := Run.pure_pair_eq_ok.mp hperform
      exact .unknownMode rfl
  | accepted hmode hwalk hterminal =>
      have hlt := Automaton.lt_of_terminal ha hs hmode hwalk hterminal
      obtain ⟨-, -, -, -, hfail⟩ := State.perform_frame hperform
      cases failure with
      | none => exact .matched hlt
      | some e =>
          obtain ⟨mode, rfl⟩ := hfail e rfl
          exact .emptyModeStack hlt
  | atEnd hmode hwalk hterminal hend =>
      obtain ⟨rfl, rfl, -⟩ := Run.pure_pair_eq_ok.mp hperform
      exact .atEnd hend.2 (Automaton.index_of_atEnd hs hwalk hend)
  | stuck hmode hwalk hterminal hend =>
      obtain ⟨rfl, rfl, -⟩ := Run.pure_pair_eq_ok.mp hperform
      exact .noRule (Automaton.lt_of_stuck hs hwalk hend)

/-! ## Leaving a failed match behind -/

theorem extract_min_length {α : Type} (l : List α) (i j : Nat) :
    l.extract i (min j l.length) = l.extract i j := by
  rw [List.extract_eq_take_drop, List.extract_eq_take_drop, List.take_eq_take_iff,
    List.length_drop]
  omega

/-- The report quotes the candidate up to and including the next character,
without looking at the stream again. -/
theorem report_inCandidate (hin : h.InCandidate cs start) (hknows : h.stream.KnowsNext)
    (hstart : start.index < cs.length) (e : RecognitionError) :
    h.report reporter e =
      { events := reporter.listeners.deliver {
          source := reporter.source
          line := start.caret.line
          column := start.caret.column
          message := "token recognition error at: '"
            ++ Text.visible (String.ofList (cs.extract start.index (h.index + 1))) ++ "'"
          cause := e }
        outcome := .ok h } := by
  have hle := hin.start_le
  have hslice : h.stream.slice start.index (h.index + 1)
      = String.ofList (cs.extract start.index (h.index + 1)) :=
    hin.shows.slice_succ hin.keeps hknows
  have hfull : (h.stream.slice start.index (h.index + 1)).isEmpty = false := by
    rw [hslice, Bool.eq_false_iff]
    intro hempty
    have hlen := congrArg (List.length ∘ String.toList) (String.isEmpty_iff.mp hempty)
    simp at hlen
    omega
  have hquote : h.quote start
      = (Text.visible (String.ofList (cs.extract start.index (h.index + 1))), h) := by
    rw [quote_eq, hfull, hslice]
    rfl
  rw [report_eq, hin.began, Option.getD_some, hquote]

theorem dropChar_table (hs : h.stream.Shows cs) {e : RecognitionError}
    (hdrop : h.dropChar e = { events, outcome := .ok h' }) :
    h.SameCandidate h' ∧ h'.state = h.state ∧ h'.index = min (h.index + 1) cs.length
      ∧ ∀ e ∈ events, e.IsQuiet := by
  have hle := hs.index_le
  have hfst := hs.peek_fst
  rcases dropChar_eq_ok.mp hdrop with ⟨hnone, rfl, rfl⟩ | ⟨c, r, t, hsome, rfl, hconsume, rfl⟩
  · have hge := List.getElem?_eq_none_iff.mp (hfst.symm.trans hnone)
    refine ⟨⟨rfl, rfl, rfl⟩, rfl, h.stream.index_peek.trans ?_, by simp⟩
    simp only [Head.index]
    omega
  · obtain ⟨hlt, hc⟩ := List.getElem?_eq_some_iff.mp (hfst.symm.trans hsome)
    -- the recognizer looks at the character once more before it consumes it
    have hfst' := hs.peek.peek_fst
    rw [CharStream.index_peek, List.getElem?_eq_getElem hlt] at hfst'
    rcases TableRecognizer.consume_eq_ok hconsume with ⟨hnone, -, -⟩ | ⟨c', p, -, -, rfl, rfl⟩
    · cases hnone.symm.trans hfst'
    · refine ⟨⟨rfl, rfl, rfl⟩, rfl, ?_, ?_⟩
      · have hnext := hs.peek.peek.index_consume_of_lt (by simpa using hlt)
        simp only [CharStream.index_peek] at hnext
        simp only [Head.index, hnext]
        omega
      · intro e he
        rw [List.mem_singleton.mp he]
        exact ⟨rfl, rfl⟩

/-- A failed match is reported with everything that goes with it, the
character that is dropped included. -/
theorem settle_noRule_table (hin : h.InCandidate cs start) (hknows : h.stream.KnowsNext)
    (hstart : start.index < cs.length) {site : ErrorSite} {matched : TokenType}
    (hsettle : h.settle reporter (.noRule site) = { events, outcome := .ok (h', matched) }) :
    matched = .skip ∧ h.SameCandidate h' ∧ h'.state = h.state
      ∧ h'.index = min (h.index + 1) cs.length
      ∧ ∃ report after, events = reporter.listeners.deliver report ++ after
        ∧ (∀ e ∈ after, e.IsQuiet) ∧ report.source = reporter.source
        ∧ report.line = start.caret.line ∧ report.column = start.caret.column
        ∧ report.cause = .noRule site
        ∧ report.message = "token recognition error at: '"
          ++ Text.visible (String.ofList (cs.extract start.index h'.index)) ++ "'" := by
  obtain ⟨before, h₁, after, hreport, hdrop, rfl, rfl⟩ := settle_noRule_eq_ok.mp hsettle
  rw [report_inCandidate hin hknows hstart] at hreport
  obtain ⟨rfl, hok⟩ := Run.mk.inj hreport
  obtain rfl := Except.ok.inj hok
  obtain ⟨hsame, hstate, hindex, hquiet⟩ := dropChar_table hin.shows hdrop
  refine ⟨rfl, hsame, hstate, hindex, _, after, rfl, hquiet, rfl, rfl, rfl, rfl, ?_⟩
  rw [hindex, extract_min_length]

/-! ## What a match comes to -/

/-- What one match of a candidate that began at `start` does to the lexer and
lets be seen, leading from `h` to `h'`. -/
inductive TableTurn (cs : List Char) (start : Start) (reporter : Reporter)
    (h h' : Head TableRecognizer) : List Event → Except LexerError TokenType → Prop
  | unknownMode {events : List Event} {mode : ModeId} (hquiet : ∀ e ∈ events, e.IsQuiet)
      (hindex : h'.index = h.index) :
      TableTurn cs start reporter h h' events (.error (.unknownMode mode))
  | emptyModeStack {events : List Event} {mode : ModeId} (hquiet : ∀ e ∈ events, e.IsQuiet)
      (hlt : h.index < h'.index) :
      TableTurn cs start reporter h h' events (.error (.emptyModeStack mode))
  | accepted {events : List Event} {mode : ModeId} {type : TokenType}
      (hquiet : ∀ e ∈ events, e.IsQuiet) (hlt : h.index < h'.index)
      (htype : type ≠ .type eofType) :
      TableTurn cs start reporter h h' (events ++ [.decided mode type type h'.index])
        (.ok type)
  | atEnd {events : List Event} {mode : ModeId} (hquiet : ∀ e ∈ events, e.IsQuiet)
      (hindex : h'.index = h.index) (hstart : start.index = h.index)
      (hend : h.index = cs.length) :
      TableTurn cs start reporter h h'
        (events ++ [.decided mode (.type eofType) (.type eofType) h'.index])
        (.ok (.type eofType))
  | failed {before after : List Event} {report : Report} {mode : ModeId}
      (hbefore : ∀ e ∈ before, e.IsQuiet) (hafter : ∀ e ∈ after, e.IsQuiet)
      (hstart : start.index < h'.index) (hprogress : h.index < h'.index ∨ h'.index = cs.length)
      (hline : report.line = start.caret.line) (hcolumn : report.column = start.caret.column)
      (hmessage : report.message = "token recognition error at: '"
        ++ Text.visible (String.ofList (cs.extract start.index h'.index)) ++ "'") :
      TableTurn cs start reporter h h'
        (before ++ (reporter.listeners.deliver report ++ after)
          ++ [.decided mode .skip .skip h'.index]) (.ok .skip)

/-- What a match that was decided leaves alone. -/
structure Decided (cs : List Char) (h h' : Head TableRecognizer) : Prop where
  text? : h'.state.candidate.text? = h.state.candidate.text?
  token? : h'.state.token? = h.state.token?
  eofSeen : h'.state.eofSeen = (h.state.eofSeen || decide (h'.index = cs.length))

/-- The conclusion drawn in `h₂` from a match that led from `h` to `h₁`, and on
which no action had a word to say. -/
theorem Undisturbed.conclude {h₁ h₂ : Head TableRecognizer} (hleft : h.Undisturbed h₁)
    (hstate : h₂.state = h₁.state) (hs : h₂.stream.Shows cs) {matched final : TokenType}
    (hfinal : h₂.noteEof.conclude matched = (final, h')) :
    final = matched ∧ h₂.SameCandidate h' ∧ h'.index = h₂.index ∧ h.Decided cs h' := by
  have htype : h₂.state.candidate.type? = none := hstate ▸ hleft.type?
  rw [noteEof_eq] at hfinal
  unfold Head.conclude at hfinal
  simp only [htype, Option.getD_none] at hfinal
  obtain ⟨rfl, rfl⟩ := Prod.mk.inj hfinal
  have hindex : h₂.stream.peek.2.index = h₂.stream.index := h₂.stream.index_peek
  refine ⟨rfl, ⟨rfl, rfl, rfl⟩, hindex, hstate ▸ hleft.text?, hstate ▸ hleft.token?, ?_⟩
  have hle := hs.index_le
  have heof : h₂.state.eofSeen = h.state.eofSeen := hstate ▸ hleft.eofSeen
  simp only [State.setType, Head.index, hindex, hs.peek_fst, heof]
  congr 1
  rw [Bool.eq_iff_iff, Option.isNone_iff_eq_none, List.getElem?_eq_none_iff, decide_eq_true_iff]
  omega

/-- A match that is not refused has moved on, or found the end of the text with
nothing in the candidate. -/
theorem refuseEofText_cases (hin : h.InCandidate cs start) {mode : ModeId}
    {h₁ : Head TableRecognizer} (hin₁ : h₁.InCandidate cs start)
    (hle : h.index ≤ h₁.index) {outcome : Finding} (hcase : h.TableMatch cs h₁ (.ok outcome)) :
    (∃ type, h₁.refuseEofText mode outcome = .matched type ∧ h.index < h₁.index
        ∧ type ≠ .type eofType)
      ∨ (h₁.refuseEofText mode outcome = .matched (.type eofType) ∧ h₁.index = h.index
        ∧ start.index = h.index ∧ h.index = cs.length)
      ∨ ∃ site, h₁.refuseEofText mode outcome = .noRule site ∧ start.index < cs.length := by
  have hstart := hin.start_le
  have hlen : h₁.index ≤ cs.length := hin₁.shows.index_le
  rw [refuseEofText_eq hin₁.began]
  cases hcase with
  | @matched type hlt =>
      by_cases htype : type = .type eofType
      · subst htype
        exact .inr (.inr ⟨_, if_pos ⟨rfl, by omega⟩, by omega⟩)
      · exact .inl ⟨type, if_neg (by simp [htype]), hlt, htype⟩
  | atEnd hindex hend =>
      by_cases hlt : start.index < h₁.index
      · exact .inr (.inr ⟨_, if_pos ⟨rfl, hlt⟩, by omega⟩)
      · exact .inr (.inl ⟨if_neg (by simp [hlt]), hindex, by omega, hend⟩)
  | @noRule site hlt => exact .inr (.inr ⟨site, if_neg (by simp), by omega⟩)

theorem Turn.table (hin : h.InCandidate cs start) (ha : h.recognizer.automaton.NoEmptyMatch)
    {decision : Except LexerError TokenType} (hturn : h.Turn reporter events h' decision) :
    h.SameCandidate h' ∧ TableTurn cs start reporter h h' events decision
      ∧ ∀ type, decision = .ok type → h.Decided cs h' := by
  cases hturn with
  | stopped hmatch =>
      have hquiet := quiet_of_matchToken hmatch
      refine ⟨sameCandidate_of_matchToken hmatch, ?_, by simp⟩
      cases tableMatch_of_matchToken hin.shows ha hmatch with
      | unknownMode hindex => exact .unknownMode hquiet hindex
      | emptyModeStack hlt => exact .emptyModeStack hquiet hlt
  | @decided before after h₁ h₂ h' outcome matched final hmatch hsettle hfinal =>
      have hsame := sameCandidate_of_matchToken hmatch
      have hquiet := quiet_of_matchToken hmatch
      have hcase := tableMatch_of_matchToken hin.shows ha hmatch
      have hleft := undisturbed_of_matchToken hin.shows hmatch
      have hadv : h.stream.Advances h₁.stream :=
        matchToken_moves (h := h.undecided) CharStream.Advances.motion
          TableRecognizer.advances hmatch
      have hin₁ : h₁.InCandidate cs start := hin.of_advances hadv hsame
      rcases refuseEofText_cases hin hin₁ hadv.index_le hcase with
        ⟨type, hfound, hlt, hne⟩ | ⟨hfound, hindex, hstart, hend⟩ | ⟨site, hfound, hstart⟩
      · rw [hfound] at hsettle
        obtain ⟨rfl, rfl, rfl⟩ := settle_matched_eq_ok.mp hsettle
        obtain ⟨rfl, hsame', hindex', hdecided⟩ := hleft.conclude rfl hin₁.shows hfinal
        rw [List.append_nil]
        exact ⟨hsame.trans hsame', .accepted hquiet (hindex' ▸ hlt) hne, fun _ _ => hdecided⟩
      · rw [hfound] at hsettle
        obtain ⟨rfl, rfl, rfl⟩ := settle_matched_eq_ok.mp hsettle
        obtain ⟨rfl, hsame', hindex', hdecided⟩ := hleft.conclude rfl hin₁.shows hfinal
        rw [List.append_nil]
        exact ⟨hsame.trans hsame', .atEnd hquiet (hindex'.trans hindex) hstart hend,
          fun _ _ => hdecided⟩
      · rw [hfound] at hsettle
        have hmoves := settle_moves CharStream.Advances.motion TableRecognizer.advances hsettle
        obtain ⟨rfl, hsame₂, hstate, hindex₂, report, quiet, rfl, hquiet₂, -, hline, hcolumn, -,
          hmessage⟩ := settle_noRule_table hin₁ hleft.knowsNext hstart hsettle
        have hin₂ : h₂.InCandidate cs start := hin₁.of_advances hmoves hsame₂
        obtain ⟨rfl, hsame', hindex', hdecided⟩ := hleft.conclude hstate hin₂.shows hfinal
        have hle₁ := hin₁.start_le
        have hle := hadv.index_le
        rw [← hindex'] at hmessage hindex₂
        refine ⟨(hsame.trans hsame₂).trans hsame', ?_, fun _ _ => hdecided⟩
        exact .failed hquiet hquiet₂ (by omega)
          (by simp only [Head.index] at *; omega) hline hcolumn hmessage

end Head

end ModalLexer
