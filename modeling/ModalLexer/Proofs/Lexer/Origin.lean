import ModalLexer.Automaton.Recognizer
import ModalLexer.Proofs.Actions
import ModalLexer.Proofs.Lexer.Course
import ModalLexer.Proofs.Lexer.Lockstep
import ModalLexer.Proofs.Stream.Naming
import ModalLexer.Script

/-!
# Where a text comes from

The source of a text is written on tokens and reports, and never read again.
So two lexers that differ in the name of their stream, in the source that
follows from it and in the sources of the tokens they keep, go through every
session side by side: what they answer and let be seen differs in sources only
(`performAll_sameButOrigin`).

This asks of the recognizer that it does not look at the name of its stream,
nor at the tokens in the state (`Recognizer.IgnoresOrigin`).
-/

namespace ModalLexer

open Run (Ends Parallel)

/-! ## What is seen apart from sources -/

def Token.unsourced (t : Token) : Token := { t with source := {} }

def Report.unsourced (r : Report) : Report := { r with source := {} }

def Event.unsourced : Event → Event
  | .notified listener report => .notified listener report.unsourced
  | .unheard report => .unheard report.unsourced
  | e => e

def Reply.unsourced : Reply → Reply := Reply.seen Token.unsourced CharStream.unnamed

theorem Token.column_of_unsourced_eq {t u : Token} (h : u.unsourced = t.unsourced) :
    u.column = t.column := by
  change u.unsourced.column = t.unsourced.column
  rw [h]

theorem Token.length_of_unsourced_eq {t u : Token} (h : u.unsourced = t.unsourced) :
    u.length = t.length := by
  change u.unsourced.length = t.unsourced.length
  rw [h]

theorem Dispatch.deliver_unsourced (d : Dispatch) {r q : Report}
    (h : q.unsourced = r.unsourced) :
    (d.deliver q).map Event.unsourced = (d.deliver r).map Event.unsourced := by
  unfold deliver
  by_cases hempty : d.isEmpty = true
  · rw [if_pos hempty, if_pos hempty]
    exact congrArg (fun r => [Event.unheard r]) h
  · rw [if_neg hempty, if_neg hempty, List.map_map, List.map_map]
    refine List.map_congr_left fun listener _ => ?_
    exact congrArg (Event.notified listener) h

/-! ## States -/

/-- The states differ in the sources of their tokens at most. -/
structure State.SameButSource (s t : State) : Prop where
  mode : t.mode = s.mode
  modeStack : t.modeStack = s.modeStack
  candidate : t.candidate = s.candidate
  eofSeen : t.eofSeen = s.eofSeen
  token? : t.token?.map Token.unsourced = s.token?.map Token.unsourced
  lastToken? : t.lastToken?.map Token.unsourced = s.lastToken?.map Token.unsourced

namespace State.SameButSource

variable {s t : State}

theorem refl (s : State) : SameButSource s s := ⟨rfl, rfl, rfl, rfl, rfl, rfl⟩

theorem act (h : SameButSource s t) (a : Action) :
    t.actEvents a = s.actEvents a
      ∧ ((∃ e, s.act a = .error e ∧ t.act a = .error e)
        ∨ ∃ s' t', s.act a = .ok s' ∧ t.act a = .ok t' ∧ SameButSource s' t') := by
  obtain ⟨hmode, hstack, hcandidate, heof, htoken, hlast⟩ := h
  obtain ⟨hevents, hact⟩ := State.act_alike hmode hstack a
  refine ⟨hevents, hact.imp_right ?_⟩
  rintro ⟨mode, modeStack, hs, ht⟩
  refine ⟨_, _, hs, ht, rfl, rfl, congrArg a.shape hcandidate, heof, ?_, hlast⟩
  simp only [State.acted]
  cases a.emitted? with
  | none => exact htoken
  | some token => rfl

theorem perform {view : Event → Event} : ∀ {acts : List Action} {s t : State},
    SameButSource s t → Parallel view (Beside SameButSource id) (s.perform acts) (t.perform acts)
  | [], _, _, h => .pure ⟨h, rfl⟩
  | a :: acts, s, t, h => by
      obtain ⟨hevents, hact⟩ := h.act a
      unfold State.perform
      rw [hevents]
      refine (Parallel.emit rfl).bind fun _ _ _ => ?_
      rcases hact with ⟨e, hs, ht⟩ | ⟨s', t', hs, ht, hrest⟩
      · rw [hs, ht]
        exact .pure ⟨h, rfl⟩
      · rw [hs, ht]
        exact hrest.perform

/-- Actions come through in the one state as in the other. -/
theorem actAll : ∀ {acts : List Action} {s t : State}, SameButSource s t →
    (∃ e, s.actAll acts = .error e ∧ t.actAll acts = .error e)
      ∨ ∃ s' t', s.actAll acts = .ok s' ∧ t.actAll acts = .ok t' ∧ SameButSource s' t'
  | [], s, t, h => .inr ⟨s, t, rfl, rfl, h⟩
  | a :: acts, s, t, h => by
      simp only [State.actAll, List.foldlM_cons]
      rcases (h.act a).2 with ⟨e, hs, ht⟩ | ⟨s', t', hs, ht, hrest⟩
      · rw [hs, ht]
        exact .inl ⟨e, rfl, rfl⟩
      · rw [hs, ht]
        exact hrest.actAll

end State.SameButSource

/-! ## Recognizers -/

/-- The stream that a recognizer leaves, without its name. -/
def Scan.unnamed {ρ : Type} (found : Scan ρ) : Scan ρ :=
  { found with stream := found.stream.unnamed }

/-- The recognizer looks neither at the name of its stream nor at the sources of
the tokens in the state. -/
structure Recognizer.IgnoresOrigin (ρ : Type) [Recognizer ρ] : Prop where
  scan_unnamed : ∀ (r : ρ) (s : CharStream) (mode : ModeId) (state : State),
    Recognizer.scan r s.unnamed mode state = Scan.unnamed <$> Recognizer.scan r s mode state
  scan_state : ∀ {x y : State}, x.SameButSource y → ∀ (r : ρ) (s : CharStream) (mode : ModeId),
    Recognizer.scan r s mode y = Recognizer.scan r s mode x
  consume_unnamed : ∀ (r : ρ) (s : CharStream),
    Recognizer.consume r s.unnamed
      = (Recognizer.consume r s).map fun p => (p.1, p.2.unnamed)

namespace TableRecognizer

theorem walk_unnamed (a : Automaton) (tab : TabWidth) (q : StateId) (p : Caret) (s : CharStream) :
    a.walk tab q p s.unnamed
      = (a.walk tab q p s).map fun w => { w with stream := w.stream.unnamed } := by
  fun_induction Automaton.walk a tab q p s with
  | case1 q p s ahead hp =>
      rw [Automaton.walk, show s.unnamed.peek = (none, ahead.unnamed) by rw [s.peek_unnamed, hp]]
      rfl
  | case2 q p s c ahead hp fault hnext =>
      rw [Automaton.walk, show s.unnamed.peek = (some c, ahead.unnamed) by
        rw [s.peek_unnamed, hp]]
      simp only [hnext]
      rfl
  | case3 q p s c ahead hp hnext =>
      rw [Automaton.walk, show s.unnamed.peek = (some c, ahead.unnamed) by
        rw [s.peek_unnamed, hp]]
      simp only [hnext]
      rfl
  | case4 q p s c ahead hp next hnext fault hpass =>
      rw [Automaton.walk, show s.unnamed.peek = (some c, ahead.unnamed) by
        rw [s.peek_unnamed, hp]]
      simp only [hnext, hpass]
      rfl
  | case5 q p s c ahead hp next hnext p' hpass ih =>
      rw [Automaton.walk, show s.unnamed.peek = (some c, ahead.unnamed) by
        rw [s.peek_unnamed, hp]]
      simp only [hnext, hpass, CharStream.consume_unnamed]
      exact ih

theorem scan_unnamed (r : TableRecognizer) (s : CharStream) (mode : ModeId) :
    r.scan s.unnamed mode = Scan.unnamed <$> r.scan s mode := by
  unfold scan
  cases r.automaton.startStates[mode]? with
  | none => rfl
  | some start =>
      simp only [walk_unnamed, CharStream.index_unnamed]
      cases r.automaton.walk r.tab start r.caret s with
      | error fault => rfl
      | ok w =>
          have hlift : ∀ v : Automaton.Walk, (liftM (Except.ok v : Except Fault _) : Run _)
              = pure v := fun _ => rfl
          simp only [Except.map, hlift, pure_bind, CharStream.index_unnamed, errorSite,
            CharStream.slice_unnamed]
          cases r.automaton.terminal? w.state with
          | some terminal => rfl
          | none =>
              by_cases hend : w.char? = none ∧ w.stream.index = s.index
              · simp only [if_pos hend]
                rfl
              · simp only [if_neg hend]
                rfl

theorem ignoresOrigin : Recognizer.IgnoresOrigin TableRecognizer where
  scan_unnamed r s mode _ := r.scan_unnamed s mode
  scan_state _ _ _ _ := rfl
  consume_unnamed r s := by
    change r.consume s.unnamed = (r.consume s).map _
    unfold consume
    rw [CharStream.peek_unnamed]
    rcases s.peek with ⟨_ | c, t⟩
    · rfl
    · simp only [CharStream.consume_unnamed]
      cases r.caret.pass r.tab c <;> rfl

end TableRecognizer

namespace ScriptRecognizer

theorem consumeMany_unnamed : ∀ (n : Nat) (r : ScriptRecognizer) (s : CharStream),
    r.consumeMany n s.unnamed = (r.consumeMany n s).map fun p => (p.1, p.2.unnamed)
  | 0, _, _ => rfl
  | n + 1, r, s => by
      unfold consumeMany
      rw [CharStream.peek_unnamed]
      rcases s.peek with ⟨_ | c, t⟩
      · rfl
      · simp only [CharStream.consume_unnamed]
        cases r.caret.passPlain c with
        | error fault => rfl
        | ok caret => exact consumeMany_unnamed n { r with caret } t.consume

theorem follow_unnamed (r : ScriptRecognizer) (s : CharStream) (mode : ModeId) (state : State)
    (caret : Caret) (start : Nat) (rule : ScriptRule) :
    r.follow s.unnamed mode state caret start rule
      = (r.follow s mode state caret start rule).map Scan.unnamed := by
  unfold follow
  rw [consumeMany_unnamed]
  cases r.consumeMany rule.eat s with
  | error fault => rfl
  | ok p =>
      rcases rule.result with _ | type
      · rcases state.actAll rule.actions with e | t
        · rfl
        · simp only [Except.map, bind, Except.bind, CharStream.peek_unnamed,
            CharStream.slice_unnamed, CharStream.index_unnamed]
          rfl
      · rfl

theorem follow_state {x y : State} (h : x.SameButSource y) (r : ScriptRecognizer)
    (s : CharStream) (mode : ModeId) (caret : Caret) (start : Nat) (rule : ScriptRule) :
    r.follow s mode y caret start rule = r.follow s mode x caret start rule := by
  unfold follow
  have hact := @State.SameButSource.actAll rule.actions x y h
  rcases hact with ⟨e, hx, hy⟩ | ⟨x', y', hx, hy, -⟩
  · simp only [hx, hy]
  · simp only [hx, hy]
    cases rule.result <;> rfl

theorem scan_unnamed (r : ScriptRecognizer) (s : CharStream) (mode : ModeId) (state : State) :
    r.scan s.unnamed mode state = (r.scan s mode state).map Scan.unnamed := by
  unfold scan
  cases r.modes[mode]? with
  | none => rfl
  | some rules =>
      simp only [CharStream.peek_unnamed, CharStream.index_unnamed]
      rcases s.peek with ⟨char?, t⟩
      cases rules.find? (·.trigger == char?) with
      | some rule => exact follow_unnamed ..
      | none => cases char? <;> rfl

theorem ignoresOrigin : Recognizer.IgnoresOrigin ScriptRecognizer where
  scan_unnamed r s mode state :=
    congrArg Run.ofExcept (r.scan_unnamed s mode state)
  scan_state h r s mode := by
    refine congrArg Run.ofExcept ?_
    unfold scan
    simp only [follow_state h]
  consume_unnamed r s := by
    change r.consume s.unnamed = (r.consume s).map _
    unfold consume
    rw [CharStream.peek_unnamed]
    rcases s.peek with ⟨_ | c, t⟩
    · rfl
    · simp only [CharStream.consume_unnamed]
      cases r.caret.passPlain c <;> rfl

end ScriptRecognizer

/-! ## Heads -/

/-- The heads differ in the name of the stream and in the sources of their
tokens at most. -/
structure Head.SameButOrigin {ρ : Type} (h k : Head ρ) : Prop where
  stream : h.stream.SameButName k.stream
  recognizer : k.recognizer = h.recognizer
  state : h.state.SameButSource k.state

namespace Head.SameButOrigin

variable {ρ : Type} {h k : Head ρ}

theorem peek (hk : h.SameButOrigin k) :
    k.stream.peek.1 = h.stream.peek.1 ∧ h.peek.2.SameButOrigin k.peek.2 := by
  obtain ⟨hfst, hsnd⟩ := hk.stream.peek
  exact ⟨hfst, hsnd, hk.recognizer, hk.state⟩

theorem quote (hk : h.SameButOrigin k) (start : Start) :
    (k.quote start).1 = (h.quote start).1
      ∧ (h.quote start).2.SameButOrigin (k.quote start).2 := by
  obtain ⟨hfst, hpeek⟩ := hk.peek
  have hslice : k.stream.slice start.index (k.index + 1)
      = h.stream.slice start.index (h.index + 1) := by
    rw [hk.stream.slice, Head.index, hk.stream.index]
    rfl
  rw [quote_eq, quote_eq, hslice, hfst]
  by_cases hempty : (h.stream.slice start.index (h.index + 1)).isEmpty = true
  · rw [if_pos hempty, if_pos hempty]
    exact ⟨rfl, hpeek⟩
  · rw [if_neg hempty, if_neg hempty]
    exact ⟨rfl, hk⟩

theorem noteEof (hk : h.SameButOrigin k) : h.noteEof.SameButOrigin k.noteEof := by
  obtain ⟨hfst, hsnd⟩ := hk.stream.peek
  rw [noteEof_eq, noteEof_eq, hfst]
  obtain ⟨hmode, hstack, hcandidate, heof, htoken, hlast⟩ := hk.state
  exact ⟨hsnd, hk.recognizer, hmode, hstack, hcandidate, by rw [heof], htoken, hlast⟩

theorem conclude (hk : h.SameButOrigin k) (matched : TokenType) :
    (k.conclude matched).1 = (h.conclude matched).1
      ∧ (h.conclude matched).2.SameButOrigin (k.conclude matched).2 := by
  obtain ⟨hmode, hstack, hcandidate, heof, htoken, hlast⟩ := hk.state
  refine ⟨?_, hk.stream, hk.recognizer, hmode, hstack, ?_, heof, htoken, hlast⟩ <;>
    simp only [Head.conclude, State.setType, hcandidate]

theorem undecided (hk : h.SameButOrigin k) : h.undecided.SameButOrigin k.undecided := by
  obtain ⟨hmode, hstack, hcandidate, heof, htoken, hlast⟩ := hk.state
  refine ⟨hk.stream, hk.recognizer, hmode, hstack, ?_, heof, htoken, hlast⟩
  simp only [Head.undecided, hcandidate]

theorem refuseEofText (hk : h.SameButOrigin k) (mode : ModeId) (finding : Finding) :
    k.refuseEofText mode finding = h.refuseEofText mode finding := by
  unfold Head.refuseEofText
  rw [hk.state.candidate, Head.index, Head.index, hk.stream.index]
  simp only [hk.stream.slice]

theorem give (hk : h.SameButOrigin k) {t u : Token} (hu : u.unsourced = t.unsourced) :
    (h.give t).SameButOrigin (k.give u) := by
  obtain ⟨hmode, hstack, hcandidate, heof, -, -⟩ := hk.state
  exact ⟨hk.stream, hk.recognizer, hmode, hstack, hcandidate, heof, congrArg some hu,
    congrArg some hu⟩

variable [Recognizer ρ] {p q : Reporter}

theorem here (hk : h.SameButOrigin k) : k.here = h.here := by
  simp only [Head.here, Head.index, Head.caret, hk.stream.index, hk.recognizer]

theorem begun (hk : h.SameButOrigin k) : h.begun.SameButOrigin k.begun := by
  obtain ⟨hmode, hstack, -, heof, -, hlast⟩ := hk.state
  refine ⟨hk.stream, hk.recognizer, hmode, hstack, ?_, heof, rfl, hlast⟩
  simp only [Head.begun, State.begin, hk.here]

/-! ### One match -/

theorem report (hk : h.SameButOrigin k) (hpq : q.listeners = p.listeners)
    (e : RecognitionError) :
    Parallel Event.unsourced SameButOrigin (h.report p e) (k.report q e) := by
  rw [report_eq, report_eq, hk.here, hk.state.candidate, hpq]
  obtain ⟨hfst, hsnd⟩ := hk.quote (h.state.candidate.start?.getD h.here)
  rw [hfst]
  exact ⟨Dispatch.deliver_unsourced _ rfl, .ok hsnd⟩

theorem consume (hρ : Recognizer.IgnoresOrigin ρ) (hk : h.SameButOrigin k) :
    Ends SameButOrigin h.consume k.consume := by
  have hconsume := congrArg (Recognizer.consume h.recognizer) hk.stream
  rw [hρ.consume_unnamed, hρ.consume_unnamed] at hconsume
  simp only [Head.consume, hk.recognizer]
  cases hh : Recognizer.consume h.recognizer h.stream <;>
    cases hh' : Recognizer.consume h.recognizer k.stream <;> rw [hh, hh'] at hconsume
  · obtain rfl := Except.error.inj hconsume
    exact .error
  · cases hconsume
  · cases hconsume
  · obtain ⟨hr, hs⟩ := Prod.mk.inj (Except.ok.inj hconsume)
    exact .ok ⟨hs, hr, hk.state⟩

theorem dropChar (hρ : Recognizer.IgnoresOrigin ρ) (hk : h.SameButOrigin k)
    (e : RecognitionError) :
    Parallel Event.unsourced SameButOrigin (h.dropChar e) (k.dropChar e) := by
  obtain ⟨hfst, hpeek⟩ := hk.peek
  unfold Head.dropChar
  rw [show h.peek = (h.stream.peek.1, h.peek.2) from rfl,
    show k.peek = (h.stream.peek.1, k.peek.2) from Prod.ext hfst rfl]
  cases h.stream.peek.1 with
  | none => exact .pure hpeek
  | some c =>
      refine (Parallel.emit rfl).bind fun _ _ _ => ?_
      exact .ofExcept (hpeek.consume hρ)

theorem settle (hρ : Recognizer.IgnoresOrigin ρ) (hk : h.SameButOrigin k)
    (hpq : q.listeners = p.listeners) (finding : Finding) :
    Parallel Event.unsourced (Beside SameButOrigin id) (h.settle p finding)
      (k.settle q finding) := by
  cases finding with
  | matched type => exact .pure ⟨hk, rfl⟩
  | noRule site =>
      refine (hk.report hpq _).bind fun h₁ k₁ hk₁ => ?_
      refine (hk₁.dropChar hρ _).bind fun h₂ k₂ hk₂ => ?_
      exact .pure ⟨hk₂, rfl⟩

theorem matchToken (hρ : Recognizer.IgnoresOrigin ρ) (hk : h.SameButOrigin k) (mode : ModeId) :
    Parallel Event.unsourced (Beside SameButOrigin id) (h.matchToken mode)
      (k.matchToken mode) := by
  have hscan : Scan.unnamed <$> Recognizer.scan k.recognizer k.stream mode k.state
      = Scan.unnamed <$> Recognizer.scan h.recognizer h.stream mode h.state := by
    rw [hk.recognizer, hρ.scan_state hk.state, ← hρ.scan_unnamed, ← hρ.scan_unnamed, hk.stream]
  refine (Parallel.of_map_eq hscan).bind fun found found' hfound => ?_
  obtain ⟨hr, hs, hactions, houtcome⟩ := Scan.mk.inj hfound
  rw [hactions, houtcome]
  refine hk.state.perform.bind ?_
  rintro ⟨state, failure⟩ ⟨state', failure'⟩ ⟨hstate, hfailure⟩
  obtain rfl : failure' = failure := hfailure
  cases failure' with
  | none => exact .pure ⟨⟨hs, hr, hstate⟩, rfl⟩
  | some e => exact .pure ⟨⟨hs, hr, hstate⟩, rfl⟩

theorem step (hρ : Recognizer.IgnoresOrigin ρ) (hk : h.SameButOrigin k)
    (hpq : q.listeners = p.listeners) :
    Parallel Event.unsourced (Beside SameButOrigin id) (h.step p) (k.step q) := by
  unfold Head.step
  rw [hk.state.mode]
  refine (hk.undecided.matchToken hρ _).bind ?_
  rintro ⟨h₁, found⟩ ⟨k₁, found'⟩ ⟨hk₁, hfound⟩
  obtain rfl : found' = found := hfound
  cases found' with
  | error e => exact .pure ⟨hk₁, rfl⟩
  | ok finding =>
      simp only [SameButOrigin.refuseEofText hk₁]
      refine (SameButOrigin.settle hρ hk₁ hpq _).bind ?_
      rintro ⟨h₂, matched⟩ ⟨k₂, matched'⟩ ⟨hk₂, hmatched⟩
      obtain rfl : matched' = matched := hmatched
      obtain ⟨hfinal, hk₃⟩ := (SameButOrigin.noteEof hk₂).conclude matched'
      simp only
      rw [hfinal, Head.index, Head.index, hk₃.stream.index]
      refine (Parallel.emit rfl).bind fun _ _ _ => ?_
      exact .pure ⟨hk₃, rfl⟩

/-! ### Candidates and calls -/

theorem assemble (hρ : Recognizer.IgnoresOrigin ρ) (hpq : q.listeners = p.listeners) :
    ∀ {limit : Nat} {h k : Head ρ}, h.SameButOrigin k →
      Parallel Event.unsourced (Beside SameButOrigin id) (h.assemble p limit)
        (k.assemble q limit)
  | 0, _, _, _ => .fail
  | limit + 1, h, k, hk => by
      unfold Head.assemble
      refine (hk.step hρ hpq).bind ?_
      rintro ⟨h₁, decision⟩ ⟨k₁, decision'⟩ ⟨hk₁, hdecision⟩
      obtain rfl : decision' = decision := hdecision
      rcases decision' with e | matched
      · exact .pure ⟨hk₁, rfl⟩
      cases matched with
      | more => exact assemble hρ hpq hk₁
      | skip => exact .pure ⟨hk₁, rfl⟩
      | type type => exact .pure ⟨hk₁, rfl⟩

theorem eofToken (hk : h.SameButOrigin k) (s t : Source) :
    Ends (fun x y : Token => y.unsourced = x.unsourced) (h.eofToken s) (k.eofToken t) := by
  have hcolumn : k.eofColumn = h.eofColumn := by
    have hlast := hk.state.lastToken?
    unfold Head.eofColumn
    rw [Head.caret, hk.recognizer]
    cases hh : h.state.lastToken? with
    | none =>
        rw [hh] at hlast
        rw [Option.map_eq_none_iff.mp hlast]
        rfl
    | some x =>
        rw [hh] at hlast
        obtain ⟨y, hy, hxy⟩ := Option.map_eq_some_iff.mp hlast
        rw [hy]
        simp only [Token.length_of_unsourced_eq hxy, Token.column_of_unsourced_eq hxy]
  have hhere := hk.here
  simp only [Head.here, Start.mk.injEq] at hhere
  unfold Head.eofToken
  rw [hcolumn, hhere.1, hhere.2]
  cases h.eofColumn with
  | error fault => exact .error
  | ok column => exact .ok rfl

theorem giveEof (hk : h.SameButOrigin k) (s t : Source) :
    Ends (Beside SameButOrigin Token.unsourced) (h.giveEof s) (k.giveEof t) :=
  (hk.eofToken s t).bind fun _ _ hxy => .ok ⟨hk.give hxy, hxy⟩

theorem complete (hk : h.SameButOrigin k) (s t : Source) (start : Start) (type : TokenId) :
    Ends (Beside SameButOrigin Token.unsourced) (h.complete s start type)
      (k.complete t start type) := by
  have htoken := hk.state.token?
  unfold Head.complete
  cases hh : h.state.token? with
  | some x =>
      rw [hh] at htoken
      obtain ⟨y, hy, hxy⟩ := Option.map_eq_some_iff.mp htoken
      rw [hy]
      exact .ok ⟨hk.give hxy, hxy⟩
  | none =>
      rw [hh] at htoken
      rw [Option.map_eq_none_iff.mp htoken]
      by_cases heof : type = eofType
      · simp only [if_pos heof]
        exact hk.giveEof s t
      · have hbuilt : (k.tokenAt t start type).unsourced = (h.tokenAt s start type).unsourced := by
          simp only [Head.tokenAt, Token.unsourced, Head.index, hk.stream.index, hk.stream.slice,
            hk.state.candidate]
        simp only [if_neg heof]
        exact .ok ⟨hk.give hbuilt, hbuilt⟩

theorem produce (hρ : Recognizer.IgnoresOrigin ρ) (hpq : q.listeners = p.listeners) (m : Nat) :
    ∀ {limit : Nat} {h k : Head ρ}, h.SameButOrigin k →
      Parallel Event.unsourced (Beside SameButOrigin (Except.map Token.unsourced))
        (h.produce p m limit) (k.produce q m limit)
  | 0, _, _, _ => .fail
  | limit + 1, h, k, hk => by
      unfold Head.produce
      rw [hk.state.eofSeen]
      by_cases hseen : h.state.eofSeen = true
      · rw [if_pos hseen, if_pos hseen]
        refine (Parallel.ofExcept (hk.giveEof p.source q.source)).bind ?_
        rintro ⟨h₁, x⟩ ⟨k₁, y⟩ ⟨hk₁, hxy⟩
        exact .pure ⟨hk₁, congrArg Except.ok hxy⟩
      · rw [if_neg hseen, if_neg hseen]
        refine (assemble hρ hpq hk.begun).bind ?_
        rintro ⟨h₁, decision⟩ ⟨k₁, decision'⟩ ⟨hk₁, hdecision⟩
        obtain rfl : decision' = decision := hdecision
        rcases decision' with e | matched
        · exact .pure ⟨hk₁, rfl⟩
        cases matched with
        | type type =>
            simp only [hk.here]
            refine (Parallel.ofExcept (SameButOrigin.complete hk₁ p.source q.source _ _)).bind ?_
            rintro ⟨h₂, x⟩ ⟨k₂, y⟩ ⟨hk₂, hxy⟩
            exact .pure ⟨hk₂, congrArg Except.ok hxy⟩
        | skip => exact produce hρ hpq m hk₁
        | more => exact produce hρ hpq m hk₁

end Head.SameButOrigin

/-! ## Lexers -/

/-- The lexers differ in where their text comes from at most. -/
structure Lexer.SameButOrigin {ρ : Type} (x y : Lexer ρ) : Prop where
  recognizer : y.recognizer = x.recognizer
  stream? : y.stream?.map CharStream.unnamed = x.stream?.map CharStream.unnamed
  state : x.state.SameButSource y.state
  options : y.options = x.options
  error? : y.error? = x.error?
  listeners : y.listeners = x.listeners

namespace Lexer.SameButOrigin

variable {ρ : Type} {x y : Lexer ρ}

/-- Both lexers are without a stream, or their streams differ in their names at
most. -/
theorem streams (h : x.SameButOrigin y) :
    (x.stream? = none ∧ y.stream? = none)
      ∨ ∃ s t, x.stream? = some s ∧ y.stream? = some t ∧ s.SameButName t := by
  have hstream := h.stream?
  cases hx : x.stream? with
  | none =>
      rw [hx] at hstream
      exact .inl ⟨rfl, Option.map_eq_none_iff.mp hstream⟩
  | some s =>
      rw [hx] at hstream
      obtain ⟨t, hy, hst⟩ := Option.map_eq_some_iff.mp hstream
      exact .inr ⟨s, t, rfl, hy, hst⟩

theorem index (h : x.SameButOrigin y) : y.index = x.index := by
  rcases h.streams with ⟨hx, hy⟩ | ⟨s, t, hx, hy, hst⟩
  · rw [Lexer.index, Lexer.index, hx, hy]
  · simp only [Lexer.index, hx, hy, hst.index]

theorem head (h : x.SameButOrigin y) {s t : CharStream} (hst : s.SameButName t) :
    (x.head s).SameButOrigin (y.head t) :=
  ⟨hst, h.recognizer, h.state⟩

variable [Recognizer ρ]

theorem caret (h : x.SameButOrigin y) : y.caret = x.caret :=
  congrArg Recognizer.caret h.recognizer

end Lexer.SameButOrigin

/-- The lexer can count `k` more streams. -/
def Lexer.CanCount {ρ : Type} (lx : Lexer ρ) (k : Nat) : Prop :=
  k = 0 ∨ lx.attachments + k < Checked.wordLimit

/-- The lexers differ in where their text comes from at most, and each of them
can count `k` more streams. -/
structure Lexer.Renumbered {ρ : Type} (k : Nat) (x y : Lexer ρ) : Prop
    extends x.SameButOrigin y where
  left : x.CanCount k
  right : y.CanCount k

theorem Lexer.CanCount.attachCounted {ρ : Type} [Recognizer ρ] {lx : Lexer ρ} {k : Nat}
    (h : lx.CanCount (k + 1)) (s : CharStream) :
    lx.attachCounted s = .ok (lx.attach s) ∧ (lx.attach s).CanCount k := by
  have hlt : lx.attachments + (k + 1) < Checked.wordLimit := h.resolve_left (Nat.succ_ne_zero k)
  refine ⟨attachCounted_eq_ok.mpr ⟨by omega, rfl⟩, .inr ?_⟩
  rwa [show (lx.attach s).attachments = lx.attachments + 1 from rfl, Nat.add_assoc,
    Nat.add_comm 1]

namespace Lexer.Renumbered

variable {ρ : Type} {k : Nat} {x y : Lexer ρ}

theorem withHead (h : x.Renumbered k y) {p q : Head ρ} (hpq : p.SameButOrigin q) :
    (x.withHead p).Renumbered k (y.withHead q) where
  recognizer := hpq.recognizer
  stream? := congrArg some hpq.stream
  state := hpq.state
  options := h.options
  error? := h.error?
  listeners := h.listeners
  left := h.left
  right := h.right

theorem remember (h : x.Renumbered k y) {α β : Type} {f : α → β}
    {result result' : Except LexerError α} (hresult : result'.map f = result.map f) :
    Beside (Renumbered k) (Except.map f) (x.remember result) (y.remember result') := by
  rcases cases_of_map_eq hresult with ⟨e, rfl, rfl⟩ | ⟨a, b, rfl, rfl, -⟩
  · exact ⟨{ h with error? := rfl }, rfl⟩
  · exact ⟨{ h with error? := rfl }, hresult⟩

theorem act (h : x.Renumbered k y) (a : Action) :
    Parallel Event.unsourced (Beside (Renumbered k) id) (x.act a) (y.act a) := by
  refine h.state.perform.bind ?_
  rintro ⟨s, failure⟩ ⟨t, failure'⟩ ⟨hst, hfailure⟩
  exact .pure ⟨{ h with state := hst }, hfailure⟩

variable [Recognizer ρ]

theorem setCaret (h : x.Renumbered k y) (caret : Caret) :
    (x.setCaret caret).Renumbered k (y.setCaret caret) :=
  { h with recognizer := congrArg (Recognizer.setCaret · caret) h.recognizer }

theorem restart (h : x.Renumbered k y) {s? t? : Option CharStream}
    (hst : t?.map CharStream.unnamed = s?.map CharStream.unnamed) :
    (x.restart s?).Renumbered k (y.restart t?) where
  recognizer := congrArg Recognizer.reset h.recognizer
  stream? := hst
  state := .refl _
  options := h.options
  error? := rfl
  listeners := h.listeners
  left := h.left
  right := h.right

/-- Both lexers count the stream that they are given. -/
theorem attachCounted (h : x.Renumbered (k + 1) y) (s : CharStream) :
    x.attachCounted s = .ok (x.attach s) ∧ y.attachCounted s = .ok (y.attach s)
      ∧ (x.attach s).Renumbered k (y.attach s) := by
  obtain ⟨hx, hleft⟩ := h.left.attachCounted s
  obtain ⟨hy, hright⟩ := h.right.attachCounted s
  have hrestart : (x.restart (some s)).Renumbered (k + 1) (y.restart (some s)) := h.restart rfl
  exact ⟨hx, hy, { hrestart with left := hleft, right := hright }⟩

/-! ### Calls -/

theorem lockstep (hρ : Recognizer.IgnoresOrigin ρ) :
    Lockstep Event.unsourced Token.unsourced fun x y : Lexer ρ => x.Renumbered k y where
  isEof_look _ := rfl
  channel_look _ := rfl
  render_look _ := rfl
  stepLimit := by
    intro x y h
    rcases h.streams with ⟨hx, hy⟩ | ⟨s, t, hx, hy, hst⟩
    · rw [Lexer.stepLimit, Lexer.stepLimit, hx, hy]
    · simp only [Lexer.stepLimit, hx, hy, hst.stepLimit]
  nextToken := by
    intro x y h
    unfold Lexer.nextToken
    rcases h.streams with ⟨hx, hy⟩ | ⟨s, t, hx, hy, hst⟩
    · simp only [hx, hy]
      exact .pure (h.remember rfl)
    · obtain ⟨hmarker, hmarked⟩ := hst.mark
      simp only [hx, hy, hmarker, hmarked.stepLimit]
      refine (Head.SameButOrigin.produce hρ h.listeners _ (h.head hmarked)).bind ?_
      rintro ⟨p, result⟩ ⟨q, result'⟩ ⟨hpq, hresult⟩
      have hrelease : CharStream.unnamed <$> q.stream.release s.mark.1
          = CharStream.unnamed <$> p.stream.release s.mark.1 := by
        rw [← CharStream.release_unnamed, hpq.stream, CharStream.release_unnamed]
      refine (Parallel.of_map_eq hrelease).bind fun u v huv => ?_
      have hput : Head.SameButOrigin { p with stream := u } { q with stream := v } :=
        ⟨huv, hpq.recognizer, hpq.state⟩
      exact .pure ((h.withHead hput).remember hresult)

theorem notify (h : x.Renumbered k y) (e : RecognitionError) :
    Parallel Event.unsourced (Renumbered k) (x.notify e) (y.notify e) := by
  unfold Lexer.notify
  rcases h.streams with ⟨hx, hy⟩ | ⟨s, t, hx, hy, hst⟩
  · simp only [hx, hy]
    exact .pure h
  · simp only [hx, hy]
    refine ((h.head hst).report h.listeners e).bind fun p q hpq => ?_
    exact .pure (h.withHead hpq)

theorem recover (hρ : Recognizer.IgnoresOrigin ρ) (h : x.Renumbered k y)
    (e : RecognitionError) :
    Parallel Event.unsourced (Renumbered k) (x.recover e) (y.recover e) := by
  unfold Lexer.recover
  rcases h.streams with ⟨hx, hy⟩ | ⟨s, t, hx, hy, hst⟩
  · simp only [hx, hy]
    exact .pure h
  · simp only [hx, hy, h.options]
    refine (Parallel.emit rfl).bind fun _ _ _ => ?_
    by_cases htracks : x.options.recoverTracksPosition = true
    · rw [if_pos htracks, if_pos htracks]
      obtain ⟨hfst, hpeek⟩ := (h.head hst).peek
      rw [show (x.head s).peek = (s.peek.1, (x.head s).peek.2) from rfl,
        show (y.head t).peek = (s.peek.1, (y.head t).peek.2) from Prod.ext hfst rfl]
      cases s.peek.1 with
      | none => exact .pure (h.withHead hpeek)
      | some c =>
          refine (Parallel.ofExcept (hpeek.consume hρ)).bind fun k l hkl => ?_
          exact .pure (h.withHead hkl)
    · rw [if_neg htracks, if_neg htracks]
      exact .pure { h with stream? := congrArg some hst.consume, options := rfl }

/-- A lexer goes back to the beginning if the other does. -/
theorem reset (h : x.Renumbered k y) :
    (∃ e, x.reset = .error e ∧ y.reset = .error e)
      ∨ ∃ x' y', x.reset = .ok x' ∧ y.reset = .ok y' ∧ x'.Renumbered k y' := by
  unfold Lexer.reset
  rcases h.streams with ⟨hx, hy⟩ | ⟨s, t, hx, hy, hst⟩
  · simp only [hx, hy]
    exact .inr ⟨_, _, rfl, rfl, h.restart rfl⟩
  · have hseek : (t.seek 0).map CharStream.unnamed = (s.seek 0).map CharStream.unnamed := by
      rw [← CharStream.seek_unnamed, hst, CharStream.seek_unnamed]
    simp only [hx, hy]
    rcases cases_of_map_eq hseek with ⟨cause, hs, ht⟩ | ⟨u, v, hs, ht, huv⟩
    · rw [hs, ht]
      exact .inl ⟨_, rfl, rfl⟩
    · rw [hs, ht]
      exact .inr ⟨_, _, rfl, rfl, h.restart (congrArg some huv)⟩

end Lexer.Renumbered

/-! ## Sessions -/

section Sessions

variable {ρ : Type} [Recognizer ρ] {x y : Lexer ρ}

open Lexer (SameButOrigin Renumbered)

/-- The command attaches a stream. -/
def Command.attaches : Command ρ → Bool
  | .attach _ => true
  | _ => false

theorem Command.perform_renumbered (hρ : Recognizer.IgnoresOrigin ρ) {k : Nat} (c : Command ρ)
    (h : x.Renumbered (k + if c.attaches then 1 else 0) y) :
    Parallel Event.unsourced (Beside (Renumbered k) Reply.unsourced) (c.perform x)
      (c.perform y) := by
  have hdraws : c.Draws → x.Renumbered k y →
      Parallel Event.unsourced (Beside (Renumbered k) Reply.unsourced) (c.perform x)
        (c.perform y) :=
    fun hc h => (Renumbered.lockstep hρ).perform h hc CharStream.unnamed
  cases c with
  | next | nextMany | all | iterate | split | join => exact hdraws trivial h
  | attach stream =>
      have hcount : x.Renumbered (k + 1) y := h
      obtain ⟨hx, hy, hattached⟩ := hcount.attachCounted stream
      simp only [perform, hx, hy]
      exact Parallel.pure ⟨hattached, congrArg Reply.stream h.stream?⟩
  | detach => exact .pure ⟨{ h with stream? := rfl }, congrArg Reply.stream h.stream?⟩
  | reset =>
      simp only [perform]
      rcases h.reset with ⟨e, hx, hy⟩ | ⟨x', y', hx, hy, hrest⟩
      · rw [hx, hy]
        exact .pure ⟨h, rfl⟩
      · rw [hx, hy]
        exact .pure ⟨hrest, rfl⟩
  | notify e =>
      refine (h.notify e).bind fun a b hab => ?_
      exact .pure ⟨hab, rfl⟩
  | recover e =>
      refine (h.recover hρ e).bind fun a b hab => ?_
      exact .pure ⟨hab, rfl⟩
  | listen kind =>
      simp only [perform, h.listeners]
      exact .pure ⟨{ h with listeners := rfl }, rfl⟩
  | unlisten =>
      simp only [perform, h.listeners]
      exact .pure ⟨{ h with listeners := rfl }, rfl⟩
  | act a =>
      refine (h.act a).bind ?_
      rintro ⟨x', failure⟩ ⟨y', failure'⟩ ⟨hlexers, hfailure⟩
      obtain rfl : failure' = failure := hfailure
      exact .pure ⟨hlexers, rfl⟩
  | setLine line =>
      simp only [perform, h.caret]
      exact .pure ⟨h.setCaret _, rfl⟩
  | setColumn column =>
      simp only [perform, h.caret]
      exact .pure ⟨h.setCaret _, rfl⟩
  | setOptions options => exact .pure ⟨{ h with options := rfl }, rfl⟩
  | adjust change =>
      exact .pure ⟨{ h with recognizer := congrArg change h.recognizer }, rfl⟩

theorem performAll_renumbered (hρ : Recognizer.IgnoresOrigin ρ) :
    ∀ {commands : List (Command ρ)} {x y : Lexer ρ},
      x.Renumbered (commands.countP Command.attaches) y →
        Parallel Event.unsourced (Beside (Renumbered 0) (List.map Reply.unsourced))
          (Command.performAll commands x) (Command.performAll commands y)
  | [], _, _, h => .pure ⟨h, rfl⟩
  | c :: commands, x, y, h => by
      rw [List.countP_cons] at h
      refine (c.perform_renumbered hρ h).bind ?_
      rintro ⟨x', reply⟩ ⟨y', reply'⟩ ⟨hlexers, hreply⟩
      refine (performAll_renumbered hρ hlexers).map ?_
      rintro ⟨x'', rest⟩ ⟨y'', rest'⟩ ⟨hlexers', hrest⟩
      refine ⟨hlexers', ?_⟩
      simp only at hreply hrest ⊢
      rw [List.map_cons, List.map_cons, hreply, hrest]

/-- Lexers that differ in where their text comes from say the same in every
session, up to what they say of that. -/
theorem performAll_sameButOrigin (hρ : Recognizer.IgnoresOrigin ρ) {commands : List (Command ρ)}
    (h : x.SameButOrigin y) (hx : x.CanCount (commands.countP Command.attaches))
    (hy : y.CanCount (commands.countP Command.attaches)) :
    Parallel Event.unsourced (Beside SameButOrigin (List.map Reply.unsourced))
      (Command.performAll commands x) (Command.performAll commands y) :=
  (performAll_renumbered hρ ⟨h, hx, hy⟩).imp fun _ _ hab => ⟨hab.1.toSameButOrigin, hab.2⟩

end Sessions

end ModalLexer
