import ModalLexer.Proofs.Automaton.Turn

/-!
# Two texts with the same columns

All that an automaton learns of a character is its column, and the caret is
none of its business. So on two texts that have the same column everywhere,
two lexers with the same tables find the same matches and take the same
decisions, wherever their carets are and whatever their tab stops.

A step of the one need not come through because the other does: the position
can leave its range on one side only. The lemmas here therefore take a step of
each and relate what they lead to.
-/

namespace ModalLexer

/-! ## What is compared -/

/-- What a token says apart from its position in lines, its text and its
source. -/
structure Outline where
  type : TokenId
  channel : ChannelId
  start : Nat
  stop : Int
  deriving DecidableEq, Repr

def Token.outline (t : Token) : Outline where
  type := t.type
  channel := t.channel
  start := t.start
  stop := t.stop

/-- Index and mode of the failure that is reported, if the event is a report. -/
def Event.place? (e : Event) : Option (Nat × ModeId) :=
  e.report?.map fun report => (report.cause.site.index, report.cause.site.mode)

/-- The failures that are reported, in order, once for each listener. -/
def places (events : List Event) : List (Nat × ModeId) := events.filterMap Event.place?

@[simp] theorem places_append (before after : List Event) :
    places (before ++ after) = places before ++ places after :=
  List.filterMap_append ..

theorem places_of_quiet {events : List Event} (h : ∀ e ∈ events, e.IsQuiet) :
    places events = [] := by
  rw [places, List.filterMap_eq_nil_iff]
  intro e he
  rw [Event.place?, (h e he).1]
  rfl

/-- The listeners of a dispatch hear of the same places. -/
theorem places_deliver (d : Dispatch) {report report' : Report}
    (hindex : report'.cause.site.index = report.cause.site.index)
    (hmode : report'.cause.site.mode = report.cause.site.mode) :
    places (d.deliver report') = places (d.deliver report) := by
  have hplace : (report'.cause.site.index, report'.cause.site.mode)
      = (report.cause.site.index, report.cause.site.mode) := by rw [hindex, hmode]
  unfold Dispatch.deliver
  split
  · exact congrArg (fun p => [p]) hplace
  · rw [places, places, List.filterMap_map, List.filterMap_map]
    exact congrArg (List.filterMap · d.listeners) (funext fun _ => congrArg some hplace)

/-! ## Streams -/

/-- The two streams stand at the same index, and the texts that they show have
the same columns. -/
def CharStream.Abreast (a : Automaton) (s t : CharStream) : Prop :=
  ∃ cs ds, s.Shows cs ∧ t.Shows ds ∧ t.index = s.index ∧ ds.map a.column? = cs.map a.column?

namespace CharStream.Abreast

variable {a : Automaton} {s s' t t' : CharStream}

theorem peek_fst (h : Abreast a s t) : t.peek.1.map a.column? = s.peek.1.map a.column? := by
  obtain ⟨cs, ds, hs, ht, hindex, hcolumns⟩ := h
  have hat := congrArg (·[s.index]?) hcolumns
  simp only [List.getElem?_map] at hat
  rw [hs.peek_fst, ht.peek_fst, hindex, hat]

theorem isNone_peek (h : Abreast a s t) : t.peek.1.isNone = s.peek.1.isNone := by
  rw [← Option.isNone_map (f := a.column?), h.peek_fst, Option.isNone_map]

/-- A look ahead on one side only makes no difference. -/
theorem peek_left (h : Abreast a s t) : Abreast a s.peek.2 t := by
  obtain ⟨cs, ds, hs, ht, hindex, hcolumns⟩ := h
  exact ⟨cs, ds, hs.peek, ht, by rw [index_peek, hindex], hcolumns⟩

theorem peek_right (h : Abreast a s t) : Abreast a s t.peek.2 := by
  obtain ⟨cs, ds, hs, ht, hindex, hcolumns⟩ := h
  exact ⟨cs, ds, hs, ht.peek, by rw [index_peek, hindex], hcolumns⟩

theorem peek (h : Abreast a s t) : Abreast a s.peek.2 t.peek.2 := h.peek_left.peek_right

theorem of_peek {c? d? : Option Char} (h : Abreast a s t) (hs : s.peek = (c?, s'))
    (ht : t.peek = (d?, t')) : d?.map a.column? = c?.map a.column? ∧ Abreast a s' t' := by
  have hfst := h.peek_fst
  have hsnd := h.peek
  rw [hs, ht] at hfst hsnd
  exact ⟨hfst, hsnd⟩

theorem consume (h : Abreast a s t) : Abreast a s.consume t.consume := by
  obtain ⟨cs, ds, hs, ht, hindex, hcolumns⟩ := h
  have hlength : ds.length = cs.length := by
    rw [← List.length_map a.column?, hcolumns, List.length_map]
  refine ⟨cs, ds, hs.consume, ht.consume, ?_, hcolumns⟩
  rw [hs.index_consume, ht.index_consume, hlength, hindex]

theorem mark (h : Abreast a s t) : Abreast a s.mark.2 t.mark.2 := by
  obtain ⟨cs, ds, hs, ht, hindex, hcolumns⟩ := h
  exact ⟨cs, ds, hs.mark, ht.mark, by rw [index_mark, index_mark, hindex], hcolumns⟩

theorem released {u v : CharStream} (h : Abreast a s t) (hu : Released s' s u)
    (hv : Released t' t v) : Abreast a u v := by
  obtain ⟨cs, ds, hs, ht, hindex, hcolumns⟩ := h
  exact ⟨cs, ds, hu.shows hs, hv.shows ht, by rw [hu.index, hv.index, hindex], hcolumns⟩

theorem index (h : Abreast a s t) : t.index = s.index := by
  obtain ⟨_, _, _, _, hindex, _⟩ := h
  exact hindex

end CharStream.Abreast

open CharStream (Abreast)

/-! ## The automaton -/

theorem Automaton.next?_congr (a : Automaton) {c d : Char} (h : a.column? d = a.column? c)
    (q : StateId) : a.next? q d = a.next? q c := by
  rw [next?, next?, h]

/-- Two walks over the same columns end in the same state, wherever they lead
the caret. -/
theorem Automaton.walk_kin {a : Automaton} {tab tab' : TabWidth} {q : StateId} {p p' : Caret}
    {s t : CharStream} {w w' : Walk} (hst : Abreast a s t) (h : a.walk tab q p s = .ok w)
    (h' : a.walk tab' q p' t = .ok w') :
    w'.state = w.state ∧ w'.char?.isNone = w.char?.isNone ∧ Abreast a w.stream w'.stream := by
  fun_induction Automaton.walk a tab q p s generalizing t p' with
  | case1 q p s ahead hp =>
      obtain rfl := Except.ok.inj h
      rcases htp : t.peek with ⟨_ | d, after⟩ <;> obtain ⟨hcolumn, hafter⟩ := hst.of_peek hp htp
      · rw [walk, htp] at h'
        obtain rfl := Except.ok.inj h'
        exact ⟨rfl, rfl, hafter⟩
      · cases hcolumn
  | case2 => cases h
  | case3 q p s c ahead hp hnext =>
      obtain rfl := Except.ok.inj h
      rcases htp : t.peek with ⟨_ | d, after⟩ <;> obtain ⟨hcolumn, hafter⟩ := hst.of_peek hp htp
      · cases hcolumn
      · rw [walk, htp] at h'
        simp only [a.next?_congr (Option.some.inj hcolumn), hnext] at h'
        obtain rfl := Except.ok.inj h'
        exact ⟨rfl, rfl, hafter⟩
  | case4 => cases h
  | case5 q p s c ahead hp next hnext p₁ hpass ih =>
      rcases htp : t.peek with ⟨_ | d, after⟩ <;> obtain ⟨hcolumn, hafter⟩ := hst.of_peek hp htp
      · cases hcolumn
      · rw [walk, htp] at h'
        simp only [a.next?_congr (Option.some.inj hcolumn), hnext] at h'
        split at h'
        · cases h'
        · exact ih hafter.consume h h'

namespace TableRecognizer

variable {r r' r₁ r₁' : TableRecognizer} {s s' t t' : CharStream}

theorem consume_kin (hautomaton : r'.automaton = r.automaton) (hst : Abreast r.automaton s t)
    (h : r.consume s = .ok (r₁, s')) (h' : r'.consume t = .ok (r₁', t')) :
    r₁.automaton = r.automaton ∧ r₁'.automaton = r.automaton ∧ Abreast r.automaton s' t' := by
  have hfst := hst.isNone_peek
  rcases consume_eq_ok h with ⟨hnone, rfl, rfl⟩ | ⟨c, p, hsome, -, rfl, rfl⟩ <;>
    rcases consume_eq_ok h' with ⟨hnone', rfl, rfl⟩ | ⟨d, p', hsome', -, rfl, rfl⟩
  · exact ⟨rfl, hautomaton, hst.peek⟩
  · simp [hnone, hsome'] at hfst
  · simp [hsome, hnone'] at hfst
  · exact ⟨rfl, hautomaton, hst.peek.consume⟩

end TableRecognizer

/-- The findings agree but for the position and the text of a failure. -/
inductive Finding.Kin : Finding → Finding → Prop
  | matched (type : TokenType) : Kin (.matched type) (.matched type)
  | noRule {site site' : ErrorSite} (hindex : site'.index = site.index)
      (hmode : site'.mode = site.mode) : Kin (.noRule site) (.noRule site')

/-- The same error, or findings that agree. -/
inductive Finding.KinOutcome : Except LexerError Finding → Except LexerError Finding → Prop
  | error (e : LexerError) : KinOutcome (.error e) (.error e)
  | ok {finding finding' : Finding} (hkin : finding.Kin finding') :
      KinOutcome (.ok finding) (.ok finding')

namespace TableRecognizer

variable {r r' : TableRecognizer} {s t : CharStream} {mode : ModeId} {events events' : List Event}
  {found found' : Scan TableRecognizer}

theorem Scans.of_unknown (h : r.Scans s mode events found)
    (hmode : r.automaton.startStates[mode]? = none) :
    found = { recognizer := r, stream := s, outcome := .error (.unknownMode mode) } := by
  cases h with
  | unknown _ => rfl
  | accepted hmode' | atEnd hmode' | stuck hmode' => cases hmode.symm.trans hmode'

/-- In a mode that there is, what is found follows from where the walk ends. -/
theorem Scans.walked (h : r.Scans s mode events found) {start : StateId}
    (hmode : r.automaton.startStates[mode]? = some start) :
    ∃ w, r.automaton.walk r.tab start r.caret s = .ok w ∧ found.stream = w.stream
      ∧ found.actions = (r.automaton.terminal? w.state).elim [] Terminal.actions
      ∧ found.outcome = .ok ((r.automaton.terminal? w.state).elim
        (if w.char? = none ∧ w.stream.index = s.index then .matched (.type eofType)
          else .noRule (r.errorSite mode s.index w))
        fun terminal => .matched terminal.action.tokenType) := by
  cases h with
  | unknown hmode' => cases hmode.symm.trans hmode'
  | accepted hmode' hwalk hterminal =>
      obtain rfl := Option.some.inj (hmode.symm.trans hmode')
      exact ⟨_, hwalk, rfl, by rw [hterminal]; rfl, by rw [hterminal]; rfl⟩
  | atEnd hmode' hwalk hterminal hend =>
      obtain rfl := Option.some.inj (hmode.symm.trans hmode')
      exact ⟨_, hwalk, rfl, by rw [hterminal]; rfl, by rw [hterminal, if_pos hend]; rfl⟩
  | stuck hmode' hwalk hterminal hend =>
      obtain rfl := Option.some.inj (hmode.symm.trans hmode')
      exact ⟨_, hwalk, rfl, by rw [hterminal]; rfl, by rw [hterminal, if_neg hend]; rfl⟩

theorem scan_kin (hautomaton : r'.automaton = r.automaton) (hst : Abreast r.automaton s t)
    (h : r.Scans s mode events found) (h' : r'.Scans t mode events' found') :
    Abreast r.automaton found.stream found'.stream ∧ found'.actions = found.actions
      ∧ Finding.KinOutcome found.outcome found'.outcome := by
  cases hmode : r.automaton.startStates[mode]? with
  | none =>
      obtain rfl := h.of_unknown hmode
      obtain rfl := h'.of_unknown (hautomaton ▸ hmode)
      exact ⟨hst, rfl, .error _⟩
  | some start =>
      obtain ⟨w, hwalk, hstream, hactions, houtcome⟩ := h.walked hmode
      obtain ⟨w', hwalk', hstream', hactions', houtcome'⟩ := h'.walked (hautomaton ▸ hmode)
      rw [hautomaton] at hwalk' hactions' houtcome'
      obtain ⟨hstate, hchar, hstreams⟩ := Automaton.walk_kin hst hwalk hwalk'
      rw [hstate] at hactions' houtcome'
      refine ⟨by rw [hstream, hstream']; exact hstreams, hactions'.trans hactions.symm, ?_⟩
      rw [houtcome, houtcome']
      cases r.automaton.terminal? w.state with
      | some terminal => exact .ok (.matched _)
      | none =>
          have hend : (w'.char? = none ∧ w'.stream.index = t.index)
              ↔ w.char? = none ∧ w.stream.index = s.index := by
            rw [← Option.isNone_iff_eq_none, hchar, Option.isNone_iff_eq_none, hstreams.index,
              hst.index]
          by_cases hw : w.char? = none ∧ w.stream.index = s.index
          · simp only [Option.elim, if_pos hw, if_pos (hend.mpr hw)]
            exact .ok (.matched _)
          · simp only [Option.elim, if_neg hw, if_neg (mt hend.mp hw)]
            exact .ok (.noRule hst.index rfl)

end TableRecognizer

/-! ## The state -/

/-- The states agree about everything that a decision can depend on. -/
structure State.Kin (s t : State) : Prop where
  mode : t.mode = s.mode
  modeStack : t.modeStack = s.modeStack
  eofSeen : t.eofSeen = s.eofSeen
  type? : t.candidate.type? = s.candidate.type?
  channel : t.candidate.channel = s.candidate.channel
  start? : t.candidate.start?.map Start.index = s.candidate.start?.map Start.index
  token? : t.token?.map Token.outline = s.token?.map Token.outline

namespace State.Kin

variable {s s' t t' : State}

theorem act (h : s.Kin t) (a : Action) :
    (∃ e, s.act a = .error e ∧ t.act a = .error e)
      ∨ ∃ s' t', s.act a = .ok s' ∧ t.act a = .ok t' ∧ s'.Kin t' := by
  obtain ⟨hmode, hstack, heof, htype, hchannel, hstart, htoken⟩ := h
  cases a with
  | popMode =>
      show (∃ e, s.popMode = .error e ∧ t.popMode = .error e)
        ∨ ∃ s' t', s.popMode = .ok s' ∧ t.popMode = .ok t' ∧ s'.Kin t'
      unfold popMode
      rw [hstack, hmode]
      cases s.modeStack with
      | nil => exact .inl ⟨_, rfl, rfl⟩
      | cons mode rest =>
          exact .inr ⟨_, _, rfl, rfl, ⟨rfl, rfl, heof, htype, hchannel, hstart, htoken⟩⟩
  | skip | more | setType _ =>
      exact .inr ⟨_, _, rfl, rfl, ⟨hmode, hstack, heof, rfl, hchannel, hstart, htoken⟩⟩
  | setChannel _ =>
      exact .inr ⟨_, _, rfl, rfl, ⟨hmode, hstack, heof, htype, rfl, hstart, htoken⟩⟩
  | setText _ =>
      exact .inr ⟨_, _, rfl, rfl, ⟨hmode, hstack, heof, htype, hchannel, hstart, htoken⟩⟩
  | setMode _ =>
      exact .inr ⟨_, _, rfl, rfl, ⟨rfl, hstack, heof, htype, hchannel, hstart, htoken⟩⟩
  | pushMode mode =>
      refine .inr ⟨_, _, rfl, rfl, ⟨rfl, ?_, heof, htype, hchannel, hstart, htoken⟩⟩
      show t.mode :: t.modeStack = s.mode :: s.modeStack
      rw [hmode, hstack]
  | emit _ =>
      exact .inr ⟨_, _, rfl, rfl, ⟨hmode, hstack, heof, htype, hchannel, hstart, rfl⟩⟩

theorem perform {acts : List Action} {events events' : List Event}
    {failure failure' : Option LexerError} (h : s.Kin t)
    (hs : s.perform acts = { events, outcome := .ok (s', failure) })
    (ht : t.perform acts = { events := events', outcome := .ok (t', failure') }) :
    failure' = failure ∧ s'.Kin t' := by
  induction acts generalizing s t events events' with
  | nil =>
      obtain ⟨rfl, rfl, -⟩ := Run.pure_pair_eq_ok.mp hs
      obtain ⟨rfl, rfl, -⟩ := Run.pure_pair_eq_ok.mp ht
      exact ⟨rfl, h⟩
  | cons a acts ih =>
      obtain ⟨after, -, hs⟩ := perform_cons_eq_ok.mp hs
      obtain ⟨after', -, ht⟩ := perform_cons_eq_ok.mp ht
      rcases h.act a with ⟨e, hact, hact'⟩ | ⟨u, v, hact, hact', hkin⟩
      · rcases hs with ⟨_, hok, -⟩ | ⟨_, herror, rfl, rfl, -⟩
        · cases hact.symm.trans hok
        · rcases ht with ⟨_, hok, -⟩ | ⟨_, herror', rfl, rfl, -⟩
          · cases hact'.symm.trans hok
          · cases hact.symm.trans herror
            cases hact'.symm.trans herror'
            exact ⟨rfl, h⟩
      · rcases hs with ⟨_, hok, hrest⟩ | ⟨_, herror, -⟩
        · rcases ht with ⟨_, hok', hrest'⟩ | ⟨_, herror', -⟩
          · cases hact.symm.trans hok
            cases hact'.symm.trans hok'
            exact ih hkin hrest hrest'
          · cases hact'.symm.trans herror'
        · cases hact.symm.trans herror

theorem give (h : s.Kin t) {x y : Token} (hxy : y.outline = x.outline) :
    State.Kin { s with token? := some x, lastToken? := some x }
      { t with token? := some y, lastToken? := some y } :=
  ⟨h.mode, h.modeStack, h.eofSeen, h.type?, h.channel, h.start?, congrArg some hxy⟩

end State.Kin

/-! ## The lexer -/

namespace Head

/-- The heads have the same tables, stand abreast, and agree about everything
that a decision can depend on. -/
structure Kin (h k : Head TableRecognizer) : Prop where
  automaton : k.recognizer.automaton = h.recognizer.automaton
  streams : Abreast h.recognizer.automaton h.stream k.stream
  state : h.state.Kin k.state

variable {h h' k k' : Head TableRecognizer} {reporter reporter' : Reporter}
  {events events' : List Event}

theorem Kin.undecided (hkin : h.Kin k) : h.undecided.Kin k.undecided where
  automaton := hkin.automaton
  streams := hkin.streams
  state :=
    let ⟨hmode, hstack, heof, _, hchannel, hstart, htoken⟩ := hkin.state
    ⟨hmode, hstack, heof, rfl, hchannel, hstart, htoken⟩

theorem Kin.begun (hkin : h.Kin k) : h.begun.Kin k.begun where
  automaton := hkin.automaton
  streams := hkin.streams
  state :=
    ⟨hkin.state.mode, hkin.state.modeStack, hkin.state.eofSeen, rfl, rfl,
      congrArg some hkin.streams.index, rfl⟩

theorem Kin.noteEof (hkin : h.Kin k) : h.noteEof.Kin k.noteEof := by
  rw [noteEof_eq, noteEof_eq]
  obtain ⟨hmode, hstack, heof, htype, hchannel, hstart, htoken⟩ := hkin.state
  refine ⟨hkin.automaton, hkin.streams.peek, hmode, hstack, ?_, htype, hchannel, hstart, htoken⟩
  show (k.state.eofSeen || k.stream.peek.1.isNone) = (h.state.eofSeen || h.stream.peek.1.isNone)
  rw [heof, hkin.streams.isNone_peek]

theorem Kin.conclude (hkin : h.Kin k) (matched : TokenType) :
    (k.conclude matched).1 = (h.conclude matched).1
      ∧ (h.conclude matched).2.Kin (k.conclude matched).2 := by
  have hfinal : (k.conclude matched).1 = (h.conclude matched).1 := by
    rw [Head.conclude, Head.conclude, hkin.state.type?]
  refine ⟨hfinal, hkin.automaton, hkin.streams, ?_⟩
  exact ⟨hkin.state.mode, hkin.state.modeStack, hkin.state.eofSeen, congrArg some hfinal,
    hkin.state.channel, hkin.state.start?, hkin.state.token?⟩

theorem matchToken_kin (hkin : h.Kin k) {mode : ModeId}
    {found found' : Except LexerError Finding}
    (hmatch : h.matchToken mode = { events, outcome := .ok (h', found) })
    (hmatch' : k.matchToken mode = { events := events', outcome := .ok (k', found') }) :
    h'.Kin k' ∧ Finding.KinOutcome found found' := by
  obtain ⟨_, _, scan, state, failure, hscan, hperform, rfl, rfl, -⟩ := matchToken_eq_ok.mp hmatch
  obtain ⟨_, _, scan', state', failure', hscan', hperform', rfl, rfl, -⟩ :=
    matchToken_eq_ok.mp hmatch'
  replace hscan := TableRecognizer.scan_eq_ok.mp hscan
  replace hscan' := TableRecognizer.scan_eq_ok.mp hscan'
  obtain ⟨hstreams, hactions, houtcome⟩ :=
    TableRecognizer.scan_kin hkin.automaton hkin.streams hscan hscan'
  rw [hactions] at hperform'
  obtain ⟨rfl, hstate⟩ := hkin.state.perform hperform hperform'
  refine ⟨⟨?_, ?_, hstate⟩, ?_⟩
  · rw [hscan.automaton, hscan'.automaton, hkin.automaton]
  · rw [hscan.automaton]
    exact hstreams
  · cases failure' with
    | none => exact houtcome
    | some e => exact .error e

theorem report_kin (hkin : h.Kin k) (hlisteners : reporter'.listeners = reporter.listeners)
    {site site' : ErrorSite} (hindex : site'.index = site.index) (hmode : site'.mode = site.mode)
    (hreport : h.report reporter (.noRule site) = { events, outcome := .ok h' })
    (hreport' : k.report reporter' (.noRule site') = { events := events', outcome := .ok k' }) :
    h'.Kin k' ∧ places events' = places events := by
  obtain ⟨report, rfl, hcause, hend⟩ := exists_report hreport
  obtain ⟨report', rfl, hcause', hend'⟩ := exists_report hreport'
  refine ⟨?_, ?_⟩
  · rcases hend with rfl | rfl <;> rcases hend' with rfl | rfl
    · exact hkin
    · exact ⟨hkin.automaton, hkin.streams.peek_right, hkin.state⟩
    · exact ⟨hkin.automaton, hkin.streams.peek_left, hkin.state⟩
    · exact ⟨hkin.automaton, hkin.streams.peek, hkin.state⟩
  · rw [hlisteners]
    exact places_deliver _ (by rw [hcause, hcause']; exact hindex)
      (by rw [hcause, hcause']; exact hmode)

theorem dropChar_kin (hkin : h.Kin k) {e e' : RecognitionError}
    (hdrop : h.dropChar e = { events, outcome := .ok h' })
    (hdrop' : k.dropChar e' = { events := events', outcome := .ok k' }) :
    h'.Kin k' ∧ places events' = places events := by
  have hnext := hkin.streams.isNone_peek
  rcases dropChar_eq_ok.mp hdrop with ⟨hnone, rfl, rfl⟩ | ⟨c, r, s, hsome, rfl, hconsume, rfl⟩ <;>
    rcases dropChar_eq_ok.mp hdrop' with ⟨hnone', rfl, rfl⟩ |
      ⟨c', r', t, hsome', rfl, hconsume', rfl⟩
  · exact ⟨⟨hkin.automaton, hkin.streams.peek, hkin.state⟩, rfl⟩
  · simp [hnone, hsome'] at hnext
  · simp [hsome, hnone'] at hnext
  · obtain ⟨hleft, hright, hstreams⟩ :=
      TableRecognizer.consume_kin hkin.automaton hkin.streams.peek hconsume hconsume'
    refine ⟨⟨hright.trans hleft.symm, ?_, hkin.state⟩, rfl⟩
    show Abreast r.automaton s t
    rw [hleft]
    exact hstreams

theorem settle_kin (hkin : h.Kin k) (hlisteners : reporter'.listeners = reporter.listeners)
    {finding finding' : Finding} (hfinding : finding.Kin finding') {matched matched' : TokenType}
    (hsettle : h.settle reporter finding = { events, outcome := .ok (h', matched) })
    (hsettle' : k.settle reporter' finding'
      = { events := events', outcome := .ok (k', matched') }) :
    h'.Kin k' ∧ matched' = matched ∧ places events' = places events := by
  cases hfinding with
  | matched type =>
      obtain ⟨rfl, rfl, rfl⟩ := settle_matched_eq_ok.mp hsettle
      obtain ⟨rfl, rfl, rfl⟩ := settle_matched_eq_ok.mp hsettle'
      exact ⟨hkin, rfl, rfl⟩
  | noRule hindex hmode =>
      obtain ⟨before, h₁, after, hreport, hdrop, rfl, rfl⟩ := settle_noRule_eq_ok.mp hsettle
      obtain ⟨before', k₁, after', hreport', hdrop', rfl, rfl⟩ :=
        settle_noRule_eq_ok.mp hsettle'
      obtain ⟨hkin₁, hbefore⟩ := report_kin hkin hlisteners hindex hmode hreport hreport'
      obtain ⟨hkin₂, hafter⟩ := dropChar_kin hkin₁ hdrop hdrop'
      exact ⟨hkin₂, rfl, by rw [places_append, places_append, hbefore, hafter]⟩

/-- The end of the text in the middle of a candidate is refused on both sides. -/
theorem refuseEofText_kin (hkin : h.Kin k) {start : Start}
    (hbegan : h.state.candidate.start? = some start) {mode : ModeId} {finding finding' : Finding}
    (hfinding : finding.Kin finding') :
    (h.refuseEofText mode finding).Kin (k.refuseEofText mode finding') := by
  have hstart := hkin.state.start?
  rw [hbegan] at hstart
  obtain ⟨start', hbegan', hsame⟩ := Option.map_eq_some_iff.mp hstart
  have hindex : k.index = h.index := hkin.streams.index
  rw [refuseEofText_eq hbegan, refuseEofText_eq hbegan', hsame, hindex]
  cases hfinding with
  | matched type =>
      split
      · exact .noRule rfl rfl
      · exact .matched type
  | noRule hindex hmode =>
      rw [if_neg (by simp), if_neg (by simp)]
      exact .noRule hindex hmode

theorem Turn.kin (hkin : h.Kin k) (hlisteners : reporter'.listeners = reporter.listeners)
    {start : Start} (hbegan : h.state.candidate.start? = some start)
    {decision decision' : Except LexerError TokenType}
    (hturn : h.Turn reporter events h' decision)
    (hturn' : k.Turn reporter' events' k' decision') :
    h'.Kin k' ∧ decision' = decision ∧ places events' = places events := by
  have hmode := hkin.state.mode
  cases hturn with
  | stopped hmatch =>
      cases hturn' with
      | stopped hmatch' =>
          have hquiet := places_of_quiet (quiet_of_matchToken hmatch)
          have hquiet' := places_of_quiet (quiet_of_matchToken hmatch')
          rw [hmode] at hmatch'
          obtain ⟨hkin', houtcome⟩ := matchToken_kin hkin.undecided hmatch hmatch'
          cases houtcome
          exact ⟨hkin', rfl, by rw [hquiet, hquiet']⟩
      | decided hmatch' =>
          rw [hmode] at hmatch'
          cases (matchToken_kin hkin.undecided hmatch hmatch').2
  | @decided before after h₁ h₂ _ outcome matched final hmatch hsettle hfinal =>
      cases hturn' with
      | stopped hmatch' =>
          rw [hmode] at hmatch'
          cases (matchToken_kin hkin.undecided hmatch hmatch').2
      | decided hmatch' hsettle' hfinal' =>
          have hquiet := places_of_quiet (quiet_of_matchToken hmatch)
          have hquiet' := places_of_quiet (quiet_of_matchToken hmatch')
          rw [hmode] at hmatch' hsettle'
          obtain ⟨hkin₁, houtcome⟩ := matchToken_kin hkin.undecided hmatch hmatch'
          have hbegan₁ : h₁.state.candidate.start? = some start :=
            (start?_of_matchToken (h := h.undecided) hmatch).trans hbegan
          cases houtcome with
          | ok hfinding =>
              obtain ⟨hkin₂, rfl, hplaces⟩ := settle_kin hkin₁ hlisteners
                (refuseEofText_kin hkin₁ hbegan₁ hfinding) hsettle hsettle'
              obtain ⟨hsame, hkin₃⟩ := hkin₂.noteEof.conclude _
              rw [hfinal, hfinal'] at hsame hkin₃
              refine ⟨hkin₃, congrArg _ hsame, ?_⟩
              simp only [places_append, hquiet, hquiet', hplaces]
              rfl

theorem Assembles.kin (hkin : h.Kin k) (hlisteners : reporter'.listeners = reporter.listeners)
    {start : Start} (hbegan : h.state.candidate.start? = some start)
    {decision decision' : Except LexerError TokenType}
    (hcandidate : h.Assembles reporter events h' decision)
    (hcandidate' : k.Assembles reporter' events' k' decision') :
    h'.Kin k' ∧ decision' = decision ∧ places events' = places events := by
  -- on the first candidate; the decisions say that the second goes on as long
  induction hcandidate generalizing k events' with
  | last hturn hlast =>
      cases hcandidate' with
      | last hturn' _ => exact hturn.kin hkin hlisteners hbegan hturn'
      | more hturn' _ => exact absurd (hturn.kin hkin hlisteners hbegan hturn').2.1.symm hlast
  | more hturn _ ih =>
      cases hcandidate' with
      | last hturn' hlast' => exact absurd (hturn.kin hkin hlisteners hbegan hturn').2.1 hlast'
      | more hturn' hrest' =>
          obtain ⟨hkin₁, -, hbefore⟩ := hturn.kin hkin hlisteners hbegan hturn'
          obtain ⟨hkin₂, hdecision, hafter⟩ := ih hkin₁ (hturn.start?_eq.trans hbegan) hrest'
          exact ⟨hkin₂, hdecision, by rw [places_append, places_append, hbefore, hafter]⟩

theorem outline_of_eofToken {source : Source} {x : Token} (h₀ : h.eofToken source = .ok x) :
    x.outline = {
      type := eofType
      channel := defaultChannel
      start := h.index
      stop := (h.index : Int) - 1 } := by
  obtain ⟨column, -, heq⟩ := Checked.bind_eq_ok.mp h₀
  obtain rfl := Except.ok.inj heq
  rfl

theorem giveEof_kin (hkin : h.Kin k) {source source' : Source} {x y : Token}
    (hgive : h.giveEof source = .ok (h', x)) (hgive' : k.giveEof source' = .ok (k', y)) :
    h'.Kin k' ∧ y.outline = x.outline := by
  obtain ⟨heof, rfl⟩ := giveEof_eq_ok hgive
  obtain ⟨heof', rfl⟩ := giveEof_eq_ok hgive'
  have hindex : k.index = h.index := hkin.streams.index
  have hsame : y.outline = x.outline := by
    rw [outline_of_eofToken heof, outline_of_eofToken heof', hindex]
  exact ⟨⟨hkin.automaton, hkin.streams, hkin.state.give hsame⟩, hsame⟩

theorem complete_kin (hkin : h.Kin k) {start start' : Start} (hstart : start'.index = start.index)
    {source source' : Source} {type : TokenId} {x y : Token}
    (hcomplete : h.complete source start type = .ok (h', x))
    (hcomplete' : k.complete source' start' type = .ok (k', y)) :
    h'.Kin k' ∧ y.outline = x.outline := by
  have hindex : k.index = h.index := hkin.streams.index
  have htoken := hkin.state.token?
  obtain ⟨rfl, hx⟩ := complete_eq_ok hcomplete
  obtain ⟨rfl, hy⟩ := complete_eq_ok hcomplete'
  have hsame : y.outline = x.outline := by
    rcases hx with hx | ⟨hx, htype, heof⟩ | ⟨hx, htype, hx'⟩ <;>
      rcases hy with hy | ⟨hy, htype', heof'⟩ | ⟨hy, htype', hy'⟩ <;>
      rw [hx, hy] at htoken
    · exact Option.some.inj htoken
    · cases htoken
    · cases htoken
    · cases htoken
    · rw [outline_of_eofToken heof, outline_of_eofToken heof', hindex]
    · exact absurd htype htype'
    · cases htoken
    · exact absurd htype' htype
    · rw [hx', hy']
      simp only [tokenAt, Token.outline, hindex, hstart, hkin.state.channel]
  exact ⟨⟨hkin.automaton, hkin.streams, hkin.state.give hsame⟩, hsame⟩

/-- Two calls that come to an end do so alike. -/
theorem Produces.kin (hkin : h.Kin k) (hlisteners : reporter'.listeners = reporter.listeners)
    {result result' : Except LexerError Token} (hcall : h.Produces reporter events h' result)
    (hcall' : k.Produces reporter' events' k' result') :
    h'.Kin k' ∧ result'.map Token.outline = result.map Token.outline
      ∧ places events' = places events := by
  induction hcall generalizing k events' with
  | sentinel heof hgive =>
      have heof' := hkin.state.eofSeen.trans heof
      cases hcall' with
      | sentinel _ hgive' =>
          obtain ⟨hkin', hsame⟩ := giveEof_kin hkin hgive hgive'
          exact ⟨hkin', congrArg Except.ok hsame, rfl⟩
      | broken hunseen | completed hunseen | discarded hunseen => cases heof'.symm.trans hunseen
  | broken heof hcandidate =>
      have heof' := hkin.state.eofSeen.trans heof
      cases hcall' with
      | sentinel hseen => cases heof'.symm.trans hseen
      | broken _ hcandidate' =>
          obtain ⟨hkin', hsame, hplaces⟩ := hcandidate.kin hkin.begun hlisteners rfl hcandidate'
          cases hsame
          exact ⟨hkin', rfl, hplaces⟩
      | completed _ hcandidate' | discarded _ hcandidate' =>
          cases (hcandidate.kin hkin.begun hlisteners rfl hcandidate').2.1
  | completed heof hcandidate hcomplete =>
      have heof' := hkin.state.eofSeen.trans heof
      cases hcall' with
      | sentinel hseen => cases heof'.symm.trans hseen
      | broken _ hcandidate' | discarded _ hcandidate' =>
          cases (hcandidate.kin hkin.begun hlisteners rfl hcandidate').2.1
      | completed _ hcandidate' hcomplete' =>
          obtain ⟨hkin₁, hsame, hplaces⟩ := hcandidate.kin hkin.begun hlisteners rfl hcandidate'
          cases hsame
          obtain ⟨hkin', hsame⟩ := complete_kin hkin₁ hkin.streams.index hcomplete hcomplete'
          exact ⟨hkin', congrArg Except.ok hsame, hplaces⟩
  | discarded heof hcandidate _ ih =>
      have heof' := hkin.state.eofSeen.trans heof
      cases hcall' with
      | sentinel hseen => cases heof'.symm.trans hseen
      | broken _ hcandidate' | completed _ hcandidate' =>
          cases (hcandidate.kin hkin.begun hlisteners rfl hcandidate').2.1
      | discarded _ hcandidate' hrest' =>
          obtain ⟨hkin₁, -, hbefore⟩ := hcandidate.kin hkin.begun hlisteners rfl hcandidate'
          obtain ⟨hkin', hsame, hafter⟩ := ih hkin₁ hrest'
          exact ⟨hkin', hsame, by rw [places_append, places_append, hbefore, hafter]⟩

end Head

end ModalLexer
