import ModalLexer.Proofs.Automaton.Hiding
import ModalLexer.Proofs.Lexer.Independence

/-!
# The rest of a text

A lexer in the middle of a text and a lexer at the beginning of what is left
of it do the same, the first of them some characters farther on. Everything
that says where something is in the text is shifted by that number, and
nothing else: columns and lines are not counted from the index.

There is one exception. The sentinel stands behind the last token, which one of
the lexers may have given out when the other did not exist. What the last
tokens have to do with each other is therefore a parameter (`last`) of the
relations, and the column of a sentinel is compared only if that is known.
-/

namespace ModalLexer

open Run (Agree)

/-! ## Farther on in the text -/

def Start.shifted (n : Nat) (p : Start) : Start := { p with index := p.index + n }

def Candidate.shifted (n : Nat) (c : Candidate) : Candidate :=
  { c with start? := c.start?.map (Start.shifted n) }

def Token.shifted (n : Nat) (t : Token) : Token :=
  { t with start := t.start + n, stop := t.stop + n }

def ErrorSite.shifted (n : Nat) (site : ErrorSite) : ErrorSite :=
  { site with index := site.index + n }

def RecognitionError.shifted (n : Nat) : RecognitionError → RecognitionError
  | .noRule site => .noRule (site.shifted n)
  | .failedPredicate predicate site => .failedPredicate predicate (site.shifted n)

def Finding.shifted (n : Nat) : Finding → Finding
  | .matched type => .matched type
  | .noRule site => .noRule (site.shifted n)

def Report.shifted (n : Nat) (r : Report) : Report := { r with cause := r.cause.shifted n }

def Event.shifted (n : Nat) : Event → Event
  | .notified listener report => .notified listener (report.shifted n)
  | .unheard report => .unheard (report.shifted n)
  | .decided mode matched final index => .decided mode matched final (index + n)
  | .skipping error char => .skipping (error.shifted n) char
  | .recovering error => .recovering (error.shifted n)
  | e => e

theorem Dispatch.deliver_shifted (d : Dispatch) (n : Nat) (r : Report) :
    d.deliver (r.shifted n) = (d.deliver r).map (Event.shifted n) := by
  unfold deliver
  by_cases hempty : d.isEmpty = true
  · rw [if_pos hempty, if_pos hempty]
    rfl
  · rw [if_neg hempty, if_neg hempty, List.map_map]
    rfl

theorem State.actEvents_shifted (s : State) (a : Action) (n : Nat) :
    (s.actEvents a).map (Event.shifted n) = s.actEvents a := by
  cases a
  case popMode =>
      unfold actEvents
      cases s.modeStack <;> rfl
  all_goals rfl

/-! ## Runs farther on -/

namespace Run

variable {α β γ δ : Type} {n : Nat} {R : α → β → Prop} {S : γ → δ → Prop}

def shifted (n : Nat) (x : Run α) : Run α := { x with events := x.events.map (Event.shifted n) }

theorem shifted_bind (n : Nat) (x : Run α) (f : α → Run β) :
    (x >>= f).shifted n = x.shifted n >>= fun a => (f a).shifted n := by
  cases h : x.outcome with
  | ok a =>
      rw [bind_of_ok h, bind_of_ok (x := x.shifted n) h]
      exact ext List.map_append rfl
  | error fault =>
      rw [bind_of_error h, bind_of_error (x := x.shifted n) h]
      rfl

/-- If both runs come to an end, they let the same be seen, the first of them
`n` characters farther on, and end in values that are related. -/
def Follows (n : Nat) (R : α → β → Prop) (x : Run α) (y : Run β) : Prop :=
  Agree R x (y.shifted n)

namespace Follows

theorem pure {a : α} {b : β} (h : R a b) : Follows n R (Pure.pure a) (Pure.pure b) :=
  Agree.pure h

theorem emit {events events' : List Event} (h : events = events'.map (Event.shifted n)) :
    Follows n (fun _ _ => True) (Run.emit events) (Run.emit events') := by
  intro left right a b ha hb
  obtain rfl := emit_eq_ok.mp ha
  obtain rfl := emit_eq_ok.mp hb
  exact ⟨h, trivial⟩

theorem ofExcept {x : Except Fault α} {y : Except Fault β}
    (h : ∀ a b, x = .ok a → y = .ok b → R a b) :
    Follows n R (Run.ofExcept x) (Run.ofExcept y) :=
  Agree.ofExcept h

theorem bind {x : Run α} {y : Run β} {f : α → Run γ} {g : β → Run δ} (hxy : Follows n R x y)
    (hfg : ∀ a b, R a b → Follows n S (f a) (g b)) : Follows n S (x >>= f) (y >>= g) := by
  unfold Follows
  rw [shifted_bind]
  exact Agree.bind hxy hfg

theorem fail {fault : Fault} {y : Run β} : Follows n R (Run.fail fault) y := Agree.of_fail_left

/-- What is known of the end of the second run is known of the value it has. -/
theorem and_right {Q : β → Prop} {x : Run α} {y : Run β} (h : Follows n R x y)
    (hy : ∀ events b, y = { events, outcome := .ok b } → Q b) :
    Follows n (fun a b => R a b ∧ Q b) x y := by
  intro left right a b ha hb
  obtain ⟨hevents, hab⟩ := h left right a b ha hb
  exact ⟨hevents, hab, hy y.events b (ext rfl (Run.mk.inj hb).2)⟩

end Follows

end Run

open Run (Follows)

/-! ## Streams -/

/-- The second stream is what is left of the text of the first behind its first
`n` characters, and stands at the same place. -/
inductive CharStream.Rest (n : Nat) : CharStream → CharStream → Prop
  | text {s t : TextStream} (chars : t.chars.toList = s.chars.toList.drop n)
      (position : s.position = t.position + n) : Rest n (.text s) (.text t)

namespace CharStream.Rest

variable {n : Nat} {s t : CharStream}

theorem index (h : Rest n s t) : s.index = t.index + n := by
  obtain ⟨-, position⟩ := h
  exact position

theorem peek_fst (h : Rest n s t) : s.peek.1 = t.peek.1 := by
  obtain @⟨s, t, chars, position⟩ := h
  show s.chars[s.position]? = t.chars[t.position]?
  rw [← Array.getElem?_toList, ← Array.getElem?_toList, chars, List.getElem?_drop, position,
    Nat.add_comm]

theorem peek (h : Rest n s t) : Rest n s.peek.2 t.peek.2 := by
  obtain ⟨chars, position⟩ := h
  exact .text chars position

theorem of_peek_eq (h : Rest n s t) {s' : CharStream} {c? : Option Char}
    (hp : s.peek = (c?, s')) : t.peek = (c?, t.peek.2) ∧ Rest n s' t.peek.2 := by
  have hfst := h.peek_fst
  have hsnd := h.peek
  rw [hp] at hfst hsnd
  exact ⟨Prod.ext hfst.symm rfl, hsnd⟩

theorem remaining (h : Rest n s t) : s.remaining = t.remaining := by
  obtain @⟨s, t, chars, position⟩ := h
  have hlength := congrArg List.length chars
  rw [List.length_drop, Array.length_toList, Array.length_toList] at hlength
  show s.chars.size - s.position = t.chars.size - t.position
  omega

theorem stepLimit (h : Rest n s t) : s.stepLimit = t.stepLimit :=
  congrArg (· + 0x10000000000000000) h.remaining

theorem consume (h : Rest n s t) : Rest n s.consume t.consume := by
  have hremaining := h.remaining
  obtain @⟨s, t, chars, position⟩ := h
  have hremaining' : s.chars.size - s.position = t.chars.size - t.position := hremaining
  show Rest n (.text s.consume) (.text t.consume)
  unfold TextStream.consume
  by_cases hin : t.position < t.chars.size
  · rw [dif_pos hin, dif_pos (by omega)]
    exact .text chars (by simp only [position]; omega)
  · rw [dif_neg hin, dif_neg (by omega)]
    exact .text chars position

theorem slice (h : Rest n s t) (a b : Nat) : s.slice (a + n) (b + n) = t.slice a b := by
  obtain @⟨s, t, chars, -⟩ := h
  show String.ofList (s.chars.extract (a + n) (b + n)).toList
    = String.ofList (t.chars.extract a b).toList
  rw [Array.toList_extract, Array.toList_extract, chars, List.extract_eq_take_drop,
    List.extract_eq_take_drop, List.drop_drop, Nat.add_comm n a]
  congr 2
  omega

/-- Markers mean nothing to texts. -/
theorem mark_eq (h : Rest n s t) : s.mark = (⟨0⟩, s) ∧ t.mark = (⟨0⟩, t) := by
  cases h
  exact ⟨rfl, rfl⟩

theorem release_eq (h : Rest n s t) (marker : Marker) :
    s.release marker = pure s ∧ t.release marker = pure t := by
  cases h
  exact ⟨rfl, rfl⟩

end CharStream.Rest

/-! ## The recognizer -/

/-- The recognizers differ in where their last match began at most. -/
structure TableRecognizer.SameButStart (r r' : TableRecognizer) : Prop where
  automaton : r.automaton = r'.automaton
  tab : r.tab = r'.tab
  caret : r.caret = r'.caret

/-- The walks ended alike. -/
structure Automaton.Walk.Ahead (n : Nat) (w w' : Automaton.Walk) : Prop where
  stream : w.stream.Rest n w'.stream
  caret : w.caret = w'.caret
  state : w.state = w'.state
  char? : w.char? = w'.char?

/-- A walk sees the characters and counts lines and columns, but no index. -/
theorem Automaton.walk_rest {n : Nat} {a : Automaton} {tab : TabWidth} {q : StateId} {p : Caret}
    {s t : CharStream} {w w' : Walk} (hst : s.Rest n t) (h : a.walk tab q p s = .ok w)
    (h' : a.walk tab q p t = .ok w') : w.Ahead n w' := by
  -- on the walk over the whole text; the one over the rest takes the same branch
  fun_induction Automaton.walk a tab q p s generalizing t with
  | case1 q p s ahead hp =>
      obtain ⟨hp', hrest⟩ := hst.of_peek_eq hp
      rw [walk, hp'] at h'
      obtain rfl := Except.ok.inj h
      obtain rfl := Except.ok.inj h'
      exact ⟨hrest, rfl, rfl, rfl⟩
  | case2 => cases h
  | case3 q p s c ahead hp hnext =>
      obtain ⟨hp', hrest⟩ := hst.of_peek_eq hp
      rw [walk, hp'] at h'
      simp only [hnext] at h'
      obtain rfl := Except.ok.inj h
      obtain rfl := Except.ok.inj h'
      exact ⟨hrest, rfl, rfl, rfl⟩
  | case4 => cases h
  | case5 q p s c ahead hp next hnext p₁ hpass ih =>
      obtain ⟨hp', hrest⟩ := hst.of_peek_eq hp
      rw [walk, hp'] at h'
      simp only [hnext, hpass] at h'
      exact ih hrest.consume h h'

/-- What was found is the same. -/
structure Scan.Ahead (n : Nat) (found found' : Scan TableRecognizer) : Prop where
  stream : found.stream.Rest n found'.stream
  recognizer : found.recognizer.SameButStart found'.recognizer
  actions : found.actions = found'.actions
  outcome : found.outcome = found'.outcome.map (Finding.shifted n)

namespace TableRecognizer

variable {n : Nat} {r r' : TableRecognizer} {s t : CharStream}

theorem errorSite_rest (hr : r.SameButStart r') (hst : s.Rest n t) {w w' : Automaton.Walk}
    (hw : w.Ahead n w') (mode : ModeId) :
    r.errorSite mode s.index w = (r'.errorSite mode t.index w').shifted n := by
  simp only [errorSite, ErrorSite.shifted, hr.caret, hst.index, hw.char?, hw.stream.index,
    hw.stream.slice]

theorem scan_rest (hr : r.SameButStart r') (hst : s.Rest n t) (mode : ModeId) :
    Follows n (Scan.Ahead n) (r.scan s mode) (r'.scan t mode) := by
  unfold scan
  rw [hr.automaton, hr.tab, hr.caret]
  cases r'.automaton.startStates[mode]? with
  | none => exact .pure ⟨hst, hr, rfl, rfl⟩
  | some start =>
      refine Follows.bind (.ofExcept fun w w' => Automaton.walk_rest hst) fun w w' hw => ?_
      simp only [hw.state]
      cases r'.automaton.terminal? w'.state with
      | some terminal =>
          have hemit : Follows n (fun _ _ => True) (Run.emit [.accepted mode w'.state terminal])
              (Run.emit [.accepted mode w'.state terminal]) := .emit rfl
          refine hemit.bind fun _ _ _ => ?_
          exact .pure ⟨hw.stream, ⟨rfl, rfl, hw.caret⟩, rfl, rfl⟩
      | none =>
          -- the end of the text without a character before it is not a failure
          have hend : (w.char? = none ∧ w.stream.index = s.index)
              ↔ w'.char? = none ∧ w'.stream.index = t.index := by
            rw [hw.char?, hw.stream.index, hst.index, Nat.add_right_cancel_iff]
          by_cases hw' : w'.char? = none ∧ w'.stream.index = t.index
          · simp only [if_pos hw', if_pos (hend.mpr hw')]
            exact .pure ⟨hw.stream, ⟨rfl, rfl, hw.caret⟩, rfl, rfl⟩
          · simp only [if_neg hw', if_neg (mt hend.mp hw')]
            refine .pure ⟨hw.stream, ⟨rfl, rfl, hw.caret⟩, rfl, ?_⟩
            rw [← hr.automaton, ← hr.tab]
            exact congrArg (fun site => Except.ok (Finding.noRule site))
              (errorSite_rest hr hst hw mode)

end TableRecognizer

/-! ## The state -/

/-- Between two candidates, the states agree, and of the last tokens `last` is
known. -/
structure State.Level (last : Option Token → Option Token → Prop) (s t : State) : Prop where
  mode : s.mode = t.mode
  modeStack : s.modeStack = t.modeStack
  eofSeen : s.eofSeen = t.eofSeen
  lastToken? : last s.lastToken? t.lastToken?

/-- In a candidate, the states agree, the first farther on. -/
structure State.Along (n : Nat) (last : Option Token → Option Token → Prop) (s t : State) : Prop
    extends State.Level last s t where
  candidate : s.candidate = t.candidate.shifted n
  token? : s.token? = t.token?

namespace State.Along

variable {n : Nat} {last : Option Token → Option Token → Prop} {s t : State}

theorem act (h : s.Along n last t) (a : Action) :
    s.actEvents a = t.actEvents a
      ∧ ((∃ e, s.act a = .error e ∧ t.act a = .error e)
        ∨ ∃ s' t', s.act a = .ok s' ∧ t.act a = .ok t' ∧ s'.Along n last t') := by
  obtain ⟨⟨hmode, hstack, heof, hlast⟩, hcandidate, htoken⟩ := h
  obtain ⟨hevents, hact⟩ := State.act_alike hmode hstack a
  refine ⟨hevents, hact.imp ?_ ?_⟩
  · rintro ⟨e, ht, hs⟩
    exact ⟨e, hs, ht⟩
  · rintro ⟨mode, modeStack, ht, hs⟩
    refine ⟨_, _, hs, ht, ⟨rfl, rfl, heof, hlast⟩, ?_, ?_⟩
    · simp only [State.acted, hcandidate]
      rfl
    · simp only [State.acted, htoken]

/-- Actions leave no index in the log, so their events are the same. -/
theorem perform : ∀ {acts : List Action} {s t : State}, s.Along n last t →
    Follows n (fun p q => p.1.Along n last q.1 ∧ p.2 = q.2) (s.perform acts) (t.perform acts)
  | [], _, _, h => .pure ⟨h, rfl⟩
  | a :: acts, s, t, h => by
      obtain ⟨hevents, hact⟩ := h.act a
      unfold State.perform
      have hemit := (t.actEvents_shifted a n).symm
      rw [hevents]
      refine Follows.bind (.emit hemit) fun _ _ _ => ?_
      rcases hact with ⟨e, hs, ht⟩ | ⟨s', t', hs, ht, hrest⟩
      · rw [hs, ht]
        exact .pure ⟨h, rfl⟩
      · rw [hs, ht]
        exact hrest.perform

end State.Along

/-! ## Heads -/

namespace Head

variable {n : Nat} {last : Option Token → Option Token → Prop} {h k : Head TableRecognizer}
  {p : Reporter}

/-- Between two candidates, the second head stands in the rest of the text
where the first stands in the text. -/
structure Level (n : Nat) (last : Option Token → Option Token → Prop)
    (h k : Head TableRecognizer) : Prop where
  stream : h.stream.Rest n k.stream
  recognizer : h.recognizer.SameButStart k.recognizer
  state : h.state.Level last k.state

/-- The same in a candidate. -/
structure Along (n : Nat) (last : Option Token → Option Token → Prop)
    (h k : Head TableRecognizer) : Prop where
  stream : h.stream.Rest n k.stream
  recognizer : h.recognizer.SameButStart k.recognizer
  state : h.state.Along n last k.state

theorem Along.level (hk : h.Along n last k) : h.Level n last k :=
  ⟨hk.stream, hk.recognizer, hk.state.toLevel⟩

namespace Level

theorem index (hk : h.Level n last k) : h.index = k.index + n := hk.stream.index

theorem here (hk : h.Level n last k) : h.here = k.here.shifted n := by
  have hcaret : h.caret = k.caret := hk.recognizer.caret
  simp only [Head.here, Start.shifted, hk.index, hcaret]

theorem begun (hk : h.Level n last k) : h.begun.Along n last k.begun := by
  obtain ⟨hmode, hstack, heof, hlast⟩ := hk.state
  refine ⟨hk.stream, hk.recognizer, ⟨hmode, hstack, heof, hlast⟩, ?_, rfl⟩
  simp only [Head.begun, State.begin, hk.here, Candidate.shifted, Option.map_some]

end Level

namespace Along

theorem index (hk : h.Along n last k) : h.index = k.index + n := hk.stream.index

theorem begins (hk : h.Along n last k) :
    h.state.candidate.start?.getD h.here
      = (k.state.candidate.start?.getD k.here).shifted n := by
  rw [hk.state.candidate, hk.level.here]
  cases hstart : k.state.candidate.start? <;> simp only [Candidate.shifted, hstart] <;> rfl

theorem peek (hk : h.Along n last k) :
    h.stream.peek.1 = k.stream.peek.1 ∧ h.peek.2.Along n last k.peek.2 :=
  ⟨hk.stream.peek_fst, hk.stream.peek, hk.recognizer, hk.state⟩

/-! ### One match -/

theorem quote (hk : h.Along n last k) (start : Start) :
    (h.quote (start.shifted n)).1 = (k.quote start).1
      ∧ (h.quote (start.shifted n)).2.Along n last (k.quote start).2 := by
  obtain ⟨hfst, hpeek⟩ := hk.peek
  have hslice : h.stream.slice (start.shifted n).index (h.index + 1)
      = k.stream.slice start.index (k.index + 1) := by
    rw [hk.index, Nat.add_right_comm]
    exact hk.stream.slice _ _
  rw [quote_eq, quote_eq, hslice, hfst]
  by_cases hempty : (k.stream.slice start.index (k.index + 1)).isEmpty = true
  · rw [if_pos hempty, if_pos hempty]
    exact ⟨rfl, hpeek⟩
  · rw [if_neg hempty, if_neg hempty]
    exact ⟨rfl, hk⟩

/-- The message quotes the same characters, at the same line and column. -/
theorem report (hk : h.Along n last k) (e : RecognitionError) :
    Follows n (Along n last) (h.report p (e.shifted n)) (k.report p e) := by
  obtain ⟨hfst, hsnd⟩ := hk.quote (k.state.candidate.start?.getD k.here)
  rw [report_eq, report_eq, hk.begins, hfst]
  intro left right a b ha hb
  obtain ⟨rfl, hok⟩ := Run.mk.inj ha
  obtain ⟨rfl, hok'⟩ := Run.mk.inj hb
  obtain rfl := Except.ok.inj hok
  obtain rfl := Except.ok.inj hok'
  have hdeliver := p.listeners.deliver_shifted n {
    source := p.source
    line := (k.state.candidate.start?.getD k.here).caret.line
    column := (k.state.candidate.start?.getD k.here).caret.column
    message := "token recognition error at: '"
      ++ (k.quote (k.state.candidate.start?.getD k.here)).1 ++ "'"
    cause := e }
  exact ⟨hdeliver, hsnd⟩

theorem consume {h' k' : Head TableRecognizer} (hk : h.Along n last k)
    (hh : h.consume = .ok h') (hk' : k.consume = .ok k') : h'.Along n last k' := by
  obtain ⟨r, s, hr, rfl⟩ := consume_eq_ok.mp hh
  obtain ⟨r', t, hr', rfl⟩ := consume_eq_ok.mp hk'
  obtain ⟨hautomaton, htab, hcaret⟩ := hk.recognizer
  have hfst := hk.stream.peek_fst
  rcases TableRecognizer.consume_eq_ok hr with
      ⟨hnone, rfl, rfl⟩ | ⟨c, q, hsome, hpass, rfl, rfl⟩ <;>
    rcases TableRecognizer.consume_eq_ok hr' with
      ⟨hnone', rfl, rfl⟩ | ⟨c', q', hsome', hpass', rfl, rfl⟩
  · exact ⟨hk.stream.peek, ⟨hautomaton, htab, hcaret⟩, hk.state⟩
  · cases hnone.symm.trans (hfst.trans hsome')
  · cases hsome.symm.trans (hfst.trans hnone')
  · obtain rfl := Option.some.inj (hsome.symm.trans (hfst.trans hsome'))
    rw [hcaret, htab] at hpass
    obtain rfl := Except.ok.inj (hpass.symm.trans hpass')
    exact ⟨hk.stream.peek.consume, ⟨hautomaton, htab, rfl⟩, hk.state⟩

theorem dropChar (hk : h.Along n last k) (e : RecognitionError) :
    Follows n (Along n last) (h.dropChar (e.shifted n)) (k.dropChar e) := by
  obtain ⟨hfst, hpeek⟩ := hk.peek
  unfold Head.dropChar
  rw [show h.peek = (k.stream.peek.1, h.peek.2) from Prod.ext hfst rfl,
    show k.peek = (k.stream.peek.1, k.peek.2) from rfl]
  cases k.stream.peek.1 with
  | none => exact .pure hpeek
  | some c =>
      have hemit : Follows n (fun _ _ => True) (Run.emit [.skipping (e.shifted n) c])
          (Run.emit [.skipping e c]) := .emit rfl
      refine hemit.bind fun _ _ _ => ?_
      exact .ofExcept fun _ _ => hpeek.consume

theorem settle (hk : h.Along n last k) (finding : Finding) :
    Follows n (fun a b => a.1.Along n last b.1 ∧ a.2 = b.2)
      (h.settle p (finding.shifted n)) (k.settle p finding) := by
  cases finding with
  | matched type => exact .pure ⟨hk, rfl⟩
  | noRule site =>
      refine (hk.report (.noRule site)).bind fun h₁ k₁ hk₁ => ?_
      refine (hk₁.dropChar (.noRule site)).bind fun h₂ k₂ hk₂ => ?_
      exact .pure ⟨hk₂, rfl⟩

theorem noteEof (hk : h.Along n last k) : h.noteEof.Along n last k.noteEof := by
  obtain ⟨⟨hmode, hstack, heof, hlast⟩, hcandidate, htoken⟩ := hk.state
  rw [noteEof_eq, noteEof_eq, hk.stream.peek_fst]
  refine ⟨hk.stream.peek, hk.recognizer, ⟨hmode, hstack, ?_, hlast⟩, hcandidate, htoken⟩
  rw [heof]

theorem conclude (hk : h.Along n last k) (matched : TokenType) :
    (h.conclude matched).1 = (k.conclude matched).1
      ∧ (h.conclude matched).2.Along n last (k.conclude matched).2 := by
  obtain ⟨⟨hmode, hstack, heof, hlast⟩, hcandidate, htoken⟩ := hk.state
  refine ⟨?_, hk.stream, hk.recognizer, ⟨hmode, hstack, heof, hlast⟩, ?_, htoken⟩ <;>
    simp only [Head.conclude, State.setType, hcandidate] <;> rfl

theorem undecided (hk : h.Along n last k) : h.undecided.Along n last k.undecided := by
  obtain ⟨⟨hmode, hstack, heof, hlast⟩, hcandidate, htoken⟩ := hk.state
  refine ⟨hk.stream, hk.recognizer, ⟨hmode, hstack, heof, hlast⟩, ?_, htoken⟩
  simp only [Head.undecided, hcandidate]
  rfl

theorem refuseEofText (hk : h.Along n last k) (mode : ModeId) (finding : Finding) :
    h.refuseEofText mode (finding.shifted n) = (k.refuseEofText mode finding).shifted n := by
  unfold Head.refuseEofText
  rw [hk.state.candidate, hk.index]
  cases finding with
  | noRule site => rfl
  | matched type =>
      cases type with
      | skip => rfl
      | more => rfl
      | type id =>
          cases hstart : k.state.candidate.start? with
          | none => simp only [Candidate.shifted, hstart, Option.map_none, Finding.shifted]
          | some start =>
              simp only [Candidate.shifted, hstart, Option.map_some, Finding.shifted,
                Start.shifted, hk.stream.slice, Nat.add_lt_add_iff_right]
              by_cases hrefused : id = eofType ∧ start.index < k.index
              · rw [if_pos hrefused, if_pos hrefused]
                rfl
              · rw [if_neg hrefused, if_neg hrefused]

theorem matchToken (hk : h.Along n last k) (mode : ModeId) :
    Follows n (fun a b => a.1.Along n last b.1 ∧ a.2 = b.2.map (Finding.shifted n))
      (h.matchToken mode) (k.matchToken mode) := by
  refine (TableRecognizer.scan_rest hk.recognizer hk.stream mode).bind fun found found' hfound => ?_
  rw [hfound.actions]
  refine hk.state.perform.bind ?_
  rintro ⟨state, failure⟩ ⟨state', failure'⟩ ⟨hstate, hfailure⟩
  obtain rfl : failure = failure' := hfailure
  cases failure with
  | none => exact .pure ⟨⟨hfound.stream, hfound.recognizer, hstate⟩, hfound.outcome⟩
  | some e => exact .pure ⟨⟨hfound.stream, hfound.recognizer, hstate⟩, rfl⟩

theorem step (hk : h.Along n last k) :
    Follows n (fun a b => a.1.Along n last b.1 ∧ a.2 = b.2) (h.step p) (k.step p) := by
  unfold Head.step
  rw [hk.state.mode]
  refine (hk.undecided.matchToken _).bind ?_
  rintro ⟨h₁, found⟩ ⟨k₁, found'⟩ ⟨hk₁, hfound⟩
  obtain rfl : found = found'.map (Finding.shifted n) := hfound
  cases found' with
  | error e => exact .pure ⟨hk₁, rfl⟩
  | ok finding =>
      simp only [Except.map, Along.refuseEofText hk₁]
      refine (Along.settle hk₁ _).bind ?_
      rintro ⟨h₂, matched⟩ ⟨k₂, matched'⟩ ⟨hk₂, hmatched⟩
      obtain rfl : matched = matched' := hmatched
      obtain ⟨hfinal, hk₃⟩ := (Along.noteEof hk₂).conclude matched
      simp only
      rw [hfinal, hk₃.index]
      refine Follows.bind (.emit rfl) fun _ _ _ => ?_
      exact .pure ⟨hk₃, rfl⟩

/-! ### Candidates -/

theorem assemble : ∀ {limit : Nat} {h k : Head TableRecognizer}, h.Along n last k →
    Follows n (fun a b => a.1.Along n last b.1 ∧ a.2 = b.2) (h.assemble p limit)
      (k.assemble p limit)
  | 0, _, _, _ => .fail
  | limit + 1, h, k, hk => by
      unfold Head.assemble
      refine hk.step.bind ?_
      rintro ⟨h₁, decision⟩ ⟨k₁, decision'⟩ ⟨hk₁, hdecision⟩
      obtain rfl : decision = decision' := hdecision
      rcases decision with e | matched
      · exact .pure ⟨hk₁, rfl⟩
      cases matched with
      | more => exact assemble hk₁
      | skip => exact .pure ⟨hk₁, rfl⟩
      | type type => exact .pure ⟨hk₁, rfl⟩

end Along

end Head

end ModalLexer
