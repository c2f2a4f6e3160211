import Mathlib.Data.List.Forall2
import ModalLexer.Proofs.Automaton.Kindred
import ModalLexer.Proofs.Lexer.Call
import ModalLexer.Proofs.Lexer.Trace
import ModalLexer.Sample

/-!
# Positions decide nothing

Two sessions over texts that have the same columns take the same steps: they
ask for a token, drop a character, or act on the state. In between, each of
them may set its caret, its tab stops and its options as it likes. Step by
step, the tokens have the same outline, the failures that are reported are in
the same places, and the lexers stand at the same index in the same mode.

`Lexer.Kin` is what holds of the two lexers all the time. A command that sets
a position keeps it on the side where it is given, and a step keeps it if both
lexers take it.
-/

namespace ModalLexer

open CharStream (Abreast)

/-! ## Commands -/

namespace Command

/-- The command is one of those that both sessions share. -/
def guides {ρ : Type} : Command ρ → Bool
  | .next => true
  | .recover _ => true
  | .act _ => true
  | _ => false

/-- The command sets the position, the tab stops or the options. -/
inductive Repositions : Command TableRecognizer → Prop
  | setLine (line : Nat) : Repositions (.setLine line)
  | setColumn (column : Nat) : Repositions (.setColumn column)
  | setTabWidth (width : UInt8) : Repositions (.adjust (·.setTabWidth width))
  | setOptions (options : Options) : Repositions (.setOptions options)

/-- The two commands are the same step. The errors that characters are dropped
for need not be the same, as they contain positions. -/
inductive SameStep {ρ : Type} : Command ρ → Command ρ → Prop
  | next : SameStep .next .next
  | recover (e e' : RecognitionError) : SameStep (.recover e) (.recover e')
  | act (a : Action) : SameStep (.act a) (.act a)

end Command

/-- The entries of the commands that both sessions share. -/
def guided {ρ : Type} (commands : List (Command ρ)) (entries : List (Entry ρ)) :
    List (Entry ρ) :=
  ((commands.zip entries).filter fun p => p.1.guides).map Prod.snd

theorem guided_cons {ρ : Type} (c : Command ρ) (commands : List (Command ρ)) (entry : Entry ρ)
    (entries : List (Entry ρ)) :
    guided (c :: commands) (entry :: entries)
      = if c.guides then entry :: guided commands entries else guided commands entries := by
  rw [guided, List.zip_cons_cons, List.filter_cons]
  split <;> rfl

/-! ## Answers -/

/-- The answers agree but for positions, texts and sources. -/
inductive Reply.Kin : Reply → Reply → Prop
  | done : Kin .done .done
  | failure (e : LexerError) : Kin (.failure e) (.failure e)
  | token {result result' : Except LexerError Token}
      (houtline : result'.map Token.outline = result.map Token.outline) :
      Kin (.token result) (.token result')

/-- The two entries say the same of what was recognized, and behind them the
lexers are at the same point. -/
structure Entry.Kin {ρ : Type} (e f : Entry ρ) : Prop where
  reply : e.reply.Kin f.reply
  places : places f.events = places e.events
  index : f.lexer.index = e.lexer.index
  mode : f.lexer.state.mode = e.lexer.state.mode
  modeStack : f.lexer.state.modeStack = e.lexer.state.modeStack
  eofSeen : f.lexer.state.eofSeen = e.lexer.state.eofSeen

/-! ## One character dropped -/

/-- The streams show the same, one of them a character behind the other, as far
as there is one. -/
def CharStream.Dropped (s s' : CharStream) : Prop :=
  ∀ cs, s.Shows cs → s'.Shows cs ∧ s'.index = s.consume.index

theorem CharStream.Abreast.dropped {a : Automaton} {s s' t t' : CharStream} (h : Abreast a s t)
    (hs : s.Dropped s') (ht : t.Dropped t') : Abreast a s' t' := by
  have hindex := h.consume.index
  obtain ⟨cs, ds, hcs, hds, -, hcolumns⟩ := h
  obtain ⟨hcs', hs'⟩ := hs cs hcs
  obtain ⟨hds', ht'⟩ := ht ds hds
  exact ⟨cs, ds, hcs', hds', by rw [hs', ht', hindex], hcolumns⟩

namespace Lexer

variable {x x' y y' : Lexer TableRecognizer} {s t : CharStream} {events events' : List Event}

/-- Dropping a character changes nothing but the stream and the caret, whether
or not the caret goes along. -/
theorem dropped_of_recover {e : RecognitionError} (hstream : x.stream? = some s)
    (hrecover : x.recover e = { events, outcome := .ok x' }) :
    ∃ r s', x' = { x with stream? := some s', recognizer := r }
      ∧ r.automaton = x.recognizer.automaton ∧ s.Dropped s' ∧ events = [.recovering e] := by
  simp only [recover, hstream] at hrecover
  obtain ⟨before, u, after, hemit, hrest, rfl⟩ := Run.bind_eq_ok.mp hrecover
  obtain rfl := Run.emit_eq_ok.mp hemit
  by_cases htracks : x.options.recoverTracksPosition = true
  · rw [if_pos htracks] at hrest
    simp only [Head.peek, head] at hrest
    rcases hpeek : s.peek with ⟨_ | c, s₁⟩ <;> rw [hpeek] at hrest
    · obtain ⟨rfl, rfl⟩ := Run.pure_eq_ok.mp hrest
      refine ⟨x.recognizer, s₁, rfl, rfl, ?_, by simp⟩
      intro cs hs
      obtain ⟨hnone, hs₁, hindex, -⟩ := hs.of_peek_eq hpeek
      have hge := List.getElem?_eq_none_iff.mp hnone.symm
      exact ⟨hs₁, hindex.trans (hs.index_consume_of_ge hge).symm⟩
    · obtain ⟨mid, h, last, hlift, hpure, rfl⟩ := Run.bind_eq_ok.mp hrest
      obtain ⟨hhead, rfl⟩ := Run.ofExcept_eq_ok.mp hlift
      obtain ⟨rfl, rfl⟩ := Run.pure_eq_ok.mp hpure
      obtain ⟨r, s', hconsume, rfl⟩ := Head.consume_eq_ok.mp hhead
      rcases TableRecognizer.consume_eq_ok hconsume with ⟨hnone, rfl, rfl⟩ | ⟨_, p, -, -, rfl, rfl⟩
      · refine ⟨x.recognizer, s₁.peek.2, rfl, rfl, ?_, by simp⟩
        intro cs hs
        obtain ⟨hsome, hs₁, hindex, -⟩ := hs.of_peek_eq hpeek
        rw [hs₁.peek_fst, hindex, ← hsome] at hnone
        cases hnone
      · refine ⟨{ x.recognizer with caret := p }, s₁.peek.2.consume, rfl, rfl, ?_, by simp⟩
        intro cs hs
        obtain ⟨-, hs₁, hindex, -⟩ := hs.of_peek_eq hpeek
        have hahead := hs₁.peek
        refine ⟨hahead.consume, ?_⟩
        rw [hahead.index_consume, hs.index_consume, CharStream.index_peek, hindex]
  · rw [if_neg htracks] at hrest
    obtain ⟨rfl, rfl⟩ := Run.pure_eq_ok.mp hrest
    exact ⟨x.recognizer, s.consume, rfl, rfl, fun cs hs => ⟨hs.consume, rfl⟩, by simp⟩

/-- The lexers have the same tables and listeners, stand abreast, and agree
about everything that a decision can depend on. -/
def Kin (x y : Lexer TableRecognizer) : Prop :=
  ∃ s t, x.stream? = some s ∧ y.stream? = some t ∧ (x.head s).Kin (y.head t)
    ∧ y.listeners = x.listeners

namespace Kin

theorem of_repositions_left {c : Command TableRecognizer} (h : x.Kin y) (hc : c.Repositions)
    {entry : Entry TableRecognizer} (hperform : c.perform x = entry.run) :
    entry.lexer.Kin y := by
  obtain ⟨s, t, hs, ht, ⟨hautomaton, hstreams, hstate⟩, hlisteners⟩ := h
  cases hc <;>
    (obtain ⟨hlexer, -⟩ := Prod.mk.inj (Except.ok.inj (Run.mk.inj hperform).2)
     rw [← hlexer]
     exact ⟨s, t, hs, ht, ⟨hautomaton, hstreams, hstate⟩, hlisteners⟩)

theorem of_repositions_right {c : Command TableRecognizer} (h : x.Kin y) (hc : c.Repositions)
    {entry : Entry TableRecognizer} (hperform : c.perform y = entry.run) :
    x.Kin entry.lexer := by
  obtain ⟨s, t, hs, ht, ⟨hautomaton, hstreams, hstate⟩, hlisteners⟩ := h
  cases hc <;>
    (obtain ⟨hlexer, -⟩ := Prod.mk.inj (Except.ok.inj (Run.mk.inj hperform).2)
     rw [← hlexer]
     exact ⟨s, t, hs, ht, ⟨hautomaton, hstreams, hstate⟩, hlisteners⟩)

theorem nextToken {result result' : Except LexerError Token} (h : x.Kin y)
    (hcall : x.nextToken = { events, outcome := .ok (x', result) })
    (hcall' : y.nextToken = { events := events', outcome := .ok (y', result') }) :
    x'.Kin y' ∧ result'.map Token.outline = result.map Token.outline
      ∧ places events' = places events := by
  obtain ⟨s, t, hs, ht, ⟨hautomaton, hstreams, hstate⟩, hlisteners⟩ := h
  obtain ⟨h, u, hcourse, hreleased, rfl⟩ :=
    produces_of_nextToken TableRecognizer.advances hs hcall
  obtain ⟨k, v, hcourse', hreleased', rfl⟩ :=
    produces_of_nextToken TableRecognizer.advances ht hcall'
  have hmarked : (x.marked s).Kin (y.marked t) := ⟨hautomaton, hstreams.mark, hstate⟩
  obtain ⟨hkin, hresult, hplaces⟩ := hcourse.kin hmarked hlisteners hcourse'
  refine ⟨⟨u, v, rfl, rfl, ⟨hkin.automaton, ?_, hkin.state⟩, hlisteners⟩, hresult, hplaces⟩
  exact hkin.streams.released hreleased hreleased'

theorem recover {e e' : RecognitionError} (h : x.Kin y)
    (hrecover : x.recover e = { events, outcome := .ok x' })
    (hrecover' : y.recover e' = { events := events', outcome := .ok y' }) :
    x'.Kin y' ∧ places events' = places events := by
  obtain ⟨s, t, hs, ht, ⟨hautomaton, hstreams, hstate⟩, hlisteners⟩ := h
  obtain ⟨r, s', rfl, hr, hdropped, rfl⟩ := dropped_of_recover hs hrecover
  obtain ⟨r', t', rfl, hr', hdropped', rfl⟩ := dropped_of_recover ht hrecover'
  refine ⟨⟨s', t', rfl, rfl, ⟨?_, ?_, hstate⟩, hlisteners⟩, rfl⟩
  · exact hr'.trans (hautomaton.trans hr.symm)
  · show Abreast r.automaton s' t'
    rw [hr]
    exact hstreams.dropped hdropped hdropped'

theorem act {a : Action} {failure failure' : Option LexerError} (h : x.Kin y)
    (hact : x.act a = { events, outcome := .ok (x', failure) })
    (hact' : y.act a = { events := events', outcome := .ok (y', failure') }) :
    x'.Kin y' ∧ failure' = failure ∧ places events' = places events := by
  obtain ⟨s, t, hs, ht, ⟨hautomaton, hstreams, hstate⟩, hlisteners⟩ := h
  obtain ⟨⟨state, f⟩, hperform, heq⟩ := Run.bind_pure_eq_ok.mp hact
  obtain ⟨⟨state', f'⟩, hperform', heq'⟩ := Run.bind_pure_eq_ok.mp hact'
  obtain ⟨rfl, rfl⟩ := Prod.mk.inj heq
  obtain ⟨rfl, rfl⟩ := Prod.mk.inj heq'
  obtain ⟨rfl, hstate'⟩ := hstate.perform hperform hperform'
  obtain ⟨-, -, -, hquiet, -⟩ := State.perform_frame hperform
  obtain ⟨-, -, -, hquiet', -⟩ := State.perform_frame hperform'
  refine ⟨⟨s, t, hs, ht, ⟨hautomaton, hstreams, hstate'⟩, hlisteners⟩, rfl, ?_⟩
  rw [places_of_quiet hquiet, places_of_quiet hquiet']

/-- Behind kindred lexers stand entries that agree. -/
theorem entry {e f : Entry TableRecognizer} (h : e.lexer.Kin f.lexer)
    (hreply : e.reply.Kin f.reply) (hplaces : places f.events = places e.events) : e.Kin f := by
  obtain ⟨s, t, hs, ht, ⟨-, hstreams, hstate⟩, -⟩ := h
  refine ⟨hreply, hplaces, ?_, hstate.mode, hstate.modeStack, hstate.eofSeen⟩
  simp only [index, hs, ht]
  exact hstreams.index

/-- A step that both lexers take leads to entries that agree. -/
theorem step {c d : Command TableRecognizer} (h : x.Kin y) (hcd : c.SameStep d)
    {e f : Entry TableRecognizer} (he : c.perform x = e.run) (hf : d.perform y = f.run) :
    e.Kin f ∧ e.lexer.Kin f.lexer := by
  obtain ⟨events, reply, x'⟩ := e
  obtain ⟨events', reply', y'⟩ := f
  cases hcd with
  | next =>
      obtain ⟨result, hcall, rfl⟩ := Command.perform_next_eq_ok.mp he
      obtain ⟨result', hcall', rfl⟩ := Command.perform_next_eq_ok.mp hf
      obtain ⟨hkin, hresult, hplaces⟩ := h.nextToken hcall hcall'
      exact ⟨entry hkin (.token hresult) hplaces, hkin⟩
  | recover e e' =>
      obtain ⟨hcall, rfl⟩ := Command.perform_recover_eq_ok.mp he
      obtain ⟨hcall', rfl⟩ := Command.perform_recover_eq_ok.mp hf
      obtain ⟨hkin, hplaces⟩ := h.recover hcall hcall'
      exact ⟨entry hkin .done hplaces, hkin⟩
  | act a =>
      obtain ⟨failure, hcall, rfl⟩ := Command.perform_act_eq_ok.mp he
      obtain ⟨failure', hcall', rfl⟩ := Command.perform_act_eq_ok.mp hf
      obtain ⟨hkin, rfl, hplaces⟩ := h.act hcall hcall'
      refine ⟨entry hkin ?_ hplaces, hkin⟩
      cases failure' with
      | none => exact .done
      | some e => exact .failure e

end Kin

/-! ## Sessions -/

variable {xs ys : List (Command TableRecognizer)} {es fs : List (Entry TableRecognizer)}

theorem guided_eq_nil (hy : Trace y ys fs) (hnone : ys.filter Command.guides = []) :
    guided ys fs = [] := by
  induction hy with
  | nil => rfl
  | @cons _ c _ _ _ _ _ ih =>
      by_cases hc : c.guides = true
      · rw [List.filter_cons_of_pos hc] at hnone
        cases hnone
      · rw [guided_cons, if_neg hc]
        rw [List.filter_cons_of_neg hc] at hnone
        exact ih hnone

/-- A session comes to its next step with a lexer that is still kindred. -/
theorem Kin.next_step {d : Command TableRecognizer} {ds : List (Command TableRecognizer)}
    (h : x.Kin y) (hy : Trace y ys fs)
    (hsteps : ys.filter Command.guides = d :: ds)
    (hothers : ∀ c ∈ ys, c.guides = true ∨ c.Repositions) :
    ∃ y' f ys' fs', x.Kin y' ∧ d.perform y' = f.run ∧ Trace f.lexer ys' fs'
      ∧ ys'.filter Command.guides = ds ∧ (∀ c ∈ ys', c.guides = true ∨ c.Repositions)
      ∧ guided ys fs = f :: guided ys' fs' := by
  induction hy with
  | nil => cases hsteps
  | @cons y c ys f fs hstep hrest ih =>
      have htail : ∀ c ∈ ys, c.guides = true ∨ c.Repositions :=
        fun c hc => hothers c (List.mem_cons_of_mem _ hc)
      by_cases hc : c.guides = true
      · rw [List.filter_cons_of_pos hc] at hsteps
        obtain ⟨rfl, rfl⟩ := List.cons.inj hsteps
        exact ⟨y, f, ys, fs, h, hstep, hrest, rfl, htail, by rw [guided_cons, if_pos hc]⟩
      · rw [List.filter_cons_of_neg hc] at hsteps
        have hmoved := (hothers c (List.mem_cons_self ..)).resolve_left hc
        obtain ⟨y', f', ys', fs', hkin, hperform, htrace, hfilter, hall, hguided⟩ :=
          ih (h.of_repositions_right hmoved hstep) hsteps htail
        refine ⟨y', f', ys', fs', hkin, hperform, htrace, hfilter, hall, ?_⟩
        rw [guided_cons, if_neg hc, hguided]

theorem Kin.trace (h : x.Kin y) (hx : Trace x xs es) (hy : Trace y ys fs)
    (hsteps : List.Forall₂ Command.SameStep (xs.filter Command.guides)
      (ys.filter Command.guides))
    (hxs : ∀ c ∈ xs, c.guides = true ∨ c.Repositions)
    (hys : ∀ c ∈ ys, c.guides = true ∨ c.Repositions) :
    List.Forall₂ Entry.Kin (guided xs es) (guided ys fs) := by
  -- on the first session; the second is followed to each of its steps
  induction hx generalizing y ys fs with
  | nil =>
      have hnone : ys.filter Command.guides = [] := List.forall₂_nil_left_iff.mp hsteps
      rw [guided_eq_nil hy hnone]
      exact .nil
  | @cons x c xs e es hstep _ ih =>
      have htail : ∀ c ∈ xs, c.guides = true ∨ c.Repositions :=
        fun c hc => hxs c (List.mem_cons_of_mem _ hc)
      by_cases hc : c.guides = true
      · rw [List.filter_cons_of_pos hc] at hsteps
        obtain ⟨d, ds, hcd, hrest, heq⟩ := List.forall₂_cons_left_iff.mp hsteps
        obtain ⟨y', f, ys', fs', hkin, hperform, htrace, hfilter, hall, hguided⟩ :=
          h.next_step hy heq hys
        obtain ⟨halike, hafter⟩ := hkin.step hcd hstep hperform
        rw [guided_cons, if_pos hc, hguided]
        exact .cons halike (ih hafter htrace (hfilter.symm ▸ hrest) htail hall)
      · rw [List.filter_cons_of_neg hc] at hsteps
        rw [guided_cons, if_neg hc]
        have hmoved := (hxs c (List.mem_cons_self ..)).resolve_left hc
        exact ih (h.of_repositions_left hmoved hstep) hy hsteps htail hys

end Lexer

/-- What is recognized depends on the columns of the characters and on the
modes, and on nothing else. -/
theorem recognition_ignores_position (x y : Lexer TableRecognizer) (s t : CharStream)
    (cs ds : List Char) (hautomaton : y.recognizer.automaton = x.recognizer.automaton)
    (hlisteners : y.listeners = x.listeners) (hs : s.Shows cs) (ht : t.Shows ds)
    (hindex : t.index = s.index)
    (hcolumns : ds.map x.recognizer.automaton.column? = cs.map x.recognizer.automaton.column?)
    (xs ys : List (Command TableRecognizer)) (es fs : List (Entry TableRecognizer))
    (hx : Trace (x.attach s) xs es) (hy : Trace (y.attach t) ys fs)
    (hsteps : List.Forall₂ Command.SameStep (xs.filter Command.guides)
      (ys.filter Command.guides))
    (hxs : ∀ c ∈ xs, c.guides = true ∨ c.Repositions)
    (hys : ∀ c ∈ ys, c.guides = true ∨ c.Repositions) :
    List.Forall₂ Entry.Kin (guided xs es) (guided ys fs) := by
  have hstreams : Abreast x.recognizer.automaton s t := ⟨cs, ds, hs, ht, hindex, hcolumns⟩
  have hkin : (x.attach s).Kin (y.attach t) :=
    ⟨s, t, rfl, rfl, ⟨hautomaton, hstreams, ⟨rfl, rfl, rfl, rfl, rfl, rfl, rfl⟩⟩, hlisteners⟩
  exact hkin.trace hx hy hsteps hxs hys

/-- A word, a blank, a number and two characters that are refused, at other
positions and with other tab stops, the one session tracking the character that
it drops and the other not. -/
theorem recognition_ignores_position_moved :
    let lx : Lexer TableRecognizer := { recognizer := { automaton := Sample.quotations } }
    let xs : List (Command TableRecognizer) :=
      [.setLine 7, .next, .next, .recover (.noRule {}), .act .popMode, .next]
    let ys : List (Command TableRecognizer) :=
      [.adjust (·.setTabWidth 8), .next, .setOptions { recoverTracksPosition := false }, .next,
        .recover (.noRule { line := 7 }), .setColumn 40, .act .popMode, .next]
    ∃ es fs, Trace (lx.attach (.ofString "ab\t1?2")) xs es
      ∧ Trace (lx.attach (.ofString "xé 3!4")) ys fs
      ∧ List.Forall₂ Entry.Kin (guided xs es) (guided ys fs) := by
  intro lx xs ys
  obtain ⟨es, hx⟩ : ∃ es, Trace (lx.attach (.ofString "ab\t1?2")) xs es :=
    exists_trace_of_isSome (by decide +kernel)
  obtain ⟨fs, hy⟩ : ∃ fs, Trace (lx.attach (.ofString "xé 3!4")) ys fs :=
    exists_trace_of_isSome (by decide +kernel)
  refine ⟨es, fs, hx, hy, ?_⟩
  have hsteps : List.Forall₂ Command.SameStep (xs.filter Command.guides)
      (ys.filter Command.guides) :=
    .cons .next (.cons .next (.cons (.recover ..) (.cons (.act _) (.cons .next .nil))))
  refine recognition_ignores_position lx lx (.ofString "ab\t1?2") (.ofString "xé 3!4")
    "ab\t1?2".toList "xé 3!4".toList rfl rfl (CharStream.shows_ofString ..)
    (CharStream.shows_ofString ..) rfl (by decide +kernel) xs ys es fs hx hy hsteps ?_ ?_
  · simp [xs, Command.guides, Command.Repositions.setLine]
  · simp [ys, Command.guides, Command.Repositions.setColumn, Command.Repositions.setOptions,
      Command.Repositions.setTabWidth]

end ModalLexer
