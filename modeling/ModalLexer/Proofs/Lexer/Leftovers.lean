import ModalLexer.Proofs.Lexer.Call
import ModalLexer.Proofs.Lexer.Lockstep
import ModalLexer.Sample

/-!
# What is left over between calls

A call leaves its candidate, its token and its error behind, and the user can
set most of it between two calls. None of this finds its way into the next
call: a candidate begins by overwriting what the last one has left, and a call
that only gives out the sentinel does not look at it.

So the actions by which a rule shapes its token are idle between calls. A
session with any number of them put in, at any places, is the session without
them (`performAll_purge`).
-/

namespace ModalLexer

open Run (Parallel)
open Lockstep

/-! ## Two calls -/

/-- The state without what is left over from a call. -/
def State.swept (s : State) : State := { s with candidate := {}, token? := none }

namespace Lexer

variable {ρ : Type}

/-- The lexer without what is left over from its last call. -/
def swept (lx : Lexer ρ) : Lexer ρ := { lx with state := lx.state.swept, error? := none }

def withState (lx : Lexer ρ) (state : State) : Lexer ρ := { lx with state }

def withCandidate (lx : Lexer ρ) (candidate : Candidate) : Lexer ρ :=
  { lx with state := { lx.state with candidate } }

/-- Two lexers that are the same once they are swept differ in what is swept. -/
theorem eq_of_swept_eq {x y : Lexer ρ} (h : x.swept = y.swept) :
    ∃ candidate token? error?,
      y = { x with state := { x.state with candidate, token? }, error? } := by
  obtain ⟨_, _, _, _, ⟨⟩, _, _, _⟩ := x
  obtain ⟨_, _, _, _, ⟨⟩, _, _, _⟩ := y
  simp only [swept, State.swept, Lexer.mk.injEq, State.mk.injEq] at h
  obtain ⟨rfl, rfl, rfl, rfl, ⟨rfl, rfl, -, rfl, -, rfl⟩, rfl, -, rfl⟩ := h
  exact ⟨_, _, _, rfl⟩

variable [Recognizer ρ] {x y : Lexer ρ} {s : CharStream}

/-- A call that begins a candidate depends on no more than where it begins. -/
theorem produce_eq_of_begun_eq {h k : Head ρ} (hbegun : h.begun = k.begun)
    (hunseen : h.state.eofSeen = false) (reporter : Reporter) (matchLimit limit : Nat) :
    h.produce reporter matchLimit limit = k.produce reporter matchLimit limit := by
  have hseen : k.state.eofSeen = h.state.eofSeen :=
    (congrArg (fun h => h.state.eofSeen) hbegun).symm
  have hhere : h.here = k.here :=
    Option.some.inj (congrArg (fun h => h.state.candidate.start?) hbegun)
  cases limit with
  | zero => rfl
  | succ n =>
      unfold Head.produce
      rw [if_neg (by simp [hunseen]), if_neg (by simp [hseen, hunseen])]
      change (Head.assemble reporter matchLimit h.begun >>= _)
        = Head.assemble reporter matchLimit k.begun >>= _
      rw [hbegun, hhere]

/-- Nothing that is left over finds its way into a call with a candidate. -/
theorem nextToken_eq_of_swept_eq (hstream : x.stream? = some s) (h : x.swept = y.swept)
    (hunseen : x.state.eofSeen = false) : x.nextToken = y.nextToken := by
  obtain ⟨candidate, token?, error?, rfl⟩ := eq_of_swept_eq h
  have hproduce := produce_eq_of_begun_eq (h := x.head s.mark.2)
    (k := { x.head s.mark.2 with state := { x.state with candidate, token? } })
    rfl hunseen x.reporter s.mark.2.stepLimit s.mark.2.stepLimit
  simp only [nextToken, hstream]
  rw [hproduce]
  refine bind_congr fun r => bind_congr fun u => ?_
  cases r.2 <;> rfl

/-- A call that gives out the sentinel leaves the candidate as it is, and
depends on nothing else of what is left over. -/
theorem nextToken_eq_withCandidate (hstream : x.stream? = some s) (h : x.swept = y.swept)
    (hseen : x.state.eofSeen = true) :
    y.nextToken = (fun r => (r.1.withCandidate y.state.candidate, r.2)) <$> x.nextToken := by
  obtain ⟨candidate, token?, error?, rfl⟩ := eq_of_swept_eq h
  obtain ⟨u, hrelease, hcall⟩ := nextToken_of_seen hstream hseen
  have hother : Lexer.stream? { x with state := { x.state with candidate, token? }, error? }
      = some s := hstream
  obtain ⟨u', hrelease', hcall'⟩ := nextToken_of_seen hother hseen
  have hu : u = u' := (Run.pure_eq_ok.mp (hrelease'.symm.trans hrelease)).1
  rw [hcall', hcall, ← hu, ← comp_map]
  rfl

end Lexer

/-! ## Sessions -/

/-- The action shapes the token of a rule, and leaves mode and place alone. -/
def Action.isIdle : Action → Bool
  | .skip | .more | .setType _ | .setChannel _ | .setText _ | .emit _ => true
  | _ => false

/-- What a state is apart from what idle actions set. -/
def State.unshaped (s : State) : State :=
  { s with candidate := { start? := s.candidate.start? }, token? := none }

def Lexer.unshaped {ρ : Type} (lx : Lexer ρ) : Lexer ρ := { lx with state := lx.state.unshaped }

/-- An idle action always succeeds, and lets nothing be seen. -/
theorem State.exists_act_of_isIdle (s : State) {a : Action} (hidle : a.isIdle = true) :
    ∃ t, s.act a = .ok t ∧ s.actEvents a = [] ∧ t.unshaped = s.unshaped := by
  cases a
  case setMode | pushMode | popMode => cases hidle
  all_goals exact ⟨_, rfl, rfl, rfl⟩

namespace Lexer

variable {ρ : Type} {x y : Lexer ρ}

theorem eq_of_unshaped_eq (h : y.unshaped = x.unshaped) :
    ∃ state, y = x.withState state ∧ state.unshaped = x.state.unshaped := by
  obtain ⟨⟩ := x
  obtain ⟨⟩ := y
  simp only [unshaped, Lexer.mk.injEq] at h
  obtain ⟨rfl, rfl, rfl, rfl, hstate, rfl, rfl, rfl⟩ := h
  exact ⟨_, rfl, hstate⟩

theorem swept_eq_of_unshaped_eq (h : y.unshaped = x.unshaped) : x.swept = y.swept := by
  obtain ⟨state, rfl, hstate⟩ := eq_of_unshaped_eq h
  have hswept : state.unshaped.swept = x.state.unshaped.swept := congrArg State.swept hstate
  change { x with state := x.state.unshaped.swept, error? := none } = _
  rw [← hswept]
  rfl

variable [Recognizer ρ]

/-- Lexers that differ in what idle actions set go through calls in lockstep. -/
theorem lockstep_unshaped :
    Lockstep id id fun x y : Lexer ρ => y.unshaped = x.unshaped where
  isEof_look _ := rfl
  channel_look _ := rfl
  render_look _ := rfl
  stepLimit := by
    intro x y h
    obtain ⟨state, rfl, -⟩ := eq_of_unshaped_eq h
    rfl
  nextToken := by
    intro x y h
    have hswept := swept_eq_of_unshaped_eq h
    have hstart : y.state.candidate.start? = x.state.candidate.start? :=
      congrArg (fun lx => lx.state.candidate.start?) h
    cases hstream : x.stream? with
    | none =>
        obtain ⟨state, rfl, hstate⟩ := eq_of_unshaped_eq h
        simp only [nextToken, show (x.withState state).stream? = none from hstream, hstream]
        refine .pure ⟨?_, rfl⟩
        simp only [remember, unshaped, withState, hstate, hstream]
    | some s =>
        by_cases hseen : x.state.eofSeen = true
        · -- both calls are the one of `x`, with the candidate that was there
          rw [nextToken_eq_withCandidate hstream hswept hseen,
            nextToken_eq_withCandidate (y := x) hstream rfl hseen, ← comp_map]
          refine Parallel.map (.of_eq rfl) ?_
          rintro ⟨lx, result⟩ _ rfl
          refine ⟨?_, rfl⟩
          simp only [Function.comp, withCandidate, unshaped, State.unshaped, hstart]
        · have heq := nextToken_eq_of_swept_eq hstream hswept (Bool.eq_false_iff.mpr hseen)
          refine (Parallel.of_eq heq.symm).imp ?_
          rintro a _ rfl
          exact ⟨rfl, rfl⟩

end Lexer

theorem Reply.seen_id (reply : Reply) : reply.seen id id = reply := by
  have hid : ∀ {ε α : Type} (r : Except ε α), r.map id = r := by rintro ε α (e | a) <;> rfl
  cases reply <;> simp [Reply.seen, hid]

/-! ### Commands that do not look at what idle actions set -/

section WithState

variable {ρ : Type}

def Head.withState (h : Head ρ) (state : State) : Head ρ := { h with state }

theorem Head.quote_withState (h : Head ρ) (state : State) (start : Start) :
    (h.withState state).quote start
      = ((h.quote start).1, (h.quote start).2.withState state) := by
  rw [quote_eq, quote_eq]
  change (if (h.stream.slice start.index (h.index + 1)).isEmpty = true then _ else _) = _
  by_cases hempty : (h.stream.slice start.index (h.index + 1)).isEmpty = true
  · rw [if_pos hempty, if_pos hempty]
    rfl
  · rw [if_neg hempty, if_neg hempty]
    rfl

variable [Recognizer ρ] {lx : Lexer ρ} {state : State}

/-- A report depends on where the candidate began, and on nothing else of the
state. -/
theorem Head.report_withState {h : Head ρ} (reporter : Reporter) (e : RecognitionError)
    (hstart : state.candidate.start? = h.state.candidate.start?) :
    (h.withState state).report reporter e = (·.withState state) <$> h.report reporter e := by
  rw [report_eq, report_eq, quote_withState]
  simp only [withState, hstart]
  rfl

theorem Head.consume_withState (h : Head ρ) (state : State) :
    (h.withState state).consume = h.consume.map (·.withState state) := by
  simp only [consume, withState]
  cases Recognizer.consume h.recognizer h.stream <;> rfl

theorem Lexer.notify_withState (e : RecognitionError)
    (hstart : state.candidate.start? = lx.state.candidate.start?) :
    (lx.withState state).notify e = (·.withState state) <$> lx.notify e := by
  cases hstream : lx.stream? with
  | none =>
      simp only [notify, show (lx.withState state).stream? = none from hstream, hstream]
      rfl
  | some s =>
      have hreport := Head.report_withState (h := lx.head s) lx.reporter e hstart
      simp only [notify, show (lx.withState state).stream? = some s from hstream, hstream]
      change (Head.report ((lx.head s).withState state) lx.reporter e >>= _) = _
      rw [hreport]
      rfl

theorem Lexer.recover_withState (e : RecognitionError) :
    (lx.withState state).recover e = (·.withState state) <$> lx.recover e := by
  cases hstream : lx.stream? with
  | none =>
      simp only [recover, show (lx.withState state).stream? = none from hstream, hstream]
      rfl
  | some s =>
      simp only [recover, show (lx.withState state).stream? = some s from hstream, hstream]
      change (Run.emit [.recovering e] >>= fun _ => if lx.options.recoverTracksPosition = true
        then _ else _) = _
      by_cases htracks : lx.options.recoverTracksPosition = true
      · rw [if_pos htracks, if_pos htracks]
        simp only [Head.peek, head, withState]
        rcases s.peek with ⟨_ | c, t⟩
        · rfl
        · have hconsume := Head.consume_withState { lx.head s with stream := t } state
          simp only [Head.withState, head] at hconsume
          simp only [hconsume]
          generalize (Head.mk t lx.recognizer lx.state).consume = r
          cases r <;> rfl
      · rw [if_neg htracks, if_neg htracks]
        rfl

omit [Recognizer ρ] in
/-- What treats a lexer alike whatever the rest of its state is, keeps lexers
alike that differ in what idle actions set. -/
theorem Lexer.parallel_withState (f : Lexer ρ → Run (Lexer ρ))
    (hf : ∀ t : State, t.candidate.start? = lx.state.candidate.start? →
      f (lx.withState t) = (·.withState t) <$> f lx)
    (hstate : state.unshaped = lx.state.unshaped) :
    Parallel id (fun x y => y.unshaped = x.unshaped) (f lx) (f (lx.withState state)) := by
  have hstart : state.candidate.start? = lx.state.candidate.start? :=
    congrArg (fun s => s.candidate.start?) hstate
  have hself : f lx = (·.withState lx.state) <$> f lx := hf lx.state rfl
  rw [hf state hstart, hself, ← comp_map]
  refine Parallel.map (.of_eq rfl) ?_
  rintro a _ rfl
  simp only [Function.comp, withState, unshaped, hstate]

end WithState

/-- An action does the same to the rest of the state, whatever idle actions
have set. -/
theorem State.act_unshaped {s t : State} (h : t.unshaped = s.unshaped) (a : Action) :
    t.actEvents a = s.actEvents a
      ∧ ((∃ e, s.act a = .error e ∧ t.act a = .error e)
        ∨ ∃ s' t', s.act a = .ok s' ∧ t.act a = .ok t' ∧ t'.unshaped = s'.unshaped) := by
  obtain ⟨hmode, hstack, -⟩ := State.mk.inj h
  obtain ⟨hevents, hact⟩ := State.act_alike hmode hstack a
  refine ⟨hevents, hact.imp_right ?_⟩
  rintro ⟨mode, modeStack, hs, ht⟩
  exact ⟨_, _, hs, ht, congrArg (fun u => { u with mode, modeStack }) h⟩

namespace Command

variable {ρ : Type} [Recognizer ρ] {x y : Lexer ρ}

def isIdle : Command ρ → Bool
  | .act a => a.isIdle
  | _ => false

/-- The commands that are not idle. -/
def purge (commands : List (Command ρ)) : List (Command ρ) :=
  commands.filter fun c => !c.isIdle

/-- Of the answers to some commands, those to the ones that are not idle. -/
def answers (commands : List (Command ρ)) (replies : List Reply) : List Reply :=
  ((commands.zip replies).filter fun r => !r.1.isIdle).map Prod.snd

theorem perform_idle {c : Command ρ} (hidle : c.isIdle = true) (lx : Lexer ρ) :
    ∃ lx', c.perform lx = pure (lx', .done) ∧ lx'.unshaped = lx.unshaped := by
  cases c
  case act a =>
      obtain ⟨t, hact, hevents, ht⟩ := lx.state.exists_act_of_isIdle hidle
      refine ⟨{ lx with state := t }, ?_, congrArg (fun s => { lx with state := s }) ht⟩
      simp only [perform, Lexer.act, State.perform, hact, hevents]
      rfl
  all_goals cases hidle

/-- A command answers the same whatever idle actions came before it. -/
theorem perform_unshaped (c : Command ρ) (h : y.unshaped = x.unshaped) :
    Parallel id (Beside (fun x y : Lexer ρ => y.unshaped = x.unshaped) id) (c.perform x)
      (c.perform y) := by
  have hdraws : c.Draws → Parallel id
      (Beside (fun x y : Lexer ρ => y.unshaped = x.unshaped) id) (c.perform x) (c.perform y) := by
    intro hc
    refine (Lexer.lockstep_unshaped.perform h hc id).imp fun a b hab => ⟨hab.1, ?_⟩
    simpa only [Reply.seen_id, id] using hab.2
  obtain ⟨state, rfl, hstate⟩ := Lexer.eq_of_unshaped_eq h
  cases c with
  | next | nextMany | all | iterate | split | join => exact hdraws trivial
  | attach stream =>
      -- neither the count nor what is attached depends on the state
      refine (Parallel.ofExcept (Run.Ends.of_eq rfl)).bind ?_
      rintro lx _ rfl
      exact .pure ⟨rfl, rfl⟩
  | detach | listen | unlisten | setLine | setColumn | setOptions | adjust =>
      refine Parallel.pure ⟨?_, rfl⟩
      simp only [Lexer.unshaped, Lexer.withState, Lexer.detach, Lexer.setCaret, Lexer.caret, hstate]
  | reset =>
      simp only [perform, Lexer.reset]
      cases hstream : x.stream? with
      | none =>
          simp only [show (x.withState state).stream? = none from hstream]
          exact .pure ⟨rfl, rfl⟩
      | some s =>
          simp only [show (x.withState state).stream? = some s from hstream]
          cases s.seek 0 with
          | ok t => exact .pure ⟨rfl, rfl⟩
          | error cause => exact .pure ⟨h, rfl⟩
  | notify e =>
      refine (Lexer.parallel_withState (·.notify e)
        (fun _ => Lexer.notify_withState e) hstate).bind ?_
      intro a b hab
      exact .pure ⟨hab, rfl⟩
  | recover e =>
      refine (Lexer.parallel_withState (·.recover e)
        (fun _ _ => Lexer.recover_withState e) hstate).bind ?_
      intro a b hab
      exact .pure ⟨hab, rfl⟩
  | act a =>
      obtain ⟨hevents, hact⟩ := State.act_unshaped hstate a
      simp only [perform, Lexer.act, State.perform, Lexer.withState, hevents]
      rcases hact with ⟨e, hx, hy⟩ | ⟨s', t', hx, hy, hst⟩
      · simp only [hx, hy]
        exact ⟨rfl, .ok ⟨congrArg (fun s => { x with state := s }) hstate, rfl⟩⟩
      · simp only [hx, hy]
        exact ⟨rfl, .ok ⟨congrArg (fun s => { x with state := s }) hst, rfl⟩⟩

/-! ### Whole sessions -/

/-- A session goes as the one without its idle commands. -/
theorem performAll_purge : ∀ (commands : List (Command ρ)) {x y : Lexer ρ},
    y.unshaped = x.unshaped →
      Parallel id (fun a b => b.1.unshaped = a.1.unshaped ∧ b.2 = answers commands a.2)
        (performAll commands x) (performAll (purge commands) y)
  | [], _, _, h => .pure ⟨h, rfl⟩
  | c :: commands, x, y, h => by
      by_cases hidle : c.isIdle = true
      · -- the idle command is made up for by what is left over in `y`
        obtain ⟨x', hperform, hx'⟩ := perform_idle hidle x
        have hrest := performAll_purge commands (h.trans hx'.symm)
        have hpurge : purge (c :: commands) = purge commands := by simp [purge, hidle]
        rw [hpurge, performAll, hperform, pure_bind, ← id_map (performAll (purge commands) y)]
        refine hrest.map ?_
        rintro ⟨lx, replies⟩ ⟨lx', replies'⟩ ⟨hlexers, rfl⟩
        exact ⟨hlexers, by simp [answers, hidle]⟩
      · have hpurge : purge (c :: commands) = c :: purge commands := by simp [purge, hidle]
        rw [hpurge, performAll, performAll]
        refine (perform_unshaped c h).bind ?_
        rintro ⟨x', reply⟩ ⟨y', _⟩ ⟨hlexers, rfl⟩
        refine (performAll_purge commands hlexers).map ?_
        rintro ⟨lx, replies⟩ ⟨lx', replies'⟩ ⟨hlexers', rfl⟩
        exact ⟨hlexers', by simp [answers, hidle]⟩

end Command

/-- Two lexers that differ in candidate, token and error do the same in the next
call, and afterwards differ in the candidate at most, and only if the end of the
stream had been seen. Hence two sessions with one lexer that differ in idle
commands only let the same be seen, and give the same answers to all other
commands. -/
theorem leftovers_change_nothing {ρ : Type} [Recognizer ρ] :
    (∀ {x y : Lexer ρ} {s : CharStream}, x.stream? = some s → x.swept = y.swept →
        (x.state.eofSeen = false → x.nextToken = y.nextToken)
          ∧ (fun r => (r.1.withCandidate {}, r.2)) <$> x.nextToken
            = (fun r => (r.1.withCandidate {}, r.2)) <$> y.nextToken)
      ∧ ∀ {commands others : List (Command ρ)} (lx : Lexer ρ),
        Command.purge commands = Command.purge others →
          (fun r => (r.1.unshaped, Command.answers commands r.2)) <$>
              Command.performAll commands lx
            = (fun r => (r.1.unshaped, Command.answers others r.2)) <$>
              Command.performAll others lx := by
  constructor
  · intro x y s hstream h
    refine ⟨Lexer.nextToken_eq_of_swept_eq hstream h, ?_⟩
    by_cases hseen : x.state.eofSeen = true
    · rw [Lexer.nextToken_eq_withCandidate hstream h hseen, ← comp_map]
      rfl
    · rw [Lexer.nextToken_eq_of_swept_eq hstream h (Bool.eq_false_iff.mpr hseen)]
  · intro commands others lx hpurge
    have hpurged := fun cs : List (Command ρ) =>
      (Command.performAll_purge cs (x := lx) rfl).map_eq
        (f := fun r => (r.1.unshaped, Command.answers cs r.2))
        (g := fun r => (r.1.unshaped, r.2)) fun a b hab => Prod.ext hab.1 hab.2
    rw [← hpurged, ← hpurged, hpurge]

/-- Neither a token that was emitted nor a decision that was taken between calls
shows in the next one. -/
theorem leftovers_change_nothing_wavering :
    let lx : Lexer ScriptRecognizer :=
      Lexer.attach { recognizer := Sample.wavering } (.ofString " abc")
    let t : Token := {
      type := 6, channel := 2, text := "abc", start := 1, stop := 3, line := 1, column := 2
      source := { attachment := 1 } }
    let stray : Token := { t with type := 9 }
    let plain : List (Command ScriptRecognizer) := [.next]
    let filled : List (Command ScriptRecognizer) := [.act .more, .act (.emit stray), .next]
    let littered : Lexer ScriptRecognizer := { lx with
      state := { candidate := { type? := some .more }, token? := some stray }
      error? := some (.unknownMode 3) }
    (∃ events lx', littered.nextToken = { events, outcome := .ok (lx', .ok t) })
      ∧ (fun r => (r.1.unshaped, Command.answers filled r.2)) <$> Command.performAll filled lx
        = (fun r => (r.1.unshaped, Command.answers plain r.2)) <$>
          Command.performAll plain lx := by
  intro lx t stray plain filled littered
  have hcall : ∃ events lx', lx.nextToken = { events, outcome := .ok (lx', .ok t) } :=
    Lexer.exists_nextToken_of_token (by decide +kernel)
  obtain ⟨events, lx', hcall⟩ := hcall
  refine ⟨⟨events, lx', ?_⟩, ?_⟩
  · have hswept : lx.swept = littered.swept := rfl
    have heq := (leftovers_change_nothing.1 (s := .ofString " abc") rfl hswept).1 rfl
    rw [← heq, hcall]
  · have hpurge : Command.purge filled = Command.purge plain := rfl
    exact leftovers_change_nothing.2 lx hpurge

end ModalLexer
