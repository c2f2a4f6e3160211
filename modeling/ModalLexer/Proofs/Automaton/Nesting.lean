import ModalLexer.Proofs.Automaton.Modes

/-!
# Entering and leaving modes

Leaving a mode undoes entering it, whatever has happened in between that is
itself undone, and even if the mode was replaced there. So well-nested actions
lead back to where they began (`Nested.actAll`). Of actions that are not, a
`ModeCourse` keeps the record: a step that fails changes nothing, so the modes
are those that the terminals of the other steps lead to, and how many of them
are left to return to is known by counting.
-/

namespace ModalLexer

/-! ## Well-nested actions -/

/-- Every mode that is entered is left again, and the other way round. The mode
is replaced in between only, unless the actions as a whole stand `inside` of
such a pair. -/
inductive Nested : (inside : Bool) → List Action → Prop
  | nil {inside : Bool} : Nested inside []
  | set {mode : ModeId} {rest : List Action} (hrest : Nested true rest) :
      Nested true (.setMode mode :: rest)
  | pair {inside : Bool} {mode : ModeId} {between rest : List Action}
      (hbetween : Nested true between) (hrest : Nested inside rest) :
      Nested inside (.pushMode mode :: (between ++ .popMode :: rest))

/-- Well-nested actions change the mode at most, and that only if they stand
inside of a pair. -/
theorem Nested.actAll {inside : Bool} {acts : List Action} (h : Nested inside acts) (s : State) :
    ∃ mode, s.actAll acts = .ok (s.setMode mode) ∧ (inside = false → mode = s.mode) := by
  -- on the nesting, for every state: what is entered in a pair is entered from there
  induction h generalizing s with
  | nil => exact ⟨s.mode, rfl, fun _ => rfl⟩
  | @set mode rest _ ih =>
      obtain ⟨last, hlast, -⟩ := ih (s.setMode mode)
      exact ⟨last, hlast, nofun⟩
  | @pair _ mode between rest _ _ ihbetween ihrest =>
      obtain ⟨inner, hinner, -⟩ := ihbetween (s.pushMode mode)
      obtain ⟨last, hlast, hsame⟩ := ihrest s
      refine ⟨last, ?_, hsame⟩
      calc s.actAll (.pushMode mode :: (between ++ .popMode :: rest))
          = (s.pushMode mode).actAll (between ++ .popMode :: rest) := rfl
        _ = ((s.pushMode mode).setMode inner).actAll (.popMode :: rest) := by
          rw [State.actAll_append, hinner]
          rfl
        _ = s.actAll rest := rfl
        _ = .ok (s.setMode last) := hlast

/-! ## Steps in any order -/

/-- A change of the modes, by itself or by a terminal. -/
inductive ModeStep where
  | set (mode : ModeId)
  | push (mode : ModeId)
  | pop
  | apply (t : Terminal)
  deriving DecidableEq, Repr

namespace ModeStep

def actions : ModeStep → List Action
  | set mode => [.setMode mode]
  | push mode => [.pushMode mode]
  | pop => [.popMode]
  | apply t => t.actions

/-- A terminal that does the same. -/
def terminal : ModeStep → Terminal
  | set mode => { change := .switch mode }
  | push mode => { change := .push mode }
  | pop => { pop := true }
  | apply t => t

def isPop : ModeStep → Bool
  | pop => true
  | apply t => t.pop
  | _ => false

theorem actions_terminal (step : ModeStep) : step.terminal.actions = step.actions := by
  cases step <;> rfl

theorem pop_terminal (step : ModeStep) : step.terminal.pop = step.isPop := by
  cases step <;> rfl

end ModeStep

/-- Steps that were tried one after the other, each with the error it failed
with, if it failed. -/
abbrev ModeRecord := List (ModeStep × Option LexerError)

/-- The terminals of those that did not fail. -/
def ModeRecord.terminals (record : ModeRecord) : List Terminal :=
  record.filterMap fun entry => if entry.2.isNone then some entry.1.terminal else none

/-- The steps of the record lead from one state to another. -/
inductive ModeCourse (s : State) : ModeRecord → State → Prop
  | start : ModeCourse s [] s
  | next {record : ModeRecord} {t u : State} {step : ModeStep} {failure : Option LexerError}
      (hcourse : ModeCourse s record t)
      (hstep : (t.perform step.actions).outcome = .ok (u, failure)) :
      ModeCourse s (record ++ [(step, failure)]) u

/-- A step that has to leave a mode fails if there is none to return to, and then
changes nothing. -/
theorem ModeStep.exists_perform (step : ModeStep) (s : State) :
    ∃ t failure, (s.perform step.actions).outcome = .ok (t, failure)
      ∧ (failure.isSome ↔ step.isPop ∧ s.modeStack.length = 0)
      ∧ (∀ e, failure = some e → t = s ∧ e = .emptyModeStack s.mode)
      ∧ (failure = none → step.terminal.shift s.modes = some t.modes) := by
  have houtcome := step.terminal.outcome_perform_actions s
  rw [step.actions_terminal] at houtcome
  cases happly : step.terminal.apply s with
  | ok t =>
      rw [happly] at houtcome
      refine ⟨t, none, houtcome, ?_, nofun, fun _ => Terminal.shift_modes_of_apply happly⟩
      refine ⟨nofun, ?_⟩
      rintro ⟨hpop, hzero⟩
      have herror := Terminal.apply_eq_error_iff.mpr
        ⟨step.pop_terminal.trans hpop, List.length_eq_zero_iff.mp hzero, rfl⟩
      cases happly.symm.trans herror
  | error e =>
      rw [happly] at houtcome
      obtain ⟨hpop, hstack, rfl⟩ := Terminal.apply_eq_error_iff.mp happly
      refine ⟨s, _, houtcome, ?_, ?_, nofun⟩
      · exact iff_of_true rfl ⟨step.pop_terminal.symm.trans hpop, by rw [hstack]; rfl⟩
      · intro e he
        exact ⟨rfl, (Option.some.inj he).symm⟩

namespace ModeCourse

variable {s t : State} {record : ModeRecord}

/-- The modes are those that the steps that did not fail lead to. -/
theorem shiftAll (h : ModeCourse s record t) :
    s.modes.shiftAll record.terminals = some t.modes := by
  induction h with
  | start => rfl
  | @next record t u step failure _ hstep ih =>
      obtain ⟨u', failure', hstep', -, hfailed, hshift⟩ := step.exists_perform t
      obtain ⟨rfl, rfl⟩ := Prod.mk.inj (Except.ok.inj (hstep.symm.trans hstep'))
      rw [ModeRecord.terminals, List.filterMap_append, Modes.shiftAll_append]
      change (s.modes.shiftAll record.terminals).bind _ = _
      rw [ih, Option.bind_some]
      cases failure with
      | none =>
          rw [List.filterMap_cons, List.filterMap_nil]
          exact Modes.shiftAll_cons_eq_some.mpr ⟨_, hshift rfl, rfl⟩
      | some e =>
          obtain ⟨rfl, -⟩ := hfailed e rfl
          rfl

/-- What has been entered and not left yet is what there is to return to. -/
theorem length_modeStack (h : ModeCourse s record t) :
    t.modeStack.length + pops record.terminals
      = s.modeStack.length + pushes record.terminals :=
  Modes.length_below_of_shiftAll h.shiftAll

end ModeCourse

/-- Well-nested actions come through and leave the state as it was. In any order
of steps, one that leaves a mode fails exactly if as many have been left as
there were at first and have been entered since, and then nothing is changed. A
terminal that leaves a mode and enters another puts it in the place of the one
that is left, above the same modes. -/
theorem entering_is_undone_by_leaving (s : State) :
    (∀ acts, Nested false acts → (s.perform acts).outcome = .ok (s, none))
      ∧ (∀ record t, ModeCourse s record t → ∀ step : ModeStep,
        ∃ u failure, (t.perform step.actions).outcome = .ok (u, failure)
          ∧ (failure.isSome ↔ step.isPop
            ∧ s.modeStack.length + pushes record.terminals = pops record.terminals)
          ∧ ∀ e, failure = some e → u = t ∧ e = .emptyModeStack t.mode)
      ∧ ∀ (t : Terminal) mode restored below, t.pop = true → t.change = .push mode →
        s.modeStack = restored :: below →
          ∃ u, (s.perform t.actions).outcome = .ok (u, none) ∧ u.mode = mode
            ∧ u.modeStack = restored :: below := by
  refine ⟨?_, ?_, ?_⟩
  · intro acts h
    obtain ⟨mode, hacts, hsame⟩ := h.actAll s
    rw [hsame rfl] at hacts
    exact State.outcome_perform_of_actAll_eq_ok hacts
  · intro record t h step
    obtain ⟨u, failure, hstep, hiff, hfailed, -⟩ := step.exists_perform t
    have hlength := h.length_modeStack
    refine ⟨u, failure, hstep, hiff.trans ?_, hfailed⟩
    exact and_congr_right fun _ => by omega
  · intro t mode restored below hpop hchange hstack
    obtain ⟨u, failure, hstep, hiff, -, hshift⟩ := (ModeStep.apply t).exists_perform s
    have hnone : failure = none := by
      rw [Option.eq_none_iff_forall_not_mem]
      intro e he
      have hfails := hiff.mp (Option.isSome_of_mem he)
      rw [hstack] at hfails
      cases hfails.2
    subst hnone
    have hmodes := hshift rfl
    simp only [ModeStep.terminal, Terminal.shift, hpop, hchange, if_true, Modes.leave,
      State.modes, hstack, Option.map_some, ModeChange.shift] at hmodes
    obtain ⟨hmode, hbelow⟩ := Modes.mk.inj (Option.some.inj hmodes)
    exact ⟨u, hstep, hmode.symm, hbelow.symm⟩

/-- A mode is replaced within a pair, and others are entered and left there. Where
one has been entered and two have been left, there is none to return to. -/
theorem entering_is_undone_by_leaving_nested :
    let s : State := { mode := 3, modeStack := [7] }
    let acts : List Action := [.pushMode 1, .setMode 5, .pushMode 2, .popMode, .setMode 6, .popMode]
    let combined : Terminal := { pop := true, change := .push 4, channel := 2 }
    Nested false acts ∧ (s.perform acts).outcome = .ok (s, none)
      ∧ (∃ t, ModeCourse s [(.push 1, none), (.pop, none), (.pop, none)] t
        ∧ ∃ u failure, (t.perform (ModeStep.apply combined).actions).outcome = .ok (u, failure)
          ∧ failure.isSome ∧ u = t)
      ∧ ∃ u, (s.perform combined.actions).outcome = .ok (u, none) ∧ u.mode = 4
        ∧ u.modeStack = [7] := by
  intro s acts combined
  have hnested : Nested false acts := .pair (.set (.pair .nil (.set .nil))) .nil
  have hcourse : ModeCourse s [(.push 1, none), (.pop, none), (.pop, none)]
      { s with mode := 7, modeStack := [] } :=
    .next (.next (.next .start rfl) rfl) rfl
  obtain ⟨hundone, hfails, hcombined⟩ := entering_is_undone_by_leaving s
  obtain ⟨u, failure, hstep, hiff, hsame⟩ := hfails _ _ hcourse (.apply combined)
  have hfailed : failure.isSome := hiff.mpr ⟨rfl, rfl⟩
  obtain ⟨e, he⟩ := Option.isSome_iff_exists.mp hfailed
  exact ⟨hnested, hundone acts hnested,
    ⟨_, hcourse, u, failure, hstep, hfailed, (hsame e he).1⟩,
    hcombined combined 4 7 [] rfl rfl rfl⟩

end ModalLexer
