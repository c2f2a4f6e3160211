import ModalLexer.Automaton
import ModalLexer.State

/-!
# What a terminal does to the state

A terminal is carried out as a list of actions, but all that it can do is
known beforehand: leave the mode, then go to another or enter it, then choose
the channel. `Terminal.apply` says so in one step. Only leaving the mode can
fail, and it comes first, so a terminal that fails has done nothing.
-/

namespace ModalLexer

theorem State.actAll_append (s : State) (acts rest : List Action) :
    s.actAll (acts ++ rest) = s.actAll acts >>= fun t => t.actAll rest :=
  List.foldlM_append

namespace ModeChange

def apply (change : ModeChange) (s : State) : State :=
  match change with
  | .stay => s
  | .switch mode => s.setMode mode
  | .push mode => s.pushMode mode

end ModeChange

namespace Terminal

/-- Leaves the mode if that is asked for. -/
def leave (t : Terminal) (s : State) : Except LexerError State :=
  if t.pop then s.popMode else .ok s

/-- Puts the token on the channel of the terminal, unless it is the default
one. -/
def choose (t : Terminal) (s : State) : State :=
  if t.channel = defaultChannel then s else s.setChannel t.channel

/-- The state after a match with the terminal. -/
def apply (t : Terminal) (s : State) : Except LexerError State :=
  (t.leave s).map fun s => t.choose (t.change.apply s)

variable {t : Terminal} {s s' : State} {e : LexerError}

theorem leave_eq_error_iff :
    t.leave s = .error e ↔ t.pop = true ∧ s.modeStack = [] ∧ e = .emptyModeStack s.mode := by
  unfold leave State.popMode
  cases hpop : t.pop with
  | false => simp
  | true =>
      cases s.modeStack with
      | nil => simp [eq_comm]
      | cons mode rest => simp

theorem apply_eq_error_iff :
    t.apply s = .error e ↔ t.pop = true ∧ s.modeStack = [] ∧ e = .emptyModeStack s.mode := by
  rw [← leave_eq_error_iff, apply]
  cases t.leave s <;> simp [Except.map]

theorem apply_eq_ok_iff :
    t.apply s = .ok s' ↔ ∃ below, t.leave s = .ok below ∧ t.choose (t.change.apply below) = s' := by
  rw [apply]
  cases t.leave s <;> simp [Except.map]

/-- The actions of a terminal do one after the other what it does at once. -/
theorem actAll_actions (t : Terminal) (s : State) : s.actAll t.actions = t.apply s := by
  have hleave : s.actAll (if t.pop then [.popMode] else []) = t.leave s := by
    unfold leave
    cases t.pop with
    | false => rfl
    | true => exact bind_pure s.popMode
  rw [actions, State.actAll_append, State.actAll_append, hleave, apply]
  cases t.leave s with
  | error e => rfl
  | ok below =>
      by_cases hchannel : t.channel = defaultChannel
      · simp only [choose, if_pos hchannel]
        cases t.change <;> rfl
      · simp only [choose, if_neg hchannel]
        cases t.change <;> rfl

/-- A terminal comes through as a whole or leaves the state as it was. -/
theorem outcome_perform_actions (t : Terminal) (s : State) :
    (s.perform t.actions).outcome = .ok (match t.apply s with
      | .ok s' => (s', none)
      | .error e => (s, some e)) := by
  cases h : t.apply s with
  | ok s' => exact State.outcome_perform_of_actAll_eq_ok ((t.actAll_actions s).trans h)
  | error e =>
      -- the first action is the one that fails
      obtain ⟨hpop, hstack, rfl⟩ := apply_eq_error_iff.mp h
      unfold actions
      rw [if_pos hpop, List.append_assoc, List.singleton_append, State.perform,
        Run.bind_of_ok (Run.outcome_emit _)]
      simp only [State.act, State.popMode, hstack]
      rfl

theorem perform_actions_eq_ok {failure : Option LexerError}
    (h : (s.perform t.actions).outcome = .ok (s', failure)) :
    (t.apply s = .ok s' ∧ failure = none)
      ∨ ∃ e, t.apply s = .error e ∧ s' = s ∧ failure = some e := by
  rw [outcome_perform_actions] at h
  cases happly : t.apply s with
  | ok u =>
      rw [happly] at h
      obtain ⟨rfl, rfl⟩ := Prod.mk.inj (Except.ok.inj h)
      exact .inl ⟨rfl, rfl⟩
  | error e =>
      rw [happly] at h
      obtain ⟨rfl, rfl⟩ := Prod.mk.inj (Except.ok.inj h)
      exact .inr ⟨e, rfl, rfl, rfl⟩

end Terminal

end ModalLexer
