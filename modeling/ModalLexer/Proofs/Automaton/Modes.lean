import ModalLexer.Proofs.Automaton.Effect
import ModalLexer.Proofs.Automaton.Hiding

/-!
# How terminals change the modes

Of the state of a lexer only the modes matter here: the current one and those
from which it was entered, the last one first. `Terminal.shift` is what a
terminal does to them. The modes after any number of terminals are found by
carrying these out one after the other (`Modes.shiftAll`), which makes two
facts an induction on the list: the terminals of a closed automaton never lead
to a mode that does not exist (`Modes.within_of_shiftAll`), and the number of
modes below the current one is the number of entries less that of returns
(`Modes.length_below_of_shiftAll`).
-/

namespace ModalLexer

/-! ## Modes -/

/-- The current mode, and those to return to. -/
structure Modes where
  current : ModeId := defaultMode
  below : List ModeId := []
  deriving DecidableEq, Repr

def State.modes (s : State) : Modes where
  current := s.mode
  below := s.modeStack

def Modes.leave (m : Modes) : Option Modes :=
  match m.below with
  | [] => none
  | mode :: rest => some { current := mode, below := rest }

/-- All of them are among the first `n` modes. -/
structure Modes.Within (n : Nat) (m : Modes) : Prop where
  current_lt : m.current < n
  below_lt : ∀ mode ∈ m.below, mode < n

namespace ModeChange

/-- The mode it names, if it names one. -/
def target? : ModeChange → Option ModeId
  | .stay => none
  | .switch mode => some mode
  | .push mode => some mode

def isPush : ModeChange → Bool
  | .push _ => true
  | _ => false

def shift (change : ModeChange) (m : Modes) : Modes :=
  match change with
  | .stay => m
  | .switch mode => { m with current := mode }
  | .push mode => { current := mode, below := m.current :: m.below }

theorem modes_apply (change : ModeChange) (s : State) :
    (change.apply s).modes = change.shift s.modes := by
  cases change <;> rfl

end ModeChange

namespace Terminal

/-- The modes after a match with the terminal, unless it leaves a mode that was
not entered. -/
def shift (t : Terminal) (m : Modes) : Option Modes :=
  (if t.pop then m.leave else some m).map t.change.shift

variable {t : Terminal} {s s' : State} {m m' : Modes}

@[simp] theorem modes_choose (t : Terminal) (s : State) : (t.choose s).modes = s.modes := by
  unfold choose
  split <;> rfl

theorem shift_modes_of_apply (h : t.apply s = .ok s') : t.shift s.modes = some s'.modes := by
  obtain ⟨below, hleave, rfl⟩ := apply_eq_ok_iff.mp h
  have hbelow : (if t.pop then s.modes.leave else some s.modes) = some below.modes := by
    unfold leave State.popMode at hleave
    unfold Modes.leave State.modes
    split
    · rename_i hpop
      rw [if_pos hpop] at hleave
      split at hleave
      · cases hleave
      · rename_i hstack
        obtain rfl := Except.ok.inj hleave
        simp only [hstack]
    · rename_i hpop
      rw [if_neg hpop] at hleave
      obtain rfl := Except.ok.inj hleave
      rfl
  rw [shift, hbelow, modes_choose, ModeChange.modes_apply]
  rfl

theorem within_of_leave {n : Nat} (hm : m.Within n) (h : m.leave = some m') : m'.Within n := by
  unfold Modes.leave at h
  split at h
  · cases h
  · rename_i mode rest hbelow
    obtain rfl := Option.some.inj h
    have hlt := hm.below_lt
    rw [hbelow] at hlt
    exact ⟨hlt mode (List.mem_cons_self ..), fun k hk => hlt k (List.mem_cons_of_mem _ hk)⟩

theorem within_of_change {n : Nat} {change : ModeChange}
    (htarget : ∀ mode, change.target? = some mode → mode < n) (hm : m.Within n) :
    (change.shift m).Within n := by
  cases change with
  | stay => exact hm
  | switch mode => exact ⟨htarget mode rfl, hm.below_lt⟩
  | push mode =>
      refine ⟨htarget mode rfl, ?_⟩
      intro k hk
      rcases List.mem_cons.mp hk with rfl | hk
      · exact hm.current_lt
      · exact hm.below_lt k hk

/-- A terminal that names known modes leads from known modes to known modes. -/
theorem within_of_shift {n : Nat} (htarget : ∀ mode, t.change.target? = some mode → mode < n)
    (hm : m.Within n) (h : t.shift m = some m') : m'.Within n := by
  obtain ⟨below, hbelow, rfl⟩ := Option.map_eq_some_iff.mp h
  refine within_of_change htarget ?_
  split at hbelow
  · exact within_of_leave hm hbelow
  · obtain rfl := Option.some.inj hbelow
    exact hm

/-- Leaving a mode takes one from below, and entering one puts one there. -/
theorem length_below_of_shift (h : t.shift m = some m') :
    m'.below.length + t.pop.toNat = m.below.length + t.change.isPush.toNat := by
  obtain ⟨below, hbelow, rfl⟩ := Option.map_eq_some_iff.mp h
  have hleave : below.below.length + t.pop.toNat = m.below.length := by
    cases hpop : t.pop with
    | false =>
        rw [hpop, if_neg Bool.false_ne_true] at hbelow
        obtain rfl := Option.some.inj hbelow
        rfl
    | true =>
        rw [hpop, if_pos rfl, Modes.leave] at hbelow
        split at hbelow
        · cases hbelow
        · rename_i hstack
          obtain rfl := Option.some.inj hbelow
          rw [hstack]
          rfl
  cases t.change with
  | stay | switch => exact hleave
  | push =>
      simp only [ModeChange.shift, ModeChange.isPush, List.length_cons, Bool.toNat_true]
      omega

end Terminal

/-! ## Terminals in a row -/

/-- The modes after the terminals have been carried out one after the other. -/
def Modes.shiftAll (m : Modes) (ts : List Terminal) : Option Modes :=
  ts.foldlM (fun m t => t.shift m) m

/-- Number of times that a mode was entered. -/
def pushes (ts : List Terminal) : Nat := ts.countP (·.change.isPush)

/-- Number of times that a mode was left. -/
def pops (ts : List Terminal) : Nat := ts.countP Terminal.pop

theorem pushes_cons (t : Terminal) (ts : List Terminal) :
    pushes (t :: ts) = pushes ts + t.change.isPush.toNat := by
  rw [pushes, List.countP_cons]
  cases t.change.isPush <;> rfl

theorem pops_cons (t : Terminal) (ts : List Terminal) :
    pops (t :: ts) = pops ts + t.pop.toNat := by
  rw [pops, List.countP_cons]
  cases t.pop <;> rfl

namespace Modes

variable {m m' : Modes} {ts : List Terminal}

theorem shiftAll_append (m : Modes) (ts us : List Terminal) :
    m.shiftAll (ts ++ us) = (m.shiftAll ts).bind fun m' => m'.shiftAll us :=
  List.foldlM_append

theorem shiftAll_cons_eq_some {t : Terminal} :
    m.shiftAll (t :: ts) = some m' ↔ ∃ m₁, t.shift m = some m₁ ∧ m₁.shiftAll ts = some m' := by
  rw [shiftAll, List.foldlM_cons]
  exact Option.bind_eq_some_iff

theorem within_of_shiftAll {n : Nat}
    (htarget : ∀ t ∈ ts, ∀ mode, t.change.target? = some mode → mode < n) (hm : m.Within n)
    (h : m.shiftAll ts = some m') : m'.Within n := by
  induction ts generalizing m with
  | nil =>
      obtain rfl := Option.some.inj h
      exact hm
  | cons t ts ih =>
      obtain ⟨m₁, hshift, hrest⟩ := shiftAll_cons_eq_some.mp h
      exact ih (fun u hu => htarget u (List.mem_cons_of_mem _ hu))
        (Terminal.within_of_shift (htarget t (List.mem_cons_self ..)) hm hshift) hrest

theorem length_below_of_shiftAll (h : m.shiftAll ts = some m') :
    m'.below.length + pops ts = m.below.length + pushes ts := by
  induction ts generalizing m with
  | nil =>
      obtain rfl := Option.some.inj h
      rfl
  | cons t ts ih =>
      obtain ⟨m₁, hshift, hrest⟩ := shiftAll_cons_eq_some.mp h
      have hfirst := Terminal.length_below_of_shift hshift
      have hlast := ih hrest
      rw [pops_cons, pushes_cons]
      omega

/-- What has been carried out in a row has been carried out at every point of it. -/
theorem exists_shiftAll_of_prefix {us : List Terminal} (h : m.shiftAll ts = some m')
    (hinit : us <+: ts) : ∃ m₁, m.shiftAll us = some m₁ := by
  obtain ⟨rest, rfl⟩ := hinit
  rw [shiftAll_append] at h
  obtain ⟨m₁, hus, -⟩ := Option.bind_eq_some_iff.mp h
  exact ⟨m₁, hus⟩

end Modes

/-! ## Closed tables -/

namespace Automaton

/-- There is a mode to begin in, and every mode that a terminal names exists. -/
structure IsClosed (a : Automaton) : Prop where
  pos : 0 < a.startStates.size
  target_lt : ∀ t ∈ a.terminals, ∀ mode, t.change.target? = some mode → mode < a.startStates.size

theorem isClosed_iff {a : Automaton} : a.IsClosed ↔ 0 < a.startStates.size
    ∧ ∀ t ∈ a.terminals, ∀ mode ∈ t.change.target?, mode < a.startStates.size :=
  ⟨fun h => ⟨h.pos, h.target_lt⟩, fun h => ⟨h.1, h.2⟩⟩

instance (a : Automaton) : Decidable a.IsClosed := decidable_of_iff _ isClosed_iff.symm

end Automaton

end ModalLexer
