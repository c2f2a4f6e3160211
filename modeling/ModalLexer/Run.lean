import ModalLexer.Event
import ModalLexer.Fault

/-!
# Runs

A run is what a computation of the lexer leaves behind: the events of the
time it took, in order, and either its value or the fault that cut it short.
Events that came before a fault are not lost, which is why they stand beside
the outcome and not inside it.
-/

namespace ModalLexer

/-- Events of a computation and its outcome. -/
structure Run (α : Type) where
  events : List Event := []
  outcome : Except Fault α
  deriving Repr

namespace Run

variable {α β : Type}

protected def pure (a : α) : Run α where
  outcome := .ok a

/-- One run after another; a fault in the first is the last that happens. -/
protected def bind (x : Run α) (f : α → Run β) : Run β :=
  match x.outcome with
  | .ok a =>
    let y := f a
    { events := x.events ++ y.events, outcome := y.outcome }
  | .error fault => { events := x.events, outcome := .error fault }

/-- The same run with another value. The events stay as they are, so that a
long loop can hand its value on without going over them again. -/
protected def map (f : α → β) (x : Run α) : Run β where
  events := x.events
  outcome := x.outcome.map f

instance : Monad Run where
  pure := Run.pure
  bind := Run.bind
  map := Run.map

/-- A run that only lets something be seen. -/
def emit (events : List Event) : Run Unit where
  events := events
  outcome := .ok ()

def fail (fault : Fault) : Run α where
  outcome := .error fault

/-- A computation without events. -/
def ofExcept (x : Except Fault α) : Run α where
  outcome := x

instance : MonadLift (Except Fault) Run := ⟨ofExcept⟩

/-! ## How runs compose -/

@[ext] theorem ext {x y : Run α} (he : x.events = y.events) (ho : x.outcome = y.outcome) :
    x = y := by
  cases x; cases y; simp_all

@[simp] theorem events_pure (a : α) : (pure a : Run α).events = [] := rfl

@[simp] theorem outcome_pure (a : α) : (pure a : Run α).outcome = .ok a := rfl

@[simp] theorem events_map (f : α → β) (x : Run α) : (f <$> x).events = x.events := rfl

@[simp] theorem outcome_map (f : α → β) (x : Run α) :
    (f <$> x).outcome = x.outcome.map f := rfl

@[simp] theorem events_emit (events : List Event) : (emit events).events = events := rfl

@[simp] theorem outcome_emit (events : List Event) : (emit events).outcome = .ok () := rfl

@[simp] theorem events_ofExcept (x : Except Fault α) : (ofExcept x).events = [] := rfl

@[simp] theorem outcome_ofExcept (x : Except Fault α) : (ofExcept x).outcome = x := rfl

theorem bind_of_ok {x : Run α} {a : α} (h : x.outcome = .ok a) (f : α → Run β) :
    x >>= f = { events := x.events ++ (f a).events, outcome := (f a).outcome } := by
  change Run.bind x f = _
  simp only [Run.bind, h]

theorem bind_of_error {x : Run α} {fault : Fault} (h : x.outcome = .error fault)
    (f : α → Run β) : x >>= f = { events := x.events, outcome := .error fault } := by
  change Run.bind x f = _
  simp only [Run.bind, h]

/-- What can be seen of a run comes before what can be seen of the next one. -/
theorem events_prefix_bind (x : Run α) (f : α → Run β) : x.events <+: (x >>= f).events := by
  cases h : x.outcome with
  | ok a => simp [bind_of_ok h]
  | error fault => simp [bind_of_error h]

/-- A composite run ends well exactly if both parts do. -/
theorem outcome_bind_eq_ok {x : Run α} {f : α → Run β} {b : β} :
    (x >>= f).outcome = .ok b ↔ ∃ a, x.outcome = .ok a ∧ (f a).outcome = .ok b := by
  cases h : x.outcome with
  | ok a => simp [bind_of_ok h]
  | error fault => simp [bind_of_error h]

/-- A composite run that ended well comes apart into two that did. -/
theorem bind_eq_ok {x : Run α} {f : α → Run β} {events : List Event} {b : β} :
    x >>= f = { events, outcome := .ok b } ↔ ∃ before a after,
      x = { events := before, outcome := .ok a } ∧ f a = { events := after, outcome := .ok b }
        ∧ events = before ++ after := by
  constructor
  · intro h
    obtain ⟨a, hx, hf⟩ := outcome_bind_eq_ok.mp (h ▸ rfl : (x >>= f).outcome = .ok b)
    rw [bind_of_ok hx] at h
    exact ⟨x.events, a, (f a).events, ext rfl hx, ext rfl hf, (Run.mk.inj h).1.symm⟩
  · rintro ⟨before, a, after, rfl, hf, rfl⟩
    rw [bind_of_ok rfl, hf]

theorem pure_eq_ok {a b : α} {events : List Event} :
    (pure a : Run α) = { events, outcome := .ok b } ↔ b = a ∧ events = [] := by
  constructor
  · intro h
    obtain ⟨he, ho⟩ := Run.mk.inj h
    exact ⟨(Except.ok.inj ho).symm, he.symm⟩
  · rintro ⟨rfl, rfl⟩
    rfl

theorem pure_pair_eq_ok {a a' : α} {b b' : β} {events : List Event} :
    (pure (a, b) : Run (α × β)) = { events, outcome := .ok (a', b') } ↔
      a' = a ∧ b' = b ∧ events = [] := by
  rw [pure_eq_ok, Prod.mk.injEq, and_assoc]

theorem emit_eq_ok {emitted events : List Event} {u : Unit} :
    emit emitted = { events, outcome := .ok u } ↔ events = emitted :=
  ⟨fun h => (Run.mk.inj h).1.symm, fun h => h ▸ rfl⟩

theorem ofExcept_eq_ok {x : Except Fault α} {events : List Event} {a : α} :
    ofExcept x = { events, outcome := .ok a } ↔ x = .ok a ∧ events = [] :=
  ⟨fun h => ⟨(Run.mk.inj h).2, (Run.mk.inj h).1.symm⟩, fun ⟨hx, he⟩ => ext he.symm hx⟩

theorem bind_pure_eq_map (f : α → β) (x : Run α) : (x >>= fun a => pure (f a)) = f <$> x := by
  cases h : x.outcome with
  | ok a =>
    rw [bind_of_ok h]
    apply ext
    · simp
    · rw [outcome_map, h]; rfl
  | error fault =>
    rw [bind_of_error h]
    apply ext
    · rfl
    · rw [outcome_map, h]; rfl

theorem map_eq_ok {x : Run α} {f : α → β} {events : List Event} {b : β} :
    f <$> x = { events, outcome := .ok b } ↔
      ∃ a, x = { events, outcome := .ok a } ∧ f a = b := by
  rw [← bind_pure_eq_map, bind_eq_ok]
  constructor
  · rintro ⟨before, a, after, rfl, hpure, rfl⟩
    obtain ⟨rfl, rfl⟩ := pure_eq_ok.mp hpure
    exact ⟨a, by rw [List.append_nil], rfl⟩
  · rintro ⟨a, rfl, rfl⟩
    exact ⟨events, a, [], rfl, rfl, (List.append_nil _).symm⟩

/-- A run that changes its value in the end has ended well before. -/
theorem bind_pure_eq_ok {x : Run α} {f : α → β} {events : List Event} {b : β} :
    (x >>= fun a => pure (f a)) = { events, outcome := .ok b } ↔
      ∃ a, x = { events, outcome := .ok a } ∧ f a = b := by
  rw [bind_pure_eq_map, map_eq_ok]

/-- A run that ended well, with its value changed in the end. -/
theorem bind_pure_of_eq_ok {x : Run α} {events : List Event} {a : α}
    (h : x = { events, outcome := .ok a }) (f : α → β) :
    (x >>= fun a => pure (f a)) = { events, outcome := .ok (f a) } := by
  rw [bind_pure_eq_map, h]
  rfl

/-- A run of which a part of the value is known has ended well. -/
theorem exists_eq_ok {x : Run α} {f : α → β} {b : β} (h : x.outcome.toOption.map f = some b) :
    ∃ events a, x = { events, outcome := .ok a } ∧ f a = b := by
  rcases x with ⟨events, _ | a⟩
  · cases h
  · exact ⟨events, a, rfl, Option.some.inj h⟩

instance : LawfulMonad Run := LawfulMonad.mk' _
  (fun x => by
    apply ext
    · rfl
    · rw [outcome_map]; cases x.outcome <;> rfl)
  (fun _ _ => rfl)
  (fun x f g => by
    cases h : x.outcome with
    | error fault => rw [bind_of_error h, bind_of_error h, bind_of_error rfl]
    | ok a =>
      rw [bind_of_ok h f, bind_of_ok h]
      cases h' : (f a).outcome with
      | error fault => rw [bind_of_error rfl, bind_of_error h']
      | ok b => rw [bind_of_ok rfl, bind_of_ok h', List.append_assoc])
  (fun _ _ => rfl)
  (fun _ _ => rfl)
  (fun _ _ => rfl)
  bind_pure_eq_map
  (fun _ _ => rfl)

end Run

end ModalLexer
