import ModalLexer.Lexer.Session

/-!
# Records of sessions

A session that is not cut short by a fault leaves an entry for every command:
what it let be seen, its answer, and the lexer after it. `performAll_eq_ok`
says that these records are all there is to a run of `Command.performAll`;
what holds throughout a session is stated of them.
-/

namespace ModalLexer

/-- What a command leaves behind. -/
structure Entry (ρ : Type) where
  events : List Event
  reply : Reply
  lexer : Lexer ρ

variable {ρ : Type}

/-- The run of which this is the entry. -/
def Entry.run (entry : Entry ρ) : Run (Lexer ρ × Reply) where
  events := entry.events
  outcome := .ok (entry.lexer, entry.reply)

theorem Entry.run_injective {entry entry' : Entry ρ} (h : entry.run = entry'.run) :
    entry = entry' := by
  obtain ⟨events, reply, lexer⟩ := entry
  obtain ⟨hevents, houtcome⟩ := Run.mk.inj h
  obtain ⟨hlexer, hreply⟩ := Prod.mk.inj (Except.ok.inj houtcome)
  simp only at hevents hlexer hreply
  rw [hevents, hlexer, hreply]

/-- The lexer after the commands of a record, which began with `lx`. -/
def Entry.last : Lexer ρ → List (Entry ρ) → Lexer ρ
  | lx, [] => lx
  | _, entry :: entries => last entry.lexer entries

variable [Recognizer ρ]

/-! ## What single commands do -/

namespace Command

variable {lx lx' : Lexer ρ} {events : List Event} {reply : Reply}

theorem perform_next_eq_ok : next.perform lx = { events, outcome := .ok (lx', reply) } ↔
    ∃ result, lx.nextToken = { events, outcome := .ok (lx', result) }
      ∧ reply = .token result := by
  rw [perform, Run.bind_pure_eq_ok]
  constructor
  · rintro ⟨⟨_, result⟩, hcall, heq⟩
    obtain ⟨rfl, rfl⟩ := Prod.mk.inj heq
    exact ⟨result, hcall, rfl⟩
  · rintro ⟨result, hcall, rfl⟩
    exact ⟨(lx', result), hcall, rfl⟩

omit [Recognizer ρ] in
/-- Nothing is told but that it is done. -/
theorem done_eq_ok {call : Run (Lexer ρ)} :
    (call >>= fun lx => pure (lx, Reply.done)) = { events, outcome := .ok (lx', reply) } ↔
      call = { events, outcome := .ok lx' } ∧ reply = .done := by
  rw [Run.bind_pure_eq_ok]
  constructor
  · rintro ⟨_, hcall, heq⟩
    obtain ⟨rfl, rfl⟩ := Prod.mk.inj heq
    exact ⟨hcall, rfl⟩
  · rintro ⟨hcall, rfl⟩
    exact ⟨lx', hcall, rfl⟩

theorem perform_recover_eq_ok {e : RecognitionError} :
    (recover e).perform lx = { events, outcome := .ok (lx', reply) } ↔
      lx.recover e = { events, outcome := .ok lx' } ∧ reply = .done := done_eq_ok

theorem perform_notify_eq_ok {e : RecognitionError} :
    (notify e).perform lx = { events, outcome := .ok (lx', reply) } ↔
      lx.notify e = { events, outcome := .ok lx' } ∧ reply = .done := done_eq_ok

theorem perform_act_eq_ok {a : Action} :
    (act a).perform lx = { events, outcome := .ok (lx', reply) } ↔
      ∃ failure, lx.act a = { events, outcome := .ok (lx', failure) }
        ∧ reply = failure.elim .done .failure := by
  rw [perform, Run.bind_pure_eq_ok]
  constructor
  · rintro ⟨⟨_, failure⟩, hact, heq⟩
    obtain ⟨rfl, rfl⟩ := Prod.mk.inj heq
    exact ⟨failure, hact, by cases failure <;> rfl⟩
  · rintro ⟨failure, hact, rfl⟩
    exact ⟨(lx', failure), hact, by cases failure <;> rfl⟩

end Command

/-! ## Records -/

/-- Commands carried out one after the other. -/
inductive Trace : Lexer ρ → List (Command ρ) → List (Entry ρ) → Prop
  | nil {lx : Lexer ρ} : Trace lx [] []
  | cons {lx : Lexer ρ} {c : Command ρ} {commands : List (Command ρ)} {entry : Entry ρ}
      {entries : List (Entry ρ)}
      (hstep : c.perform lx = entry.run)
      (hrest : Trace entry.lexer commands entries) :
      Trace lx (c :: commands) (entry :: entries)

theorem performAll_eq_ok : ∀ {commands : List (Command ρ)} {lx lx' : Lexer ρ}
    {events : List Event} {replies : List Reply},
    Command.performAll commands lx = { events, outcome := .ok (lx', replies) } ↔
      ∃ entries, Trace lx commands entries ∧ lx' = Entry.last lx entries
        ∧ events = entries.flatMap Entry.events ∧ replies = entries.map Entry.reply
  | [], lx, lx', events, replies => by
      constructor
      · intro h
        obtain ⟨rfl, rfl, rfl⟩ := Run.pure_pair_eq_ok.mp h
        exact ⟨[], .nil, rfl, rfl, rfl⟩
      · rintro ⟨entries, htrace, rfl, rfl, rfl⟩
        cases htrace
        rfl
  | c :: commands, lx, lx', events, replies => by
      rw [Command.performAll, Run.bind_eq_ok]
      constructor
      · rintro ⟨before, ⟨lx₁, reply⟩, after, hstep, hmap, rfl⟩
        obtain ⟨⟨lx₂, rest⟩, hrest, heq⟩ := Run.map_eq_ok.mp hmap
        obtain ⟨rfl, rfl⟩ := Prod.mk.inj heq
        obtain ⟨entries, htrace, rfl, rfl, rfl⟩ := performAll_eq_ok.mp hrest
        exact ⟨⟨before, reply, lx₁⟩ :: entries, .cons hstep htrace, rfl, rfl, rfl⟩
      · rintro ⟨entries, htrace, rfl, rfl, rfl⟩
        cases htrace with
        | @cons _ _ _ entry entries hstep hrest =>
            refine ⟨entry.events, _, _, hstep, ?_, List.flatMap_cons⟩
            simp only [performAll_eq_ok.mpr ⟨entries, hrest, rfl, rfl, rfl⟩]
            rfl

/-- A session that comes through has a record. -/
theorem exists_trace_of_isSome {commands : List (Command ρ)} {lx : Lexer ρ}
    (h : (Command.performAll commands lx).outcome.toOption.isSome = true) :
    ∃ entries, Trace lx commands entries := by
  rcases hrun : Command.performAll commands lx with ⟨events, fault | ⟨lx', replies⟩⟩
  · rw [hrun] at h
    cases h
  · obtain ⟨entries, htrace, -⟩ := performAll_eq_ok.mp hrun
    exact ⟨entries, htrace⟩

/-- A session in two parts. -/
theorem performAll_append : ∀ (commands rest : List (Command ρ)) (lx : Lexer ρ),
    Command.performAll (commands ++ rest) lx = do
      let (mid, replies) ← Command.performAll commands lx
      (fun (last, later) => (last, replies ++ later)) <$> Command.performAll rest mid
  | [], rest, lx => by
      rw [List.nil_append, Command.performAll, pure_bind]
      exact (id_map _).symm
  | c :: commands, rest, lx => by
      rw [List.cons_append, Command.performAll, Command.performAll, bind_assoc]
      refine bind_congr ?_
      rintro ⟨next, reply⟩
      simp only [performAll_append commands rest next, map_bind, bind_map_left]
      refine bind_congr ?_
      rintro ⟨mid, replies⟩
      rw [← comp_map]
      rfl

end ModalLexer
