import ModalLexer.Proofs.Lexer.Progress
import ModalLexer.Proofs.Lexer.Trace

/-!
# Steps of a session

The commands by which a lexer goes on in its text: asking for a token,
reporting an error or dropping a character on the user's request, and acting
on the state. `Does` lists all that each of them can do to a lexer that is
ready, and `Ready.step` says that it does so and leaves the lexer ready. What
holds throughout a session is shown of these four cases, and of sessions by
induction.
-/

namespace ModalLexer

/-- The command goes on in the text that is attached. -/
def Command.GoesOn {ρ : Type} : Command ρ → Prop
  | .next | .recover _ | .notify _ | .act _ => True
  | _ => False

/-- The token that was returned, if one was. -/
def Entry.token? {ρ : Type} (entry : Entry ρ) : Option Token :=
  match entry.reply with
  | .token (.ok t) => some t
  | _ => none

theorem Entry.token?_eq_some {ρ : Type} {entry : Entry ρ} {t : Token} :
    entry.token? = some t ↔ entry.reply = .token (.ok t) := by
  unfold token?
  constructor
  · intro h
    split at h
    · rename_i hreply
      rw [hreply, Option.some.inj h]
    · cases h
  · intro h
    rw [h]

/-- The tokens returned in a session, in order. -/
def returned {ρ : Type} (entries : List (Entry ρ)) : List Token := entries.filterMap Entry.token?

theorem returned_cons {ρ : Type} (entry : Entry ρ) (entries : List (Entry ρ)) :
    returned (entry :: entries) = entry.token?.toList ++ returned entries := by
  rw [returned, List.filterMap_cons]
  cases entry.token? <;> rfl

theorem getLast?_returned_cons {ρ : Type} (entry : Entry ρ) (entries : List (Entry ρ)) :
    (returned (entry :: entries)).getLast? = (returned entries).getLast?.or entry.token? := by
  rw [returned_cons, List.getLast?_append]
  cases entry.token? <;> rfl

namespace Lexer

variable {cs : List Char} {lx : Lexer TableRecognizer} {s : CharStream}

/-- The lexer on another stream, with the recognizer at another position. -/
def placed (lx : Lexer TableRecognizer) (u : CharStream) (p : Caret) : Lexer TableRecognizer :=
  { lx with stream? := some u, recognizer := { lx.recognizer with caret := p } }

/-- `p` is the position of the recognizer after a character has been dropped on
request. If this is not to be tracked, the recognizer does not get to know. -/
def DropsTo (cs : List Char) (lx : Lexer TableRecognizer) (s : CharStream) (p : Caret) : Prop :=
  match cs[s.index]? with
  | none => p = lx.caret
  | some c =>
    if lx.options.recoverTracksPosition then lx.caret.pass lx.recognizer.tab c = .ok p
    else p = lx.caret

/-- What a command does to a lexer that reads the text `cs` from `s`: the entry
it leaves behind, and the stream after it. -/
inductive Does (cs : List Char) (lx : Lexer TableRecognizer) (s : CharStream) :
    Command TableRecognizer → Entry TableRecognizer → CharStream → Prop
  | next {events : List Event} {h : Head TableRecognizer} {u : CharStream}
      {result : Except LexerError Token}
      (hcourse : (lx.marked s).Produces lx.reporter events h result) (hindex : u.index = h.index) :
      Does cs lx s .next ⟨events, .token result, lx.after h u result⟩ u
  | recover {e : RecognitionError} {u : CharStream} {p : Caret}
      (hindex : u.index = min (s.index + 1) cs.length) (hdrops : lx.DropsTo cs s p) :
      Does cs lx s (.recover e) ⟨[.recovering e], .done, lx.placed u p⟩ u
  | notify {e : RecognitionError} {events : List Event} {u : CharStream}
      (hindex : u.index = s.index) :
      Does cs lx s (.notify e) ⟨events, .done, lx.placed u lx.caret⟩ u
  | act {a : Action} {events : List Event} {state : State} {failure : Option LexerError}
      (hperform : lx.state.perform [a] = { events, outcome := .ok (state, failure) }) :
      Does cs lx s (.act a) ⟨events, failure.elim .done .failure, { lx with state }⟩ s

/-- Only a request for a token is answered by one. -/
theorem Does.of_token {c : Command TableRecognizer} {entry : Entry TableRecognizer}
    {u : CharStream} (hdoes : Does cs lx s c entry u) {result : Except LexerError Token}
    (hreply : entry.reply = .token result) :
    ∃ events h, (lx.marked s).Produces lx.reporter events h result ∧ u.index = h.index
      ∧ entry = ⟨events, .token result, lx.after h u result⟩ := by
  cases hdoes with
  | next hcourse hindex =>
      obtain rfl := Reply.token.inj hreply
      exact ⟨_, _, hcourse, hindex, rfl⟩
  | recover | notify => cases hreply
  | @act _ _ _ failure => cases failure <;> cases hreply

/-! ## What they come to -/

/-- An action of the user is carried out on the state. -/
theorem exists_perform_act (lx : Lexer TableRecognizer) (a : Action) :
    ∃ events state failure,
      lx.state.perform [a] = { events, outcome := .ok (state, failure) }
        ∧ (Command.act a).perform lx
          = Entry.run ⟨events, failure.elim .done .failure, { lx with state }⟩ := by
  obtain ⟨⟨state, failure⟩, houtcome⟩ := lx.state.outcome_perform [a]
  generalize hevents : (lx.state.perform [a]).events = events
  have hperform : lx.state.perform [a] = { events, outcome := .ok (state, failure) } :=
    Run.ext hevents houtcome
  have hact : lx.act a = { events, outcome := .ok ({ lx with state }, failure) } :=
    Run.bind_pure_of_eq_ok hperform _
  refine ⟨events, state, failure, hperform, ?_⟩
  rw [Command.perform, Run.bind_pure_of_eq_ok hact]
  cases failure <;> rfl

/-- A report on request looks at the next character at most. -/
theorem notify_placed (hstream : lx.stream? = some s) (e : RecognitionError) :
    ∃ events u, lx.notify e = { events, outcome := .ok (lx.placed u lx.caret) }
      ∧ s.Advances u ∧ u.index = s.index := by
  obtain ⟨events, u, hreport, hadv, hindex⟩ : ∃ events u,
      (lx.head s).report lx.reporter e = { events, outcome := .ok { lx.head s with stream := u } }
        ∧ s.Advances u ∧ u.index = s.index := by
    rw [Head.report_eq, Head.quote_eq]
    split
    · exact ⟨_, s.peek.2, rfl, .peek s, s.index_peek⟩
    · exact ⟨_, s, rfl, .refl s, rfl⟩
  refine ⟨events, u, ?_, hadv, hindex⟩
  simp only [notify, hstream]
  exact Run.bind_pure_of_eq_ok hreport _

/-- Dropping a character moves on by one, if there is one. -/
theorem recover_placed (hstream : lx.stream? = some s) (hs : s.Shows cs)
    (hcaret : lx.caret.Room (cs.length - s.index)) (e : RecognitionError) :
    ∃ u p, lx.recover e = { events := [.recovering e], outcome := .ok (lx.placed u p) }
      ∧ s.Advances u ∧ u.index = min (s.index + 1) cs.length ∧ lx.DropsTo cs s p
      ∧ p.Room (cs.length - u.index) := by
  have hle := hs.index_le
  simp only [recover, hstream, DropsTo]
  by_cases htracks : lx.options.recoverTracksPosition = true
  · simp only [htracks, if_true, Head.peek, head]
    rcases hpeek : s.peek with ⟨_ | c, t⟩
    · obtain ⟨hnone, ht, hindex, -⟩ := hs.of_peek_eq hpeek
      have hge := List.getElem?_eq_none_iff.mp hnone.symm
      refine ⟨t, lx.caret, rfl, .of_peek_eq hpeek, by omega, ?_, hindex ▸ hcaret⟩
      rw [← hnone]
    · obtain ⟨hsome, ht, hindex, -⟩ := hs.of_peek_eq hpeek
      obtain ⟨hlt, -⟩ := List.getElem?_eq_some_iff.mp hsome.symm
      have hadv : s.Advances t := .of_peek_eq hpeek
      rw [← hindex] at hsome hcaret
      obtain ⟨p, hpass, hconsume, hnext, hroom⟩ :=
        TableRecognizer.exists_consume_next (r := lx.recognizer) ht hsome.symm hcaret
      have hhead : Head.consume { lx.head s with stream := t }
          = .ok { lx.head s with
              recognizer := { lx.recognizer with caret := p }
              stream := t.peek.2.consume } :=
        Head.consume_eq_ok.mpr ⟨_, _, hconsume, rfl⟩
      have hrun := Run.ofExcept_eq_ok.mpr ⟨hhead, rfl⟩
      refine ⟨t.peek.2.consume, p, ?_, hadv.trans ((CharStream.Advances.peek t).trans (.consume _)),
        by omega, ?_, hnext ▸ hroom⟩
      · exact Run.bind_eq_ok.mpr ⟨_, (), [], rfl, Run.bind_pure_of_eq_ok hrun _, rfl⟩
      · rw [← hindex, ← hsome]
        exact hpass
  · have hindex := hs.index_consume
    have hmin : s.consume.index = min (s.index + 1) cs.length := by
      split at hindex <;> omega
    refine ⟨s.consume, lx.caret, ?_, .consume s, hmin, ?_, hcaret.mono (by omega)⟩
    · rw [if_neg htracks]
      rfl
    · split
      · rfl
      · rw [if_neg htracks]

/-! ## Each of them can be carried out -/

theorem Ready.does_next (hready : lx.Ready cs s) :
    ∃ entry u, Command.next.perform lx = entry.run ∧ entry.lexer.Ready cs u
      ∧ Does cs lx s .next entry u := by
  obtain ⟨events, h, u, result, hcourse, -, hcall, hindex, hafter⟩ := hready.call
  exact ⟨⟨events, .token result, lx.after h u result⟩, u, Run.bind_pure_of_eq_ok hcall _, hafter,
    .next hcourse hindex⟩

theorem Ready.does_act (hready : lx.Ready cs s) (a : Action) :
    ∃ entry, (Command.act a).perform lx = entry.run ∧ entry.lexer.Ready cs s
      ∧ Does cs lx s (.act a) entry s := by
  obtain ⟨events, state, failure, hperform, hact⟩ := lx.exists_perform_act a
  obtain ⟨-, hlast, -, -, -⟩ := State.perform_frame hperform
  have hafter : Ready cs { lx with state } s :=
    ⟨hready.stream, hready.shows, hready.noEmptyMatch, hready.cells, hready.room.caret,
      hready.room.length_lt, fun t ht => hready.room.lastToken t (hlast ▸ ht)⟩
  exact ⟨_, hact, hafter, .act hperform⟩

/-- The lexer is as ready on another stream over the text, if there is room for
what is left there. -/
theorem Ready.placed (hready : lx.Ready cs s) {u : CharStream} {p : Caret} (hu : u.Shows cs)
    (hroom : p.Room (cs.length - u.index)) : (lx.placed u p).Ready cs u where
  stream := rfl
  shows := hu
  noEmptyMatch := hready.noEmptyMatch
  cells := hready.cells
  room := ⟨hroom, hready.room.length_lt, hready.room.lastToken⟩

theorem Ready.does_notify (hready : lx.Ready cs s) (e : RecognitionError) :
    ∃ entry u, (Command.notify e).perform lx = entry.run ∧ entry.lexer.Ready cs u
      ∧ Does cs lx s (.notify e) entry u := by
  obtain ⟨events, u, hnotify, hadv, hindex⟩ := notify_placed hready.stream e
  have hroom : lx.caret.Room (cs.length - u.index) := hindex ▸ hready.room.caret
  exact ⟨⟨events, .done, lx.placed u lx.caret⟩, u, Run.bind_pure_of_eq_ok hnotify _,
    hready.placed (hadv.shows hready.shows) hroom, .notify hindex⟩

theorem Ready.does_recover (hready : lx.Ready cs s) (e : RecognitionError) :
    ∃ entry u, (Command.recover e).perform lx = entry.run ∧ entry.lexer.Ready cs u
      ∧ Does cs lx s (.recover e) entry u := by
  obtain ⟨u, p, hrecover, hadv, hindex, hdrops, hroom⟩ :=
    recover_placed hready.stream hready.shows hready.room.caret e
  exact ⟨⟨[.recovering e], .done, lx.placed u p⟩, u, Run.bind_pure_of_eq_ok hrecover _,
    hready.placed (hadv.shows hready.shows) hroom, .recover hindex hdrops⟩

theorem Ready.step (hready : lx.Ready cs s) {c : Command TableRecognizer} (hc : c.GoesOn) :
    ∃ entry u, c.perform lx = entry.run ∧ entry.lexer.Ready cs u ∧ Does cs lx s c entry u := by
  cases c with
  | next => exact hready.does_next
  | recover e => exact hready.does_recover e
  | notify e => exact hready.does_notify e
  | act a =>
      obtain ⟨entry, hperform, hafter, hdoes⟩ := hready.does_act a
      exact ⟨entry, s, hperform, hafter, hdoes⟩
  | _ => exact hc.elim

/-- Whatever entry such a command has left, it is one of those. -/
theorem Ready.does (hready : lx.Ready cs s) {c : Command TableRecognizer} (hc : c.GoesOn)
    {entry : Entry TableRecognizer} (hperform : c.perform lx = entry.run) :
    ∃ u, entry.lexer.Ready cs u ∧ Does cs lx s c entry u := by
  obtain ⟨entry', u, hperform', hafter, hdoes⟩ := hready.step hc
  obtain rfl := Entry.run_injective (hperform'.symm.trans hperform)
  exact ⟨u, hafter, hdoes⟩

/-- A lexer that is ready gets through every session of such commands. -/
theorem Ready.exists_trace : ∀ {commands : List (Command TableRecognizer)}
    {lx : Lexer TableRecognizer} {s : CharStream}, lx.Ready cs s →
    (∀ c ∈ commands, c.GoesOn) → ∃ entries, Trace lx commands entries
  | [], _, _, _, _ => ⟨[], .nil⟩
  | c :: commands, lx, s, hready, hc => by
      obtain ⟨entry, u, hperform, hafter, -⟩ := hready.step (hc c (List.mem_cons_self ..))
      obtain ⟨entries, htrace⟩ := hafter.exists_trace fun c h => hc c (List.mem_cons_of_mem _ h)
      exact ⟨entry :: entries, .cons hperform htrace⟩

end Lexer

end ModalLexer
