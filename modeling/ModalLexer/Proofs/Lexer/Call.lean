import ModalLexer.Lexer
import ModalLexer.Proofs.Lexer.Course

/-!
# Calls for the next token

A call is a production between a mark and its release. Whatever the
recognizer does, as long as it only moves forward the marker is the last one
outstanding when it is given back, so the release succeeds and leaves the
stream where the production has left it.
-/

namespace ModalLexer

namespace Lexer

variable {ρ : Type} {lx lx' : Lexer ρ} {s : CharStream} {events : List Event}
  {result : Except LexerError Token}

/-- The lexer after a call whose production ended in `h`, with the stream `u`
from which the marker of the call has been taken. -/
def after (lx : Lexer ρ) (h : Head ρ) (u : CharStream) (result : Except LexerError Token) :
    Lexer ρ :=
  { lx with
    stream? := some u
    recognizer := h.recognizer
    state := h.state
    error? := match result with
      | .ok _ => none
      | .error e => some e }

theorem remember_withHead (h : Head ρ) (u : CharStream) :
    (lx.withHead { h with stream := u }).remember result = (lx.after h u result, result) := by
  cases result <;> rfl

/-- The production of a call starts behind the mark. -/
def marked (lx : Lexer ρ) (s : CharStream) : Head ρ := lx.head s.mark.2

@[simp] theorem index_marked (lx : Lexer ρ) (s : CharStream) : (lx.marked s).index = s.index :=
  s.index_mark

theorem keepsFrom_marked (lx : Lexer ρ) (s : CharStream) :
    (lx.marked s).stream.KeepsFrom (lx.marked s).index := by
  rw [index_marked]
  exact s.keepsFrom_mark

variable [Recognizer ρ]

theorem nextToken_eq_ok (hρ : Recognizer.MovesBy ρ CharStream.Advances)
    (hstream : lx.stream? = some s) :
    lx.nextToken = { events, outcome := .ok (lx', result) } ↔
      ∃ h u, (lx.marked s).produce lx.reporter s.mark.2.stepLimit s.mark.2.stepLimit
            = { events, outcome := .ok (h, result) }
          ∧ h.stream.release s.mark.1 = pure u ∧ CharStream.Released s h.stream u
          ∧ lx' = lx.after h u result := by
  simp only [nextToken, hstream, Run.bind_eq_ok]
  constructor
  · rintro ⟨before, ⟨h, r⟩, rest, hproduce, ⟨mid, u, last, hrelease, hlast, rfl⟩, rfl⟩
    have hmoves := (Head.produces_of_produce hproduce).moves CharStream.Advances.motion hρ
    obtain ⟨v, hv, hreleased⟩ := CharStream.release_mark (s := s) hmoves.outstanding_eq
    rw [hv] at hrelease
    obtain ⟨rfl, rfl⟩ := Run.pure_eq_ok.mp hrelease
    rw [remember_withHead] at hlast
    obtain ⟨rfl, rfl, rfl⟩ := Run.pure_pair_eq_ok.mp hlast
    simp only [List.append_nil]
    exact ⟨h, u, hproduce, hv, hreleased, rfl⟩
  · rintro ⟨h, u, hproduce, hrelease, -, rfl⟩
    refine ⟨events, (h, result), [], hproduce, ⟨[], u, [], by rw [hrelease]; rfl, ?_, rfl⟩,
      by simp⟩
    rw [remember_withHead]
    rfl

/-- A call that comes to an end has taken the course of a production. -/
theorem produces_of_nextToken (hρ : Recognizer.MovesBy ρ CharStream.Advances)
    (hstream : lx.stream? = some s)
    (hcall : lx.nextToken = { events, outcome := .ok (lx', result) }) :
    ∃ h u, (lx.marked s).Produces lx.reporter events h result
      ∧ CharStream.Released s h.stream u ∧ lx' = lx.after h u result := by
  obtain ⟨h, u, hproduce, -, hreleased, rfl⟩ := (nextToken_eq_ok hρ hstream).mp hcall
  exact ⟨h, u, Head.produces_of_produce hproduce, hreleased, rfl⟩

/-- A production that comes to an end makes the call come to an end. -/
theorem exists_nextToken (hρ : Recognizer.MovesBy ρ CharStream.Advances)
    (hstream : lx.stream? = some s) {h : Head ρ}
    (hproduce : (lx.marked s).produce lx.reporter s.mark.2.stepLimit s.mark.2.stepLimit
      = { events, outcome := .ok (h, result) }) :
    ∃ u, CharStream.Released s h.stream u
      ∧ lx.nextToken = { events, outcome := .ok (lx.after h u result, result) } := by
  have hmoves := (Head.produces_of_produce hproduce).moves CharStream.Advances.motion hρ
  obtain ⟨u, hrelease, hreleased⟩ := CharStream.release_mark (s := s) hmoves.outstanding_eq
  exact ⟨u, hreleased, (nextToken_eq_ok hρ hstream).mpr ⟨h, u, hproduce, hrelease, hreleased, rfl⟩⟩

/-- A call returns the token that its run comes to. -/
theorem exists_nextToken_of_token {t : Token}
    (h : (lx.nextToken.outcome.toOption.bind fun r => r.2.toOption) = some t) :
    ∃ events lx', lx.nextToken = { events, outcome := .ok (lx', .ok t) } := by
  generalize lx.nextToken = run at h ⊢
  rcases run with ⟨events, _ | ⟨lx', _ | u⟩⟩
  · cases h
  · cases h
  · cases h
    exact ⟨events, lx', rfl⟩

/-! ## How a call begins -/

/-- Once the end of the stream has been seen, a call makes the sentinel and
matches nothing. -/
theorem nextToken_of_seen (hstream : lx.stream? = some s) (hseen : lx.state.eofSeen = true) :
    ∃ u, s.mark.2.release s.mark.1 = pure u
      ∧ lx.nextToken = (fun t => (lx.after ((lx.marked s).give t) u (.ok t), .ok t)) <$>
        Run.ofExcept ((lx.marked s).eofToken lx.source) := by
  obtain ⟨n, hn⟩ : ∃ n, s.mark.2.stepLimit = n + 1 := ⟨_, rfl⟩
  obtain ⟨u, hrelease, -⟩ := CharStream.release_mark (s := s) (t := s.mark.2) rfl
  refine ⟨u, hrelease, ?_⟩
  simp only [nextToken, hstream, hn, Head.produce]
  rw [if_pos (show (lx.head s.mark.2).state.eofSeen = true from hseen)]
  have hgive : (lx.head s.mark.2).giveEof lx.reporter.source
      = (fun t => ((lx.marked s).give t, t)) <$> (lx.marked s).eofToken lx.source :=
    (map_eq_pure_bind _ _).symm
  rw [hgive]
  cases (lx.marked s).eofToken lx.source with
  | error fault => rfl
  | ok t =>
      -- nothing has been read since the mark was made
      change (((lx.marked s).give t).stream.release s.mark.1 >>= fun stream =>
        pure ((lx.withHead { (lx.marked s).give t with stream }).remember (.ok t))) = _
      rw [show ((lx.marked s).give t).stream.release s.mark.1 = pure u from hrelease]
      rfl

/-- A call to the lexer with the stream `s` begins a candidate, and concludes from
it what the call comes to. -/
structure BeginsAnew (lx : Lexer ρ) (s : CharStream) : Prop where
  /-- The candidate begins where the lexer stands, and nothing of it is set. -/
  begun : (lx.marked s).begun = {
    stream := s.mark.2
    recognizer := lx.recognizer
    state := { lx.state with
      token? := none
      candidate := { start? := some ⟨lx.index, lx.caret⟩ } } }
  /-- It is the first that can be seen of the call, even of one that does not
  come to its end. -/
  first : (Head.assemble lx.reporter s.mark.2.stepLimit (lx.marked s).begun).events
    <+: lx.nextToken.events
  course : ∀ (events : List Event) (lx' : Lexer ρ) (result : Except LexerError Token),
    lx.nextToken = { events, outcome := .ok (lx', result) } →
      ∃ tried rest k decision h u, events = tried ++ rest
        ∧ (lx.marked s).begun.Assembles lx.reporter tried k decision
        ∧ (lx.marked s).Concludes lx.reporter k decision rest h result
        ∧ CharStream.Released s h.stream u ∧ lx' = lx.after h u result

/-- Before the end of the stream has been seen, every call begins so. -/
theorem beginsAnew_of_unseen (hρ : Recognizer.MovesBy ρ CharStream.Advances)
    (hstream : lx.stream? = some s) (hunseen : lx.state.eofSeen = false) : lx.BeginsAnew s where
  begun := by
    rw [Head.begun, Head.here, index_marked, Lexer.index, hstream]
    rfl
  first := by
    obtain ⟨n, hn⟩ : ∃ n, s.mark.2.stepLimit = n + 1 := ⟨_, rfl⟩
    have hbegin : ¬(lx.head s.mark.2).state.eofSeen = true := by simp [head, hunseen]
    simp only [nextToken, hstream]
    rw [hn, Head.produce, if_neg hbegin, bind_assoc, ← hn]
    exact Run.events_prefix_bind _ _
  course := by
    intro events lx' result hcall
    obtain ⟨h, u, hcourse, hreleased, rfl⟩ := produces_of_nextToken hρ hstream hcall
    obtain ⟨tried, rest, k, decision, rfl, hcandidate, hconcludes⟩ :=
      hcourse.first_candidate hunseen
    exact ⟨tried, rest, k, decision, h, u, rfl, hcandidate, hconcludes, hreleased, rfl⟩

end Lexer

end ModalLexer
