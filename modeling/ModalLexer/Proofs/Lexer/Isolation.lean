import ModalLexer.Proofs.Actions
import ModalLexer.Proofs.Lexer.Call
import ModalLexer.Proofs.Script
import ModalLexer.Sample

/-!
# Candidates keep to themselves

Where a token comes from, whatever the recognizer. A call discards some
candidates and completes one, and the token is made of the actions of that
one and of where it began. Decisions are even shorter lived: they concern one
match. So nothing that was set for a candidate that was skipped, or for one
that failed, is left when the next one begins.
-/

namespace ModalLexer

open ModalLexer.Action

/-- A match that was decided: the actions it carried out, and what it amounts
to without them. -/
structure Match where
  actions : List Action
  outcome : TokenType

/-- The last word that an action had, or else the outcome. -/
def Match.decision (m : Match) : TokenType := (lastOf type? m.actions).getD m.outcome

/-- What a finding amounts to, the candidate having begun at one index and the
match having ended at another. A failure is skipped, and so is a match of the
reserved type in the middle of a candidate. -/
def Finding.amount (start stop : Nat) : Finding → TokenType
  | .noRule _ => .skip
  | .matched type => if type = .type eofType ∧ start < stop then .skip else type

namespace Head

variable {ρ : Type}

/-! ## What a candidate gathers -/

/-- The actions are all that changes the candidate between two heads. -/
structure Gathers (acts : List Action) (h h' : Head ρ) : Prop where
  start? : h'.state.candidate.start? = h.state.candidate.start?
  channel : h'.state.candidate.channel
    = (lastOf channel? acts).getD h.state.candidate.channel
  text? : h'.state.candidate.text? = (lastOf text? acts).or h.state.candidate.text?
  token? : h'.state.token? = (lastOf emitted? acts).or h.state.token?

theorem Gathers.trans {acts rest : List Action} {h h₁ h' : Head ρ} (hfirst : Gathers acts h h₁)
    (hrest : Gathers rest h₁ h') : Gathers (acts ++ rest) h h' where
  start? := hrest.start?.trans hfirst.start?
  channel := by
    rw [hrest.channel, hfirst.channel, lastOf_append]
    cases lastOf channel? rest <;> rfl
  text? := by rw [hrest.text?, hfirst.text?, lastOf_append, Option.or_assoc]
  token? := by rw [hrest.token?, hfirst.token?, lastOf_append, Option.or_assoc]

variable [Recognizer ρ] {reporter : Reporter} {h h' : Head ρ} {events : List Event}

/-- The match is what the recognizer answered. -/
def Answered (h : Head ρ) (m : Match) : Prop :=
  ∃ seen found finding start,
    Recognizer.scan h.recognizer h.stream h.state.mode h.undecided.state
        = { events := seen, outcome := .ok found }
      ∧ found.actions = m.actions ∧ found.outcome = .ok finding
      ∧ h.state.candidate.start? = some start
      ∧ m.outcome = finding.amount start.index found.stream.index

/-- What is settled for a match is what its finding amounts to. -/
theorem settle_amount {start : Start} (hbegan : h.state.candidate.start? = some start)
    {mode : ModeId} {finding : Finding} {matched : TokenType}
    (hsettle : h.settle reporter (h.refuseEofText mode finding)
      = { events, outcome := .ok (h', matched) }) :
    h'.state = h.state ∧ matched = finding.amount start.index h.index := by
  obtain ⟨hstate, hsettled⟩ := settle_state hsettle
  refine ⟨hstate, ?_⟩
  rw [refuseEofText_eq hbegan] at hsettled
  cases finding with
  | noRule site =>
      rw [if_neg (by simp)] at hsettled
      rcases hsettled with heq | ⟨_, -, rfl⟩
      · cases heq
      · rfl
  | matched type =>
      by_cases hrefused : type = .type eofType ∧ start.index < h.index
      · rw [if_pos ⟨congrArg _ hrefused.1, hrefused.2⟩] at hsettled
        rcases hsettled with heq | ⟨_, -, rfl⟩
        · cases heq
        · exact (if_pos hrefused).symm
      · rw [if_neg fun heq => hrefused ⟨Finding.matched.inj heq.1, heq.2⟩] at hsettled
        rcases hsettled with heq | ⟨_, heq, -⟩
        · exact (Finding.matched.inj heq).symm.trans (if_neg hrefused).symm
        · cases heq

theorem Turn.answered {start : Start} (hbegan : h.state.candidate.start? = some start)
    {decision : TokenType} (hturn : h.Turn reporter events h' (.ok decision)) :
    ∃ m : Match, h.Answered m ∧ m.decision = decision ∧ Gathers m.actions h h' := by
  cases hturn with
  | @decided before after h₁ h₂ _ outcome matched _ hmatch hsettle hfinal =>
      obtain ⟨seen, performed, found, state, failure, hscan, hperform, rfl, hfound, -⟩ :=
        matchToken_eq_ok.mp hmatch
      cases failure with
      | some e => cases hfound
      | none =>
          have hoff : h.undecided.state.candidate.type? = none := rfl
          obtain ⟨htype, hchannel, htext, htoken⟩ := State.perform_all hperform
          obtain ⟨-, -, hstart, -, -⟩ := State.perform_frame hperform
          obtain ⟨hstate, hmatched⟩ := settle_amount (hstart.trans hbegan) hsettle
          refine ⟨⟨found.actions, matched⟩,
            ⟨seen, found, outcome, start, hscan, rfl, hfound.symm, hbegan, hmatched⟩, ?_⟩
          rw [noteEof_eq] at hfinal
          obtain ⟨rfl, rfl⟩ := Prod.mk.inj hfinal
          rw [hoff, Option.or_none] at htype
          simp only [hstate, State.setType]
          refine ⟨?_, ⟨hstart, hchannel, htext, htoken⟩⟩
          rw [Match.decision, htype]

/-- Matches that were decided, one after the other. -/
inductive Matches (reporter : Reporter) : Head ρ → List Match → List Event → Head ρ → Prop
  | nil {h : Head ρ} : Matches reporter h [] [] h
  | cons {h h₁ h' : Head ρ} {m : Match} {ms : List Match} {before after : List Event}
      (hanswered : h.Answered m) (hturn : h.Turn reporter before h₁ (.ok m.decision))
      (hrest : Matches reporter h₁ ms after h') :
      Matches reporter h (m :: ms) (before ++ after) h'

theorem Assembles.matches {start : Start} (hbegan : h.state.candidate.start? = some start)
    {outcome : Except LexerError TokenType}
    (hcandidate : h.Assembles reporter events h' outcome) {decision : TokenType}
    (hok : outcome = .ok decision) :
    ∃ ms m, h.Matches reporter (ms ++ [m]) events h' ∧ (∀ k ∈ ms, k.decision = .more)
      ∧ m.decision = decision ∧ Gathers ((ms ++ [m]).flatMap Match.actions) h h' := by
  -- only the decision is forgotten between two matches, so the rest adds up
  induction hcandidate with
  | last hturn _ =>
      subst hok
      obtain ⟨m, hanswered, rfl, hgathers⟩ := hturn.answered hbegan
      have hone := Matches.cons hanswered hturn .nil
      rw [List.append_nil] at hone
      exact ⟨[], m, hone, by simp, rfl, by simpa using hgathers⟩
  | more hturn _ ih =>
      obtain ⟨m, hanswered, hmore, hgathers⟩ := hturn.answered hbegan
      obtain ⟨ms, last, hmatches, hall, hlast, hrest⟩ := ih (hgathers.start?.trans hbegan) hok
      refine ⟨m :: ms, last, .cons hanswered (hmore ▸ hturn) hmatches, ?_, hlast, ?_⟩
      · intro k hk
        rcases List.mem_cons.mp hk with rfl | hk
        · exact hmore
        · exact hall k hk
      · rw [List.cons_append, List.flatMap_cons]
        exact hgathers.trans hrest

/-! ## The last candidate of a call -/

/-- Candidates that were discarded, one after the other. -/
inductive Discarded (reporter : Reporter) : Head ρ → List Event → Head ρ → Prop
  | nil {h : Head ρ} : Discarded reporter h [] h
  | cons {h h₁ h' : Head ρ} {before after : List Event} (heof : h.state.eofSeen = false)
      (hcandidate : h.begun.Assembles reporter before h₁ (.ok .skip))
      (hrest : Discarded reporter h₁ after h') :
      Discarded reporter h (before ++ after) h'

theorem Discarded.moves {M : CharStream → CharStream → Prop} (hM : CharStream.Motion M)
    (hρ : Recognizer.MovesBy ρ M) (h₀ : h.Discarded reporter events h') :
    M h.stream h'.stream := by
  induction h₀ with
  | nil => exact hM.refl _
  | cons _ hcandidate _ ih =>
      have hfirst := hcandidate.moves hM hρ
      exact hM.trans hfirst ih

/-- A call that returns a token has discarded some candidates, and then either
found the end of the stream seen or completed the next one. -/
theorem Produces.last_candidate {result : Except LexerError Token} {t : Token}
    (hcall : h.Produces reporter events h' result) (hok : result = .ok t) :
    (∃ h₀, h.Discarded reporter events h₀ ∧ h₀.state.eofSeen = true
        ∧ h₀.giveEof reporter.source = .ok (h', t))
      ∨ ∃ h₀ h₁ before after type, events = before ++ after
        ∧ h.Discarded reporter before h₀ ∧ h₀.state.eofSeen = false
        ∧ h₀.begun.Assembles reporter after h₁ (.ok (.type type))
        ∧ h₁.complete reporter.source h₀.here type = .ok (h', t) := by
  induction hcall with
  | sentinel heof hgive =>
      obtain rfl := Except.ok.inj hok
      exact .inl ⟨_, .nil, heof, hgive⟩
  | broken => cases hok
  | completed heof hcandidate hcomplete =>
      obtain rfl := Except.ok.inj hok
      exact .inr ⟨_, _, [], _, _, rfl, .nil, heof, hcandidate, hcomplete⟩
  | discarded heof hcandidate _ ih =>
      rcases ih hok with ⟨h₀, hdiscarded, hseen, hgive⟩ |
        ⟨h₀, h₁, before, after, type, rfl, hdiscarded, hunseen, hlast, hcomplete⟩
      · exact .inl ⟨h₀, .cons heof hcandidate hdiscarded, hseen, hgive⟩
      · exact .inr ⟨h₀, h₁, _, after, type, (List.append_assoc ..).symm,
          .cons heof hcandidate hdiscarded, hunseen, hlast, hcomplete⟩

end Head

/-! ## The token -/

namespace Lexer

variable {ρ : Type} [Recognizer ρ]

/-- What is given out for a candidate that began in `h`, carried out `acts` and
was completed with `type` at index `stop`, in a call that began at `s`. -/
inductive Makes (lx : Lexer ρ) (s : CharStream) (h : Head ρ) (acts : List Action)
    (type : TokenId) (stop : Nat) (t : Token) : Prop
  /-- The last token that was emitted, whatever else happened. -/
  | emitted (hemitted : lastOf emitted? acts = some t)
  | sentinel (hemitted : lastOf emitted? acts = none) (htype : type = eofType)
      (heof : t.isEof = true)
  /-- The token that is made from the candidate. -/
  | built (hemitted : lastOf emitted? acts = none) (htype : type ≠ eofType)
      (ht : t = {
        type
        channel := (lastOf channel? acts).getD defaultChannel
        text := (lastOf text? acts).getD
          (String.ofList (s.drain.1.extract (h.index - s.index) (stop - s.index)))
        start := h.index
        stop := (stop : Int) - 1
        line := h.caret.line
        column := h.caret.column
        source := lx.source })

/-- Where a token comes from that is returned by a call which began at `s` and
ended at index `stop`. -/
inductive Origin (lx : Lexer ρ) (s : CharStream) (events : List Event) (stop : Nat)
    (t : Token) : Prop
  /-- The end of the stream had been seen. -/
  | sentinel {h : Head ρ} (hdiscarded : (lx.marked s).Discarded lx.reporter events h)
      (hseen : h.state.eofSeen = true) (heof : t.isEof = true)
  /-- The last candidate of the call was completed. -/
  | candidate {h h' : Head ρ} {before after : List Event} {ms : List Match} {m : Match}
      {type : TokenId} (hevents : events = before ++ after)
      (hdiscarded : (lx.marked s).Discarded lx.reporter before h)
      (hmatches : h.begun.Matches lx.reporter (ms ++ [m]) after h')
      (hmore : ∀ k ∈ ms, k.decision = .more) (hlast : m.decision = .type type)
      (hstop : h'.index = stop)
      (hmakes : lx.Makes s h ((ms ++ [m]).flatMap Match.actions) type stop t)

/-- A token is made of the last candidate of its call, and of nothing else. -/
theorem origin_of_nextToken (hρ : Recognizer.MovesBy ρ CharStream.Advances) {lx lx' : Lexer ρ}
    {s : CharStream} (hstream : lx.stream? = some s) {events : List Event} {t : Token}
    (hcall : lx.nextToken = { events, outcome := .ok (lx', .ok t) }) :
    lx.Origin s events lx'.index t := by
  obtain ⟨h', u, hcourse, hreleased, rfl⟩ := produces_of_nextToken hρ hstream hcall
  have hstop : (lx.after h' u (.ok t)).index = h'.index := hreleased.index
  rw [hstop]
  rcases hcourse.last_candidate rfl with ⟨h, hdiscarded, hseen, hgive⟩ |
    ⟨h, h₁, before, after, type, rfl, hdiscarded, -, hcandidate, hcomplete⟩
  · exact .sentinel hdiscarded hseen (Head.isEof_of_eofToken (Head.giveEof_eq_ok hgive).1)
  · obtain ⟨ms, m, hmatches, hmore, hlast, hgathers⟩ := hcandidate.matches rfl rfl
    obtain ⟨rfl, hmade⟩ := Head.complete_eq_ok hcomplete
    have hgive : (h₁.give t).index = h₁.index := rfl
    rw [hgive]
    refine .candidate rfl hdiscarded hmatches hmore hlast rfl ?_
    have htoken : h₁.state.token? = lastOf emitted? ((ms ++ [m]).flatMap Match.actions) :=
      hgathers.token?.trans Option.or_none
    have htext : h₁.state.candidate.text? = lastOf text? ((ms ++ [m]).flatMap Match.actions) :=
      hgathers.text?.trans Option.or_none
    rcases hmade with hemitted | ⟨hnone, htype, heof⟩ | ⟨hnone, htype, ht⟩
    · exact .emitted (htoken.symm.trans hemitted)
    · exact .sentinel (htoken.symm.trans hnone) htype (Head.isEof_of_eofToken heof)
    · refine .built (htoken.symm.trans hnone) htype ?_
      have hbefore := hdiscarded.moves CharStream.Advances.motion hρ
      have hlastMoves := hcandidate.moves CharStream.Advances.motion hρ
      have hslice : h₁.stream.slice h.index h₁.index
          = String.ofList (s.drain.1.extract (h.index - s.index) (h₁.index - s.index)) :=
        CharStream.slice_marked (hbefore.trans hlastMoves) (s.index_mark ▸ hbefore.index_le)
      rw [ht, Head.tokenAt, htext, hgathers.channel, ← hslice]
      rfl

/-- The blank leaves nothing behind, and the `a` its channel. -/
theorem origin_of_nextToken_wavering :
    ∃ events lx' t,
      (Lexer.attach { recognizer := Sample.wavering } (.ofString " abc")).nextToken
          = { events, outcome := .ok (lx', .ok t) }
        ∧ t = {
          type := 6, channel := 2, text := "abc", start := 1, stop := 3, line := 1, column := 2
          source := { attachment := 1 } }
        ∧ (Lexer.attach { recognizer := Sample.wavering } (.ofString " abc")).Origin
          (.ofString " abc") events lx'.index t := by
  have hcall : ∃ events lx' t,
      (Lexer.attach { recognizer := Sample.wavering } (.ofString " abc")).nextToken
          = { events, outcome := .ok (lx', .ok t) }
        ∧ t = {
          type := 6, channel := 2, text := "abc", start := 1, stop := 3, line := 1, column := 2
          source := { attachment := 1 } } :=
    ⟨_, _, _, rfl, by decide +kernel⟩
  obtain ⟨events, lx', t, hcall, ht⟩ := hcall
  exact ⟨events, lx', t, hcall, ht,
    origin_of_nextToken (ScriptRecognizer.movesBy CharStream.Advances.motion) rfl hcall⟩

end Lexer

end ModalLexer
