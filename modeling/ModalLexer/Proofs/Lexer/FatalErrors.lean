import ModalLexer.Proofs.Automaton.Effect
import ModalLexer.Proofs.Automaton.Turn
import ModalLexer.Proofs.Caret
import ModalLexer.Proofs.Lexer.Failure
import ModalLexer.Proofs.Lexer.Leftovers

/-!
# Errors that end a call

A mode that does not exist and the leaving of a mode that was not entered are
defects of the grammar, and end a call in the middle of a candidate. The lexer
stays usable: the marker of the call is given back, the match that failed has
not touched the modes, and what the candidate had gathered is overwritten when
the next one begins.

The argument has three parts. `Produces.broken_candidate` and
`Assembles.broken_match` find the match that failed behind everything that the
call did before; `Head.breaks_of_matchToken` says what a table-driven lexer
leaves of it; and the next call begins as any call does (`nextToken_of_seen`,
`beginsAnew_of_unseen`), whatever is left over (`nextToken_eq_of_swept_eq`).
-/

namespace ModalLexer

namespace Head

/-! ## Where a call breaks off -/

section Course

variable {ρ : Type} [Recognizer ρ] {reporter : Reporter} {h h' : Head ρ} {events : List Event}

theorem Discarded.lastToken?_eq (hdiscarded : h.Discarded reporter events h') :
    h'.state.lastToken? = h.state.lastToken? := by
  induction hdiscarded with
  | nil => rfl
  | cons _ hcandidate _ ih => exact ih.trans (Assembles.lastToken?_eq (h := begun _) hcandidate)

theorem Matches.lastToken?_eq {ms : List Match} (hmatches : h.Matches reporter ms events h') :
    h'.state.lastToken? = h.state.lastToken? := by
  induction hmatches with
  | nil => rfl
  | cons _ hturn _ ih => exact ih.trans hturn.lastToken?_eq

theorem Matches.moves {M : CharStream → CharStream → Prop} (hM : CharStream.Motion M)
    (hρ : Recognizer.MovesBy ρ M) {ms : List Match} (hmatches : h.Matches reporter ms events h') :
    M h.stream h'.stream := by
  induction hmatches with
  | nil => exact hM.refl _
  | cons _ hturn _ ih => exact hM.trans (hturn.moves hM hρ) ih

/-- A candidate that ends its call has kept the text of some matches, and then
come upon one that fails. -/
theorem Assembles.broken_match {start : Start} (hbegan : h.state.candidate.start? = some start)
    {decision : Except LexerError TokenType}
    (hcandidate : h.Assembles reporter events h' decision) {e : LexerError}
    (herror : decision = .error e) :
    ∃ ms before last h₁, events = before ++ last ∧ h.Matches reporter ms before h₁
      ∧ (∀ m ∈ ms, m.decision = .more)
      ∧ h₁.undecided.matchToken h₁.state.mode
        = { events := last, outcome := .ok (h', .error e) } := by
  induction hcandidate with
  | last hturn _ =>
      subst herror
      cases hturn with
      | stopped hmatch => exact ⟨[], [], _, _, rfl, .nil, by simp, hmatch⟩
  | more hturn _ ih =>
      obtain ⟨m, hanswered, hmore, hgathers⟩ := hturn.answered hbegan
      obtain ⟨ms, before, last, h₁, rfl, hmatches, hall, hmatch⟩ :=
        ih (hgathers.start?.trans hbegan) herror
      refine ⟨m :: ms, _, last, h₁, (List.append_assoc ..).symm,
        .cons hanswered (hmore ▸ hturn) hmatches, ?_, hmatch⟩
      intro k hk
      rcases List.mem_cons.mp hk with rfl | hk
      · exact hmore
      · exact hall k hk

/-- A call that ends with an error has discarded some candidates and broken off
the next one. -/
theorem Produces.broken_candidate {result : Except LexerError Token}
    (hcall : h.Produces reporter events h' result) {e : LexerError} (herror : result = .error e) :
    ∃ h₀ before after, events = before ++ after ∧ h.Discarded reporter before h₀
      ∧ h₀.state.eofSeen = false ∧ h₀.begun.Assembles reporter after h' (.error e) := by
  induction hcall with
  | sentinel => cases herror
  | broken hunseen hcandidate =>
      obtain rfl := Except.error.inj herror
      exact ⟨_, [], _, rfl, .nil, hunseen, hcandidate⟩
  | completed => cases herror
  | discarded hunseen hcandidate _ ih =>
      obtain ⟨h₀, before, after, rfl, hdiscarded, hunseen₀, hbroken⟩ := ih herror
      exact ⟨h₀, _, after, (List.append_assoc ..).symm, .cons hunseen hcandidate hdiscarded,
        hunseen₀, hbroken⟩

end Course

/-! ## What a failing match leaves -/

/-- A match that begins in `h` ends the call with an error, at the index and
the caret given. -/
inductive Breaks (h : Head TableRecognizer) : LexerError → Nat → Caret → Prop
  /-- There is nothing to match with, so nothing is read. -/
  | unknownMode (hmode : h.recognizer.automaton.startStates[h.state.mode]? = none) :
      Breaks h (.unknownMode h.state.mode) h.index h.caret
  /-- The rule that matches would leave a mode that was not entered. The text
  of the match has been passed. -/
  | emptyModeStack {start : StateId} {w : Automaton.Walk} {terminal : Terminal}
      (hmode : h.recognizer.automaton.startStates[h.state.mode]? = some start)
      (hwalk : h.recognizer.automaton.walk h.recognizer.tab start h.caret h.stream = .ok w)
      (hterminal : h.recognizer.automaton.terminal? w.state = some terminal)
      (hpop : terminal.pop = true) (hstack : h.state.modeStack = [])
      (hpassed : ∀ cs, h.stream.Shows cs →
        h.caret.passAll h.recognizer.tab (cs.extract h.index w.stream.index) = .ok w.caret) :
      Breaks h (.emptyModeStack h.state.mode) w.stream.index w.caret

theorem breaks_of_matchToken {h h' : Head TableRecognizer} {events : List Event} {e : LexerError}
    (hmatch : h.undecided.matchToken h.state.mode = { events, outcome := .ok (h', .error e) }) :
    h.Breaks e h'.index h'.caret ∧ h'.state = h.undecided.state := by
  obtain ⟨_, _, scan, state, failure, hscan, hperform, rfl, hfound, -⟩ :=
    matchToken_eq_ok.mp hmatch
  cases TableRecognizer.scan_eq_ok.mp hscan with
  | unknown hmode =>
      obtain ⟨rfl, rfl, -⟩ := Run.pure_pair_eq_ok.mp hperform
      obtain rfl := Except.error.inj hfound
      exact ⟨.unknownMode hmode, rfl⟩
  | accepted hmode hwalk hterminal =>
      have houtcome := congrArg Run.outcome hperform
      rcases Terminal.perform_actions_eq_ok houtcome with ⟨-, rfl⟩ | ⟨e', happly, rfl, rfl⟩
      · cases hfound
      · obtain rfl := Except.error.inj hfound
        obtain ⟨hpop, hstack, rfl⟩ := Terminal.apply_eq_error_iff.mp happly
        have hpassed := fun cs (hs : h.stream.Shows cs) => Automaton.passAll_of_walk hs hwalk
        exact ⟨.emptyModeStack hmode hwalk hterminal hpop hstack hpassed, rfl⟩
  | atEnd | stuck =>
      obtain ⟨-, rfl, -⟩ := Run.pure_pair_eq_ok.mp hperform
      cases hfound

end Head

namespace Lexer

/-! ## What an error leaves -/

/-- The lexer `lx'` as the error `e` leaves it, with the stream `u`. The call was
made to `lx` at stream `s`, and the match that failed in it began in `h`. -/
structure BrokenOff (lx : Lexer TableRecognizer) (s : CharStream) (e : LexerError)
    (h : Head TableRecognizer) (lx' : Lexer TableRecognizer) (u : CharStream) : Prop where
  error? : lx'.error? = some e
  stream? : lx'.stream? = some u
  /-- It is the same text, with the same markers on it. -/
  shows : ∀ cs, s.Shows cs → h.stream.Shows cs ∧ u.Shows cs
  outstanding : u.outstanding = s.outstanding
  lastToken? : lx'.state.lastToken? = lx.state.lastToken?
  source : lx'.source = lx.source
  attachments : lx'.attachments = lx.attachments
  options : lx'.options = lx.options
  listeners : lx'.listeners = lx.listeners
  /-- Where the lexer stands, by the kind of error. -/
  breaks : h.Breaks e lx'.index lx'.caret
  mode : lx'.state.mode = h.state.mode
  modeStack : lx'.state.modeStack = h.state.modeStack
  channel : lx'.state.candidate.channel = h.state.candidate.channel
  eofSeen : lx'.state.eofSeen = h.state.eofSeen

theorem brokenOff_after {lx : Lexer TableRecognizer} {s u : CharStream}
    {h₀ h h' : Head TableRecognizer} {before mid last : List Event} {ms : List Match}
    {e : LexerError} (hdiscarded : (lx.marked s).Discarded lx.reporter before h₀)
    (hmatches : h₀.begun.Matches lx.reporter ms mid h)
    (hmatch : h.undecided.matchToken h.state.mode
      = { events := last, outcome := .ok (h', .error e) })
    (hreleased : CharStream.Released s h'.stream u) :
    lx.BrokenOff s e h (lx.after h' u (.error e)) u := by
  obtain ⟨hbreaks, hstate⟩ := Head.breaks_of_matchToken hmatch
  have hskipped := hdiscarded.moves CharStream.Advances.motion TableRecognizer.advances
  have hkept := hmatches.moves CharStream.Advances.motion TableRecognizer.advances
  have hfailed := Head.matchToken_moves (h := h.undecided) CharStream.Advances.motion
    TableRecognizer.advances hmatch
  have hlast : h.state.lastToken? = lx.state.lastToken? :=
    hmatches.lastToken?_eq.trans hdiscarded.lastToken?_eq
  have hindex : (lx.after h' u (.error e)).index = h'.index := hreleased.index
  have hafter : (lx.after h' u (.error e)).state = h.undecided.state := hstate
  refine {
    error? := rfl, stream? := rfl, outstanding := hreleased.outstanding, source := rfl
    attachments := rfl, options := rfl, listeners := rfl, breaks := hindex ▸ hbreaks
    shows := ?_, lastToken? := ?_, mode := ?_, modeStack := ?_, channel := ?_, eofSeen := ?_ }
  · intro cs hs
    have hs' : h.stream.Shows cs := hkept.shows (hskipped.shows hs.mark)
    exact ⟨hs', hreleased.shows (hfailed.shows hs')⟩
  · rw [hafter]
    exact hlast
  all_goals
    rw [hafter]
    rfl

/-- A call that ends with an error has broken off in the middle of a candidate,
at a match that has changed nothing but the position. The error is remembered,
the marker of the call is given back, and everything that outlasts a call is as
it was. The next call gives out the sentinel if the end of the stream had been
seen before that match; otherwise it begins a candidate of its own where the
lexer stands, and is the call of a lexer that the aborted candidate, its token
and the error have been swept from. -/
theorem fatal_error_leaves_lexer_usable {lx lx' : Lexer TableRecognizer} {s : CharStream}
    (hstream : lx.stream? = some s) {events : List Event} {result : Except LexerError Token}
    (hcall : lx.nextToken = { events, outcome := .ok (lx', result) }) :
    (∀ t, result = .ok t → lx'.error? = none)
      ∧ ∀ e, result = .error e → ∃ before mid last ms u, ∃ h₀ h h' : Head TableRecognizer,
        events = before ++ mid ++ last
          ∧ (lx.marked s).Discarded lx.reporter before h₀ ∧ h₀.state.eofSeen = false
          ∧ h₀.begun.Matches lx.reporter ms mid h ∧ (∀ m ∈ ms, m.decision = .more)
          ∧ h.undecided.matchToken h.state.mode
            = { events := last, outcome := .ok (h', .error e) }
          ∧ lx.BrokenOff s e h lx' u
          ∧ (h.state.eofSeen = true → Prod.snd <$> lx'.nextToken
            = Except.ok <$> Run.ofExcept ((lx'.marked u).eofToken lx.source))
          ∧ (h.state.eofSeen = false →
            lx'.BeginsAnew u ∧ lx'.nextToken = lx'.swept.nextToken) := by
  obtain ⟨h', u, hcourse, hreleased, rfl⟩ :=
    produces_of_nextToken TableRecognizer.advances hstream hcall
  refine ⟨fun t hok => hok ▸ rfl, ?_⟩
  rintro e rfl
  obtain ⟨h₀, before, after, rfl, hdiscarded, hunseen, hbroken⟩ := hcourse.broken_candidate rfl
  obtain ⟨ms, mid, last, h, rfl, hmatches, hmore, hmatch⟩ := hbroken.broken_match rfl rfl
  have hleft := brokenOff_after hdiscarded hmatches hmatch hreleased
  refine ⟨before, mid, last, ms, u, h₀, h, h', (List.append_assoc ..).symm, hdiscarded, hunseen,
    hmatches, hmore, hmatch, hleft, ?_, ?_⟩
  · intro hseen
    obtain ⟨v, -, hnext⟩ := nextToken_of_seen hleft.stream? (hleft.eofSeen.trans hseen)
    rw [hnext, ← comp_map]
    rfl
  · intro hunseen'
    have hunseen := hleft.eofSeen.trans hunseen'
    exact ⟨beginsAnew_of_unseen TableRecognizer.advances hleft.stream? hunseen,
      nextToken_eq_of_swept_eq hleft.stream? rfl hunseen⟩

/-- In the mode of quotations without having entered it, the closing quote has
nowhere to return to. The next call begins behind it, in the same mode: it finds
a quotation that is not closed, reports it from there on, and comes to the end. -/
theorem fatal_error_leaves_lexer_usable_quotations :
    let lx := { Sample.lexer Sample.quotations "ab\" c" with state := { mode := 1 } }
    ∃ events lx' u events₂ lx₂ t,
      lx.nextToken = { events, outcome := .ok (lx', .error (.emptyModeStack 1)) }
        ∧ lx'.error? = some (.emptyModeStack 1) ∧ lx'.stream? = some u
        ∧ lx'.index = 3 ∧ lx'.caret = { column := 4 } ∧ lx'.state.mode = 1
        ∧ lx'.nextToken = { events := events₂, outcome := .ok (lx₂, .ok t) }
        ∧ lx'.swept.nextToken = lx'.nextToken
        ∧ (lx'.marked u).begun.state.candidate = { start? := some ⟨3, { column := 4 }⟩ }
        ∧ (∃ tried rest k decision, events₂ = tried ++ rest
          ∧ (lx'.marked u).begun.Assembles lx'.reporter tried k decision)
        ∧ (events₂.filterMap Event.report?).map (fun r => (r.column, r.message))
          = [(4, "token recognition error at: ' c'")]
        ∧ t.isEof = true := by
  intro lx
  have hrun : lx.nextToken.outcome.toOption.map (fun (lx', result) =>
      (result, lx'.index, lx'.caret, lx'.state.mode, lx'.state.eofSeen))
        = some (.error (.emptyModeStack 1), 3, { column := 4 }, 1, false) := by decide +kernel
  have hnext : lx.nextToken.outcome.toOption.map (fun (lx', _) =>
      ((lx'.nextToken.events.filterMap Event.report?).map fun r => (r.column, r.message),
        (lx'.nextToken.outcome.toOption.bind fun r => r.2.toOption).map Token.isEof))
        = some ([(4, "token recognition error at: ' c'")], some true) := by decide +kernel
  obtain ⟨events, ⟨lx', result⟩, hcall, hrest⟩ := Run.exists_eq_ok hrun
  obtain ⟨rfl, hindex, hcaret, hmode, hunseen⟩ := by simpa only [Prod.mk.injEq] using hrest
  rw [hcall] at hnext
  obtain ⟨hreports, heof⟩ := Prod.mk.inj (Option.some.inj hnext)
  obtain ⟨t, htoken, heof⟩ := Option.map_eq_some_iff.mp heof
  obtain ⟨events₂, lx₂, hcall'⟩ := exists_nextToken_of_token htoken
  rw [hcall'] at hreports
  obtain ⟨-, herror⟩ := fatal_error_leaves_lexer_usable rfl hcall
  obtain ⟨_, _, _, _, u, _, _, _, -, -, -, -, -, -, hleft, -, hanew⟩ := herror _ rfl
  obtain ⟨hanew, hswept⟩ := hanew (hleft.eofSeen.symm.trans hunseen)
  obtain ⟨tried, rest, k, decision, _, _, hevents, hcandidate, -⟩ := hanew.course _ _ _ hcall'
  refine ⟨events, lx', u, events₂, lx₂, t, hcall, hleft.error?, hleft.stream?, hindex, hcaret,
    hmode, hcall', hswept.symm, ?_, ⟨tried, rest, k, decision, hevents, hcandidate⟩, hreports, heof⟩
  rw [hanew.begun, hindex, hcaret]

end Lexer

end ModalLexer
