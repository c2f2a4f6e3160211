import ModalLexer.Proofs.Lexer.Isolation

/-!
# Failed matches

A failed match is reported and left behind, and counts as a skip unless the
rule that failed has decided otherwise before it did: its actions have the
last word here as everywhere. Without such a decision the candidate goes, and
the call goes on behind the recovery as it would have begun there. With one,
a failure can complete a token, or be a part of a longer one.

The first half of this module is about the middle of a course: what a call
does behind the candidates it has discarded, and a candidate behind the
matches that kept its text, is the rest of what it does.
-/

namespace ModalLexer

open ModalLexer.Action

namespace Head

variable {ρ : Type} [Recognizer ρ] {reporter : Reporter} {h h₁ h' : Head ρ}
  {events before : List Event}

/-! ## The rest of a course -/

theorem Discarded.trans {after : List Event} (hdiscarded : h.Discarded reporter before h₁)
    (hmore : h₁.Discarded reporter after h') : h.Discarded reporter (before ++ after) h' := by
  induction hdiscarded with
  | nil => exact hmore
  | cons heof hcandidate _ ih =>
      rw [List.append_assoc]
      exact .cons heof hcandidate (ih hmore)

/-- Behind the candidates that were discarded, a call goes on as if it began. -/
theorem Produces.after_discarded {result : Except LexerError Token}
    (hcall : h.Produces reporter events h' result) (hdiscarded : h.Discarded reporter before h₁) :
    ∃ after, events = before ++ after ∧ h₁.Produces reporter after h' result := by
  induction hdiscarded generalizing events with
  | nil => exact ⟨events, rfl, hcall⟩
  | cons heof hcandidate _ ih =>
      cases hcall with
      | sentinel heof' => cases heof.symm.trans heof'
      | broken _ hcandidate' | completed _ hcandidate' =>
          cases (hcandidate.unique hcandidate').2.2
      | discarded _ hcandidate' hrest =>
          obtain ⟨rfl, rfl, -⟩ := hcandidate.unique hcandidate'
          obtain ⟨after, rfl, hafter⟩ := ih hrest
          exact ⟨after, (List.append_assoc ..).symm, hafter⟩

/-- Behind matches that keep its text, a candidate is assembled out of what
comes. -/
theorem Assembles.after_matches {ms : List Match} {decision : Except LexerError TokenType}
    (hcandidate : h.Assembles reporter events h' decision)
    (hmatches : h.Matches reporter ms before h₁) (hmore : ∀ k ∈ ms, k.decision = .more) :
    ∃ after, events = before ++ after ∧ h₁.Assembles reporter after h' decision := by
  induction hmatches generalizing events with
  | nil => exact ⟨events, rfl, hcandidate⟩
  | cons _ hturn _ ih =>
      have hkept := hmore _ (List.mem_cons_self ..)
      cases hcandidate with
      | last hturn' hlast =>
          exact absurd ((hturn'.unique hturn).2.2.trans (congrArg _ hkept)) hlast
      | more hturn' hrest =>
          obtain ⟨rfl, rfl, -⟩ := hturn.unique hturn'
          obtain ⟨after, rfl, hafter⟩ := ih hrest fun k hk => hmore k (List.mem_cons_of_mem _ hk)
          exact ⟨after, (List.append_assoc ..).symm, hafter⟩

theorem Assembles.first_turn {decision : Except LexerError TokenType}
    (hcandidate : h.Assembles reporter events h' decision) :
    ∃ first rest k d, events = first ++ rest ∧ h.Turn reporter first k d
      ∧ (d ≠ .ok .more → rest = [] ∧ h' = k ∧ decision = d) := by
  cases hcandidate with
  | last hturn _ =>
      exact ⟨events, [], _, _, (List.append_nil _).symm, hturn, fun _ => ⟨rfl, rfl, rfl⟩⟩
  | more hturn _ => exact ⟨_, _, _, _, rfl, hturn, fun hne => absurd rfl hne⟩

/-! ## The failure -/

/-- In `h`, the recognizer carries out the actions and answers that no rule
applies. -/
def Fails (h : Head ρ) (acts : List Action) (site : ErrorSite) : Prop :=
  ∃ seen found performed state,
    Recognizer.scan h.recognizer h.stream h.state.mode h.undecided.state
        = { events := seen, outcome := .ok found }
      ∧ found.actions = acts ∧ found.outcome = .ok (.noRule site)
      ∧ h.undecided.state.perform acts = { events := performed, outcome := .ok (state, none) }

theorem Matches.start?_eq {ms : List Match} (hmatches : h.Matches reporter ms events h') :
    h'.state.candidate.start? = h.state.candidate.start? := by
  induction hmatches with
  | nil => rfl
  | cons _ hturn _ ih => exact ih.trans hturn.start?_eq

/-- A failure is reported, and decided as its actions decide, or else as a skip. -/
theorem Turn.of_fails {start : Start} (hbegan : h.state.candidate.start? = some start)
    {acts : List Action} {site : ErrorSite} (hfails : h.Fails acts site)
    {decision : Except LexerError TokenType} (hturn : h.Turn reporter events h' decision) :
    decision = .ok ((lastOf type? acts).getD .skip)
      ∧ ∃ report, reporter.listeners.deliver report <:+: events
        ∧ report.cause = .noRule site := by
  obtain ⟨seen, found, performed, state, hscan, rfl, hnoRule, hperform⟩ := hfails
  have hfailed : h.undecided.matchToken h.state.mode = {
      events := seen ++ performed
      outcome := .ok ({ stream := found.stream, recognizer := found.recognizer, state },
        .ok (.noRule site)) } :=
    matchToken_eq_ok.mpr ⟨seen, performed, found, state, none, hscan, hperform, rfl,
      hnoRule.symm, rfl⟩
  cases hturn with
  | stopped hmatch => cases hfailed.symm.trans hmatch
  | @decided _ _ h₁ h₂ _ outcome matched final hmatch hsettle hfinal =>
      obtain ⟨rfl, hok⟩ := Run.mk.inj (hfailed.symm.trans hmatch)
      obtain ⟨rfl, hfound⟩ := Prod.mk.inj (Except.ok.inj hok)
      obtain rfl := Except.ok.inj hfound
      have hstart : state.candidate.start? = some start :=
        (State.perform_frame hperform).2.2.1.trans hbegan
      rw [refuseEofText_eq hstart, if_neg (by simp)] at hsettle
      obtain ⟨hstate, -⟩ := settle_state hsettle
      obtain ⟨before, h₃, after, hreport, -, rfl, rfl⟩ := settle_noRule_eq_ok.mp hsettle
      obtain ⟨report, rfl, hcause, -⟩ := exists_report hreport
      refine ⟨?_, report, ⟨seen ++ performed,
        after ++ [.decided h.state.mode .skip final h'.index], ?_⟩, hcause⟩
      · have htype := (State.perform_all hperform).1
        rw [show h.undecided.state.candidate.type? = none from rfl, Option.or_none] at htype
        rw [noteEof_eq] at hfinal
        obtain ⟨rfl, -⟩ := Prod.mk.inj hfinal
        simp only [hstate, htype]
      · simp only [List.append_assoc]

end Head

/-! ## Calls with a failure -/

namespace Lexer

variable {ρ : Type} [Recognizer ρ]

/-- A call that comes upon a failed match reports it. Unless the actions of
the match took a decision, the candidate is discarded with it: the call goes
on where the recovery has led, with a candidate that has nothing set, and a
token that it gives out is the sentinel, or comes from a candidate that began
there or later. A type that the actions decided on is given out instead. -/
theorem failed_match_without_decision (hρ : Recognizer.MovesBy ρ CharStream.Advances)
    {lx lx' : Lexer ρ} {s : CharStream} (hstream : lx.stream? = some s) {events : List Event}
    {result : Except LexerError Token}
    (hcall : lx.nextToken = { events, outcome := .ok (lx', result) })
    {h h₁ : Head ρ} {before mid : List Event} {ms : List Match} {acts : List Action}
    {site : ErrorSite} (hdiscarded : (lx.marked s).Discarded lx.reporter before h)
    (hunseen : h.state.eofSeen = false) (hmatches : h.begun.Matches lx.reporter ms mid h₁)
    (hmore : ∀ k ∈ ms, k.decision = .more) (hfails : h₁.Fails acts site) :
    ∃ last rest h₂ report, events = before ++ mid ++ last ++ rest
      ∧ h₁.Turn lx.reporter last h₂ (.ok ((lastOf type? acts).getD .skip))
      ∧ lx.listeners.deliver report <:+: last ∧ report.cause = .noRule site
      ∧ ((lastOf type? acts).getD .skip = .skip →
        (lx.marked s).Discarded lx.reporter (before ++ mid ++ last) h₂
          ∧ h₂.begun.state.candidate = { start? := some h₂.here }
          ∧ ∀ t, result = .ok t → t.isEof = true ∨ ∃ k k' skipped tried type,
            h₂.Discarded lx.reporter skipped k ∧ h₂.index ≤ k.index
              ∧ k.begun.Assembles lx.reporter tried k' (.ok (.type type))
              ∧ (k'.state.token? = some t ∨ t = k'.tokenAt lx.source k.here type))
      ∧ ∀ type, lastOf type? acts = some (.type type) →
        ∃ h₃ t, h₂.complete lx.source h.here type = .ok (h₃, t) ∧ result = .ok t := by
  obtain ⟨h', u, hcourse, -, -⟩ := produces_of_nextToken hρ hstream hcall
  obtain ⟨after, rfl, hafter⟩ := hcourse.after_discarded hdiscarded
  obtain ⟨tried, rest, k, decision, rfl, hcandidate, hconcludes⟩ :=
    hafter.first_candidate hunseen
  obtain ⟨tail, rfl, htail⟩ := hcandidate.after_matches hmatches hmore
  obtain ⟨last, more, h₂, d, rfl, hturn, hlast⟩ := htail.first_turn
  have hbegan : h₁.state.candidate.start? = some h.here := hmatches.start?_eq
  obtain ⟨rfl, report, hreport, hcause⟩ := hturn.of_fails hbegan hfails
  refine ⟨last, more ++ rest, h₂, report, by simp only [List.append_assoc], hturn, hreport,
    hcause, ?_, ?_⟩
  · intro hskip
    rw [hskip] at hlast
    obtain ⟨rfl, rfl, rfl⟩ := hlast (by simp)
    rw [List.append_nil] at hcandidate
    have hgone : (lx.marked s).Discarded lx.reporter (before ++ (mid ++ last)) k :=
      hdiscarded.trans (List.append_nil (mid ++ last) ▸ .cons hunseen hcandidate .nil)
    refine ⟨List.append_assoc .. ▸ hgone, rfl, ?_⟩
    rintro t rfl
    have hrest : k.Produces lx.reporter rest h' (.ok t) := by
      cases hconcludes with
      | discarded hrest => exact hrest
    rcases hrest.last_candidate rfl with ⟨k', -, -, hgive⟩ |
      ⟨k', k'', skipped, tried, type, -, hmoreGone, -, hlastCandidate, hcomplete⟩
    · exact .inl (Head.isEof_of_eofToken (Head.giveEof_eq_ok hgive).1)
    · have hindex := (hmoreGone.moves CharStream.Advances.motion hρ).index_le
      rcases (Head.complete_eq_ok hcomplete).2 with hemitted | ⟨-, -, heof⟩ | ⟨-, -, hbuilt⟩
      · exact .inr ⟨k', k'', skipped, tried, type, hmoreGone, hindex, hlastCandidate,
          .inl hemitted⟩
      · exact .inl (Head.isEof_of_eofToken heof)
      · exact .inr ⟨k', k'', skipped, tried, type, hmoreGone, hindex, hlastCandidate,
          .inr hbuilt⟩
  · intro type htype
    rw [htype] at hlast
    obtain ⟨-, rfl, rfl⟩ := hlast (by simp)
    cases hconcludes with
    | completed hcomplete => exact ⟨h', _, hcomplete, rfl⟩

/-- The `!` fails in the middle of a candidate, and takes with it what was set
and the `m` before it. The token that comes begins behind the `y`. -/
theorem failed_match_without_decision_stubborn :
    ∃ events lx' last, ∃ h₁ h₂ : Head ScriptRecognizer,
      (Lexer.attach { recognizer := Sample.stubborn } (.ofString "m!yx")).nextToken
          = { events, outcome := .ok (lx', .ok {
            type := 3, text := "x", start := 3, stop := 3, line := 1, column := 4
            source := { attachment := 1 } }) }
        ∧ h₁.Turn
          (Lexer.attach { recognizer := Sample.stubborn } (.ofString "m!yx")).reporter
          last h₂ (.ok .skip)
        ∧ h₁.index = 1 ∧ h₂.index = 3 := by
  have hcall : ∃ events lx',
      (Lexer.attach { recognizer := Sample.stubborn } (.ofString "m!yx")).nextToken
          = { events, outcome := .ok (lx', .ok {
            type := 3, text := "x", start := 3, stop := 3, line := 1, column := 4
            source := { attachment := 1 } }) } :=
    exists_nextToken_of_token (by decide +kernel)
  have hsteps : ∃ mid last site, ∃ h₁ h₂ : Head ScriptRecognizer,
      ((Lexer.attach { recognizer := Sample.stubborn } (.ofString "m!yx")).marked
          (.ofString "m!yx")).begun.step
          (Lexer.attach { recognizer := Sample.stubborn } (.ofString "m!yx")).reporter
          = { events := mid, outcome := .ok (h₁, .ok .more) }
        ∧ h₁.index = 1 ∧ h₁.Fails [.setChannel 7, .setText "lost"] site
        ∧ h₁.step
          (Lexer.attach { recognizer := Sample.stubborn } (.ofString "m!yx")).reporter
          = { events := last, outcome := .ok (h₂, .ok .skip) }
        ∧ h₂.index = 3 :=
    ⟨_, _, _, _, _, rfl, by decide +kernel, ⟨_, _, _, _, rfl, by decide +kernel, rfl, rfl⟩, rfl,
      by decide +kernel⟩
  obtain ⟨events, lx', hcall⟩ := hcall
  obtain ⟨mid, last, site, h₁, h₂, hwaits, hat, hfails, hskipped, hbehind⟩ := hsteps
  have hturn := Head.step_eq_ok.mp hwaits
  obtain ⟨m, hanswered, hmore, -⟩ := hturn.answered rfl
  obtain ⟨last', -, h₂', -, -, hfailed, -⟩ :=
    failed_match_without_decision (ScriptRecognizer.movesBy CharStream.Advances.motion) rfl hcall
      .nil rfl (.cons hanswered (hmore ▸ hturn) .nil) (by simpa using hmore) hfails
  obtain ⟨rfl, rfl, -⟩ := hfailed.unique (Head.step_eq_ok.mp hskipped)
  exact ⟨events, lx', last', h₁, h₂', hcall, hfailed, hat, hbehind⟩

/-- The `#` fails at the beginning of the text, and is given out with the `y`
that the recovery drops, as a token of the type it decided on. -/
theorem stubborn_failure_completes_token :
    ∃ events lx' t,
      (Lexer.attach { recognizer := Sample.stubborn } (.ofString "#yx")).nextToken
          = { events, outcome := .ok (lx', .ok t) }
        ∧ events.filterMap Event.report? = [{
          source := { attachment := 1 }
          line := 1
          column := 1
          message := "token recognition error at: '#y'"
          cause := .noRule {
            index := 0, line := 1, column := 1, char? := some 'y', mode := 0, text := "#" } }]
        ∧ t = {
          type := 7, text := "#y", start := 0, stop := 1, line := 1, column := 1
          source := { attachment := 1 } } :=
  ⟨_, _, _, rfl, by decide +kernel, by decide +kernel⟩

end Lexer

end ModalLexer
