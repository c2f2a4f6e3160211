import ModalLexer.Proofs.Automaton.Hiding
import ModalLexer.Proofs.Lexer.Draining

/-!
# Hiding a token is skipping it

A parser that takes the tokens of the default channel cannot tell a rule that
hides its token from one that drops it. The two lexers cut the text into
different calls: where the first one gives out a hidden token and is asked
again, the second one goes on in the same call. So they are compared by their
`Flows`, which run from candidate to candidate until the tokens end and do not
know of calls. A flow of the one is a flow of the other with the same tokens
on the default channel (`Flows.skipHidden`), and from any head there is one
flow at most (`Flows.unique`).

That a run to the end of the tokens is a flow (`drained_of_toList`) needs the
stream to be a text, because the characters that a reader keeps depend on
where a call began. That there is such a run needs modes that accept nothing
empty and room for what is computed, and the tables without hidden tokens have
these if the tables with them do (`Ready.skipHidden`).
-/

namespace ModalLexer

/-- The token, if it is meant for the parser. -/
def Token.shown (t : Token) : List Token := if t.channel = defaultChannel then [t] else []

namespace Head

variable {reporter : Reporter} {h h₁ h₂ h' k : Head TableRecognizer}
  {events before after : List Event} {kept rest : List Token} {error? : Option LexerError}

/-! ## From candidate to candidate -/

/-- All candidates from a head on until the tokens end, with the tokens of the
default channel, the head at the end, and the error if there was one. -/
inductive Flows (reporter : Reporter) : Head TableRecognizer → List Event → List Token →
    Head TableRecognizer → Option LexerError → Prop
  | seen {h : Head TableRecognizer} (heof : h.state.eofSeen = true) :
      Flows reporter h [] [] h none
  | broken {h h' : Head TableRecognizer} {events : List Event} {e : LexerError}
      (heof : h.state.eofSeen = false)
      (hcandidate : h.begun.Assembles reporter events h' (.error e)) :
      Flows reporter h events [] h' (some e)
  | atEnd {h h' : Head TableRecognizer} {events : List Event} (heof : h.state.eofSeen = false)
      (hcandidate : h.begun.Assembles reporter events h' (.ok (.type eofType))) :
      Flows reporter h events [] h' none
  | discarded {h h₁ h' : Head TableRecognizer} {before after : List Event} {kept : List Token}
      {error? : Option LexerError} (heof : h.state.eofSeen = false)
      (hcandidate : h.begun.Assembles reporter before h₁ (.ok .skip))
      (hrest : Flows reporter h₁ after kept h' error?) :
      Flows reporter h (before ++ after) kept h' error?
  | completed {h h₁ h' : Head TableRecognizer} {before after : List Event} {kept : List Token}
      {error? : Option LexerError} {id : TokenId} (heof : h.state.eofSeen = false)
      (hcandidate : h.begun.Assembles reporter before h₁ (.ok (.type id))) (hid : id ≠ eofType)
      (hrest : Flows reporter (h₁.give (h₁.tokenAt reporter.source h.here id)) after kept h'
        error?) :
      Flows reporter h (before ++ after)
        ((h₁.tokenAt reporter.source h.here id).shown ++ kept) h' error?

theorem Flows.unique {events₁ events₂ : List Event} {kept₁ kept₂ : List Token}
    {error₁ error₂ : Option LexerError} (hone : h.Flows reporter events₁ kept₁ h₁ error₁)
    (htwo : h.Flows reporter events₂ kept₂ h₂ error₂) :
    events₁ = events₂ ∧ kept₁ = kept₂ ∧ h₁ = h₂ ∧ error₁ = error₂ := by
  induction hone generalizing events₂ kept₂ h₂ error₂ with
  | seen heof =>
      cases htwo with
      | seen => exact ⟨rfl, rfl, rfl, rfl⟩
      | broken heof' | atEnd heof' | discarded heof' | completed heof' =>
          cases heof.symm.trans heof'
  | broken heof hcandidate =>
      cases htwo with
      | seen heof' => cases heof.symm.trans heof'
      | broken _ hcandidate' =>
          obtain ⟨rfl, rfl, heq⟩ := hcandidate.unique hcandidate'
          exact ⟨rfl, rfl, rfl, congrArg some (Except.error.inj heq)⟩
      | atEnd _ hcandidate' | discarded _ hcandidate' | completed _ hcandidate' =>
          cases (hcandidate.unique hcandidate').2.2
  | atEnd heof hcandidate =>
      cases htwo with
      | seen heof' => cases heof.symm.trans heof'
      | atEnd _ hcandidate' =>
          obtain ⟨rfl, rfl, -⟩ := hcandidate.unique hcandidate'
          exact ⟨rfl, rfl, rfl, rfl⟩
      | broken _ hcandidate' | discarded _ hcandidate' =>
          cases (hcandidate.unique hcandidate').2.2
      | completed _ hcandidate' hid =>
          obtain ⟨-, -, heq⟩ := hcandidate.unique hcandidate'
          exact absurd (TokenType.type.inj (Except.ok.inj heq)).symm hid
  | discarded heof hcandidate _ ih =>
      cases htwo with
      | seen heof' => cases heof.symm.trans heof'
      | broken _ hcandidate' | atEnd _ hcandidate' | completed _ hcandidate' =>
          cases (hcandidate.unique hcandidate').2.2
      | discarded _ hcandidate' hrest' =>
          obtain ⟨rfl, rfl, -⟩ := hcandidate.unique hcandidate'
          obtain ⟨rfl, rfl, rfl, rfl⟩ := ih hrest'
          exact ⟨rfl, rfl, rfl, rfl⟩
  | completed heof hcandidate hid _ ih =>
      cases htwo with
      | seen heof' => cases heof.symm.trans heof'
      | broken _ hcandidate' | discarded _ hcandidate' =>
          cases (hcandidate.unique hcandidate').2.2
      | atEnd _ hcandidate' =>
          obtain ⟨-, -, heq⟩ := hcandidate.unique hcandidate'
          exact absurd (TokenType.type.inj (Except.ok.inj heq)) hid
      | completed _ hcandidate' _ hrest' =>
          obtain ⟨rfl, rfl, heq⟩ := hcandidate.unique hcandidate'
          obtain rfl := TokenType.type.inj (Except.ok.inj heq)
          obtain ⟨rfl, rfl, rfl, rfl⟩ := ih hrest'
          exact ⟨rfl, rfl, rfl, rfl⟩

/-! ## The flow without hidden tokens -/

theorem Counterpart.here (h₀ : h.Counterpart k) : k.here = h.here := by
  rw [Head.here, Head.here, Head.index, Head.index, Head.caret, Head.caret, h₀.stream,
    h₀.recognizer]
  rfl

/-- Giving out a token makes no difference. -/
theorem Counterpart.give (h₀ : h.Counterpart k) (t : Token) : (h.give t).Counterpart k :=
  ⟨h₀.stream, h₀.recognizer, h₀.mode, h₀.modeStack, h₀.eofSeen⟩

/-- The lexer that drops hidden tokens takes the same candidates. -/
theorem Flows.skipHidden (hflows : h.Flows reporter events kept h' error?)
    (ha : h.recognizer.automaton.ReservesEof) (h₀ : h.Counterpart k) :
    ∃ events' k', k.Flows reporter events' kept k' error? ∧ reports events' = reports events
      ∧ h'.Counterpart k' := by
  induction hflows generalizing k with
  | seen heof => exact ⟨[], k, .seen (h₀.eofSeen.trans heof), rfl, h₀⟩
  | broken heof hcandidate =>
      obtain ⟨events', k', decision', hcandidate', hreports, hskips⟩ :=
        h₀.assembles ha hcandidate
      have hafter := hskips.counterpart
      cases hskips with
      | same => exact ⟨events', k', .broken (h₀.eofSeen.trans heof) hcandidate', hreports, hafter⟩
  | atEnd heof hcandidate =>
      obtain ⟨events', k', decision', hcandidate', hreports, hskips⟩ :=
        h₀.assembles ha hcandidate
      have hafter := hskips.counterpart
      cases hskips with
      | same => exact ⟨events', k', .atEnd (h₀.eofSeen.trans heof) hcandidate', hreports, hafter⟩
      | hidden hid => exact absurd rfl hid
  | discarded heof hcandidate _ ih =>
      obtain ⟨events₁, k₁, decision', hcandidate', hreports₁, hskips⟩ :=
        h₀.assembles ha hcandidate
      have hafter := hskips.counterpart
      obtain ⟨events₂, k', hrest', hreports₂, hend⟩ :=
        ih (hcandidate.automaton_token?.1 ▸ ha) hafter
      cases hskips with
      | same =>
          refine ⟨_, k', .discarded (h₀.eofSeen.trans heof) hcandidate' hrest', ?_, hend⟩
          rw [reports_append, reports_append, hreports₁, hreports₂]
  | @completed h h₁ h' before after kept error? id heof hcandidate hid _ ih =>
      obtain ⟨events₁, k₁, decision', hcandidate', hreports₁, hskips⟩ :=
        h₀.assembles ha hcandidate
      have ha₁ : h₁.recognizer.automaton.ReservesEof := hcandidate.automaton_token?.1 ▸ ha
      have hafter := hskips.counterpart
      cases hskips with
      | same _ hhead =>
          have htoken : k₁.tokenAt reporter.source k.here id
              = h₁.tokenAt reporter.source h.here id := by
            rw [hhead, h₀.here]
            rfl
          have hgiven : (h₁.give (h₁.tokenAt reporter.source h.here id)).Counterpart
              (k₁.give (k₁.tokenAt reporter.source k.here id)) :=
            ⟨hafter.stream, hafter.recognizer, hafter.mode, hafter.modeStack, hafter.eofSeen⟩
          obtain ⟨events₂, k', hrest', hreports₂, hend⟩ := ih ha₁ hgiven
          have hflows' := Flows.completed (h₀.eofSeen.trans heof) hcandidate' hid hrest'
          rw [htoken] at hflows'
          refine ⟨_, k', hflows', ?_, hend⟩
          rw [reports_append, reports_append, hreports₁, hreports₂]
      | hidden _ hchannel =>
          -- the one is asked for another token, and the other goes on by itself
          obtain ⟨events₂, k', hrest', hreports₂, hend⟩ := ih ha₁ (hafter.give _)
          have hshown : (h₁.tokenAt reporter.source h.here id).shown = [] := if_neg hchannel
          rw [hshown, List.nil_append]
          refine ⟨_, k', .discarded (h₀.eofSeen.trans heof) hcandidate' hrest', ?_, hend⟩
          rw [reports_append, reports_append, hreports₁, hreports₂]

/-! ## From call to call -/

/-- What flows from `h₁` flows from `h` with these events and tokens before. -/
def LeadsTo (reporter : Reporter) (h : Head TableRecognizer) (events : List Event)
    (kept : List Token) (h₁ : Head TableRecognizer) : Prop :=
  ∀ {after : List Event} {rest : List Token} {h' : Head TableRecognizer}
    {error? : Option LexerError}, h₁.Flows reporter after rest h' error? →
      h.Flows reporter (events ++ after) (kept ++ rest) h' error?

theorem LeadsTo.trans (hfirst : h.LeadsTo reporter before kept h₁)
    (hsecond : h₁.LeadsTo reporter after rest h₂) :
    h.LeadsTo reporter (before ++ after) (kept ++ rest) h₂ := by
  intro _ _ _ _ hflows
  rw [List.append_assoc, List.append_assoc]
  exact hfirst (hsecond hflows)

/-- A call is the beginning of a flow, and all of it if there is no token. -/
theorem Produces.flows {result : Except LexerError Token}
    (hcall : h.Produces reporter events h' result) :
    (∃ e, result = .error e ∧ h.Flows reporter events [] h' (some e))
      ∨ (∃ t h₁, result = .ok t ∧ t.isEof = true ∧ h' = h₁.give t
        ∧ h.Flows reporter events [] h₁ none)
      ∨ ∃ t, result = .ok t ∧ t.isEof = false ∧ h.LeadsTo reporter events t.shown h' := by
  induction hcall with
  | sentinel heof hgive =>
      obtain ⟨htoken, rfl⟩ := giveEof_eq_ok hgive
      exact .inr (.inl ⟨_, _, rfl, isEof_of_eofToken htoken, rfl, .seen heof⟩)
  | broken heof hcandidate => exact .inl ⟨_, rfl, .broken heof hcandidate⟩
  | @completed h h₁ h' events id t heof hcandidate hcomplete =>
      have hnone : h₁.state.token? = none := hcandidate.automaton_token?.2 _ rfl
      obtain ⟨rfl, hmade⟩ := complete_eq_ok hcomplete
      rcases hmade with hemitted | ⟨-, rfl, htoken⟩ | ⟨-, hid, rfl⟩
      · cases hnone.symm.trans hemitted
      · exact .inr (.inl ⟨_, _, rfl, isEof_of_eofToken htoken, rfl, .atEnd heof hcandidate⟩)
      · exact .inr (.inr ⟨_, rfl, by simpa [Token.isEof, tokenAt] using hid,
          fun hrest => .completed heof hcandidate hid hrest⟩)
  | discarded heof hcandidate _ ih =>
      rcases ih with ⟨e, rfl, hflows⟩ | ⟨t, h₂, rfl, heofToken, rfl, hflows⟩ |
        ⟨t, rfl, heofToken, hleads⟩
      · exact .inl ⟨e, rfl, .discarded heof hcandidate hflows⟩
      · exact .inr (.inl ⟨t, h₂, rfl, heofToken, rfl, .discarded heof hcandidate hflows⟩)
      · refine .inr (.inr ⟨t, rfl, heofToken, fun hrest => ?_⟩)
        rw [List.append_assoc]
        exact .discarded heof hcandidate (hleads hrest)

end Head

/-! ## The lexer and its streams of tokens -/

namespace Lexer

/-- The lexer reads a text, and `h` is the part of it that moves. -/
structure At (lx : Lexer TableRecognizer) (h : Head TableRecognizer) : Prop where
  stream? : lx.stream? = some h.stream
  text : h.stream.outstanding = none
  head : lx.head h.stream = h

/-- Over a text, a call is a production and nothing else. -/
theorem At.nextToken {lx lx' : Lexer TableRecognizer} {h : Head TableRecognizer}
    {events : List Event} {result : Except LexerError Token} (hat : lx.At h)
    (hcall : lx.nextToken = { events, outcome := .ok (lx', result) }) :
    ∃ h', h.Produces lx.reporter events h' result ∧ lx' = lx.after h' h'.stream result
      ∧ lx'.At h' := by
  obtain ⟨h', u, hproduce, hrelease, -, rfl⟩ :=
    (nextToken_eq_ok TableRecognizer.advances hat.stream?).mp hcall
  have hmarked : lx.marked h.stream = h := by
    obtain ⟨-, htext, hhead⟩ := hat
    rcases h with ⟨s | r, _, _⟩
    · exact hhead
    · cases htext
  have hcourse : h.Produces lx.reporter events h' result :=
    Head.produces_of_produce (hmarked ▸ hproduce)
  have hmoves := hcourse.moves CharStream.Advances.motion TableRecognizer.advances
  have htext : h'.stream.outstanding = none := hmoves.outstanding_eq.trans hat.text
  obtain rfl : u = h'.stream := by
    rcases h' with ⟨s | r, _, _⟩
    · exact (Run.pure_eq_ok.mp hrelease.symm).1.symm
    · cases htext
  exact ⟨h', hcourse, rfl, rfl, htext, rfl⟩

/-- The lexer stands where a flow from `h` has ended. -/
def Drained (lx : Lexer TableRecognizer) (reporter : Reporter) (h : Head TableRecognizer)
    (events : List Event) (kept : List Token) : Prop :=
  ∃ h', h.Flows reporter events kept h' lx.error? ∧ lx.index = h'.index ∧ lx.caret = h'.caret
    ∧ lx.state.mode = h'.state.mode ∧ lx.state.modeStack = h'.state.modeStack

theorem Drained.after {lx : Lexer TableRecognizer} {reporter : Reporter}
    {h h₁ : Head TableRecognizer} {before after : List Event} {kept rest : List Token}
    (hdrained : lx.Drained reporter h₁ after rest) (hleads : h.LeadsTo reporter before kept h₁) :
    lx.Drained reporter h (before ++ after) (kept ++ rest) := by
  obtain ⟨h', hflows, hstands⟩ := hdrained
  exact ⟨h', hleads hflows, hstands⟩

end Lexer

variable {reporter : Reporter} {h : Head TableRecognizer} {events : List Event}

/-- The stream has not come to its end, and its lexer is at `h`. -/
structure TokenStream.OpenAt (p : TokenStream TableRecognizer) (reporter : Reporter)
    (h : Head TableRecognizer) : Prop where
  done : p.done = false
  reporter : p.lexer.reporter = reporter
  lexer : p.lexer.At h

theorem TokenStream.OpenAt.next {p p' : TokenStream TableRecognizer} {t? : Option Token}
    (hopen : p.OpenAt reporter h) (hnext : p.next = { events, outcome := .ok (t?, p') }) :
    (t? = none ∧ p'.lexer.Drained reporter h events [])
      ∨ ∃ t h₁, t? = some t ∧ p'.OpenAt reporter h₁ ∧ h.LeadsTo reporter events t.shown h₁ := by
  obtain ⟨hdone, rfl, hat⟩ := hopen
  unfold TokenStream.next at hnext
  rw [if_neg (by simp [hdone])] at hnext
  obtain ⟨before, ⟨lx', result⟩, after, hcall, hrest, rfl⟩ := Run.bind_eq_ok.mp hnext
  obtain ⟨h', hcourse, rfl, hat'⟩ := hat.nextToken hcall
  rcases hcourse.flows with ⟨e, rfl, hflows⟩ | ⟨t, h₁, rfl, heof, rfl, hflows⟩ |
    ⟨t, rfl, heof, hleads⟩
  · obtain ⟨rfl, rfl, rfl⟩ := Run.pure_pair_eq_ok.mp hrest
    rw [List.append_nil]
    exact .inl ⟨rfl, h', hflows, rfl, rfl, rfl, rfl⟩
  · simp only [heof, if_true] at hrest
    obtain ⟨rfl, rfl, rfl⟩ := Run.pure_pair_eq_ok.mp hrest
    rw [List.append_nil]
    exact .inl ⟨rfl, h₁, hflows, rfl, rfl, rfl, rfl⟩
  · simp only [heof, Bool.false_eq_true, if_false] at hrest
    obtain ⟨rfl, rfl, rfl⟩ := Run.pure_pair_eq_ok.mp hrest
    rw [List.append_nil]
    exact .inr ⟨t, h', rfl, ⟨rfl, rfl, hat'⟩, hleads⟩

namespace ChannelStream

variable {c c' : ChannelStream TableRecognizer}

theorem flows_of_seek {limit : Nat} {t? : Option Token} (hopen : c.tokens.OpenAt reporter h)
    (hchannel : c.channel = defaultChannel)
    (hseek : c.seek limit = { events, outcome := .ok (t?, c') }) :
    (t? = none ∧ c'.tokens.lexer.Drained reporter h events [])
      ∨ ∃ t h₁, t? = some t ∧ c'.tokens.OpenAt reporter h₁ ∧ c'.channel = defaultChannel
        ∧ h.LeadsTo reporter events [t] h₁ := by
  induction limit generalizing c h events with
  | zero => cases (Run.mk.inj hseek).2
  | succ limit ih =>
      obtain ⟨before, ⟨u?, p⟩, after, hnext, hrest, rfl⟩ := Run.bind_eq_ok.mp hseek
      rcases hopen.next hnext with ⟨rfl, hdrained⟩ | ⟨t, h₁, rfl, hopen₁, hleads⟩
      · obtain ⟨rfl, rfl, rfl⟩ := Run.pure_pair_eq_ok.mp hrest
        rw [List.append_nil]
        exact .inl ⟨rfl, hdrained⟩
      · simp only [hchannel] at hrest
        by_cases ht : t.channel = defaultChannel
        · rw [if_pos ht] at hrest
          obtain ⟨rfl, rfl, rfl⟩ := Run.pure_pair_eq_ok.mp hrest
          rw [List.append_nil]
          rw [Token.shown, if_pos ht] at hleads
          exact .inr ⟨t, h₁, rfl, hopen₁, rfl, hleads⟩
        · rw [if_neg ht] at hrest
          rw [Token.shown, if_neg ht] at hleads
          rcases ih hopen₁ rfl hrest with ⟨rfl, hdrained⟩ |
            ⟨t', h₂, rfl, hopen₂, hchannel₂, hleads₂⟩
          · exact .inl ⟨rfl, hdrained.after hleads⟩
          · exact .inr ⟨t', h₂, rfl, hopen₂, hchannel₂, hleads.trans hleads₂⟩

theorem drained_of_takeAll {seekLimit limit : Nat} {kept : List Token}
    (hopen : c.tokens.OpenAt reporter h) (hchannel : c.channel = defaultChannel)
    (hrun : c.takeAll seekLimit limit = { events, outcome := .ok (kept, c') }) :
    c'.tokens.lexer.Drained reporter h events kept := by
  induction limit generalizing c h events kept with
  | zero => cases (Run.mk.inj hrun).2
  | succ limit ih =>
      obtain ⟨before, ⟨t?, c₁⟩, after, hseek, hrest, rfl⟩ := Run.bind_eq_ok.mp hrun
      rcases flows_of_seek hopen hchannel hseek with ⟨rfl, hdrained⟩ |
        ⟨t, h₁, rfl, hopen₁, hchannel₁, hleads⟩
      · obtain ⟨rfl, rfl, rfl⟩ := Run.pure_pair_eq_ok.mp hrest
        rw [List.append_nil]
        exact hdrained
      · obtain ⟨⟨rest, c₂⟩, htake, heq⟩ := Run.map_eq_ok.mp hrest
        obtain ⟨rfl, rfl⟩ := Prod.mk.inj heq
        exact (ih hopen₁ hchannel₁ htake).after hleads

end ChannelStream

/-! ## The parser's view -/

namespace Lexer

/-- The lexer with the tables that drop hidden tokens. -/
def skipHidden (lx : Lexer TableRecognizer) : Lexer TableRecognizer :=
  { lx with recognizer := lx.recognizer.skipHidden }

/-- Taking the tokens of the default channel to their end is a flow. -/
theorem drained_of_toList (lx : Lexer TableRecognizer) {s : TextStream}
    (hstream : lx.stream? = some (.text s)) {events : List Event} {kept : List Token}
    {c : ChannelStream TableRecognizer}
    (hrun : (lx.tokens.onChannel defaultChannel).toList = { events, outcome := .ok (kept, c) }) :
    c.tokens.lexer.Drained lx.reporter (lx.head (.text s)) events kept :=
  ChannelStream.drained_of_takeAll (c := lx.tokens.onChannel defaultChannel)
    ⟨rfl, rfl, hstream, rfl, rfl⟩ rfl hrun

theorem Ready.skipHidden {cs : List Char} {lx : Lexer TableRecognizer} {s : CharStream}
    (hready : lx.Ready cs s) : lx.skipHidden.Ready cs s where
  stream := hready.stream
  shows := hready.shows
  noEmptyMatch hmode := by
    have hnone := hready.noEmptyMatch hmode
    change lx.recognizer.automaton.skipHidden.terminal? _ = none
    rw [Automaton.terminal?_skipHidden, hnone, Option.map_none]
  cells := ⟨hready.cells.start, hready.cells.state⟩
  room := ⟨hready.room.caret, hready.room.length_lt, hready.room.lastToken⟩

/-- For a parser, which takes the tokens of the default channel, a rule that
hides its token and one that skips it are the same. A mode that accepts
nothing does no harm here: what matches nothing for ever does not come to the
end of its tokens. Where no mode does and there is room to the end of the text,
both lexers come to the end of them. -/
theorem hiding_is_skipping (lx : Lexer TableRecognizer) (s : TextStream)
    (hstream : lx.stream? = some (.text s))
    (hreserved : lx.recognizer.automaton.ReservesEof) :
    (∀ (events events' : List Event) (kept kept' : List Token)
        (c c' : ChannelStream TableRecognizer),
      (lx.tokens.onChannel defaultChannel).toList = { events, outcome := .ok (kept, c) } →
      (lx.skipHidden.tokens.onChannel defaultChannel).toList
          = { events := events', outcome := .ok (kept', c') } →
        kept' = kept ∧ c'.tokens.lexer.error? = c.tokens.lexer.error?
          ∧ reports events' = reports events
          ∧ c'.tokens.lexer.index = c.tokens.lexer.index
          ∧ c'.tokens.lexer.caret = c.tokens.lexer.caret
          ∧ c'.tokens.lexer.state.mode = c.tokens.lexer.state.mode
          ∧ c'.tokens.lexer.state.modeStack = c.tokens.lexer.state.modeStack)
      ∧ (lx.recognizer.automaton.NoEmptyMatch → lx.HasRoom (.text s) →
        (∃ events kept c,
          (lx.tokens.onChannel defaultChannel).toList = { events, outcome := .ok (kept, c) })
        ∧ ∃ events kept c, (lx.skipHidden.tokens.onChannel defaultChannel).toList
          = { events, outcome := .ok (kept, c) }) := by
  constructor
  · intro events events' kept kept' c c' hrun hrun'
    obtain ⟨h, hflows, hindex, hcaret, hmode, hstack⟩ := drained_of_toList lx hstream hrun
    obtain ⟨k, hflows', hindex', hcaret', hmode', hstack'⟩ :=
      drained_of_toList lx.skipHidden hstream hrun'
    have hstart : (lx.head (.text s)).Counterpart (lx.skipHidden.head (.text s)) :=
      ⟨rfl, rfl, rfl, rfl, rfl⟩
    obtain ⟨events₁, k₁, hskipping, hreports, hend⟩ := hflows.skipHidden hreserved hstart
    obtain ⟨rfl, rfl, rfl, herror⟩ := hskipping.unique hflows'
    obtain ⟨hi, hp⟩ := Start.mk.inj hend.here
    refine ⟨rfl, herror.symm, hreports, ?_, ?_, ?_, ?_⟩
    · rw [hindex', hi, hindex]
    · rw [hcaret', hp, hcaret]
    · rw [hmode', hend.mode, hmode]
    · rw [hstack', hend.modeStack, hstack]
  · intro hempty hroom
    obtain ⟨cs, hready, -⟩ := hroom.ready hstream hempty
    exact ⟨hready.exists_toList _, hready.skipHidden.exists_toList _⟩

/-- Two words between line ends, which are hidden, and a character that is
refused. -/
theorem hiding_is_skipping_lines :
    let lx := Sample.lexer Sample.quotations "a\n?b\n"
    ∃ events events' kept c c',
      (lx.tokens.onChannel defaultChannel).toList = { events, outcome := .ok (kept, c) }
        ∧ (lx.skipHidden.tokens.onChannel defaultChannel).toList
          = { events := events', outcome := .ok (kept, c') }
        ∧ kept.map Token.text = ["a", "b"] ∧ reports events' = reports events
        ∧ c'.tokens.lexer.error? = c.tokens.lexer.error?
        ∧ c'.tokens.lexer.index = c.tokens.lexer.index
        ∧ c'.tokens.lexer.caret = c.tokens.lexer.caret
        ∧ c'.tokens.lexer.state.mode = c.tokens.lexer.state.mode
        ∧ c'.tokens.lexer.state.modeStack = c.tokens.lexer.state.modeStack := by
  intro lx
  have hready : lx.Ready "a\n?b\n".toList (.ofString "a\n?b\n") :=
    ready_attach (by decide) (by decide) (CharStream.shows_ofString ..) rfl (by decide)
  obtain ⟨hsame, hexists⟩ :=
    hiding_is_skipping lx (TextStream.ofString "a\n?b\n" unknownSourceName) rfl (by decide)
  obtain ⟨⟨events, kept, c, hrun⟩, events', kept', c', hrun'⟩ :=
    hexists (by decide) hready.hasRoom
  obtain ⟨rfl, herror, hreports, hindex, hcaret, hmode, hstack⟩ :=
    hsame events events' kept kept' c c' hrun hrun'
  have htexts : ((lx.tokens.onChannel defaultChannel).toList.outcome.toOption.map
      fun r => r.1.map Token.text) = some ["a", "b"] := by decide +kernel
  rw [hrun] at htexts
  exact ⟨events, events', kept', c, c', hrun, hrun', Option.some.inj htexts, hreports, herror,
    hindex, hcaret, hmode, hstack⟩

end Lexer

end ModalLexer
