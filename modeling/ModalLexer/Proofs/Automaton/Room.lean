import ModalLexer.Proofs.Automaton.Candidate

/-!
# Room to the end of the text

The numbers a lexer computes with are bounded, and it faults where one of
them leaves its range. `HasRoom` says that this is not going to happen before
the end of the text: there is room for the position of every character, for
the indices as signed numbers, and for the column behind the last token,
where the sentinel is placed. From there a match, a candidate and a call all
come to an end, the loops long before their limits: a match that keeps its
text has moved on, and so has a candidate that is discarded.
-/

namespace ModalLexer

/-! ## The end of a token -/

namespace Token

/-- The column behind the token can be computed. -/
def HasEnd (t : Token) : Prop := ∃ n, t.length = .ok n ∧ t.column + n < Checked.unsignedLimit

/-- The length of a token that covers what lies between two indices. -/
theorem length_eq_ok {t : Token} {stop : Nat} (hstop : t.stop = (stop : Int) - 1)
    (hle : t.start ≤ stop) (hlt : stop < Checked.signedLimit) :
    t.length = .ok (stop - t.start) := by
  have hnext : Checked.addSigned t.stop 1 = .ok (stop : Int) := by
    rw [hstop, Checked.addSigned, Int.sub_add_cancel, if_pos]
    exact ⟨by simp only [Checked.signedLimit]; omega, by exact_mod_cast hlt⟩
  have hcovered : Checked.subSigned stop t.start = .ok ((stop : Int) - t.start) := by
    rw [Checked.subSigned, if_pos]
    exact ⟨by simp only [Checked.signedLimit]; omega, by omega⟩
  unfold length
  rw [hnext, Checked.toSigned_of_lt (Nat.lt_of_le_of_lt hle hlt)]
  simp only [bind, Except.bind]
  rw [hcovered]
  simp only [pure, Except.pure]
  congr 1
  omega

end Token

/-! ## One match -/

namespace TableRecognizer

variable {r : TableRecognizer} {s : CharStream} {cs : List Char}

/-- With room for the position, the next character is consumed. -/
theorem exists_consume_next (hs : s.Shows cs) {c : Char} (hc : cs[s.index]? = some c)
    (hroom : r.caret.Room (cs.length - s.index)) :
    ∃ p, r.caret.pass r.tab c = .ok p
      ∧ r.consume s = .ok ({ r with caret := p }, s.peek.2.consume)
      ∧ s.peek.2.consume.index = s.index + 1 ∧ p.Room (cs.length - (s.index + 1)) := by
  obtain ⟨hlt, -⟩ := List.getElem?_eq_some_iff.mp hc
  obtain ⟨p, hpass, hroom'⟩ :=
    (hroom.mono (by omega : cs.length - (s.index + 1) + 1 ≤ _)).pass r.tab c
  have hnext := hs.peek.index_consume_of_lt (s.index_peek ▸ hlt)
  rw [s.index_peek] at hnext
  refine ⟨p, hpass, ?_, hnext, hroom'⟩
  have hpeek : s.peek = (some c, s.peek.2) := Prod.ext (hs.peek_fst.trans hc) rfl
  unfold consume
  rw [hpeek]
  exact Checked.bind_eq_ok.mpr ⟨p, hpass, rfl⟩

theorem exists_consume (hs : s.Shows cs) (hroom : r.caret.Room (cs.length - s.index)) :
    ∃ r' s', r.consume s = .ok (r', s') ∧ r'.caret.Room (cs.length - s'.index) := by
  cases hc : cs[s.index]? with
  | none =>
      have hpeek : s.peek = (none, s.peek.2) := Prod.ext (hs.peek_fst.trans hc) rfl
      refine ⟨r, s.peek.2, ?_, s.index_peek ▸ hroom⟩
      unfold consume
      rw [hpeek]
  | some c =>
      obtain ⟨p, -, hconsume, hnext, hroom'⟩ := exists_consume_next hs hc hroom
      exact ⟨_, _, hconsume, hnext ▸ hroom'⟩

theorem exists_scan (hc : r.automaton.CellsInRange) (hs : s.Shows cs)
    (hroom : r.caret.Room (cs.length - s.index)) (mode : ModeId) :
    ∃ events found, r.scan s mode = { events, outcome := .ok found }
      ∧ found.recognizer.caret.Room (cs.length - found.stream.index) := by
  cases hmode : r.automaton.startStates[mode]? with
  | none => exact ⟨_, _, scan_eq_ok.mpr (.unknown hmode), hroom⟩
  | some start =>
      obtain ⟨w, hwalk, hroom'⟩ :=
        Automaton.exists_walk r.tab hc hs (hc.start hmode) hroom
      cases hterminal : r.automaton.terminal? w.state with
      | some terminal =>
          exact ⟨_, _, scan_eq_ok.mpr (.accepted hmode hwalk hterminal), hroom'⟩
      | none =>
          by_cases hend : w.char? = none ∧ w.stream.index = s.index
          · exact ⟨_, _, scan_eq_ok.mpr (.atEnd hmode hwalk hterminal hend), hroom'⟩
          · exact ⟨_, _, scan_eq_ok.mpr (.stuck hmode hwalk hterminal hend), hroom'⟩

end TableRecognizer

namespace Head

variable {cs : List Char} {start : Start} (reporter : Reporter) {h : Head TableRecognizer}

/-- There is room for the positions of the characters to come. -/
def CaretRoom (cs : List Char) (h : Head TableRecognizer) : Prop :=
  h.recognizer.caret.Room (cs.length - h.index)

theorem exists_matchToken (hc : h.recognizer.automaton.CellsInRange) (hs : h.stream.Shows cs)
    (hroom : h.CaretRoom cs) (mode : ModeId) :
    ∃ events h' found, h.matchToken mode = { events, outcome := .ok (h', found) }
      ∧ h'.CaretRoom cs := by
  obtain ⟨before, scan, hscan, hroom'⟩ := TableRecognizer.exists_scan hc hs hroom mode
  obtain ⟨events, state, failure, -, hmatch⟩ := h.exists_matchToken_of_scan mode hscan
  exact ⟨events, _, _, hmatch, hroom'⟩

theorem exists_dropChar (hs : h.stream.Shows cs) (hroom : h.CaretRoom cs)
    (e : RecognitionError) :
    ∃ events h', h.dropChar e = { events, outcome := .ok h' } ∧ h'.CaretRoom cs := by
  have hindex : h.stream.peek.2.index = h.stream.index := h.stream.index_peek
  cases hpeek : h.stream.peek.1 with
  | none =>
      refine ⟨[], h.peek.2, dropChar_eq_ok.mpr (.inl ⟨hpeek, rfl, rfl⟩), ?_⟩
      simpa only [CaretRoom, peek, Head.index, hindex] using hroom
  | some c =>
      obtain ⟨r, t, hconsume, hroom'⟩ :=
        TableRecognizer.exists_consume (r := h.recognizer) hs.peek (hindex ▸ hroom)
      exact ⟨_, _, dropChar_eq_ok.mpr (.inr ⟨c, r, t, hpeek, rfl, hconsume, rfl⟩), hroom'⟩

theorem exists_settle (hs : h.stream.Shows cs) (hroom : h.CaretRoom cs) :
    ∀ finding, ∃ events h' matched,
      h.settle reporter finding = { events, outcome := .ok (h', matched) } ∧ h'.CaretRoom cs
  | .matched type => ⟨[], h, type, rfl, hroom⟩
  | .noRule site => by
      have hreport := h.report_eq reporter (.noRule site)
      generalize hq : h.quote (h.state.candidate.start?.getD h.here) = q at hreport
      have hsame : q.2.stream.Shows cs ∧ q.2.CaretRoom cs := by
        rw [quote_eq] at hq
        split at hq
        · obtain rfl := hq
          refine ⟨hs.peek, ?_⟩
          simpa only [CaretRoom, peek, Head.index, CharStream.index_peek] using hroom
        · obtain rfl := hq
          exact ⟨hs, hroom⟩
      obtain ⟨after, h', hdrop, hroom'⟩ := exists_dropChar hsame.1 hsame.2 (.noRule site)
      exact ⟨_, h', .skip,
        settle_noRule_eq_ok.mpr ⟨_, _, after, hreport, hdrop, rfl, rfl⟩, hroom'⟩

theorem exists_turn (hc : h.recognizer.automaton.CellsInRange) (hs : h.stream.Shows cs)
    (hroom : h.CaretRoom cs) :
    ∃ events h' decision, h.Turn reporter events h' decision ∧ h'.CaretRoom cs := by
  obtain ⟨before, h₁, found, hmatch, hroom₁⟩ :=
    exists_matchToken (h := h.undecided) hc hs hroom h.state.mode
  have hs₁ : h₁.stream.Shows cs := CharStream.Advances.shows
    (matchToken_moves CharStream.Advances.motion TableRecognizer.advances hmatch) hs
  cases found with
  | error e => exact ⟨_, _, _, .stopped hmatch, hroom₁⟩
  | ok outcome =>
      obtain ⟨after, h₂, matched, hsettle, hroom₂⟩ :=
        exists_settle reporter hs₁ hroom₁
          (h₁.refuseEofText h.state.mode outcome)
      refine ⟨_, _, _, .decided hmatch hsettle rfl, ?_⟩
      simpa only [CaretRoom, conclude, noteEof_eq, Head.index, CharStream.index_peek]
        using hroom₂

/-! ## A candidate -/

/-- The limit on the matches of a candidate is not reached. -/
theorem exists_assemble : ∀ {limit : Nat} {h : Head TableRecognizer},
    h.recognizer.automaton.NoEmptyMatch → h.recognizer.automaton.CellsInRange →
    h.InCandidate cs start → h.CaretRoom cs → cs.length - h.index < limit →
      ∃ events h' decision, h.assemble reporter limit = { events, outcome := .ok (h', decision) }
        ∧ h'.CaretRoom cs
  | 0, _, _, _, _, _, hlimit => absurd hlimit (Nat.not_lt_zero _)
  | limit + 1, h, ha, hc, hin, hroom, hlimit => by
      obtain ⟨first, h₁, decision, hturn, hroom₁⟩ :=
        exists_turn reporter hc hin.shows hroom
      obtain ⟨hsame, hcase, -⟩ := hturn.table hin ha
      by_cases hmore : decision = .ok .more
      · subst hmore
        obtain ⟨_, _, _, _, hlt⟩ := hcase.of_more
        have hadv := hturn.moves CharStream.Advances.motion TableRecognizer.advances
        have hin₁ := hin.of_advances hadv hsame
        have hle : h₁.index ≤ cs.length := hin₁.shows.index_le
        have hleft : cs.length - h₁.index < limit := by omega
        obtain ⟨rest, h', decision, hrest, hroom'⟩ :=
          exists_assemble (hsame.automaton ▸ ha) (hsame.automaton ▸ hc) hin₁ hroom₁ hleft
        exact ⟨_, h', decision,
          Run.bind_eq_ok.mpr ⟨first, _, rest, step_eq_ok.mpr hturn, hrest, rfl⟩, hroom'⟩
      · refine ⟨_, h₁, decision,
          Run.bind_eq_ok.mpr ⟨first, _, [], step_eq_ok.mpr hturn, ?_, rfl⟩, hroom₁⟩
        simp only
        rfl

/-! ## A call -/

/-- Nothing that is computed up to the end of the text leaves its range. -/
structure HasRoom (cs : List Char) (h : Head TableRecognizer) : Prop where
  caret : h.CaretRoom cs
  length_lt : cs.length < Checked.signedLimit
  lastToken : ∀ t, h.state.lastToken? = some t → t.HasEnd

theorem HasRoom.give (hroom : h.HasRoom cs) {t : Token} (ht : t.HasEnd) :
    (h.give t).HasRoom cs where
  caret := hroom.caret
  length_lt := hroom.length_lt
  lastToken := by
    intro u hu
    obtain rfl := Option.some.inj hu
    exact ht

/-- The sentinel can be placed, and covers nothing. -/
theorem exists_giveEof (hs : h.stream.Shows cs) (hroom : h.HasRoom cs) (source : Source) :
    ∃ h' t, h.giveEof source = .ok (h', t) ∧ h'.HasRoom cs := by
  have hcolumn : ∃ column, h.eofColumn = .ok column ∧ column < Checked.unsignedLimit := by
    unfold eofColumn
    cases hlast : h.state.lastToken? with
    | none => exact ⟨_, rfl, Nat.lt_of_le_of_lt (Nat.le_add_right ..) hroom.caret.column_lt⟩
    | some t =>
        obtain ⟨n, hlength, hlt⟩ := hroom.lastToken t hlast
        refine ⟨t.column + n, ?_, hlt⟩
        simp only [hlength, bind, Except.bind]
        exact Checked.add_eq_ok hlt
  obtain ⟨column, hcolumn, hlt⟩ := hcolumn
  unfold giveEof eofToken
  simp only [hcolumn, bind, Except.bind, pure, Except.pure]
  refine ⟨_, _, rfl, hroom.give ⟨0, ?_, hlt⟩⟩
  have hlen := Nat.lt_of_le_of_lt hs.index_le hroom.length_lt
  rw [Token.length_eq_ok rfl (Nat.le_refl _) hlen]
  exact congrArg _ (Nat.sub_self _)

/-- A completed candidate becomes a token with an end. -/
theorem exists_complete (hin : h.InCandidate cs start) (hroom : h.HasRoom cs)
    (hstart : start.caret.Room (cs.length - start.index)) (htoken : h.state.token? = none)
    (source : Source) (type : TokenId) :
    ∃ h' t, h.complete source start type = .ok (h', t) ∧ h'.HasRoom cs := by
  unfold complete
  rw [htoken]
  simp only
  split
  · exact exists_giveEof hin.shows hroom source
  · refine ⟨_, _, rfl, hroom.give ?_⟩
    have hle := hin.start_le
    have hlt : h.index < Checked.signedLimit :=
      Nat.lt_of_le_of_lt hin.shows.index_le hroom.length_lt
    have hlen : h.index ≤ cs.length := hin.shows.index_le
    have hcolumn := hstart.column_lt
    refine ⟨_, Token.length_eq_ok rfl hle hlt, ?_⟩
    simp only [tokenAt]
    omega

/-- Bound on the number of candidates that can be discarded. -/
def rounds (cs : List Char) (h : Head TableRecognizer) : Nat :=
  if h.state.eofSeen then 0 else cs.length - h.index + 1

/-- The limit on the candidates of a call is not reached either. -/
theorem exists_produce {matchLimit : Nat} (hmatches : cs.length < matchLimit) :
    ∀ {limit : Nat} {h : Head TableRecognizer},
    h.recognizer.automaton.NoEmptyMatch → h.recognizer.automaton.CellsInRange →
    h.stream.Shows cs → h.stream.KeepsFrom h.index → h.HasRoom cs → h.rounds cs < limit →
      ∃ events h' result,
        h.produce reporter matchLimit limit = { events, outcome := .ok (h', result) }
          ∧ h'.HasRoom cs
  | 0, _, _, _, _, _, _, hlimit => absurd hlimit (Nat.not_lt_zero _)
  | limit + 1, h, ha, hc, hs, hkeep, hroom, hlimit => by
      unfold produce
      split
      · obtain ⟨h', t, hgive, hroom'⟩ := exists_giveEof hs hroom reporter.source
        exact ⟨[], h', .ok t,
          Run.bind_eq_ok.mpr ⟨[], _, [], Run.ofExcept_eq_ok.mpr ⟨hgive, rfl⟩, rfl, rfl⟩, hroom'⟩
      · rename_i heof
        have hin := inCandidate_begun hs hkeep
        have hleft : cs.length - h.begun.index < matchLimit :=
          Nat.lt_of_le_of_lt (Nat.sub_le ..) hmatches
        obtain ⟨first, h₁, decision, hassemble, hcaret₁⟩ :=
          exists_assemble reporter (h := h.begun) ha hc hin hroom.caret hleft
        have hcandidate := assembles_of_assemble hassemble
        have htried := hcandidate.tried hs hkeep ha
        have hroom₁ : h₁.HasRoom cs :=
          ⟨hcaret₁, hroom.length_lt, fun t ht => hroom.lastToken t (htried.lastToken? ▸ ht)⟩
        rcases decision with e | matched
        · exact ⟨_, h₁, .error e, Run.bind_eq_ok.mpr ⟨first, _, [], hassemble, rfl, rfl⟩, hroom₁⟩
        cases matched with
        | type type =>
            obtain ⟨h', t, hcomplete, hroom'⟩ := exists_complete htried.within hroom₁ hroom.caret
              (htried.decided _ rfl).token? reporter.source type
            refine ⟨_, h', .ok t, Run.bind_eq_ok.mpr ⟨first, _, [], hassemble, ?_, rfl⟩, hroom'⟩
            exact Run.bind_eq_ok.mpr
              ⟨[], _, [], Run.ofExcept_eq_ok.mpr ⟨hcomplete, rfl⟩, rfl, rfl⟩
        | more => exact absurd rfl hcandidate.ne_more
        | skip =>
            have hlt := htried.lt_of_skip
            have hle := htried.index_le_length
            -- it has moved on, or the end of the text was seen in it
            have hrounds : h₁.rounds cs < limit := by
              have hfull : h.rounds cs = cs.length - h.index + 1 := if_neg heof
              unfold rounds
              split <;> omega
            obtain ⟨rest, h', result, hrest, hroom'⟩ := exists_produce hmatches
              (htried.automaton ▸ ha) (htried.automaton ▸ hc) htried.within.shows htried.keeps
              hroom₁ hrounds
            exact ⟨_, h', result, Run.bind_eq_ok.mpr ⟨first, _, rest, hassemble, hrest, rfl⟩,
              hroom'⟩

end Head

end ModalLexer
