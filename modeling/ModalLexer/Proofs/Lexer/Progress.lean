import ModalLexer.Lexer.Session
import ModalLexer.Proofs.Automaton.Room
import ModalLexer.Proofs.Lexer.Call
import ModalLexer.Sample

/-!
# Progress

A lexer with tables that accept nothing empty gets through every text. A call
comes to its end, its matches ascend through the text up to the last of them,
and unless it is stopped by an unknown mode or gives out the sentinel, it has
covered something. So the sentinel is not farther away than the end of the
text.
-/

namespace ModalLexer

/-! ## The course of a call -/

namespace Head

variable {cs : List Char} {reporter : Reporter} {h h' : Head TableRecognizer}
  {events : List Event}

theorem ascends_dropLast {i : Nat} {is : List Nat} (h : (i :: is).Pairwise (· < ·)) :
    (i :: is.dropLast).Pairwise (· < ·) :=
  h.sublist (.cons_cons i (List.dropLast_sublist is))

theorem ascends_append_dropLast {i j : Nat} {is js : List Nat}
    (hi : (i :: is).Pairwise (· < ·)) (hle : ∀ k ∈ is, k ≤ j) (hij : i ≤ j)
    (hj : (j :: js.dropLast).Pairwise (· < ·)) : (i :: (is ++ js).dropLast).Pairwise (· < ·) := by
  have happ := pairwise_lt_append hi hle hij hj
  rcases List.eq_nil_or_concat js with rfl | ⟨ks, k, rfl⟩
  · rw [List.append_nil]
    exact ascends_dropLast hi
  · rw [List.concat_eq_append, List.dropLast_concat] at happ
    rwa [List.concat_eq_append, ← List.append_assoc, List.dropLast_concat]

/-- The matches of a candidate ascend but for the last one, which may be a
failure at the end of the text. -/
theorem Tried.ascends {decision : Except LexerError TokenType}
    (htried : h.Tried cs reporter h' events decision) :
    (h.index :: (Event.matchStops events).dropLast).Pairwise (· < ·)
      ∧ (∀ i ∈ Event.matchStops events, i ≤ h'.index)
      ∧ (decision.isOk = false ∨ (decision = .ok .skip ∧ h'.index < cs.length) →
          (h.index :: Event.matchStops events).Pairwise (· < ·)) := by
  obtain ⟨before, last, h₁, rfl, hcandidate⟩ := htried.turns
  have hasc : (h.index :: Event.matchStops before).Pairwise (· < ·) := hcandidate.ascends
  have hle : h.index ≤ h₁.index := hcandidate.index_le
  have hlast := hcandidate.last_le
  have hstops := hcandidate.stops_le
  rw [Event.matchStops_append, hcandidate.turn.matchStops_eq]
  cases hok : decision.isOk with
  | false =>
      rw [if_neg Bool.false_ne_true, List.append_nil]
      exact ⟨ascends_dropLast hasc, fun i hi => Nat.le_trans (hstops i hi) hlast, fun _ => hasc⟩
  | true =>
      rw [if_pos rfl, List.dropLast_concat]
      refine ⟨hasc, fun i hi => ?_, ?_⟩
      · rcases List.mem_append.mp hi with hi | hi
        · exact Nat.le_trans (hstops i hi) hlast
        · exact Nat.le_of_eq (List.mem_singleton.mp hi)
      · rintro (hfalse | ⟨rfl, hlt⟩)
        · cases hfalse
        · have hstep : h₁.index < h'.index := by
            cases hcandidate.turn with
            | accepted _ hstep _ => exact hstep
            | failed _ _ _ hstep _ _ _ => exact hstep.resolve_right (Nat.ne_of_lt hlt)
          exact pairwise_lt_append hasc hstops hle (List.pairwise_pair.mpr hstep)

/-- As long as the end of the text has not been seen, they all ascend. -/
theorem Tried.ascends_of_unseen (htried : h.Tried cs reporter h' events (.ok .skip))
    (hseen : h'.state.eofSeen = false) :
    (h.index :: Event.matchStops events).Pairwise (· < ·) := by
  obtain ⟨-, -, hfull⟩ := htried.ascends
  have heof := (htried.decided _ rfl).eofSeen
  rw [hseen] at heof
  have hend : h'.index ≠ cs.length := fun heq => by simp [heq] at heof
  exact hfull (.inr ⟨rfl, Nat.lt_of_le_of_ne htried.index_le_length hend⟩)

/-- The index behind a candidate that failed or became a token lies farther
on, unless the mode was unknown or the token is the sentinel. -/
theorem Tried.lt {decision : Except LexerError TokenType}
    (htried : h.Tried cs reporter h' events decision)
    (hmode : ∀ mode, decision ≠ .error (.unknownMode mode))
    (htype : decision ≠ .ok (.type eofType)) : h.index < h'.index := by
  obtain ⟨before, last, h₁, rfl, hcandidate⟩ := htried.turns
  have hle : h.index ≤ h₁.index := hcandidate.index_le
  cases hcandidate.turn with
  | unknownMode => exact absurd rfl (hmode _)
  | emptyModeStack _ hlt | accepted _ hlt => exact Nat.lt_of_le_of_lt hle hlt
  | atEnd => exact absurd rfl htype
  | failed _ _ hlt => exact hlt

/-- How far a call has come. -/
structure Progress (h h' : Head TableRecognizer) (events : List Event)
    (result : Except LexerError Token) : Prop where
  automaton : h'.recognizer.automaton = h.recognizer.automaton
  index_le : h.index ≤ h'.index
  ascends : (h.index :: (Event.matchStops events).dropLast).Pairwise (· < ·)
  stops_le : ∀ i ∈ Event.matchStops events, i ≤ h'.index
  failed : ∀ e, result = .error e → (h.index :: Event.matchStops events).Pairwise (· < ·)
  lt : result.isOk = false ∧ (∀ mode, result ≠ .error (.unknownMode mode))
    ∨ (∃ t, result = .ok t ∧ t.isEof = false) → h.index < h'.index

theorem Progress.sentinel {source : Source} {t : Token}
    (hgive : h.giveEof source = .ok (h', t)) : h.Progress h' [] (.ok t) := by
  obtain ⟨heof, rfl⟩ := giveEof_eq_ok hgive
  refine ⟨rfl, Nat.le_refl _, by simp [Event.matchStops], by simp [Event.matchStops],
    by simp, ?_⟩
  rintro (⟨hok, -⟩ | ⟨u, hu, hfalse⟩)
  · cases hok
  · obtain rfl := Except.ok.inj hu
    cases (isEof_of_eofToken heof).symm.trans hfalse

theorem Tried.progress_error {e : LexerError} (htried : h.Tried cs reporter h' events (.error e)) :
    h.Progress h' events (.error e) := by
  obtain ⟨hasc, hstops, hfull⟩ := htried.ascends
  refine ⟨htried.automaton, htried.within.start_le, hasc, hstops, fun _ _ => hfull (.inl rfl), ?_⟩
  rintro (⟨-, hmode⟩ | ⟨u, hu, -⟩)
  · exact htried.lt (fun mode heq => hmode mode (by rw [Except.error.inj heq])) (by simp)
  · cases hu

theorem Tried.progress_complete {h₁ : Head TableRecognizer} {type : TokenId} {source : Source}
    {t : Token} (htried : h.Tried cs reporter h₁ events (.ok (.type type)))
    (hcomplete : h₁.complete source h.here type = .ok (h', t)) : h.Progress h' events (.ok t) := by
  obtain ⟨hasc, hstops, -⟩ := htried.ascends
  obtain ⟨rfl, hcase⟩ := complete_eq_ok hcomplete
  refine ⟨htried.automaton, htried.within.start_le, hasc, hstops, by simp, ?_⟩
  rintro (⟨hok, -⟩ | ⟨u, hu, hfalse⟩)
  · cases hok
  · obtain rfl := Except.ok.inj hu
    refine htried.lt (by simp) fun htype => ?_
    obtain rfl := TokenType.type.inj (Except.ok.inj htype)
    rcases hcase with htoken | ⟨-, -, heof⟩ | ⟨-, hne, -⟩
    · have hnone : h₁.state.token? = none := (htried.decided _ rfl).token?
      cases hnone.symm.trans htoken
    · cases (isEof_of_eofToken heof).symm.trans hfalse
    · exact hne rfl

/-- A candidate that is discarded adds to the progress of the others. If the end
of the text was seen in it, all that follows is the sentinel. -/
theorem Tried.progress_skip {h₁ : Head TableRecognizer} {before after : List Event}
    {result : Except LexerError Token} (htried : h.Tried cs reporter h₁ before (.ok .skip))
    (hseen : h₁.state.eofSeen = true → after = [] ∧ ∃ t, result = .ok t)
    (hrest : h₁.Progress h' after result) : h.Progress h' (before ++ after) result := by
  have hlt := htried.lt_of_skip
  have hle := hrest.index_le
  have hauto := hrest.automaton.trans htried.automaton
  obtain ⟨hasc, hstops, -⟩ := htried.ascends
  have hbound : ∀ i ∈ Event.matchStops (before ++ after), i ≤ h'.index := by
    intro i hi
    rw [Event.matchStops_append] at hi
    rcases List.mem_append.mp hi with hi | hi
    · exact Nat.le_trans (hstops i hi) hle
    · exact hrest.stops_le i hi
  by_cases heof : h₁.state.eofSeen = true
  · obtain ⟨rfl, t, rfl⟩ := hseen heof
    rw [List.append_nil] at hbound ⊢
    exact ⟨hauto, by omega, hasc, hbound, by simp, fun _ => by omega⟩
  · have hall := htried.ascends_of_unseen (Bool.eq_false_iff.mpr heof)
    refine ⟨hauto, by omega, ?_, hbound, fun e he => ?_, fun _ => by omega⟩
    · rw [Event.matchStops_append]
      exact ascends_append_dropLast hall hstops (Nat.le_of_lt hlt) hrest.ascends
    · rw [Event.matchStops_append]
      exact pairwise_lt_append hall hstops (Nat.le_of_lt hlt) (hrest.failed e he)

theorem Produces.progress {result : Except LexerError Token}
    (hcall : h.Produces reporter events h' result) (hs : h.stream.Shows cs)
    (hkeep : h.stream.KeepsFrom h.index) (ha : h.recognizer.automaton.NoEmptyMatch) :
    h.Progress h' events result := by
  -- on the candidates: each finds the text shown and kept where the last one ended
  induction hcall with
  | sentinel _ hgive => exact .sentinel hgive
  | broken _ hcandidate => exact (hcandidate.tried hs hkeep ha).progress_error
  | completed _ hcandidate hcomplete =>
      exact (hcandidate.tried hs hkeep ha).progress_complete hcomplete
  | discarded _ hcandidate hrest ih =>
      have htried := hcandidate.tried hs hkeep ha
      refine htried.progress_skip (fun hseen => ?_)
        (ih htried.within.shows htried.keeps (htried.automaton ▸ ha))
      cases hrest with
      | sentinel => exact ⟨rfl, _, rfl⟩
      | broken hfalse | completed hfalse | discarded hfalse => cases hseen.symm.trans hfalse

end Head

/-! ## Calls in a row -/

namespace Lexer

variable {cs : List Char} {lx : Lexer TableRecognizer} {s : CharStream}

/-- Nothing that is computed before the end of the stream leaves its range. -/
structure HasRoom (lx : Lexer TableRecognizer) (s : CharStream) : Prop where
  cells : lx.recognizer.automaton.CellsInRange
  caret : lx.caret.Room s.drain.1.length
  index_lt : s.index + s.drain.1.length < Checked.signedLimit
  lastToken : ∀ t, lx.state.lastToken? = some t → t.HasEnd

/-- The lexer reads the text `cs` from `s`, and can read it to the end. -/
structure Ready (cs : List Char) (lx : Lexer TableRecognizer) (s : CharStream) : Prop where
  stream : lx.stream? = some s
  shows : s.Shows cs
  noEmptyMatch : lx.recognizer.automaton.NoEmptyMatch
  cells : lx.recognizer.automaton.CellsInRange
  room : (lx.head s).HasRoom cs

theorem HasRoom.ready (hroom : lx.HasRoom s) (hstream : lx.stream? = some s)
    (ha : lx.recognizer.automaton.NoEmptyMatch) :
    ∃ cs, lx.Ready cs s ∧ cs.length = s.index + s.drain.1.length := by
  obtain ⟨cs, hs⟩ := s.exists_shows
  have hle := hs.index_le
  have hleft : s.drain.1.length = cs.length - s.index := by rw [hs.drain, List.length_drop]
  refine ⟨cs, ⟨hstream, hs, ha, hroom.cells, ?_, ?_, hroom.lastToken⟩, by omega⟩
  · have hcaret := hroom.caret
    rw [hleft] at hcaret
    exact hcaret
  · have hlt := hroom.index_lt
    omega

theorem Ready.hasRoom (hready : lx.Ready cs s) : lx.HasRoom s := by
  have hle := hready.shows.index_le
  have hlt := hready.room.length_lt
  have hleft : s.drain.1.length = cs.length - s.index := by
    rw [hready.shows.drain, List.length_drop]
  refine ⟨hready.cells, ?_, by omega, hready.room.lastToken⟩
  rw [hleft]
  exact hready.room.caret

/-- Two to the power of 54. The columns of a shorter text stay in range, however
wide its tabs are. -/
def textLimit : Nat := 0x40000000000000

/-- A lexer at the beginning of a stream is ready, unless the text is enormous. -/
theorem ready_restart {lx : Lexer TableRecognizer} (ha : lx.recognizer.automaton.NoEmptyMatch)
    (hc : lx.recognizer.automaton.CellsInRange) (hs : s.Shows cs) (hindex : s.index = 0)
    (hlength : cs.length < textLimit) : (lx.restart (some s)).Ready cs s := by
  unfold textLimit at hlength
  refine ⟨rfl, hs, ha, hc, ⟨Nat.le_refl 1, ?_, ?_⟩, ?_, nofun⟩
  · change 1 + (cs.length - s.index) < Checked.unsignedLimit
    simp only [Checked.unsignedLimit]
    omega
  · change 1 + 255 * (cs.length - s.index) < Checked.unsignedLimit
    simp only [Checked.unsignedLimit]
    omega
  · simp only [Checked.signedLimit]
    omega

theorem ready_attach {lx : Lexer TableRecognizer} (ha : lx.recognizer.automaton.NoEmptyMatch)
    (hc : lx.recognizer.automaton.CellsInRange) (hs : s.Shows cs) (hindex : s.index = 0)
    (hlength : cs.length < textLimit) : (lx.attach s).Ready cs s := by
  obtain ⟨hstream, hshows, hempty, hcells, hcaret, hlt, hlast⟩ :=
    ready_restart ha hc hs hindex hlength
  exact ⟨hstream, hshows, hempty, hcells, hcaret, hlt, hlast⟩

/-- One call comes to its end, has moved on, and leaves the lexer ready. -/
theorem Ready.call (hready : lx.Ready cs s) :
    ∃ events h u result, (lx.marked s).Produces lx.reporter events h result
      ∧ (lx.marked s).Progress h events result
      ∧ lx.nextToken = { events, outcome := .ok (lx.after h u result, result) }
      ∧ u.index = h.index ∧ (lx.after h u result).Ready cs u := by
  have hs : (lx.marked s).stream.Shows cs := hready.shows.mark
  have hkeep := lx.keepsFrom_marked s
  have hroom : (lx.marked s).HasRoom cs := by
    refine ⟨?_, hready.room.length_lt, hready.room.lastToken⟩
    have hcaret := hready.room.caret
    simp only [Head.CaretRoom, index_marked] at hcaret ⊢
    exact hcaret
  have hlimit : cs.length + 1 < s.mark.2.stepLimit := by
    have hlt := hready.room.length_lt
    simp only [Checked.signedLimit] at hlt
    simp only [CharStream.stepLimit]
    omega
  have hrounds : (lx.marked s).rounds cs < s.mark.2.stepLimit := by
    unfold Head.rounds
    split <;> omega
  obtain ⟨events, h, result, hproduce, hroom'⟩ := Head.exists_produce lx.reporter
    (Nat.lt_of_succ_lt hlimit) hready.noEmptyMatch hready.cells hs hkeep hroom hrounds
  have hcourse := Head.produces_of_produce hproduce
  have hprogress := hcourse.progress hs hkeep hready.noEmptyMatch
  obtain ⟨u, hreleased, hcall⟩ := exists_nextToken TableRecognizer.advances hready.stream hproduce
  have hadv := hcourse.moves CharStream.Advances.motion TableRecognizer.advances
  refine ⟨events, h, u, result, hcourse, hprogress, hcall, hreleased.index, rfl,
    hreleased.shows (hadv.shows hs), ?_, ?_, ?_⟩
  · intro mode state hmode
    have hauto := hprogress.automaton
    exact hauto ▸ hready.noEmptyMatch (hauto ▸ hmode)
  · have hauto := hprogress.automaton
    exact hauto ▸ hready.cells
  · refine ⟨?_, hroom'.length_lt, hroom'.lastToken⟩
    have hcaret := hroom'.caret
    have hu := hreleased.index
    simp only [Head.CaretRoom, Head.index, head, after] at hcaret ⊢
    rwa [hu]

theorem Ready.index_eq (hready : lx.Ready cs s) : lx.index = s.index := by
  rw [index, hready.stream]

/-- What a call with so many characters left has done when it returns. -/
structure CallProgress (left : Nat) (lx lx' : Lexer TableRecognizer) (events : List Event)
    (result : Except LexerError Token) : Prop where
  index_le : lx.index ≤ lx'.index
  token_lt : ∀ t, result = .ok t → t.isEof = false → lx.index < lx'.index
  popped_lt : ∀ mode, result = .error (.emptyModeStack mode) → lx.index < lx'.index
  /-- Every match but the last one of the call has moved on. -/
  ascends : (lx.index :: (Event.matchStops events).dropLast).Pairwise (· < ·)
  /-- In a call that fails, the last match is one that was not decided. -/
  failed : ∀ e, result = .error e → (lx.index :: Event.matchStops events).Pairwise (· < ·)
  stops_le : ∀ i ∈ Event.matchStops events, i ≤ lx'.index
  matches_le : (Event.matchStops events).length ≤ left + 1

/-- An ascent takes at most as many steps as it gains. -/
theorem length_le_of_pairwise_lt : ∀ {i k : Nat} {is : List Nat}, (i :: is).Pairwise (· < ·) →
    (∀ j ∈ is, j ≤ k) → is.length ≤ k - i
  | _, _, [], _, _ => Nat.zero_le _
  | i, k, j :: is, h, hle => by
      obtain ⟨hi, hj⟩ := List.pairwise_cons.mp h
      have hlt := hi j (List.mem_cons_self ..)
      have hjk := hle j (List.mem_cons_self ..)
      have hrest := length_le_of_pairwise_lt hj fun k hk => hle k (List.mem_cons_of_mem _ hk)
      rw [List.length_cons]
      omega

theorem Ready.callProgress (hready : lx.Ready cs s) {h : Head TableRecognizer} {u : CharStream}
    {events : List Event} {result : Except LexerError Token}
    (hprogress : (lx.marked s).Progress h events result) (hindex : u.index = h.index)
    (hafter : (lx.after h u result).Ready cs u) :
    CallProgress s.drain.1.length lx (lx.after h u result) events result := by
  have hbefore : (lx.marked s).index = lx.index :=
    (lx.index_marked s).trans hready.index_eq.symm
  have hlast : h.index = (lx.after h u result).index := hindex.symm.trans hafter.index_eq.symm
  have hle : (lx.after h u result).index ≤ cs.length := hafter.index_eq ▸ hafter.shows.index_le
  obtain ⟨-, hmono, hasc, hstops, hfailed, hlt⟩ := hprogress
  rw [hbefore] at hmono hasc hfailed hlt
  rw [hlast] at hmono hstops hlt
  refine ⟨hmono, ?_, ?_, hasc, hfailed, hstops, ?_⟩
  · exact fun t ht hfalse => hlt (.inr ⟨t, ht, hfalse⟩)
  · rintro mode rfl
    exact hlt (.inl ⟨rfl, by simp⟩)
  · have hcount := length_le_of_pairwise_lt hasc fun i hi =>
      Nat.le_trans (hstops i (List.dropLast_subset _ hi)) hle
    have hstart := hready.index_eq
    rw [List.length_dropLast] at hcount
    rw [hready.shows.drain, List.length_drop]
    omega

/-- The calls go on until the sentinel, which is not farther away than the
characters that are left, unless one of them meets an unknown mode. -/
theorem Ready.nextTokens : ∀ (n : Nat) {lx : Lexer TableRecognizer} {s : CharStream},
    lx.Ready cs s → ∃ events lx' results,
      lx.nextTokens n = { events, outcome := .ok (lx', results) }
        ∧ (cs.length - s.index < n → ∃ result ∈ results,
            (∃ mode, result = .error (.unknownMode mode)) ∨ ∃ t, result = .ok t ∧ t.isEof = true)
  | 0, lx, _, _ => ⟨[], lx, [], rfl, fun h => absurd h (Nat.not_lt_zero _)⟩
  | n + 1, lx, s, hready => by
      obtain ⟨first, h, u, result, -, hprogress, hcall, hindex, hafter⟩ := hready.call
      obtain ⟨rest, lx', results, hrest, hfound⟩ := hafter.nextTokens n
      refine ⟨_, lx', result :: results,
        Run.bind_eq_ok.mpr ⟨first, _, rest, hcall, ?_, rfl⟩, fun hlt => ?_⟩
      · simp only [hrest]
        rfl
      · by_cases hstop : (∃ mode, result = .error (.unknownMode mode))
            ∨ ∃ t, result = .ok t ∧ t.isEof = true
        · exact ⟨result, List.mem_cons_self .., hstop⟩
        · have hmoved : s.index < h.index := by
            rw [← lx.index_marked s]
            apply hprogress.lt
            cases result with
            | error e =>
                exact .inl ⟨rfl, fun mode heq => hstop (.inl ⟨mode, heq⟩)⟩
            | ok t =>
                refine .inr ⟨t, rfl, ?_⟩
                rw [Bool.eq_false_iff]
                exact fun htrue => hstop (.inr ⟨t, rfl, htrue⟩)
          have hle := hafter.shows.index_le
          obtain ⟨r, hr, hcase⟩ := hfound (by omega)
          exact ⟨r, List.mem_cons_of_mem _ hr, hcase⟩

/-- A lexer over tables that accept nothing empty, with any stream attached
and in any state with room to the end of it, comes to the end of every call,
and to the sentinel in as many calls as there are characters, and one. -/
theorem nextToken_terminates (lx : Lexer TableRecognizer) (s : CharStream)
    (hstream : lx.stream? = some s) (ha : lx.recognizer.automaton.NoEmptyMatch)
    (hroom : lx.HasRoom s) :
    (∃ events lx' result, lx.nextToken = { events, outcome := .ok (lx', result) }
        ∧ CallProgress s.drain.1.length lx lx' events result
        ∧ ∃ s', lx'.stream? = some s' ∧ lx'.recognizer.automaton.NoEmptyMatch ∧ lx'.HasRoom s')
      ∧ ∃ events lx' results,
        lx.nextTokens (s.drain.1.length + 1) = { events, outcome := .ok (lx', results) }
          ∧ ∃ result ∈ results, (∃ mode, result = .error (.unknownMode mode))
            ∨ ∃ t, result = .ok t ∧ t.isEof = true := by
  obtain ⟨cs, hready, hlength⟩ := hroom.ready hstream ha
  constructor
  · obtain ⟨events, h, u, result, -, hprogress, hcall, hindex, hafter⟩ := hready.call
    exact ⟨events, _, result, hcall, hready.callProgress hprogress hindex hafter, u, rfl,
      hafter.noEmptyMatch, hafter.hasRoom⟩
  · obtain ⟨events, lx', results, hrun, hfound⟩ := hready.nextTokens (s.drain.1.length + 1)
    exact ⟨events, lx', results, hrun, hfound (by omega)⟩

/-- A quotation that is not closed: the calls come to the sentinel after the
report. -/
theorem nextToken_terminates_unclosed :
    ∃ events lx' results, (Sample.lexer Sample.quotations "a \"b").nextTokens 5
        = { events, outcome := .ok (lx', results) }
      ∧ ∃ result ∈ results, (∃ mode, result = .error (.unknownMode mode))
        ∨ ∃ t, result = .ok t ∧ t.isEof = true := by
  have hleft : (CharStream.ofString "a \"b").drain.1.length = 4 := by
    rw [(CharStream.shows_ofString _ _).drain]
    decide
  have hready : (Sample.lexer Sample.quotations "a \"b").Ready "a \"b".toList
      (.ofString "a \"b") :=
    ready_attach (by decide) (by decide) (CharStream.shows_ofString ..) rfl (by decide)
  have hcalls := (nextToken_terminates (Sample.lexer Sample.quotations "a \"b")
    (.ofString "a \"b") rfl (by decide) hready.hasRoom).2
  rwa [hleft] at hcalls

end Lexer

end ModalLexer
