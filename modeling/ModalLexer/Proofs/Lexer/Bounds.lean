import ModalLexer.Proofs.Automaton.Bounds
import ModalLexer.Proofs.Lexer.Steps

/-!
# Bounds of the numbers in a session

A session in a text keeps its lexer fit for the next call (`Fit.perform`): the
index bounds the position, whether characters that are dropped on request are
tracked or not, whatever the tab width is set to, and a reset puts both back to
where they began. So no command of such a session takes a number out of its
range. What is not shown, and does not hold, is that every call returns: of the
tables nothing is assumed but that the numbers of their cells are in range. An
entry that they lack is no fault: it is looked up as one that is not there.
-/

namespace ModalLexer

/-- The command belongs to ordinary work on a text: it asks for a token, drops a
character, reports an error, acts on the state, sets the tab width or resets the
lexer. -/
def Command.Ordinary : Command TableRecognizer → Prop
  | .next | .recover _ | .notify _ | .act _ | .reset => True
  | .adjust change => ∃ width : UInt8, change = (·.setTabWidth width)
  | _ => False

namespace Lexer

variable {cs : List Char} {lx : Lexer TableRecognizer} {s : CharStream}

/-- The lexer reads the text `cs` from `s`, with all that it takes to stay in
range. -/
structure Fit (cs : List Char) (lx : Lexer TableRecognizer) (s : CharStream) : Prop where
  stream : lx.stream? = some s
  isText : s.outstanding = none
  shows : s.Shows cs
  cells : lx.recognizer.automaton.CellsInRange
  caret : lx.caret.Bounded s.index
  length_lt : cs.length < textLimit
  lastToken : ∀ t, lx.state.lastToken? = some t → t.HasEnd

namespace Fit

theorem columns_lt (h : lx.Fit cs s) : 1 + 255 * cs.length < Checked.unsignedLimit := by
  have hlength := h.length_lt
  simp only [textLimit] at hlength
  simp only [Checked.unsignedLimit]
  omega

/-- The lexer can be called. -/
theorem marked (h : lx.Fit cs s) : (lx.marked s).Fit cs where
  cells := h.cells
  bounded := ⟨h.shows.mark, s.index_mark.symm ▸ h.caret⟩
  keeps := lx.keepsFrom_marked s
  length_lt := h.columns_lt
  lastToken := h.lastToken

/-- The lexer is as fit farther on, if the index bounds the position there. -/
theorem placed (h : lx.Fit cs s) {u : CharStream} {p : Caret} (hadv : s.Advances u)
    (hcaret : p.Bounded u.index) : (lx.placed u p).Fit cs u where
  stream := rfl
  isText := hadv.outstanding_eq.trans h.isText
  shows := hadv.shows h.shows
  cells := h.cells
  caret := hcaret
  length_lt := h.length_lt
  lastToken := h.lastToken

/-- A lexer at the beginning of a text is fit. -/
theorem restart {lx : Lexer TableRecognizer} (hcells : lx.recognizer.automaton.CellsInRange)
    {t : TextStream} (hs : t.chars.toList = cs) (hindex : t.position = 0)
    (hlength : cs.length < textLimit) : (lx.restart (some (.text t))).Fit cs (.text t) where
  stream := rfl
  isText := rfl
  shows := hs
  cells := hcells
  caret := by
    rw [CharStream.index, hindex]
    exact .zero
  length_lt := hlength
  lastToken := nofun

/-! ## A call -/

/-- No call takes a number out of its range. -/
theorem inRange_nextToken (h : lx.Fit cs s) : lx.nextToken.InRange := by
  simp only [nextToken, h.stream]
  refine Run.InRange.bind (Head.inRange_produce h.marked) ?_
  rintro events ⟨last, result⟩ hproduce
  have hmoves := (Head.produces_of_produce hproduce).moves CharStream.Advances.motion
    TableRecognizer.advances
  obtain ⟨u, hrelease, -⟩ := CharStream.release_mark (s := s) hmoves.outstanding_eq
  simp only [hrelease, pure_bind]
  exact Run.inRange_of_ok (Run.outcome_pure _)

/-- A call that comes to its end leaves the lexer fit, and its token has an end. -/
theorem nextToken (h : lx.Fit cs s) {events : List Event} {lx' : Lexer TableRecognizer}
    {result : Except LexerError Token}
    (hcall : lx.nextToken = { events, outcome := .ok (lx', result) }) :
    (∃ u, lx'.Fit cs u) ∧ ∀ t, result = .ok t → t.HasEnd := by
  obtain ⟨last, u, hcourse, hreleased, rfl⟩ :=
    produces_of_nextToken TableRecognizer.advances h.stream hcall
  obtain ⟨hfit, hresult⟩ := h.marked.produces hcourse
  refine ⟨⟨u, ?_⟩, hresult⟩
  exact {
    stream := rfl
    isText := hreleased.outstanding.trans h.isText
    shows := hreleased.shows hfit.bounded.shows
    cells := hfit.cells
    caret := hreleased.index.symm ▸ hfit.bounded.caret
    length_lt := h.length_lt
    lastToken := hfit.lastToken }

/-! ## A command -/

/-- A character that is dropped takes the index along, and the position at most
as far. -/
theorem bounded_of_dropsTo (h : lx.Fit cs s) {p : Caret} (hdrops : lx.DropsTo cs s p) :
    p.Bounded (min (s.index + 1) cs.length) := by
  have hle := h.shows.index_le
  unfold DropsTo at hdrops
  cases hc : cs[s.index]? with
  | none =>
      rw [hc] at hdrops
      obtain rfl := hdrops
      exact h.caret.mono (by omega)
  | some c =>
      obtain ⟨hlt, -⟩ := List.getElem?_eq_some_iff.mp hc
      rw [Nat.min_eq_left hlt]
      simp only [hc] at hdrops
      split at hdrops
      · exact h.caret.pass hdrops
      · exact hdrops ▸ h.caret.mono (Nat.le_succ _)

/-- A command that does not ask for a token is carried out, and leaves the lexer
fit. -/
theorem exists_entry (h : lx.Fit cs s) {c : Command TableRecognizer} (hc : c.Ordinary)
    (hnext : c ≠ .next) :
    ∃ (entry : Entry TableRecognizer) (u : CharStream),
      c.perform lx = entry.run ∧ entry.lexer.Fit cs u ∧ entry.token? = none := by
  cases c with
  | next => exact absurd rfl hnext
  | recover e =>
      obtain ⟨u, p, hrecover, hadv, hindex, hdrops, -⟩ := recover_placed h.stream h.shows
        (h.caret.room h.shows.index_le h.columns_lt) e
      exact ⟨⟨_, .done, lx.placed u p⟩, u, Run.bind_pure_of_eq_ok hrecover _,
        h.placed hadv (hindex ▸ h.bounded_of_dropsTo hdrops), rfl⟩
  | notify e =>
      obtain ⟨events, u, hnotify, hadv, hindex⟩ := notify_placed h.stream e
      exact ⟨⟨events, .done, lx.placed u lx.caret⟩, u, Run.bind_pure_of_eq_ok hnotify _,
        h.placed hadv (hindex ▸ h.caret), rfl⟩
  | act a =>
      obtain ⟨events, state, failure, hperform, hact⟩ := lx.exists_perform_act a
      obtain ⟨-, hlast, -⟩ := State.perform_frame hperform
      refine ⟨_, s, hact, { h with lastToken := ?_ }, ?_⟩
      · intro t ht
        exact h.lastToken t (hlast ▸ ht)
      · cases failure <;> rfl
  | reset =>
      obtain ⟨t, rfl⟩ : ∃ t, s = .text t := by
        cases s with
        | text t => exact ⟨t, rfl⟩
        | reader r => cases h.isText
      have hreset : lx.reset = .ok (lx.restart (some (.text (t.seek 0)))) := by
        simp only [reset, h.stream]
        rfl
      have hstart : (t.seek 0).position = 0 := Nat.zero_min _
      refine ⟨⟨[], .done, lx.restart (some (.text (t.seek 0)))⟩, _, ?_,
        restart h.cells h.shows hstart h.length_lt, rfl⟩
      simp only [Command.perform, hreset]
      rfl
  | adjust change =>
      obtain ⟨width, rfl⟩ := hc
      exact ⟨⟨[], .done, { lx with recognizer := lx.recognizer.setTabWidth width }⟩, s, rfl,
        { h with }, rfl⟩
  | _ => exact hc.elim

/-- Every command stays in range. If it comes to its end, the lexer is fit for the
next one, and a token that it returns has an end. -/
theorem perform (h : lx.Fit cs s) {c : Command TableRecognizer} (hc : c.Ordinary) :
    (c.perform lx).InRange ∧ ∀ entry : Entry TableRecognizer, c.perform lx = entry.run →
      (∃ u, entry.lexer.Fit cs u) ∧ ∀ t, entry.token? = some t → t.HasEnd := by
  by_cases hnext : c = .next
  · subst hnext
    constructor
    · refine Run.InRange.bind h.inRange_nextToken ?_
      intro _ found _
      exact Run.inRange_of_ok (Run.outcome_pure _)
    · intro entry hperform
      obtain ⟨result, hcall, hreply⟩ := Command.perform_next_eq_ok.mp hperform
      obtain ⟨hfit, hresult⟩ := h.nextToken hcall
      refine ⟨hfit, ?_⟩
      intro t ht
      rw [Entry.token?_eq_some, hreply] at ht
      exact hresult t (Reply.token.inj ht)
  · obtain ⟨entry, u, hentry, hfit, hnone⟩ := h.exists_entry hc hnext
    constructor
    · exact Run.inRange_of_ok (congrArg Run.outcome hentry)
    · intro entry' hperform
      obtain rfl := Entry.run_injective (hentry.symm.trans hperform)
      refine ⟨⟨u, hfit⟩, ?_⟩
      intro t ht
      cases hnone.symm.trans ht

/-! ## A session -/

theorem inRange_performAll {commands : List (Command TableRecognizer)} (h : lx.Fit cs s)
    (hc : ∀ c ∈ commands, c.Ordinary) : (Command.performAll commands lx).InRange := by
  induction commands generalizing lx s with
  | nil => exact Run.inRange_of_ok (Run.outcome_pure _)
  | cons c commands ih =>
      obtain ⟨hrange, hentry⟩ := h.perform (hc c (List.mem_cons_self ..))
      refine Run.InRange.bind hrange ?_
      rintro events ⟨lx', reply⟩ hperform
      obtain ⟨⟨u, hfit⟩, -⟩ := hentry ⟨events, reply, lx'⟩ hperform
      exact (ih hfit fun c hmem => hc c (List.mem_cons_of_mem _ hmem)).map _

/-- After every session the lexer is fit, and the tokens it has returned have
ends. -/
theorem trace {commands : List (Command TableRecognizer)}
    {entries : List (Entry TableRecognizer)} (htrace : Trace lx commands entries)
    (h : lx.Fit cs s) (hc : ∀ c ∈ commands, c.Ordinary) :
    (∃ u, (Entry.last lx entries).Fit cs u) ∧ ∀ t ∈ returned entries, t.HasEnd := by
  induction htrace generalizing s with
  | nil => exact ⟨⟨s, h⟩, nofun⟩
  | @cons _ c _ entry _ hstep _ ih =>
      obtain ⟨⟨u, hfit⟩, htoken⟩ := (h.perform (hc c (List.mem_cons_self ..))).2 entry hstep
      obtain ⟨hlast, hreturned⟩ := ih hfit fun c hmem => hc c (List.mem_cons_of_mem _ hmem)
      refine ⟨hlast, ?_⟩
      intro t ht
      rw [returned_cons] at ht
      rcases List.mem_append.mp ht with ht | ht
      · exact htoken t (Option.mem_toList.mp ht)
      · exact hreturned t ht

end Fit

/-- Over tables of which no cell number leaves its range, and a text that is not
enormous, no ordinary session takes a number out of its range, even if one of
its calls does not come to its end. After every session, and on the way of every
call from there, the position is bounded by the index, and what is computed
without a check would pass one. The tokens that have been returned have ends. -/
theorem sessions_stay_in_range (lx : Lexer TableRecognizer)
    (hcells : lx.recognizer.automaton.CellsInRange) (text name : String)
    (hlength : text.length < textLimit) (commands : List (Command TableRecognizer))
    (hc : ∀ c ∈ commands, c.Ordinary) :
    let start := lx.attach (.ofString text name)
    (Command.performAll commands start).InRange
      ∧ ∀ entries, Trace start commands entries →
        let last := Entry.last start entries
        (∀ t ∈ returned entries, t.HasEnd)
          ∧ ∃ s, last.stream? = some s
            ∧ (∀ matchLimit limit, ((last.marked s).produce last.reporter matchLimit limit).InRange)
            ∧ ∀ h, (last.marked s).Visits last.reporter h →
              h.index ≤ text.length ∧ h.caret.Bounded h.index ∧ h.Checks := by
  rw [← String.length_toList] at hlength
  intro start
  have hstart : start.Fit text.toList (.ofString text name) := by
    have hrestart : (lx.restart (some (.ofString text name))).Fit text.toList
        (.ofString text name) := .restart hcells rfl rfl hlength
    exact { hrestart with }
  refine ⟨hstart.inRange_performAll hc, ?_⟩
  intro entries htrace last
  obtain ⟨⟨s, hfit⟩, hreturned⟩ := Fit.trace htrace hstart hc
  refine ⟨hreturned, s, hfit.stream, fun _ _ => Head.inRange_produce hfit.marked, ?_⟩
  intro h hvisits
  have hbounded : h.Bounded text.toList :=
    hvisits.keeps (TableRecognizer.bounded_invariant _) hfit.marked.bounded
  have hmoves := hvisits.moves CharStream.Advances.motion TableRecognizer.advances
  have hmark : s.mark.2.outstanding = none := by
    cases s with
    | text t => rfl
    | reader r => cases hfit.isText
  refine ⟨?_, hbounded.caret, hbounded.checks (hmoves.outstanding_eq.trans hmark) hfit.columns_lt⟩
  rw [← String.length_toList]
  exact hbounded.shows.index_le

/-- Tabs of the least and the greatest width, a character dropped in between, a
mode entered by hand that the text has no way out of, and a reset. -/
theorem sessions_stay_in_range_tabs :
    let lx : Lexer TableRecognizer := { recognizer := { automaton := Sample.quotations } }
    let start := lx.attach (.ofString "a\t\"b\t")
    let commands : List (Command TableRecognizer) :=
      [.adjust (·.setTabWidth 0), .next, .recover (.noRule {}), .act (.pushMode 1), .next, .next,
        .next, .reset, .act .popMode, .adjust (·.setTabWidth 255), .next, .recover (.noRule {})]
    lx.recognizer.automaton.CellsInRange ∧ "a\t\"b\t".length < textLimit
      ∧ (∀ c ∈ commands, c.Ordinary) ∧ (Command.performAll commands start).InRange
      ∧ ∃ entries, Trace start commands entries ∧ (∀ t ∈ returned entries, t.HasEnd)
        ∧ (Entry.last start entries).caret.Bounded (Entry.last start entries).index := by
  intro lx start commands
  have hcells : lx.recognizer.automaton.CellsInRange := by decide
  have hlength : "a\t\"b\t".length < textLimit := by decide
  have hc : ∀ c ∈ commands, c.Ordinary := by
    simp only [commands, List.forall_mem_cons, Command.Ordinary, true_and]
    exact ⟨⟨0, rfl⟩, ⟨255, rfl⟩, nofun⟩
  obtain ⟨hrange, hall⟩ :=
    sessions_stay_in_range lx hcells "a\t\"b\t" unknownSourceName hlength commands hc
  obtain ⟨entries, htrace⟩ : ∃ entries, Trace start commands entries :=
    exists_trace_of_isSome (by decide +kernel)
  obtain ⟨hreturned, s, hstream, -, hvisits⟩ := hall entries htrace
  obtain ⟨-, hcaret, -⟩ := hvisits _ .here
  rw [index_marked] at hcaret
  refine ⟨hcells, hlength, hc, hrange, entries, htrace, hreturned, ?_⟩
  rw [Lexer.index, hstream]
  exact hcaret

end Lexer

end ModalLexer
