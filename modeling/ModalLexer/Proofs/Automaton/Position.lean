import ModalLexer.Proofs.Automaton.Candidate
import ModalLexer.Proofs.Caret

/-!
# Positions of a table-driven lexer

A character moves the position along on every path on which it is consumed:
in a walk, when it is dropped behind a failed match, and on request. So the
recognizer always has the position of the index of its stream, and what it is
taken for is right: a token says where it begins, a report where the
candidate began that is given up, and its cause where the match began that
failed.
-/

namespace ModalLexer

/-! ## Positions in what is seen -/

/-- Where the token says that it begins. -/
def Token.caret (t : Token) : Caret := { line := t.line, column := t.column }

def ErrorSite.caret (site : ErrorSite) : Caret := { line := site.line, column := site.column }

def Report.caret (report : Report) : Caret := { line := report.line, column := report.column }

/-- The report shows the position of the beginning of the candidate, and its
cause is a match that failed, with the position of its own beginning. -/
def Report.Placed (tab : TabWidth) (cs : List Char) (start : Nat) (report : Report) : Prop :=
  report.caret.At tab cs start
    ∧ ∃ site, report.cause = .noRule site ∧ site.caret.At tab cs site.index

/-- The index behind a candidate that is discarded by the event. -/
def Event.discarded? (e : Event) : Option Nat :=
  match e.decision? with
  | some (.skip, index) => some index
  | _ => none

/-- Index at which the candidate in progress began, after some events of a call
that began at `start`. -/
def candidateStart (start : Nat) (events : List Event) : Nat :=
  events.foldl (fun start e => e.discarded?.getD start) start

/-- All reports of a call that began at `start` are placed at the candidate that
was in progress. -/
def ReportsPlaced (tab : TabWidth) (cs : List Char) : (start : Nat) → List Event → Prop
  | _, [] => True
  | start, e :: events =>
    (∀ report, e.report? = some report → report.Placed tab cs start)
      ∧ ReportsPlaced tab cs (e.discarded?.getD start) events

section Reports

variable {tab : TabWidth} {cs : List Char} {start : Nat} {events rest : List Event}

theorem Event.discarded?_of_quiet {e : Event} (h : e.IsQuiet) : e.discarded? = none := by
  rw [discarded?, h.2]

theorem candidateStart_append :
    candidateStart start (events ++ rest) = candidateStart (candidateStart start events) rest :=
  List.foldl_append

theorem reportsPlaced_append :
    ReportsPlaced tab cs start (events ++ rest) ↔ ReportsPlaced tab cs start events
      ∧ ReportsPlaced tab cs (candidateStart start events) rest := by
  induction events generalizing start with
  | nil => simp [ReportsPlaced, candidateStart]
  | cons e events ih =>
      rw [List.cons_append, ReportsPlaced, ReportsPlaced, ih, and_assoc]
      rfl

/-- The event comes in the middle of a candidate that began at `start`: it does
not discard it, and if it is a report it is placed there. -/
def Event.Within (tab : TabWidth) (cs : List Char) (start : Nat) (e : Event) : Prop :=
  e.discarded? = none ∧ ∀ report, e.report? = some report → report.Placed tab cs start

theorem Event.within_of_quiet {e : Event} (h : e.IsQuiet) : e.Within tab cs start :=
  ⟨discarded?_of_quiet h, fun _ hreport => nomatch h.1.symm.trans hreport⟩

theorem candidateStart_of_within (h : ∀ e ∈ events, e.Within tab cs start) :
    candidateStart start events = start := by
  induction events with
  | nil => rfl
  | cons e events ih =>
      obtain ⟨hnone, -⟩ := h e (List.mem_cons_self ..)
      rw [candidateStart, List.foldl_cons, hnone]
      exact ih fun e he => h e (List.mem_cons_of_mem _ he)

theorem reportsPlaced_of_within (h : ∀ e ∈ events, e.Within tab cs start) :
    ReportsPlaced tab cs start events := by
  induction events with
  | nil => trivial
  | cons e events ih =>
      obtain ⟨hnone, hplaced⟩ := h e (List.mem_cons_self ..)
      refine ⟨hplaced, ?_⟩
      rw [hnone]
      exact ih fun e he => h e (List.mem_cons_of_mem _ he)

theorem within_deliver {report : Report} (h : report.Placed tab cs start) (d : Dispatch) :
    ∀ e ∈ d.deliver report, e.Within tab cs start := by
  intro e he
  unfold Dispatch.deliver at he
  split at he
  · obtain rfl := List.mem_singleton.mp he
    exact ⟨rfl, fun _ hreport => Option.some.inj hreport ▸ h⟩
  · obtain ⟨listener, -, rfl⟩ := List.mem_map.mp he
    exact ⟨rfl, fun _ hreport => Option.some.inj hreport ▸ h⟩

end Reports

/-! ## The recognizer -/

namespace TableRecognizer

variable {tab : TabWidth} {cs : List Char} {r : TableRecognizer} {s s' : CharStream}

/-- The recognizer has the position of the index of its stream. -/
structure InPlace (tab : TabWidth) (cs : List Char) (r : TableRecognizer) (s : CharStream) :
    Prop where
  shows : s.Shows cs
  tab_eq : r.tab = tab
  caret : r.caret.At tab cs s.index

/-- The position goes along with the stream, wherever they are held. -/
theorem InPlace.of_index_eq (h : r.InPlace tab cs s) (hs : s'.Shows cs)
    (hindex : s'.index = s.index) : r.InPlace tab cs s' :=
  ⟨hs, h.tab_eq, hindex ▸ h.caret⟩

theorem inPlace_iff :
    r.InPlace tab cs s ↔ s.Shows cs ∧ r.tab = tab ∧ r.caret.At tab cs s.index :=
  ⟨fun h => ⟨h.1, h.2, h.3⟩, fun h => ⟨h.1, h.2.1, h.2.2⟩⟩

/-- Whatever the recognizer does, it stays in place. -/
theorem inPlace_invariant (tab : TabWidth) (cs : List Char) :
    Recognizer.Invariant TableRecognizer (InPlace tab cs) := by
  have heq : InPlace tab cs
      = fun r s => s.Shows cs ∧ r.tab = tab ∧ r.caret.At tab cs s.index := by
    funext r s
    exact propext inPlace_iff
  rw [heq]
  refine caret_invariant (P := fun tab' k p => tab' = tab ∧ p.At tab cs k) ?_
  rintro _ k p q c ⟨rfl, hp⟩ hc hpass
  exact ⟨rfl, hp.pass hc hpass⟩

end TableRecognizer

/-! ## The lexer -/

namespace Head

variable {tab : TabWidth} {cs : List Char} {start : Start} {reporter : Reporter}
  {h h' : Head TableRecognizer} {events : List Event}

/-- The recognizer is in place. -/
def InPlace (tab : TabWidth) (cs : List Char) (h : Head TableRecognizer) : Prop :=
  h.recognizer.InPlace tab cs h.stream

/-- A match that fails says where it began. -/
theorem at_of_matchToken (hplace : h.InPlace tab cs) {mode : ModeId} {site : ErrorSite}
    (hmatch : h.matchToken mode = { events, outcome := .ok (h', .ok (.noRule site)) }) :
    site.caret.At tab cs site.index := by
  obtain ⟨_, _, scan, state, failure, hscan, -, -, hfound, -⟩ := matchToken_eq_ok.mp hmatch
  cases failure with
  | some e => cases hfound
  | none =>
      cases TableRecognizer.scan_eq_ok.mp hscan with
      | unknown | accepted | atEnd => cases hfound
      | stuck =>
          obtain rfl := Finding.noRule.inj (Except.ok.inj hfound)
          exact hplace.caret

/-- One that is refused at the end of the text says where the candidate began. -/
theorem at_of_refuseEofText (hbegan : h.state.candidate.start? = some start)
    (hstart : start.caret.At tab cs start.index) (mode : ModeId) {finding : Finding}
    (hfinding : ∀ site, finding = .noRule site → site.caret.At tab cs site.index) :
    ∀ site, h.refuseEofText mode finding = .noRule site → site.caret.At tab cs site.index := by
  intro site hsite
  rw [refuseEofText_eq hbegan] at hsite
  split at hsite
  · obtain rfl := Finding.noRule.inj hsite
    exact hstart
  · exact hfinding site hsite

theorem within_settle (hbegan : h.state.candidate.start? = some start)
    (hstart : start.caret.At tab cs start.index) {finding : Finding} {matched : TokenType}
    (hfinding : ∀ site, finding = .noRule site → site.caret.At tab cs site.index)
    (hsettle : h.settle reporter finding = { events, outcome := .ok (h', matched) }) :
    ∀ e ∈ events, e.Within tab cs start.index := by
  intro e he
  cases finding with
  | matched type =>
      obtain ⟨-, -, rfl⟩ := settle_matched_eq_ok.mp hsettle
      cases he
  | noRule site =>
      obtain ⟨before, h₁, after, hreport, hdrop, -, rfl⟩ := settle_noRule_eq_ok.mp hsettle
      rcases List.mem_append.mp he with he | he
      · rw [report_eq, hbegan] at hreport
        obtain ⟨rfl, -⟩ := Run.mk.inj hreport
        exact within_deliver ⟨hstart, site, rfl, hfinding site rfl⟩ _ e he
      · rcases dropChar_eq_ok.mp hdrop with ⟨-, -, rfl⟩ | ⟨c, r, s, -, rfl, -, -⟩
        · cases he
        · obtain rfl := List.mem_singleton.mp he
          exact Event.within_of_quiet ⟨rfl, rfl⟩

/-- Up to the decision about it, all that a match lets be seen comes in the middle
of the candidate. -/
theorem within_match (hplace : h.InPlace tab cs) (hbegan : h.state.candidate.start? = some start)
    (hstart : start.caret.At tab cs start.index) {before after : List Event}
    {h₁ h₂ : Head TableRecognizer} {outcome : Finding} {matched : TokenType}
    (hmatch : h.undecided.matchToken h.state.mode
      = { events := before, outcome := .ok (h₁, .ok outcome) })
    (hsettle : h₁.settle reporter (h₁.refuseEofText h.state.mode outcome)
      = { events := after, outcome := .ok (h₂, matched) }) :
    ∀ e ∈ before ++ after, e.Within tab cs start.index := by
  have hbegan₁ : h₁.state.candidate.start? = some start :=
    (sameCandidate_of_matchToken hmatch).start?.trans hbegan
  have hfound : ∀ site, outcome = .noRule site → site.caret.At tab cs site.index := by
    rintro site rfl
    exact at_of_matchToken (h := h.undecided) hplace hmatch
  have hsite := at_of_refuseEofText hbegan₁ hstart h.state.mode hfound
  intro e he
  rcases List.mem_append.mp he with he | he
  · exact Event.within_of_quiet (quiet_of_matchToken hmatch e he)
  · exact within_settle hbegan₁ hstart hsite hsettle e he

/-- What one match reports is placed at the candidate, and then it goes on or is
given up. -/
theorem Turn.reportsPlaced (hplace : h.InPlace tab cs)
    (hbegan : h.state.candidate.start? = some start)
    (hstart : start.caret.At tab cs start.index) {decision : Except LexerError TokenType}
    (hturn : h.Turn reporter events h' decision) :
    ReportsPlaced tab cs start.index events
      ∧ (decision = .ok .skip → candidateStart start.index events = h'.index)
      ∧ (decision ≠ .ok .skip → candidateStart start.index events = start.index) := by
  cases hturn with
  | stopped hmatch =>
      have hwithin : ∀ e ∈ events, e.Within tab cs start.index := by
        intro e he
        exact Event.within_of_quiet (quiet_of_matchToken hmatch e he)
      exact ⟨reportsPlaced_of_within hwithin, nofun, fun _ => candidateStart_of_within hwithin⟩
  | @decided before after _ _ _ _ matched final hmatch hsettle hfinal =>
      have hwithin := within_match hplace hbegan hstart hmatch hsettle
      have hreports : ReportsPlaced tab cs start.index
          (before ++ after ++ [.decided h.state.mode matched final h'.index]) :=
        reportsPlaced_append.mpr ⟨reportsPlaced_of_within hwithin, nofun, trivial⟩
      rw [candidateStart_append, candidateStart_of_within hwithin]
      refine ⟨hreports, ?_, ?_⟩
      · intro hskip
        obtain rfl := Except.ok.inj hskip
        rfl
      · intro hskip
        cases final with
        | skip => exact absurd rfl hskip
        | _ => rfl

theorem Assembles.reportsPlaced {decision : Except LexerError TokenType}
    (hcandidate : h.Assembles reporter events h' decision) (hplace : h.InPlace tab cs)
    (hbegan : h.state.candidate.start? = some start)
    (hstart : start.caret.At tab cs start.index) :
    ReportsPlaced tab cs start.index events
      ∧ (decision = .ok .skip → candidateStart start.index events = h'.index) := by
  induction hcandidate with
  | last hturn _ =>
      obtain ⟨hreports, hskip, -⟩ := hturn.reportsPlaced hplace hbegan hstart
      exact ⟨hreports, hskip⟩
  | more hturn _ ih =>
      obtain ⟨hreports, -, hmore⟩ := hturn.reportsPlaced hplace hbegan hstart
      rw [reportsPlaced_append, candidateStart_append, hmore nofun]
      obtain ⟨hrest, hskip⟩ := ih (hturn.keeps (TableRecognizer.inPlace_invariant tab cs) hplace)
        (hturn.start?_eq.trans hbegan)
      exact ⟨⟨hreports, hrest⟩, hskip⟩

/-- What a candidate reports is placed where it began. -/
theorem Assembles.reportsPlaced_begun {decision : Except LexerError TokenType}
    (hcandidate : h.begun.Assembles reporter events h' decision) (hplace : h.InPlace tab cs) :
    ReportsPlaced tab cs h.index events
      ∧ (decision = .ok .skip → candidateStart h.index events = h'.index) := by
  have hbegan : h.begun.state.candidate.start? = some h.here := rfl
  exact hcandidate.reportsPlaced hplace hbegan hplace.caret

/-- All that a call reports is placed at the candidate in progress. -/
theorem Produces.reportsPlaced {result : Except LexerError Token}
    (hcall : h.Produces reporter events h' result) (hplace : h.InPlace tab cs) :
    ReportsPlaced tab cs h.index events := by
  induction hcall with
  | sentinel => trivial
  | broken _ hcandidate | completed _ hcandidate =>
      exact (hcandidate.reportsPlaced_begun hplace).1
  | discarded _ hcandidate _ ih =>
      obtain ⟨hreports, hskip⟩ := hcandidate.reportsPlaced_begun hplace
      rw [reportsPlaced_append, hskip rfl]
      have hplace₁ := hcandidate.keeps (h := begun _)
        (TableRecognizer.inPlace_invariant tab cs) hplace
      exact ⟨hreports, ih hplace₁⟩

/-- A token, unless it is the sentinel, says where it begins, and it does so in
what the call has read. -/
theorem Produces.token_at {result : Except LexerError Token}
    (hcall : h.Produces reporter events h' result) (hplace : h.InPlace tab cs)
    (hkeep : h.stream.KeepsFrom h.index) (ha : h.recognizer.automaton.NoEmptyMatch) {t : Token}
    (hresult : result = .ok t) (heof : t.isEof = false) :
    h.index ≤ t.start ∧ t.start ≤ h'.index ∧ t.caret.At tab cs t.start := by
  induction hcall with
  | sentinel _ hgive =>
      obtain ⟨htoken, -⟩ := giveEof_eq_ok hgive
      obtain rfl := Except.ok.inj hresult
      cases (isEof_of_eofToken htoken).symm.trans heof
  | broken => cases hresult
  | completed _ hcandidate hcomplete =>
      have htried := hcandidate.tried hplace.shows hkeep ha
      obtain rfl := Except.ok.inj hresult
      obtain ⟨rfl, hemitted | ⟨-, -, htoken⟩ | ⟨-, -, rfl⟩⟩ := complete_eq_ok hcomplete
      · cases (htried.decided _ rfl).token?.symm.trans hemitted
      · cases (isEof_of_eofToken htoken).symm.trans heof
      · exact ⟨Nat.le_refl _, htried.within.start_le, hplace.caret⟩
  | discarded _ hcandidate _ ih =>
      have htried := hcandidate.tried hplace.shows hkeep ha
      have hplace₁ := hcandidate.keeps (h := begun _)
        (TableRecognizer.inPlace_invariant tab cs) hplace
      obtain ⟨hle, hle', hcaret⟩ := ih hplace₁ htried.keeps (htried.automaton ▸ ha) hresult
      exact ⟨Nat.le_trans htried.within.start_le hle, hle', hcaret⟩

end Head

end ModalLexer
