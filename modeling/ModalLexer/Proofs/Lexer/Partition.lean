import Mathlib.Data.List.Forall2
import ModalLexer.Proofs.Lexer.Steps

/-!
# Nothing is lost

What a lexer has read is what it has accounted for. Every call leaves behind
a few stretches of the text: those of the candidates it discarded, of which
the ones that failed are quoted in a report, then that of the token it returns
or of the candidate in which it broke off. `Discards` reads the first of them
off the events of the call, `closing` is the last, and `Tiles` says that they
lie one behind the other. Over a session of calls, and of actions in between,
the stretches tile the text up to the current index.
-/

namespace ModalLexer

/-! ## Stretches -/

/-- What became of a stretch of the text. -/
inductive Fate where
  /-- It was returned as a token. -/
  | token (t : Token)
  /-- A rule has discarded it. -/
  | skipped
  /-- It was reported, and left behind. -/
  | reported (report : Report)
  /-- The call ended in the middle of it. -/
  | abandoned (e : LexerError)

/-- The characters from `start` up to but not including `stop`, and what
became of them. -/
structure Stretch where
  start : Nat
  stop : Nat
  fate : Fate

namespace Stretch

/-- The characters of the stretch. -/
def chars (cs : List Char) (s : Stretch) : List Char := cs.extract s.start s.stop

/-- What became of the stretch tells what stands there. -/
def Faithful (cs : List Char) (s : Stretch) : Prop :=
  match s.fate with
  | .token t =>
    s.start < s.stop ∧ t.isEof = false ∧ t.start = s.start ∧ t.stop + 1 = s.stop
      ∧ t.text = String.ofList (s.chars cs)
  | .skipped => s.start < s.stop
  | .reported report =>
    s.start < s.stop ∧ report.message = "token recognition error at: '"
      ++ Text.visible (String.ofList (s.chars cs)) ++ "'"
  | .abandoned _ => True

end Stretch

/-- The stretches lie one behind the other, from one index to another. -/
inductive Tiles : Nat → List Stretch → Nat → Prop
  | nil {i : Nat} : Tiles i [] i
  | cons {s : Stretch} {rest : List Stretch} {j : Nat} (hle : s.start ≤ s.stop)
      (hrest : Tiles s.stop rest j) : Tiles s.start (s :: rest) j

namespace Tiles

theorem single {i j : Nat} {fate : Fate} (hle : i ≤ j) : Tiles i [⟨i, j, fate⟩] j :=
  .cons (s := ⟨i, j, fate⟩) hle .nil

theorem append {i j k : Nat} {left right : List Stretch} (hleft : Tiles i left j)
    (hright : Tiles j right k) : Tiles i (left ++ right) k := by
  induction hleft with
  | nil => exact hright
  | cons hle _ ih => exact .cons hle (ih hright)

theorem le {i j : Nat} {stretches : List Stretch} (h : Tiles i stretches j) : i ≤ j := by
  induction h with
  | nil => exact Nat.le_refl _
  | cons hle _ ih => exact Nat.le_trans hle ih

end Tiles

/-! ## Reading the events -/

/-- The stretches that the events of a call discard: one for every match that
was decided to be skipped, reported if a report was delivered since the match
before, and no other reports. -/
inductive Discards (listeners : Dispatch) : List Event → List Stretch → Prop
  | nil : Discards listeners [] []
  | pass {e : Event} {events : List Event} {stretches : List Stretch}
      (hreport : e.report? = none) (hdecision : ∀ i, e.decision? ≠ some (.skip, i))
      (hrest : Discards listeners events stretches) : Discards listeners (e :: events) stretches
  | skipped {mode : ModeId} {matched : TokenType} {start stop : Nat} {events : List Event}
      {stretches : List Stretch} (hrest : Discards listeners events stretches) :
      Discards listeners (.decided mode matched .skip stop :: events)
        (⟨start, stop, .skipped⟩ :: stretches)
  | reported {report : Report} {quiet : List Event} {mode : ModeId} {matched : TokenType}
      {start stop : Nat} {events : List Event} {stretches : List Stretch}
      (hquiet : ∀ e ∈ quiet, e.IsQuiet) (hrest : Discards listeners events stretches) :
      Discards listeners
        (listeners.deliver report ++ quiet ++ .decided mode matched .skip stop :: events)
        (⟨start, stop, .reported report⟩ :: stretches)

namespace Discards

variable {listeners : Dispatch} {events rest : List Event} {stretches more : List Stretch}

theorem append (h : Discards listeners events stretches) (hrest : Discards listeners rest more) :
    Discards listeners (events ++ rest) (stretches ++ more) := by
  induction h with
  | nil => exact hrest
  | pass hreport hdecision _ ih => exact .pass hreport hdecision ih
  | skipped _ ih => exact .skipped ih
  | reported hquiet _ ih =>
      rw [List.append_assoc, List.cons_append]
      exact .reported hquiet ih

/-- Events that discard nothing may come first. -/
theorem nil_append (h : Discards listeners events []) (hrest : Discards listeners rest more) :
    Discards listeners (events ++ rest) more := h.append hrest

theorem of_pass (h : ∀ e ∈ events, e.report? = none ∧ ∀ i, e.decision? ≠ some (.skip, i)) :
    Discards listeners events [] := by
  induction events with
  | nil => exact .nil
  | cons e events ih =>
      obtain ⟨hreport, hdecision⟩ := h e (List.mem_cons_self ..)
      exact .pass hreport hdecision (ih fun e he => h e (List.mem_cons_of_mem _ he))

theorem of_quiet (h : ∀ e ∈ events, e.IsQuiet) : Discards listeners events [] :=
  of_pass fun e he => ⟨(h e he).1, by simp [(h e he).2]⟩

end Discards

/-- What a call leaves behind in the end: the token, unless it is the sentinel,
or the candidate that was in progress when it failed. -/
def closing (state : State) (index : Nat) : Except LexerError Token → List Stretch
  | .ok t => if t.isEof then [] else [⟨t.start, (t.stop + 1).toNat, .token t⟩]
  | .error e => [⟨(state.candidate.start?.map Start.index).getD index, index, .abandoned e⟩]

/-! ## One candidate -/

namespace Head

variable {cs : List Char} {reporter : Reporter} {h h' : Head TableRecognizer}
  {events : List Event} {decision : Except LexerError TokenType}

theorem TableCandidate.discards_before {start : Start} {h₁ : Head TableRecognizer}
    {before last : List Event}
    (hcandidate : TableCandidate cs start reporter h h₁ h' before last decision)
    {listeners : Dispatch} : Discards listeners before [] :=
  .of_pass fun e he => by
    obtain ⟨hreport, hmore⟩ := hcandidate.kept e he
    exact ⟨hreport, fun i hi => nomatch hmore _ _ hi⟩

/-- Unless it is discarded, a candidate leaves nothing to be seen. -/
theorem Tried.discards_nil (htried : h.Tried cs reporter h' events decision)
    (hskip : decision ≠ .ok .skip) : Discards reporter.listeners events [] := by
  obtain ⟨before, last, h₁, rfl, hcandidate⟩ := htried.turns
  refine hcandidate.discards_before.nil_append ?_
  cases hcandidate.turn with
  | unknownMode hquiet | emptyModeStack hquiet => exact .of_quiet hquiet
  | accepted hquiet | atEnd hquiet =>
      refine (Discards.of_quiet hquiet).nil_append (.pass rfl ?_ .nil)
      intro i hi
      obtain ⟨htype, -⟩ := Prod.mk.inj (Option.some.inj hi)
      exact hskip (congrArg _ htype)
  | failed => exact absurd rfl hskip

/-- A candidate that is discarded leaves the stretch it has covered. -/
theorem Tried.discards_skip (htried : h.Tried cs reporter h' events (.ok .skip)) :
    ∃ fate, Discards reporter.listeners events [⟨h.index, h'.index, fate⟩]
      ∧ Stretch.Faithful cs ⟨h.index, h'.index, fate⟩ := by
  have hlt := htried.lt_of_skip
  obtain ⟨before, last, h₁, rfl, hcandidate⟩ := htried.turns
  have hbefore : Discards reporter.listeners before [] := hcandidate.discards_before
  cases hcandidate.turn with
  | accepted hquiet =>
      refine ⟨.skipped, hbefore.nil_append ?_, hlt⟩
      exact (Discards.of_quiet hquiet).nil_append (.skipped .nil)
  | @failed first after report mode hfirst hafter _ _ _ _ hmessage =>
      refine ⟨.reported report, hbefore.nil_append ?_, hlt, hmessage⟩
      rw [List.append_assoc]
      exact (Discards.of_quiet hfirst).nil_append (.reported hafter .nil)

/-- A completed candidate leaves its token, or nothing if it is the sentinel. -/
theorem Tried.closing_complete {h₁ : Head TableRecognizer} {type : TokenId} {t : Token}
    {source : Source} (htried : h.Tried cs reporter h₁ events (.ok (.type type)))
    (hcomplete : h₁.complete source h.here type = .ok (h', t)) :
    Tiles h.index (closing h'.state h'.index (.ok t)) h'.index
      ∧ ∀ s ∈ closing h'.state h'.index (.ok t), s.Faithful cs := by
  have hdecided := htried.decided _ rfl
  have htoken : h₁.state.token? = none := hdecided.token?
  have htext : h₁.state.candidate.text? = none := hdecided.text?
  obtain ⟨rfl, hemitted | ⟨-, rfl, heof⟩ | ⟨-, hne, rfl⟩⟩ := complete_eq_ok hcomplete
  · cases htoken.symm.trans hemitted
  · obtain ⟨before, last, h₀, rfl, hcandidate⟩ := htried.turns
    have hsame : h.index = h₁.index := by
      cases hcandidate.turn with
      | accepted _ _ htype => exact absurd rfl htype
      | atEnd _ hindex hstart _ => exact hstart.trans hindex.symm
    have hclosing : closing (h₁.give t).state (h₁.give t).index (.ok t) = [] :=
      if_pos (isEof_of_eofToken heof)
    rw [hclosing]
    exact ⟨hsame ▸ .nil, by simp⟩
  · have hlt := htried.lt (by simp) (by simpa using hne)
    have heof : (h₁.tokenAt source h.here type).isEof = false := by
      simpa [Token.isEof, tokenAt] using hne
    have hslice : h₁.stream.slice h.index h₁.index = String.ofList (cs.extract h.index h₁.index) :=
      htried.within.shows.slice htried.within.keeps (Nat.le_refl _)
    have hstop : ((h₁.tokenAt source h.here type).stop + 1).toNat = h₁.index := by
      simp [tokenAt]
    simp only [closing, heof, Bool.false_eq_true, if_false, hstop]
    refine ⟨.single (Nat.le_of_lt hlt), fun s hs => ?_⟩
    obtain rfl := List.mem_singleton.mp hs
    refine ⟨hlt, heof, rfl, by simp [tokenAt], ?_⟩
    simp only [tokenAt, htext, Option.getD_none]
    exact hslice

/-! ## One call -/

theorem Produces.discards {result : Except LexerError Token}
    (hcall : h.Produces reporter events h' result) (hs : h.stream.Shows cs)
    (hkeep : h.stream.KeepsFrom h.index) (ha : h.recognizer.automaton.NoEmptyMatch) :
    ∃ stretches, Discards reporter.listeners events stretches
      ∧ Tiles h.index (stretches ++ closing h'.state h'.index result) h'.index
      ∧ ∀ s ∈ stretches ++ closing h'.state h'.index result, s.Faithful cs := by
  -- on the candidates: each puts its stretch in front of those of the others
  induction hcall with
  | @sentinel h h' t heof hgive =>
      obtain ⟨heofToken, rfl⟩ := giveEof_eq_ok hgive
      have hclosing : closing (h.give t).state (h.give t).index (.ok t) = [] :=
        if_pos (isEof_of_eofToken heofToken)
      rw [hclosing]
      exact ⟨[], .nil, .nil, by simp⟩
  | @broken h h' events e heof hcandidate =>
      have htried := hcandidate.tried hs hkeep ha
      have hbegan : h'.state.candidate.start? = some h.here := htried.within.began
      have hclosing : closing h'.state h'.index (.error e)
          = [⟨h.index, h'.index, .abandoned e⟩] := by
        rw [closing, hbegan]
        rfl
      rw [hclosing]
      refine ⟨[], htried.discards_nil (by simp), .single htried.within.start_le, fun s hs => ?_⟩
      obtain rfl := List.mem_singleton.mp hs
      trivial
  | completed heof hcandidate hcomplete =>
      have htried := hcandidate.tried hs hkeep ha
      exact ⟨[], htried.discards_nil (by simp), htried.closing_complete hcomplete⟩
  | discarded heof hcandidate hrest ih =>
      have htried := hcandidate.tried hs hkeep ha
      obtain ⟨fate, hdiscards, hfaithful⟩ := htried.discards_skip
      obtain ⟨stretches, hdiscards', htiles, hall⟩ :=
        ih htried.within.shows htried.keeps (htried.automaton ▸ ha)
      refine ⟨_, hdiscards.append hdiscards',
        (Tiles.single (Nat.le_of_lt htried.lt_of_skip)).append htiles, fun s hs => ?_⟩
      rcases List.mem_cons.mp hs with rfl | hs
      · exact hfaithful
      · exact hall s hs

end Head

/-! ## A session -/

/-- The stretches that a command leaves behind. An action leaves none, whether
it fails or not. -/
def Entry.Leaves {ρ : Type} (entry : Entry ρ) (stretches : List Stretch) : Prop :=
  match entry.reply with
  | .token result =>
    ∃ discarded, Discards entry.lexer.listeners entry.events discarded
      ∧ stretches = discarded ++ closing entry.lexer.state entry.lexer.index result
  | _ => Discards entry.lexer.listeners entry.events [] ∧ stretches = []

/-- The parts are what the entries leave behind, one for each. Together they
cover the text `cs` from the index of `lx` to that of the last entry. -/
structure Accounted {ρ : Type} (cs : List Char) (lx : Lexer ρ) (entries : List (Entry ρ))
    (parts : List (List Stretch)) : Prop where
  leaves : List.Forall₂ Entry.Leaves entries parts
  tiles : Tiles lx.index parts.flatten (Entry.last lx entries).index
  faithful : ∀ s ∈ parts.flatten, s.Faithful cs

/-- The command asks for a token, or acts on the state. -/
def Command.Steers {ρ : Type} : Command ρ → Prop
  | .next | .act _ => True
  | _ => False

theorem Command.Steers.goesOn {ρ : Type} {c : Command ρ} (h : c.Steers) : c.GoesOn := by
  cases c with
  | next | act => trivial
  | _ => exact h.elim

namespace Lexer

variable {cs : List Char} {lx : Lexer TableRecognizer} {s : CharStream}

/-- What a call leaves behind lies between the indices before and after it. An
action leaves nothing. -/
theorem Does.leaves {c : Command TableRecognizer} {entry : Entry TableRecognizer}
    {u : CharStream} (hdoes : Does cs lx s c entry u) (hready : lx.Ready cs s)
    (hafter : entry.lexer.Ready cs u) (hsteers : c.Steers) :
    ∃ stretches, entry.Leaves stretches ∧ Tiles lx.index stretches entry.lexer.index
      ∧ ∀ t ∈ stretches, t.Faithful cs := by
  cases hdoes with
  | @next events h u result hcourse hindex =>
      obtain ⟨discarded, hdiscards, htiles, hfaithful⟩ :=
        hcourse.discards hready.shows.mark (lx.keepsFrom_marked s) hready.noEmptyMatch
      have hfrom : (lx.marked s).index = lx.index :=
        (lx.index_marked s).trans hready.index_eq.symm
      have hto : h.index = (lx.after h u result).index := hindex.symm.trans hafter.index_eq.symm
      rw [hfrom, hto] at htiles
      rw [hto] at hfaithful
      exact ⟨_, ⟨discarded, hdiscards, rfl⟩, htiles, hfaithful⟩
  | @act _ _ _ failure hperform =>
      obtain ⟨-, -, -, hquiet, -⟩ := State.perform_frame hperform
      refine ⟨[], ?_, .nil, by simp⟩
      cases failure <;> exact ⟨.of_quiet hquiet, rfl⟩
  | recover | notify => exact hsteers.elim

theorem Ready.trace : ∀ {commands : List (Command TableRecognizer)}
    {lx : Lexer TableRecognizer} {s : CharStream}, lx.Ready cs s →
    (∀ c ∈ commands, c.Steers) →
      ∃ entries parts, Trace lx commands entries ∧ Accounted cs lx entries parts
  | [], _, _, _, _ => ⟨[], [], .nil, .nil, .nil, by simp⟩
  | c :: commands, lx, s, hready, hsteers => by
      have hfirst : c.Steers := hsteers c (List.mem_cons_self ..)
      obtain ⟨entry, u, hperform, hafter, hdoes⟩ := hready.step hfirst.goesOn
      obtain ⟨stretches, hleaves, htiles, hfaithful⟩ := hdoes.leaves hready hafter hfirst
      obtain ⟨entries, parts, htrace, hparts, hrest, hall⟩ :=
        hafter.trace fun c hc => hsteers c (List.mem_cons_of_mem _ hc)
      refine ⟨entry :: entries, stretches :: parts, .cons hperform htrace,
        .cons hleaves hparts, htiles.append hrest, fun t ht => ?_⟩
      rcases List.mem_append.mp ht with ht | ht
      · exact hfaithful t ht
      · exact hall t ht

end Lexer

end ModalLexer
