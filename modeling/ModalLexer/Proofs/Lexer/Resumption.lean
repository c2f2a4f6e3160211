import ModalLexer.Proofs.Automaton.Rest
import ModalLexer.Proofs.Lexer.Sentinel
import ModalLexer.Sample

/-!
# Taking up a text in the middle

Between two calls a lexer over a text is no more than its index, its caret, its
mode and the modes below. A new lexer that is given the rest of the text, and
is brought to this caret and these modes, goes on as the first one does: call
by call it gives the same tokens and errors and reports the same, only that it
counts from the place where it began (`Lexer.resumes_between_calls`).

The one thing that it cannot know is the last token before that place. So until
it has given out a token of its own, a sentinel may stand in another column.
-/

namespace ModalLexer

open Run (Follows)

/-! ## Tokens -/

/-- The tokens are the same, the first of them `n` characters farther on. So is
the column of a sentinel if `known` holds. -/
structure Token.Resumed (n : Nat) (known : Prop) (t u : Token) : Prop where
  same_but_column : t = { u.shifted n with column := t.column }
  column : known ∨ u.isEof = false → t.column = u.column

/-- The same error, or the same token but for how far on it is. -/
inductive SameResult (n : Nat) (known : Prop) :
    Except LexerError Token → Except LexerError Token → Prop
  | error (e : LexerError) : SameResult n known (.error e) (.error e)
  | token {t u : Token} (h : t.Resumed n known u) : SameResult n known (.ok t) (.ok u)

/-- A token was returned that is not a sentinel. -/
def ReturnsText (result : Except LexerError Token) : Prop := ∃ t, result = .ok t ∧ t.isEof = false

/-- If it is known at all, the last token is the same, the first `n` characters
farther on. -/
def LastShifted (n : Nat) (known : Prop) (t? u? : Option Token) : Prop :=
  known → ∃ u, t? = some (u.shifted n) ∧ u? = some u ∧ (u.start : Int) ≤ u.stop + 1

theorem Token.Resumed.eq_shifted {n : Nat} {known : Prop} {t u : Token} (h : t.Resumed n known u)
    (hknown : known ∨ u.isEof = false) : t = u.shifted n := by
  rw [h.same_but_column, h.column hknown]
  rfl

theorem SameResult.imp {n : Nat} {known known' : Prop} {result result' : Except LexerError Token}
    (h : SameResult n known result result') (himp : known' → known) :
    SameResult n known' result result' := by
  cases h with
  | error e => exact .error e
  | token h => exact .token ⟨h.same_but_column, fun hknown => h.column (hknown.imp_left himp)⟩

/-- If the length of a token can be told, it is that of what it covers. -/
theorem Token.eq_of_length_eq_ok {t : Token} {m : Nat} (hle : (t.start : Int) ≤ t.stop + 1)
    (h : t.length = .ok m) : (m : Int) = t.stop + 1 - t.start := by
  obtain ⟨next, hnext, hrest⟩ := Checked.bind_eq_ok.mp h
  obtain ⟨covered, hcovered, hm⟩ := Checked.bind_eq_ok.mp hrest
  unfold Checked.addSigned at hnext
  unfold Checked.subSigned at hcovered
  by_cases hin : Checked.InSigned (t.stop + 1)
  · rw [if_pos hin] at hnext
    obtain rfl := Except.ok.inj hnext
    have hstart : t.start < Checked.signedLimit := by
      have hlt := hin.2
      omega
    rw [Checked.toSigned_of_lt hstart] at hcovered
    split at hcovered
    · obtain rfl := Except.ok.inj hcovered
      have hm' : (t.stop + 1 - t.start).toNat = m := Except.ok.inj hm
      omega
    · cases hcovered
  · rw [if_neg hin] at hnext
    cases hnext

/-! ## One call -/

namespace Head

variable {n : Nat} {known : Prop} {h k : Head TableRecognizer} {source : Source}

/-- What is given out in the end is the same, and so is the lexer. -/
def Gives (n : Nat) (known : Prop) (a b : Head TableRecognizer × Token) : Prop :=
  a.2.Resumed n known b.2 ∧ a.1.Level n (LastShifted n (known ∨ b.2.isEof = false)) b.1

theorem Level.give {last : Option Token → Option Token → Prop} {t u : Token}
    (hk : h.Level n last k) (ht : t.Resumed n known u) (hle : (u.start : Int) ≤ u.stop + 1) :
    Gives n known (h.give t, t) (k.give u, u) := by
  obtain ⟨hmode, hstack, heof, -⟩ := hk.state
  refine ⟨ht, hk.stream, hk.recognizer, hmode, hstack, heof, fun hknown => ?_⟩
  exact ⟨u, congrArg some (ht.eq_shifted hknown), rfl, hle⟩

/-- The sentinel stands at the same place, and behind the same token if that is
known. -/
theorem Level.giveEof (hk : h.Level n (LastShifted n known) k) {a b : Head TableRecognizer × Token}
    (ha : h.giveEof source = .ok a) (hb : k.giveEof source = .ok b) : Gives n known a b := by
  obtain ⟨h', t⟩ := a
  obtain ⟨k', u⟩ := b
  obtain ⟨ht, rfl⟩ := giveEof_eq_ok ha
  obtain ⟨hu, rfl⟩ := giveEof_eq_ok hb
  obtain ⟨hform, hcolumn⟩ := eofToken_eq_ok ht
  obtain ⟨hform', hcolumn'⟩ := eofToken_eq_ok hu
  have hcaret : h.caret = k.caret := hk.recognizer.caret
  have heof : u.isEof = true := isEof_of_eofToken hu
  have hresumed : t.Resumed n known u := by
    constructor
    · rw [hform, hform', hk.index, hcaret]
      simp only [sentinelAt, Token.shifted, Token.mk.injEq, true_and, and_true]
      push_cast
      omega
    · intro hknown
      -- both columns are that of the last token and its length
      obtain ⟨v, hlast, hlast', hle⟩ :=
        hk.state.lastToken? (hknown.resolve_right (by simp [heof]))
      rw [hlast] at hcolumn
      rw [hlast'] at hcolumn'
      obtain ⟨m, hlength, hm⟩ := hcolumn
      obtain ⟨m', hlength', hm'⟩ := hcolumn'
      have hcovered := Token.eq_of_length_eq_ok hle hlength'
      have hcovered' := Token.eq_of_length_eq_ok (t := v.shifted n)
        (by simp only [Token.shifted]; push_cast; omega) hlength
      simp only [Token.shifted] at hm hcovered'
      push_cast at hcovered'
      omega
  refine hk.give hresumed ?_
  rw [hform']
  simp only [sentinelAt]
  omega

/-- A candidate becomes the same token, unless an action has given another. -/
theorem Along.complete (hk : h.Along n (LastShifted n known) k) (htoken : k.state.token? = none)
    {start : Start} (hle : start.index ≤ k.index) {type : TokenId}
    {a b : Head TableRecognizer × Token}
    (ha : h.complete source (start.shifted n) type = .ok a)
    (hb : k.complete source start type = .ok b) : Gives n known a b := by
  have htoken' : h.state.token? = none := hk.state.token?.trans htoken
  unfold Head.complete at ha hb
  rw [htoken'] at ha
  rw [htoken] at hb
  by_cases heof : type = eofType
  · simp only [if_pos heof] at ha hb
    exact hk.level.giveEof ha hb
  · simp only [if_neg heof] at ha hb
    obtain rfl := Except.ok.inj ha
    obtain rfl := Except.ok.inj hb
    refine hk.level.give ⟨?_, fun _ => rfl⟩ ?_
    · simp only [tokenAt, hk.state.candidate, hk.index, Candidate.shifted, Start.shifted,
        Token.shifted, hk.stream.slice, Token.mk.injEq, true_and, and_true]
      push_cast
      omega
    · simp only [tokenAt]
      omega

/-- What a candidate of tables leaves alone: nothing is emitted, and it does not
go back. -/
theorem assemble_table {p : Reporter} {limit : Nat} {events : List Event}
    {b : Head TableRecognizer × Except LexerError TokenType}
    (hrun : k.begun.assemble p limit = { events, outcome := .ok b }) :
    (∀ type, b.2 = .ok type → b.1.state.token? = none) ∧ k.index ≤ b.1.index := by
  have hcandidate := assembles_of_assemble hrun
  have hmoves := hcandidate.moves CharStream.Advances.motion TableRecognizer.advances
  exact ⟨hcandidate.automaton_token?.2, hmoves.index_le⟩

/-- A call, candidate by candidate. Only what it returns in the end counts as a
last token. -/
theorem Level.produce {p : Reporter} {m : Nat} : ∀ {limit : Nat} {h k : Head TableRecognizer},
    h.Level n (LastShifted n known) k →
      Follows n (fun a b => SameResult n known a.2 b.2
          ∧ a.1.Level n (LastShifted n (known ∨ ReturnsText b.2)) b.1)
        (h.produce p m limit) (k.produce p m limit)
  | 0, _, _, _ => .fail
  | limit + 1, h, k, hk => by
      have hgives : ∀ a b, Gives n known a b → SameResult n known (.ok a.2) (.ok b.2)
          ∧ a.1.Level n (LastShifted n (known ∨ ReturnsText (.ok b.2))) b.1 := by
        rintro a b ⟨hresumed, hstream, hrecognizer, hmode, hstack, heof, hlast⟩
        refine ⟨.token hresumed, hstream, hrecognizer, hmode, hstack, heof, fun hknown => ?_⟩
        refine hlast (hknown.imp_right ?_)
        rintro ⟨t, ht, htext⟩
        obtain rfl := Except.ok.inj ht
        exact htext
      unfold Head.produce
      rw [hk.state.eofSeen]
      by_cases hseen : k.state.eofSeen = true
      · rw [if_pos hseen, if_pos hseen]
        refine Follows.bind (.ofExcept fun a b => hk.giveEof) ?_
        rintro ⟨h₁, t⟩ ⟨k₁, u⟩ hgiven
        exact .pure (hgives _ _ hgiven)
      · rw [if_neg hseen, if_neg hseen]
        refine (hk.begun.assemble.and_right fun _ _ => assemble_table).bind ?_
        rintro ⟨h₁, decision⟩ ⟨k₁, decision'⟩ ⟨⟨hk₁, hdecision⟩, htoken, hle⟩
        obtain rfl : decision = decision' := hdecision
        rcases decision with e | matched
        · refine .pure ⟨.error e, hk₁.stream, hk₁.recognizer, hk₁.state.mode, hk₁.state.modeStack,
            hk₁.state.eofSeen, fun hknown => hk₁.state.lastToken? (hknown.resolve_right ?_)⟩
          rintro ⟨t, ht, -⟩
          cases ht
        cases matched with
        | type type =>
            simp only [hk.here]
            refine Follows.bind (.ofExcept fun a b => Along.complete hk₁ (htoken _ rfl) hle) ?_
            rintro ⟨h₂, t⟩ ⟨k₂, u⟩ hgiven
            exact .pure (hgives _ _ hgiven)
        | skip => exact produce hk₁.level
        | more => exact produce hk₁.level

end Head

/-! ## Two lexers -/

namespace Lexer

variable {n : Nat} {known : Prop} {x y : Lexer TableRecognizer}

/-- The second lexer stands in the rest of the text where the first stands in
the text, and they report to the same listeners. -/
def Level (n : Nat) (known : Prop) (x y : Lexer TableRecognizer) : Prop :=
  ∃ s t, x.stream? = some s ∧ y.stream? = some t
    ∧ (x.head s).Level n (LastShifted n known) (y.head t) ∧ x.reporter = y.reporter

theorem Level.nextToken (h : x.Level n known y) :
    Run.Follows n (fun a b => SameResult n known a.2 b.2
        ∧ a.1.Level n (known ∨ ReturnsText b.2) b.1) x.nextToken y.nextToken := by
  obtain ⟨s, t, hx, hy, hlevel, hreporter⟩ := h
  have hlimit : s.stepLimit = t.stepLimit := hlevel.stream.stepLimit
  obtain ⟨hs, ht⟩ : s.mark = (⟨0⟩, s) ∧ t.mark = (⟨0⟩, t) := hlevel.stream.mark_eq
  simp only [Lexer.nextToken, hx, hy, hs, ht, hreporter, hlimit]
  refine hlevel.produce.bind ?_
  rintro ⟨h, result⟩ ⟨k, result'⟩ ⟨hresult, hstream, hrecognizer, hstate⟩
  simp only [(hstream.release_eq ⟨0⟩).1, (hstream.release_eq ⟨0⟩).2, pure_bind]
  have hremembered : ∀ (lx : Lexer TableRecognizer) (h : Head TableRecognizer)
      (result : Except LexerError Token),
      (lx.withHead h).remember result = (lx.after h h.stream result, result) :=
    fun lx h result => remember_withHead h h.stream
  rw [hremembered, hremembered]
  exact .pure ⟨hresult, h.stream, k.stream, rfl, rfl, ⟨hstream, hrecognizer, hstate⟩, hreporter⟩

end Lexer

/-! ## Sessions -/

/-- Two calls that let the same be seen and return the same, but for how far on
that is. -/
structure Entry.Resumed {ρ : Type} (n : Nat) (known : Prop) (x y : Entry ρ) : Prop where
  events : x.events = y.events.map (Event.shifted n)
  reply : ∃ result result', x.reply = .token result ∧ y.reply = .token result'
    ∧ SameResult n known result result'

/-- Among the tokens returned there is one that is not a sentinel. -/
def AnyText {ρ : Type} (entries : List (Entry ρ)) : Prop := ∃ t ∈ returned entries, t.isEof = false

theorem anyText_cons {ρ : Type} {entry : Entry ρ} {entries : List (Entry ρ)}
    {result : Except LexerError Token} (hreply : entry.reply = .token result) :
    AnyText (entry :: entries) ↔ ReturnsText result ∨ AnyText entries := by
  unfold AnyText ReturnsText
  rw [returned_cons, Entry.token?, hreply]
  cases result <;> simp

namespace Lexer

/-- Call by call, the two lexers return the same. What is known of the last
tokens grows with every call that returns one. -/
theorem Level.trace {n : Nat} : ∀ {k : Nat} {known : Prop} {x y : Lexer TableRecognizer}
    {xs ys : List (Entry TableRecognizer)}, x.Level n known y →
      Trace x (List.replicate k .next) xs → Trace y (List.replicate k .next) ys →
        ∀ (j : Nat) (e f : Entry TableRecognizer), xs[j]? = some e → ys[j]? = some f →
          e.Resumed n (known ∨ AnyText (ys.take j)) f
  | 0, _, _, _, _, _, _, hx, _ => by
      cases hx
      intro j e f he
      cases he
  | k + 1, known, x, y, _, _, h, hx, hy => by
      rw [List.replicate_succ] at hx hy
      cases hx with
      | @cons _ _ _ entry xs hstep hrest =>
      cases hy with
      | @cons _ _ _ entry' ys hstep' hrest' =>
      obtain ⟨result, hcall, hreply⟩ := Command.perform_next_eq_ok.mp hstep
      obtain ⟨result', hcall', hreply'⟩ := Command.perform_next_eq_ok.mp hstep'
      obtain ⟨hevents, hresult, hlevel⟩ := h.nextToken _ _ _ _ hcall
        (congrArg (Run.shifted n) hcall')
      simp only at hresult hlevel
      intro j e f he hf
      cases j with
      | zero =>
          obtain rfl := Option.some.inj he
          obtain rfl := Option.some.inj hf
          refine ⟨hevents, result, result', hreply, hreply', hresult.imp ?_⟩
          rintro (hknown | ⟨t, ht, -⟩)
          · exact hknown
          · cases ht
      | succ j =>
          have hresumed := hlevel.trace hrest hrest' j e f he hf
          rwa [or_assoc, ← anyText_cons hreply', ← List.take_succ_cons] at hresumed

end Lexer

/-! ## The setters -/

/-- The actions that lead from the default mode into a mode with others below. -/
def Action.entering (mode : ModeId) : List ModeId → List Action
  | [] => [.setMode mode]
  | below :: rest => entering below rest ++ [.pushMode mode]

/-- The setters that bring a new lexer to the modes and the position of this one. -/
def Lexer.restoring {ρ : Type} [Recognizer ρ] (lx : Lexer ρ) : List (Command ρ) :=
  (Action.entering lx.state.mode lx.state.modeStack).map .act
    ++ [.setLine lx.caret.line, .setColumn lx.caret.column]

/-- The session comes through and leads from the one lexer to the other. -/
def Command.Leads {ρ : Type} [Recognizer ρ] (commands : List (Command ρ)) (lx lx' : Lexer ρ) :
    Prop :=
  ∃ events replies, performAll commands lx = { events, outcome := .ok (lx', replies) }

theorem Command.Leads.append {ρ : Type} [Recognizer ρ] {commands rest : List (Command ρ)}
    {x y z : Lexer ρ} (hxy : Leads commands x y) (hyz : Leads rest y z) :
    Leads (commands ++ rest) x z := by
  obtain ⟨before, first, hxy⟩ := hxy
  obtain ⟨after, second, hyz⟩ := hyz
  refine ⟨before ++ after, first ++ second, ?_⟩
  rw [performAll_append]
  refine Run.bind_eq_ok.mpr ⟨before, (y, first), after, hxy, ?_, rfl⟩
  exact Run.map_eq_ok.mpr ⟨(z, second), hyz, rfl⟩

/-- If the session comes through with more commands, these have a record. -/
theorem Command.Leads.exists_trace {ρ : Type} [Recognizer ρ] {commands : List (Command ρ)}
    {x y : Lexer ρ} (hxy : Leads commands x y) (rest : List (Command ρ))
    (hsome : (performAll (commands ++ rest) x).outcome.toOption.isSome = true) :
    ∃ entries, Trace y rest entries := by
  obtain ⟨events, replies, hxy⟩ := hxy
  refine exists_trace_of_isSome ?_
  rw [performAll_append, hxy, Run.bind_of_ok rfl, Run.outcome_map] at hsome
  cases hrest : (performAll rest y).outcome with
  | error fault =>
      rw [hrest] at hsome
      cases hsome
  | ok last => rfl

theorem Action.leads_entering {ρ : Type} [Recognizer ρ] {lx : Lexer ρ}
    (hstack : lx.state.modeStack = []) : ∀ (mode : ModeId) (modeStack : List ModeId),
      Command.Leads ((entering mode modeStack).map .act) lx
        { lx with state := { lx.state with mode, modeStack } }
  | mode, [] => by
      have hset : lx.state.setMode mode = { lx.state with mode, modeStack := [] } := by
        rw [← hstack]
        rfl
      rw [← hset]
      exact ⟨_, _, rfl⟩
  | mode, below :: rest => by
      rw [entering, List.map_append]
      exact (leads_entering hstack below rest).append ⟨_, _, rfl⟩

namespace Lexer

/-- The lexer that the setters make of a new one: a stream, a position and
modes. -/
def broughtTo (lx : Lexer TableRecognizer) (s : CharStream) (mid : Lexer TableRecognizer) :
    Lexer TableRecognizer :=
  { lx.attach s with
    state := { mode := mid.state.mode, modeStack := mid.state.modeStack }
    recognizer := Recognizer.setCaret (lx.attach s).recognizer mid.caret }

theorem leads_restoring (lx mid : Lexer TableRecognizer) (s : CharStream) :
    Command.Leads mid.restoring (lx.attach s) (lx.broughtTo s mid) := by
  have hempty : (lx.attach s).state.modeStack = [] := rfl
  exact (Action.leads_entering hempty _ _).append ⟨_, _, rfl⟩

/-! ## Between two calls -/

variable {cs : List Char} {lx x x' : Lexer TableRecognizer} {s : TextStream} {events : List Event}

/-- The lexer reads the text that it had as `lx`, and has seen the end of it at
most where it is. -/
structure Reads (cs : List Char) (x lx : Lexer TableRecognizer) (s : TextStream) : Prop where
  stream? : x.stream? = some (.text s)
  chars : s.chars.toList = cs
  endKnown : (x.head (.text s)).EndKnown cs
  automaton : x.recognizer.automaton = lx.recognizer.automaton
  tab : x.recognizer.tab = lx.recognizer.tab
  reporter : x.reporter = lx.reporter

theorem keepsTables (r₀ : TableRecognizer) : Recognizer.Invariant TableRecognizer
    fun r _ => r.automaton = r₀.automaton ∧ r.tab = r₀.tab where
  peek := id
  scan hr hscan := by
    cases TableRecognizer.scan_eq_ok.mp hscan <;> exact hr
  consume hr hconsume := by
    rcases TableRecognizer.consume_eq_ok hconsume with ⟨-, rfl, -⟩ | ⟨_, _, -, -, rfl, -⟩ <;>
      exact hr

theorem Reads.nextToken (h : x.Reads cs lx s) {result : Except LexerError Token}
    (hcall : x.nextToken = { events, outcome := .ok (x', result) }) :
    ∃ s', x'.Reads cs lx s' := by
  obtain ⟨h', u, hcourse, hreleased, rfl⟩ :=
    produces_of_nextToken TableRecognizer.advances h.stream? hcall
  have hshows : (CharStream.text s).mark.2.Shows cs := h.chars
  have hmoves := hcourse.moves CharStream.Advances.motion TableRecognizer.advances
  obtain ⟨hautomaton, htab⟩ := hcourse.keeps (keepsTables lx.recognizer) ⟨h.automaton, h.tab⟩
  have hend := hcourse.endKnown TableRecognizer.advances hshows h.endKnown
  have hchars : u.Shows cs := hreleased.shows (hmoves.shows hshows)
  have hindex := hreleased.index
  have houtstanding := hreleased.outstanding
  cases u with
  | reader r => cases houtstanding
  | text s' =>
      exact ⟨s', rfl, hchars, fun hseen => hindex.trans (hend hseen), hautomaton, htab, h.reporter⟩

theorem Reads.nextTokens : ∀ {k : Nat} {x x' : Lexer TableRecognizer} {s : TextStream}
    {events : List Event} {results : List (Except LexerError Token)}, x.Reads cs lx s →
      x.nextTokens k = { events, outcome := .ok (x', results) } → ∃ s', x'.Reads cs lx s'
  | 0, _, _, s, _, _, h, hcalls => by
      obtain ⟨rfl, -, -⟩ := Run.pure_pair_eq_ok.mp hcalls
      exact ⟨s, h⟩
  | k + 1, _, _, _, _, _, h, hcalls => by
      obtain ⟨before, ⟨y, result⟩, after, hcall, hmap, -⟩ := Run.bind_eq_ok.mp hcalls
      obtain ⟨⟨z, rest⟩, hrest, heq⟩ := Run.map_eq_ok.mp hmap
      obtain ⟨rfl, -⟩ := Prod.mk.inj heq
      obtain ⟨s', hreads⟩ := h.nextToken hcall
      exact hreads.nextTokens hrest

/-- A lexer that has characters left, and a new one with these characters that
has been brought to the same modes and the same position. -/
theorem Reads.level {text name : String} (h : x.Reads cs (lx.attach (.ofString text name)) s)
    (hleft : x.index < cs.length) :
    x.Level x.index False
      (lx.broughtTo (.ofString (String.ofList (cs.drop x.index)) name) x) := by
  have hindex : x.index = s.position := by rw [Lexer.index, h.stream?]; rfl
  have hunseen : x.state.eofSeen = false := by
    rw [Bool.eq_false_iff]
    intro hseen
    have hend : s.position = cs.length := h.endKnown hseen
    omega
  refine ⟨_, _, h.stream?, rfl, ⟨.text ?_ ?_, ⟨h.automaton, h.tab, rfl⟩, ?_⟩, h.reporter⟩
  · rw [h.chars]
    simp only [TextStream.ofString, String.toList_ofList]
  -- the new lexer begins at index zero
  · rw [hindex]
    exact (Nat.zero_add _).symm
  · exact ⟨rfl, rfl, hunseen, False.elim⟩

/-- Wherever a lexer stands in its text after some calls, as long as there are
characters left, a new lexer with these characters goes on in its place. The
setters bring it to the modes and to the position. From then on, calls that
come to an end let the same be seen and return the same, counted from there,
except for the column of a sentinel before any other token. -/
theorem resumes_between_calls (lx mid : Lexer TableRecognizer) (text name : String) (k : Nat)
    (events : List Event) (results : List (Except LexerError Token))
    (hcalls : (lx.attach (.ofString text name)).nextTokens k
      = { events, outcome := .ok (mid, results) })
    (hleft : mid.index < text.length) :
    ∃ fresh, Command.Leads mid.restoring
        (lx.attach (.ofString (String.ofList (text.toList.drop mid.index)) name)) fresh
      ∧ fresh.state.mode = mid.state.mode ∧ fresh.state.modeStack = mid.state.modeStack
      ∧ fresh.caret = mid.caret
      ∧ ∀ (n : Nat) (xs ys : List (Entry TableRecognizer)),
          Trace mid (List.replicate n .next) xs → Trace fresh (List.replicate n .next) ys →
            ∀ (j : Nat) (e f : Entry TableRecognizer), xs[j]? = some e → ys[j]? = some f →
              e.Resumed mid.index (AnyText (ys.take j)) f := by
  have hstart : (lx.attach (.ofString text name)).Reads text.toList
      (lx.attach (.ofString text name)) (.ofString text name) :=
    ⟨rfl, rfl, nofun, rfl, rfl, rfl⟩
  obtain ⟨s, hreads⟩ := hstart.nextTokens hcalls
  rw [← String.length_toList] at hleft
  have hlevel := hreads.level hleft
  refine ⟨_, leads_restoring lx mid _, rfl, rfl, rfl, ?_⟩
  intro n xs ys hx hy j e f he hf
  have hresumed := hlevel.trace hx hy j e f he hf
  rwa [false_or] at hresumed

theorem resumes_between_calls_alternating :
    let lx : Lexer TableRecognizer := { recognizer := { automaton := Sample.alternating } }
    let nexts : List (Command TableRecognizer) := List.replicate 3 .next
    ∃ events mid results fresh xs ys,
      (lx.attach (.ofString "a;; b")).nextTokens 2 = { events, outcome := .ok (mid, results) }
        ∧ mid.index = 2 ∧ fresh.state.mode = 1 ∧ fresh.caret = { column := 3 }
        ∧ Command.Leads mid.restoring (lx.attach (.ofString "; b")) fresh
        ∧ Trace mid nexts xs ∧ Trace fresh nexts ys
        ∧ ∀ (j : Nat) (e f : Entry TableRecognizer), xs[j]? = some e → ys[j]? = some f →
            e.Resumed 2 (AnyText (ys.take j)) f := by
  intro lx nexts
  have hrun : ((lx.attach (.ofString "a;; b")).nextTokens 2).outcome.toOption.map
      (fun (mid, _) => (mid.index, mid.state.mode, mid.state.modeStack, mid.caret))
        = some (2, 1, [], { column := 3 }) := by decide +kernel
  obtain ⟨events, ⟨mid, results⟩, hcalls, hmid⟩ := Run.exists_eq_ok hrun
  obtain ⟨hindex, hmode, hstack, hcaret⟩ := by simpa only [Prod.mk.injEq] using hmid
  obtain ⟨fresh, hleads, hmode', -, hcaret', hresumed⟩ :=
    resumes_between_calls lx mid "a;; b" unknownSourceName 2 events results hcalls
      (by rw [hindex]; decide)
  have hsetters : mid.restoring = [.act (.setMode 1), .setLine 1, .setColumn 3] := by
    simp only [restoring, hmode, hstack, hcaret, Action.entering]
    rfl
  have hrest : String.ofList ("a;; b".toList.drop mid.index) = "; b" := by rw [hindex]; decide
  rw [hrest] at hleads
  have hfirst : Command.Leads [.nextMany 2] (lx.attach (.ofString "a;; b")) mid :=
    ⟨events, [.results results], performAll_eq_ok.mpr ⟨[⟨events, .results results, mid⟩],
      .cons (Run.bind_pure_of_eq_ok hcalls _) .nil, rfl, (List.append_nil _).symm, rfl⟩⟩
  obtain ⟨xs, hxs⟩ := hfirst.exists_trace nexts (by decide +kernel)
  obtain ⟨ys, hys⟩ := hleads.exists_trace nexts (by rw [hsetters]; decide +kernel)
  rw [hindex] at hresumed
  exact ⟨events, mid, results, fresh, xs, ys, hcalls, hindex, hmode'.trans hmode,
    hcaret'.trans hcaret, hleads, hxs, hys, hresumed 3 xs ys hxs hys⟩

end Lexer

end ModalLexer
