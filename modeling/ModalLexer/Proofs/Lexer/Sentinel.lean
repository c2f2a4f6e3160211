import ModalLexer.Proofs.Lexer.Steps

/-!
# The sentinel

The sentinel is not found in the text, it is made up at its end. Wherever a
call comes to give it out, the end of the text has been reached and is known
to have been, and from then on every call gives out the same one without doing
anything else: it covers nothing, so the column behind it is its own.
-/

namespace ModalLexer

namespace Head

variable {ρ : Type} {h h' : Head ρ} {cs : List Char} {reporter : Reporter} {events : List Event}

/-! ## The end is known where it is -/

/-- If the end of the text is said to have been seen, this is where it is. -/
def EndKnown (cs : List Char) (h : Head ρ) : Prop :=
  h.state.eofSeen = true → h.index = cs.length

/-- Farther on in the text the end is still known, if nothing was seen
meanwhile. -/
theorem EndKnown.of_advances (hend : h.EndKnown cs) (hs : h.stream.Shows cs)
    (hadv : h.stream.Advances h'.stream) (hseen : h'.state.eofSeen = h.state.eofSeen) :
    h'.EndKnown cs := by
  intro htrue
  have hstart := hend (hseen ▸ htrue)
  have hle := hadv.index_le
  have hlen := (hadv.shows hs).index_le
  simp only [Head.index] at hstart ⊢
  omega

variable [Recognizer ρ]

theorem Turn.endKnown (hρ : Recognizer.MovesBy ρ CharStream.Advances) (hs : h.stream.Shows cs)
    (hend : h.EndKnown cs) {decision : Except LexerError TokenType}
    (hturn : h.Turn reporter events h' decision) : h'.EndKnown cs := by
  have hmoves := hturn.moves CharStream.Advances.motion hρ
  cases hturn with
  | stopped hmatch =>
      obtain ⟨_, _, _, _, _, -, hperform, rfl, -, -⟩ := matchToken_eq_ok.mp hmatch
      exact hend.of_advances hs hmoves (State.perform_frame hperform).1
  | @decided _ _ h₁ h₂ _ _ _ _ hmatch hsettle hfinal =>
      have hadv := (matchToken_moves (h := h.undecided) CharStream.Advances.motion hρ hmatch).trans
        (settle_moves CharStream.Advances.motion hρ hsettle)
      have hs₂ : h₂.stream.Shows cs := hadv.shows hs
      have hseen : h₂.state.eofSeen = h.state.eofSeen := by
        obtain ⟨_, _, _, _, _, -, hperform, rfl, -, -⟩ := matchToken_eq_ok.mp hmatch
        rw [(settle_state hsettle).1]
        exact (State.perform_frame hperform).1
      have hend₂ : h₂.EndKnown cs := hend.of_advances hs hadv hseen
      obtain ⟨-, rfl⟩ := Prod.mk.inj hfinal
      rw [noteEof_eq]
      intro htrue
      have hindex : h₂.stream.peek.2.index = h₂.stream.index := h₂.stream.index_peek
      simp only [State.setType, Bool.or_eq_true, Option.isNone_iff_eq_none] at htrue
      simp only [Head.index, hindex]
      rcases htrue with htrue | hnone
      · exact hend₂ htrue
      · have hge := List.getElem?_eq_none_iff.mp (hs₂.peek_fst.symm.trans hnone)
        exact Nat.le_antisymm hs₂.index_le hge

theorem Assembles.endKnown (hρ : Recognizer.MovesBy ρ CharStream.Advances)
    {decision : Except LexerError TokenType}
    (hcandidate : h.Assembles reporter events h' decision) (hs : h.stream.Shows cs)
    (hend : h.EndKnown cs) : h'.EndKnown cs := by
  induction hcandidate with
  | last hturn => exact hturn.endKnown hρ hs hend
  | more hturn _ ih =>
      exact ih ((hturn.moves CharStream.Advances.motion hρ).shows hs) (hturn.endKnown hρ hs hend)

theorem Produces.endKnown (hρ : Recognizer.MovesBy ρ CharStream.Advances)
    {result : Except LexerError Token} (hcall : h.Produces reporter events h' result)
    (hs : h.stream.Shows cs) (hend : h.EndKnown cs) : h'.EndKnown cs := by
  induction hcall with
  | sentinel _ hgive =>
      obtain ⟨-, rfl⟩ := giveEof_eq_ok hgive
      exact hend
  | broken _ hcandidate => exact hcandidate.endKnown (h := begun _) hρ hs hend
  | completed _ hcandidate hcomplete =>
      have hknown := hcandidate.endKnown (h := begun _) hρ hs hend
      obtain ⟨rfl, -⟩ := complete_eq_ok hcomplete
      exact hknown
  | discarded _ hcandidate _ ih =>
      exact ih ((hcandidate.moves CharStream.Advances.motion hρ).shows hs)
        (hcandidate.endKnown (h := begun _) hρ hs hend)

end Head

/-! ## How the sentinel is made -/

/-- The sentinel at an index, on a line and in a column. -/
def sentinelAt (index line column : Nat) (source : Source) : Token where
  type := eofType
  text := ""
  start := index
  stop := (index : Int) - 1
  line
  column
  source

theorem length_sentinelAt {index : Nat} (hlt : index < Checked.signedLimit) (line column : Nat)
    (source : Source) : (sentinelAt index line column source).length = .ok 0 := by
  rw [Token.length_eq_ok (t := sentinelAt index line column source) rfl (Nat.le_refl _) hlt]
  exact congrArg _ (Nat.sub_self _)

/-- The column lies behind the last token, or if there is none, at the caret. -/
def ColumnBehind (last? : Option Token) (caret : Caret) (column : Nat) : Prop :=
  match last? with
  | none => column = caret.column
  | some t => ∃ n, t.length = .ok n ∧ column = t.column + n

namespace Head

variable {h h' : Head TableRecognizer} {cs : List Char} {reporter : Reporter}
  {events : List Event}

theorem columnBehind_of_eofColumn {column : Nat} (hcolumn : h.eofColumn = .ok column) :
    ColumnBehind h.state.lastToken? h.caret column := by
  unfold eofColumn at hcolumn
  unfold ColumnBehind
  cases hlast : h.state.lastToken? with
  | none =>
      rw [hlast] at hcolumn
      exact (Except.ok.inj hcolumn).symm
  | some t =>
      rw [hlast] at hcolumn
      obtain ⟨n, hlength, hadd⟩ := Checked.bind_eq_ok.mp hcolumn
      exact ⟨n, hlength, Checked.eq_of_add_eq_ok hadd⟩

theorem eofToken_eq_ok {source : Source} {t : Token} (heof : h.eofToken source = .ok t) :
    t = sentinelAt h.index h.caret.line t.column source
      ∧ ColumnBehind h.state.lastToken? h.caret t.column := by
  obtain ⟨column, hcolumn, heq⟩ := Checked.bind_eq_ok.mp heof
  obtain rfl := Except.ok.inj heq
  exact ⟨rfl, columnBehind_of_eofColumn hcolumn⟩

/-! ## One call -/

/-- A token that is returned is the last one from then on, and without one the
last one stays what it was. -/
theorem Produces.lastToken? {result : Except LexerError Token}
    (hcall : h.Produces reporter events h' result) (hs : h.stream.Shows cs)
    (hkeep : h.stream.KeepsFrom h.index) (ha : h.recognizer.automaton.NoEmptyMatch) :
    h'.state.lastToken? = result.toOption.or h.state.lastToken? := by
  induction hcall with
  | sentinel _ hgive =>
      obtain ⟨-, rfl⟩ := giveEof_eq_ok hgive
      rfl
  | broken _ hcandidate => exact (hcandidate.tried hs hkeep ha).lastToken?
  | completed _ _ hcomplete =>
      obtain ⟨rfl, -⟩ := complete_eq_ok hcomplete
      rfl
  | discarded _ hcandidate _ ih =>
      have htried := hcandidate.tried hs hkeep ha
      rw [ih htried.within.shows htried.keeps (htried.automaton ▸ ha), htried.lastToken?]

/-- A candidate that is completed as the sentinel has covered nothing. -/
theorem Tried.atEnd (htried : h.Tried cs reporter h' events (.ok (.type eofType))) :
    h'.index = cs.length ∧ h'.state.eofSeen = true := by
  obtain ⟨before, last, h₁, -, hcandidate⟩ := htried.turns
  have hindex : h'.index = cs.length := by
    cases hcandidate.turn with
    | accepted _ _ htype => exact absurd rfl htype
    | atEnd _ hindex _ hend => exact hindex.trans hend
  refine ⟨hindex, ?_⟩
  rw [(htried.decided _ rfl).eofSeen, hindex]
  simp

/-- The sentinel is given out at the end of the text only, behind the last
token that was returned. -/
theorem Produces.sentinel_of_eof {result : Except LexerError Token}
    (hcall : h.Produces reporter events h' result) (hs : h.stream.Shows cs)
    (hkeep : h.stream.KeepsFrom h.index) (ha : h.recognizer.automaton.NoEmptyMatch)
    (hend : h.EndKnown cs) {t : Token} (hresult : result = .ok t) (heof : t.isEof = true) :
    h'.index = cs.length ∧ h'.state.eofSeen = true
      ∧ t = sentinelAt h'.index h'.caret.line t.column reporter.source
      ∧ ColumnBehind h.state.lastToken? h'.caret t.column := by
  induction hcall with
  | sentinel hseen hgive =>
      obtain ⟨htoken, rfl⟩ := giveEof_eq_ok hgive
      obtain rfl := Except.ok.inj hresult
      exact ⟨hend hseen, hseen, eofToken_eq_ok htoken⟩
  | broken => cases hresult
  | completed _ hcandidate hcomplete =>
      have htried := hcandidate.tried hs hkeep ha
      obtain rfl := Except.ok.inj hresult
      obtain ⟨rfl, hemitted | ⟨-, rfl, htoken⟩ | ⟨-, hne, rfl⟩⟩ := complete_eq_ok hcomplete
      · cases (htried.decided _ rfl).token?.symm.trans hemitted
      · obtain ⟨hindex, hseen⟩ := htried.atEnd
        obtain ⟨hform, hcolumn⟩ := eofToken_eq_ok htoken
        rw [htried.lastToken?] at hcolumn
        exact ⟨hindex, hseen, hform, hcolumn⟩
      · exact absurd (by simpa [Token.isEof, tokenAt] using heof) hne
  | discarded hunseen hcandidate _ ih =>
      have htried := hcandidate.tried hs hkeep ha
      have hend₁ := hcandidate.endKnown (h := begun _) TableRecognizer.advances hs hend
      obtain ⟨hindex, hseen, hform, hcolumn⟩ :=
        ih htried.within.shows htried.keeps (htried.automaton ▸ ha) hend₁ hresult
      rw [htried.lastToken?] at hcolumn
      exact ⟨hindex, hseen, hform, hcolumn⟩

end Head

/-! ## A session -/

namespace Lexer

variable {cs : List Char} {lx : Lexer TableRecognizer} {s u : CharStream}
  {c : Command TableRecognizer} {entry : Entry TableRecognizer}

/-- The lexer has just been put at the beginning of the text. -/
inductive Begins (text : String) : Lexer TableRecognizer → Prop
  | attach (lx : Lexer TableRecognizer) (name : String) :
      Begins text (lx.attach (.ofString text name))
  | reset {lx lx' : Lexer TableRecognizer} {s : TextStream} (hstream : lx.stream? = some (.text s))
      (htext : s.chars.toList = text.toList) (hreset : lx.reset = .ok lx') : Begins text lx'

/-- The lexer is ready, it has seen the end of the text at most where it is,
and has the token that was returned last. -/
structure Follows (cs : List Char) (lx : Lexer TableRecognizer) (s : CharStream)
    (last? : Option Token) : Prop where
  ready : lx.Ready cs s
  endKnown : (lx.head s).EndKnown cs
  lastToken? : lx.state.lastToken? = last?

/-- The lexer stands at the end of the text and has given out the sentinel `t`. -/
structure Ended (cs : List Char) (lx : Lexer TableRecognizer) (s : CharStream) (t : Token) :
    Prop extends Follows cs lx s (some t) where
  eofSeen : lx.state.eofSeen = true
  token_eq : t = sentinelAt cs.length lx.caret.line t.column lx.source

theorem Begins.follows {text : String} (h : Begins text lx)
    (ha : lx.recognizer.automaton.NoEmptyMatch) (hc : lx.recognizer.automaton.CellsInRange)
    (hlength : text.length < textLimit) : ∃ s, lx.Follows text.toList s none := by
  rw [← String.length_toList] at hlength
  cases h with
  | attach lx name =>
      refine ⟨.ofString text name, ready_attach ha hc (CharStream.shows_ofString ..) rfl hlength,
        ?_, rfl⟩
      intro hseen
      cases hseen
  | @reset lx _ s hstream htext hreset =>
      simp only [Lexer.reset, hstream, CharStream.seek] at hreset
      obtain rfl := Except.ok.inj hreset
      refine ⟨.text (s.seek 0), ready_restart ha hc htext (Nat.zero_min _) hlength, ?_, rfl⟩
      intro hseen
      cases hseen

/-- What the last command means for what comes next. -/
theorem Follows.does {last? : Option Token} (h : lx.Follows cs s last?)
    (hafter : entry.lexer.Ready cs u) (hdoes : Does cs lx s c entry u) :
    entry.lexer.Follows cs u (entry.token?.or last?) := by
  have hshows := h.ready.shows
  refine ⟨hafter, ?_, ?_⟩
  · cases hdoes with
    | @next _ k u result hcourse hindex =>
        have hend := hcourse.endKnown TableRecognizer.advances
          hshows.mark (fun hseen => s.index_mark.trans (h.endKnown hseen))
        exact fun hseen => hindex.trans (hend hseen)
    | recover hindex _ =>
        intro hseen
        have hstart : s.index = cs.length := h.endKnown hseen
        show u.index = cs.length
        omega
    | notify hindex => exact fun hseen => hindex.trans (h.endKnown hseen)
    | act hperform =>
        obtain ⟨hseen, -, -, -, -⟩ := State.perform_frame hperform
        exact fun htrue => h.endKnown (hseen ▸ htrue)
  · rw [← h.lastToken?]
    cases hdoes with
    | @next _ k u result hcourse _ =>
        have hlast := hcourse.lastToken? hshows.mark (lx.keepsFrom_marked s) h.ready.noEmptyMatch
        cases result <;> exact hlast
    | recover | notify => rfl
    | @act a _ _ failure hperform =>
        obtain ⟨-, hlast, -, -, -⟩ := State.perform_frame hperform
        cases failure <;> exact hlast

/-- The lexer has given out `t` as the sentinel of a text of `n` characters, after
the token `last?`. -/
structure Closes (n : Nat) (last? : Option Token) (lx : Lexer TableRecognizer) (t : Token) :
    Prop where
  index_eq : lx.index = n
  eofSeen : lx.state.eofSeen = true
  token_eq : t = sentinelAt n lx.caret.line t.column lx.source
  column : ColumnBehind last? lx.caret t.column

theorem Follows.ended {last? : Option Token} (h : lx.Follows cs s last?)
    (hafter : entry.lexer.Ready cs u) (hdoes : Does cs lx s c entry u) {t : Token}
    (ht : entry.reply = .token (.ok t)) (heof : t.isEof = true) :
    entry.lexer.Ended cs u t ∧ Closes cs.length last? entry.lexer t := by
  have hfollows := h.does hafter hdoes
  rw [Entry.token?, ht, Option.some_or] at hfollows
  obtain ⟨events, k, hcourse, hindex, rfl⟩ := hdoes.of_token ht
  obtain ⟨hend, hseen, hform, hcolumn⟩ := hcourse.sentinel_of_eof h.ready.shows.mark
    (lx.keepsFrom_marked s) h.ready.noEmptyMatch
    (fun hseen => s.index_mark.trans (h.endKnown hseen)) rfl heof
  rw [hend] at hform
  rw [show (lx.marked s).state.lastToken? = last? from h.lastToken?] at hcolumn
  exact ⟨⟨hfollows, hseen, hform⟩,
    hafter.index_eq.trans (hindex.trans hend), hseen, hform, hcolumn⟩

/-- Once the sentinel has been given out, a call does nothing but give it out
again. -/
theorem Ended.produces {t : Token} (h : lx.Ended cs s t) {events : List Event}
    {k : Head TableRecognizer} {result : Except LexerError Token}
    (hcourse : (lx.marked s).Produces lx.reporter events k result) :
    events = [] ∧ result = .ok t ∧ k = (lx.marked s).give t := by
  have hseen : (lx.marked s).state.eofSeen = true := h.eofSeen
  cases hcourse with
  | broken hunseen | completed hunseen | discarded hunseen => cases hseen.symm.trans hunseen
  | @sentinel _ _ t' _ hgive =>
      obtain ⟨htoken, rfl⟩ := Head.giveEof_eq_ok hgive
      obtain ⟨hform, hcolumn⟩ := Head.eofToken_eq_ok htoken
      rw [show (lx.marked s).state.lastToken? = some t from h.lastToken?] at hcolumn
      obtain ⟨n, hlength, hn⟩ := hcolumn
      have hzero : t.length = .ok 0 := by
        rw [h.token_eq]
        exact length_sentinelAt h.ready.room.length_lt ..
      obtain rfl := Except.ok.inj (hzero.symm.trans hlength)
      have hindex : (lx.marked s).index = cs.length :=
        (lx.index_marked s).trans (h.endKnown h.eofSeen)
      have hsame : t' = t := by
        rw [hform, hindex, hn, Nat.add_zero, h.token_eq]
        rfl
      exact ⟨rfl, congrArg _ hsame, by rw [hsame]⟩

/-- No command leads away from the end. -/
theorem Ended.does {t : Token} (h : lx.Ended cs s t) (hafter : entry.lexer.Ready cs u)
    (hdoes : Does cs lx s c entry u) :
    entry.lexer.Ended cs u t ∧ ∀ result, entry.reply = .token result →
      result = .ok t ∧ entry.events = [] := by
  have hfollows := h.toFollows.does hafter hdoes
  have hlen : s.index = cs.length := h.endKnown h.eofSeen
  constructor
  · cases hdoes with
    | next hcourse =>
        obtain ⟨rfl, rfl, rfl⟩ := h.produces hcourse
        exact ⟨hfollows, h.eofSeen, h.token_eq⟩
    | @recover _ u p _ hdrops =>
        have hcaret : p = lx.caret := by
          rw [DropsTo, List.getElem?_eq_none (Nat.le_of_eq hlen.symm)] at hdrops
          exact hdrops
        subst hcaret
        exact ⟨hfollows, h.eofSeen, h.token_eq⟩
    | notify => exact ⟨hfollows, h.eofSeen, h.token_eq⟩
    | @act _ _ _ failure hperform =>
        obtain ⟨hseen, -⟩ := State.perform_frame hperform
        cases failure <;> exact ⟨hfollows, hseen.trans h.eofSeen, h.token_eq⟩
  · intro result hresult
    obtain ⟨events, k, hcourse, -, rfl⟩ := hdoes.of_token hresult
    obtain ⟨rfl, rfl, -⟩ := h.produces hcourse
    exact ⟨rfl, rfl⟩

theorem Ended.trace {t : Token} {commands : List (Command TableRecognizer)}
    {entries : List (Entry TableRecognizer)} (htrace : Trace lx commands entries)
    (hc : ∀ c ∈ commands, c.GoesOn) (h : lx.Ended cs s t) :
    ∀ later ∈ entries, later.lexer.index = cs.length ∧ ∀ result, later.reply = .token result →
      result = .ok t ∧ later.events = [] := by
  induction htrace generalizing s with
  | nil => simp
  | cons hstep _ ih =>
      obtain ⟨u, hafter, hdoes⟩ := h.ready.does (hc _ (List.mem_cons_self ..)) hstep
      obtain ⟨hended, hanswer⟩ := h.does hafter hdoes
      intro later hlater
      rcases List.mem_cons.mp hlater with rfl | hlater
      · exact ⟨hafter.index_eq.trans (hended.endKnown hended.eofSeen), hanswer⟩
      · exact ih (fun c hmem => hc c (List.mem_cons_of_mem _ hmem)) hended later hlater

theorem Follows.trace {last? : Option Token} {commands : List (Command TableRecognizer)}
    {entries : List (Entry TableRecognizer)} (htrace : Trace lx commands entries)
    (hc : ∀ c ∈ commands, c.GoesOn) (h : lx.Follows cs s last?) :
    ∀ before entry after t, entries = before ++ entry :: after →
      entry.reply = .token (.ok t) → t.isEof = true →
        Closes cs.length ((returned before).getLast?.or last?) entry.lexer t
          ∧ ∀ later ∈ after, later.lexer.index = cs.length
            ∧ ∀ result, later.reply = .token result → result = .ok t ∧ later.events = [] := by
  induction htrace generalizing s last? with
  | nil =>
      intro before entry after t heq
      simp at heq
  | @cons lx c commands first entries hstep hrest ih =>
      have hrests : ∀ c ∈ commands, c.GoesOn := fun c hmem => hc c (List.mem_cons_of_mem _ hmem)
      obtain ⟨u, hafter, hdoes⟩ := h.ready.does (hc c (List.mem_cons_self ..)) hstep
      intro before entry after t heq ht heof
      cases before with
      | nil =>
          obtain ⟨rfl, rfl⟩ := List.cons.inj heq
          obtain ⟨hended, hcloses⟩ := h.ended hafter hdoes ht heof
          exact ⟨hcloses, hended.trace hrest hrests⟩
      | cons e before =>
          obtain ⟨rfl, rfl⟩ := List.cons.inj heq
          obtain ⟨hcloses, hlater⟩ :=
            ih hrests (h.does hafter hdoes) before entry after t rfl ht heof
          rw [getLast?_returned_cons, Option.or_assoc]
          exact ⟨hcloses, hlater⟩

/-- Whatever a session does after a text was attached or gone back to, it gives
out a sentinel at the end of the text only, behind the last token returned
before. All the calls that follow return the same one, let nothing be seen and
do not move, whatever else happens in between. -/
theorem sentinel_is_final (text : String) (lx : Lexer TableRecognizer)
    (hbegins : Begins text lx) (ha : lx.recognizer.automaton.NoEmptyMatch)
    (hc : lx.recognizer.automaton.CellsInRange) (hlength : text.length < textLimit)
    (commands : List (Command TableRecognizer)) (hcommands : ∀ c ∈ commands, c.GoesOn) :
    ∃ entries, Trace lx commands entries ∧ ∀ before entry after t,
      entries = before ++ entry :: after → entry.reply = .token (.ok t) → t.isEof = true →
        Closes text.length (returned before).getLast? entry.lexer t
          ∧ ∀ later ∈ after, later.lexer.index = text.length
            ∧ ∀ result, later.reply = .token result → result = .ok t ∧ later.events = [] := by
  obtain ⟨s, hfollows⟩ := hbegins.follows ha hc hlength
  obtain ⟨entries, htrace⟩ := hfollows.ready.exists_trace hcommands
  refine ⟨entries, htrace, ?_⟩
  have hall := hfollows.trace htrace hcommands
  simp only [Option.or_none, String.length_toList] at hall
  exact hall

/-- The setters, an emitted token and a dropped character come between calls at
the end of a text that was gone back to. -/
theorem sentinel_is_final_reset :
    let lx₀ := Sample.lexer Sample.alternating "a ;"
    let e : RecognitionError := .noRule {}
    let commands : List (Command TableRecognizer) := [.next, .act (.setText "x"), .next, .next,
      .recover e, .act (.emit default), .act .popMode, .next, .notify e, .next]
    ∃ lx entries, lx₀.reset = .ok lx ∧ Trace lx commands entries ∧ ∀ before entry after t,
      entries = before ++ entry :: after → entry.reply = .token (.ok t) → t.isEof = true →
        Closes "a ;".length (returned before).getLast? entry.lexer t
          ∧ ∀ later ∈ after, later.lexer.index = "a ;".length
            ∧ ∀ result, later.reply = .token result → result = .ok t ∧ later.events = [] := by
  intro lx₀ e commands
  obtain ⟨entries, htrace, hall⟩ := sentinel_is_final "a ;" _
    (@Begins.reset "a ;" lx₀ _ (.ofString "a ;" unknownSourceName) rfl rfl rfl) (by decide)
    (by decide) (by decide) commands (by simp [commands, Command.GoesOn])
  exact ⟨_, entries, rfl, htrace, hall⟩

end Lexer

end ModalLexer
