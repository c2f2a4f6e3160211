import ModalLexer.Proofs.Lexer.Independence
import ModalLexer.Proofs.Lexer.Noninterference
import ModalLexer.Proofs.Lexer.Sentinel

/-!
# Quotations between calls

During a call the characters of the token are kept, and the two kinds of
stream can be quoted alike. Between calls no marker is outstanding, and a
reader has nothing left of what lies in front of the current index. A lexer
that is asked for the text of its last match then has none to give if it reads
from a byte source. A report on request quotes the next character only, and not
even that if nothing has read it before, since the text is taken before the next
character is looked at. A lexer over a text quotes everything from the beginning
of the candidate up to that character.

This is all that differs. `Beside` lists what two such lexers have in common
between calls and what each of them quotes, and it holds throughout a session
(`beside_of_trace`).
-/

namespace ModalLexer

/-- A message's quotation of the text from one index to another. -/
def quotation (cs : List Char) (a b : Nat) : String :=
  if cs.extract a b = [] then "<EOF>" else Text.visible (String.ofList (cs.extract a b))

/-! ## Quoting without a marker -/

namespace CharStream

variable {cs : List Char} {a b : Nat}

theorem knowsNext_of_end : ∀ {s : CharStream}, s.Shows cs → s.index = cs.length → s.KnowsNext
  | text _, _, _ => trivial
  | reader r, ⟨hstart, hchars⟩, hend => by
      have hlen := congrArg List.length hchars
      have hoffset := r.offset_le
      rw [List.length_drop] at hlen
      simp only [index, Reader.index] at hend
      simp only [KnowsNext]
      omega

/-- The next character is known after a release if it was before. -/
theorem KnowsNext.release {marker : Marker} {t u : CharStream} (h : t.KnowsNext)
    (hrelease : t.release marker = pure u) : u.KnowsNext := by
  cases t with
  | text t =>
      obtain ⟨rfl, -⟩ := Run.pure_eq_ok.mp hrelease
      exact h
  | reader r =>
      simp only [CharStream.release] at hrelease
      cases hr : r.release marker.depth with
      | none =>
          simp only [hr] at hrelease
          cases (Run.mk.inj hrelease).1
      | some r' =>
          simp only [hr] at hrelease
          obtain ⟨rfl, -⟩ := Run.pure_eq_ok.mp hrelease
          unfold Reader.release at hr
          split at hr
          · cases hr
          · obtain rfl := Option.some.inj hr
            have hoffset := r.offset_le
            have hsize := r.size_le_length_chars
            simp only [KnowsNext] at h
            simp only [KnowsNext, Reader.chars_place]
            split
            · rename_i hzero
              simp only [Reader.place, hzero, dif_pos, Array.size_extract, List.length_drop]
              omega
            · rename_i hne
              simp only [Reader.place, dif_neg hne]
              exact h

/-- Without a marker, what can be quoted up to the next character is that
character. -/
theorem slice_next_of_unmarked : ∀ {s : CharStream}, s.outstanding = some 0 → s.Shows cs →
    s.KnowsNext → a ≤ s.index →
      s.slice a (s.index + 1) = String.ofList (cs.extract s.index (s.index + 1))
  | reader r, hout, hs, hnext, ha => by
      have hzero : r.offset = 0 := r.offset_eq_zero (Option.some.inj hout)
      have hsame : r.slice a (r.index + 1) = r.slice r.index (r.index + 1) := by
        simp only [index, Reader.index, hzero, Nat.add_zero] at ha
        simp only [Reader.slice, Reader.index, hzero, Nat.add_zero, Nat.sub_self,
          Nat.sub_eq_zero_of_le ha]
      refine hsame.trans (slice_reader hs (Nat.le_add_right ..) ?_)
      have hsize := r.size_le_length_chars
      simp only [KnowsNext, hzero] at hnext
      simp only [Reader.index, hzero]
      omega

theorem knowsNext_of_slice : ∀ {s : CharStream}, s.outstanding = some 0 →
    s.slice a (s.index + 1) ≠ "" → s.KnowsNext
  | reader r, hout, hne => by
      have hzero : r.offset = 0 := r.offset_eq_zero (Option.some.inj hout)
      have hpos : r.buffer.size ≠ 0 := by
        intro hnil
        refine hne ?_
        rw [slice, Reader.slice, Array.size_eq_zero_iff.mp hnil]
        simp
      simp only [KnowsNext, hzero]
      omega

end CharStream

namespace Head

variable {ρ : Type} {h : Head ρ} {cs : List Char} {start : Start} {a : Nat}

/-- A quotation from an index that has not been passed by, as a message shows
it. -/
theorem quote_fst (hs : h.stream.Shows cs) (ha : a ≤ h.index)
    (hslice : h.stream.slice start.index (h.index + 1)
      = String.ofList (cs.extract a (h.index + 1))) :
    (h.quote start).1 = quotation cs a (h.index + 1) := by
  rw [quote_eq, hslice, quotation]
  by_cases hnil : cs.extract a (h.index + 1) = []
  · have hge : cs.length ≤ h.index := by
      have hlen := congrArg List.length hnil
      rw [List.extract_eq_take_drop, List.length_take, List.length_drop] at hlen
      simp only [List.length_nil] at hlen
      omega
    have hpeek : h.stream.peek.1 = none := by
      rw [hs.peek_fst]
      exact List.getElem?_eq_none hge
    simp [hnil, hpeek]
  · have hne : (String.ofList (cs.extract a (h.index + 1))).isEmpty = false := by
      rw [Bool.eq_false_iff]
      intro hempty
      exact hnil (by simpa using String.isEmpty_iff.mp hempty)
    rw [if_neg hnil, hne]
    rfl

/-- Without a marker, nothing is quoted before the next character has been read. -/
theorem quote_unread (hs : h.stream.Shows cs) (hout : h.stream.outstanding = some 0)
    (hunread : ¬h.stream.KnowsNext) : (h.quote start).1 = "" := by
  have hslice : h.stream.slice start.index (h.index + 1) = "" := by
    by_contra hne
    exact hunread (CharStream.knowsNext_of_slice hout hne)
  have hlt : h.index < cs.length :=
    Nat.lt_of_le_of_ne hs.index_le fun hend => hunread (CharStream.knowsNext_of_end hs hend)
  have hpeek : h.stream.peek.1 = some cs[h.index] :=
    hs.peek_fst.trans (List.getElem?_eq_getElem hlt)
  rw [quote_eq, hslice, hpeek]
  rfl

/-- A quotation at most looks at the next character. If it does not, there is
something to quote. -/
theorem quote_snd (h : Head ρ) (start : Start) :
    (h.quote start).2 = { h with stream := h.stream.peek.2 }
      ∨ ((h.quote start).2 = h ∧ h.stream.slice start.index (h.index + 1) ≠ "") := by
  rw [quote_eq]
  split
  · exact .inl rfl
  · rename_i hne
    exact .inr ⟨rfl, fun hnil => hne (String.isEmpty_iff.mpr hnil)⟩

/-! ## What a call leaves -/

/-- The candidate did not begin farther on. -/
def StartBehind (h : Head ρ) : Prop :=
  ∀ start, h.state.candidate.start? = some start → start.index ≤ h.index

variable [Recognizer ρ] {h' : Head ρ} {reporter : Reporter} {events : List Event}

theorem Assembles.start?_eq {decision : Except LexerError TokenType}
    (hcandidate : h.Assembles reporter events h' decision) :
    h'.state.candidate.start? = h.state.candidate.start? := by
  induction hcandidate with
  | last hturn _ => exact hturn.start?_eq
  | more hturn _ ih => exact ih.trans hturn.start?_eq

theorem Assembles.startBehind (hρ : Recognizer.MovesBy ρ CharStream.Advances)
    {decision : Except LexerError TokenType}
    (hcandidate : h.begun.Assembles reporter events h' decision) : h'.StartBehind := by
  intro start hstart
  rw [hcandidate.start?_eq] at hstart
  obtain rfl := Option.some.inj hstart
  exact (hcandidate.moves CharStream.Advances.motion hρ).index_le

theorem Produces.startBehind (hρ : Recognizer.MovesBy ρ CharStream.Advances)
    {result : Except LexerError Token} (hcall : h.Produces reporter events h' result)
    (hbehind : h.StartBehind) : h'.StartBehind := by
  induction hcall with
  | sentinel _ hgive =>
      obtain ⟨-, rfl⟩ := giveEof_eq_ok hgive
      exact hbehind
  | broken _ hcandidate => exact hcandidate.startBehind hρ
  | completed _ hcandidate hcomplete =>
      have hcompleted := hcandidate.startBehind hρ
      obtain ⟨rfl, -⟩ := complete_eq_ok hcomplete
      exact hcompleted
  | discarded _ hcandidate _ ih => exact ih (hcandidate.startBehind hρ)

/-- Every match that is decided ends with a look at the next character. -/
theorem Turn.knowsNext {decision : Except LexerError TokenType}
    (hturn : h.Turn reporter events h' decision) {type : TokenType} (hok : decision = .ok type) :
    h'.stream.KnowsNext := by
  cases hturn with
  | stopped => cases hok
  | decided _ _ hfinal =>
      obtain ⟨-, rfl⟩ := Prod.mk.inj hfinal
      rw [noteEof_eq]
      exact CharStream.knowsNext_peek _

theorem Assembles.knowsNext {decision : Except LexerError TokenType}
    (hcandidate : h.Assembles reporter events h' decision) {type : TokenType}
    (hok : decision = .ok type) : h'.stream.KnowsNext := by
  induction hcandidate with
  | last hturn _ => exact hturn.knowsNext hok
  | more _ _ ih => exact ih hok

/-- So does every call that returns a token, unless there is no next character. -/
theorem Produces.knowsNext (hρ : Recognizer.MovesBy ρ CharStream.Advances) {t : Token}
    {result : Except LexerError Token} (hcall : h.Produces reporter events h' result)
    (hs : h.stream.Shows cs) (hend : h.EndKnown cs) (hok : result = .ok t) :
    h'.stream.KnowsNext := by
  induction hcall with
  | sentinel hseen hgive =>
      obtain ⟨-, rfl⟩ := giveEof_eq_ok hgive
      exact CharStream.knowsNext_of_end hs (hend hseen)
  | broken => cases hok
  | completed _ hcandidate hcomplete =>
      obtain ⟨rfl, -⟩ := complete_eq_ok hcomplete
      exact hcandidate.knowsNext rfl
  | discarded _ hcandidate _ ih =>
      exact ih ((hcandidate.moves CharStream.Advances.motion hρ).shows hs)
        (hcandidate.endKnown (h := begun _) hρ hs hend) hok

end Head

/-! ## Reports on request -/

/-- Whether the next character has been read after a command that has left this
entry, `known` saying whether it had been before. A returned token and a report
leave it known. -/
def Command.looks {ρ : Type} (known : Bool) (c : Command ρ) (entry : Entry ρ) : Bool :=
  match c with
  | .next => entry.token?.isSome
  | .notify _ => true
  | .act _ => known
  | _ => false

/-- Whether it has been read after a session. -/
def looked {ρ : Type} : Bool → List (Command ρ) → List (Entry ρ) → Bool
  | known, c :: commands, entry :: entries => looked (c.looks known entry) commands entries
  | known, _, _ => known

namespace Lexer

section

variable {ρ : Type}

/-- A report changes nothing but that it may look at the next character. -/
theorem exists_withHead_quote (lx : Lexer ρ) (s : CharStream) (start : Start) :
    ∃ u, lx.withHead ((lx.head s).quote start).2 = { lx with stream? := some u }
      ∧ (u = s ∨ u = s.peek.2) := by
  rcases (lx.head s).quote_snd start with hsnd | ⟨hsnd, -⟩ <;> rw [hsnd]
  · exact ⟨s.peek.2, rfl, .inr rfl⟩
  · exact ⟨s, rfl, .inl rfl⟩

variable [Recognizer ρ] {lx : Lexer ρ} {s : CharStream}

/-- Where the candidate began, or the lexer stands if there is none. -/
def candidateStart (lx : Lexer ρ) : Start :=
  lx.state.candidate.start?.getD ⟨lx.index, lx.caret⟩

/-- The next character has been read, unless there is none. -/
def KnowsNext (lx : Lexer ρ) : Prop :=
  ∃ s, lx.stream? = some s ∧ s.KnowsNext

/-- The report on an error that quotes so much of the text. -/
def reportOf (lx : Lexer ρ) (e : RecognitionError) (quoted : String) : Report where
  source := lx.source
  line := lx.candidateStart.caret.line
  column := lx.candidateStart.caret.column
  message := "token recognition error at: '" ++ quoted ++ "'"
  cause := e

theorem notify_eq (hstream : lx.stream? = some s) (e : RecognitionError) :
    lx.notify e = {
      events := lx.listeners.deliver (lx.reportOf e ((lx.head s).quote lx.candidateStart).1)
      outcome := .ok (lx.withHead ((lx.head s).quote lx.candidateStart).2) } := by
  have hstart : lx.candidateStart = (lx.head s).state.candidate.start?.getD (lx.head s).here := by
    simp only [candidateStart, Lexer.index, hstream]
    rfl
  simp only [notify, hstream]
  refine Run.bind_pure_of_eq_ok ?_ _
  rw [Head.report_eq, ← hstart]
  simp only [reportOf, hstart]
  rfl

/-- A report quotes as much as the stream still has. -/
theorem exists_notify {cs : List Char} {a : Nat} (hstream : lx.stream? = some s) (hs : s.Shows cs)
    (ha : a ≤ lx.index) (hslice : s.slice lx.candidateStart.index (s.index + 1)
      = String.ofList (cs.extract a (s.index + 1))) (e : RecognitionError) :
    ∃ lx', lx.notify e = {
      events := lx.listeners.deliver (lx.reportOf e (quotation cs a (lx.index + 1)))
      outcome := .ok lx' } := by
  have hindex : lx.index = s.index := by rw [Lexer.index, hstream]
  have hquote : ((lx.head s).quote lx.candidateStart).1 = quotation cs a (lx.index + 1) := by
    rw [hindex] at ha ⊢
    exact Head.quote_fst hs ha hslice
  rw [← hquote]
  exact ⟨_, notify_eq hstream e⟩

end

/-! ## Sessions side by side -/

variable {cs : List Char} {s₀ t₀ s : CharStream} {x y x' : Lexer TableRecognizer} {known : Bool}
  {events : List Event}

/-- What a lexer over the text `cs` counts on between calls: its candidate did
not begin farther on, and the end of the text has been seen at most where it is.
If the next character is `known`, it has been read. -/
structure Steady (cs : List Char) (known : Bool) (x : Lexer TableRecognizer) (s : CharStream) :
    Prop where
  stream : x.stream? = some s
  shows : s.Shows cs
  unmarked : s.outstanding = some 0
  startBehind : (x.head s).StartBehind
  endKnown : (x.head s).EndKnown cs
  knowsNext : known = true → s.KnowsNext

namespace Steady

theorem index_eq (h : x.Steady cs known s) : x.index = s.index := by
  rw [Lexer.index, h.stream]

theorem start_le (h : x.Steady cs known s) : x.candidateStart.index ≤ x.index := by
  rw [candidateStart]
  cases hst : x.state.candidate.start? with
  | none => exact Nat.le_refl _
  | some start => exact h.index_eq ▸ h.startBehind start hst

/-- A report quotes the next character if that has been read, -/
theorem notify_read (h : x.Steady cs known s) (hnext : s.KnowsNext) (cause : RecognitionError) :
    ∃ x', x.notify cause = {
      events := x.listeners.deliver (x.reportOf cause (quotation cs x.index (x.index + 1)))
      outcome := .ok x' } := by
  have hindex := h.index_eq
  have hslice := CharStream.slice_next_of_unmarked h.unmarked h.shows hnext (hindex ▸ h.start_le)
  rw [hindex]
  exact hindex ▸ exists_notify h.stream h.shows (Nat.le_of_eq hindex.symm) hslice cause

/-- and nothing otherwise. -/
theorem notify_unread (h : x.Steady cs known s) (hunread : ¬s.KnowsNext)
    (cause : RecognitionError) :
    ∃ x', x.notify cause = {
      events := x.listeners.deliver (x.reportOf cause "")
      outcome := .ok x' } := by
  have hquote : ((x.head s).quote x.candidateStart).1 = "" :=
    Head.quote_unread h.shows h.unmarked hunread
  exact ⟨_, hquote ▸ notify_eq h.stream cause⟩

theorem next (h : x.Steady cs known s) {result : Except LexerError Token}
    (hcall : x.nextToken = { events, outcome := .ok (x', result) }) :
    ∃ u, x'.Steady cs result.isOk u := by
  obtain ⟨k, u, hproduce, hrelease, hreleased, rfl⟩ :=
    (nextToken_eq_ok TableRecognizer.advances h.stream).mp hcall
  have hcourse := Head.produces_of_produce hproduce
  have hs : (x.marked s).stream.Shows cs := h.shows.mark
  have hend : (x.marked s).EndKnown cs := fun hseen => s.index_mark.trans (h.endKnown hseen)
  have hbehind : (x.marked s).StartBehind := fun start hstart =>
    Nat.le_trans (h.startBehind start hstart) (Nat.le_of_eq s.index_mark.symm)
  have hmoves := hcourse.moves CharStream.Advances.motion TableRecognizer.advances
  refine ⟨u, rfl, hreleased.shows (hmoves.shows hs), hreleased.outstanding.trans h.unmarked,
    ?_, ?_, ?_⟩
  · intro start hstart
    exact Nat.le_trans (hcourse.startBehind TableRecognizer.advances hbehind start hstart)
      (Nat.le_of_eq hreleased.index.symm)
  · intro hseen
    exact hreleased.index.trans (hcourse.endKnown TableRecognizer.advances hs hend hseen)
  · intro hok
    cases result with
    | error e => cases hok
    | ok t => exact (hcourse.knowsNext TableRecognizer.advances hs hend rfl).release hrelease

theorem recover (h : x.Steady cs known s) {e : RecognitionError}
    (hrecover : x.recover e = { events, outcome := .ok x' }) (hout : ∀ u, x'.stream? = some u →
      u.outstanding = some 0) : ∃ u, x'.Steady cs false u := by
  obtain ⟨r, s', rfl, -, hdropped, -⟩ := dropped_of_recover h.stream hrecover
  obtain ⟨hs', hindex⟩ := hdropped cs h.shows
  have hle := (CharStream.Advances.consume s).index_le
  refine ⟨s', rfl, hs', hout s' rfl, ?_, ?_, nofun⟩
  · intro start hstart
    exact Nat.le_trans (h.startBehind start hstart) (Nat.le_trans hle (Nat.le_of_eq hindex.symm))
  · intro hseen
    have hend : s.index = cs.length := h.endKnown hseen
    exact hindex.trans ((h.shows.index_consume_of_ge (Nat.le_of_eq hend.symm)).trans hend)

theorem notify (h : x.Steady cs known s) :
    ∃ u, (x.withHead ((x.head s).quote x.candidateStart).2).Steady cs true u := by
  rcases (x.head s).quote_snd x.candidateStart with hsnd | ⟨hsnd, hne⟩
  · rw [hsnd]
    refine ⟨s.peek.2, rfl, h.shows.peek, s.outstanding_peek.trans h.unmarked,
      ?_, ?_, fun _ => s.knowsNext_peek⟩
    · intro start hstart
      exact Nat.le_trans (h.startBehind start hstart) (Nat.le_of_eq s.index_peek.symm)
    · intro hseen
      exact s.index_peek.trans (h.endKnown hseen)
  · rw [hsnd]
    exact ⟨s, rfl, h.shows, h.unmarked, h.startBehind, h.endKnown,
      fun _ => CharStream.knowsNext_of_slice h.unmarked hne⟩

theorem act (h : x.Steady cs known s) {a : Action} {failure : Option LexerError}
    (hact : x.act a = { events, outcome := .ok (x', failure) }) : x'.Steady cs known s := by
  obtain ⟨before, ⟨state, failure'⟩, after, hperform, hpure, rfl⟩ := Run.bind_eq_ok.mp hact
  obtain ⟨rfl, rfl, rfl⟩ := Run.pure_pair_eq_ok.mp hpure
  obtain ⟨hseen, -, hstart, -, -⟩ := State.perform_frame hperform
  refine ⟨h.stream, h.shows, h.unmarked, ?_, ?_, h.knowsNext⟩
  · intro start hst
    exact h.startBehind start (hstart.symm.trans hst)
  · intro htrue
    exact h.endKnown (hseen.symm.trans htrue)

end Steady

/-- A report leaves lexers side by side, whether or not each of them has looked
at the next character for it. -/
theorem Twins.quote (h : Twins cs s₀ x y) :
    ∃ s t, x.stream? = some s ∧ y.stream? = some t
      ∧ Twins cs s₀ (x.withHead ((x.head s).quote x.candidateStart).2)
        (y.withHead ((y.head t).quote y.candidateStart).2) := by
  obtain ⟨s, t, hx, rfl, hplace, hout, hahead⟩ := h
  obtain ⟨u, hleft, hu⟩ := x.exists_withHead_quote s x.candidateStart
  obtain ⟨v, hright, hv⟩ := exists_withHead_quote { x with stream? := some t } t
    (candidateStart { x with stream? := some t })
  refine ⟨s, t, hx, rfl, ?_⟩
  rw [hleft, hright]
  refine ⟨u, v, rfl, rfl, ?_, ?_, ?_⟩
  · rcases hu with rfl | rfl <;> rcases hv with rfl | rfl
    · exact hplace
    · exact ⟨hplace.left, hplace.right.peek, (t.index_peek).trans hplace.index⟩
    · exact ⟨hplace.left.peek, hplace.right, hplace.index.trans s.index_peek.symm⟩
    · exact hplace.peek
  · rcases hu with rfl | rfl
    · exact hout
    · exact s.outstanding_peek.trans hout
  · intro hone
    rcases hu with rfl | rfl
    · exact hahead hone
    · exact (hahead hone).peek

/-- Two lexers side by side in the same text. Their streams have as many markers
outstanding as `s₀` and `t₀`, none in the case of the first. -/
structure Paired (cs : List Char) (s₀ t₀ : CharStream) (known : Bool)
    (x y : Lexer TableRecognizer) : Prop where
  left : Twins cs s₀ x y
  right : Twins cs t₀ y x
  steady : ∃ s, x.Steady cs known s

theorem Paired.perform (h : Paired cs s₀ t₀ known x y) (hunmarked : s₀.outstanding = some 0)
    {c : Command TableRecognizer} (hc : c.GoesOn) {e f : Entry TableRecognizer}
    (hx : c.perform x = e.run) (hy : c.perform y = f.run) :
    f.reply = e.reply ∧ ((∀ cause, c ≠ .notify cause) → f.events = e.events)
      ∧ Paired cs s₀ t₀ (c.looks known e) e.lexer f.lexer := by
  obtain ⟨hleft, hright, s, hsteady⟩ := h
  -- but for reports, only what is known of the next character is not settled yet
  have hagree : c.Consumes → (∃ u, e.lexer.Steady cs (c.looks known e) u) →
      f.reply = e.reply ∧ ((∀ cause, c ≠ .notify cause) → f.events = e.events)
        ∧ Paired cs s₀ t₀ (c.looks known e) e.lexer f.lexer := by
    intro hconsumes hsteady'
    obtain ⟨hevents, hleft', hreply⟩ := hleft.perform hconsumes _ _ _ _ hx hy
    obtain ⟨-, hright', -⟩ := hright.perform hconsumes _ _ _ _ hy hx
    exact ⟨hreply.symm, fun _ => hevents.symm, hleft', hright', hsteady'⟩
  obtain ⟨events, reply, x'⟩ := e
  cases c with
  | next =>
      refine hagree trivial ?_
      obtain ⟨result, hcall, rfl⟩ := Command.perform_next_eq_ok.mp hx
      obtain ⟨u, hu⟩ := hsteady.next hcall
      refine ⟨u, ?_⟩
      cases result <;> exact hu
  | recover cause =>
      refine hagree trivial ?_
      obtain ⟨-, ⟨u, t, hu, -, -, hout, -⟩, -⟩ :=
        hleft.perform (c := .recover cause) trivial _ _ _ _ hx hy
      obtain ⟨hrecover, rfl⟩ := Command.perform_recover_eq_ok.mp hx
      exact hsteady.recover hrecover fun v hv => by
        obtain rfl := Option.some.inj (hu.symm.trans hv)
        exact hout.trans hunmarked
  | act a =>
      refine hagree trivial ⟨s, ?_⟩
      obtain ⟨failure, hact, -⟩ := Command.perform_act_eq_ok.mp hx
      exact hsteady.act hact
  | notify cause =>
      obtain ⟨s', t, hs', ht, hleft'⟩ := hleft.quote
      obtain ⟨t', s'', ht', hs'', hright'⟩ := hright.quote
      obtain rfl := Option.some.inj (hsteady.stream.symm.trans hs')
      obtain rfl := Option.some.inj (hsteady.stream.symm.trans hs'')
      obtain rfl := Option.some.inj (ht.symm.trans ht')
      obtain ⟨hnotify, rfl⟩ := Command.perform_notify_eq_ok.mp hx
      obtain ⟨hnotify', hreply⟩ := Command.perform_notify_eq_ok.mp hy
      rw [notify_eq hsteady.stream] at hnotify
      rw [notify_eq ht] at hnotify'
      obtain rfl := Except.ok.inj (Run.mk.inj hnotify).2
      have hlexer := Except.ok.inj (Run.mk.inj hnotify').2
      exact ⟨hreply, fun hne => absurd rfl (hne cause), hlexer ▸ hleft', hlexer ▸ hright',
        hsteady.notify⟩
  | _ => exact hc.elim

theorem Paired.trace (h : Paired cs s₀ t₀ known x y) (hunmarked : s₀.outstanding = some 0)
    {commands : List (Command TableRecognizer)} (hc : ∀ c ∈ commands, c.GoesOn)
    {xs ys : List (Entry TableRecognizer)} (hx : Trace x commands xs) (hy : Trace y commands ys) :
    Paired cs s₀ t₀ (looked known commands xs) (Entry.last x xs) (Entry.last y ys) := by
  induction hx generalizing known y ys with
  | nil =>
      cases hy
      exact h
  | cons hstep _ ih =>
      cases hy with
      | cons hstep' hrest' =>
          obtain ⟨-, -, hnext⟩ := h.perform hunmarked (hc _ (List.mem_cons_self ..)) hstep hstep'
          exact ih hnext (fun c hmem => hc c (List.mem_cons_of_mem _ hmem)) hrest'

/-- What two lexers have in common between calls, the first over a reader and
the second over the text `cs` of its characters, and what each of them quotes.
The next character has been read by the first if it is `known`. -/
structure Beside (cs : List Char) (known : Bool) (x y : Lexer TableRecognizer) : Prop where
  index : y.index = x.index
  recognizer : y.recognizer = x.recognizer
  state : y.state = x.state
  error? : y.error? = x.error?
  start_le : x.candidateStart.index ≤ x.index
  /-- The whole text of the last match, unless another was put in its place, -/
  whole_text : y.text = x.state.candidate.text?.getD
    (String.ofList (cs.extract x.recognizer.matchStart x.index))
  /-- and nothing of it. -/
  text : x.text = x.state.candidate.text?.getD ""
  /-- Everything from the beginning of the candidate up to the next character, -/
  whole_notify : ∀ cause, ∃ y', y.notify cause = {
    events := x.listeners.deliver
      (x.reportOf cause (quotation cs x.candidateStart.index (x.index + 1)))
    outcome := .ok y' }
  /-- the next character only, if it has been read, -/
  notify : x.KnowsNext → ∀ cause, ∃ x', x.notify cause = {
    events := x.listeners.deliver (x.reportOf cause (quotation cs x.index (x.index + 1)))
    outcome := .ok x' }
  /-- and nothing otherwise. -/
  notify_unread : ¬x.KnowsNext → ∀ cause, ∃ x', x.notify cause = {
    events := x.listeners.deliver (x.reportOf cause "")
    outcome := .ok x' }
  /-- It has been read at the end of the text, and if the last command has looked
  at it. -/
  knowsNext : x.index = cs.length ∨ known = true → x.KnowsNext
  /-- The answers to the next command are the same, and so is what it lets be
  seen, unless it is such a report. -/
  answers : ∀ (c : Command TableRecognizer) (e f : Entry TableRecognizer), c.GoesOn →
    c.perform x = e.run → c.perform y = f.run →
      f.reply = e.reply ∧ ((∀ cause, c ≠ .notify cause) → f.events = e.events)

theorem text_eq {lx : Lexer TableRecognizer} (hstream : lx.stream? = some s) :
    lx.text = lx.state.candidate.text?.getD (s.slice lx.recognizer.matchStart s.index) := by
  simp only [text, hstream]
  cases lx.state.candidate.text? <;> rfl

theorem Paired.beside (h : Paired cs s₀ t₀ known x y) (hs₀ : s₀.outstanding = some 0)
    (ht₀ : t₀.outstanding = none) : Beside cs known x y := by
  have hanswers := fun (c : Command TableRecognizer) (e f : Entry TableRecognizer)
    (hc : c.GoesOn) (hx : c.perform x = e.run) (hy : c.perform y = f.run) =>
      And.imp_right And.left (h.perform hs₀ hc hx hy)
  obtain ⟨⟨s, t, hx, rfl, hplace, -, -⟩, ⟨t', _, ht', -, -, hout, -⟩, s', hsteady⟩ := h
  obtain rfl := Option.some.inj (hx.symm.trans hsteady.stream)
  obtain rfl : t = t' := Option.some.inj ht'
  have hindex := hsteady.index_eq
  have hstart := hsteady.start_le
  cases t with
  | reader r => cases hout.trans ht₀
  | text t =>
      have hindex' : Lexer.index { x with stream? := some (.text t) } = x.index :=
        hplace.index.trans hindex.symm
      have hsame : candidateStart { x with stream? := some (.text t) } = x.candidateStart := by
        simp only [candidateStart, hindex']
        rfl
      refine {
        index := hindex'
        recognizer := rfl
        state := rfl
        error? := rfl
        start_le := hstart
        whole_text := ?_
        text := ?_
        whole_notify := ?_
        notify := ?_
        notify_unread := ?_
        knowsNext := ?_
        answers := hanswers }
      · rw [text_eq rfl, CharStream.slice_text hplace.right, hplace.index, ← hindex]
      · rw [text_eq hx, CharStream.slice_of_unmarked hsteady.unmarked]
      · intro cause
        obtain ⟨y', hy'⟩ := exists_notify rfl hplace.right (hindex' ▸ hsame ▸ hstart)
          (CharStream.slice_text hplace.right _ _) cause
        refine ⟨y', hy'.trans ?_⟩
        simp only [reportOf, hsame, hindex']
      · rintro ⟨s', hs', hnext⟩
        obtain rfl := Option.some.inj (hx.symm.trans hs')
        exact hsteady.notify_read hnext
      · intro hunread
        exact hsteady.notify_unread fun hnext => hunread ⟨s, hx, hnext⟩
      · rintro (hend | hknown)
        · exact ⟨s, hx, CharStream.knowsNext_of_end hsteady.shows (hindex ▸ hend)⟩
        · exact ⟨s, hx, hsteady.knowsNext hknown⟩

/-- Throughout a session in which tokens are asked for, characters dropped and
errors reported, a lexer over a reader stays beside the one over the text of the
reader's characters. -/
theorem beside_of_trace (lx : Lexer TableRecognizer) (r : Reader) (hindex : r.index = 0)
    (hmarkers : r.markers = 0) {commands : List (Command TableRecognizer)}
    (hc : ∀ c ∈ commands, c.GoesOn) {xs ys : List (Entry TableRecognizer)}
    (hx : Trace (lx.attach (.reader r)) commands xs)
    (hy : Trace (lx.attach (.ofString (String.ofList r.chars) r.name)) commands ys) :
    Beside r.chars (looked false commands xs) (Entry.last (lx.attach (.reader r)) xs)
      (Entry.last (lx.attach (.ofString (String.ofList r.chars) r.name)) ys) := by
  have hs : (CharStream.reader r).Shows r.chars := CharStream.shows_reader hindex
  have ht : (CharStream.ofString (String.ofList r.chars) r.name).Shows r.chars :=
    CharStream.shows_ofList ..
  have hunmarked : (CharStream.reader r).outstanding = some 0 := congrArg some hmarkers
  have hstart : Paired r.chars (.reader r) (.ofString (String.ofList r.chars) r.name) false
      (lx.attach (.reader r)) (lx.attach (.ofString (String.ofList r.chars) r.name)) := {
    left := ⟨_, _, rfl, rfl, ⟨hs, ht, hindex.symm⟩, rfl, id⟩
    right := ⟨_, _, rfl, rfl, ⟨ht, hs, hindex⟩, rfl, id⟩
    steady := ⟨.reader r, rfl, hs, hunmarked, nofun, nofun, nofun⟩ }
  exact (hstart.trace hunmarked hc hx hy).beside hunmarked rfl

/-- A word in two pieces, and an error reported behind it. -/
theorem beside_of_trace_pieces :
    let lx : Lexer TableRecognizer := { recognizer := { automaton := Sample.alternating } }
    let r := Reader.ofSource { chunks := [.bytes [0x61], .bytes [0x62, 0x20, 0x63]] } "pieces"
    let commands : List (Command TableRecognizer) := [.next, .notify (.noRule {})]
    ∃ xs ys, Trace (lx.attach (.reader r)) commands xs
      ∧ Trace (lx.attach (.ofString (String.ofList r.chars) "pieces")) commands ys
      ∧ Beside r.chars true (Entry.last (lx.attach (.reader r)) xs)
        (Entry.last (lx.attach (.ofString (String.ofList r.chars) "pieces")) ys) := by
  intro lx r commands
  have hlength : r.chars.length < textLimit :=
    Nat.lt_of_le_of_lt r.decoder.length_delivered_le (by decide)
  have hready : ∀ s : CharStream, s.Shows r.chars → s.index = 0 → (lx.attach s).Ready r.chars s :=
    fun s hs hindex => ready_attach (by decide) (by decide) hs hindex hlength
  have hc : ∀ c ∈ commands, c.GoesOn := by simp [commands, Command.GoesOn]
  obtain ⟨xs, hx⟩ := (hready _ (CharStream.shows_reader rfl) rfl).exists_trace hc
  obtain ⟨ys, hy⟩ := (hready _ (CharStream.shows_ofList r.chars "pieces") rfl).exists_trace hc
  refine ⟨xs, ys, hx, hy, ?_⟩
  -- the last command is a report, so the character it quotes has been looked at
  have hlooked : looked false commands xs = true := by
    have hx : Trace (lx.attach (.reader r)) [.next, .notify (.noRule {})] xs := hx
    cases hx with
    | cons _ hrest =>
        cases hrest with
        | cons _ hnil =>
            cases hnil
            rfl
  exact hlooked ▸ beside_of_trace lx r rfl rfl hc hx hy

/-- Behind the first word of a text, a lexer over its bytes has forgotten the
word, and one over the text itself has not. At the beginning of a text, it has
not yet read the character that it should quote. -/
theorem quotes_differ_between_calls :
    let lx : Lexer TableRecognizer := { recognizer := { automaton := Sample.alternating } }
    let quoted : Lexer TableRecognizer → List String := fun lx =>
      ((lx.notify (.noRule {})).events.filterMap Event.report?).map Report.message
    let seen : Lexer TableRecognizer → Option (String × List String) := fun lx =>
      lx.nextToken.outcome.toOption.map fun (lx', _) => (lx'.text, quoted lx')
    (seen (lx.attach (.ofSource { chunks := [.bytes [0x61, 0x62, 0x20, 0x63]] }))
        = some ("", ["token recognition error at: ' '"])
      ∧ seen (lx.attach (.ofString "ab c"))
        = some ("ab", ["token recognition error at: 'ab '"]))
    ∧ quoted (lx.attach (.ofSource { chunks := [.bytes [0x61, 0x62]] }))
        = ["token recognition error at: ''"]
      ∧ quoted (lx.attach (.ofString "ab")) = ["token recognition error at: 'a'"] := by
  decide +kernel

end Lexer

end ModalLexer
