import ModalLexer.Proofs.Automaton.Position
import ModalLexer.Proofs.Lexer.Sentinel

/-!
# Coordinates

Throughout a session the lexer has the position of its index in the text, and
so has everything it lets be seen: a token the position of its first character,
a report that of the candidate it gives up. Tokens come in the order of their
positions. For those of the text this is the order of their indices. The
sentinel is another matter, its column is counted from the last token; but it
is on the line of the end of the text, and no token is below that.
-/

namespace ModalLexer

namespace Head

variable {tab : TabWidth} {cs : List Char} {reporter : Reporter} {h h' : Head TableRecognizer}
  {events : List Event} {result : Except LexerError Token} {t : Token}

/-! ## The last token and the position -/

/-- The token is not below the line of the head. As long as the end of the text
has not been seen, it is not to the right either. -/
def Behind (h : Head TableRecognizer) (t : Token) : Prop :=
  t.line ≤ h.caret.line ∧ (h.state.eofSeen = false → t.caret ≤ h.caret)

theorem Behind.mono (hbehind : h.Behind t) (hcaret : h.caret ≤ h'.caret)
    (hseen : h'.state.eofSeen = false → h.state.eofSeen = false) : h'.Behind t where
  left := Nat.le_trans hbehind.1 (Caret.line_le_of_le hcaret)
  right hunseen := le_trans (hbehind.2 (hseen hunseen)) hcaret

/-- The head is in place in the text, with what a call counts on. -/
structure Poised (tab : TabWidth) (cs : List Char) (h : Head TableRecognizer) : Prop where
  inPlace : h.InPlace tab cs
  keeps : h.stream.KeepsFrom h.index
  noEmptyMatch : h.recognizer.automaton.NoEmptyMatch
  endKnown : h.EndKnown cs

/-- A call that goes beyond the sentinel began before the end of the text had
been seen. -/
theorem Produces.unseen (hcall : h.Produces reporter events h' result)
    (hresult : ∀ t, result = .ok t → t.isEof = false) : h.state.eofSeen = false := by
  cases hcall with
  | sentinel _ hgive =>
      obtain ⟨htoken, -⟩ := giveEof_eq_ok hgive
      cases (isEof_of_eofToken htoken).symm.trans (hresult _ rfl)
  | broken hunseen | completed hunseen | discarded hunseen => exact hunseen

theorem Produces.caret_le (hcall : h.Produces reporter events h' result)
    (hplace : h.InPlace tab cs) : h.caret ≤ h'.caret := by
  have hplace' := hcall.keeps (TableRecognizer.inPlace_invariant tab cs) hplace
  have hadv := hcall.moves CharStream.Advances.motion TableRecognizer.advances
  exact hplace.caret.mono hplace'.caret hadv.index_le

/-- A token that is returned lies behind. -/
theorem Produces.behind (hcall : h.Produces reporter events h' (.ok t))
    (hpoised : h.Poised tab cs) : h'.Behind t := by
  obtain ⟨hplace, hkeep, ha, hend⟩ := hpoised
  cases heof : t.isEof with
  | false =>
      have hplace' := hcall.keeps (TableRecognizer.inPlace_invariant tab cs) hplace
      obtain ⟨-, hle, hcaret⟩ := hcall.token_at hplace hkeep ha rfl heof
      have hbehind : t.caret ≤ h'.caret := hcaret.mono hplace'.caret hle
      exact ⟨Caret.line_le_of_le hbehind, fun _ => hbehind⟩
  | true =>
      obtain ⟨-, hseen, hform, -⟩ := hcall.sentinel_of_eof hplace.shows hkeep ha hend rfl heof
      refine ⟨?_, fun hunseen => nomatch hseen.symm.trans hunseen⟩
      rw [hform]
      exact Nat.le_refl _

/-- It does not come before the last one. -/
theorem Produces.le_token {u : Token} (hcall : h.Produces reporter events h' (.ok t))
    (hpoised : h.Poised tab cs) (hlast : h.state.lastToken? = some u) (hbehind : h.Behind u) :
    u.caret ≤ t.caret := by
  obtain ⟨hplace, hkeep, ha, hend⟩ := hpoised
  cases heof : t.isEof with
  | false =>
      obtain ⟨hle, -, hcaret⟩ := hcall.token_at hplace hkeep ha rfl heof
      have hunseen : h.state.eofSeen = false := by
        refine hcall.unseen ?_
        rintro t' ⟨⟩
        exact heof
      exact le_trans (hbehind.2 hunseen) (hplace.caret.mono hcaret hle)
  | true =>
      obtain ⟨-, -, hform, hcolumn⟩ :=
        hcall.sentinel_of_eof hplace.shows hkeep ha hend rfl heof
      rw [hlast] at hcolumn
      obtain ⟨n, -, hn⟩ := hcolumn
      have hline : u.line ≤ t.line := by
        rw [hform]
        exact Nat.le_trans hbehind.1 (Caret.line_le_of_le (hcall.caret_le hplace))
      exact Caret.le_of_column_le hline (show u.column ≤ t.column by omega)

end Head

/-! ## A session -/

/-- What the entry shows agrees with the positions in the text `cs`; its command
began at index `start`. -/
structure Entry.Placed (tab : TabWidth) (cs : List Char) (start : Nat)
    (entry : Entry TableRecognizer) : Prop where
  caret : entry.lexer.caret.At tab cs entry.lexer.index
  token : ∀ t, entry.token? = some t → t.isEof = false → t.caret.At tab cs t.start
  reports : ∀ result, entry.reply = .token result → ReportsPlaced tab cs start entry.events

namespace Lexer

variable {tab : TabWidth} {cs : List Char} {lx : Lexer TableRecognizer} {s u : CharStream}
  {last? : Option Token} {c : Command TableRecognizer} {entry : Entry TableRecognizer}

/-- The lexer keeps track of the positions in the text, and has left the last
token behind. -/
structure Tracks (tab : TabWidth) (cs : List Char) (lx : Lexer TableRecognizer) (s : CharStream)
    (last? : Option Token) : Prop extends Follows cs lx s last? where
  tracksPosition : lx.options.recoverTracksPosition = true
  inPlace : (lx.head s).InPlace tab cs
  behind : ∀ t, last? = some t → (lx.head s).Behind t

/-- A lexer that keeps track can be called. -/
theorem Tracks.poised (h : lx.Tracks tab cs s last?) : (lx.marked s).Poised tab cs where
  inPlace := h.inPlace.of_index_eq h.ready.shows.mark s.index_mark
  keeps := lx.keepsFrom_marked s
  noEmptyMatch := h.ready.noEmptyMatch
  endKnown hseen := s.index_mark.trans (h.endKnown hseen)

/-- Dropping a character on request moves the position along. -/
theorem Tracks.at_of_dropsTo (h : lx.Tracks tab cs s last?) {p : Caret}
    (hdrops : lx.DropsTo cs s p) : p.At tab cs (min (s.index + 1) cs.length) := by
  have hcaret : lx.caret.At tab cs s.index := h.inPlace.caret
  unfold DropsTo at hdrops
  cases hc : cs[s.index]? with
  | none =>
      rw [hc] at hdrops
      obtain rfl := hdrops
      have hge := List.getElem?_eq_none_iff.mp hc
      have hle := h.ready.shows.index_le
      rwa [show min (s.index + 1) cs.length = s.index by omega]
  | some c =>
      obtain ⟨hlt, -⟩ := List.getElem?_eq_some_iff.mp hc
      simp only [hc, h.tracksPosition, if_true] at hdrops
      rw [show lx.recognizer.tab = tab from h.inPlace.tab_eq] at hdrops
      rw [Nat.min_eq_left hlt]
      exact hcaret.pass hc hdrops

/-- Whatever is done next, the lexer stays in place, and does not go back. -/
theorem Tracks.inPlace_does (h : lx.Tracks tab cs s last?) (hafter : entry.lexer.Ready cs u)
    (hdoes : Does cs lx s c entry u) :
    (entry.lexer.head u).InPlace tab cs ∧ s.index ≤ u.index := by
  cases hdoes with
  | @next _ k _ _ hcourse hindex =>
      have hplace := hcourse.keeps (TableRecognizer.inPlace_invariant tab cs) h.poised.inPlace
      have hadv := hcourse.moves CharStream.Advances.motion TableRecognizer.advances
      have hle : (lx.marked s).index ≤ k.index := hadv.index_le
      rw [index_marked] at hle
      exact ⟨hplace.of_index_eq hafter.shows hindex, hindex ▸ hle⟩
  | recover hindex hdrops =>
      have hle := h.ready.shows.index_le
      exact ⟨⟨hafter.shows, h.inPlace.tab_eq, hindex ▸ h.at_of_dropsTo hdrops⟩, by omega⟩
  | notify hindex =>
      exact ⟨h.inPlace.of_index_eq hafter.shows hindex, Nat.le_of_eq hindex.symm⟩
  | act => exact ⟨h.inPlace, Nat.le_refl _⟩

/-- The last token stays behind, or makes way for one that lies behind. -/
theorem Tracks.behind_does (h : lx.Tracks tab cs s last?) (hafter : entry.lexer.Ready cs u)
    (hdoes : Does cs lx s c entry u) :
    ∀ t, entry.token?.or last? = some t → (entry.lexer.head u).Behind t := by
  intro t ht
  obtain ⟨hplace, hle⟩ := h.inPlace_does hafter hdoes
  have hcaret : (lx.head s).caret ≤ (entry.lexer.head u).caret :=
    h.inPlace.caret.mono hplace.caret hle
  cases hdoes with
  | @next _ k _ result hcourse hindex =>
      cases result with
      | ok t' =>
          obtain rfl : t' = t := Option.some.inj ht
          exact hcourse.behind h.poised
      | error e =>
          have hunseen : lx.state.eofSeen = false := hcourse.unseen nofun
          exact (h.behind t ht).mono hcaret fun _ => hunseen
  | recover | notify => exact (h.behind t ht).mono hcaret id
  | @act _ _ _ failure hperform =>
      obtain ⟨hseen, -⟩ := State.perform_frame hperform
      have hlast : last? = some t := by cases failure <;> exact ht
      exact (h.behind t hlast).mono hcaret fun hunseen => hseen.symm.trans hunseen

theorem Tracks.does (h : lx.Tracks tab cs s last?) (hafter : entry.lexer.Ready cs u)
    (hdoes : Does cs lx s c entry u) : entry.lexer.Tracks tab cs u (entry.token?.or last?) where
  toFollows := h.toFollows.does hafter hdoes
  tracksPosition := by cases hdoes <;> exact h.tracksPosition
  inPlace := (h.inPlace_does hafter hdoes).1
  behind := h.behind_does hafter hdoes

theorem Tracks.placed (h : lx.Tracks tab cs s last?) (hafter : entry.lexer.Ready cs u)
    (hdoes : Does cs lx s c entry u) : entry.Placed tab cs lx.index where
  caret := hafter.index_eq ▸ (h.inPlace_does hafter hdoes).1.caret
  token := by
    intro t ht heof
    obtain ⟨_, k, hcourse, -, -⟩ := hdoes.of_token (Entry.token?_eq_some.mp ht)
    have hpoised := h.poised
    exact (hcourse.token_at hpoised.inPlace hpoised.keeps hpoised.noEmptyMatch rfl heof).2.2
  reports := by
    intro result hresult
    obtain ⟨_, k, hcourse, -, rfl⟩ := hdoes.of_token hresult
    have hreports := hcourse.reportsPlaced h.poised.inPlace
    rw [index_marked, ← h.ready.index_eq] at hreports
    exact hreports

/-- A token that is returned does not come before the last one. -/
theorem Tracks.le_token (h : lx.Tracks tab cs s last?) (hdoes : Does cs lx s c entry u)
    {t t' : Token} (ht : last? = some t) (ht' : entry.token? = some t') : t.caret ≤ t'.caret := by
  obtain ⟨_, k, hcourse, -, -⟩ := hdoes.of_token (Entry.token?_eq_some.mp ht')
  exact hcourse.le_token h.poised (h.lastToken?.trans ht)
    ((h.behind t ht).mono (le_refl (lx.head s).caret) id)

/-- A token that does not come before the last one may stand between it and
those that follow. -/
theorem pairwise_insert {new? : Option Token} {rest : List Token}
    (hle : ∀ t t', last? = some t → new? = some t' → t.caret ≤ t'.caret)
    (hrest : ((new?.or last?).toList ++ rest).Pairwise (·.caret ≤ ·.caret)) :
    (last?.toList ++ (new?.toList ++ rest)).Pairwise (·.caret ≤ ·.caret) := by
  cases last? with
  | none => rwa [Option.or_none] at hrest
  | some t =>
      cases new? with
      | none => exact hrest
      | some t' =>
          have hfirst := hle t t' rfl rfl
          obtain ⟨hall, -⟩ := List.pairwise_cons.mp hrest
          refine List.pairwise_cons.mpr ⟨?_, hrest⟩
          intro v hv
          rcases List.mem_cons.mp hv with rfl | hv
          · exact hfirst
          · exact le_trans hfirst (hall v hv)

theorem Tracks.trace {commands : List (Command TableRecognizer)}
    {entries : List (Entry TableRecognizer)} (htrace : Trace lx commands entries)
    (hc : ∀ c ∈ commands, c.GoesOn) (h : lx.Tracks tab cs s last?) :
    (∀ before entry after, entries = before ++ entry :: after →
        entry.Placed tab cs (Entry.last lx before).index)
      ∧ (last?.toList ++ returned entries).Pairwise (·.caret ≤ ·.caret) := by
  induction htrace generalizing s last? with
  | nil =>
      constructor
      · intro before entry after heq
        simp at heq
      · cases last? <;> simp [returned]
  | @cons lx c commands first entries hstep hrest ih =>
      obtain ⟨u, hafter, hdoes⟩ := h.ready.does (hc c (List.mem_cons_self ..)) hstep
      obtain ⟨hplaced, hordered⟩ :=
        ih (fun c hmem => hc c (List.mem_cons_of_mem _ hmem)) (h.does hafter hdoes)
      constructor
      · intro before entry after heq
        cases before with
        | nil =>
            obtain ⟨rfl, rfl⟩ := List.cons.inj heq
            exact h.placed hafter hdoes
        | cons e before =>
            obtain ⟨rfl, rfl⟩ := List.cons.inj heq
            exact hplaced before entry after rfl
      · rw [returned_cons]
        refine pairwise_insert ?_ hordered
        intro t t' ht ht'
        exact h.le_token hdoes ht ht'

/-- Every session in a text, as long as characters that are dropped on request
are tracked, shows the coordinates of the text: the lexer has the position of its
index after every command, every token but the sentinel has that of its first
character, and every report of a call that of the candidate that is given up,
with the position of the match that failed in its cause. The tokens, the
sentinel included, come in the order of their positions. -/
theorem coordinates_are_those_of_text (lx : Lexer TableRecognizer)
    (ha : lx.recognizer.automaton.NoEmptyMatch) (hc : lx.recognizer.automaton.CellsInRange)
    (htracks : lx.options.recoverTracksPosition = true) (text name : String)
    (hlength : text.length < textLimit) (commands : List (Command TableRecognizer))
    (hcommands : ∀ c ∈ commands, c.GoesOn) :
    ∃ entries, Trace (lx.attach (.ofString text name)) commands entries
      ∧ (∀ before entry after, entries = before ++ entry :: after →
          entry.Placed lx.recognizer.tab text.toList
            (Entry.last (lx.attach (.ofString text name)) before).index)
      ∧ (returned entries).Pairwise (·.caret ≤ ·.caret) := by
  rw [← String.length_toList] at hlength
  have hready := ready_attach ha hc (CharStream.shows_ofString text name) rfl hlength
  have htracks : (lx.attach (.ofString text name)).Tracks lx.recognizer.tab text.toList
      (.ofString text name) none :=
    { ready := hready
      endKnown := nofun
      lastToken? := rfl
      tracksPosition := htracks
      inPlace := ⟨CharStream.shows_ofString text name, rfl, .zero ..⟩
      behind := nofun }
  obtain ⟨entries, htrace⟩ := hready.exists_trace hcommands
  obtain ⟨hplaced, hordered⟩ := htracks.trace htrace hcommands
  exact ⟨entries, htrace, hplaced, hordered⟩

/-- A tab that is dropped on request, a character that no rule accepts, and a
quotation over the end of a line that is not closed. -/
theorem coordinates_are_those_of_text_quotation :
    ∃ entries,
      Trace (Sample.lexer Sample.quotations "a\t?b\n\"c\nd")
          [.next, .recover (.noRule {}), .next, .next, .next, .next] entries
        ∧ (∀ before entry after, entries = before ++ entry :: after →
            entry.Placed default "a\t?b\n\"c\nd".toList
              (Entry.last (Sample.lexer Sample.quotations "a\t?b\n\"c\nd") before).index)
        ∧ (returned entries).Pairwise (·.caret ≤ ·.caret) :=
  coordinates_are_those_of_text { recognizer := { automaton := Sample.quotations } } (by decide)
    (by decide) rfl "a\t?b\n\"c\nd" unknownSourceName (by decide) _
    (by simp [Command.GoesOn])

end Lexer

end ModalLexer
