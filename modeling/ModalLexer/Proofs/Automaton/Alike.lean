import ModalLexer.Proofs.Automaton.Turn

/-!
# Two streams over one text

A lexer learns of its stream the next character, the index, and stretches of
the text that it quotes. Two streams that show the same text at the same index
agree about all of it, as long as both of them still keep what is quoted. So a
course over the one is a course over the other, step by step: the same events,
the same state, and again two streams at the same index.
-/

namespace ModalLexer

/-! ## Streams -/

namespace CharStream

/-- Two streams stand at the same place of one text. -/
structure SamePlace (cs : List Char) (s t : CharStream) : Prop where
  left : s.Shows cs
  right : t.Shows cs
  index : t.index = s.index

namespace SamePlace

variable {cs : List Char} {s t : CharStream}

theorem peek_fst (h : SamePlace cs s t) : t.peek.1 = s.peek.1 := by
  rw [h.left.peek_fst, h.right.peek_fst, h.index]

theorem peek (h : SamePlace cs s t) : SamePlace cs s.peek.2 t.peek.2 :=
  ⟨h.left.peek, h.right.peek, by rw [index_peek, index_peek, h.index]⟩

theorem consume (h : SamePlace cs s t) : SamePlace cs s.consume t.consume where
  left := h.left.consume
  right := h.right.consume
  index := by
    have hindex := h.index
    rcases Nat.lt_or_ge s.index cs.length with hlt | hge
    · rw [h.left.index_consume_of_lt hlt, h.right.index_consume_of_lt (hindex ▸ hlt), hindex]
    · rw [h.left.index_consume_of_ge hge, h.right.index_consume_of_ge (hindex ▸ hge), hindex]

end SamePlace

/-- Two streams stand at the same place, and both keep what lies behind index
`a`. -/
structure Alike (cs : List Char) (a : Nat) (s t : CharStream) : Prop extends
    SamePlace cs s t where
  keepsLeft : s.KeepsFrom a
  keepsRight : t.KeepsFrom a

namespace Alike

variable {cs : List Char} {a : Nat} {s s' t t' : CharStream}

theorem of_advances (h : Alike cs a s t) (hplace : SamePlace cs s' t') (hs : s.Advances s')
    (ht : t.Advances t') : Alike cs a s' t' :=
  ⟨hplace, hs.keepsFrom h.keepsLeft, ht.keepsFrom h.keepsRight⟩

theorem peek (h : Alike cs a s t) : Alike cs a s.peek.2 t.peek.2 :=
  h.of_advances h.toSamePlace.peek (.peek s) (.peek t)

theorem slice (h : Alike cs a s t) {i j : Nat} (hi : a ≤ i) (hj : j ≤ s.index) :
    t.slice i j = s.slice i j := by
  rw [h.left.slice (h.keepsLeft.mono hi) hj, h.right.slice (h.keepsRight.mono hi) (h.index ▸ hj)]

theorem slice_succ (h : Alike cs a s t) {i : Nat} (hi : a ≤ i) (hs : s.KnowsNext)
    (ht : t.KnowsNext) : t.slice i (t.index + 1) = s.slice i (s.index + 1) := by
  rw [h.left.slice_succ (h.keepsLeft.mono hi) hs, h.right.slice_succ (h.keepsRight.mono hi) ht,
    h.index]

end Alike

end CharStream

open CharStream (SamePlace Alike)

/-! ## The recognizer -/

namespace TableRecognizer

variable {cs : List Char} {a : Nat} {r r' : TableRecognizer} {s s' t : CharStream}

theorem consume_samePlace (hst : SamePlace cs s t) (h : r.consume s = .ok (r', s')) :
    ∃ t', SamePlace cs s' t' ∧ r.consume t = .ok (r', t') := by
  have hfst := hst.peek_fst
  rcases consume_eq_ok h with ⟨hnone, rfl, rfl⟩ | ⟨c, p, hsome, hpass, rfl, rfl⟩
  · refine ⟨t.peek.2, hst.peek, ?_⟩
    unfold consume
    split
    · rename_i hp
      rw [hp]
    · rename_i hp
      cases (by rw [← hnone, ← hfst, hp] : some _ = none)
  · refine ⟨t.peek.2.consume, hst.peek.consume, ?_⟩
    unfold consume
    split
    · rename_i hp
      cases (by rw [← hsome, ← hfst, hp] : none = some c)
    · rename_i c' u hp
      obtain rfl : c' = c := Option.some.inj (by rw [← hsome, ← hfst, hp])
      rw [hpass, hp]
      rfl

theorem walk_alike {q : StateId} {w : Automaton.Walk} (hst : Alike cs a s t)
    (hwalk : r.automaton.walk r.tab q r.caret s = .ok w) :
    ∃ u, r.automaton.walk r.tab q r.caret t = .ok { w with stream := u }
      ∧ Alike cs a w.stream u ∧ w.stream.KnowsNext ∧ u.KnowsNext := by
  obtain ⟨u, hu, hindex⟩ := Automaton.walk_alike hst.left hst.right hst.index hwalk
  have hleft := Automaton.walk_moves CharStream.Advances.motion hwalk
  have hright : t.Advances u := Automaton.walk_moves CharStream.Advances.motion hu
  obtain ⟨-, hknows, -⟩ := Automaton.walk_stops hst.left hwalk
  obtain ⟨-, hknows', -⟩ := Automaton.walk_stops hst.right hu
  have hplace : SamePlace cs w.stream u := ⟨hleft.shows hst.left, hright.shows hst.right, hindex⟩
  exact ⟨u, hu, hst.of_advances hplace hleft hright, hknows, hknows'⟩

theorem scan_alike {mode : ModeId} {events : List Event} {found : Scan TableRecognizer}
    (hst : Alike cs a s t) (ha : a ≤ s.index)
    (hscan : r.scan s mode = { events, outcome := .ok found }) :
    ∃ u, Alike cs a found.stream u
      ∧ r.scan t mode = { events, outcome := .ok { found with stream := u } }
      ∧ ∀ finding, found.outcome = .ok finding → found.stream.KnowsNext ∧ u.KnowsNext := by
  cases scan_eq_ok.mp hscan with
  | unknown hmode => exact ⟨t, hst, scan_eq_ok.mpr (.unknown hmode), by simp⟩
  | accepted hmode hwalk hterminal =>
      obtain ⟨u, hu, halike, hknows⟩ := walk_alike hst hwalk
      have hscan' := scan_eq_ok.mpr (.accepted hmode hu hterminal)
      rw [hst.index] at hscan'
      exact ⟨u, halike, hscan', fun _ _ => hknows⟩
  | @atEnd q w hmode hwalk hterminal hend =>
      obtain ⟨u, hu, halike, hknows⟩ := walk_alike hst hwalk
      have hend' : w.char? = none ∧ u.index = t.index :=
        ⟨hend.1, by rw [halike.index, hst.index, hend.2]⟩
      have hscan' := scan_eq_ok.mpr (.atEnd hmode hu hterminal hend')
      rw [hst.index] at hscan'
      exact ⟨u, halike, hscan', fun _ _ => hknows⟩
  | @stuck q w hmode hwalk hterminal hend =>
      obtain ⟨u, hu, halike, hknows⟩ := walk_alike hst hwalk
      have hend' : ¬(w.char? = none ∧ u.index = t.index) := by
        rwa [halike.index, hst.index]
      have hscan' := scan_eq_ok.mpr (.stuck hmode hu hterminal hend')
      have hsite : r.errorSite mode t.index { w with stream := u }
          = r.errorSite mode s.index w := by
        simp only [errorSite, hst.index, halike.index, halike.slice ha (Nat.le_refl _)]
      rw [hsite, hst.index] at hscan'
      exact ⟨u, halike, hscan', fun _ _ => hknows⟩

end TableRecognizer

/-! ## The lexer -/

namespace Head

/-- The head at another stream. -/
def reading {ρ : Type} (h : Head ρ) (t : CharStream) : Head ρ := { h with stream := t }

variable {cs : List Char} {a : Nat} {t : CharStream} {reporter : Reporter}
  {h h' : Head TableRecognizer} {events : List Event}

theorem quote_alike (hst : Alike cs a h.stream t) {start : Start} (ha : a ≤ start.index)
    (hs : h.stream.KnowsNext) (ht : t.KnowsNext) :
    ∃ u, Alike cs a (h.quote start).2.stream u
      ∧ (h.reading t).quote start = ((h.quote start).1, (h.quote start).2.reading u) := by
  have hslice : (h.reading t).stream.slice start.index ((h.reading t).index + 1)
      = h.stream.slice start.index (h.index + 1) := hst.slice_succ ha hs ht
  have hfst : (h.reading t).stream.peek.1 = h.stream.peek.1 := hst.peek_fst
  rw [quote_eq, quote_eq (h.reading t), hslice, hfst]
  by_cases hempty : (h.stream.slice start.index (h.index + 1)).isEmpty = true
  · rw [if_pos hempty, if_pos hempty]
    exact ⟨_, hst.peek, rfl⟩
  · rw [if_neg hempty, if_neg hempty]
    exact ⟨t, hst, rfl⟩

theorem dropChar_alike (hst : Alike cs a h.stream t) {e : RecognitionError}
    (hdrop : h.dropChar e = { events, outcome := .ok h' }) :
    ∃ u, Alike cs a h'.stream u
      ∧ (h.reading t).dropChar e = { events, outcome := .ok (h'.reading u) } := by
  have hfst := hst.toSamePlace.peek_fst
  rcases dropChar_eq_ok.mp hdrop with ⟨hnone, rfl, rfl⟩ | ⟨c, r, s, hsome, rfl, hconsume, rfl⟩
  · exact ⟨_, hst.peek, dropChar_eq_ok.mpr (.inl ⟨hfst.trans hnone, rfl, rfl⟩)⟩
  · obtain ⟨u, hplace, hu⟩ := TableRecognizer.consume_samePlace hst.toSamePlace.peek hconsume
    have hmoves := TableRecognizer.advances
    exact ⟨u, hst.peek.of_advances hplace (hmoves.consume hconsume) (hmoves.consume hu),
      dropChar_eq_ok.mpr (.inr ⟨c, r, u, hfst.trans hsome, rfl, hu, rfl⟩)⟩

theorem settle_alike (hst : Alike cs a h.stream t) {start : Start}
    (hbegan : h.state.candidate.start? = some start) (ha : a ≤ start.index)
    (hs : h.stream.KnowsNext) (ht : t.KnowsNext) {finding : Finding} {matched : TokenType}
    (hsettle : h.settle reporter finding = { events, outcome := .ok (h', matched) }) :
    ∃ u, Alike cs a h'.stream u
      ∧ (h.reading t).settle reporter finding
        = { events, outcome := .ok (h'.reading u, matched) } := by
  cases finding with
  | matched type =>
      obtain ⟨rfl, rfl, rfl⟩ := settle_matched_eq_ok.mp hsettle
      exact ⟨t, hst, rfl⟩
  | noRule site =>
      obtain ⟨before, h₁, after, hreport, hdrop, rfl, rfl⟩ := settle_noRule_eq_ok.mp hsettle
      rw [report_eq, hbegan] at hreport
      obtain ⟨rfl, hok⟩ := Run.mk.inj hreport
      obtain rfl := Except.ok.inj hok
      obtain ⟨v, halike, hquote⟩ := quote_alike hst ha hs ht
      obtain ⟨u, halike', hdrop'⟩ := dropChar_alike halike hdrop
      refine ⟨u, halike', settle_noRule_eq_ok.mpr ⟨_, _, after, ?_, hdrop', rfl, rfl⟩⟩
      have hbegan' : (h.reading t).state.candidate.start? = some start := hbegan
      rw [report_eq, hbegan', Option.getD_some, hquote]
      rfl

theorem matchToken_alike (hst : Alike cs a h.stream t) (ha : a ≤ h.index) {mode : ModeId}
    {found : Except LexerError Finding}
    (hmatch : h.matchToken mode = { events, outcome := .ok (h', found) }) :
    ∃ u, Alike cs a h'.stream u
      ∧ (h.reading t).matchToken mode = { events, outcome := .ok (h'.reading u, found) }
      ∧ ∀ finding, found = .ok finding → h'.stream.KnowsNext ∧ u.KnowsNext := by
  obtain ⟨before, after, scan, state, failure, hscan, hperform, rfl, rfl, rfl⟩ :=
    matchToken_eq_ok.mp hmatch
  obtain ⟨u, halike, hscan', hknows⟩ := TableRecognizer.scan_alike hst ha hscan
  refine ⟨u, halike,
    matchToken_eq_ok.mpr ⟨before, after, _, state, failure, hscan', hperform, rfl, rfl, rfl⟩, ?_⟩
  intro finding hfinding
  cases failure with
  | none => exact hknows finding hfinding
  | some e => cases hfinding

theorem Turn.alike (hst : Alike cs a h.stream t) {start : Start}
    (hbegan : h.state.candidate.start? = some start) (ha : a ≤ start.index)
    (hle : start.index ≤ h.index) {decision : Except LexerError TokenType}
    (hturn : h.Turn reporter events h' decision) :
    ∃ u, Alike cs a h'.stream u ∧ (h.reading t).Turn reporter events (h'.reading u) decision := by
  cases hturn with
  | stopped hmatch =>
      obtain ⟨u, halike, hmatch', -⟩ :=
        matchToken_alike (h := h.undecided) hst (Nat.le_trans ha hle) hmatch
      exact ⟨u, halike, .stopped hmatch'⟩
  | @decided before after h₁ h₂ _ outcome matched final hmatch hsettle hfinal =>
      obtain ⟨u, halike, hmatch', hknows⟩ :=
        matchToken_alike (h := h.undecided) hst (Nat.le_trans ha hle) hmatch
      obtain ⟨hs, hu⟩ := hknows outcome rfl
      have hbegan₁ : h₁.state.candidate.start? = some start :=
        (start?_of_matchToken (h := h.undecided) hmatch).trans hbegan
      have hrefuse : (h₁.reading u).refuseEofText h.state.mode outcome
          = h₁.refuseEofText h.state.mode outcome := by
        have hbegan' : (h₁.reading u).state.candidate.start? = some start := hbegan₁
        have hindex : (h₁.reading u).index = h₁.index := halike.index
        have hslice : (h₁.reading u).stream.slice start.index h₁.index
            = h₁.stream.slice start.index h₁.index := halike.slice ha (Nat.le_refl _)
        rw [refuseEofText_eq hbegan₁, refuseEofText_eq hbegan', hindex, hslice]
      obtain ⟨v, halike', hsettle'⟩ := settle_alike halike hbegan₁ ha hs hu hsettle
      obtain ⟨rfl, rfl⟩ := Prod.mk.inj hfinal
      refine ⟨v.peek.2, ?_, ?_⟩
      · simp only [noteEof_eq]
        exact halike'.peek
      · have hindex : v.peek.2.index = h₂.stream.peek.2.index := halike'.peek.index
        have hturn' := Turn.decided (h := h.reading t) hmatch' (hrefuse.symm ▸ hsettle') rfl
        simp only [noteEof_eq, reading, Head.index, halike'.peek_fst, hindex] at hturn' ⊢
        exact hturn'

theorem Assembles.alike (hst : Alike cs a h.stream t) {start : Start}
    (hbegan : h.state.candidate.start? = some start) (ha : a ≤ start.index)
    (hle : start.index ≤ h.index) {decision : Except LexerError TokenType}
    (hcandidate : h.Assembles reporter events h' decision) :
    ∃ u, Alike cs a h'.stream u
      ∧ (h.reading t).Assembles reporter events (h'.reading u) decision := by
  induction hcandidate generalizing t with
  | last hturn hlast =>
      obtain ⟨u, halike, hturn'⟩ := hturn.alike hst hbegan ha hle
      exact ⟨u, halike, .last hturn' hlast⟩
  | more hturn _ ih =>
      obtain ⟨u, halike, hturn'⟩ := hturn.alike hst hbegan ha hle
      have hadv := hturn.moves CharStream.Advances.motion TableRecognizer.advances
      obtain ⟨v, halike', hrest'⟩ :=
        ih halike (hturn.start?_eq.trans hbegan) (Nat.le_trans hle hadv.index_le)
      exact ⟨v, halike', .more hturn' hrest'⟩

theorem begun_reading (hindex : t.index = h.index) : (h.reading t).begun = h.begun.reading t := by
  simp only [begun, here, reading, Head.index, hindex, Head.caret]

theorem Assembles.alike_begun {decision : Except LexerError TokenType}
    (hcandidate : h.begun.Assembles reporter events h' decision)
    (hst : Alike cs a h.stream t) (ha : a ≤ h.index) :
    ∃ u, Alike cs a h'.stream u
      ∧ (h.reading t).begun.Assembles reporter events (h'.reading u) decision := by
  have hbegan : h.begun.state.candidate.start? = some h.here := rfl
  rw [begun_reading hst.index]
  exact Assembles.alike (h := h.begun) hst hbegan ha (Nat.le_refl _) hcandidate

theorem giveEof_reading (hindex : t.index = h.index) {source : Source} {tok : Token}
    (hgive : h.giveEof source = .ok (h', tok)) :
    (h.reading t).giveEof source = .ok (h'.reading t, tok) := by
  obtain ⟨heof, rfl⟩ := giveEof_eq_ok hgive
  have hsame : (h.reading t).eofToken source = h.eofToken source := by
    simp only [eofToken, eofColumn, reading, Head.index, hindex, Head.caret]
  rw [giveEof, hsame, heof]
  rfl

theorem complete_alike (hst : Alike cs a h.stream t) {start : Start} {source : Source}
    {type : TokenId} {tok : Token} (hcomplete : h.complete source start type = .ok (h', tok))
    (ha : a ≤ start.index) :
    h'.stream = h.stream ∧ (h.reading t).complete source start type = .ok (h'.reading t, tok) := by
  obtain ⟨rfl, -⟩ := complete_eq_ok hcomplete
  refine ⟨rfl, ?_⟩
  have hslice : t.slice start.index h.stream.index = h.stream.slice start.index h.stream.index :=
    hst.slice ha (Nat.le_refl _)
  have htoken : (h.reading t).tokenAt source start type = h.tokenAt source start type := by
    simp only [tokenAt, reading, Head.index, hst.index, hslice]
  unfold complete at hcomplete ⊢
  split at hcomplete
  · rename_i tok' htok
    obtain ⟨-, rfl⟩ := Prod.mk.inj (Except.ok.inj hcomplete)
    simp only [reading, htok]
    rfl
  · rename_i hnone
    simp only [reading, hnone]
    split at hcomplete
    · rename_i htype
      rw [if_pos htype]
      exact giveEof_reading hst.index hcomplete
    · rename_i htype
      obtain ⟨-, rfl⟩ := Prod.mk.inj (Except.ok.inj hcomplete)
      rw [if_neg htype]
      exact congrArg (fun tok => Except.ok ((h.reading t).give tok, tok)) htoken

theorem Produces.alike (hst : Alike cs a h.stream t) (ha : a ≤ h.index)
    {result : Except LexerError Token} (hcall : h.Produces reporter events h' result) :
    ∃ u, Alike cs a h'.stream u
      ∧ (h.reading t).Produces reporter events (h'.reading u) result := by
  induction hcall generalizing t with
  | sentinel heof hgive =>
      have hgive' := giveEof_reading hst.index hgive
      obtain ⟨-, rfl⟩ := giveEof_eq_ok hgive
      exact ⟨t, hst, .sentinel heof hgive'⟩
  | @broken h h' events e heof hcandidate =>
      obtain ⟨u, halike, hcandidate'⟩ := hcandidate.alike_begun hst ha
      exact ⟨u, halike, .broken heof hcandidate'⟩
  | @completed h h₁ h' events type tok heof hcandidate hcomplete =>
      obtain ⟨u, halike, hcandidate'⟩ := hcandidate.alike_begun hst ha
      obtain ⟨hstream, hcomplete'⟩ := complete_alike halike hcomplete ha
      refine ⟨u, hstream ▸ halike, .completed heof hcandidate' ?_⟩
      have hhere : (h.reading t).here = h.here := by
        simp only [here, reading, Head.index, hst.index, Head.caret]
      rwa [hhere]
  | @discarded h h₁ h' before after result heof hcandidate hrest ih =>
      obtain ⟨u, halike, hcandidate'⟩ := hcandidate.alike_begun hst ha
      have hadv := hcandidate.moves CharStream.Advances.motion TableRecognizer.advances
      obtain ⟨v, halike', hrest'⟩ := ih halike (Nat.le_trans ha hadv.index_le)
      exact ⟨v, halike', .discarded heof hcandidate' hrest'⟩

end Head

end ModalLexer
