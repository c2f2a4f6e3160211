import ModalLexer.Proofs.Stream.View

/-!
# Moving over a stream

What a recognizer may do to its stream: go on in the same text, keep what is
to be kept and leave the markers in order. `Advances` says this of a stream
before and after, and every move that does not go back is one: looking ahead,
consuming, seeking an index that has not been passed, and anything between a
mark and its release.

A `Motion` is a relation that peeking and consuming, the two moves of a lexer
itself, stay within. What is proved of every motion holds of `Advances`, and
of relations that a farther look ahead would break.
-/

namespace ModalLexer

namespace CharStream

/-- The second stream is the first one moved forward. -/
structure Advances (s t : CharStream) : Prop where
  shows : ∀ {cs : List Char}, s.Shows cs → t.Shows cs
  index_le : s.index ≤ t.index
  keepsFrom : ∀ {a : Nat}, s.KeepsFrom a → t.KeepsFrom a
  /-- Markers are neither handed out nor taken back. -/
  outstanding_eq : t.outstanding = s.outstanding

/-- A relation that peeking and consuming stay within. -/
structure Motion (M : CharStream → CharStream → Prop) : Prop where
  refl : ∀ s, M s s
  trans : ∀ {s t u}, M s t → M t u → M s u
  peek : ∀ s, M s s.peek.2
  consume : ∀ s, M s s.consume

/-- A reader answers a look ahead from the text it shows. -/
theorem lookahead_reader {r : Reader} {i : Nat} {c? : Option Char} {t : CharStream} :
    (reader r).lookahead i = .ok (c?, t) ↔ (i ≠ 0 ∧ r.offset + i < Checked.unsignedLimit)
      ∧ c? = r.chars[r.offset + i - 1]? ∧ t = reader (r.fill i) := by
  rw [CharStream.lookahead, Checked.bind_eq_ok]
  constructor
  · rintro ⟨⟨c?', r'⟩, hr, heq⟩
    obtain ⟨hin, rfl, rfl⟩ := r.lookahead_eq_ok.mp hr
    obtain ⟨rfl, rfl⟩ := Prod.mk.inj (Except.ok.inj heq)
    exact ⟨hin, rfl, rfl⟩
  · rintro ⟨hin, rfl, rfl⟩
    exact ⟨_, r.lookahead_eq_ok.mpr ⟨hin, rfl, rfl⟩, rfl⟩

/-! ## The single moves -/

namespace Advances

variable {s t u : CharStream}

theorem refl (s : CharStream) : s.Advances s := ⟨id, Nat.le_refl _, id, rfl⟩

theorem trans (hst : s.Advances t) (htu : t.Advances u) : s.Advances u where
  shows hs := htu.shows (hst.shows hs)
  index_le := Nat.le_trans hst.index_le htu.index_le
  keepsFrom hs := htu.keepsFrom (hst.keepsFrom hs)
  outstanding_eq := htu.outstanding_eq.trans hst.outstanding_eq

/-- Reading ahead changes the buffer and nothing that could be seen. -/
theorem fill (r : Reader) (n : Nat) : (reader r).Advances (reader (r.fill n)) where
  shows hs := hs.fill n
  index_le := by simp [index]
  keepsFrom hs := by simpa [KeepsFrom] using hs
  outstanding_eq := by simp [outstanding]

theorem peek : ∀ s : CharStream, s.Advances s.peek.2
  | text s => refl (text s)
  | reader r => by
      simp only [CharStream.peek, r.peek_eq]
      exact fill r 1

theorem of_peek_eq {c? : Option Char} (h : s.peek = (c?, t)) : s.Advances t := by
  have hpeek := peek s
  rwa [h] at hpeek

theorem consume (s : CharStream) : s.Advances s.consume where
  shows hs := hs.consume
  index_le := by
    obtain ⟨cs, hs⟩ := s.exists_shows
    rcases Nat.lt_or_ge s.index cs.length with hlt | hge
    · rw [hs.index_consume_of_lt hlt]
      exact Nat.le_succ _
    · exact Nat.le_of_eq (hs.index_consume_of_ge hge).symm
  keepsFrom hs := hs.consume
  outstanding_eq := outstanding_consume s

theorem motion : Motion Advances where
  refl := refl
  trans := trans
  peek := peek
  consume := consume

/-- A look ahead at any distance. -/
theorem lookahead {i : Nat} {c? : Option Char} (h : s.lookahead i = .ok (c?, t)) :
    s.Advances t := by
  cases s with
  | text s =>
      obtain ⟨c, -, heq⟩ := Checked.bind_eq_ok.mp h
      obtain ⟨-, rfl⟩ := Prod.mk.inj (Except.ok.inj heq)
      exact refl _
  | reader r =>
      obtain ⟨-, -, rfl⟩ := lookahead_reader.mp h
      exact fill r i

/-- Placing a reader within its buffer, with as many markers as before. -/
theorem place {r : Reader} {p : Nat} (h : p ≤ r.buffer.size) (hle : r.offset ≤ p) :
    (reader r).Advances (reader (r.place r.markers p h)) where
  shows hs := hs.place h
  index_le := by
    simp only [index, Reader.index_place]
    exact Nat.add_le_add_left hle _
  keepsFrom := by
    rintro a ⟨hstart, hmark⟩
    refine ⟨?_, by simpa using hmark⟩
    rw [Reader.bufferStart_place, if_neg (Nat.ne_of_gt hmark)]
    exact hstart
  outstanding_eq := by simp [outstanding]

theorem advance : ∀ (n : Nat) (r : Reader), (reader r).Advances (reader (r.advance n))
  | 0, r => refl (reader r)
  | n + 1, r => by
      have hpeek := peek (reader r)
      rw [Reader.advance]
      rcases hp : r.peek with ⟨_ | c, r'⟩
      · simpa [CharStream.peek, hp] using hpeek
      · have hfirst : (reader r).Advances (reader r') := by
          simpa [CharStream.peek, hp] using hpeek
        exact hfirst.trans ((consume (reader r')).trans (advance n r'.consume))

/-- Seeking an index that has not been passed. -/
theorem seek {i : Nat} (hle : s.index ≤ i) (h : s.seek i = .ok t) : s.Advances t := by
  cases s with
  | text s =>
      obtain rfl := Except.ok.inj h
      exact ⟨id, Nat.le_min.mpr ⟨hle, s.position_le⟩, id, rfl⟩
  | reader r =>
      simp only [index, Reader.index] at hle
      simp only [CharStream.seek, Reader.seek] at h
      split at h
      · cases h
      · split at h
        · obtain rfl := Except.ok.inj h
          exact place _ (by omega)
        · obtain rfl := Except.ok.inj h
          exact advance _ r

end Advances

/-- What was read since a mark can be quoted, and was to come at the mark. -/
theorem slice_marked {s t : CharStream} {a : Nat} (hadv : s.mark.2.Advances t)
    (hle : s.index ≤ a) :
    t.slice a t.index
      = String.ofList (s.drain.1.extract (a - s.index) (t.index - s.index)) := by
  obtain ⟨cs, hs⟩ := s.exists_shows
  have hkeep := (hadv.keepsFrom s.keepsFrom_mark).mono hle
  rw [(hadv.shows hs.mark).slice hkeep (Nat.le_refl _), hs.drain, List.extract_eq_take_drop,
    List.extract_eq_take_drop, List.drop_drop, Nat.add_sub_cancel' hle]
  congr 2
  omega

/-- Peeking and consuming never read more than one character ahead. -/
theorem motion_readsOneAhead : Motion fun s t => s.ReadsOneAhead → t.ReadsOneAhead where
  refl _ := id
  trans hst htu := htu ∘ hst
  peek _ := ReadsOneAhead.peek
  consume _ := ReadsOneAhead.consume

end CharStream

end ModalLexer
