import ModalLexer.Stream

/-!
# The name of a stream

A stream carries its name along and never looks at it. So whatever is done to
a stream can be done to it without its name, with the same answer and the same
stream without its name behind it.
-/

namespace ModalLexer

namespace Reader

def unnamed (r : Reader) : Reader := { r with name := "" }

theorem readMore_unnamed : ∀ (n : Nat) (r : Reader),
    r.unnamed.readMore n = (r.readMore n).unnamed
  | 0, _ => rfl
  | n + 1, r => by
      have hdecoder : r.unnamed.decoder = r.decoder := rfl
      unfold readMore
      rw [hdecoder]
      rcases r.decoder.next with ⟨_ | c, decoder⟩
      · rfl
      · exact readMore_unnamed n (r.append c decoder)

theorem fill_unnamed (r : Reader) (n : Nat) : r.unnamed.fill n = (r.fill n).unnamed :=
  readMore_unnamed ..

theorem place_unnamed (r : Reader) (markers p : Nat) (h : p ≤ r.buffer.size) :
    r.unnamed.place markers p h = (r.place markers p h).unnamed := by
  unfold place
  by_cases hm : markers = 0
  · rw [dif_pos hm, dif_pos hm]
    rfl
  · rw [dif_neg hm, dif_neg hm]
    rfl

theorem peek_unnamed (r : Reader) : r.unnamed.peek = (r.peek.1, r.peek.2.unnamed) := by
  simp only [peek, fill_unnamed]
  rfl

theorem consume_unnamed (r : Reader) : r.unnamed.consume = r.consume.unnamed := by
  unfold consume
  simp only [fill_unnamed]
  by_cases h : (r.fill 1).offset < (r.fill 1).buffer.size
  · rw [dif_pos h, dif_pos (show (r.fill 1).unnamed.offset < (r.fill 1).unnamed.buffer.size from h)]
    exact place_unnamed ..
  · rw [dif_neg h,
      dif_neg (show ¬(r.fill 1).unnamed.offset < (r.fill 1).unnamed.buffer.size from h)]

theorem advance_unnamed : ∀ (n : Nat) (r : Reader),
    r.unnamed.advance n = (r.advance n).unnamed
  | 0, _ => rfl
  | n + 1, r => by
      unfold advance
      rw [peek_unnamed]
      rcases r.peek with ⟨_ | c, r'⟩
      · rfl
      · simp only [consume_unnamed]
        exact advance_unnamed n r'.consume

theorem seek_unnamed (r : Reader) (i : Nat) : r.unnamed.seek i = (r.seek i).map unnamed := by
  unfold seek
  by_cases hbefore : i < r.bufferStart
  · rw [if_pos hbefore, if_pos (show i < r.unnamed.bufferStart from hbefore)]
    rfl
  · rw [if_neg hbefore, if_neg (show ¬i < r.unnamed.bufferStart from hbefore)]
    by_cases hkept : i ≤ r.bufferStop
    · rw [dif_pos hkept, dif_pos (show i ≤ r.unnamed.bufferStop from hkept)]
      exact congrArg Except.ok (place_unnamed ..)
    · rw [dif_neg hkept, dif_neg (show ¬i ≤ r.unnamed.bufferStop from hkept)]
      exact congrArg Except.ok (advance_unnamed ..)

theorem release_unnamed (r : Reader) (marker : Nat) :
    r.unnamed.release marker = (r.release marker).map unnamed := by
  unfold release
  by_cases hlast : marker ≠ r.markers ∨ r.markers = 0
  · rw [if_pos hlast, if_pos (show marker ≠ r.unnamed.markers ∨ r.unnamed.markers = 0 from hlast)]
    rfl
  · rw [if_neg hlast,
      if_neg (show ¬(marker ≠ r.unnamed.markers ∨ r.unnamed.markers = 0) from hlast)]
    exact congrArg some (place_unnamed ..)

end Reader

namespace CharStream

def unnamed : CharStream → CharStream
  | text s => text { s with name := "" }
  | reader r => reader r.unnamed

@[simp] theorem index_unnamed : ∀ s : CharStream, s.unnamed.index = s.index
  | text _ => rfl
  | reader _ => rfl

@[simp] theorem peek_unnamed : ∀ s : CharStream, s.unnamed.peek = (s.peek.1, s.peek.2.unnamed)
  | text _ => rfl
  | reader r => by simp only [unnamed, peek, r.peek_unnamed]

@[simp] theorem consume_unnamed : ∀ s : CharStream, s.unnamed.consume = s.consume.unnamed
  | text s => by
      simp only [unnamed, consume, TextStream.consume]
      by_cases h : s.position < s.chars.size
      · rw [dif_pos h, dif_pos h]
      · rw [dif_neg h, dif_neg h]
  | reader r => by simp only [unnamed, consume, r.consume_unnamed]

@[simp] theorem mark_unnamed : ∀ s : CharStream, s.unnamed.mark = (s.mark.1, s.mark.2.unnamed)
  | text _ => rfl
  | reader _ => rfl

@[simp] theorem slice_unnamed : ∀ (s : CharStream) (a b : Nat), s.unnamed.slice a b = s.slice a b
  | text _, _, _ => rfl
  | reader _, _, _ => rfl

@[simp] theorem stepLimit_unnamed : ∀ s : CharStream, s.unnamed.stepLimit = s.stepLimit
  | text _ => rfl
  | reader _ => rfl

theorem release_unnamed (s : CharStream) (marker : Marker) :
    s.unnamed.release marker = unnamed <$> s.release marker := by
  cases s with
  | text s => rfl
  | reader r =>
      simp only [unnamed, release, r.release_unnamed]
      cases r.release marker.depth with
      | none => rfl
      | some r' => rfl

theorem seek_unnamed (s : CharStream) (i : Nat) : s.unnamed.seek i = (s.seek i).map unnamed := by
  cases s with
  | text s => rfl
  | reader r =>
      simp only [unnamed, seek, r.seek_unnamed]
      cases r.seek i with
      | error cause => rfl
      | ok r' => rfl

/-! ## Streams that differ in their names -/

/-- The streams differ in their names at most. -/
def SameButName (s t : CharStream) : Prop := t.unnamed = s.unnamed

namespace SameButName

variable {s t : CharStream}

theorem refl (s : CharStream) : SameButName s s := rfl

theorem index (h : SameButName s t) : t.index = s.index := by
  rw [← t.index_unnamed, h, s.index_unnamed]

theorem slice (h : SameButName s t) (a b : Nat) : t.slice a b = s.slice a b := by
  rw [← t.slice_unnamed, h, s.slice_unnamed]

theorem stepLimit (h : SameButName s t) : t.stepLimit = s.stepLimit := by
  rw [← t.stepLimit_unnamed, h, s.stepLimit_unnamed]

theorem peek (h : SameButName s t) : t.peek.1 = s.peek.1 ∧ SameButName s.peek.2 t.peek.2 := by
  have hpeek := congrArg CharStream.peek h
  rw [peek_unnamed, peek_unnamed] at hpeek
  exact Prod.mk.inj hpeek

theorem consume (h : SameButName s t) : SameButName s.consume t.consume := by
  unfold SameButName
  rw [← consume_unnamed, h, consume_unnamed]

theorem mark (h : SameButName s t) : t.mark.1 = s.mark.1 ∧ SameButName s.mark.2 t.mark.2 := by
  have hmark := congrArg CharStream.mark h
  rw [mark_unnamed, mark_unnamed] at hmark
  exact Prod.mk.inj hmark

end SameButName

end CharStream

end ModalLexer
