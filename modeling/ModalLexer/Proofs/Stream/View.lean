import ModalLexer.Proofs.Stream.Delivery

/-!
# What a stream shows

The two kinds of stream are compared, and everything else about them is said,
through one view: a stream *shows* a text if that text can be what it reads
from, and stands at an index in it. For a text stream there is one such text;
what a reader has dropped already may have been anything. Looking ahead does
not change the view, and consuming moves the index on by one until the end.

A reader shows more than it can still quote. `KeepsFrom` says from which index
on the characters are there to be quoted, and is kept as long as the marker
that it counts is outstanding.
-/

namespace ModalLexer

/-! ## Readers in place -/

namespace Reader

theorem chars_place {r : Reader} {markers p : Nat} (h : p ≤ r.buffer.size) :
    (r.place markers p h).chars = if markers = 0 then r.chars.drop p else r.chars := by
  unfold place
  split
  · simp only [chars, Array.toList_extract, List.extract_eq_take_drop]
    rw [List.drop_append_of_le_length (by simpa using h), List.take_of_length_le (by simp)]
  · rfl

theorem bufferStart_place {r : Reader} {markers p : Nat} (h : p ≤ r.buffer.size) :
    (r.place markers p h).bufferStart
      = if markers = 0 then r.bufferStart + p else r.bufferStart := by
  unfold place
  split <;> rfl

@[simp] theorem index_place {r : Reader} {markers p : Nat} (h : p ≤ r.buffer.size) :
    (r.place markers p h).index = r.bufferStart + p := by
  unfold place index
  split <;> rfl

@[simp] theorem decoder_place {r : Reader} {markers p : Nat} (h : p ≤ r.buffer.size) :
    (r.place markers p h).decoder = r.decoder := by
  unfold place
  split <;> rfl

@[simp] theorem markers_place {r : Reader} {markers p : Nat} (h : p ≤ r.buffer.size) :
    (r.place markers p h).markers = markers := by
  unfold place
  split <;> rfl

end Reader

namespace CharStream

/-- `cs` can be the text the stream reads from: all of it for a text, and for
a reader from the beginning of its buffer on. -/
def Shows : CharStream → List Char → Prop
  | text s, cs => s.chars.toList = cs
  | reader r, cs => r.bufferStart ≤ cs.length ∧ cs.drop r.bufferStart = r.chars

/-- The characters from index `a` on can be quoted as far as they have been
read, and a marker sees to it that this stays so. -/
def KeepsFrom : CharStream → Nat → Prop
  | text _, _ => True
  | reader r, a => r.bufferStart ≤ a ∧ 0 < r.markers

/-- Number of markers that have not been given back, for the kind of stream
that counts them. -/
def outstanding : CharStream → Option Nat
  | text _ => none
  | reader r => some r.markers

/-- At most one character has been read ahead of the current index. -/
def ReadsOneAhead : CharStream → Prop
  | text _ => True
  | reader r => r.buffer.size ≤ r.offset + 1

/-- The next character has been read, unless there is none. -/
def KnowsNext : CharStream → Prop
  | text _ => True
  | reader r => min (r.offset + 1) r.chars.length ≤ r.buffer.size

/-! ## The view -/

/-- Every stream shows some text. -/
theorem exists_shows : ∀ s : CharStream, ∃ cs, s.Shows cs
  | text s => ⟨s.chars.toList, rfl⟩
  | reader r => by
      refine ⟨List.replicate r.bufferStart ' ' ++ r.chars, ?_, ?_⟩
      · simp
      · rw [List.drop_append_of_le_length (by simp), List.drop_of_length_le (by simp)]
        rfl

theorem shows_ofString (text name : String) : (ofString text name).Shows text.toList := rfl

theorem shows_ofList (cs : List Char) (name : String) :
    (ofString (String.ofList cs) name).Shows cs := by
  simpa using shows_ofString (String.ofList cs) name

theorem shows_reader {r : Reader} (h : r.index = 0) : (reader r).Shows r.chars := by
  have hstart : r.bufferStart = 0 := Nat.eq_zero_of_add_eq_zero_right h
  exact ⟨hstart ▸ Nat.zero_le _, by rw [hstart, List.drop_zero]⟩

theorem Shows.index_le {cs : List Char} : ∀ {s : CharStream}, s.Shows cs → s.index ≤ cs.length
  | text s, h => by
      rw [← show s.chars.toList = cs from h, Array.length_toList]
      exact s.position_le
  | reader r, ⟨hstart, hchars⟩ => by
      have hlen := congrArg List.length hchars
      have hsize := r.size_le_length_chars
      have hoff := r.offset_le
      rw [List.length_drop] at hlen
      simp only [index, Reader.index]
      omega

theorem Shows.peek_fst {cs : List Char} :
    ∀ {s : CharStream}, s.Shows cs → s.peek.1 = cs[s.index]?
  | text s, h => by
      rw [← show s.chars.toList = cs from h]
      simp [peek, TextStream.peek?, index]
  | reader r, ⟨_, hchars⟩ => by
      simp only [peek, r.peek_eq, index, Reader.index, ← hchars, List.getElem?_drop]

/-- Reading ahead does not change what is shown. -/
theorem Shows.fill {r : Reader} {cs : List Char} (h : (reader r).Shows cs) (n : Nat) :
    (reader (r.fill n)).Shows cs := by simpa [Shows] using h

/-- Wherever a reader is placed within its buffer, it shows the same text. -/
theorem Shows.place {r : Reader} {cs : List Char} {markers p : Nat} (h : (reader r).Shows cs)
    (hp : p ≤ r.buffer.size) : (reader (r.place markers p hp)).Shows cs := by
  obtain ⟨hstart, hchars⟩ := h
  have hlen := congrArg List.length hchars
  have hsize := r.size_le_length_chars
  rw [List.length_drop] at hlen
  simp only [Shows, Reader.bufferStart_place, Reader.chars_place]
  split
  · exact ⟨by omega, by rw [← List.drop_drop, hchars]⟩
  · exact ⟨hstart, hchars⟩

theorem Shows.peek {cs : List Char} : ∀ {s : CharStream}, s.Shows cs → s.peek.2.Shows cs
  | text _, h => h
  | reader r, h => by
      simp only [CharStream.peek, r.peek_eq]
      exact h.fill 1

@[simp] theorem index_peek : ∀ s : CharStream, s.peek.2.index = s.index
  | text _ => rfl
  | reader r => by simp [peek, r.peek_eq, index]

/-- Where the next character stands in the buffer of a reader. -/
theorem Shows.index_lt_iff {r : Reader} {cs : List Char} (h : (reader r).Shows cs) :
    r.offset < r.chars.length ↔ r.index < cs.length := by
  have hlen := congrArg List.length h.2
  have hle := h.1
  rw [List.length_drop] at hlen
  simp only [Reader.index]
  omega

/-- Consuming at the end does nothing but find out that there is no more. -/
theorem consume_reader {r : Reader} :
    r.consume = if h : r.offset < (r.fill 1).buffer.size
      then (r.fill 1).place r.markers (r.offset + 1) h else r.fill 1 := by
  unfold Reader.consume
  simp only [Reader.offset_fill, Reader.markers_fill]

/-- The next character is in the buffer after a look at it. -/
theorem offset_lt_size_fill_one {r : Reader} :
    r.offset < (r.fill 1).buffer.size ↔ r.offset < r.chars.length := by
  have hsize := r.size_fill 1
  have hle := r.size_le_length_chars
  omega

theorem Shows.consume {cs : List Char} : ∀ {s : CharStream}, s.Shows cs → s.consume.Shows cs
  | text s, h => by
      simp only [CharStream.consume, TextStream.consume]
      split <;> exact h
  | reader r, h => by
      simp only [CharStream.consume, consume_reader]
      split
      · exact (h.fill 1).place _
      · exact h.fill 1

theorem Shows.index_consume_of_lt {cs : List Char} : ∀ {s : CharStream}, s.Shows cs →
    s.index < cs.length → s.consume.index = s.index + 1
  | text s, h, hlt => by
      rw [← show s.chars.toList = cs from h, Array.length_toList] at hlt
      have hpos : s.position < s.chars.size := hlt
      simp only [CharStream.consume, TextStream.consume, dif_pos hpos]
      rfl
  | reader r, h, hlt => by
      have hin := offset_lt_size_fill_one.mpr (h.index_lt_iff.mpr hlt)
      simp only [CharStream.consume, consume_reader, dif_pos hin]
      change ((r.fill 1).place r.markers (r.offset + 1) hin).index = r.index + 1
      rw [Reader.index_place, Reader.bufferStart_fill]
      rfl

theorem Shows.index_consume_of_ge {cs : List Char} : ∀ {s : CharStream}, s.Shows cs →
    cs.length ≤ s.index → s.consume.index = s.index
  | text s, h, hge => by
      rw [← show s.chars.toList = cs from h, Array.length_toList] at hge
      have hpos : ¬s.position < s.chars.size := Nat.not_lt.mpr hge
      simp only [CharStream.consume, TextStream.consume, dif_neg hpos]
  | reader r, h, hge => by
      have hin : ¬r.offset < (r.fill 1).buffer.size := fun hlt =>
        Nat.not_lt.mpr hge (h.index_lt_iff.mp (offset_lt_size_fill_one.mp hlt))
      simp only [CharStream.consume, consume_reader, dif_neg hin]
      exact r.index_fill 1

/-- Consuming moves on by one character if there is one. -/
theorem Shows.index_consume {s : CharStream} {cs : List Char} (h : s.Shows cs) :
    s.consume.index = if s.index < cs.length then s.index + 1 else s.index := by
  split
  · rename_i hlt
    exact h.index_consume_of_lt hlt
  · rename_i hge
    exact h.index_consume_of_ge (Nat.le_of_not_lt hge)

/-! ## What is kept -/

theorem KeepsFrom.consume {a : Nat} : ∀ {s : CharStream}, s.KeepsFrom a → s.consume.KeepsFrom a
  | text _, _ => trivial
  | reader r, ⟨hstart, hmark⟩ => by
      simp only [CharStream.consume, consume_reader]
      split
      · refine ⟨?_, by simpa using hmark⟩
        rw [Reader.bufferStart_place, if_neg (Nat.ne_of_gt hmark), Reader.bufferStart_fill]
        exact hstart
      · exact ⟨by simpa using hstart, by simpa using hmark⟩

@[simp] theorem outstanding_peek : ∀ s : CharStream, s.peek.2.outstanding = s.outstanding
  | text _ => rfl
  | reader r => by simp [peek, r.peek_eq, outstanding]

@[simp] theorem outstanding_consume : ∀ s : CharStream, s.consume.outstanding = s.outstanding
  | text _ => rfl
  | reader r => by
      simp only [CharStream.consume, consume_reader, outstanding]
      split <;> simp

/-- A text can always be quoted. -/
theorem slice_text {t : TextStream} {cs : List Char} (h : (text t).Shows cs) (a b : Nat) :
    (text t).slice a b = String.ofList (cs.extract a b) := by
  rw [← show t.chars.toList = cs from h]
  simp only [CharStream.slice, TextStream.slice, Array.toList_extract]

/-- A quotation of characters that are kept and have been read is exact. -/
theorem slice_reader {r : Reader} {cs : List Char} {a b : Nat}
    (h : (reader r).Shows cs) (ha : r.bufferStart ≤ a)
    (hb : b ≤ r.bufferStart + r.buffer.size ∨ r.buffer.size = r.chars.length) :
    (reader r).slice a b = String.ofList (cs.extract a b) := by
  have htake : r.chars.take (b - r.bufferStart) = r.buffer.toList.take (b - r.bufferStart) := by
    rcases hb with hb | hb
    · exact List.take_append_of_le_length (by rw [Array.length_toList]; omega)
    · have hnone : r.decoder.delivered = [] := by
        have hlen : r.chars.length = r.buffer.size + r.decoder.delivered.length := by
          simp [Reader.chars]
        exact List.eq_nil_of_length_eq_zero (by omega)
      rw [Reader.chars, hnone, List.append_nil]
  have hdrop : cs.drop a = r.chars.drop (a - r.bufferStart) := by
    rw [← h.2, List.drop_drop, Nat.add_sub_cancel' ha]
  have hsub : b - r.bufferStart - (a - r.bufferStart) = b - a := by omega
  simp only [CharStream.slice, Reader.slice, Array.toList_extract]
  rw [List.extract_eq_take_drop, List.extract_eq_take_drop, hdrop, ← hsub,
    ← List.extract_eq_take_drop, ← List.extract_eq_take_drop, List.extract_eq_drop_take',
    List.extract_eq_drop_take', htake]

theorem Shows.slice {cs : List Char} {a b : Nat} : ∀ {s : CharStream}, s.Shows cs →
    s.KeepsFrom a → b ≤ s.index → s.slice a b = String.ofList (cs.extract a b)
  | text _, h, _, _ => slice_text h a b
  | reader r, h, hkeep, hb => by
      refine slice_reader h hkeep.1 (.inl (Nat.le_trans hb ?_))
      exact Nat.add_le_add_left r.offset_le _

/-- Without a marker nothing in front of the current index can be quoted. -/
theorem slice_of_unmarked {a : Nat} : ∀ {s : CharStream}, s.outstanding = some 0 →
    s.slice a s.index = ""
  | reader r, h => by
      have hoffset := r.offset_eq_zero (Option.some.inj h)
      simp [slice, Reader.slice, index, Reader.index, hoffset]

theorem keepsFrom_index : ∀ {s : CharStream}, s.outstanding ≠ some 0 → s.KeepsFrom s.index
  | text _, _ => trivial
  | reader _, h => ⟨Nat.le_add_right .., Nat.pos_of_ne_zero fun hzero => h (congrArg some hzero)⟩

/-- A quotation may go one character further once that character is known. -/
theorem Shows.slice_succ {cs : List Char} {a : Nat} : ∀ {s : CharStream}, s.Shows cs →
    s.KeepsFrom a → s.KnowsNext →
      s.slice a (s.index + 1) = String.ofList (cs.extract a (s.index + 1))
  | text _, h, _, _ => slice_text h a _
  | reader r, h, hkeep, hnext => by
      refine slice_reader h hkeep.1 ?_
      have hoff := r.offset_le
      have hsize := r.size_le_length_chars
      simp only [KnowsNext] at hnext
      simp only [index, Reader.index]
      omega

theorem knowsNext_peek : ∀ s : CharStream, s.peek.2.KnowsNext
  | text _ => trivial
  | reader r => by
      simp only [peek, r.peek_eq, KnowsNext, Reader.offset_fill, Reader.chars_fill, r.size_fill]
      omega

/-- What a look at the next character tells, and what it leaves. -/
theorem Shows.of_peek_eq {cs : List Char} {s t : CharStream} {c? : Option Char}
    (h : s.Shows cs) (hp : s.peek = (c?, t)) :
    c? = cs[s.index]? ∧ t.Shows cs ∧ t.index = s.index ∧ t.KnowsNext := by
  have hshows := h.peek
  have hindex := s.index_peek
  have hknows := s.knowsNext_peek
  rw [← h.peek_fst]
  rw [hp] at hshows hindex hknows ⊢
  exact ⟨rfl, hshows, hindex, hknows⟩

/-! ## Reading ahead by one -/

theorem ReadsOneAhead.peek : ∀ {s : CharStream}, s.ReadsOneAhead → s.peek.2.ReadsOneAhead
  | text _, _ => trivial
  | reader r, h => by
      simp only [ReadsOneAhead] at h
      simp only [CharStream.peek, r.peek_eq, ReadsOneAhead, Reader.offset_fill, r.size_fill]
      omega

theorem ReadsOneAhead.consume : ∀ {s : CharStream}, s.ReadsOneAhead → s.consume.ReadsOneAhead
  | text _, _ => trivial
  | reader r, h => by
      have hsize := r.size_fill 1
      simp only [ReadsOneAhead] at h
      simp only [CharStream.consume, consume_reader]
      split
      · simp only [ReadsOneAhead, Reader.place]
        split
        · simp only [Array.size_extract]
          omega
        · simp only
          omega
      · simp only [ReadsOneAhead, Reader.offset_fill]
        omega

/-! ## Markers -/

/-- A mark changes nothing but the number of markers; from then on the
characters from the current index on are kept. -/
theorem Shows.mark {cs : List Char} : ∀ {s : CharStream}, s.Shows cs → s.mark.2.Shows cs
  | text _, h => h
  | reader _, h => h

@[simp] theorem index_mark : ∀ s : CharStream, s.mark.2.index = s.index
  | text _ => rfl
  | reader _ => rfl

theorem keepsFrom_mark : ∀ s : CharStream, s.mark.2.KeepsFrom s.index
  | text _ => trivial
  | reader _ => ⟨Nat.le_add_right .., Nat.succ_pos _⟩

theorem ReadsOneAhead.mark : ∀ {s : CharStream}, s.ReadsOneAhead → s.mark.2.ReadsOneAhead
  | text _, h => h
  | reader _, h => h

/-- The characters from a later index on are kept as well. -/
theorem KeepsFrom.mono {a b : Nat} (hab : a ≤ b) : ∀ {s : CharStream}, s.KeepsFrom a →
    s.KeepsFrom b
  | text _, _ => trivial
  | reader _, ⟨hstart, hmark⟩ => ⟨Nat.le_trans hstart hab, hmark⟩

/-- `u` is the stream `t` with the marker taken back that was given out when
the stream was `s`. -/
structure Released (s t u : CharStream) : Prop where
  index : u.index = t.index
  outstanding : u.outstanding = s.outstanding
  shows : ∀ {cs : List Char}, t.Shows cs → u.Shows cs
  keepsFrom : ∀ {a : Nat}, s.KeepsFrom a → t.KeepsFrom a → u.KeepsFrom a
  readsOneAhead : t.ReadsOneAhead → u.ReadsOneAhead

/-- The marker handed out last is taken back without a word. -/
theorem release_mark {s t : CharStream} (h : t.outstanding = s.mark.2.outstanding) :
    ∃ u, t.release s.mark.1 = pure u ∧ Released s t u := by
  cases s with
  | text s =>
      cases t with
      | text t => exact ⟨text t, rfl, rfl, rfl, id, fun _ => id, id⟩
      | reader r => simp [outstanding, mark] at h
  | reader s =>
      cases t with
      | text t => simp [outstanding, mark] at h
      | reader r =>
          have hm : r.markers = s.markers + 1 := by
            simpa [outstanding, mark, Reader.mark] using h
          refine ⟨reader (r.place (r.markers - 1) r.offset r.offset_le), ?_, ?_, ?_, ?_, ?_, ?_⟩
          · simp [release, Reader.release, mark, Reader.mark, hm]
          · exact r.index_place r.offset_le
          · simp [outstanding, hm]
          · intro cs hcs
            exact hcs.place r.offset_le
          · rintro a ⟨-, hmark⟩ ⟨hstart, -⟩
            have hleft : r.markers - 1 ≠ 0 := by omega
            refine ⟨?_, by simpa using Nat.pos_of_ne_zero hleft⟩
            rw [Reader.bufferStart_place, if_neg hleft]
            exact hstart
          · intro hone
            simp only [ReadsOneAhead] at hone
            simp only [ReadsOneAhead, Reader.place]
            split
            · simp only [Array.size_extract]
              omega
            · exact hone

/-! ## Draining -/

/-- What is left to be consumed is the text from the current index on. -/
theorem Shows.drain {cs : List Char} {s : CharStream} (h : s.Shows cs) :
    s.drain.1 = cs.drop s.index := by
  induction hn : s.remaining using Nat.strongRecOn generalizing s with
  | ind n ih =>
      rw [CharStream.drain]
      split
      · rename_i c s' hp
        obtain ⟨hfst, hshows, hindex, -⟩ := h.of_peek_eq hp
        obtain ⟨hlt, hc⟩ := List.getElem?_eq_some_iff.mp hfst.symm
        have hrest := ih _ (hn ▸ remaining_consume_lt hp) hshows.consume rfl
        rw [hshows.index_consume_of_lt (hindex ▸ hlt), hindex] at hrest
        simp only [hrest, List.drop_eq_getElem_cons hlt, hc]
      · rename_i s' hp
        obtain ⟨hfst, -⟩ := h.of_peek_eq hp
        rw [List.drop_eq_nil_of_le (List.getElem?_eq_none_iff.mp hfst.symm)]

end CharStream

end ModalLexer
