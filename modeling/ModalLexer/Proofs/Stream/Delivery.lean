import ModalLexer.Stream

/-!
# The characters a stream has to give

What a byte source will amount to is settled before anything is read from it:
`Decoder.delivered` is the list of characters that come until it ends or
fails. A reader holds the first of them in its buffer and has the others
still to come, and `Reader.chars` is both together, from the beginning of the
buffer on. Reading ahead moves the border between the two parts and nothing
else, which is all that `readMore` and `fill` are known by from here on.
-/

namespace ModalLexer

/-! ## Decoders -/

namespace Decoder

theorem next_of_not_reading {d : Decoder} (h : d.status ≠ .reading) : d.next = (none, d) := by
  unfold next
  split
  · exact absurd ‹_› h
  · rfl

theorem status_complete_of_none {d d' : Decoder} {b : UInt8}
    (h : d.complete b = (none, d')) : d'.status ≠ .reading := by
  unfold complete at h
  split at h
  · obtain rfl := (Prod.mk.inj h).2
    simp
  · split at h
    · obtain rfl := (Prod.mk.inj h).2
      simp
    · split at h
      · simp at h
      · obtain rfl := (Prod.mk.inj h).2
        simp

/-- A decoder that gives no character has ended for good. -/
theorem status_of_next_eq_none {d d' : Decoder} (h : d.next = (none, d')) :
    d'.status ≠ .reading := by
  unfold next at h
  split at h
  · split at h
    · exact status_complete_of_none h
    all_goals
      obtain rfl := (Prod.mk.inj h).2
      simp
  · rename_i hne
    obtain rfl := (Prod.mk.inj h).2
    exact hne

/-- The characters that come before the source ends or fails. -/
def delivered (d : Decoder) : List Char :=
  match _h : d.next with
  | (some c, d') => c :: d'.delivered
  | (none, _) => []
termination_by d.source.size
decreasing_by exact size_next_lt (by assumption)

theorem delivered_of_next_eq_some {d d' : Decoder} {c : Char} (h : d.next = (some c, d')) :
    d.delivered = c :: d'.delivered := by
  rw [delivered]
  split
  · rename_i h'
    obtain ⟨hc, rfl⟩ := Prod.mk.inj (h'.symm.trans h)
    rw [Option.some.inj hc]
  · rename_i h'
    simp [h] at h'

theorem delivered_of_next_eq_none {d d' : Decoder} (h : d.next = (none, d')) :
    d.delivered = [] ∧ d'.delivered = [] := by
  have hend : ∀ {e e' : Decoder}, e.next = (none, e') → e.delivered = [] := by
    intro e e' he
    rw [delivered]
    split
    · rename_i h'
      simp [he] at h'
    · rfl
  exact ⟨hend h, hend (next_of_not_reading (status_of_next_eq_none h))⟩

/-- No character takes less than a byte. -/
theorem length_delivered_le (d : Decoder) : d.delivered.length ≤ d.source.size := by
  induction hn : d.source.size using Nat.strongRecOn generalizing d with
  | ind n ih =>
      cases h : d.next with
      | mk c? d' =>
          cases c? with
          | none => simp [(delivered_of_next_eq_none h).1]
          | some c =>
              have hlt := size_next_lt h
              have hle := ih _ (hn ▸ hlt) d' rfl
              rw [delivered_of_next_eq_some h, List.length_cons]
              omega

end Decoder

/-! ## Readers -/

namespace Reader

/-- The characters from the beginning of the buffer on, those kept and those
still to come. -/
def chars (r : Reader) : List Char := r.buffer.toList ++ r.decoder.delivered

theorem size_le_length_chars (r : Reader) : r.buffer.size ≤ r.chars.length := by
  simp [chars]

theorem chars_append {r : Reader} {c : Char} {decoder : Decoder}
    (h : r.decoder.next = (some c, decoder)) : (r.append c decoder).chars = r.chars := by
  simp [chars, append, Decoder.delivered_of_next_eq_some h]

theorem chars_readMore : ∀ (n : Nat) (r : Reader), (r.readMore n).chars = r.chars
  | 0, _ => rfl
  | n + 1, r => by
      unfold readMore
      split
      · rename_i h
        rw [chars_readMore n, chars_append h]
      · rename_i h
        obtain ⟨hd, hd'⟩ := Decoder.delivered_of_next_eq_none h
        simp only [chars, hd, hd']

/-- Reading ahead gets what was asked for, or else all there is. -/
theorem size_readMore : ∀ (n : Nat) (r : Reader),
    (r.readMore n).buffer.size = min (r.buffer.size + n) r.chars.length
  | 0, r => (Nat.min_eq_left r.size_le_length_chars).symm
  | n + 1, r => by
      unfold readMore
      split
      · rename_i c decoder h
        rw [size_readMore n, chars_append h]
        simp only [append, Array.size_push]
        congr 1
        omega
      · rename_i h
        simp [chars, (Decoder.delivered_of_next_eq_none h).1]

/-- Reading ahead changes nothing but the buffer and the decoder. -/
theorem readMore_frame : ∀ (n : Nat) (r : Reader),
    (r.readMore n).bufferStart = r.bufferStart ∧ (r.readMore n).offset = r.offset
      ∧ (r.readMore n).markers = r.markers
  | 0, _ => ⟨rfl, rfl, rfl⟩
  | n + 1, r => by
      unfold readMore
      split
      · exact readMore_frame n _
      · exact ⟨rfl, rfl, rfl⟩

variable (r : Reader) (n : Nat)

@[simp] theorem chars_fill : (r.fill n).chars = r.chars := chars_readMore ..

@[simp] theorem bufferStart_fill : (r.fill n).bufferStart = r.bufferStart :=
  (readMore_frame ..).1

@[simp] theorem offset_fill : (r.fill n).offset = r.offset := (readMore_frame ..).2.1

@[simp] theorem markers_fill : (r.fill n).markers = r.markers := (readMore_frame ..).2.2

@[simp] theorem index_fill : (r.fill n).index = r.index := by simp [index]

theorem size_fill :
    (r.fill n).buffer.size = max r.buffer.size (min (r.offset + n) r.chars.length) := by
  have hle := r.size_le_length_chars
  rw [fill, size_readMore]
  omega

/-- A character that is kept is the one that comes at its place. -/
theorem getElem?_buffer {p : Nat} (h : p < r.buffer.size ∨ r.buffer.size = r.chars.length) :
    r.buffer[p]? = r.chars[p]? := by
  rcases Nat.lt_or_ge p r.buffer.size with hp | hp
  · simp [chars, List.getElem?_append_left, hp]
  · have hlen := h.resolve_left (Nat.not_lt.mpr hp)
    rw [Array.getElem?_eq_none hp, List.getElem?_eq_none (hlen ▸ hp)]

/-- After reading ahead, the characters asked for are the ones that come. -/
theorem getElem?_buffer_fill {p : Nat} (h : p < r.offset + n) :
    (r.fill n).buffer[p]? = r.chars[p]? := by
  have hsize := r.size_fill n
  have hle := (r.fill n).size_le_length_chars
  have hkept : p < (r.fill n).buffer.size
      ∨ (r.fill n).buffer.size = (r.fill n).chars.length := by
    rw [chars_fill] at *
    omega
  rw [getElem?_buffer _ hkept, chars_fill]

theorem peek_eq : r.peek = (r.chars[r.offset]?, r.fill 1) := by
  simp only [peek, offset_fill, r.getElem?_buffer_fill 1 (Nat.lt_succ_self _)]

/-- A look ahead fails only on a distance that is none, or out of range. -/
theorem lookahead_eq_ok {i : Nat} {c? : Option Char} {r' : Reader} :
    r.lookahead i = .ok (c?, r') ↔ (i ≠ 0 ∧ r.offset + i < Checked.unsignedLimit)
      ∧ c? = r.chars[r.offset + i - 1]? ∧ r' = r.fill i := by
  by_cases hi : i = 0
  · simp [lookahead, hi, bind, Except.bind, throw, throwThe, MonadExceptOf.throw]
  · by_cases hlimit : r.offset + i < Checked.unsignedLimit
    · have hlt : r.offset + i - 1 < r.offset + i := by omega
      simp only [lookahead, if_neg hi, Checked.add_eq_ok hlimit, bind, Except.bind, pure,
        Except.pure, r.getElem?_buffer_fill i hlt, Except.ok.injEq, Prod.mk.injEq]
      constructor
      · rintro ⟨rfl, rfl⟩
        exact ⟨⟨hi, hlimit⟩, rfl, rfl⟩
      · rintro ⟨-, rfl, rfl⟩
        exact ⟨rfl, rfl⟩
    · simp [lookahead, hi, Checked.add, hlimit, bind, Except.bind]

/-- A reader that finds no next character has brought its decoder to an end. -/
theorem status_fill_one (hnone : r.chars[r.offset]? = none) :
    (r.fill 1).decoder.status ≠ .reading := by
  have hle := List.getElem?_eq_none_iff.mp hnone
  have hsize := r.size_le_length_chars
  have hoffset := r.offset_le
  have hlen : r.chars.length = r.buffer.size + r.decoder.delivered.length := by simp [chars]
  have hnil : r.decoder.delivered = [] := List.eq_nil_of_length_eq_zero (by omega)
  have hone : r.offset + 1 - r.buffer.size = 1 := by omega
  rw [fill, hone, readMore]
  rcases hnext : r.decoder.next with ⟨_ | c, d⟩
  · exact Decoder.status_of_next_eq_none hnext
  · simp [Decoder.delivered_of_next_eq_some hnext] at hnil

/-- Reading ahead leaves a decoder alone that has ended. -/
theorem decoder_readMore_of_not_reading (h : r.decoder.status ≠ .reading) :
    ∀ n : Nat, (r.readMore n).decoder = r.decoder
  | 0 => rfl
  | n + 1 => by rw [readMore, Decoder.next_of_not_reading h]

end Reader

end ModalLexer
