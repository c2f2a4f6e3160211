import ModalLexer.Error
import ModalLexer.Stream.ByteSource
import ModalLexer.Utf8

/-!
# Decoding a byte source

A decoder takes UTF-8 sequences off a byte source, one at a time, and keeps
count of the bytes it has decoded. The first thing that is no character ends
it for good: from then on it gives no character and does not touch its
source.
-/

namespace ModalLexer

/-- Why a decoder gives no more characters, if it does not. -/
inductive DecoderStatus where
  | reading
  | failed (cause : StreamError)
  | closed
  deriving DecidableEq, Repr, Inhabited

/-- A byte source being decoded. -/
structure Decoder where
  source : ByteSource
  /-- Number of bytes decoded so far. -/
  offset : Nat := 0
  status : DecoderStatus := .reading
  deriving DecidableEq, Repr, Inhabited

namespace Decoder

/-- The rest of the sequence that `b` begins, with `b` itself taken off the
source already. -/
def complete (d : Decoder) (b : UInt8) : Option Char × Decoder :=
  if Utf8.sequenceLength b = 0 then (none, { d with status := .failed (.utf8 d.offset) })
  else
    match d.source.readExact (Utf8.sequenceLength b - 1) with
    | (.error reason, source) => (none, { d with source, status := .failed (.io reason) })
    | (.ok rest, source) =>
      match Utf8.decode? (b :: rest) with
      | some c => (some c, { d with source, offset := d.offset + Utf8.sequenceLength b })
      | none => (none, { d with source, status := .failed (.utf8 d.offset) })

/-- The next character. Only between two characters does an interrupted read
end the decoding; inside of one it is tried again. -/
def next (d : Decoder) : Option Char × Decoder :=
  match d.status with
  | .reading =>
    match d.source.read with
    | (.byte b, source) => { d with source }.complete b
    | (.stop, source) => (none, { d with source, status := .closed })
    | (.failure reason, source) => (none, { d with source, status := .failed (.io reason) })
    | (.interrupted, source) =>
      (none, { d with source, status := .failed (.io ByteSource.interruptedReason) })
  | _ => (none, d)

/-- The source has not ended yet, as far as is known. -/
def isReading (d : Decoder) : Bool := d.status == .reading

/-! ## What is left -/

theorem size_complete_le (d : Decoder) (b : UInt8) :
    (d.complete b).2.source.size ≤ d.source.size := by
  unfold complete
  split
  · exact Nat.le_refl _
  · have h := ByteSource.size_readExact_le (Utf8.sequenceLength b - 1) d.source
    split <;> rename_i h' <;> rw [h'] at h
    · exact h
    · split <;> exact h

theorem size_next_le (d : Decoder) : d.next.2.source.size ≤ d.source.size := by
  have le := ByteSource.size_read_le d.source
  unfold next
  split
  · split <;> rename_i h <;> rw [h] at le
    · exact Nat.le_trans (size_complete_le _ _) le
    all_goals exact le
  · exact Nat.le_refl _

theorem size_next_lt {d d' : Decoder} {c : Char} (h : d.next = (some c, d')) :
    d'.source.size < d.source.size := by
  unfold next at h
  split at h
  · split at h
    · rename_i b source hr
      have lt := ByteSource.size_read_byte hr
      have le := size_complete_le { d with source } b
      rw [h] at le
      simp only at le
      omega
    all_goals simp at h
  · simp at h

end Decoder

end ModalLexer
