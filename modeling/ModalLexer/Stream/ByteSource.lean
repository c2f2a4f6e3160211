/-!
# Byte sources

A finite source of bytes, given as what its successive reads deliver. A read
can come back with bytes, with none, with a failure, or interrupted before it
could do anything. Bytes that were delivered but not yet used wait in front.
-/

namespace ModalLexer

/-- Result of one read of the underlying source. -/
inductive Chunk where
  /-- The bytes of a read; none mean that the source has ended. -/
  | bytes (data : List UInt8)
  | failure (reason : String)
  | interrupted
  deriving DecidableEq, Repr, Inhabited

/-- What a source still has to give. After the last chunk every read comes
back empty. -/
structure ByteSource where
  pending : List UInt8 := []
  chunks : List Chunk
  deriving DecidableEq, Repr, Inhabited

/-- Answer to a request for one byte. -/
inductive ByteRead where
  | byte (b : UInt8)
  | stop
  | failure (reason : String)
  | interrupted
  deriving DecidableEq, Repr, Inhabited

namespace ByteSource

/-- Reason reported for an interrupted read. -/
def interruptedReason : String := "operation interrupted"

/-- Reason reported when a source ends before it gave what was asked for. -/
def shortReadReason : String := "failed to fill whole buffer"

def read (s : ByteSource) : ByteRead × ByteSource :=
  match s.pending with
  | b :: rest => (.byte b, { s with pending := rest })
  | [] =>
    match s.chunks with
    | [] => (.stop, s)
    | .bytes [] :: rest => (.stop, { s with chunks := rest })
    | .bytes (b :: data) :: rest => (.byte b, { pending := data, chunks := rest })
    | .failure reason :: rest => (.failure reason, { s with chunks := rest })
    | .interrupted :: rest => (.interrupted, { s with chunks := rest })

/-- The source after the interrupted reads in front of it, if there are any. -/
def skipInterrupted (s : ByteSource) : ByteSource :=
  if s.pending.isEmpty then { s with chunks := s.chunks.dropWhile (· == .interrupted) } else s

/-- Requests exactly `n` bytes, trying interrupted reads again. Fails with the
reason if the source does. -/
def readExact : Nat → ByteSource → Except String (List UInt8) × ByteSource
  | 0, s => (.ok [], s)
  | n + 1, s =>
    match s.skipInterrupted.read with
    | (.byte b, s) =>
      match readExact n s with
      | (.ok rest, s) => (.ok (b :: rest), s)
      | (.error reason, s) => (.error reason, s)
    | (.stop, s) => (.error shortReadReason, s)
    | (.failure reason, s) => (.error reason, s)
    | (.interrupted, s) => (.error interruptedReason, s)

/-! ## What is left -/

def chunksSize : List Chunk → Nat
  | [] => 0
  | .bytes data :: rest => data.length + chunksSize rest
  | _ :: rest => chunksSize rest

def size (s : ByteSource) : Nat := s.pending.length + chunksSize s.chunks

theorem size_read_byte {s t : ByteSource} {b : UInt8} (h : s.read = (.byte b, t)) :
    t.size + 1 = s.size := by
  obtain ⟨_ | ⟨b', pending⟩, chunks⟩ := s
  · rcases chunks with _ | ⟨(_ | ⟨b', data⟩) | _ | _, rest⟩ <;> simp [read] at h
    obtain ⟨-, rfl⟩ := h
    simp only [size, chunksSize, List.length_cons, List.length_nil]
    omega
  · simp only [read, Prod.mk.injEq] at h
    obtain ⟨-, rfl⟩ := h
    simp only [size, List.length_cons]
    omega

theorem size_read_le (s : ByteSource) : s.read.2.size ≤ s.size := by
  obtain ⟨_ | ⟨b, pending⟩, chunks⟩ := s
  · rcases chunks with _ | ⟨(_ | ⟨b, data⟩) | _ | _, rest⟩ <;> simp [read, size, chunksSize]
  · simp [read, size]

theorem chunksSize_dropWhile_interrupted : ∀ chunks : List Chunk,
    chunksSize (chunks.dropWhile (· == .interrupted)) = chunksSize chunks
  | [] => rfl
  | .interrupted :: rest => chunksSize_dropWhile_interrupted rest
  | .bytes _ :: _ => rfl
  | .failure _ :: _ => rfl

theorem size_skipInterrupted (s : ByteSource) : s.skipInterrupted.size = s.size := by
  unfold skipInterrupted
  split
  · simp only [size, chunksSize_dropWhile_interrupted]
  · rfl

theorem size_readExact_le :
    ∀ (n : Nat) (s : ByteSource), (readExact n s).2.size ≤ s.size
  | 0, _ => Nat.le_refl _
  | n + 1, s => by
      have le := size_read_le s.skipInterrupted
      rw [size_skipInterrupted] at le
      unfold readExact
      split <;> rename_i t h <;> rw [h] at le
      · have ih := size_readExact_le n t
        split <;> rename_i h' <;> rw [h'] at ih <;> exact Nat.le_trans ih le
      all_goals exact le

end ByteSource

end ModalLexer
