import ModalLexer.Proofs.Stream.View
import ModalLexer.Proofs.Utf8

/-!
# Decoding to the end

What becomes of a byte source does not depend on how its bytes are cut into
reads. `Holds` forgets the pieces: a source holds a sequence of bytes and then
ends, or fails for a reason. A decoder over it gives the characters of the
longest well-formed prefix and ends with the `verdict` on what is left.

`Delivers` is the course of a decoder down to its last state. Reading ahead
only goes along that course, so draining a reader leaves its decoder there.
-/

namespace ModalLexer

/-! ## Bytes behind the reads -/

/-- The reads behind the last byte: the source has ended, or it fails for the
reason. What would come later is of no concern. -/
inductive Chunk.Ends : List Chunk → Option String → Prop
  | exhausted : Ends [] none
  | stop (later : List Chunk) : Ends (.bytes [] :: later) none
  | failure (reason : String) (later : List Chunk) : Ends (.failure reason :: later) (some reason)

/-- What a read behind the last byte says. -/
def ByteRead.behind : Option String → ByteRead
  | none => .stop
  | some reason => .failure reason

namespace ByteSource

/-- The source gives the bytes, however they are cut, and then ends. -/
def Holds (s : ByteSource) (bytes : List UInt8) (ending : Option String) : Prop :=
  ∃ (pieces : List (List UInt8)) (after : List Chunk), (∀ p ∈ pieces, p ≠ [])
    ∧ Chunk.Ends after ending ∧ s.chunks = pieces.map .bytes ++ after
    ∧ bytes = s.pending ++ pieces.flatten

namespace Holds

variable {s : ByteSource} {b : UInt8} {bytes : List UInt8} {ending : Option String}

theorem read_cons (h : s.Holds (b :: bytes) ending) :
    ∃ s', s.read = (.byte b, s') ∧ s'.Holds bytes ending := by
  obtain ⟨pending, chunks⟩ := s
  obtain ⟨pieces, after, hpieces, hends, hchunks, hbytes⟩ := h
  simp only at hchunks hbytes
  subst hchunks
  cases pending with
  | cons b' pending =>
      obtain ⟨rfl, rfl⟩ := List.cons.inj hbytes
      exact ⟨_, rfl, pieces, after, hpieces, hends, rfl, rfl⟩
  | nil =>
      cases pieces with
      | nil => simp at hbytes
      | cons p pieces =>
          cases p with
          | nil => exact absurd rfl (hpieces [] (List.mem_cons_self ..))
          | cons b' p =>
              obtain ⟨rfl, rfl⟩ := List.cons.inj hbytes
              exact ⟨_, rfl, pieces, after, fun q hq => hpieces q (List.mem_cons_of_mem _ hq),
                hends, rfl, rfl⟩

theorem read_nil (h : s.Holds [] ending) : ∃ s', s.read = (.behind ending, s') := by
  obtain ⟨pending, chunks⟩ := s
  obtain ⟨pieces, after, hpieces, hends, hchunks, hbytes⟩ := h
  obtain ⟨hpending, hflat⟩ := List.append_eq_nil_iff.mp hbytes.symm
  have hnil : pieces = [] := by
    cases pieces with
    | nil => rfl
    | cons p pieces =>
        exact absurd (List.flatten_eq_nil_iff.mp hflat p (List.mem_cons_self ..))
          (hpieces p (List.mem_cons_self ..))
  simp only at hchunks hpending
  subst hnil hchunks hpending
  cases hends <;> exact ⟨_, rfl⟩

theorem skipInterrupted_eq (h : s.Holds bytes ending) : s.skipInterrupted = s := by
  obtain ⟨pending, chunks⟩ := s
  obtain ⟨pieces, after, hpieces, hends, hchunks, hbytes⟩ := h
  simp only at hchunks hbytes
  subst hchunks
  cases pending with
  | cons b' pending => rfl
  | nil =>
      cases pieces with
      | nil => cases hends <;> rfl
      | cons p pieces => rfl

theorem readExact_of_le : ∀ {n : Nat} {s : ByteSource} {bytes : List UInt8},
    s.Holds bytes ending → n ≤ bytes.length →
    ∃ s', readExact n s = (.ok (bytes.take n), s') ∧ s'.Holds (bytes.drop n) ending
  | 0, s, _, h, _ => ⟨s, rfl, h⟩
  | n + 1, s, b :: bytes, h, hle => by
      obtain ⟨s₁, hread, h₁⟩ := h.read_cons
      obtain ⟨s₂, hrest, h₂⟩ := readExact_of_le h₁ (Nat.le_of_succ_le_succ hle)
      refine ⟨s₂, ?_, h₂⟩
      rw [readExact, h.skipInterrupted_eq]
      simp only [hread, hrest, List.take_succ_cons]

theorem readExact_of_lt : ∀ {n : Nat} {s : ByteSource} {bytes : List UInt8},
    s.Holds bytes ending → bytes.length < n →
    ∃ s', readExact n s = (.error (ending.getD shortReadReason), s')
  | n + 1, s, [], h, _ => by
      obtain ⟨s₁, hread⟩ := h.read_nil
      refine ⟨s₁, ?_⟩
      rw [readExact, h.skipInterrupted_eq]
      cases ending <;> simp only [hread] <;> rfl
  | n + 1, s, b :: bytes, h, hlt => by
      obtain ⟨s₁, hread, h₁⟩ := h.read_cons
      obtain ⟨s₂, hrest⟩ := readExact_of_lt h₁ (Nat.lt_of_succ_lt_succ hlt)
      refine ⟨s₂, ?_⟩
      rw [readExact, h.skipInterrupted_eq]
      simp only [hread, hrest]

end Holds

end ByteSource

/-! ## The course of a decoder -/

namespace Decoder

/-- The decoder gives the characters and is left in its last state. -/
inductive Delivers : Decoder → List Char → Decoder → Prop
  | stop {d d' : Decoder} (h : d.next = (none, d')) : Delivers d [] d'
  | char {d d' d'' : Decoder} {c : Char} {cs : List Char} (h : d.next = (some c, d'))
      (hrest : Delivers d' cs d'') : Delivers d (c :: cs) d''

/-- How decoding ends that is left with the rest after so many bytes. Bytes
that begin no character are found out where they begin, once as many are there
as the first one asks for. -/
def verdict (decoded : Nat) (rest : List UInt8) (ending : Option String) : DecoderStatus :=
  match rest, ending with
  | [], none => .closed
  | [], some reason => .failed (.io reason)
  | b :: _, _ =>
    if Utf8.sequenceLength b = 0 ∨ Utf8.sequenceLength b ≤ rest.length then
      .failed (.utf8 decoded)
    else .failed (.io (ending.getD ByteSource.shortReadReason))

theorem Delivers.delivered_eq {d d' : Decoder} {cs : List Char} (h : d.Delivers cs d') :
    d.delivered = cs := by
  induction h with
  | stop h => exact (delivered_of_next_eq_none h).1
  | char h _ ih => rw [delivered_of_next_eq_some h, ih]

/-- A decoder that has ended stays as it is. -/
theorem delivers_self {d : Decoder} (h : d.status ≠ .reading) : d.Delivers [] d :=
  .stop (next_of_not_reading h)

variable {d : Decoder} {bytes : List UInt8} {ending : Option String}

theorem next_of_encoding {c : Char} {tail : List UInt8} (hstatus : d.status = .reading)
    (h : d.source.Holds (String.utf8EncodeChar c ++ tail) ending) :
    ∃ d', d.next = (some c, d') ∧ d'.status = .reading ∧ d'.source.Holds tail ending
      ∧ d'.offset = d.offset + (String.utf8EncodeChar c).length := by
  obtain ⟨b, rest, hc, hlength⟩ := Utf8.sequenceLength_head c
  rw [hc, List.cons_append] at h
  obtain ⟨s₁, hread, h₁⟩ := h.read_cons
  obtain ⟨s₂, hexact, h₂⟩ := h₁.readExact_of_le (n := rest.length) (by simp)
  rw [List.take_left] at hexact
  rw [List.drop_left] at h₂
  have hdecode := (Utf8.decode?_eq_some hlength).mpr hc.symm
  have hzero : Utf8.sequenceLength b ≠ 0 := by omega
  simp only [next, hstatus, hread, complete, if_neg hzero]
  simp only [hlength, Nat.add_sub_cancel, hexact, hdecode, hc, List.length_cons]
  exact ⟨_, rfl, rfl, h₂, rfl⟩

theorem next_of_stuck (hstatus : d.status = .reading) (h : d.source.Holds bytes ending)
    (hstuck : Utf8.Stuck bytes) :
    ∃ d', d.next = (none, d') ∧ d'.status = verdict d.offset bytes ending := by
  cases bytes with
  | nil =>
      obtain ⟨s₁, hread⟩ := h.read_nil
      simp only [next, hstatus, hread]
      cases ending <;> exact ⟨_, rfl, rfl⟩
  | cons b rest =>
      obtain ⟨s₁, hread, h₁⟩ := h.read_cons
      simp only [next, hstatus, hread, complete, verdict]
      by_cases hzero : Utf8.sequenceLength b = 0
      · refine ⟨_, if_pos hzero, ?_⟩
        rw [if_pos (.inl hzero)]
      · rw [if_neg hzero]
        rcases Nat.lt_or_ge rest.length (Utf8.sequenceLength b - 1) with hlt | hle
        · obtain ⟨s₂, hexact⟩ := h₁.readExact_of_lt hlt
          have hshort : ¬(Utf8.sequenceLength b = 0
              ∨ Utf8.sequenceLength b ≤ (b :: rest).length) := by
            rw [List.length_cons]
            omega
          simp only [hexact, if_neg hshort]
          exact ⟨_, rfl, rfl⟩
        · obtain ⟨s₂, hexact, -⟩ := h₁.readExact_of_le hle
          have henough : Utf8.sequenceLength b ≤ (b :: rest).length := by
            rw [List.length_cons]
            omega
          simp only [hexact, if_pos (Or.inr henough)]
          cases hdecode : Utf8.decode? (b :: rest.take (Utf8.sequenceLength b - 1)) with
          | none => exact ⟨_, rfl, rfl⟩
          | some c =>
              -- a character at the front, where there can be none
              have hlength : Utf8.sequenceLength b
                  = (rest.take (Utf8.sequenceLength b - 1)).length + 1 := by
                rw [List.length_take]
                omega
              have hc := (Utf8.decode?_eq_some hlength).mp hdecode
              refine absurd ?_ (hstuck c (rest.drop (Utf8.sequenceLength b - 1)))
              rw [← hc, List.cons_append, List.take_append_drop]

/-- From bytes that are all there, a decoder makes the characters of their
longest well-formed prefix. -/
theorem exists_delivers : ∀ (bytes : List UInt8) (d : Decoder), d.status = .reading →
    d.source.Holds bytes ending →
    ∃ cs rest d', Utf8.LongestPrefix bytes cs rest ∧ d.Delivers cs d'
      ∧ d'.status = verdict (d.offset + (Utf8.encode cs).length) rest ending := by
  intro bytes
  induction hn : bytes.length using Nat.strongRecOn generalizing bytes with
  | ind n ih =>
      intro d hstatus h
      by_cases hstuck : Utf8.Stuck bytes
      · obtain ⟨d', hnext, hverdict⟩ := next_of_stuck hstatus h hstuck
        exact ⟨[], bytes, d', .of_stuck [] hstuck, .stop hnext, hverdict⟩
      · obtain ⟨c, tail, rfl⟩ : ∃ c tail, bytes = String.utf8EncodeChar c ++ tail := by
          simpa [Utf8.Stuck] using hstuck
        obtain ⟨d₁, hnext, hstatus₁, hsource, hoffset⟩ := next_of_encoding hstatus h
        have hshorter : tail.length < n := by
          have hpos := c.utf8Size_pos
          rw [← hn, List.length_append, String.length_utf8EncodeChar]
          omega
        obtain ⟨cs, rest, d', hlongest, hdelivers, hverdict⟩ :=
          ih tail.length hshorter tail rfl d₁ hstatus₁ hsource
        refine ⟨c :: cs, rest, d', ?_, .char hnext hdelivers, ?_⟩
        · rw [hlongest.split, ← List.append_assoc, ← Utf8.encode_cons]
          exact .of_stuck _ hlongest.stuck
        · rw [hverdict, hoffset, Utf8.encode_cons, List.length_append, Nat.add_assoc]

end Decoder

/-! ## The course of a reader -/

open Decoder

theorem Reader.exists_delivers_readMore {d : Decoder} : ∀ (n : Nat) {r : Reader} {cs : List Char},
    r.decoder.Delivers cs d → ∃ cs', (r.readMore n).decoder.Delivers cs' d
  | 0, _, cs, h => ⟨cs, h⟩
  | n + 1, r, _, h => by
      rw [Reader.readMore]
      cases h with
      | stop hnext =>
          simp only [hnext]
          exact ⟨[], delivers_self (status_of_next_eq_none hnext)⟩
      | char hnext hrest =>
          simp only [hnext]
          exact exists_delivers_readMore n (r := r.append _ _) hrest

theorem Reader.exists_delivers_consume {d : Decoder} {r : Reader} {cs : List Char}
    (h : r.decoder.Delivers cs d) : ∃ cs', r.consume.decoder.Delivers cs' d := by
  rw [CharStream.consume_reader]
  split
  · rw [Reader.decoder_place]
    exact exists_delivers_readMore _ h
  · exact exists_delivers_readMore _ h

/-- Draining a reader brings its decoder to its last state. -/
theorem CharStream.exists_drain_reader {d : Decoder} {r : Reader} {cs : List Char}
    (h : r.decoder.Delivers cs d) : ∃ r', (reader r).drain.2 = reader r' ∧ r'.decoder = d := by
  induction hn : r.remaining using Nat.strongRecOn generalizing r cs with
  | ind n ih =>
      have hfill : ∃ cs', (r.fill 1).decoder.Delivers cs' d := Reader.exists_delivers_readMore _ h
      obtain ⟨cs₁, h₁⟩ := hfill
      rw [CharStream.drain]
      split
      · rename_i c s' hp
        have hless := remaining_consume_lt hp
        simp only [peek, r.peek_eq, Prod.mk.injEq] at hp
        obtain ⟨-, rfl⟩ := hp
        obtain ⟨cs₂, h₂⟩ := Reader.exists_delivers_consume h₁
        exact ih _ (hn ▸ hless) h₂ rfl
      · rename_i s' hp
        simp only [peek, r.peek_eq, Prod.mk.injEq] at hp
        obtain ⟨hnone, rfl⟩ := hp
        refine ⟨r.fill 1, rfl, ?_⟩
        have hstays := next_of_not_reading (r.status_fill_one hnone)
        cases h₁ with
        | stop hnext => exact (Prod.mk.inj (hstays.symm.trans hnext)).2
        | char hnext _ => simp [hstays] at hnext

/-- Draining a reader gives the characters of the longest well-formed prefix of
the bytes, and leaves the verdict on the others, however the bytes are cut. A
text that was encoded comes back whole. -/
theorem drain_longest_prefix (pieces : List (List UInt8)) (after : List Chunk)
    (ending : Option String) (name : String) (hpieces : ∀ p ∈ pieces, p ≠ [])
    (hends : Chunk.Ends after ending) :
    ∃ cs rest r,
      (∀ cs' rest', Utf8.LongestPrefix pieces.flatten cs' rest' ↔ cs' = cs ∧ rest' = rest)
        ∧ (CharStream.ofSource { chunks := pieces.map .bytes ++ after } name).drain
          = (cs, .reader r)
        ∧ r.decoder.status = Decoder.verdict (Utf8.encode cs).length rest ending
        ∧ ∀ text : String, pieces.flatten = text.toUTF8.data.toList →
          cs = text.toList ∧ (ending = none → r.decoder.status = .closed) := by
  let r₀ := Reader.ofSource { chunks := pieces.map .bytes ++ after } name
  have hholds : r₀.decoder.source.Holds pieces.flatten ending :=
    ⟨pieces, after, hpieces, hends, rfl, rfl⟩
  obtain ⟨cs, rest, d, hlongest, hdelivers, hverdict⟩ := exists_delivers _ r₀.decoder rfl hholds
  obtain ⟨r, hlast, rfl⟩ := CharStream.exists_drain_reader hdelivers
  have hfirst : (CharStream.reader r₀).drain.1 = cs := by
    rw [(CharStream.shows_reader (r := r₀) rfl).drain]
    exact hdelivers.delivered_eq
  rw [show r₀.decoder.offset = 0 from rfl, Nat.zero_add] at hverdict
  have hunique : ∀ cs' rest', Utf8.LongestPrefix pieces.flatten cs' rest' ↔
      cs' = cs ∧ rest' = rest := by
    intro cs' rest'
    constructor
    · exact hlongest.unique
    · rintro ⟨rfl, rfl⟩
      exact hlongest
  refine ⟨cs, rest, r, hunique, Prod.ext hfirst hlast, hverdict, ?_⟩
  intro text htext
  have hwhole : Utf8.LongestPrefix pieces.flatten text.toList [] := by
    rw [htext, ← Utf8.encode_toList, ← List.append_nil (Utf8.encode text.toList)]
    exact .of_stuck _ Utf8.stuck_nil
  obtain ⟨rfl, rfl⟩ := (hunique ..).mp hwhole
  refine ⟨rfl, ?_⟩
  rintro rfl
  exact hverdict

/-- A character in three pieces, and a surrogate that is refused although the
source fails only later. -/
theorem drain_longest_prefix_surrogate :
    ∃ r, (CharStream.ofSource { chunks := [.bytes [0x61, 0xe2], .bytes [0x82],
        .bytes [0xac, 0xed, 0xa0, 0x80], .failure "gone"] } "pieces").drain
        = (['a', '€'], .reader r)
      ∧ r.decoder.status = .failed (.utf8 4) := by
  have hlongest : Utf8.LongestPrefix [0x61, 0xe2, 0x82, 0xac, 0xed, 0xa0, 0x80] ['a', '€']
      [0xed, 0xa0, 0x80] :=
    .of_stuck ['a', '€'] (Utf8.stuck_of_decode?_eq_none (by decide +kernel))
  obtain ⟨cs, rest, r, hunique, hdrain, hverdict, -⟩ :=
    drain_longest_prefix [[0x61, 0xe2], [0x82], [0xac, 0xed, 0xa0, 0x80]] [.failure "gone"]
      (some "gone") "pieces" (by decide) (.failure ..)
  obtain ⟨rfl, rfl⟩ := (hunique ..).mp hlongest
  exact ⟨r, hdrain, hverdict⟩

end ModalLexer
