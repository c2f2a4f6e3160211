import ModalLexer.Proofs.Stream.Decoding

/-!
# Interrupted reads

Inside a character an interrupted read is tried again, and between two
characters it ends the decoding. A source that is left by the interruptions
out of its reads (`uninterrupted`) therefore stands for the source itself as
long as no character ends right before an interruption, which is what
`BreaksAfter` says of the characters in front. If there are such places, the
decoder gives up at the first of them.

`Gives` relates a source to what is left of it once it has given some bytes.
It is kept by every way to take bytes off a source, in both directions: bytes
that were taken were given, and bytes that are given can be taken.
-/

namespace ModalLexer

/-- What came with the read. -/
def Chunk.data : Chunk → List UInt8
  | .bytes data => data
  | .failure _ => []
  | .interrupted => []

/-- The read neither says that the source has ended nor that it fails. -/
def Chunk.GoesOn : Chunk → Prop
  | .bytes data => data ≠ []
  | .failure _ => False
  | .interrupted => True

namespace ByteSource

/-! ## Bytes given -/

/-- The source gives the bytes, over any number of reads, and `t` is left. -/
def Gives (s : ByteSource) (bytes : List UInt8) (t : ByteSource) : Prop :=
  ∃ before, (∀ chunk ∈ before, chunk.GoesOn) ∧ s.chunks = before ++ t.chunks
    ∧ s.pending ++ before.flatMap Chunk.data = bytes ++ t.pending

/-- What trying again leads from and to: either a read is not interrupted, or
it is and the next one is tried. -/
theorem skipInterrupted_induction {P : ByteSource → ByteSource → Prop}
    (settled : ∀ s : ByteSource, s.read.1 ≠ .interrupted → P s s)
    (again : ∀ (rest : List Chunk) (t : ByteSource), P { chunks := rest } t →
      P { chunks := .interrupted :: rest } t)
    (s : ByteSource) : P s s.skipInterrupted := by
  obtain ⟨_ | ⟨b, pending⟩, chunks⟩ := s
  · induction chunks with
    | nil => exact settled _ nofun
    | cons chunk rest ih =>
        rcases chunk with (_ | ⟨b, data⟩) | reason | _
        case interrupted => exact again rest _ ih
        all_goals exact settled _ nofun
  · exact settled _ nofun

theorem read_skipInterrupted (s : ByteSource) : s.skipInterrupted.read.1 ≠ .interrupted :=
  skipInterrupted_induction (P := fun _ t => t.read.1 ≠ .interrupted)
    (fun _ h => h) (fun _ _ h => h) s

namespace Gives

variable {s t u : ByteSource} {b : UInt8} {bytes bytes' : List UInt8}

theorem refl (s : ByteSource) : s.Gives [] s := ⟨[], by simp, rfl, by simp⟩

theorem trans (h : s.Gives bytes t) (h' : t.Gives bytes' u) : s.Gives (bytes ++ bytes') u := by
  obtain ⟨before, hbefore, hchunks, hbytes⟩ := h
  obtain ⟨before', hbefore', hchunks', hbytes'⟩ := h'
  refine ⟨before ++ before', ?_, ?_, ?_⟩
  · intro chunk hchunk
    rcases List.mem_append.mp hchunk with hchunk | hchunk
    · exact hbefore chunk hchunk
    · exact hbefore' chunk hchunk
  · rw [hchunks, hchunks', List.append_assoc]
  · rw [List.flatMap_append, ← List.append_assoc, hbytes, List.append_assoc, hbytes',
      List.append_assoc]

theorem of_read (h : s.read = (.byte b, t)) : s.Gives [b] t := by
  obtain ⟨_ | ⟨b', pending⟩, chunks⟩ := s
  · rcases chunks with _ | ⟨(_ | ⟨b', data⟩) | _ | _, rest⟩ <;> simp [read] at h
    obtain ⟨rfl, rfl⟩ := h
    exact ⟨[.bytes (b' :: data)], by simp [Chunk.GoesOn], rfl, by simp [Chunk.data]⟩
  · simp only [read, Prod.mk.injEq, ByteRead.byte.injEq] at h
    obtain ⟨rfl, rfl⟩ := h
    exact ⟨[], by simp, rfl, by simp⟩

theorem interrupted (rest : List Chunk) :
    ({ chunks := .interrupted :: rest : ByteSource }).Gives [] { chunks := rest } :=
  ⟨[.interrupted], by simp [Chunk.GoesOn], rfl, rfl⟩

theorem skipInterrupted (s : ByteSource) : s.Gives [] s.skipInterrupted :=
  skipInterrupted_induction (fun s _ => refl s) (fun rest _ h => (interrupted rest).trans h) s

/-- A source that has a byte to give gives it with the next read, unless that
read is interrupted. -/
theorem read_cons (h : s.Gives (b :: bytes) u) :
    s.read.1 = .interrupted ∨ ∃ t, s.read = (.byte b, t) ∧ t.Gives bytes u := by
  obtain ⟨_ | ⟨b', pending⟩, chunks⟩ := s
  · obtain ⟨before, hbefore, hchunks, hbytes⟩ := h
    simp only at hchunks hbytes
    subst hchunks
    rcases before with _ | ⟨(_ | ⟨b', data⟩) | reason | _, before⟩
    · simp at hbytes
    · exact absurd rfl (hbefore _ (List.mem_cons_self ..))
    · simp only [List.nil_append, List.flatMap_cons, Chunk.data, List.cons_append,
        List.cons.injEq] at hbytes
      obtain ⟨rfl, hbytes⟩ := hbytes
      exact .inr ⟨_, rfl, before, fun c hc => hbefore c (List.mem_cons_of_mem _ hc), rfl, hbytes⟩
    · exact (hbefore _ (List.mem_cons_self ..)).elim
    · exact .inl rfl
  · obtain ⟨before, hbefore, hchunks, hbytes⟩ := h
    simp only [List.cons_append, List.cons.injEq] at hbytes
    obtain ⟨rfl, hbytes⟩ := hbytes
    exact .inr ⟨_, rfl, before, hbefore, hchunks, hbytes⟩

/-- Trying again costs a source none of the bytes it has to give. -/
theorem skipInterrupted_left (h : s.Gives (b :: bytes) u) :
    s.skipInterrupted.Gives (b :: bytes) u := by
  refine skipInterrupted_induction (P := fun s t => s.Gives (b :: bytes) u → t.Gives _ u)
    (fun _ _ h => h) ?_ s h
  rintro rest t ih ⟨_ | ⟨chunk, before⟩, hbefore, hchunks, hbytes⟩
  · simp at hbytes
  · obtain ⟨rfl, rfl⟩ := List.cons.inj hchunks
    exact ih ⟨before, fun c hc => hbefore c (List.mem_cons_of_mem _ hc), rfl, hbytes⟩

/-- With interrupted reads tried again, all bytes that are given can be read. -/
theorem readExact : ∀ {bytes : List UInt8} {s : ByteSource}, s.Gives (bytes ++ bytes') u →
    ∃ t, ByteSource.readExact bytes.length s = (.ok bytes, t) ∧ t.Gives bytes' u
  | [], s, h => ⟨s, rfl, h⟩
  | b :: bytes, s, h => by
      obtain hinterrupted | ⟨t, hread, ht⟩ := h.skipInterrupted_left.read_cons
      · exact absurd hinterrupted (read_skipInterrupted _)
      · obtain ⟨v, hrest, hv⟩ := readExact ht
        refine ⟨v, ?_, hv⟩
        rw [List.length_cons, ByteSource.readExact]
        simp only [hread, hrest]

theorem of_readExact : ∀ {n : Nat} {s : ByteSource} {bytes : List UInt8},
    ByteSource.readExact n s = (.ok bytes, t) → s.Gives bytes t ∧ bytes.length = n
  | 0, s, bytes, h => by
      rw [ByteSource.readExact] at h
      cases h
      exact ⟨refl _, rfl⟩
  | n + 1, s, bytes, h => by
      rw [ByteSource.readExact] at h
      split at h
      · rename_i b v hread
        split at h
        · rename_i rest w hrest
          cases h
          obtain ⟨hgives, hlength⟩ := of_readExact hrest
          refine ⟨?_, by rw [List.length_cons, hlength]⟩
          exact (skipInterrupted s).trans ((of_read hread).trans hgives)
        · cases h
      all_goals cases h

end Gives

/-! ## Interruptions left out -/

/-- The source without the reads that are interrupted. -/
def uninterrupted (s : ByteSource) : ByteSource :=
  { s with chunks := s.chunks.filter (· != .interrupted) }

theorem read_uninterrupted {s : ByteSource} (h : s.read.1 ≠ .interrupted) :
    s.uninterrupted.read = (s.read.1, s.read.2.uninterrupted) := by
  obtain ⟨_ | ⟨b, pending⟩, chunks⟩ := s
  · rcases chunks with _ | ⟨(_ | ⟨b, data⟩) | reason | _, rest⟩
    case cons.interrupted => exact absurd rfl h
    all_goals rfl
  · rfl

theorem uninterrupted_skipInterrupted (s : ByteSource) :
    s.skipInterrupted.uninterrupted = s.uninterrupted :=
  skipInterrupted_induction (P := fun s t => t.uninterrupted = s.uninterrupted)
    (fun _ _ => rfl) (fun _ _ h => h) s

theorem skipInterrupted_uninterrupted (s : ByteSource) :
    s.uninterrupted.skipInterrupted = s.uninterrupted := by
  obtain ⟨_ | ⟨b, pending⟩, chunks⟩ := s
  · induction chunks with
    | nil => rfl
    | cons chunk rest ih =>
        rcases chunk with data | reason | _
        case interrupted => exact ih
        all_goals rfl
  · rfl

/-- Where interrupted reads are tried again, they make no difference. -/
theorem readExact_uninterrupted : ∀ (n : Nat) (s : ByteSource),
    readExact n s.uninterrupted = ((readExact n s).1, (readExact n s).2.uninterrupted)
  | 0, _ => rfl
  | n + 1, s => by
      have hread := read_uninterrupted s.read_skipInterrupted
      rw [uninterrupted_skipInterrupted] at hread
      rw [readExact, readExact, skipInterrupted_uninterrupted, hread]
      rcases s.skipInterrupted.read with ⟨_ | _ | _ | _, t⟩
      · simp only [readExact_uninterrupted n t]
        rcases readExact n t with ⟨_ | _, v⟩ <;> rfl
      all_goals rfl

/-! ## Breaks between characters -/

/-- An interruption lies right behind the characters. -/
def BreaksAfter (s : ByteSource) (cs : List Char) : Prop :=
  ∃ later, s.Gives (Utf8.encode cs) { chunks := .interrupted :: later }

theorem breaksAfter_nil {s : ByteSource} : s.BreaksAfter [] ↔ s.read.1 = .interrupted := by
  constructor
  · rintro ⟨later, before, hbefore, hchunks, hbytes⟩
    obtain ⟨pending, chunks⟩ := s
    obtain ⟨hpending, hdata⟩ := List.append_eq_nil_iff.mp hbytes
    simp only at hpending hchunks
    subst hpending hchunks
    rcases before with _ | ⟨data | reason | _, before⟩
    · rfl
    · -- a read that goes on with no bytes
      exact absurd (List.flatMap_eq_nil_iff.mp hdata _ (List.mem_cons_self ..))
        (hbefore _ (List.mem_cons_self ..))
    · exact (hbefore _ (List.mem_cons_self ..)).elim
    · rfl
  · intro h
    obtain ⟨_ | ⟨b, pending⟩, chunks⟩ := s
    · rcases chunks with _ | ⟨(_ | ⟨b, data⟩) | reason | _, rest⟩
      case cons.interrupted => exact ⟨rest, Gives.refl _⟩
      all_goals cases h
    · cases h

end ByteSource

/-! ## Decoders -/

open ByteSource (interruptedReason)

namespace Decoder

variable {d d' : Decoder} {c : Char} {cs cs' : List Char}

def uninterrupted (d : Decoder) : Decoder := { d with source := d.source.uninterrupted }

theorem complete_uninterrupted (d : Decoder) (b : UInt8) :
    d.uninterrupted.complete b = ((d.complete b).1, (d.complete b).2.uninterrupted) := by
  by_cases hzero : Utf8.sequenceLength b = 0
  · simp only [complete, if_pos hzero]
    rfl
  · have hexact := ByteSource.readExact_uninterrupted (Utf8.sequenceLength b - 1) d.source
    simp only [complete, if_neg hzero, uninterrupted, hexact]
    rcases ByteSource.readExact (Utf8.sequenceLength b - 1) d.source with ⟨reason | rest, t⟩
    · rfl
    · cases hdecode : Utf8.decode? (b :: rest) <;> simp only [hdecode]

theorem next_uninterrupted (h : d.source.read.1 ≠ .interrupted) :
    d.uninterrupted.next = (d.next.1, d.next.2.uninterrupted) := by
  obtain ⟨source, offset, status⟩ := d
  have hread := ByteSource.read_uninterrupted h
  cases status with
  | reading =>
      simp only [next, uninterrupted, hread]
      rcases hs : source.read with ⟨b | _ | reason | _, t⟩
      · exact complete_uninterrupted { source := t, offset } b
      · rfl
      · rfl
      · exact absurd (congrArg Prod.fst hs) h
  | failed cause => rfl
  | closed => rfl

theorem next_of_interrupted (hstatus : d.status = .reading)
    (h : d.source.read.1 = .interrupted) :
    ∃ d', d.next = (none, d') ∧ d'.status = .failed (.io interruptedReason) := by
  rcases hs : d.source.read with ⟨b | _ | reason | _, t⟩ <;> rw [hs] at h
  case interrupted =>
    exact ⟨{ d with source := t, status := .failed (.io interruptedReason) },
      by simp only [next, hstatus, hs], rfl⟩
  all_goals cases h

theorem read_of_next (h : d.next = (some c, d')) : d.source.read.1 ≠ .interrupted := by
  intro hread
  by_cases hstatus : d.status = .reading
  · obtain ⟨e, he, -⟩ := next_of_interrupted hstatus hread
    cases h.symm.trans he
  · cases h.symm.trans (next_of_not_reading hstatus)

/-- What a decoder decodes was given by its source. -/
theorem gives_of_next (h : d.next = (some c, d')) :
    d.status = .reading ∧ d'.status = .reading
      ∧ d.source.Gives (String.utf8EncodeChar c) d'.source := by
  unfold next at h
  split at h
  · rename_i hstatus
    split at h
    · rename_i b s hread
      unfold complete at h
      split at h
      · cases h
      · split at h
        · cases h
        · rename_i rest t hexact
          split at h
          · rename_i c' hdecode
            cases h
            obtain ⟨hgives, hlength⟩ := ByteSource.Gives.of_readExact hexact
            have hc := (Utf8.decode?_eq_some (by omega)).mp hdecode
            refine ⟨hstatus, hstatus, ?_⟩
            rw [← hc]
            exact (ByteSource.Gives.of_read hread).trans hgives
          · cases h
    all_goals cases h
  · cases h

/-- A character that the source gives is decoded, unless the read that begins
it is interrupted. -/
theorem next_of_gives {u : ByteSource} {bytes : List UInt8} (hstatus : d.status = .reading)
    (h : d.source.Gives (String.utf8EncodeChar c ++ bytes) u)
    (hread : d.source.read.1 ≠ .interrupted) :
    ∃ d', d.next = (some c, d') ∧ d'.source.Gives bytes u := by
  obtain ⟨b, rest, hc, hlength⟩ := Utf8.sequenceLength_head c
  rw [hc, List.cons_append] at h
  obtain ⟨s, hread, hs⟩ := h.read_cons.resolve_left hread
  obtain ⟨t, hexact, ht⟩ := hs.readExact
  have hdecode := (Utf8.decode?_eq_some hlength).mpr hc.symm
  have hzero : Utf8.sequenceLength b ≠ 0 := by omega
  simp only [next, hstatus, hread, complete, if_neg hzero]
  simp only [hlength, Nat.add_sub_cancel, hexact, hdecode]
  exact ⟨_, rfl, ht⟩

/-- With no interruption right behind a character, decoding goes the same way
without the interruptions. -/
theorem Delivers.uninterrupted (h : d.Delivers cs d')
    (hwhole : ∀ cs', ¬ d.source.BreaksAfter cs') :
    d.uninterrupted.Delivers cs d'.uninterrupted := by
  induction h with
  | stop hnext =>
      have hread := fun hint => hwhole [] (ByteSource.breaksAfter_nil.mpr hint)
      refine .stop ?_
      rw [next_uninterrupted hread, hnext]
  | char hnext _ ih =>
      have hread := read_of_next hnext
      have hgives := (gives_of_next hnext).2.2
      refine .char (by rw [next_uninterrupted hread, hnext]) (ih ?_)
      rintro cs' ⟨later, hlater⟩
      exact hwhole (_ :: cs') ⟨later, hgives.trans hlater⟩

/-- Interruptions only ever cut off what comes last. -/
theorem Delivers.prefix_uninterrupted {d₀ : Decoder} {cs₀ : List Char} (h : d.Delivers cs d')
    (h₀ : d.uninterrupted.Delivers cs₀ d₀) : cs <+: cs₀ := by
  induction h generalizing cs₀ with
  | stop _ => exact List.nil_prefix
  | char hnext _ ih =>
      have hnext₀ := next_uninterrupted (read_of_next hnext)
      rw [hnext] at hnext₀
      cases h₀ with
      | stop h => cases hnext₀.symm.trans h
      | char h hrest =>
          cases hnext₀.symm.trans h
          exact (List.prefix_cons_inj _).mpr (ih hrest)

/-- Decoding ends at the first interruption that lies right behind a
character. -/
theorem Delivers.broken (h : d.Delivers cs d') (hstatus : d.status = .reading)
    (hbreak : d.source.BreaksAfter cs') :
    cs <+: cs' ∧ d.source.BreaksAfter cs ∧ d'.status = .failed (.io interruptedReason) := by
  induction h generalizing cs' with
  | @stop d _ hnext =>
      by_cases hread : d.source.read.1 = .interrupted
      · obtain ⟨e, he, hfailed⟩ := next_of_interrupted hstatus hread
        obtain rfl := (Prod.mk.inj (hnext.symm.trans he)).2
        exact ⟨List.nil_prefix, ByteSource.breaksAfter_nil.mpr hread, hfailed⟩
      · cases cs' with
        | nil => exact absurd (ByteSource.breaksAfter_nil.mp hbreak) hread
        | cons c cs' =>
            obtain ⟨later, hgives⟩ := hbreak
            obtain ⟨e, he, -⟩ := next_of_gives hstatus hgives hread
            cases hnext.symm.trans he
  | @char d _ _ _ _ hnext _ ih =>
      obtain ⟨-, hstatus', hgiven⟩ := gives_of_next hnext
      have hread := read_of_next hnext
      cases cs' with
      | nil => exact absurd (ByteSource.breaksAfter_nil.mp hbreak) hread
      | cons c cs' =>
          obtain ⟨later, hgives⟩ := hbreak
          obtain ⟨e, he, hrest⟩ := next_of_gives hstatus hgives hread
          cases hnext.symm.trans he
          obtain ⟨hfront, ⟨later', hgives'⟩, hfailed⟩ := ih hstatus' ⟨later, hrest⟩
          exact ⟨(List.prefix_cons_inj _).mpr hfront, ⟨later', hgiven.trans hgives'⟩, hfailed⟩

theorem exists_delivers_all (d : Decoder) : ∃ cs d', d.Delivers cs d' := by
  induction hn : d.source.size using Nat.strongRecOn generalizing d with
  | ind n ih =>
      rcases hnext : d.next with ⟨_ | c, d₁⟩
      · exact ⟨[], d₁, .stop hnext⟩
      · obtain ⟨cs, d', h⟩ := ih _ (hn ▸ size_next_lt hnext) d₁ rfl
        exact ⟨c :: cs, d', .char hnext h⟩

end Decoder

/-! ## Readers -/

theorem CharStream.drain_of_delivers {source : ByteSource} {cs : List Char} {d : Decoder}
    (name : String) (h : ({ source } : Decoder).Delivers cs d) :
    ∃ r, (CharStream.ofSource source name).drain = (cs, .reader r) ∧ r.decoder = d := by
  obtain ⟨r, hlast, hdecoder⟩ :=
    CharStream.exists_drain_reader (r := Reader.ofSource source name) h
  refine ⟨r, Prod.ext ?_ hlast, hdecoder⟩
  show (CharStream.reader (Reader.ofSource source name)).drain.1 = cs
  rw [(CharStream.shows_reader (r := Reader.ofSource source name) rfl).drain]
  exact h.delivered_eq

/-- Interrupted reads make no difference to what comes out of a reader and how
it ends, as long as none of them lies right behind a character, or in front of
all. Otherwise the reader fails at the first one that does, with the
characters up to there. -/
theorem drain_of_interrupted (chunks : List Chunk) (name : String) :
    ∃ cs r cs₀ r₀,
      (CharStream.ofSource { chunks } name).drain = (cs, .reader r)
        ∧ (CharStream.ofSource ({ chunks : ByteSource }).uninterrupted name).drain
          = (cs₀, .reader r₀)
        ∧ cs <+: cs₀
        ∧ ((∀ cs', ¬ ({ chunks : ByteSource }).BreaksAfter cs') →
          cs = cs₀ ∧ r.decoder.status = r₀.decoder.status)
        ∧ ∀ cs', ({ chunks : ByteSource }).BreaksAfter cs' →
          cs <+: cs' ∧ ({ chunks : ByteSource }).BreaksAfter cs
            ∧ r.decoder.status = .failed (.io interruptedReason) := by
  let d : Decoder := { source := { chunks } }
  obtain ⟨cs, e, hdelivers⟩ := d.exists_delivers_all
  obtain ⟨cs₀, e₀, hdelivers₀⟩ := d.uninterrupted.exists_delivers_all
  obtain ⟨r, hdrain, rfl⟩ := CharStream.drain_of_delivers name hdelivers
  obtain ⟨r₀, hdrain₀, rfl⟩ := CharStream.drain_of_delivers name hdelivers₀
  refine ⟨cs, r, cs₀, r₀, hdrain, hdrain₀, hdelivers.prefix_uninterrupted hdelivers₀, ?_, ?_⟩
  · intro hwhole
    have hsame := hdelivers.uninterrupted hwhole
    obtain ⟨r₁, hdrain₁, hdecoder⟩ := CharStream.drain_of_delivers name hsame
    cases hdrain₀.symm.trans hdrain₁
    exact ⟨rfl, (congrArg Decoder.status hdecoder).symm⟩
  · intro cs' hbreak
    exact hdelivers.broken rfl hbreak

/-- A character that is interrupted comes out whole. -/
theorem drain_of_interrupted_inside :
    ∃ r, (CharStream.ofSource
        { chunks := [.bytes [0xe2], .interrupted, .bytes [0x82, 0xac]] } "euro").drain
          = (['€'], .reader r)
        ∧ r.decoder.status = .closed := by
  have hwhole : ∀ cs, ¬ ({ chunks := [.bytes [0xe2], .interrupted, .bytes [0x82, 0xac]] }
      : ByteSource).BreaksAfter cs := by
    rintro cs ⟨later, before, -, hchunks, hbytes⟩
    -- in front of the interruption is the first byte, which is no text
    have hbefore : before = [.bytes [0xe2]] := by
      rcases before with _ | ⟨_, _ | ⟨_, _ | ⟨_, before⟩⟩⟩ <;> simp_all
    subst hbefore
    cases cs with
    | nil => simp [Chunk.data] at hbytes
    | cons c cs =>
        have hdecode := Utf8.decode?_utf8EncodeChar_append c (Utf8.encode cs)
        rw [← Utf8.encode_cons, ← List.append_nil (Utf8.encode (c :: cs)), ← hbytes] at hdecode
        cases hdecode
  have hdelivers : ({ source := { chunks := [.bytes [0xe2], .bytes [0x82, 0xac]] } }
      : Decoder).Delivers ['€'] _ :=
    .char rfl (.stop rfl)
  obtain ⟨r₁, hdrain₁, hdecoder⟩ := CharStream.drain_of_delivers "euro" hdelivers
  obtain ⟨cs, r, cs₀, r₀, hdrain, hdrain₀, -, hsame, -⟩ := drain_of_interrupted
    [.bytes [0xe2], .interrupted, .bytes [0x82, 0xac]] "euro"
  obtain ⟨rfl, hstatus⟩ := hsame hwhole
  cases hdrain₀.symm.trans hdrain₁
  exact ⟨r, hdrain, hstatus.trans (congrArg Decoder.status hdecoder)⟩

/-- An interruption between two characters loses the second of them. -/
theorem drain_interrupted_between :
    ∃ r r₀,
      (CharStream.ofSource { chunks := [.bytes [0x61], .interrupted, .bytes [0x62]] } "ab").drain
          = (['a'], .reader r)
        ∧ r.decoder.status = .failed (.io interruptedReason)
        ∧ (CharStream.ofSource { chunks := [.bytes [0x61], .bytes [0x62]] } "ab").drain
          = (['a', 'b'], .reader r₀)
        ∧ r₀.decoder.status = .closed := by
  have hbroken : ({ source := { chunks := [.bytes [0x61], .interrupted, .bytes [0x62]] } }
      : Decoder).Delivers ['a'] _ :=
    .char rfl (.stop rfl)
  have hwhole : ({ source := { chunks := [.bytes [0x61], .bytes [0x62]] } }
      : Decoder).Delivers ['a', 'b'] _ :=
    .char rfl (.char rfl (.stop rfl))
  obtain ⟨r, hdrain, hdecoder⟩ := CharStream.drain_of_delivers "ab" hbroken
  obtain ⟨r₀, hdrain₀, hdecoder₀⟩ := CharStream.drain_of_delivers "ab" hwhole
  exact ⟨r, r₀, hdrain, congrArg Decoder.status hdecoder, hdrain₀,
    congrArg Decoder.status hdecoder₀⟩

end ModalLexer
