import ModalLexer.Proofs.Stream.Motion

/-!
# Readers as windows on a text

All that can be asked of a stream is a `Request`, and `Serves` is a stream
answering one request after the other. No request changes the text that a
reader shows, whatever the order they come in and whichever markers are given
back. Its buffer is therefore a window on that text, and `Simulates` lists
what this amounts to: every answer is the one of a text stream at the same
index, as far as the window reaches back.

What a request can do to a reader is said once: all but a mark and a release
are `Moves` of it (`answer_cases`). `Keeps` is what each request leaves as it
was. It holds over every sequence of requests by induction, and everything else
is read off the reader at its end.
-/

namespace ModalLexer

/-- What can be asked of a stream. -/
inductive Request where
  | lookahead (distance : Nat)
  | consume
  | mark
  | release (marker : Marker)
  | seek (index : Nat)
  | slice (a b : Nat)
  deriving DecidableEq, Repr

inductive Answer where
  | character (c? : Option Char)
  | done
  | marker (marker : Marker)
  | refused (error : StreamError)
  | text (text : String)
  deriving DecidableEq, Repr

namespace CharStream

/-- The answer to a request and the stream after it. A refusal leaves the
stream as it was. -/
def answer (s : CharStream) : Request → Run (Answer × CharStream)
  | .lookahead distance => do
    let (c?, s) ← s.lookahead distance
    return (.character c?, s)
  | .consume => return (.done, s.consume)
  | .mark => return (.marker s.mark.1, s.mark.2)
  | .release marker => return (.done, ← s.release marker)
  | .seek index =>
    match s.seek index with
    | .ok s => return (.done, s)
    | .error error => return (.refused error, s)
  | .slice a b => return (.text (s.slice a b), s)

/-- A look ahead counts from one and stays in the range of an index. All else
can be asked at any time. -/
def Admits (s : CharStream) : Request → Prop
  | .lookahead distance => 1 ≤ distance ∧ s.index + distance < Checked.unsignedLimit
  | _ => True

/-- The requests are answered one after the other. -/
inductive Serves : CharStream → List Request → CharStream → Prop
  | nil {s : CharStream} : Serves s [] s
  | cons {s t u : CharStream} {q : Request} {requests : List Request} {a : Answer}
      (hstep : (s.answer q).outcome = .ok (a, t)) (hrest : Serves t requests u) :
      Serves s (q :: requests) u

end CharStream

open CharStream

namespace Reader

/-! ## What a request does -/

/-- The second reader is the first one after it has read ahead and moved about
in its buffer, with as many markers as before. -/
inductive Moves : Reader → Reader → Prop
  | refl {r : Reader} : Moves r r
  | fill {r r' : Reader} (n : Nat) (h : Moves r r') : Moves r (r'.fill n)
  | place {r r' : Reader} {p : Nat} (hp : p ≤ r'.buffer.size) (h : Moves r r') :
      Moves r (r'.place r'.markers p hp)

namespace Moves

variable {r r' r'' : Reader}

theorem trans (h : r.Moves r') (h' : r'.Moves r'') : r.Moves r'' := by
  induction h' with
  | refl => exact h
  | fill n _ ih => exact ih.fill n
  | place hp _ ih => exact ih.place hp

theorem consume (r : Reader) : r.Moves r.consume := by
  have hfill : r.Moves (r.fill 1) := .fill 1 .refl
  rw [consume_reader]
  split
  · rename_i hlt
    have hplace := hfill.place hlt
    rw [markers_fill] at hplace
    exact hplace
  · exact hfill

theorem advance : ∀ (n : Nat) (r : Reader), r.Moves (r.advance n)
  | 0, _ => .refl
  | n + 1, r => by
      have hfill : r.Moves (r.fill 1) := .fill 1 .refl
      rw [Reader.advance, r.peek_eq]
      cases r.chars[r.offset]? with
      | none => exact hfill
      | some c => exact hfill.trans ((consume _).trans (advance n _))

theorem seek {i : Nat} (h : r.seek i = .ok r') : r.Moves r' := by
  simp only [Reader.seek] at h
  split at h
  · cases h
  · split at h
    · obtain rfl := Except.ok.inj h
      exact .place _ .refl
    · obtain rfl := Except.ok.inj h
      exact advance _ r

end Moves

/-- A reader that has answered is still a reader. Only a mark and a release
change the number of markers; all else is a move. -/
theorem answer_cases {r : Reader} {q : Request} {a : Answer} {u : CharStream}
    (h : ((reader r).answer q).outcome = .ok (a, u)) : ∃ r', u = reader r' ∧ (r.Moves r'
      ∨ (q = .mark ∧ r' = r.mark.2)
      ∨ ∃ marker, q = .release marker ∧ r.release marker.depth = some r') := by
  cases q with
  | lookahead distance =>
      obtain ⟨⟨c?, t⟩, hlook, heq⟩ := Run.outcome_bind_eq_ok.mp h
      obtain ⟨-, rfl⟩ := Prod.mk.inj (Except.ok.inj heq)
      obtain ⟨-, -, rfl⟩ := lookahead_reader.mp hlook
      exact ⟨_, rfl, .inl (.fill distance .refl)⟩
  | consume =>
      obtain ⟨-, rfl⟩ := Prod.mk.inj (Except.ok.inj h)
      exact ⟨_, rfl, .inl (.consume r)⟩
  | mark =>
      obtain ⟨-, rfl⟩ := Prod.mk.inj (Except.ok.inj h)
      exact ⟨_, rfl, .inr (.inl ⟨rfl, rfl⟩)⟩
  | release marker =>
      obtain ⟨t, hrelease, heq⟩ := Run.outcome_bind_eq_ok.mp h
      obtain ⟨-, rfl⟩ := Prod.mk.inj (Except.ok.inj heq)
      simp only [CharStream.release] at hrelease
      cases hr : r.release marker.depth with
      | none =>
          simp only [hr] at hrelease
          obtain rfl := Except.ok.inj hrelease
          exact ⟨r, rfl, .inl .refl⟩
      | some r' =>
          simp only [hr] at hrelease
          obtain rfl := Except.ok.inj hrelease
          exact ⟨r', rfl, .inr (.inr ⟨marker, rfl, hr⟩)⟩
  | seek index =>
      simp only [CharStream.answer, CharStream.seek] at h
      cases hr : r.seek index with
      | error e =>
          simp only [hr] at h
          obtain ⟨-, rfl⟩ := Prod.mk.inj (Except.ok.inj h)
          exact ⟨r, rfl, .inl .refl⟩
      | ok r' =>
          simp only [hr] at h
          obtain ⟨-, rfl⟩ := Prod.mk.inj (Except.ok.inj h)
          exact ⟨r', rfl, .inl (.seek hr)⟩
  | slice a b =>
      obtain ⟨-, rfl⟩ := Prod.mk.inj (Except.ok.inj h)
      exact ⟨r, rfl, .inl .refl⟩

/-! ## What no request changes -/

/-- The second reader shows the text of the first, and has the same decoder if
that one had ended. -/
structure Keeps (r r' : Reader) : Prop where
  shows : ∀ {cs : List Char}, (reader r).Shows cs → (reader r').Shows cs
  decoder_eq : r.decoder.status ≠ .reading → r'.decoder = r.decoder

namespace Keeps

variable {r r' r'' : Reader}

theorem refl (r : Reader) : r.Keeps r := ⟨id, fun _ => rfl⟩

theorem trans (h : r.Keeps r') (h' : r'.Keeps r'') : r.Keeps r'' where
  shows hs := h'.shows (h.shows hs)
  decoder_eq hend := by
    have heq := h.decoder_eq hend
    rw [h'.decoder_eq (heq ▸ hend), heq]

theorem fill (r : Reader) (n : Nat) : r.Keeps (r.fill n) where
  shows hs := hs.fill n
  decoder_eq hend := r.decoder_readMore_of_not_reading hend _

theorem place {markers p : Nat} (h : p ≤ r.buffer.size) : r.Keeps (r.place markers p h) where
  shows hs := hs.place h
  decoder_eq _ := decoder_place h

theorem of_moves (h : r.Moves r') : r.Keeps r' := by
  induction h with
  | refl => exact refl _
  | fill n _ ih => exact ih.trans (fill _ n)
  | place hp _ ih => exact ih.trans (place hp)

theorem release {marker : Nat} (h : r.release marker = some r') : r.Keeps r' := by
  simp only [Reader.release] at h
  split at h
  · cases h
  · obtain rfl := Option.some.inj h
    exact place _

/-- A reader that has answered keeps what it must. -/
theorem answer {q : Request} {a : Answer} {u : CharStream}
    (h : ((reader r).answer q).outcome = .ok (a, u)) : ∃ r', u = reader r' ∧ r.Keeps r' := by
  obtain ⟨r', hu, hmoves | ⟨-, rfl⟩ | ⟨marker, -, hrelease⟩⟩ := answer_cases h
  · exact ⟨r', hu, of_moves hmoves⟩
  · exact ⟨_, hu, ⟨id, fun _ => rfl⟩⟩
  · exact ⟨r', hu, release hrelease⟩

theorem serves {s u : CharStream} {requests : List Request} (h : s.Serves requests u) :
    ∀ {r : Reader}, s = reader r → ∃ r', u = reader r' ∧ r.Keeps r' := by
  induction h with
  | nil =>
      intro r hr
      exact ⟨r, hr, refl r⟩
  | cons hstep _ ih =>
      intro r hr
      subst hr
      obtain ⟨r', rfl, hfirst⟩ := answer hstep
      obtain ⟨r'', rfl, hrest⟩ := ih rfl
      exact ⟨r'', rfl, hfirst.trans hrest⟩

end Keeps

/-! ## The window -/

section

variable {r : Reader} {cs : List Char}

theorem bufferStop_le (h : (reader r).Shows cs) : r.bufferStop ≤ cs.length := by
  obtain ⟨hstart, hchars⟩ := h
  have hlen := congrArg List.length hchars
  have hsize := r.size_le_length_chars
  rw [List.length_drop] at hlen
  simp only [bufferStop]
  omega

theorem toList_buffer (h : (reader r).Shows cs) :
    r.buffer.toList = cs.extract r.bufferStart r.bufferStop := by
  have hsub : r.bufferStop - r.bufferStart = r.buffer.toList.length := by
    simp [bufferStop]
  rw [List.extract_eq_take_drop, hsub, h.2, chars, List.take_left]

/-- What comes at a distance is what the text has there. -/
theorem getElem?_chars (h : (reader r).Shows cs) {i : Nat} (hi : i ≠ 0) :
    r.chars[r.offset + i - 1]? = cs[r.index + i - 1]? := by
  rw [← h.2, List.getElem?_drop, index]
  congr 1
  omega

/-- Passing characters one by one comes to the end and no further. -/
theorem index_advance : ∀ (n : Nat) {r : Reader}, (reader r).Shows cs →
    (r.advance n).index = min (r.index + n) cs.length
  | 0, r, h => (Nat.min_eq_left h.index_le).symm
  | n + 1, r, h => by
      have hshown := h.peek_fst
      simp only [CharStream.peek, r.peek_eq, CharStream.index] at hshown
      rw [Reader.advance, r.peek_eq]
      cases hc : r.chars[r.offset]? with
      | none =>
          have hend := List.getElem?_eq_none_iff.mp (hshown ▸ hc)
          have hle := h.index_le
          simp only [CharStream.index] at hle
          simp only [index_fill]
          omega
      | some c =>
          obtain ⟨hlt, -⟩ := List.getElem?_eq_some_iff.mp (hshown ▸ hc)
          have hfill := h.fill 1
          have hnext := index_advance n hfill.consume
          have hmoved := hfill.index_consume_of_lt (by simpa [CharStream.index] using hlt)
          simp only [CharStream.consume, CharStream.index, index_fill] at hmoved
          simp only [hnext, hmoved]
          omega

/-- Seeking works from the beginning of the buffer on. -/
theorem index_seek (h : (reader r).Shows cs) {i : Nat} (hi : r.bufferStart ≤ i) :
    ∃ r', r.seek i = .ok r' ∧ r'.index = min i cs.length := by
  have hstop := bufferStop_le h
  have hle := r.offset_le
  rw [Reader.seek, if_neg (Nat.not_lt.mpr hi)]
  split
  · refine ⟨_, rfl, ?_⟩
    rw [index_place]
    omega
  · refine ⟨_, rfl, ?_⟩
    rw [index_advance _ h]
    simp only [bufferStop, index] at *
    omega

/-- A quotation is the part of what is asked for that lies in the window. -/
theorem slice_window (h : (reader r).Shows cs) (a b : Nat) :
    r.slice a b = String.ofList (cs.extract (max a r.bufferStart) (min b r.bufferStop)) := by
  have hclip : r.slice a b = r.slice (max a r.bufferStart) (min b r.bufferStop) := by
    have hstart : max a r.bufferStart - r.bufferStart = a - r.bufferStart := by omega
    simp only [Reader.slice, Array.toList_extract, List.extract_eq_take_drop, hstart, bufferStop]
    congr 1
    rw [List.take_eq_take_iff, List.length_drop, Array.length_toList]
    omega
  rw [hclip]
  exact slice_reader h (Nat.le_max_right ..) (.inl (Nat.min_le_right ..))

/-- Once a look ahead has shown the end, the decoder has ended as well. -/
theorem end_of_lookahead (h : (reader r).Shows cs) {r' : Reader}
    (hlook : r.lookahead 1 = .ok (none, r')) :
    r.index = cs.length ∧ r'.decoder.status ≠ .reading := by
  obtain ⟨-, hnone, rfl⟩ := r.lookahead_eq_ok.mp hlook
  have hle : r.chars.length ≤ r.offset := List.getElem?_eq_none_iff.mp hnone.symm
  have hindex := h.index_le
  have hge : ¬r.index < cs.length := fun hlt =>
    absurd (h.index_lt_iff.mpr hlt) (Nat.not_lt.mpr hle)
  exact ⟨Nat.le_antisymm hindex (Nat.le_of_not_lt hge), r.status_fill_one hnone.symm⟩

end

/-- The same reader over another source. -/
def withSource (r : Reader) (source : ByteSource) : Reader :=
  { r with decoder := { r.decoder with source } }

/-- The reader answers like a text stream at the same index, as far back as
its buffer reaches, and does not come back to its source once it has shown the
end. -/
structure Simulates (r : Reader) (t : TextStream) : Prop where
  index_eq : r.index = t.position
  start_le : r.bufferStart ≤ r.index
  index_le : r.index ≤ r.bufferStop
  stop_le : r.bufferStop ≤ t.chars.size
  buffer_eq : r.buffer = t.chars.extract r.bufferStart r.bufferStop
  /-- Everything that can be asked is answered. -/
  answers : ∀ q, (reader r).Admits q → ∃ a u, ((reader r).answer q).outcome = .ok (a, u)
  lookahead : ∀ i, 1 ≤ i → r.index + i < Checked.unsignedLimit →
    ∃ c? r', r.lookahead i = .ok (c?, r') ∧ t.lookahead i = .ok c? ∧ r'.index = r.index
  consume : r.consume.index = t.consume.position
    ∧ r.consume.index = if r.index < t.chars.size then r.index + 1 else r.index
  mark : r.mark.2.index = r.index
  release : ∀ marker r', r.release marker = some r' → r'.index = r.index
  seek : ∀ i, r.bufferStart ≤ i → ∃ r', r.seek i = .ok r' ∧ r'.index = (t.seek i).position
    ∧ r'.index = min i t.chars.size
  /-- What has been dropped cannot be gone back to, and nothing changes then. -/
  refuses : ∀ i, i < r.bufferStart →
    (reader r).answer (.seek i) = pure (.refused (.seekOutOfBuffer i r.bufferStart), .reader r)
  slice : ∀ a b, r.slice a b = t.slice (max a r.bufferStart) (min b r.bufferStop)
  /-- Whatever is to be read behind the end is never read. -/
  ends : ∀ r', r.lookahead 1 = .ok (none, r') → r.index = t.chars.size ∧
    ∀ source requests u, (reader (r'.withSource source)).Serves requests u →
      ∃ r'', u = reader r'' ∧ r''.decoder = { r'.decoder with source }

theorem exists_answer {r : Reader} {q : Request} (hq : (reader r).Admits q) :
    ∃ a u, ((reader r).answer q).outcome = .ok (a, u) := by
  cases q with
  | lookahead distance =>
      obtain ⟨hd, hlimit⟩ := hq
      simp only [CharStream.index, index] at hlimit
      have hlook := lookahead_reader.mpr ⟨⟨Nat.ne_of_gt hd, show r.offset + distance < _ by omega⟩,
        rfl, rfl⟩
      exact ⟨_, _, Run.outcome_bind_eq_ok.mpr ⟨_, hlook, rfl⟩⟩
  | consume => exact ⟨_, _, rfl⟩
  | mark => exact ⟨_, _, rfl⟩
  | release marker =>
      cases hr : r.release marker.depth with
      | none =>
          refine ⟨.done, reader r, Run.outcome_bind_eq_ok.mpr ⟨reader r, ?_, rfl⟩⟩
          simp only [CharStream.release, hr]
          rfl
      | some r' =>
          refine ⟨.done, reader r', Run.outcome_bind_eq_ok.mpr ⟨reader r', ?_, rfl⟩⟩
          simp only [CharStream.release, hr]
          rfl
  | seek i =>
      simp only [CharStream.answer, CharStream.seek]
      cases r.seek i with
      | error e => exact ⟨_, _, rfl⟩
      | ok r' => exact ⟨_, _, rfl⟩
  | slice a b => exact ⟨_, _, rfl⟩

/-- A reader simulates a text stream if it shows the text at the same index. -/
theorem simulates_of_shows {r : Reader} {t : TextStream}
    (h : (reader r).Shows t.chars.toList) (ht : r.index = t.position) : r.Simulates t where
  index_eq := ht
  start_le := Nat.le_add_right ..
  index_le := Nat.add_le_add_left r.offset_le _
  stop_le := by simpa using bufferStop_le h
  buffer_eq := by
    apply Array.toList_inj.mp
    rw [toList_buffer h, Array.toList_extract]
  answers _ := exists_answer
  lookahead i hi hlimit := by
    have hin : i ≠ 0 := Nat.ne_of_gt hi
    have hoffset : r.offset + i < Checked.unsignedLimit :=
      Nat.lt_of_le_of_lt (Nat.add_le_add_right (Nat.le_add_left ..) i) hlimit
    refine ⟨_, _, r.lookahead_eq_ok.mpr ⟨⟨hin, hoffset⟩, rfl, rfl⟩, ?_, r.index_fill i⟩
    rw [getElem?_chars h hin, Array.getElem?_toList, TextStream.lookahead, if_neg hin, ← ht,
      Checked.add_eq_ok hlimit]
    rfl
  consume := by
    have hreader := h.index_consume
    have htext := (show (text t).Shows t.chars.toList from rfl).index_consume
    rw [Array.length_toList] at hreader htext
    have hsame : (reader r).index = (text t).index := ht
    refine ⟨?_, hreader⟩
    rw [hsame, ← htext] at hreader
    exact hreader
  mark := rfl
  release marker r' hr := by
    simp only [Reader.release] at hr
    split at hr
    · cases hr
    · obtain rfl := Option.some.inj hr
      exact index_place _
  seek i hi := by
    obtain ⟨r', hseek, hindex⟩ := index_seek h hi
    rw [Array.length_toList] at hindex
    exact ⟨r', hseek, hindex, hindex⟩
  refuses i hi := by
    simp only [CharStream.answer, CharStream.seek, Reader.seek, if_pos hi]
    rfl
  slice a b := by
    rw [slice_window h, TextStream.slice, Array.toList_extract]
  ends r' hlook := by
    obtain ⟨hindex, hend⟩ := end_of_lookahead h hlook
    refine ⟨by simpa using hindex, fun source requests u hserves => ?_⟩
    obtain ⟨r'', rfl, hkeeps⟩ := Keeps.serves hserves rfl
    exact ⟨r'', rfl, hkeeps.decoder_eq hend⟩

/-- Requests that stay in range wherever the reader stands are all answered. -/
theorem exists_serves {cs : List Char} : ∀ {requests : List Request} {r : Reader},
    (reader r).Shows cs →
    (∀ i, .lookahead i ∈ requests → 1 ≤ i ∧ cs.length + i < Checked.unsignedLimit) →
    ∃ u, (reader r).Serves requests u
  | [], r, _, _ => ⟨reader r, .nil⟩
  | q :: requests, r, h, hin => by
      have hadmits : (reader r).Admits q := by
        cases q with
        | lookahead i =>
            obtain ⟨hi, hlimit⟩ := hin i (List.mem_cons_self ..)
            exact ⟨hi, Nat.lt_of_le_of_lt (Nat.add_le_add_right h.index_le i) hlimit⟩
        | _ => trivial
      obtain ⟨a, s, hstep⟩ := exists_answer hadmits
      obtain ⟨r', rfl, hkeeps⟩ := Keeps.answer hstep
      obtain ⟨u, hrest⟩ := exists_serves (hkeeps.shows h) fun i hi =>
        hin i (List.mem_cons_of_mem _ hi)
      exact ⟨u, .cons hstep hrest⟩

end Reader

/-- However a reader has been used since it was made, it simulates the text of
all the characters that its source delivers. -/
theorem reader_simulates_text (source : ByteSource) (name : String) (requests : List Request)
    (s : CharStream) (hserves : (ofSource source name).Serves requests s) :
    ∃ r, s = reader r ∧ r.Simulates
      ((TextStream.ofString (String.ofList ({ source } : Decoder).delivered) name).seek
        r.index) := by
  obtain ⟨r, rfl, hkeeps⟩ := Reader.Keeps.serves hserves rfl
  have hshows : (reader r).Shows ({ source } : Decoder).delivered :=
    hkeeps.shows (shows_reader (r := .ofSource source name) rfl)
  refine ⟨r, rfl, Reader.simulates_of_shows ?_ ?_⟩
  · simpa [TextStream.seek, TextStream.ofString] using hshows
  · have hindex : r.index ≤ ({ source } : Decoder).delivered.length := hshows.index_le
    simpa [TextStream.seek, TextStream.ofString] using (Nat.min_eq_left hindex).symm

/-- Three characters, one of them in pieces, with markers given back out of
order and a way back that has been closed. -/
theorem reader_simulates_text_pieces :
    let source : ByteSource := { chunks := [.bytes [0x61, 0xe2], .bytes [0x82, 0xac, 0x62]] }
    let requests : List Request := [.mark, .consume, .consume, .mark, .release ⟨1⟩, .release ⟨2⟩,
      .seek 0, .lookahead 9, .release ⟨1⟩, .consume, .seek 0, .slice 0 9]
    ∃ s r, (ofSource source "pieces").Serves requests s ∧ s = reader r ∧ r.Simulates
      ((TextStream.ofString (String.ofList ({ source } : Decoder).delivered) "pieces").seek
        r.index) := by
  intro source requests
  have hlength := ({ source } : Decoder).length_delivered_le
  have hin : ∀ i, .lookahead i ∈ requests →
      1 ≤ i ∧ ({ source } : Decoder).delivered.length + i < Checked.unsignedLimit := by
    intro i hi
    obtain rfl : i = 9 := by simpa [requests] using hi
    exact ⟨by decide, Nat.lt_of_le_of_lt (Nat.add_le_add_right hlength 9) (by decide)⟩
  obtain ⟨s, hserves⟩ :=
    Reader.exists_serves (shows_reader (r := .ofSource source "pieces") rfl) hin
  obtain ⟨r, hr, hsimulates⟩ := reader_simulates_text source "pieces" requests s hserves
  exact ⟨s, r, hserves, hr, hsimulates⟩

end ModalLexer
