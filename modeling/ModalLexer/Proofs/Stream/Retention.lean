import ModalLexer.Proofs.Stream.Window

/-!
# What markers keep

The end of the window never moves back, whatever a reader is asked. Its
beginning moves only while no marker is outstanding, and stands at the current
index then (`Reader.start_eq_index`). So from a mark on, for as long as at
least as many markers are outstanding as the mark made it, nothing is lost of
the characters from there up to the farthest one ever read, and they can be
gone back to and quoted (`markers_keep_characters`).

How often other markers are handed out and given back meanwhile, and in which
order, makes no difference: `ServesHolding` counts them and does not ask which
ones they are.
-/

namespace ModalLexer

open CharStream

namespace CharStream.Serves

variable {s t u : CharStream} {requests rest : List Request}

theorem append (hfirst : s.Serves requests t) (hrest : t.Serves rest u) :
    s.Serves (requests ++ rest) u := by
  induction hfirst with
  | nil => exact hrest
  | cons hstep _ ih => exact .cons hstep (ih hrest)

/-- A request has one answer, so a sequence of them goes on from where its first
part has led. -/
theorem split (hfirst : s.Serves requests t) (h : s.Serves (requests ++ rest) u) :
    t.Serves rest u := by
  induction hfirst with
  | nil => exact h
  | cons hstep _ ih =>
      cases h with
      | cons hstep' hrest' =>
          obtain ⟨-, rfl⟩ := Prod.mk.inj (Except.ok.inj (hstep'.symm.trans hstep))
          exact ih hrest'

end CharStream.Serves

namespace Reader

variable {r r' r'' : Reader} {cs : List Char}

/-! ## Moving the window -/

/-- With no marker outstanding, nothing that has been consumed is kept. -/
theorem start_eq_index (h : r.markers = 0) : r.bufferStart = r.index := by
  rw [index, r.offset_eq_zero h, Nat.add_zero]

/-- A reader keeps its end wherever it is placed. -/
@[simp] theorem bufferStop_place {markers p : Nat} (h : p ≤ r.buffer.size) :
    (r.place markers p h).bufferStop = r.bufferStop := by
  unfold place bufferStop
  split
  · simp only [Array.size_extract]
    omega
  · rfl

theorem bufferStop_fill_le (r : Reader) (n : Nat) : r.bufferStop ≤ (r.fill n).bufferStop := by
  simp only [bufferStop, bufferStart_fill, r.size_fill]
  omega

/-- The window of the second reader goes as far as that of the first, and if a
marker is outstanding also begins where that one does. -/
structure Widens (r r' : Reader) : Prop where
  markers_eq : r'.markers = r.markers
  stop_le : r.bufferStop ≤ r'.bufferStop
  start_eq : 0 < r.markers → r'.bufferStart = r.bufferStart

namespace Widens

theorem refl (r : Reader) : r.Widens r := ⟨rfl, Nat.le_refl _, fun _ => rfl⟩

theorem trans (h : r.Widens r') (h' : r'.Widens r'') : r.Widens r'' where
  markers_eq := h'.markers_eq.trans h.markers_eq
  stop_le := Nat.le_trans h.stop_le h'.stop_le
  start_eq hmark := (h'.start_eq (h.markers_eq ▸ hmark)).trans (h.start_eq hmark)

theorem fill (r : Reader) (n : Nat) : r.Widens (r.fill n) where
  markers_eq := r.markers_fill n
  stop_le := r.bufferStop_fill_le n
  start_eq _ := r.bufferStart_fill n

theorem place {p : Nat} (h : p ≤ r.buffer.size) : r.Widens (r.place r.markers p h) where
  markers_eq := markers_place h
  stop_le := Nat.le_of_eq (bufferStop_place h).symm
  start_eq hmark := by rw [bufferStart_place, if_neg (Nat.ne_of_gt hmark)]

theorem of_moves (h : r.Moves r') : r.Widens r' := by
  induction h with
  | refl => exact refl _
  | fill n _ ih => exact ih.trans (fill _ n)
  | place hp _ ih => exact ih.trans (place hp)

end Widens

/-! ## Requests -/

/-- A marker is taken back only by its number, which is how many there are. -/
theorem release_eq_some {depth : Nat} (h : r.release depth = some r') :
    depth = r.markers ∧ r.markers = r'.markers + 1 ∧ r'.bufferStop = r.bufferStop
      ∧ (0 < r'.markers → r'.bufferStart = r.bufferStart) := by
  unfold Reader.release at h
  split at h
  · cases h
  · rename_i hturn
    obtain rfl := Option.some.inj h
    refine ⟨by omega, by rw [markers_place]; omega, bufferStop_place _, ?_⟩
    intro hmark
    rw [markers_place] at hmark
    rw [bufferStart_place, if_neg (Nat.ne_of_gt hmark)]

/-- No request moves the end of the window back, and its beginning stays where
it is unless no marker is left. -/
theorem window_of_answer {q : Request} {a : Answer}
    (h : ((reader r).answer q).outcome = .ok (a, reader r')) :
    r.bufferStop ≤ r'.bufferStop ∧ (0 < r'.markers → r'.bufferStart = r.bufferStart) := by
  obtain ⟨_, hreader, hcases⟩ := answer_cases h
  obtain rfl := CharStream.reader.inj hreader
  rcases hcases with hmoves | ⟨-, rfl⟩ | ⟨marker, -, hrelease⟩
  · have hwidens := Widens.of_moves hmoves
    exact ⟨hwidens.stop_le, fun hmark => hwidens.start_eq (hwidens.markers_eq ▸ hmark)⟩
  · exact ⟨Nat.le_refl _, fun _ => rfl⟩
  · obtain ⟨-, -, hstop, hstart⟩ := release_eq_some hrelease
    exact ⟨Nat.le_of_eq hstop.symm, hstart⟩

/-- A marker that is not the last of those outstanding is refused, and nothing
changes. -/
theorem answer_release_of_ne {marker : Marker} (h : marker.depth ≠ r.markers ∨ r.markers = 0) :
    (reader r).answer (.release marker) = {
      events := [.markerRejected marker.depth r.markers]
      outcome := .ok (.done, reader r) } := by
  have hnone : r.release marker.depth = none := if_pos h
  simp only [answer, CharStream.release, hnone]
  rfl

/-- The end of the window over a sequence of requests. -/
theorem bufferStop_serves {s u : CharStream} {requests : List Request}
    (h : s.Serves requests u) :
    ∀ {r r' : Reader}, s = reader r → u = reader r' → r.bufferStop ≤ r'.bufferStop := by
  induction h with
  | nil =>
      intro r r' hr hr'
      obtain rfl := CharStream.reader.inj (hr.symm.trans hr')
      exact Nat.le_refl _
  | cons hstep _ ih =>
      intro r r' hr hr'
      subst hr
      obtain ⟨m, rfl, -⟩ := Keeps.answer hstep
      exact Nat.le_trans (window_of_answer hstep).1 (ih rfl hr')

/-! ## Markers held -/

/-- The requests are answered one after the other, and never are fewer than `d`
markers outstanding. -/
inductive ServesHolding (d : Nat) : Reader → List Request → Reader → Prop
  | nil {r : Reader} : ServesHolding d r [] r
  | cons {r m r' : Reader} {q : Request} {requests : List Request} {a : Answer}
      (hstep : ((reader r).answer q).outcome = .ok (a, reader m)) (hheld : d ≤ m.markers)
      (hrest : ServesHolding d m requests r') : ServesHolding d r (q :: requests) r'

namespace ServesHolding

variable {d : Nat} {requests : List Request}

theorem serves (h : r.ServesHolding d requests r') : (reader r).Serves requests (reader r') := by
  induction h with
  | nil => exact .nil
  | cons hstep _ _ ih => exact .cons hstep ih

/-- Markers are held for as long as the last of them is not given back by its
number: of those handed out later, none stands for it. -/
theorem of_serves {s u : CharStream} (h : s.Serves requests u)
    (hkept : ∀ marker, .release marker ∈ requests → marker.depth ≠ d) :
    ∀ {r r' : Reader}, s = reader r → u = reader r' → d ≤ r.markers →
      r.ServesHolding d requests r' := by
  induction h with
  | nil =>
      intro r r' hr hr' _
      obtain rfl := CharStream.reader.inj (hr.symm.trans hr')
      exact .nil
  | @cons _ _ _ q _ _ hstep _ ih =>
      intro r r' hr hr' hd
      subst hr
      obtain ⟨m, rfl, hcases⟩ := answer_cases hstep
      have hheld : d ≤ m.markers := by
        rcases hcases with hmoves | ⟨-, rfl⟩ | ⟨marker, rfl, hrelease⟩
        · exact (Widens.of_moves hmoves).markers_eq ▸ hd
        · exact Nat.le_succ_of_le hd
        · obtain ⟨hdepth, hmarkers, -, -⟩ := release_eq_some hrelease
          have hne := hkept marker (List.mem_cons_self ..)
          omega
      exact .cons hstep hheld
        (ih (fun marker hmem => hkept marker (List.mem_cons_of_mem _ hmem)) rfl hr' hheld)

/-- While a marker is held, the window begins where it did. -/
theorem bufferStart_eq (h : r.ServesHolding d requests r') (hd : 0 < d) :
    r'.bufferStart = r.bufferStart := by
  induction h with
  | nil => rfl
  | cons hstep hheld _ ih =>
      exact ih.trans ((window_of_answer hstep).2 (Nat.lt_of_lt_of_le hd hheld))

end ServesHolding

/-- Every character from index `k` on that has been read is still there: it can
be gone back to, and the text in between can be quoted. -/
structure Retains (cs : List Char) (k : Nat) (r : Reader) : Prop where
  start_le : r.bufferStart ≤ k
  seek : ∀ i, k ≤ i → i ≤ r.bufferStop →
    ∃ u, r.seek i = .ok u ∧ u.index = i ∧ u.peek.1 = cs[i]?
  slice : ∀ a b, k ≤ a → b ≤ r.bufferStop → r.slice a b = String.ofList (cs.extract a b)

theorem retains_of_start_le {k : Nat} (hs : (reader r).Shows cs) (hk : r.bufferStart ≤ k) :
    r.Retains cs k where
  start_le := hk
  seek i hki hi := by
    obtain ⟨u, hseek, hindex⟩ := index_seek hs (Nat.le_trans hk hki)
    have hi' : u.index = i := by
      rw [hindex, Nat.min_eq_left (Nat.le_trans hi (bufferStop_le hs))]
    refine ⟨u, hseek, hi', ?_⟩
    have hpeek := ((Keeps.of_moves (Moves.seek hseek)).shows hs).peek_fst
    rw [show (reader u).index = i from hi'] at hpeek
    exact hpeek
  slice a b ha hb := slice_reader hs (Nat.le_trans hk ha) (.inl hb)

end Reader

/-- Wherever requests have led a reader: without a marker nothing behind the
current index is kept, and a marker given back out of turn changes nothing. A
mark made there keeps everything from the current index up to the farthest
character that the reader has ever had, until so many markers have been given
back that fewer are outstanding than right after it. -/
theorem markers_keep_characters {r₀ r : Reader} {cs : List Char} {before : List Request}
    (hs : (reader r₀).Shows cs) (hbefore : (reader r₀).Serves before (reader r)) :
    (r.markers = 0 → r.bufferStart = r.index)
      ∧ (∀ marker : Marker, marker.depth ≠ r.markers ∨ r.markers = 0 →
        (reader r).answer (.release marker) = {
          events := [.markerRejected marker.depth r.markers]
          outcome := .ok (.done, reader r) })
      ∧ ∀ after r', r.mark.2.ServesHolding (r.markers + 1) after r' →
        (∀ requests m, requests <+: before ++ .mark :: after →
          (reader r₀).Serves requests (reader m) → m.bufferStop ≤ r'.bufferStop)
        ∧ r'.Retains cs r.index := by
  refine ⟨Reader.start_eq_index, fun _ => Reader.answer_release_of_ne, ?_⟩
  intro after r' hheld
  have hafter : (reader r).Serves (.mark :: after) (reader r') := .cons rfl hheld.serves
  have hall := hbefore.append hafter
  constructor
  · rintro requests m ⟨rest, hsplit⟩ hm
    rw [← hsplit] at hall
    exact Reader.bufferStop_serves (hm.split hall) rfl rfl
  · obtain ⟨_, heq, hkeeps⟩ := Reader.Keeps.serves hall rfl
    obtain rfl := CharStream.reader.inj heq
    refine Reader.retains_of_start_le (hkeeps.shows hs) ?_
    rw [hheld.bufferStart_eq (Nat.succ_pos _)]
    exact Nat.le_add_right ..

/-- A marker set behind the first of four characters, which come in pieces, is
held over a way back, a farther look ahead, and another marker that is given
back twice. -/
theorem markers_keep_characters_nested :
    let source : ByteSource := { chunks := [.bytes [0x61, 0xe2], .bytes [0x82, 0xac, 0x62, 0x63]] }
    let after : List Request :=
      [.lookahead 3, .consume, .mark, .release ⟨7⟩, .consume, .release ⟨2⟩, .seek 1, .release ⟨2⟩]
    ∃ r r', (ofSource source "pieces").Serves [.consume] (reader r) ∧ r.index = 1
      ∧ r.mark.2.ServesHolding 1 after r' ∧ r'.Retains ({ source } : Decoder).delivered 1 := by
  intro source after
  have hs := shows_reader (r := .ofSource source "pieces") rfl
  have hconsume : (ofSource source "pieces").Serves [.consume]
      (reader (Reader.ofSource source "pieces").consume) := .cons rfl .nil
  have hindex : (Reader.ofSource source "pieces").consume.index = 1 := by decide +kernel
  have hmarkers : (Reader.ofSource source "pieces").consume.markers = 0 := by decide +kernel
  have hlength := ({ source } : Decoder).length_delivered_le
  have hin : ∀ i, .lookahead i ∈ after →
      1 ≤ i ∧ ({ source } : Decoder).delivered.length + i < Checked.unsignedLimit := by
    intro i hi
    obtain rfl : i = 3 := by simpa [after] using hi
    exact ⟨by decide, Nat.lt_of_le_of_lt (Nat.add_le_add_right hlength 3) (by decide)⟩
  obtain ⟨u, hafter⟩ := Reader.exists_serves
    (CharStream.Shows.mark (s := .reader _) (hs.consume : (reader _).Shows _)) hin
  obtain ⟨r', rfl, -⟩ := Reader.Keeps.serves hafter rfl
  have hheld := Reader.ServesHolding.of_serves (d := 1) hafter (by simp [after]) rfl rfl
    (Nat.le_add_left 1 _)
  refine ⟨_, r', hconsume, hindex, hheld, ?_⟩
  have hkeep := (markers_keep_characters hs hconsume).2.2 after r' (hmarkers ▸ hheld)
  exact hindex ▸ hkeep.2

end ModalLexer
