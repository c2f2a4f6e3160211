import ModalLexer.Proofs.Lexer.Progress

/-!
# Ways of draining a lexer

The tokens of a lexer can be had by single calls, all at once, one by one, and
by channel. `Drains` says what the single calls come to: some tokens, and then
the sentinel or an error. The other ways are loops around the same call, so
each of them makes the same calls and stops at the same one. For each loop
there is one equation that says what a token is to it and one for the call
that ends it; the rest is an induction on `Drains`.

The loops take a limit on their rounds. What is said of them holds for every
limit that lets them come to the end. The limit by which a lexer runs them is
one of these, unless there are more tokens than characters and two to the power
of 64 together. A lexer that is ready gives out no more tokens than there are
characters, and so it is drained by all of these loops (`Ready.exists_drains`).
-/

namespace ModalLexer

variable {ρ : Type} [Recognizer ρ] {lx lx' : Lexer ρ} {events : List Event} {t : Token}
  {ts : List Token} {error? : Option LexerError} {channel : ChannelId} {others : Array Token}
  {limit n : Nat}

/-- A loop with a limit above something has a first round. -/
theorem exists_succ_of_lt (h : n < limit) : ∃ m, limit = m + 1 :=
  Nat.exists_eq_add_one_of_ne_zero (Nat.ne_zero_of_lt h)

/-! ## Runs whose first part is known -/

namespace Run

variable {α β : Type}

theorem ok_bind (events : List Event) (a : α) (f : α → Run β) :
    ({ events, outcome := .ok a } : Run α) >>= f = emit events >>= fun _ => f a := rfl

theorem emit_pure (events : List Event) (a : α) :
    (emit events >>= fun _ => pure a) = { events, outcome := .ok a } :=
  ext (List.append_nil events) rfl

end Run

/-! ## The calls -/

namespace Lexer

omit [Recognizer ρ] in
theorem remember_remember (lx : Lexer ρ) (result : Except LexerError Token) :
    (lx.remember result).1.remember (lx.remember result).2 = lx.remember result := by
  cases result <;> rfl

/-- Once a call is over, there is nothing more to be remembered of it. -/
theorem remember_of_nextToken {result : Except LexerError Token}
    (hcall : lx.nextToken = { events, outcome := .ok (lx', result) }) :
    lx'.remember result = (lx', result) := by
  obtain ⟨x, r, hx⟩ : ∃ (x : Lexer ρ) (r : Except LexerError Token),
      (lx', result) = x.remember r := by
    unfold nextToken at hcall
    split at hcall
    · exact ⟨lx, _, (Run.pure_eq_ok.mp hcall).1⟩
    · obtain ⟨_, ⟨h, r⟩, _, -, hrest, -⟩ := Run.bind_eq_ok.mp hcall
      obtain ⟨_, u, _, -, hlast, -⟩ := Run.bind_eq_ok.mp hrest
      exact ⟨_, r, (Run.pure_eq_ok.mp hlast).1⟩
  have hagain := remember_remember x r
  rwa [← hx] at hagain

/-- A call that gives out no token, because it comes to the end of them or
because it fails. -/
inductive Ends : Lexer ρ → List Event → Option LexerError → Lexer ρ → Prop
  | sentinel {lx lx' : Lexer ρ} {events : List Event} {t : Token}
      (hcall : lx.nextToken = { events, outcome := .ok (lx', .ok t) }) (heof : t.isEof = true) :
      Ends lx events none lx'
  | failure {lx lx' : Lexer ρ} {events : List Event} {e : LexerError}
      (hcall : lx.nextToken = { events, outcome := .ok (lx', .error e) }) :
      Ends lx events (some e) lx'

/-- A call that gives out a token and not the sentinel. -/
structure Gives (lx : Lexer ρ) (events : List Event) (t : Token) (lx' : Lexer ρ) : Prop where
  call : lx.nextToken = { events, outcome := .ok (lx', .ok t) }
  isEof : t.isEof = false

/-- Called again and again, the lexer gives out some tokens, and then comes to
the end of them or fails. -/
inductive Drains : Lexer ρ → List Event → List Token → Option LexerError → Lexer ρ → Prop
  | last {lx lx' : Lexer ρ} {events : List Event} {error? : Option LexerError}
      (hend : Ends lx events error? lx') : Drains lx events [] error? lx'
  | token {lx lx₁ lx' : Lexer ρ} {before after : List Event} {t : Token} {ts : List Token}
      {error? : Option LexerError} (hgives : Gives lx before t lx₁)
      (hrest : Drains lx₁ after ts error? lx') :
      Drains lx (before ++ after) (t :: ts) error? lx'

/-- There is nothing else that a call can come to but a fault. -/
theorem nextToken_cases (lx : Lexer ρ) :
    (∃ fault, lx.nextToken.outcome = .error fault)
      ∨ (∃ events error? lx', lx.Ends events error? lx')
      ∨ ∃ events t lx', lx.Gives events t lx' := by
  rcases hcall : lx.nextToken with ⟨events, fault | ⟨lx', e | t⟩⟩
  · exact .inl ⟨fault, rfl⟩
  · exact .inr (.inl ⟨events, _, lx', .failure hcall⟩)
  · cases heof : t.isEof with
    | true => exact .inr (.inl ⟨events, _, lx', .sentinel hcall heof⟩)
    | false => exact .inr (.inr ⟨events, t, lx', hcall, heof⟩)

theorem Ends.error?_eq (hend : lx.Ends events error? lx') : lx'.error? = error? := by
  cases hend with
  | sentinel hcall => exact congrArg (·.1.error?) (remember_of_nextToken hcall).symm
  | failure hcall => exact congrArg (·.1.error?) (remember_of_nextToken hcall).symm

theorem Drains.error?_eq (h : lx.Drains events ts error? lx') : lx'.error? = error? := by
  induction h with
  | last hend => exact hend.error?_eq
  | token _ _ ih => exact ih

theorem Gives.nextTokens (hgives : lx.Gives events t lx') :
    lx.nextTokens (n + 1) = Run.emit events >>= fun _ =>
      (fun (lx, results) => (lx, .ok t :: results)) <$> lx'.nextTokens n := by
  rw [Lexer.nextTokens, hgives.call, Run.ok_bind]

/-- A call before other calls. -/
theorem Gives.nextTokens_succ {lx₁ : Lexer ρ} {first before : List Event}
    {results : List (Except LexerError Token)} (hgives : lx.Gives first t lx₁)
    (hcalls : lx₁.nextTokens n = { events := before, outcome := .ok (lx', results) }) :
    lx.nextTokens (n + 1)
      = { events := first ++ before, outcome := .ok (lx', .ok t :: results) } := by
  rw [hgives.nextTokens, hcalls]
  rfl

/-! ## All at once -/

/-- What is returned for the tokens before the end: they, or the error that
was the end. -/
def ended (lx : Lexer ρ) (ts : List Token) : Except LexerError (List Token) :=
  lx.error?.elim (.ok ts) .error

omit [Recognizer ρ] in
theorem ended_eq_ok {ts' : List Token} :
    lx.ended ts = .ok ts' ↔ ts = ts' ∧ lx.error? = none := by
  unfold ended
  cases lx.error? <;> simp

omit [Recognizer ρ] in
theorem ended_eq_error {e : LexerError} : lx.ended ts = .error e ↔ lx.error? = some e := by
  unfold ended
  cases lx.error? <;> simp

omit [Recognizer ρ] in
theorem ended_cons (lx : Lexer ρ) (t : Token) (ts : List Token) :
    lx.ended (t :: ts) = (lx.ended ts).map (t :: ·) := by
  unfold ended
  cases lx.error? <;> rfl

theorem Ends.takeTokens (hend : lx.Ends events error? lx') :
    lx.takeTokens (limit + 1) = { events, outcome := .ok (lx', lx'.ended []) } := by
  rw [ended, hend.error?_eq, Lexer.takeTokens]
  cases hend with
  | sentinel hcall heof =>
      rw [hcall, Run.ok_bind]
      simp only [heof, if_true]
      exact Run.emit_pure ..
  | failure hcall =>
      rw [hcall, Run.ok_bind]
      exact Run.emit_pure ..

theorem Gives.takeTokens (hgives : lx.Gives events t lx') :
    lx.takeTokens (limit + 1) = Run.emit events >>= fun _ =>
      (fun (lx, rest) => (lx, rest.map (t :: ·))) <$> lx'.takeTokens limit := by
  rw [Lexer.takeTokens, hgives.call, Run.ok_bind]
  simp only [hgives.isEof, Bool.false_eq_true, if_false]

theorem Drains.takeTokens (h : lx.Drains events ts error? lx') (hlimit : ts.length < limit) :
    lx.takeTokens limit = { events, outcome := .ok (lx', lx'.ended ts) } := by
  induction h generalizing limit with
  | last hend =>
      obtain ⟨limit, rfl⟩ := exists_succ_of_lt hlimit
      exact hend.takeTokens
  | token hgives _ ih =>
      obtain ⟨limit, rfl⟩ := exists_succ_of_lt hlimit
      rw [hgives.takeTokens, ih (Nat.lt_of_succ_lt_succ hlimit), ended_cons]
      rfl

end Lexer

/-! ## One by one -/

open Lexer (Ends Gives Drains)

omit [Recognizer ρ] in
@[simp] theorem Lexer.lexer_tokens (lx : Lexer ρ) : lx.tokens.lexer = lx := rfl

omit [Recognizer ρ] in
@[simp] theorem Lexer.done_tokens (lx : Lexer ρ) : lx.tokens.done = false := rfl

namespace TokenStream

theorem next_of_ends (hend : lx.Ends events error? lx') :
    lx.tokens.next = { events, outcome := .ok (none, ⟨lx', true⟩) } := by
  rw [next, lx.done_tokens, if_neg Bool.false_ne_true, lx.lexer_tokens]
  cases hend with
  | sentinel hcall heof =>
      rw [hcall, Run.ok_bind]
      simp only [heof, if_true]
      exact Run.emit_pure ..
  | failure hcall =>
      rw [hcall, Run.ok_bind]
      exact Run.emit_pure ..

theorem next_of_fault {fault : Fault} (hfault : lx.nextToken.outcome = .error fault) :
    lx.tokens.next = { events := lx.nextToken.events, outcome := .error fault } := by
  rw [next, lx.done_tokens, if_neg Bool.false_ne_true, lx.lexer_tokens]
  exact Run.bind_of_error hfault _

theorem next_of_gives (hgives : lx.Gives events t lx') :
    lx.tokens.next = { events, outcome := .ok (some t, lx'.tokens) } := by
  rw [next, lx.done_tokens, if_neg Bool.false_ne_true, lx.lexer_tokens, hgives.call, Run.ok_bind]
  simp only [hgives.isEof, Bool.false_eq_true, if_false]
  exact Run.emit_pure ..

theorem takeAll_of_ends (hend : lx.Ends events error? lx') :
    lx.tokens.takeAll (limit + 1) = { events, outcome := .ok ([], ⟨lx', true⟩) } := by
  rw [takeAll, next_of_ends hend, Run.ok_bind]
  exact Run.emit_pure ..

theorem takeAll_of_gives (hgives : lx.Gives events t lx') :
    lx.tokens.takeAll (limit + 1) = Run.emit events >>= fun _ =>
      (fun (rest, s) => (t :: rest, s)) <$> lx'.tokens.takeAll limit := by
  rw [takeAll, next_of_gives hgives, Run.ok_bind]

theorem takeAll_of_drains (h : lx.Drains events ts error? lx') (hlimit : ts.length < limit) :
    lx.tokens.takeAll limit = { events, outcome := .ok (ts, ⟨lx', true⟩) } := by
  induction h generalizing limit with
  | last hend =>
      obtain ⟨limit, rfl⟩ := exists_succ_of_lt hlimit
      exact takeAll_of_ends hend
  | token hgives _ ih =>
      obtain ⟨limit, rfl⟩ := exists_succ_of_lt hlimit
      rw [takeAll_of_gives hgives, ih (Nat.lt_of_succ_lt_succ hlimit)]
      rfl

theorem take_of_gives (hgives : lx.Gives events t lx') :
    lx.tokens.take (n + 1) = Run.emit events >>= fun _ =>
      (fun (rest, s) => (some t :: rest, s)) <$> lx'.tokens.take n := by
  rw [take, next_of_gives hgives, Run.ok_bind]

/-- Taking some of the tokens is making so many calls. -/
theorem take_of_le (h : lx.Drains events ts error? lx') (hn : n ≤ ts.length) :
    ∃ before lx₁, lx.nextTokens n = { events := before, outcome := .ok (lx₁, (ts.take n).map .ok) }
      ∧ lx.tokens.take n
        = { events := before, outcome := .ok ((ts.take n).map some, lx₁.tokens) } := by
  induction h generalizing n with
  | last =>
      obtain rfl := Nat.le_zero.mp hn
      exact ⟨[], _, rfl, rfl⟩
  | @token _ _ _ first _ _ _ _ hgives _ ih =>
      cases n with
      | zero => exact ⟨[], _, rfl, rfl⟩
      | succ n =>
          obtain ⟨before, lx₁, hcalls, htake⟩ := ih (Nat.le_of_succ_le_succ hn)
          refine ⟨first ++ before, lx₁, hgives.nextTokens_succ hcalls, ?_⟩
          rw [take_of_gives hgives, htake]
          rfl

/-- After the end there is nothing, and the lexer is not called. -/
theorem take_of_done (lx : Lexer ρ) (n : Nat) :
    take n ⟨lx, true⟩ = pure (List.replicate n none, ⟨lx, true⟩) := by
  induction n with
  | zero => rfl
  | succ n ih =>
      have hnext : next ⟨lx, true⟩ = pure (none, ⟨lx, true⟩) := rfl
      rw [take, hnext, pure_bind]
      simp only [ih]
      rfl

theorem take_of_ends (hend : lx.Ends events error? lx') :
    lx.tokens.take (n + 1)
      = { events, outcome := .ok (List.replicate (n + 1) none, ⟨lx', true⟩) } := by
  rw [take, next_of_ends hend, Run.ok_bind]
  simp only [take_of_done]
  exact Run.emit_pure ..

theorem take_past_end (h : lx.Drains events ts error? lx') (n : Nat) :
    lx.tokens.take (ts.length + (n + 1))
      = { events, outcome := .ok (ts.map some ++ List.replicate (n + 1) none, ⟨lx', true⟩) } := by
  induction h with
  | last hend =>
      rw [List.length_nil, Nat.zero_add]
      exact take_of_ends hend
  | token hgives _ ih =>
      rw [List.length_cons, Nat.add_right_comm, take_of_gives hgives, ih]
      rfl

end TokenStream

/-- The tokens taken all at once are those taken one by one, up to the end of
them, to an error or to a fault. -/
theorem Lexer.takeTokens_eq (lx : Lexer ρ) (limit : Nat) :
    lx.takeTokens limit
      = (fun (ts, s) => (s.lexer, s.lexer.ended ts)) <$> lx.tokens.takeAll limit := by
  induction limit generalizing lx with
  | zero => rfl
  | succ limit ih =>
      rcases lx.nextToken_cases with ⟨fault, hfault⟩ | ⟨events, error?, lx', hend⟩ |
        ⟨events, t, lx', hgives⟩
      · rw [Lexer.takeTokens, Run.bind_of_error hfault, TokenStream.takeAll,
          TokenStream.next_of_fault hfault]
        rfl
      · rw [hend.takeTokens, TokenStream.takeAll_of_ends hend]
        rfl
      · rw [hgives.takeTokens, TokenStream.takeAll_of_gives hgives, ih, map_bind]
        refine bind_congr fun _ => ?_
        rw [← comp_map, ← comp_map]
        refine congrArg (· <$> _) (funext fun _ => ?_)
        exact congrArg (Prod.mk _) (ended_cons ..).symm

/-- Tokens that were taken to the end are those that the calls give out. -/
theorem TokenStream.drains_of_takeAll {s : TokenStream ρ}
    (hrun : lx.tokens.takeAll limit = { events, outcome := .ok (ts, s) }) :
    s.done = true ∧ lx.Drains events ts s.lexer.error? s.lexer := by
  induction limit generalizing lx events ts with
  | zero => cases (Run.mk.inj hrun).2
  | succ limit ih =>
      rcases lx.nextToken_cases with ⟨fault, hfault⟩ | ⟨before, error?, lx', hend⟩ |
        ⟨before, t, lx', hgives⟩
      · rw [takeAll, next_of_fault hfault] at hrun
        cases (Run.mk.inj hrun).2
      · rw [takeAll_of_ends hend] at hrun
        obtain ⟨rfl, hvalue⟩ := Run.mk.inj hrun
        obtain ⟨rfl, rfl⟩ := Prod.mk.inj (Except.ok.inj hvalue)
        exact ⟨rfl, hend.error?_eq ▸ .last hend⟩
      · rw [takeAll_of_gives hgives] at hrun
        obtain ⟨_, _, after, hbefore, hrest, rfl⟩ := Run.bind_eq_ok.mp hrun
        obtain rfl := Run.emit_eq_ok.mp hbefore
        obtain ⟨⟨rest, u⟩, htake, heq⟩ := Run.map_eq_ok.mp hrest
        obtain ⟨rfl, rfl⟩ := Prod.mk.inj heq
        obtain ⟨hdone, hdrains⟩ := ih htake
        exact ⟨hdone, .token hgives hdrains⟩

theorem Lexer.allTokens_eq_ok {result : Except LexerError (List Token)} :
    lx.allTokens = { events, outcome := .ok (lx', result) } ↔
      ∃ ts, lx.tokens.toList = { events, outcome := .ok (ts, ⟨lx', true⟩) }
        ∧ lx'.ended ts = result := by
  rw [allTokens, takeTokens_eq, Run.map_eq_ok]
  constructor
  · rintro ⟨⟨ts, s⟩, hrun, heq⟩
    obtain ⟨rfl, rfl⟩ := Prod.mk.inj heq
    obtain ⟨hdone, -⟩ := TokenStream.drains_of_takeAll hrun
    exact ⟨ts, hdone ▸ hrun, rfl⟩
  · rintro ⟨ts, hrun, rfl⟩
    exact ⟨(ts, ⟨lx', true⟩), hrun, rfl⟩

/-! ## By channel -/

namespace Token

theorem kept_cons_of_eq (h : t.channel = channel) (ts : List Token) :
    (t :: ts).filter (·.channel = channel) = t :: ts.filter (·.channel = channel) :=
  List.filter_cons_of_pos (decide_eq_true h)

theorem kept_cons_of_ne (h : t.channel ≠ channel) (ts : List Token) :
    (t :: ts).filter (·.channel = channel) = ts.filter (·.channel = channel) :=
  List.filter_cons_of_neg fun hd => h (of_decide_eq_true hd)

theorem others_cons_of_eq (h : t.channel = channel) (ts : List Token) :
    (t :: ts).filter (·.channel ≠ channel) = ts.filter (·.channel ≠ channel) :=
  List.filter_cons_of_neg fun hd => of_decide_eq_true hd h

theorem others_cons_of_ne (h : t.channel ≠ channel) (ts : List Token) :
    (t :: ts).filter (·.channel ≠ channel) = t :: ts.filter (·.channel ≠ channel) :=
  List.filter_cons_of_pos (decide_eq_true h)

end Token

namespace ChannelStream

/-- Asks for so many tokens of the channel one by one, each of them fewer than
`limit` tokens away. -/
def take (limit : Nat) : (n : Nat) → ChannelStream ρ → Run (List (Option Token) × ChannelStream ρ)
  | 0, c => return ([], c)
  | n + 1, c => do
    let (t?, c) ← c.seek limit
    (fun (rest, c) => (t? :: rest, c)) <$> take limit n c

theorem seek_of_ends (hend : lx.Ends events error? lx') :
    seek (limit + 1) { tokens := lx.tokens, channel, others }
      = { events, outcome := .ok (none, { tokens := ⟨lx', true⟩, channel, others }) } := by
  rw [seek, TokenStream.next_of_ends hend, Run.ok_bind]
  exact Run.emit_pure ..

theorem seek_of_kept (hgives : lx.Gives events t lx') (ht : t.channel = channel) :
    seek (limit + 1) { tokens := lx.tokens, channel, others }
      = { events, outcome := .ok (some t, { tokens := lx'.tokens, channel, others }) } := by
  rw [seek, TokenStream.next_of_gives hgives, Run.ok_bind]
  simp only [ht, if_true]
  exact Run.emit_pure ..

theorem seek_of_other (hgives : lx.Gives events t lx') (ht : t.channel ≠ channel) :
    seek (limit + 1) { tokens := lx.tokens, channel, others } = Run.emit events >>= fun _ =>
      seek limit { tokens := lx'.tokens, channel, others := others.push t } := by
  rw [seek, TokenStream.next_of_gives hgives, Run.ok_bind]
  simp only [ht, if_false]

/-- The limit does not matter, as long as the end is nearer. -/
theorem seek_limit (h : lx.Drains events ts error? lx') {k l : Nat} (hk : ts.length < k)
    (hl : ts.length < l) (others : Array Token) :
    seek k { tokens := lx.tokens, channel, others }
      = seek l { tokens := lx.tokens, channel, others } := by
  induction h generalizing k l others with
  | last hend =>
      obtain ⟨k, rfl⟩ := exists_succ_of_lt hk
      obtain ⟨l, rfl⟩ := exists_succ_of_lt hl
      rw [seek_of_ends hend, seek_of_ends hend]
  | @token _ _ _ _ _ t _ _ hgives _ ih =>
      obtain ⟨k, rfl⟩ := exists_succ_of_lt hk
      obtain ⟨l, rfl⟩ := exists_succ_of_lt hl
      by_cases ht : t.channel = channel
      · rw [seek_of_kept hgives ht, seek_of_kept hgives ht]
      · rw [seek_of_other hgives ht, seek_of_other hgives ht,
          ih (Nat.lt_of_succ_lt_succ hk) (Nat.lt_of_succ_lt_succ hl)]

/-- A token of another channel is set aside on the way. -/
theorem seek_past_other {lx₁ : Lexer ρ} {before after : List Event}
    (hgives : lx.Gives before t lx₁) (hrest : lx₁.Drains after ts error? lx')
    (hlimit : (t :: ts).length < limit) (ht : t.channel ≠ channel) :
    seek limit { tokens := lx.tokens, channel, others } = Run.emit before >>= fun _ =>
      seek limit { tokens := lx₁.tokens, channel, others := others.push t } := by
  obtain ⟨limit, rfl⟩ := exists_succ_of_lt hlimit
  have hshorter : ts.length < limit := Nat.lt_of_succ_lt_succ hlimit
  -- one round is used up, but those that are left are enough
  rw [seek_of_other hgives ht, seek_limit hrest hshorter (Nat.lt_succ_of_lt hshorter)]

theorem takeAll_past_other {lx₁ : Lexer ρ} {before after : List Event}
    (hgives : lx.Gives before t lx₁) (hrest : lx₁.Drains after ts error? lx')
    (hlimit : (t :: ts).length < limit) (ht : t.channel ≠ channel) (hn : 0 < n) :
    takeAll limit n { tokens := lx.tokens, channel, others } = Run.emit before >>= fun _ =>
      takeAll limit n { tokens := lx₁.tokens, channel, others := others.push t } := by
  obtain ⟨n, rfl⟩ := exists_succ_of_lt hn
  rw [takeAll, seek_past_other hgives hrest hlimit ht, bind_assoc]
  rfl

theorem takeAll_of_drains (h : lx.Drains events ts error? lx') (hlimit : ts.length < limit)
    (hn : ts.length < n) (others : Array Token) :
    takeAll limit n { tokens := lx.tokens, channel, others }
      = { events, outcome := .ok (ts.filter (·.channel = channel),
          { tokens := ⟨lx', true⟩
            channel
            others := others ++ (ts.filter (·.channel ≠ channel)).toArray }) } := by
  induction h generalizing n others with
  | last hend =>
      obtain ⟨n, rfl⟩ := exists_succ_of_lt hn
      obtain ⟨limit, rfl⟩ := exists_succ_of_lt hlimit
      rw [takeAll, seek_of_ends hend, Run.ok_bind, List.filter_nil, List.filter_nil,
        Array.append_empty]
      exact Run.emit_pure ..
  | @token _ _ _ _ _ t ts _ hgives hrest ih =>
      have hshorter : ts.length < limit := Nat.lt_of_succ_lt hlimit
      by_cases ht : t.channel = channel
      · obtain ⟨n, rfl⟩ := exists_succ_of_lt hn
        obtain ⟨limit, rfl⟩ := exists_succ_of_lt hlimit
        rw [takeAll, seek_of_kept hgives ht, Run.ok_bind]
        simp only [ih hshorter (Nat.lt_of_succ_lt_succ hn)]
        rw [Token.kept_cons_of_eq ht, Token.others_cons_of_eq ht]
        rfl
      · rw [takeAll_past_other hgives hrest hlimit ht (Nat.zero_lt_of_lt hn),
          ih hshorter (Nat.lt_of_succ_lt hn), Token.kept_cons_of_ne ht, Token.others_cons_of_ne ht,
          List.push_append_toArray]
        rfl

theorem take_past_other {lx₁ : Lexer ρ} {before after : List Event}
    (hgives : lx.Gives before t lx₁) (hrest : lx₁.Drains after ts error? lx')
    (hlimit : (t :: ts).length < limit) (ht : t.channel ≠ channel) :
    take limit (n + 1) { tokens := lx.tokens, channel, others } = Run.emit before >>= fun _ =>
      take limit (n + 1) { tokens := lx₁.tokens, channel, others := others.push t } := by
  rw [take, seek_past_other hgives hrest hlimit ht, bind_assoc]
  rfl

/-- When a token of the channel is given out, all tokens before it have been,
either to the taker or to the side. -/
theorem take_up_to {first rest : List Token} (h : lx.Drains events (first ++ t :: rest) error? lx')
    (ht : t.channel = channel) (hlimit : (first ++ t :: rest).length < limit)
    (others : Array Token) :
    ∃ before lx₁, lx.nextTokens (first.length + 1)
        = { events := before, outcome := .ok (lx₁, (first ++ [t]).map .ok) }
      ∧ take limit ((first.filter (·.channel = channel)).length + 1)
          { tokens := lx.tokens, channel, others }
        = { events := before
            outcome := .ok (((first ++ [t]).filter (·.channel = channel)).map some,
              { tokens := lx₁.tokens
                channel
                others := others ++ (first.filter (·.channel ≠ channel)).toArray }) } := by
  obtain ⟨limit, rfl⟩ := exists_succ_of_lt hlimit
  induction first generalizing lx events others with
  | nil =>
      cases h with
      | @token _ lx₁ _ before _ _ _ _ hgives _ =>
          refine ⟨before, lx₁, ?_, ?_⟩
          · rw [List.length_nil, hgives.nextTokens]
            exact Run.emit_pure ..
          · rw [List.nil_append, List.filter_nil, List.filter_nil, Token.kept_cons_of_eq ht,
              List.filter_nil, List.length_nil, Array.append_empty, take, seek_of_kept hgives ht,
              Run.ok_bind]
            exact Run.emit_pure ..
  | cons u first ih =>
      -- the first token goes to the taker or to the side, and the rest is a course of its own
      cases h with
      | @token _ lx₂ _ begun _ _ _ _ hgives hrest =>
          have hshorter : (first ++ t :: rest).length < limit + 1 := Nat.lt_of_succ_lt hlimit
          by_cases hu : u.channel = channel
          · obtain ⟨before, lx₁, hcalls, htake⟩ := ih hrest others hshorter
            refine ⟨begun ++ before, lx₁, hgives.nextTokens_succ hcalls, ?_⟩
            rw [List.cons_append, Token.kept_cons_of_eq hu, Token.kept_cons_of_eq hu,
              Token.others_cons_of_eq hu, List.length_cons, take, seek_of_kept hgives hu,
              Run.ok_bind]
            simp only [htake]
            rfl
          · obtain ⟨before, lx₁, hcalls, htake⟩ := ih hrest (others.push u) hshorter
            refine ⟨begun ++ before, lx₁, hgives.nextTokens_succ hcalls, ?_⟩
            rw [List.cons_append, Token.kept_cons_of_ne hu, Token.kept_cons_of_ne hu,
              Token.others_cons_of_ne hu, take_past_other hgives hrest hlimit hu, htake,
              List.push_append_toArray]
            rfl

end ChannelStream

/-! ## Lexers that are ready -/

namespace Lexer

variable {cs : List Char} {lx : Lexer TableRecognizer} {s : CharStream}

/-- A call to a lexer that is ready gives out no token, or moves on. -/
theorem Ready.ends_or_gives (hready : lx.Ready cs s) :
    (∃ events error? lx', lx.Ends events error? lx')
      ∨ ∃ events t lx' u, lx.Gives events t lx' ∧ lx'.Ready cs u ∧ s.index < u.index := by
  obtain ⟨events, h, u, result, -, hprogress, hcall, hindex, hafter⟩ := hready.call
  cases result with
  | error e => exact .inl ⟨events, _, _, .failure hcall⟩
  | ok t =>
      cases heof : t.isEof with
      | true => exact .inl ⟨events, _, _, .sentinel hcall heof⟩
      | false =>
          have hlt := hprogress.lt (.inr ⟨t, rfl, heof⟩)
          rw [index_marked, ← hindex] at hlt
          exact .inr ⟨events, t, _, u, ⟨hcall, heof⟩, hafter, hlt⟩

/-- It gives out at most as many tokens as characters are left, before it comes
to the end of them or fails. -/
theorem Ready.exists_drains (hready : lx.Ready cs s) (hn : cs.length - s.index ≤ n) :
    ∃ events ts error? lx', lx.Drains events ts error? lx' ∧ ts.length ≤ n := by
  induction n generalizing lx s with
  | zero =>
      rcases hready.ends_or_gives with ⟨events, error?, lx', hend⟩ | ⟨_, _, _, u, -, hafter, hlt⟩
      · exact ⟨events, [], error?, lx', .last hend, Nat.le_refl 0⟩
      · have hle := hafter.shows.index_le
        omega
  | succ n ih =>
      rcases hready.ends_or_gives with ⟨events, error?, lx', hend⟩ |
        ⟨before, t, lx₁, u, hgives, hafter, hlt⟩
      · exact ⟨events, [], error?, lx', .last hend, Nat.zero_le _⟩
      · obtain ⟨after, ts, error?, lx', hdrains, hlength⟩ := ih hafter (by omega)
        exact ⟨before ++ after, t :: ts, error?, lx', .token hgives hdrains,
          Nat.succ_le_succ hlength⟩

/-- So the limit that it sets to its loops lets them come to the end. -/
theorem Ready.exists_toList (hready : lx.Ready cs s) (channel : ChannelId) :
    ∃ events kept c,
      (lx.tokens.onChannel channel).toList = { events, outcome := .ok (kept, c) } := by
  obtain ⟨events, ts, error?, lx', hdrains, hlength⟩ := hready.exists_drains (Nat.le_refl _)
  have hlimit : ts.length < lx.stepLimit := by
    have hlt := hready.room.length_lt
    simp only [Checked.signedLimit] at hlt
    simp only [stepLimit, hready.stream, CharStream.stepLimit]
    omega
  exact ⟨_, _, _, ChannelStream.takeAll_of_drains hdrains hlimit hlimit #[]⟩

end Lexer

/-! ## All ways -/

namespace Lexer

/-- The ways of taking the tokens, of a lexer that gives out `ts` and then
comes to the end of them or fails. -/
structure DrainedAlike (lx : Lexer ρ) (events : List Event) (ts : List Token)
    (error? : Option LexerError) (lx' : Lexer ρ) : Prop where
  remembered : lx'.error? = error?
  all : ∀ limit, ts.length < limit →
    lx.takeTokens limit = { events, outcome := .ok (lx', error?.elim (.ok ts) .error) }
  each : ∀ limit, ts.length < limit →
    lx.tokens.takeAll limit = { events, outcome := .ok (ts, ⟨lx', true⟩) }
  /-- Taking some tokens is making so many calls. -/
  few : ∀ n ≤ ts.length, ∃ before lx₁,
    lx.nextTokens n = { events := before, outcome := .ok (lx₁, (ts.take n).map .ok) }
      ∧ lx.tokens.take n = { events := before, outcome := .ok ((ts.take n).map some, lx₁.tokens) }
  /-- Behind the end there is nothing, and the lexer is not called. -/
  pastEnd : ∀ n, lx.tokens.take (ts.length + (n + 1))
    = { events, outcome := .ok (ts.map some ++ List.replicate (n + 1) none, ⟨lx', true⟩) }
  byChannel : ∀ channel limit n, ts.length < limit → ts.length < n →
    (lx.tokens.onChannel channel).takeAll limit n
      = { events, outcome := .ok (ts.filter (·.channel = channel),
          { tokens := ⟨lx', true⟩
            channel
            others := (ts.filter (·.channel ≠ channel)).toArray }) }
  /-- When a token of the channel comes out, just the others before it have been
  set aside. -/
  upTo : ∀ channel limit first t rest, ts = first ++ t :: rest → t.channel = channel →
    ts.length < limit → ∃ before lx₁,
      lx.nextTokens (first.length + 1)
          = { events := before, outcome := .ok (lx₁, (first ++ [t]).map .ok) }
        ∧ (lx.tokens.onChannel channel).take limit
            ((first.filter (·.channel = channel)).length + 1)
          = { events := before
              outcome := .ok (((first ++ [t]).filter (·.channel = channel)).map some,
                { tokens := lx₁.tokens
                  channel
                  others := (first.filter (·.channel ≠ channel)).toArray }) }

theorem Drains.drainedAlike (h : lx.Drains events ts error? lx') :
    lx.DrainedAlike events ts error? lx' where
  remembered := h.error?_eq
  all limit hlimit := by rw [h.takeTokens hlimit, ended, h.error?_eq]
  each limit hlimit := TokenStream.takeAll_of_drains h hlimit
  few n hn := TokenStream.take_of_le h hn
  pastEnd n := TokenStream.take_past_end h n
  byChannel channel limit n hlimit hn := by
    rw [TokenStream.onChannel, ChannelStream.takeAll_of_drains h hlimit hn, Array.empty_append]
  upTo channel limit first t rest heq ht hlimit := by
    subst heq
    obtain ⟨before, lx₁, hcalls, htake⟩ := ChannelStream.take_up_to h ht hlimit #[]
    rw [Array.empty_append] at htake
    exact ⟨before, lx₁, hcalls, htake⟩

/-- Whether the tokens are asked for all at once, one by one, in part or by
channel, the same calls are made and the lexer is left alike. What is returned
all at once is what comes one by one, if there is no error to be found then,
and otherwise that error. -/
theorem ways_of_draining_agree (lx : Lexer ρ) :
    (∀ events lx' ts, lx.allTokens = { events, outcome := .ok (lx', .ok ts) } ↔
        lx.tokens.toList = { events, outcome := .ok (ts, ⟨lx', true⟩) } ∧ lx'.error? = none)
      ∧ (∀ events lx' e, lx.allTokens = { events, outcome := .ok (lx', .error e) } ↔
        ∃ ts, lx.Drains events ts (some e) lx'
          ∧ lx.tokens.toList = { events, outcome := .ok (ts, ⟨lx', true⟩) }
          ∧ lx'.error? = some e)
      ∧ ∀ events ts error? lx', lx.Drains events ts error? lx' →
        lx.DrainedAlike events ts error? lx' := by
  refine ⟨fun events lx' ts => ?_, fun events lx' e => ?_, fun _ _ _ _ h => h.drainedAlike⟩
  · rw [allTokens_eq_ok]
    constructor
    · rintro ⟨ts', hrun, hended⟩
      obtain ⟨rfl, herror⟩ := ended_eq_ok.mp hended
      exact ⟨hrun, herror⟩
    · rintro ⟨hrun, herror⟩
      exact ⟨ts, hrun, ended_eq_ok.mpr ⟨rfl, herror⟩⟩
  · rw [allTokens_eq_ok]
    constructor
    · rintro ⟨ts, hrun, hended⟩
      have herror := ended_eq_error.mp hended
      obtain ⟨-, hdrains⟩ := TokenStream.drains_of_takeAll hrun
      exact ⟨ts, herror ▸ hdrains, hrun, herror⟩
    · rintro ⟨ts, -, hrun, herror⟩
      exact ⟨ts, hrun, ended_eq_error.mpr herror⟩

/-- Words and blanks, which are hidden, and then a mode that was not entered is
to be left. -/
theorem ways_of_draining_agree_unentered :
    let script : ScriptRecognizer := { modes := #[[
      { trigger := some 'x', result := some (.type 3) },
      { trigger := some ' ', result := some (.type 4), actions := [.setChannel hiddenChannel] },
      { trigger := some '!', result := some .skip, actions := [.popMode] }]] }
    let lx : Lexer ScriptRecognizer := Lexer.attach { recognizer := script } (.ofString "x x !x")
    ∃ events ts lx', lx.Drains events ts (some (.emptyModeStack 0)) lx'
      ∧ ts.map Token.text = ["x", " ", "x", " "]
      ∧ lx.DrainedAlike events ts (some (.emptyModeStack 0)) lx' := by
  intro script lx
  have hruns : (lx.tokens.toList.outcome.toOption.map
      fun r => (r.1.map Token.text, r.2.lexer.error?))
        = some (["x", " ", "x", " "], some (.emptyModeStack 0)) := by decide +kernel
  obtain ⟨events, ⟨ts, s⟩, hrun, hlast⟩ := Run.exists_eq_ok hruns
  obtain ⟨htexts, herror⟩ := Prod.mk.inj hlast
  obtain ⟨-, hdrains⟩ := TokenStream.drains_of_takeAll hrun
  rw [show s.lexer.error? = _ from herror] at hdrains
  exact ⟨events, ts, s.lexer, hdrains, htexts,
    (ways_of_draining_agree lx).2.2 events ts _ s.lexer hdrains⟩

end Lexer

end ModalLexer
