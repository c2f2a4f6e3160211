import ModalLexer.Lexer.Session

/-!
# Lexers in lockstep

Two lexers that differ in something their tokens do not depend on go through
every session side by side. Whatever the difference is, the loops over the
tokens carry it along in the same way: it is enough that single calls do
(`Lockstep.nextToken`), and `Lockstep.perform` is what follows for the commands
that draw tokens.

Runs are compared as a whole, faults included. `Parallel` says that two runs
let the same be seen, as far as one looks, and end in related values or with
the same fault.
-/

namespace ModalLexer

/-! ## Parallel runs -/

namespace Run

variable {α β γ δ : Type} {R : α → β → Prop} {S : γ → δ → Prop} {view : Event → Event}

/-- Both computations fail with the same fault, or both give values that are
related. -/
inductive Ends (R : α → β → Prop) : Except Fault α → Except Fault β → Prop
  | ok {a : α} {b : β} (h : R a b) : Ends R (.ok a) (.ok b)
  | error {fault : Fault} : Ends R (.error fault) (.error fault)

/-- The events of the two runs are the same under a view of them, and so is
what they end in. -/
structure Parallel (view : Event → Event) (R : α → β → Prop) (x : Run α) (y : Run β) :
    Prop where
  events : y.events.map view = x.events.map view
  outcome : Ends R x.outcome y.outcome

theorem Ends.imp {Q : α → β → Prop} (himp : ∀ a b, R a b → Q a b) {x : Except Fault α}
    {y : Except Fault β} (h : Ends R x y) : Ends Q x y := by
  cases h with
  | ok h => exact .ok (himp _ _ h)
  | error => exact .error

theorem Ends.map {f : α → γ} {g : β → δ} (hfg : ∀ a b, R a b → S (f a) (g b))
    {x : Except Fault α} {y : Except Fault β} (h : Ends R x y) : Ends S (x.map f) (y.map g) := by
  cases h with
  | ok h => exact .ok (hfg _ _ h)
  | error => exact .error

theorem Ends.bind {f : α → Except Fault γ} {g : β → Except Fault δ} {x : Except Fault α}
    {y : Except Fault β} (h : Ends R x y) (hfg : ∀ a b, R a b → Ends S (f a) (g b)) :
    Ends S (x >>= f) (y >>= g) := by
  cases h with
  | ok h => exact hfg _ _ h
  | error => exact .error

theorem Ends.of_eq {x y : Except Fault α} (h : y = x) : Ends (fun a b => b = a) x y := by
  subst h
  cases y with
  | ok a => exact .ok rfl
  | error fault => exact .error

namespace Parallel

theorem pure {a : α} {b : β} (h : R a b) : Parallel view R (Pure.pure a) (Pure.pure b) :=
  ⟨rfl, .ok h⟩

theorem fail {fault : Fault} : Parallel view R (Run.fail fault) (Run.fail fault) :=
  ⟨rfl, .error⟩

theorem emit {events events' : List Event} (h : events'.map view = events.map view) :
    Parallel view (fun _ _ => True) (Run.emit events) (Run.emit events') :=
  ⟨h, .ok trivial⟩

theorem ofExcept {x : Except Fault α} {y : Except Fault β} (h : Ends R x y) :
    Parallel view R (Run.ofExcept x) (Run.ofExcept y) :=
  ⟨rfl, h⟩

theorem of_eq {x y : Run α} (h : y = x) : Parallel view (fun a b => b = a) x y :=
  ⟨by rw [h], .of_eq (by rw [h])⟩

theorem imp {Q : α → β → Prop} {x : Run α} {y : Run β} (h : Parallel view R x y)
    (himp : ∀ a b, R a b → Q a b) : Parallel view Q x y :=
  ⟨h.events, h.outcome.imp himp⟩

theorem bind {x : Run α} {y : Run β} {f : α → Run γ} {g : β → Run δ} (h : Parallel view R x y)
    (hfg : ∀ a b, R a b → Parallel view S (f a) (g b)) : Parallel view S (x >>= f) (y >>= g) := by
  obtain ⟨hevents, hends⟩ := h
  cases hx : x.outcome with
  | error fault =>
      rw [hx] at hends
      cases hy : y.outcome with
      | ok b => rw [hy] at hends; cases hends
      | error fault' =>
          rw [hy] at hends
          cases hends
          rw [bind_of_error hx, bind_of_error hy]
          exact ⟨hevents, .error⟩
  | ok a =>
      rw [hx] at hends
      cases hy : y.outcome with
      | error fault => rw [hy] at hends; cases hends
      | ok b =>
          rw [hy] at hends
          cases hends with
          | ok hab =>
              obtain ⟨hrest, hends'⟩ := hfg a b hab
              rw [bind_of_ok hx, bind_of_ok hy]
              exact ⟨by rw [List.map_append, List.map_append, hevents, hrest], hends'⟩

theorem map {x : Run α} {y : Run β} {f : α → γ} {g : β → δ} (h : Parallel view R x y)
    (hfg : ∀ a b, R a b → S (f a) (g b)) : Parallel view S (f <$> x) (g <$> y) :=
  ⟨h.events, h.outcome.map hfg⟩

/-- Runs that are the same but for their values go in parallel. -/
theorem of_map_eq {f : α → γ} {x y : Run α} (h : f <$> y = f <$> x) :
    Parallel view (fun a b => f b = f a) x y := by
  obtain ⟨hevents, houtcome⟩ := Run.mk.inj h
  refine ⟨congrArg (List.map view) hevents, ?_⟩
  cases hx : x.outcome <;> cases hy : y.outcome <;> rw [hx, hy] at houtcome
  · obtain rfl := Except.error.inj houtcome
    exact .error
  · cases houtcome
  · cases houtcome
  · exact .ok (Except.ok.inj houtcome)

/-- If one looks at everything, parallel runs are the same up to what relates
their values. -/
theorem map_eq {f : α → γ} {g : β → γ} {x : Run α} {y : Run β} (h : Parallel id R x y)
    (hfg : ∀ a b, R a b → g b = f a) : g <$> y = f <$> x := by
  have hmapped := (h.map (S := fun c d => d = c) hfg)
  refine ext (by simpa using h.events) ?_
  cases hx : (f <$> x).outcome <;> cases hy : (g <$> y).outcome <;>
    (have hends := hmapped.outcome; rw [hx, hy] at hends; cases hends)
  · rfl
  · rename_i h; rw [h]

end Parallel

end Run

open Run (Ends Parallel)

variable {ρ : Type}

/-! ## Lexers side by side -/

/-- What the commands answer, with every token in it as one looks at tokens, and
every stream as one looks at streams. -/
def Reply.seen (look : Token → Token) (lookAt : CharStream → CharStream) : Reply → Reply
  | .stream previous => .stream (previous.map lookAt)
  | .token result => .token (result.map look)
  | .results rs => .results (rs.map (·.map look))
  | .tokens result => .tokens (result.map (List.map look))
  | .items ts => .items (ts.map (Option.map look))
  | .split kept others => .split (kept.map look) (others.map look)
  | reply => reply

/-- Results that look the same are the same error, or tokens that do. -/
theorem cases_of_map_eq {ε α β : Type} {f : α → β} {x y : Except ε α} (h : y.map f = x.map f) :
    (∃ e, x = .error e ∧ y = .error e) ∨ ∃ a b, x = .ok a ∧ y = .ok b ∧ f b = f a := by
  cases x with
  | error e =>
      cases y with
      | error e' => exact .inl ⟨e, rfl, congrArg _ (Except.error.inj h)⟩
      | ok b => cases h
  | ok a =>
      cases y with
      | error e' => cases h
      | ok b => exact .inr ⟨a, b, rfl, rfl, Except.ok.inj h⟩

/-- The lexers are related, and what came with them is the same under `f`. -/
def Beside {σ α β : Type} (R : σ → σ → Prop) (f : α → β) (a b : σ × α) : Prop :=
  R a.1 b.1 ∧ f b.2 = f a.2

/-- The same the other way round: what came is the same, and the rest is
related. -/
def Ahead {σ α β : Type} (R : σ → σ → Prop) (f : α → β) (a b : α × σ) : Prop :=
  f b.1 = f a.1 ∧ R a.2 b.2

variable [Recognizer ρ]

/-- A relation between lexers that calls carry along. What one looks at in a
token includes everything on which the loops over tokens depend. -/
structure Lockstep (view : Event → Event) (look : Token → Token)
    (R : Lexer ρ → Lexer ρ → Prop) : Prop where
  isEof_look : ∀ t, (look t).isEof = t.isEof
  channel_look : ∀ t, (look t).channel = t.channel
  render_look : ∀ t, (look t).render = t.render
  stepLimit : ∀ {x y}, R x y → y.stepLimit = x.stepLimit
  nextToken : ∀ {x y}, R x y →
    Parallel view (Beside R (Except.map look)) x.nextToken y.nextToken

namespace Lockstep

variable {view : Event → Event} {look : Token → Token} {R : Lexer ρ → Lexer ρ → Prop}

theorem isEof_eq (hR : Lockstep view look R) {t t' : Token} (h : look t' = look t) :
    t'.isEof = t.isEof := by
  rw [← hR.isEof_look, h, hR.isEof_look]

theorem channel_eq (hR : Lockstep view look R) {t t' : Token} (h : look t' = look t) :
    t'.channel = t.channel := by
  rw [← hR.channel_look, h, hR.channel_look]

theorem renderAll_eq (hR : Lockstep view look R) {ts ts' : List Token}
    (h : ts'.map look = ts.map look) (separator : String) :
    Token.renderAll separator ts' = Token.renderAll separator ts := by
  have hrender : ∀ us : List Token, us.map Token.render = (us.map look).map Token.render := by
    intro us
    rw [List.map_map]
    exact List.map_congr_left fun t _ => (hR.render_look t).symm
  rw [Token.renderAll, Token.renderAll, hrender, h, ← hrender]

/-! ### Loops over the tokens -/

theorem nextTokens (hR : Lockstep view look R) : ∀ {n : Nat} {x y : Lexer ρ}, R x y →
    Parallel view (Beside R (List.map (Except.map look))) (x.nextTokens n) (y.nextTokens n)
  | 0, _, _, h => .pure ⟨h, rfl⟩
  | n + 1, x, y, h => by
      refine (hR.nextToken h).bind ?_
      rintro ⟨x', result⟩ ⟨y', result'⟩ ⟨hlexers, hresult⟩
      refine (hR.nextTokens hlexers).map ?_
      rintro ⟨x'', rest⟩ ⟨y'', rest'⟩ ⟨hlexers', hrest⟩
      refine ⟨hlexers', ?_⟩
      simp only at hresult hrest ⊢
      rw [List.map_cons, List.map_cons, hresult, hrest]

theorem takeTokens (hR : Lockstep view look R) : ∀ {n : Nat} {x y : Lexer ρ}, R x y →
    Parallel view (Beside R (Except.map (List.map look))) (x.takeTokens n) (y.takeTokens n)
  | 0, _, _, _ => .fail
  | n + 1, x, y, h => by
      refine (hR.nextToken h).bind ?_
      rintro ⟨x', result⟩ ⟨y', result'⟩ ⟨hlexers, hresult⟩
      rcases cases_of_map_eq hresult with ⟨e, rfl, rfl⟩ | ⟨t, t', rfl, rfl, hlook⟩
      · exact .pure ⟨hlexers, rfl⟩
      · simp only [hR.isEof_eq hlook]
        by_cases heof : t.isEof = true
        · rw [if_pos heof, if_pos heof]
          exact .pure ⟨hlexers, rfl⟩
        · rw [if_neg heof, if_neg heof]
          refine (hR.takeTokens hlexers).map ?_
          rintro ⟨x'', rest⟩ ⟨y'', rest'⟩ ⟨hlexers', hrest⟩
          refine ⟨hlexers', ?_⟩
          rcases cases_of_map_eq hrest with ⟨e, rfl, rfl⟩ | ⟨ts, ts', rfl, rfl, hlooks⟩
          · rfl
          · exact congrArg Except.ok (by rw [List.map_cons, List.map_cons, hlook, hlooks])

/-- The same relation for lexers that give out their tokens one by one. -/
def OfTokens (R : Lexer ρ → Lexer ρ → Prop) (p q : TokenStream ρ) : Prop :=
  R p.lexer q.lexer ∧ q.done = p.done

theorem next (hR : Lockstep view look R) {p q : TokenStream ρ} (h : OfTokens R p q) :
    Parallel view (Ahead (OfTokens R) (Option.map look)) p.next q.next := by
  obtain ⟨hlexers, hdone⟩ := h
  unfold TokenStream.next
  rw [hdone]
  by_cases hend : p.done = true
  · rw [if_pos hend, if_pos hend]
    exact .pure ⟨rfl, hlexers, hdone⟩
  · rw [if_neg hend, if_neg hend]
    refine (hR.nextToken hlexers).bind ?_
    rintro ⟨x', result⟩ ⟨y', result'⟩ ⟨hlexers', hresult⟩
    rcases cases_of_map_eq hresult with ⟨e, rfl, rfl⟩ | ⟨t, t', rfl, rfl, hlook⟩
    · exact .pure ⟨rfl, hlexers', rfl⟩
    · simp only [hR.isEof_eq hlook]
      by_cases heof : t.isEof = true
      · rw [if_pos heof, if_pos heof]
        exact .pure ⟨rfl, hlexers', rfl⟩
      · rw [if_neg heof, if_neg heof]
        exact .pure ⟨congrArg some hlook, hlexers', rfl⟩

theorem take (hR : Lockstep view look R) : ∀ {n : Nat} {p q : TokenStream ρ}, OfTokens R p q →
    Parallel view (Ahead (OfTokens R) (List.map (Option.map look))) (p.take n) (q.take n)
  | 0, _, _, h => .pure ⟨rfl, h⟩
  | n + 1, p, q, h => by
      refine (hR.next h).bind ?_
      rintro ⟨t?, p'⟩ ⟨t?', q'⟩ ⟨hlook, hstreams⟩
      refine (hR.take hstreams).map ?_
      rintro ⟨rest, p''⟩ ⟨rest', q''⟩ ⟨hrest, hstreams'⟩
      refine ⟨?_, hstreams'⟩
      simp only at hlook hrest ⊢
      rw [List.map_cons, List.map_cons, hlook, hrest]

theorem takeAll (hR : Lockstep view look R) : ∀ {n : Nat} {p q : TokenStream ρ},
    OfTokens R p q → Parallel view (Ahead (OfTokens R) (List.map look)) (p.takeAll n) (q.takeAll n)
  | 0, _, _, _ => .fail
  | n + 1, p, q, h => by
      refine (hR.next h).bind ?_
      rintro ⟨t?, p'⟩ ⟨t?', q'⟩ ⟨hlook, hstreams⟩
      cases t? with
      | none =>
          obtain rfl := Option.map_eq_none_iff.mp hlook
          exact .pure ⟨rfl, hstreams⟩
      | some t =>
          obtain ⟨t', rfl, hlook'⟩ := Option.map_eq_some_iff.mp hlook
          refine (hR.takeAll hstreams).map ?_
          rintro ⟨rest, p''⟩ ⟨rest', q''⟩ ⟨hrest, hstreams'⟩
          refine ⟨?_, hstreams'⟩
          simp only at hrest ⊢
          rw [List.map_cons, List.map_cons, hlook', hrest]

/-- The same relation for lexers that set the tokens of other channels aside. -/
def OfChannel (look : Token → Token) (R : Lexer ρ → Lexer ρ → Prop) (p q : ChannelStream ρ) :
    Prop :=
  OfTokens R p.tokens q.tokens ∧ q.channel = p.channel
    ∧ q.others.toList.map look = p.others.toList.map look

theorem seek (hR : Lockstep view look R) : ∀ {n : Nat} {p q : ChannelStream ρ},
    OfChannel look R p q →
      Parallel view (Ahead (OfChannel look R) (Option.map look)) (p.seek n) (q.seek n)
  | 0, _, _, _ => .fail
  | n + 1, p, q, ⟨hstreams, hchannel, hothers⟩ => by
      refine (hR.next hstreams).bind ?_
      rintro ⟨t?, p'⟩ ⟨t?', q'⟩ ⟨hlook, hstreams'⟩
      cases t? with
      | none =>
          obtain rfl := Option.map_eq_none_iff.mp hlook
          exact .pure ⟨rfl, hstreams', hchannel, hothers⟩
      | some t =>
          obtain ⟨t', rfl, hlook'⟩ := Option.map_eq_some_iff.mp hlook
          simp only [hR.channel_eq hlook', hchannel]
          by_cases hits : t.channel = p.channel
          · rw [if_pos hits, if_pos hits]
            exact .pure ⟨hlook, hstreams', rfl, hothers⟩
          · rw [if_neg hits, if_neg hits]
            refine hR.seek ⟨hstreams', rfl, ?_⟩
            simp only [Array.toList_push, List.map_append, hothers, List.map_cons, hlook']

theorem takeAllOf (hR : Lockstep view look R) {k : Nat} : ∀ {n : Nat} {p q : ChannelStream ρ},
    OfChannel look R p q →
      Parallel view (Ahead (OfChannel look R) (List.map look)) (p.takeAll k n) (q.takeAll k n)
  | 0, _, _, _ => .fail
  | n + 1, p, q, h => by
      refine (hR.seek h).bind ?_
      rintro ⟨t?, p'⟩ ⟨t?', q'⟩ ⟨hlook, hstreams⟩
      cases t? with
      | none =>
          obtain rfl := Option.map_eq_none_iff.mp hlook
          exact .pure ⟨rfl, hstreams⟩
      | some t =>
          obtain ⟨t', rfl, hlook'⟩ := Option.map_eq_some_iff.mp hlook
          refine (hR.takeAllOf hstreams).map ?_
          rintro ⟨rest, p''⟩ ⟨rest', q''⟩ ⟨hrest, hstreams'⟩
          refine ⟨?_, hstreams'⟩
          simp only at hrest ⊢
          rw [List.map_cons, List.map_cons, hlook', hrest]

end Lockstep

/-! ## Commands -/

/-- The command draws tokens, and does nothing else. -/
def Command.Draws : Command ρ → Prop
  | .next | .nextMany _ | .all | .iterate _ | .split _ | .join _ => True
  | _ => False

theorem Lockstep.perform {view : Event → Event} {look : Token → Token}
    {R : Lexer ρ → Lexer ρ → Prop} (hR : Lockstep view look R) {x y : Lexer ρ} (h : R x y)
    {c : Command ρ} (hc : c.Draws) (lookAt : CharStream → CharStream) :
    Parallel view (Beside R (Reply.seen look lookAt)) (c.perform x) (c.perform y) := by
  have htokens : OfTokens R x.tokens y.tokens := ⟨h, rfl⟩
  have hlimit := hR.stepLimit h
  cases c with
  | next =>
      refine (hR.nextToken h).bind ?_
      rintro ⟨x', result⟩ ⟨y', result'⟩ ⟨hlexers, hresult⟩
      exact .pure ⟨hlexers, congrArg Reply.token hresult⟩
  | nextMany count =>
      refine (hR.nextTokens h).bind ?_
      rintro ⟨x', rs⟩ ⟨y', rs'⟩ ⟨hlexers, hresults⟩
      exact .pure ⟨hlexers, congrArg Reply.results hresults⟩
  | all =>
      rw [Command.perform, Command.perform, Lexer.allTokens, Lexer.allTokens, hlimit]
      refine (hR.takeTokens h).bind ?_
      rintro ⟨x', result⟩ ⟨y', result'⟩ ⟨hlexers, hresult⟩
      exact .pure ⟨hlexers, congrArg Reply.tokens hresult⟩
  | iterate count =>
      refine (hR.take htokens).bind ?_
      rintro ⟨ts, p⟩ ⟨ts', q⟩ ⟨hlook, hstreams⟩
      exact .pure ⟨hstreams.1, congrArg Reply.items hlook⟩
  | split channel =>
      have hchannels : OfChannel look R (x.tokens.onChannel channel)
          (y.tokens.onChannel channel) := ⟨htokens, rfl, rfl⟩
      have hlimit' : (y.tokens.onChannel channel).tokens.lexer.stepLimit
          = (x.tokens.onChannel channel).tokens.lexer.stepLimit := hlimit
      rw [Command.perform, Command.perform, ChannelStream.toList, ChannelStream.toList, hlimit']
      refine (hR.takeAllOf hchannels).bind ?_
      rintro ⟨kept, p⟩ ⟨kept', q⟩ ⟨hlook, hstreams, -, hothers⟩
      refine .pure ⟨hstreams.1, ?_⟩
      simp only at hlook
      simp only [Reply.seen, hlook, hothers]
  | join separator =>
      have hlimit' : y.tokens.lexer.stepLimit = x.tokens.lexer.stepLimit := hlimit
      rw [Command.perform, Command.perform, TokenStream.toList, TokenStream.toList, hlimit']
      refine (hR.takeAll htokens).bind ?_
      rintro ⟨ts, p⟩ ⟨ts', q⟩ ⟨hlook, hstreams⟩
      exact .pure ⟨hstreams.1, congrArg Reply.text (hR.renderAll_eq hlook separator)⟩
  | _ => exact hc.elim

end ModalLexer
