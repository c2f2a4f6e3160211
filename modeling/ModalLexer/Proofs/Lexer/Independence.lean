import Mathlib.Data.List.Forall2
import ModalLexer.Proofs.Automaton.Alike
import ModalLexer.Proofs.Lexer.Partition

/-!
# The stream makes no difference

A lexer over a byte source and a lexer over the text that the source delivers
go through a session together: the same answers, the same events, and the same
state behind every command, as long as both of them come through. `Twins` is
what holds of the two lexers between commands, and `Run.Agree` is how it is
carried through the loops, whose limits are not the same on both sides.

The first of the twins also keeps its stream tidy. Every marker is given back
in the end, and no character is read but the next one.
-/

namespace ModalLexer

/-! ## Runs that agree -/

namespace Run

variable {α β γ δ : Type} {R : α → β → Prop} {S : γ → δ → Prop}

/-- If both runs come to an end, they let the same be seen and end in values
that are related. -/
def Agree (R : α → β → Prop) (x : Run α) (y : Run β) : Prop :=
  ∀ left right a b, x = { events := left, outcome := .ok a } →
    y = { events := right, outcome := .ok b } → left = right ∧ R a b

namespace Agree

theorem pure {a : α} {b : β} (h : R a b) : Agree R (Pure.pure a) (Pure.pure b) := by
  intro left right a' b' ha hb
  obtain ⟨rfl, rfl⟩ := pure_eq_ok.mp ha
  obtain ⟨rfl, rfl⟩ := pure_eq_ok.mp hb
  exact ⟨rfl, h⟩

theorem self (x : Run α) : Agree Eq x x := by
  intro left right a b ha hb
  obtain ⟨hevents, hok⟩ := Run.mk.inj (ha.symm.trans hb)
  exact ⟨hevents, Except.ok.inj hok⟩

theorem ofExcept {x : Except Fault α} {y : Except Fault β}
    (h : ∀ a b, x = .ok a → y = .ok b → R a b) : Agree R (Run.ofExcept x) (Run.ofExcept y) := by
  intro left right a b ha hb
  obtain ⟨hx, rfl⟩ := ofExcept_eq_ok.mp ha
  obtain ⟨hy, rfl⟩ := ofExcept_eq_ok.mp hb
  exact ⟨rfl, h a b hx hy⟩

theorem bind {x : Run α} {y : Run β} {f : α → Run γ} {g : β → Run δ} (hxy : Agree R x y)
    (hfg : ∀ a b, R a b → Agree S (f a) (g b)) : Agree S (x >>= f) (y >>= g) := by
  intro left right c d hc hd
  obtain ⟨before, a, after, ha, hfa, rfl⟩ := bind_eq_ok.mp hc
  obtain ⟨before', b, after', hb, hgb, rfl⟩ := bind_eq_ok.mp hd
  obtain ⟨rfl, hab⟩ := hxy _ _ a b ha hb
  obtain ⟨rfl, hcd⟩ := hfg a b hab _ _ c d hfa hgb
  exact ⟨rfl, hcd⟩

theorem map {x : Run α} {y : Run β} {f : α → γ} {g : β → δ} (hxy : Agree R x y)
    (hfg : ∀ a b, R a b → S (f a) (g b)) : Agree S (f <$> x) (g <$> y) := by
  rw [← bind_pure_comp, ← bind_pure_comp]
  exact hxy.bind fun a b hab => .pure (hfg a b hab)

theorem of_fail_left {fault : Fault} {y : Run β} : Agree R (Run.fail fault) y :=
  fun _ _ _ _ ha _ => nomatch (Run.mk.inj ha).2

theorem of_fail_right {fault : Fault} {x : Run α} : Agree R x (Run.fail fault) :=
  fun _ _ _ _ _ hb => nomatch (Run.mk.inj hb).2

end Agree

end Run

open Run (Agree)
open CharStream (SamePlace Alike)

variable {cs : List Char} {s₀ : CharStream}

/-! ## Twins -/

/-- Two lexers that differ in their streams only, which stand at the same place
of one text. The first stream has as many markers outstanding as `s₀`, and
reads no farther ahead if `s₀` does not. -/
def Lexer.Twins (cs : List Char) (s₀ : CharStream) (x y : Lexer TableRecognizer) : Prop :=
  ∃ s t, x.stream? = some s ∧ y = { x with stream? := some t } ∧ SamePlace cs s t
    ∧ s.outstanding = s₀.outstanding ∧ (s₀.ReadsOneAhead → s.ReadsOneAhead)

/-- The same answer, with twins behind it. -/
def Lexer.TwinAnswers {α : Type} (cs : List Char) (s₀ : CharStream)
    (a b : Lexer TableRecognizer × α) : Prop :=
  Twins cs s₀ a.1 b.1 ∧ a.2 = b.2

namespace Lexer

variable {x y : Lexer TableRecognizer}

theorem Twins.nextToken (h : Twins cs s₀ x y) :
    Agree (TwinAnswers cs s₀) x.nextToken y.nextToken := by
  obtain ⟨s, t, hx, rfl, hplace, hmarkers, hahead⟩ := h
  rintro left right ⟨x', result⟩ ⟨y', result'⟩ hxcall hycall
  obtain ⟨h, u, hcourse, hreleased, rfl⟩ :=
    produces_of_nextToken TableRecognizer.advances hx hxcall
  obtain ⟨k, v, hcourse', hreleased', rfl⟩ :=
    produces_of_nextToken TableRecognizer.advances rfl hycall
  have hmarked : Alike cs s.index s.mark.2 t.mark.2 :=
    { left := hplace.left.mark
      right := hplace.right.mark
      index := by rw [CharStream.index_mark, CharStream.index_mark, hplace.index]
      keepsLeft := s.keepsFrom_mark
      keepsRight := hplace.index ▸ t.keepsFrom_mark }
  -- the course over `t` that is like the one over `s` is the one that was taken
  obtain ⟨w, halike, hcourse₂⟩ :=
    hcourse.alike (h := x.marked s) hmarked (Nat.le_of_eq s.index_mark.symm)
  obtain ⟨hevents, rfl, rfl⟩ := hcourse₂.unique hcourse'
  refine ⟨hevents, ⟨u, v, rfl, rfl, ⟨?_, ?_, ?_⟩, hreleased.outstanding.trans hmarkers, ?_⟩, rfl⟩
  · exact hreleased.shows halike.left
  · exact hreleased'.shows halike.right
  · rw [hreleased.index, hreleased'.index]
    exact halike.index
  · intro hone
    have hone' := hcourse.moves CharStream.motion_readsOneAhead
      (TableRecognizer.movesBy CharStream.motion_readsOneAhead)
    exact hreleased.readsOneAhead (hone' (hahead hone).mark)

theorem Twins.recover (h : Twins cs s₀ x y) (e : RecognitionError) :
    Agree (Twins cs s₀) (x.recover e) (y.recover e) := by
  obtain ⟨s, t, hx, rfl, hplace, hmarkers, hahead⟩ := h
  have hpeek := hplace.peek
  have hpeekMarkers : s.peek.2.outstanding = s₀.outstanding :=
    s.outstanding_peek.trans hmarkers
  have hpeekAhead : s₀.ReadsOneAhead → s.peek.2.ReadsOneAhead := fun h => (hahead h).peek
  simp only [Lexer.recover, hx]
  refine (Agree.self _).bind fun _ _ _ => ?_
  split
  · simp only [Head.peek, head]
    rw [show t.peek = (s.peek.1, t.peek.2) from Prod.ext hplace.peek_fst rfl]
    rcases hs : s.peek with ⟨_ | c, s₁⟩
    · rw [hs] at hpeek hpeekMarkers hpeekAhead
      exact .pure ⟨s₁, t.peek.2, rfl, rfl, hpeek, hpeekMarkers, hpeekAhead⟩
    · rw [hs] at hpeek hpeekMarkers hpeekAhead
      refine Agree.bind (R := fun a b => ∃ t', b = a.reading t' ∧ SamePlace cs a.stream t'
        ∧ a.stream.outstanding = s₀.outstanding
        ∧ (s₀.ReadsOneAhead → a.stream.ReadsOneAhead)) (.ofExcept ?_) ?_
      · intro h k hh hk
        obtain ⟨r, s', hr, rfl⟩ := Head.consume_eq_ok.mp hh
        obtain ⟨r', t', hr', rfl⟩ := Head.consume_eq_ok.mp hk
        obtain ⟨u, hplace', hu⟩ := TableRecognizer.consume_samePlace hpeek hr
        obtain ⟨rfl, rfl⟩ := Prod.mk.inj (Except.ok.inj (hr'.symm.trans hu))
        have hmoves := TableRecognizer.advances.consume hr
        have hahead' := (TableRecognizer.movesBy CharStream.motion_readsOneAhead).consume hr
        exact ⟨t', rfl, hplace', hmoves.outstanding_eq.trans hpeekMarkers,
          fun h => hahead' (hpeekAhead h)⟩
      · rintro h _ ⟨t', rfl, hplace', hmarkers', hahead'⟩
        exact .pure ⟨h.stream, t', rfl, rfl, hplace', hmarkers', hahead'⟩
  · refine .pure ⟨s.consume, t.consume, rfl, rfl, hplace.consume, ?_, ?_⟩
    · rw [CharStream.outstanding_consume, hmarkers]
    · exact fun h => (hahead h).consume

theorem Twins.act (h : Twins cs s₀ x y) (a : Action) :
    Agree (TwinAnswers cs s₀) (x.act a) (y.act a) := by
  obtain ⟨s, t, hx, rfl, hrest⟩ := h
  refine (Agree.self (x.state.perform [a])).bind ?_
  rintro ⟨state, failure⟩ _ rfl
  exact .pure ⟨⟨s, t, hx, rfl, hrest⟩, rfl⟩

/-! ## Loops over the tokens -/

theorem Twins.nextTokens : ∀ {n : Nat} {x y : Lexer TableRecognizer}, Twins cs s₀ x y →
    Agree (TwinAnswers cs s₀) (x.nextTokens n) (y.nextTokens n)
  | 0, _, _, h => .pure ⟨h, rfl⟩
  | n + 1, x, y, h => by
      refine h.nextToken.bind ?_
      rintro ⟨x', result⟩ ⟨y', _⟩ ⟨htwins, rfl⟩
      refine htwins.nextTokens.map ?_
      rintro ⟨x'', rest⟩ ⟨y'', _⟩ ⟨htwins', rfl⟩
      exact ⟨htwins', rfl⟩

theorem Twins.takeTokens : ∀ {n m : Nat} {x y : Lexer TableRecognizer}, Twins cs s₀ x y →
    Agree (TwinAnswers cs s₀) (x.takeTokens n) (y.takeTokens m)
  | 0, _, _, _, _ => .of_fail_left
  | _ + 1, 0, _, _, _ => .of_fail_right
  | n + 1, m + 1, x, y, h => by
      refine h.nextToken.bind ?_
      rintro ⟨x', result⟩ ⟨y', _⟩ ⟨htwins, rfl⟩
      cases result with
      | error e => exact .pure ⟨htwins, rfl⟩
      | ok t =>
          simp only
          split
          · exact .pure ⟨htwins, rfl⟩
          · refine htwins.takeTokens.map ?_
            rintro ⟨x'', rest⟩ ⟨y'', _⟩ ⟨htwins', rfl⟩
            exact ⟨htwins', rfl⟩

end Lexer

namespace TokenStream

/-- The same, for lexers that give out their tokens one by one. -/
def Twins (cs : List Char) (s₀ : CharStream) (p q : TokenStream TableRecognizer) : Prop :=
  Lexer.Twins cs s₀ p.lexer q.lexer ∧ q.done = p.done

/-- The same answer, with twins behind it. -/
def TwinAnswers {α : Type} (cs : List Char) (s₀ : CharStream)
    (a b : α × TokenStream TableRecognizer) : Prop :=
  a.1 = b.1 ∧ Twins cs s₀ a.2 b.2

theorem Twins.next {p q : TokenStream TableRecognizer} (h : Twins cs s₀ p q) :
    Agree (TwinAnswers cs s₀) p.next q.next := by
  obtain ⟨htwins, hdone⟩ := h
  unfold TokenStream.next
  rw [hdone]
  split
  · exact .pure ⟨rfl, htwins, hdone⟩
  · refine htwins.nextToken.bind ?_
    rintro ⟨x', result⟩ ⟨y', _⟩ ⟨htwins', rfl⟩
    cases result with
    | error e => exact .pure ⟨rfl, htwins', rfl⟩
    | ok t =>
        simp only
        split <;> exact .pure ⟨rfl, htwins', rfl⟩

theorem Twins.take : ∀ {n : Nat} {p q : TokenStream TableRecognizer}, Twins cs s₀ p q →
    Agree (TwinAnswers cs s₀) (p.take n) (q.take n)
  | 0, _, _, h => .pure ⟨rfl, h⟩
  | n + 1, p, q, h => by
      refine h.next.bind ?_
      rintro ⟨t?, p'⟩ ⟨_, q'⟩ ⟨rfl, htwins⟩
      refine htwins.take.map ?_
      rintro ⟨rest, p''⟩ ⟨_, q''⟩ ⟨rfl, htwins'⟩
      exact ⟨rfl, htwins'⟩

theorem Twins.takeAll : ∀ {n m : Nat} {p q : TokenStream TableRecognizer}, Twins cs s₀ p q →
    Agree (TwinAnswers cs s₀) (p.takeAll n) (q.takeAll m)
  | 0, _, _, _, _ => .of_fail_left
  | _ + 1, 0, _, _, _ => .of_fail_right
  | n + 1, m + 1, p, q, h => by
      refine h.next.bind ?_
      rintro ⟨t?, p'⟩ ⟨_, q'⟩ ⟨rfl, htwins⟩
      cases t? with
      | none => exact .pure ⟨rfl, htwins⟩
      | some t =>
          refine htwins.takeAll.map ?_
          rintro ⟨rest, p''⟩ ⟨_, q''⟩ ⟨rfl, htwins'⟩
          exact ⟨rfl, htwins'⟩

end TokenStream

namespace ChannelStream

/-- The same, for lexers that set the tokens of other channels aside. -/
def Twins (cs : List Char) (s₀ : CharStream) (p q : ChannelStream TableRecognizer) : Prop :=
  TokenStream.Twins cs s₀ p.tokens q.tokens ∧ q.channel = p.channel ∧ q.others = p.others

/-- The same answer, with twins behind it. -/
def TwinAnswers {α : Type} (cs : List Char) (s₀ : CharStream)
    (a b : α × ChannelStream TableRecognizer) : Prop :=
  a.1 = b.1 ∧ Twins cs s₀ a.2 b.2

theorem Twins.seek : ∀ {n m : Nat} {p q : ChannelStream TableRecognizer}, Twins cs s₀ p q →
    Agree (TwinAnswers cs s₀) (p.seek n) (q.seek m)
  | 0, _, _, _, _ => .of_fail_left
  | _ + 1, 0, _, _, _ => .of_fail_right
  | n + 1, m + 1, p, q, ⟨htwins, hchannel, hothers⟩ => by
      refine htwins.next.bind ?_
      rintro ⟨t?, p'⟩ ⟨_, q'⟩ ⟨rfl, htwins'⟩
      cases t? with
      | none => exact .pure ⟨rfl, htwins', hchannel, hothers⟩
      | some t =>
          simp only [hchannel, hothers]
          split
          · exact .pure ⟨rfl, htwins', rfl, rfl⟩
          · exact Twins.seek ⟨htwins', rfl, rfl⟩

theorem Twins.takeAll {k l : Nat} : ∀ {n m : Nat} {p q : ChannelStream TableRecognizer},
    Twins cs s₀ p q → Agree (TwinAnswers cs s₀) (p.takeAll k n) (q.takeAll l m)
  | 0, _, _, _, _ => .of_fail_left
  | _ + 1, 0, _, _, _ => .of_fail_right
  | n + 1, m + 1, p, q, h => by
      refine h.seek.bind ?_
      rintro ⟨t?, p'⟩ ⟨_, q'⟩ ⟨rfl, htwins⟩
      cases t? with
      | none => exact .pure ⟨rfl, htwins⟩
      | some t =>
          refine htwins.takeAll.map ?_
          rintro ⟨rest, p''⟩ ⟨_, q''⟩ ⟨rfl, htwins'⟩
          exact ⟨rfl, htwins'⟩

end ChannelStream

/-! ## Sessions -/

/-- The command reads tokens, drops a character or acts on the state. -/
def Command.Consumes {ρ : Type} : Command ρ → Prop
  | .next | .nextMany _ | .all | .iterate _ | .split _ | .join _ | .recover _ | .act _ => True
  | _ => False

theorem Lexer.Twins.perform {x y : Lexer TableRecognizer} (h : Twins cs s₀ x y)
    {c : Command TableRecognizer} (hc : c.Consumes) :
    Agree (TwinAnswers cs s₀) (c.perform x) (c.perform y) := by
  have htokens : TokenStream.Twins cs s₀ x.tokens y.tokens := ⟨h, rfl⟩
  cases c with
  | next =>
      refine h.nextToken.bind ?_
      rintro ⟨x', result⟩ ⟨y', _⟩ ⟨htwins, rfl⟩
      exact .pure ⟨htwins, rfl⟩
  | nextMany count =>
      refine h.nextTokens.bind ?_
      rintro ⟨x', results⟩ ⟨y', _⟩ ⟨htwins, rfl⟩
      exact .pure ⟨htwins, rfl⟩
  | all =>
      refine h.takeTokens.bind ?_
      rintro ⟨x', result⟩ ⟨y', _⟩ ⟨htwins, rfl⟩
      exact .pure ⟨htwins, rfl⟩
  | iterate count =>
      refine htokens.take.bind ?_
      rintro ⟨items, p⟩ ⟨_, q⟩ ⟨rfl, htwins⟩
      exact .pure ⟨htwins.1, rfl⟩
  | split channel =>
      have hchannels : ChannelStream.Twins cs s₀ (x.tokens.onChannel channel)
          (y.tokens.onChannel channel) := ⟨htokens, rfl, rfl⟩
      refine hchannels.takeAll.bind ?_
      rintro ⟨kept, p⟩ ⟨_, q⟩ ⟨rfl, htwins, hchannel, hothers⟩
      exact .pure ⟨htwins.1, congrArg (Reply.split kept ·.toList) hothers.symm⟩
  | join separator =>
      refine htokens.takeAll.bind ?_
      rintro ⟨tokens, p⟩ ⟨_, q⟩ ⟨rfl, htwins⟩
      exact .pure ⟨htwins.1, rfl⟩
  | recover e =>
      refine (h.recover e).bind ?_
      intro x' y' htwins
      exact .pure ⟨htwins, rfl⟩
  | act a =>
      refine (h.act a).bind ?_
      rintro ⟨x', failure⟩ ⟨y', _⟩ ⟨htwins, rfl⟩
      exact .pure ⟨htwins, rfl⟩
  | _ => exact hc.elim

/-- Two entries agree, and twins are left behind. -/
def Entry.Twins (cs : List Char) (s₀ : CharStream) (e f : Entry TableRecognizer) : Prop :=
  e.events = f.events ∧ e.reply = f.reply ∧ Lexer.Twins cs s₀ e.lexer f.lexer

theorem Lexer.Twins.trace {x y : Lexer TableRecognizer} (h : Twins cs s₀ x y)
    {commands : List (Command TableRecognizer)} (hc : ∀ c ∈ commands, c.Consumes)
    {xs ys : List (Entry TableRecognizer)} (hx : Trace x commands xs)
    (hy : Trace y commands ys) : List.Forall₂ (Entry.Twins cs s₀) xs ys := by
  -- on the first session; the other lexer changes with each step
  induction hx generalizing y ys with
  | nil =>
      cases hy
      exact .nil
  | cons hstep _ ih =>
      cases hy with
      | cons hstep' hrest' =>
          obtain ⟨hevents, htwins, hreply⟩ :=
            h.perform (hc _ (List.mem_cons_self ..)) _ _ _ _ hstep hstep'
          exact .cons ⟨hevents, hreply, htwins⟩
            (ih htwins (fun c h => hc c (List.mem_cons_of_mem _ h)) hrest')

/-- The two entries say the same, and behind them the lexers are at the same
point. -/
structure Entry.Alike {ρ : Type} (e f : Entry ρ) : Prop where
  events : f.events = e.events
  reply : f.reply = e.reply
  index : f.lexer.index = e.lexer.index
  recognizer : f.lexer.recognizer = e.lexer.recognizer
  state : f.lexer.state = e.lexer.state
  error? : f.lexer.error? = e.lexer.error?

theorem Entry.Twins.alike {e f : Entry TableRecognizer} (h : Entry.Twins cs s₀ e f) :
    e.Alike f := by
  obtain ⟨hevents, hreply, s, t, hs, hf, hplace, -, -⟩ := h
  refine ⟨hevents.symm, hreply.symm, ?_, ?_, ?_, ?_⟩
  · simp only [hf, Lexer.index, hs, hplace.index]
  all_goals rw [hf]

/-- No marker is outstanding, and no character but the next one has been read. -/
def Reader.IsTidy (r : Reader) : Prop := r.markers = 0 ∧ r.buffer.size ≤ 1

theorem Entry.Twins.isTidy {r : Reader} (hr : r.IsTidy) {e f : Entry TableRecognizer}
    (h : Entry.Twins cs (.reader r) e f) :
    ∃ r', e.lexer.stream? = some (.reader r') ∧ r'.IsTidy := by
  obtain ⟨hmarkers, hsize⟩ := hr
  obtain ⟨-, -, s, t, hs, -, -, hout, hahead⟩ := h
  have hone : s.ReadsOneAhead := hahead (Nat.le_trans hsize (Nat.le_add_left ..))
  cases s with
  | text s => cases hout
  | reader r' =>
      have hzero : r'.markers = 0 := (Option.some.inj hout).trans hmarkers
      have hoffset := r'.offset_eq_zero hzero
      simp only [CharStream.ReadsOneAhead, hoffset] at hone
      exact ⟨r', hs, hzero, hone⟩

/-- A reader at its beginning and the text of the characters that its source
delivers lead a lexer through every session in the same way. If the reader was
tidy at first, it is tidy after every command. -/
theorem reader_alike_text (lx : Lexer TableRecognizer) (r : Reader) (hindex : r.index = 0)
    (commands : List (Command TableRecognizer)) (hconsumes : ∀ c ∈ commands, c.Consumes)
    (xs ys : List (Entry TableRecognizer)) (hx : Trace (lx.attach (.reader r)) commands xs)
    (hy : Trace (lx.attach (.ofString (String.ofList r.chars) r.name)) commands ys) :
    List.Forall₂ Entry.Alike xs ys
      ∧ (r.IsTidy → ∀ x ∈ xs, ∃ r', x.lexer.stream? = some (.reader r') ∧ r'.IsTidy) := by
  have hs : (CharStream.reader r).Shows r.chars := CharStream.shows_reader hindex
  have ht : (CharStream.ofString (String.ofList r.chars) r.name).Shows r.chars :=
    CharStream.shows_ofList ..
  have htwins : Lexer.Twins r.chars (.reader r) (lx.attach (.reader r))
      (lx.attach (.ofString (String.ofList r.chars) r.name)) :=
    ⟨.reader r, .ofString (String.ofList r.chars) r.name, rfl, rfl, ⟨hs, ht, hindex.symm⟩, rfl, id⟩
  have hall := htwins.trace hconsumes hx hy
  refine ⟨hall.imp fun _ _ => Entry.Twins.alike, fun htidy => ?_⟩
  exact ((List.forall₂_and_left _ _).mp (hall.imp fun _ _ h => ⟨h.isTidy htidy, h⟩)).1

/-- A quotation that comes in pieces and is cut off by a byte that begins no
character. -/
theorem reader_alike_text_cut :
    let lx : Lexer TableRecognizer := { recognizer := { automaton := Sample.quotations } }
    let r := Reader.ofSource { chunks := [.bytes [0x61, 0x20], .bytes [0x22, 0x62, 0xff]] } "cut"
    ∃ xs ys, Trace (lx.attach (.reader r)) [.next, .act .popMode, .next] xs
      ∧ Trace (lx.attach (.ofString (String.ofList r.chars) "cut"))
        [.next, .act .popMode, .next] ys
      ∧ List.Forall₂ Entry.Alike xs ys
      ∧ ∀ x ∈ xs, ∃ r', x.lexer.stream? = some (.reader r') ∧ r'.IsTidy := by
  intro lx r
  have hlength : r.chars.length < Lexer.textLimit :=
    Nat.lt_of_le_of_lt r.decoder.length_delivered_le (by decide)
  have hready : ∀ s : CharStream, s.Shows r.chars → s.index = 0 → (lx.attach s).Ready r.chars s :=
    fun s hs hindex => Lexer.ready_attach (by decide) (by decide) hs hindex hlength
  have hsteers : ∀ c ∈ ([.next, .act .popMode, .next] : List (Command TableRecognizer)),
      c.Steers := by simp [Command.Steers]
  obtain ⟨xs, -, hx, -⟩ := (hready _ (CharStream.shows_reader rfl) rfl).trace hsteers
  obtain ⟨ys, -, hy, -⟩ := (hready _ (CharStream.shows_ofList r.chars "cut") rfl).trace hsteers
  obtain ⟨halike, htidy⟩ := reader_alike_text lx r rfl [.next, .act .popMode, .next]
    (by simp [Command.Consumes]) xs ys hx hy
  exact ⟨xs, ys, hx, hy, halike, htidy ⟨rfl, by decide⟩⟩

end ModalLexer
