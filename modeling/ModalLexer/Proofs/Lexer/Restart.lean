import ModalLexer.Proofs.Lexer.Independence
import ModalLexer.Proofs.Lexer.Origin
import ModalLexer.Sample

/-!
# Starting again

What has become of a lexer stands in four places: its stream, its recognizer,
its state and the error it remembers. A reset and a new stream bring all of
them back to what they are in a lexer that has just been built. So whatever
went before, every session that follows is that of a new lexer with the same
settings, apart from where the text is said to come from.

A byte source is not read twice. Whether a lexer over one can be reset depends
on whether a character has been dropped, and if it can, the characters that
have been read ahead stay where they are. Calls do not depend on them
(`Lexer.Twins.performAll`), but a report that the user asks for does: it quotes
the next character if that has been read, and asks for it too late if not.
-/

namespace ModalLexer

open Run (Agree Parallel)
open Lexer (SameButOrigin)

variable {ρ : Type} [Recognizer ρ]

/-! ## What a restart goes by -/

/-- The lexers have the same settings: options, listeners, and what a reset
leaves of the recognizer. -/
structure Lexer.SameSettings (x y : Lexer ρ) : Prop where
  recognizer : Recognizer.reset y.recognizer = Recognizer.reset x.recognizer
  options : y.options = x.options
  listeners : y.listeners = x.listeners

/-- A new lexer with the settings of this one; `renew` makes a new recognizer
of an old one. -/
def Lexer.builtAnew (lx : Lexer ρ) (renew : ρ → ρ) : Lexer ρ where
  recognizer := renew lx.recognizer
  options := lx.options
  listeners := lx.listeners

theorem Lexer.sameSettings_builtAnew {renew : ρ → ρ}
    (hrenew : ∀ r, Recognizer.reset (renew r) = Recognizer.reset r) (lx : Lexer ρ) :
    (lx.builtAnew renew).SameSettings lx :=
  ⟨(hrenew lx.recognizer).symm, rfl, rfl⟩

/-- In every session the second lexer says what the first says, and comes to
where the first comes to, but for where the text comes from. Only, the streams
that are attached have to be ones that both of them can count. -/
def Lexer.SameSessions (x y : Lexer ρ) : Prop :=
  ∀ commands : List (Command ρ), x.CanCount (commands.countP Command.attaches) →
    y.CanCount (commands.countP Command.attaches) →
    Parallel Event.unsourced (Beside SameButOrigin (List.map Reply.unsourced))
      (Command.performAll commands x) (Command.performAll commands y)

namespace Lexer.SameSettings

variable {x y : Lexer ρ} {s t : CharStream}

/-- Putting a stream back into the one and attaching it to the other is the
same but for its name. -/
theorem restart_attach (h : x.SameSettings y) (hst : s.SameButName t) :
    (x.attach s).SameButOrigin (y.restart (some t)) where
  recognizer := h.recognizer
  stream? := congrArg some hst
  state := .refl _
  options := h.options
  error? := rfl
  listeners := h.listeners

theorem attach (h : x.SameSettings y) (hst : s.SameButName t) :
    (x.attach s).SameButOrigin (y.attach t) where
  recognizer := h.recognizer
  stream? := congrArg some hst
  state := .refl _
  options := h.options
  error? := rfl
  listeners := h.listeners

theorem sameSessions_restart (hρ : Recognizer.IgnoresOrigin ρ) (h : x.SameSettings y)
    (hst : s.SameButName t) : SameSessions (x.attach s) (y.restart (some t)) :=
  fun _ => performAll_sameButOrigin hρ (h.restart_attach hst)

theorem sameSessions_attach (hρ : Recognizer.IgnoresOrigin ρ) (h : x.SameSettings y)
    (hst : s.SameButName t) : SameSessions (x.attach s) (y.attach t) :=
  fun _ => performAll_sameButOrigin hρ (h.attach hst)

end Lexer.SameSettings

/-! ## Streams at their beginning -/

theorem TextStream.sameButName_seek_zero (s : TextStream) (name : String) :
    (CharStream.ofString (String.ofList s.chars.toList) name).SameButName (.text (s.seek 0)) := by
  simp only [CharStream.SameButName, CharStream.ofString, CharStream.unnamed, TextStream.seek,
    TextStream.ofString, String.toList_ofList, Nat.zero_min]

theorem CharStream.sameButName_ofString (text name name' : String) :
    (CharStream.ofString text name).SameButName (.ofString text name') := rfl

/-- The reader is the other one moved back to its beginning. -/
structure Reader.Rewound (r r' : Reader) : Prop where
  index : r'.index = 0
  decoder : r'.decoder = r.decoder
  buffer : r'.buffer = r.buffer
  markers : r'.markers = r.markers

namespace Reader

variable {r r' : Reader}

theorem Rewound.chars_eq (h : r.Rewound r') : r'.chars = r.chars := by
  rw [Reader.chars, h.buffer, h.decoder, Reader.chars]

theorem seek_zero_of_dropped (h : r.bufferStart ≠ 0) :
    r.seek 0 = .error (.seekOutOfBuffer 0 r.bufferStart) :=
  if_pos (Nat.pos_of_ne_zero h)

/-- A reader that has dropped nothing can be moved back to its beginning. -/
theorem exists_seek_zero (h : r.bufferStart = 0) : ∃ r', r.seek 0 = .ok r' ∧ r.Rewound r' := by
  have hkept : 0 ≤ r.bufferStop := Nat.zero_le _
  refine ⟨r.place r.markers 0 (Nat.zero_le _), ?_, ?_⟩
  · simp only [seek, h, if_neg (Nat.not_lt_zero 0), dif_pos hkept, Nat.sub_zero]
  · refine ⟨?_, r.decoder_place (Nat.zero_le _), ?_, r.markers_place (Nat.zero_le _)⟩
    · rw [r.index_place (Nat.zero_le _), h]
    · unfold place
      by_cases hm : r.markers = 0
      · rw [dif_pos hm]
        exact Array.extract_size
      · rw [dif_neg hm]

end Reader

theorem CharStream.exists_seek_zero_reader {r : Reader} (h : r.bufferStart = 0) :
    ∃ r', (reader r).seek 0 = .ok (reader r') ∧ r.Rewound r' := by
  obtain ⟨r', hseek, hrewound⟩ := Reader.exists_seek_zero h
  refine ⟨r', ?_, hrewound⟩
  rw [seek, hseek]
  rfl

/-! ## Nothing is left of the past -/

/-- When this lexer starts again, it goes through every session as a new one
does. -/
structure Lexer.LeavesNoTrace (renew : ρ → ρ) (lx : Lexer ρ) : Prop where
  /-- A text can always be gone back to. -/
  reset_text : ∀ s : TextStream, lx.stream? = some (.text s) →
    ∃ lx', Command.reset.perform lx = pure (lx', .done)
      ∧ ∀ name, Lexer.SameSessions
        ((lx.builtAnew renew).attach (.ofString (String.ofList s.chars.toList) name)) lx'
  attach_text : ∀ text name name' : String, Lexer.SameSessions
    ((lx.builtAnew renew).attach (.ofString text name')) (lx.attach (.ofString text name))
  /-- A byte source can be gone back to as long as nothing of it was dropped;
  what has been read ahead stays with it. -/
  reset_reader : ∀ r : Reader, lx.stream? = some (.reader r) → r.bufferStart = 0 →
    ∃ lx' r', Command.reset.perform lx = pure (lx', .done) ∧ r.Rewound r'
      ∧ Lexer.SameSessions ((lx.builtAnew renew).attach (.reader r')) lx'
  /-- If something was dropped, the lexer says so and stays as it is. -/
  reset_refused : ∀ r : Reader, lx.stream? = some (.reader r) → r.bufferStart ≠ 0 →
    Command.reset.perform lx = pure (lx, .failure (.stream (.seekOutOfBuffer 0 r.bufferStart)))

theorem Lexer.perform_reset_eq_done {lx : Lexer ρ} {s t : CharStream}
    (hstream : lx.stream? = some s) (hseek : s.seek 0 = .ok t) :
    Command.reset.perform lx = pure (lx.restart (some t), .done) := by
  simp only [Command.perform, Lexer.reset, hstream, hseek]

theorem Lexer.leavesNoTrace (hρ : Recognizer.IgnoresOrigin ρ) {renew : ρ → ρ}
    (hrenew : ∀ r, Recognizer.reset (renew r) = Recognizer.reset r) (lx : Lexer ρ) :
    lx.LeavesNoTrace renew := by
  constructor
  case reset_text =>
    intro s hstream
    refine ⟨_, Lexer.perform_reset_eq_done hstream rfl, fun name => ?_⟩
    exact (lx.sameSettings_builtAnew hrenew).sameSessions_restart hρ (s.sameButName_seek_zero name)
  case attach_text =>
    intro text name name'
    exact (lx.sameSettings_builtAnew hrenew).sameSessions_attach hρ
      (CharStream.sameButName_ofString ..)
  case reset_reader =>
    intro r hstream hstart
    obtain ⟨r', hseek, hrewound⟩ := CharStream.exists_seek_zero_reader hstart
    refine ⟨_, r', Lexer.perform_reset_eq_done hstream hseek, hrewound, ?_⟩
    exact (lx.sameSettings_builtAnew hrenew).sameSessions_restart hρ (.refl _)
  case reset_refused =>
    intro r hstream hstart
    simp only [Command.perform, Lexer.reset, hstream, CharStream.seek,
      Reader.seek_zero_of_dropped hstart]
    rfl

/-! ## What has been read ahead -/

/-- The command neither sets the stream nor asks for a report. -/
def Command.Proceeds : Command ρ → Prop
  | .attach _ | .detach | .reset | .notify _ => False
  | _ => True

omit [Recognizer ρ] in
theorem Command.Proceeds.not_attaches {c : Command ρ} (hc : c.Proceeds) :
    ¬c.attaches = true := by
  cases c with
  | attach => exact hc.elim
  | _ => exact Bool.false_ne_true

/-- What reads is the matter of `Lexer.Twins.perform`; settings do not concern
the stream at all. -/
theorem Lexer.Twins.perform_proceeds {cs : List Char} {s₀ : CharStream}
    {x y : Lexer TableRecognizer} (h : Twins cs s₀ x y) {c : Command TableRecognizer}
    (hc : c.Proceeds) : Agree (TwinAnswers cs s₀) (c.perform x) (c.perform y) := by
  have hsettings := h
  obtain ⟨s, t, hs, rfl, hplace⟩ := hsettings
  cases c with
  | attach | detach | reset | notify => exact hc.elim
  | listen | unlisten | setLine | setColumn | setOptions | adjust =>
      exact .pure ⟨⟨s, t, hs, rfl, hplace⟩, rfl⟩
  | _ => exact h.perform trivial

theorem Lexer.Twins.performAll {cs : List Char} {s₀ : CharStream} :
    ∀ {commands : List (Command TableRecognizer)} {x y : Lexer TableRecognizer},
      Twins cs s₀ x y → (∀ c ∈ commands, c.Proceeds) →
        Agree (TwinAnswers cs s₀) (Command.performAll commands x) (Command.performAll commands y)
  | [], _, _, h, _ => .pure ⟨h, rfl⟩
  | c :: commands, x, y, h, hc => by
      refine (h.perform_proceeds (hc c (List.mem_cons_self ..))).bind ?_
      rintro ⟨x', reply⟩ ⟨y', _⟩ ⟨htwins, rfl⟩
      refine (htwins.performAll fun c h => hc c (List.mem_cons_of_mem _ h)).map ?_
      rintro ⟨x'', rest⟩ ⟨y'', _⟩ ⟨htwins', rfl⟩
      exact ⟨htwins', rfl⟩

/-- The lexers stand at the same place, but for where the text comes from and
how much of it has been read. -/
structure Lexer.SamePlace (x y : Lexer ρ) : Prop where
  index : y.index = x.index
  recognizer : y.recognizer = x.recognizer
  state : x.state.SameButSource y.state
  error? : y.error? = x.error?

/-- The second lexer goes through the sessions of the first, if both come
through: the same is said and answered, but for where the text comes from. -/
def Lexer.Replays (x y : Lexer ρ) : Prop :=
  ∀ (commands : List (Command ρ)), (∀ c ∈ commands, c.Proceeds) →
    ∀ (events events' : List Event) (replies replies' : List Reply) (last last' : Lexer ρ),
      Command.performAll commands x = { events, outcome := .ok (last, replies) } →
      Command.performAll commands y = { events := events', outcome := .ok (last', replies') } →
        events'.map Event.unsourced = events.map Event.unsourced
          ∧ replies'.map Reply.unsourced = replies.map Reply.unsourced
          ∧ last.SamePlace last'

/-- Of two lexers with the same settings, the one that starts again over a text
goes through the sessions of the one that is given a stream of this text. -/
theorem Lexer.SameSettings.replays {x y : Lexer TableRecognizer} (h : x.SameSettings y)
    {cs : List Char} {s t : CharStream} (hs : s.Shows cs) (ht : t.Shows cs)
    (hindex : t.index = s.index) : (x.attach s).Replays (y.restart (some t)) := by
  intro commands hc events events' replies replies' last last' hrun hrun'
  -- in between stands the second lexer with the stream of the first
  have htwins : Lexer.Twins cs t (y.restart (some t)) (y.restart (some s)) :=
    ⟨t, s, rfl, rfl, ⟨ht, hs, hindex.symm⟩, rfl, id⟩
  have hnone : commands.countP Command.attaches = 0 :=
    List.countP_eq_zero.mpr fun c hmem => (hc c hmem).not_attaches
  have hparallel := h.sameSessions_restart TableRecognizer.ignoresOrigin (.refl s) commands
    (.inl hnone) (.inl hnone)
  rw [hrun] at hparallel
  generalize hmid : Command.performAll commands (y.restart (some s)) = mid at hparallel
  obtain ⟨midEvents, midOutcome⟩ := mid
  obtain ⟨hevents, houtcome⟩ := hparallel
  cases houtcome with
  | @ok _ b hbeside =>
      obtain ⟨midLast, midReplies⟩ := b
      obtain ⟨horigin, hreplies⟩ := hbeside
      obtain ⟨rfl, ⟨u, v, hu, rfl, hplace, -, -⟩, rfl⟩ :=
        htwins.performAll hc _ _ _ _ hrun' hmid
      refine ⟨hevents, hreplies, ?_, horigin.recognizer, horigin.state, horigin.error?⟩
      have hindex' : last'.index = v.index := by
        rw [Lexer.index, show last'.stream? = some u from hu]
        exact hplace.index.symm
      rw [hindex']
      exact horigin.index

/-! ## Sessions after a restart -/

/-- A new recognizer with the tables and the tab width of this one. -/
def TableRecognizer.renew (r : TableRecognizer) : TableRecognizer where
  automaton := r.automaton
  tab := r.tab

theorem TableRecognizer.reset_renew (r : TableRecognizer) :
    Recognizer.reset r.renew = Recognizer.reset r := rfl

/-- A new recognizer with the rules of this one. -/
def ScriptRecognizer.renew (r : ScriptRecognizer) : ScriptRecognizer where
  modes := r.modes

theorem ScriptRecognizer.reset_renew (r : ScriptRecognizer) :
    Recognizer.reset r.renew = Recognizer.reset r := rfl

/-- Whatever a lexer has been through, a reset over a text and the attachment
of a text make it as good as new. Over a byte source the reset goes through as
long as nothing of it was dropped, and is refused without a trace otherwise.
What has been read ahead stays readable: a lexer with tables goes through its
sessions as it does over any stream of the same characters. -/
theorem restart_leaves_no_trace (lx : Lexer TableRecognizer) (ly : Lexer ScriptRecognizer) :
    lx.LeavesNoTrace TableRecognizer.renew ∧ ly.LeavesNoTrace ScriptRecognizer.renew
      ∧ ∀ (lx' : Lexer TableRecognizer) (r : Reader), lx.stream? = some (.reader r) →
          Command.reset.perform lx = pure (lx', .done) →
            ∀ s : CharStream, s.Shows r.chars → s.index = 0 →
              ((lx.builtAnew TableRecognizer.renew).attach s).Replays lx' := by
  have hscript := ly.leavesNoTrace ScriptRecognizer.ignoresOrigin ScriptRecognizer.reset_renew
  have htable := lx.leavesNoTrace TableRecognizer.ignoresOrigin TableRecognizer.reset_renew
  refine ⟨htable, hscript, ?_⟩
  intro lx' r hstream hreset s hs hindex
  by_cases hstart : r.bufferStart = 0
  · obtain ⟨r', hseek, hrewound⟩ := CharStream.exists_seek_zero_reader hstart
    rw [Lexer.perform_reset_eq_done hstream hseek] at hreset
    obtain ⟨rfl, -⟩ := Run.pure_pair_eq_ok.mp hreset
    have hshows : (CharStream.reader r').Shows r.chars :=
      hrewound.chars_eq ▸ CharStream.shows_reader hrewound.index
    exact (lx.sameSettings_builtAnew TableRecognizer.reset_renew).replays hs hshows
      (hrewound.index.trans hindex.symm)
  · rw [htable.reset_refused r hstream hstart] at hreset
    exact nomatch (Run.pure_pair_eq_ok.mp hreset).2.1

/-- The first letter of a word has been looked at and is still there after the
reset, which makes no difference to the sessions that follow. A letter that has
been dropped does not come back. -/
theorem restart_leaves_no_trace_reader :
    let source : ByteSource := { chunks := [.bytes [0x61, 0x62, 0x20]] }
    let ahead := (Reader.ofSource source "word").fill 1
    let dropped := (Reader.ofSource source "word").consume
    let lx : Lexer TableRecognizer :=
      Lexer.attach { recognizer := { automaton := Sample.quotations } } (.reader ahead)
    let ly : Lexer ScriptRecognizer :=
      Lexer.attach { recognizer := Sample.wavering } (.reader dropped)
    let anew := lx.builtAnew TableRecognizer.renew
    let text := CharStream.ofString (String.ofList ahead.chars) "word"
    let session : List (Command TableRecognizer) := [.next, .attach (.ofString "b"), .next]
    ahead.buffer = #['a']
      ∧ (∃ lx' r', Command.reset.perform lx = pure (lx', .done) ∧ ahead.Rewound r'
        ∧ Parallel Event.unsourced (Beside SameButOrigin (List.map Reply.unsourced))
          (Command.performAll session (anew.attach (.reader r')))
          (Command.performAll session lx')
        ∧ ∃ events events' replies replies' last last',
          Command.performAll [.next, .next] (anew.attach text)
              = { events, outcome := .ok (last, replies) }
            ∧ Command.performAll [.next, .next] lx'
              = { events := events', outcome := .ok (last', replies') }
            ∧ replies'.map Reply.unsourced = replies.map Reply.unsourced
            ∧ last.SamePlace last')
      ∧ Command.reset.perform ly = pure (ly, .failure (.stream (.seekOutOfBuffer 0 1))) := by
  intro source ahead dropped lx ly anew text session
  obtain ⟨htable, hscript, hreplays⟩ := restart_leaves_no_trace lx ly
  obtain ⟨lx', r', hreset, hrewound, hsessions⟩ := htable.reset_reader ahead rfl rfl
  have hcounted : lx'.attachments = 1 := by
    obtain ⟨t, hseek, -⟩ := CharStream.exists_seek_zero_reader (r := ahead) rfl
    rw [Lexer.perform_reset_eq_done rfl hseek] at hreset
    obtain ⟨rfl, -⟩ := Run.pure_pair_eq_ok.mp hreset
    rfl
  have hruns : ((Command.performAll [.next, .next] (anew.attach text)).outcome.toOption.map
      fun _ => ()) = some () := by decide +kernel
  have hruns' : ((Command.performAll [.reset, .next, .next] lx).outcome.toOption.map
      fun _ => ()) = some () := by decide +kernel
  rw [Command.performAll, hreset, pure_bind] at hruns'
  obtain ⟨events, ⟨last, replies⟩, hrun, -⟩ := Run.exists_eq_ok hruns
  obtain ⟨events', _, hmapped, -⟩ := Run.exists_eq_ok hruns'
  obtain ⟨⟨last', replies'⟩, hrun', -⟩ := Run.map_eq_ok.mp hmapped
  have hproceeds : ∀ c ∈ ([.next, .next] : List (Command TableRecognizer)), c.Proceeds := by
    simp [Command.Proceeds]
  obtain ⟨-, hreplies, hplace⟩ := hreplays lx' ahead rfl hreset text
    (CharStream.shows_ofList ..) rfl [.next, .next] hproceeds events events' replies replies' last
    last' hrun hrun'
  -- either lexer has counted one stream, and the session attaches another
  have hcount : 1 + session.countP Command.attaches < Checked.wordLimit := by decide
  refine ⟨by decide, ⟨lx', r', hreset, hrewound, ?_, events, events', replies, replies', last,
    last', hrun, hrun', hreplies, hplace⟩, hscript.reset_refused dropped rfl (by decide)⟩
  exact hsessions session (.inr hcount) (.inr (hcounted.symm ▸ hcount))

/-- A report on request quotes the next character only if it has been read,
and what the first report has read is there for the one after the reset. -/
theorem report_after_reset_quotes_more :
    let e : RecognitionError := .noRule {}
    let lx : Lexer TableRecognizer :=
      Lexer.attach { recognizer := { automaton := Sample.quotations } }
        (.ofSource { chunks := [.bytes [0x61, 0x62]] })
    ((Command.performAll [.notify e, .reset, .notify e] lx).events.filterMap Event.report?).map
        Report.message
      = ["token recognition error at: ''", "token recognition error at: 'a'"] := by
  decide +kernel

end ModalLexer
