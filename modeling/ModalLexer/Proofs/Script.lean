import ModalLexer.Proofs.Lexer.Course
import ModalLexer.Script

/-!
# Moves of the scripted recognizer

Whatever a script has a rule do, its stream is only peeked at and consumed.
-/

namespace ModalLexer.ScriptRecognizer

variable {M : CharStream → CharStream → Prop}

theorem consumeMany_moves (hM : CharStream.Motion M) : ∀ {n : Nat} {r r' : ScriptRecognizer}
    {s s' : CharStream}, consumeMany n r s = .ok (r', s') → M s s'
  | 0, _, _, s, _, h => by
      obtain ⟨-, rfl⟩ := Prod.mk.inj (Except.ok.inj h)
      exact hM.refl s
  | n + 1, r, r', s, s', h => by
      have hpeek := hM.peek s
      unfold consumeMany at h
      split at h
      · rename_i hp
        obtain ⟨-, rfl⟩ := Prod.mk.inj (Except.ok.inj h)
        simpa [hp] using hpeek
      · rename_i c t hp
        rw [hp] at hpeek
        split at h
        · exact hM.trans hpeek (hM.trans (hM.consume t) (consumeMany_moves hM h))
        · cases h

theorem follow_moves (hM : CharStream.Motion M) {r : ScriptRecognizer} {s : CharStream}
    {mode : ModeId} {state : State} {caret : Caret} {start : Nat} {rule : ScriptRule}
    {found : Scan ScriptRecognizer}
    (h : r.follow s mode state caret start rule = .ok found) : M s found.stream := by
  obtain ⟨p, heat, hfound⟩ := Checked.bind_eq_ok.mp h
  have hmoves := consumeMany_moves hM heat
  simp only at hfound
  split at hfound
  · obtain rfl := Except.ok.inj hfound
    exact hmoves
  · obtain rfl := Except.ok.inj hfound
    exact hmoves
  · obtain rfl := Except.ok.inj hfound
    exact hM.trans hmoves (hM.peek _)

/-- The scripted recognizer moves its stream by peeking and consuming. -/
theorem movesBy (hM : CharStream.Motion M) : Recognizer.MovesBy ScriptRecognizer M where
  scan := by
    intro r s mode state events found h
    obtain ⟨h, -⟩ := Run.ofExcept_eq_ok.mp h
    unfold scan at h
    split at h
    · obtain rfl := Except.ok.inj h
      exact hM.refl s
    · simp only at h
      split at h
      · exact hM.trans (hM.peek s) (follow_moves hM h)
      · obtain rfl := Except.ok.inj h
        exact hM.peek s
      · obtain rfl := Except.ok.inj h
        exact hM.peek s
  consume := by
    intro r r' s s' h
    have hpeek := hM.peek s
    change consume r s = .ok (r', s') at h
    unfold consume at h
    split at h
    · rename_i hp
      obtain ⟨-, rfl⟩ := Prod.mk.inj (Except.ok.inj h)
      simpa [hp] using hpeek
    · rename_i c t hp
      rw [hp] at hpeek
      obtain ⟨p, -, heq⟩ := Checked.bind_eq_ok.mp h
      obtain ⟨-, rfl⟩ := Prod.mk.inj (Except.ok.inj heq)
      exact hM.trans hpeek (hM.consume t)

end ModalLexer.ScriptRecognizer
