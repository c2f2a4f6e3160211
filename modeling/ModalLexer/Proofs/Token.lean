import ModalLexer.Proofs.Text.Escape
import ModalLexer.Token

/-!
# Printed tokens

The printed form of a token can be taken apart again, and in one way only. The
argument goes through it from left to right. Every field is followed by a
character that cannot be a part of it: a number ends at the first character
that is no digit (`digits_inj`), a text at the first quote that is not spelled
out (`Text.escapeList_quoted_inj`), and whether a channel is printed shows in
the first character behind the comma (`channelField_inj`). So two printed forms
that are equal have equal fields, one after the other.
-/

namespace ModalLexer

namespace Text

/-! ## Numbers and what follows them -/

/-- Two lists that begin alike, each with a run of one kind up to an element of
the other kind, have the same run. -/
theorem run_append_inj {α : Type} {p : α → Bool} {as bs xs ys : List α} {x y : α}
    (ha : ∀ a ∈ as, p a = true) (hb : ∀ b ∈ bs, p b = true) (hx : p x = false)
    (hy : p y = false) (h : as ++ x :: xs = bs ++ y :: ys) : as = bs ∧ x :: xs = y :: ys := by
  have hrun := congrArg (List.takeWhile p) h
  rw [List.takeWhile_append_of_pos ha, List.takeWhile_append_of_pos hb,
    List.takeWhile_cons_of_neg (by simp [hx]), List.takeWhile_cons_of_neg (by simp [hy]),
    List.append_nil, List.append_nil] at hrun
  subst hrun
  exact ⟨rfl, List.append_cancel_left h⟩

/-- Decimal digits of a number. -/
def digits (n : Nat) : List Char := (toString n).toList

theorem digits_eq (n : Nat) : digits n = Nat.toDigits 10 n := Nat.toList_repr

theorem isDigit_of_mem_digits {n : Nat} : ∀ c ∈ digits n, c.isDigit = true := by
  intro c hc
  rw [digits_eq] at hc
  exact Nat.isDigit_of_mem_toDigits (by decide) (by decide) hc

/-- A number begins with a digit. -/
theorem exists_digits_eq_cons (n : Nat) : ∃ c cs, digits n = c :: cs ∧ c.isDigit = true := by
  have hne : digits n ≠ [] := by
    rw [digits_eq]
    exact Nat.toDigits_ne_nil
  obtain ⟨c, cs, hcons⟩ := List.exists_cons_of_ne_nil hne
  exact ⟨c, cs, hcons, isDigit_of_mem_digits c (hcons ▸ List.mem_cons_self ..)⟩

theorem digits_inj {m n : Nat} {x y : Char} {xs ys : List Char} (hx : x.isDigit = false)
    (hy : y.isDigit = false) (h : digits m ++ x :: xs = digits n ++ y :: ys) :
    m = n ∧ x :: xs = y :: ys := by
  obtain ⟨hdigits, hrest⟩ := run_append_inj isDigit_of_mem_digits isDigit_of_mem_digits hx hy h
  rw [digits_eq, digits_eq] at hdigits
  have hvalue := congrArg (Nat.ofDigitChars 10 · 0) hdigits
  simp only [Nat.ofDigitChars_ten_toDigits] at hvalue
  exact ⟨hvalue, hrest⟩

/-- A number is told from what begins with another character than a digit. -/
theorem digits_append_ne {n : Nat} {x : Char} {xs ys : List Char} (hx : x.isDigit = false) :
    digits n ++ xs ≠ x :: ys := by
  intro h
  obtain ⟨c, cs, hcons, hc⟩ := exists_digits_eq_cons n
  rw [hcons] at h
  rw [(List.cons.inj h).1, hx] at hc
  cases hc

/-- Decimal digits of a number with its sign, if it is negative. -/
def signedDigits (n : Int) : List Char := (toString n).toList

theorem signedDigits_ofNat (n : Nat) : signedDigits (Int.ofNat n) = digits n := rfl

theorem signedDigits_negSucc (n : Nat) : signedDigits (Int.negSucc n) = '-' :: digits (n + 1) := by
  rw [signedDigits, show toString (Int.negSucc n) = "-" ++ toString (n + 1) from rfl,
    String.toList_append]
  rfl

theorem signedDigits_inj {m n : Int} {x y : Char} {xs ys : List Char} (hx : x.isDigit = false)
    (hy : y.isDigit = false) (h : signedDigits m ++ x :: xs = signedDigits n ++ y :: ys) :
    m = n ∧ x :: xs = y :: ys := by
  cases m with
  | ofNat m =>
      cases n with
      | ofNat n =>
          obtain ⟨rfl, hrest⟩ := digits_inj hx hy h
          exact ⟨rfl, hrest⟩
      | negSucc n =>
          rw [signedDigits_ofNat, signedDigits_negSucc] at h
          exact absurd h (digits_append_ne (by decide))
  | negSucc m =>
      cases n with
      | ofNat n =>
          rw [signedDigits_ofNat, signedDigits_negSucc] at h
          exact absurd h.symm (digits_append_ne (by decide))
      | negSucc n =>
          rw [signedDigits_negSucc, signedDigits_negSucc] at h
          obtain ⟨hsucc, hrest⟩ := digits_inj hx hy (List.cons.inj h).2
          obtain rfl := Nat.succ.inj hsucc
          exact ⟨rfl, hrest⟩

end Text

namespace Token

open Text (digits digits_inj digits_append_ne signedDigits signedDigits_inj)

/-! ## Fields -/

/-- The channel as it is printed, which the default one is not. -/
def channelField (channel : ChannelId) : List Char :=
  if channel = defaultChannel then [] else ",channel=".toList ++ digits channel

/-- Between the type and the line, the channel is told from its absence. -/
theorem channelField_inj {c d : ChannelId} {m n : Nat} {xs ys : List Char}
    (h : channelField c ++ ',' :: (digits m ++ xs) = channelField d ++ ',' :: (digits n ++ ys)) :
    c = d ∧ digits m ++ xs = digits n ++ ys := by
  unfold channelField at h
  by_cases hc : c = defaultChannel <;> by_cases hd : d = defaultChannel
  · rw [if_pos hc, if_pos hd] at h
    exact ⟨hc.trans hd.symm, (List.cons.inj h).2⟩
  · rw [if_pos hc, if_neg hd] at h
    exact absurd (List.cons.inj h).2 (digits_append_ne (by decide))
  · rw [if_neg hc, if_pos hd] at h
    exact absurd (List.cons.inj h).2.symm (digits_append_ne (by decide))
  · rw [if_neg hc, if_neg hd, List.append_assoc, List.append_assoc] at h
    obtain ⟨rfl, hrest⟩ := digits_inj (by decide) (by decide) (List.append_cancel_left h)
    exact ⟨rfl, (List.cons.inj hrest).2⟩

/-- The printed form of a token that is not the sentinel. -/
theorem toList_renderWith (classes : Text.EscapeClasses) {t : Token} (ht : t.isEof = false) :
    (t.renderWith classes).toList = '[' :: '@' :: (digits t.start ++ ':' ::
      (signedDigits t.stop ++ '=' :: '\x27' :: (Text.escapeList classes t.text.toList ++
        '\x27' :: ',' :: '<' :: (digits t.type ++ '>' :: (channelField t.channel ++
          ',' :: (digits t.line ++ ':' :: (digits t.column ++ [']']))))))) := by
  have htype : t.type ≠ eofType := by simpa [isEof] using ht
  have hchannel : (if t.channel = defaultChannel then ""
      else ",channel=" ++ toString t.channel).toList = channelField t.channel := by
    unfold channelField
    split
    · rfl
    · exact String.toList_append
  unfold renderWith renderText
  simp only [ht, Bool.false_eq_true, if_false, TokenType.render, htype, String.toList_append,
    hchannel, Text.escape, String.toList_ofList, String.reduceToList, List.append_assoc,
    List.cons_append, List.nil_append, digits, signedDigits]

/-- What is printed of a token other than the sentinel tells everything about
it but its source, whatever characters its text is made of and whichever of
them are spelled out by number. -/
theorem fields_eq_of_renderWith_eq (classes classes' : Text.EscapeClasses) (t u : Token)
    (ht : t.isEof = false) (hu : u.isEof = false)
    (h : t.renderWith classes = u.renderWith classes') :
    t.start = u.start ∧ t.stop = u.stop ∧ t.text = u.text ∧ t.type = u.type
      ∧ t.channel = u.channel ∧ t.line = u.line ∧ t.column = u.column := by
  have hchars := congrArg String.toList h
  rw [toList_renderWith classes ht, toList_renderWith classes' hu] at hchars
  obtain ⟨hstart, hchars⟩ :=
    digits_inj (by decide) (by decide) (List.cons.inj (List.cons.inj hchars).2).2
  obtain ⟨hstop, hchars⟩ :=
    signedDigits_inj (by decide) (by decide) (List.cons.inj hchars).2
  obtain ⟨htext, hchars⟩ :=
    Text.escapeList_quoted_inj (List.cons.inj (List.cons.inj hchars).2).2
  obtain ⟨htype, hchars⟩ :=
    digits_inj (by decide) (by decide) (List.cons.inj (List.cons.inj hchars).2).2
  obtain ⟨hchannel, hchars⟩ := channelField_inj (List.cons.inj hchars).2
  obtain ⟨hline, hchars⟩ := digits_inj (by decide) (by decide) hchars
  obtain ⟨hcolumn, -⟩ := digits_inj (by decide) (by decide) (List.cons.inj hchars).2
  exact ⟨hstart, hstop, String.toList_inj.mp htext, htype, hchannel, hline, hcolumn⟩

/-- Two tokens that differ in nothing but their source are printed alike, the
text being one that imitates the end of a printed token. -/
theorem fields_eq_of_renderWith_eq_imitation :
    let t : Token := {
      type := 3, channel := 1, text := "\\',<4>,channel=2,1:1]", start := 0, stop := -1, line := 2
      column := 7, source := {} }
    let u : Token := { t with source := { name := "other", attachment := 2 } }
    let plain : Text.EscapeClasses := { anywhere := fun _ => false, atStart := fun _ => false }
    t.isEof = false ∧ u.isEof = false ∧ t.renderWith .unicode = u.renderWith plain
      ∧ t.source ≠ u.source ∧ t.start = u.start ∧ t.stop = u.stop ∧ t.text = u.text
      ∧ t.type = u.type ∧ t.channel = u.channel ∧ t.line = u.line ∧ t.column = u.column := by
  intro t u plain
  have hprinted : t.renderWith .unicode = u.renderWith plain := by decide +kernel
  exact ⟨rfl, rfl, hprinted, by decide,
    fields_eq_of_renderWith_eq .unicode plain t u rfl rfl hprinted⟩

end Token

end ModalLexer
