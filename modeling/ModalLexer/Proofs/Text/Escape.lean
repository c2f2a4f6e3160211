import ModalLexer.Text.Escape

/-!
# Reading escaped text

`unescape` reads what `escape` has written, up to the quote that ends it, and
it does so without knowing which characters were spelled out by number. A
reader that is not told the classes gets the text back whatever they are
(`unescape_escapeList`), so an escaped text in quotes stands for one text only
and shows where it ends (`escapeList_quoted_inj`).

The one thing to be looked into is a single character (`unescapeChar_append`):
each way of writing it says by its first two characters which one it is, and a
number has its end marked.
-/

namespace ModalLexer.Text

/-! ## Numbers -/

/-- Value of a lower-case hexadecimal digit. -/
def hexValue (c : Char) : Nat := if c.isDigit then c.toNat - 48 else c.toNat - 87

/-- Number written in hexadecimal digits. -/
def readHex (digits : List Char) : Nat :=
  digits.foldl (fun n c => 16 * n + hexValue c) 0

theorem hexValue_digitChar : ∀ d < 16, hexValue d.digitChar = d := by decide

theorem readHex_concat (digits : List Char) (c : Char) :
    readHex (digits ++ [c]) = 16 * readHex digits + hexValue c := by
  rw [readHex, List.foldl_append]
  rfl

theorem readHex_toDigits (n : Nat) : readHex (Nat.toDigits 16 n) = n := by
  induction n using Nat.base_induction 16 (by decide) with
  | single d hd =>
      rw [Nat.toDigits_of_lt_base hd, ← List.nil_append [_], readHex_concat,
        hexValue_digitChar d hd]
      exact Nat.zero_add d
  | digit m d hd hm ih =>
      rw [← Nat.toDigits_append_toDigits (by decide) hm hd, Nat.toDigits_of_lt_base hd,
        readHex_concat, ih, hexValue_digitChar d hd]

theorem exists_digitChar_of_mem {c : Char} {n : Nat} (h : c ∈ Nat.toDigits 16 n) :
    ∃ d, c = Nat.digitChar d := by
  induction n using Nat.base_induction 16 (by decide) with
  | single d hd =>
      rw [Nat.toDigits_of_lt_base hd, List.mem_singleton] at h
      exact ⟨d, h⟩
  | digit m d hd hm ih =>
      rw [← Nat.toDigits_append_toDigits (by decide) hm hd, Nat.toDigits_of_lt_base hd,
        List.mem_append, List.mem_singleton] at h
      exact h.elim ih fun hc => ⟨d, hc⟩

/-- The brace that ends a number is none of its digits. -/
theorem ne_brace_of_mem_toDigits {c : Char} {n : Nat} (h : c ∈ Nat.toDigits 16 n) :
    c ≠ '\x7d' := by
  obtain ⟨d, rfl⟩ := exists_digitChar_of_mem h
  exact Nat.digitChar_ne _ (by decide)

/-! ## One character -/

/-- The character that a letter stands for behind a backslash. -/
def named : Char → Char
  | '0' => '\x00'
  | 't' => '\t'
  | 'r' => '\r'
  | 'n' => '\n'
  | c => c

/-- Reads one character, however it is written. A quote that stands by itself
ends the text. -/
def unescapeChar : List Char → Option (Char × List Char)
  | [] => none
  | '\x27' :: _ => none
  | '\\' :: 'u' :: '\x7b' :: cs =>
    let digits := cs.takeWhile (· ≠ '\x7d')
    some (Char.ofNat (readHex digits), cs.drop (digits.length + 1))
  | '\\' :: c :: cs => some (named c, cs)
  | c :: cs => some (c, cs)

theorem unescapeChar_of_plain {c : Char} (hquote : c ≠ '\x27') (hbackslash : c ≠ '\\')
    (cs : List Char) : unescapeChar (c :: cs) = some (c, cs) := by
  unfold unescapeChar
  split <;> simp_all

theorem unescapeChar_numericEscape (c : Char) (rest : List Char) :
    unescapeChar (numericEscape c.toNat ++ rest) = some (c, rest) := by
  have hdigits : (Nat.toDigits 16 c.toNat ++ '\x7d' :: rest).takeWhile (· ≠ '\x7d')
      = Nat.toDigits 16 c.toNat := by
    rw [List.takeWhile_append_of_pos fun d hd => decide_eq_true (ne_brace_of_mem_toDigits hd),
      List.takeWhile_cons_of_neg (by decide), List.append_nil]
  simp only [numericEscape, List.cons_append, List.append_assoc, List.nil_append, unescapeChar,
    hdigits, readHex_toDigits, Char.ofNat_toNat]
  rw [← List.drop_drop, List.drop_left]
  rfl

/-- A character is read as the one that was written, and no farther. -/
theorem unescapeChar_append (classes : EscapeClasses) (first : Bool) (c : Char)
    (rest : List Char) :
    unescapeChar (escapeChar classes first c ++ rest) = some (c, rest) := by
  unfold escapeChar
  split
  case h_8 _ _ _ _ _ hquote _ hbackslash =>
    split
    · exact unescapeChar_numericEscape c rest
    · exact unescapeChar_of_plain hquote hbackslash rest
  all_goals rfl

theorem length_lt_of_unescapeChar {cs rest : List Char} {c : Char}
    (h : unescapeChar cs = some (c, rest)) : rest.length < cs.length := by
  unfold unescapeChar at h
  split at h
  · cases h
  · cases h
  · obtain ⟨-, rfl⟩ := Prod.mk.inj (Option.some.inj h)
    simp only [List.length_drop, List.length_cons]
    omega
  · obtain ⟨-, rfl⟩ := Prod.mk.inj (Option.some.inj h)
    exact Nat.lt_add_of_pos_right (Nat.succ_pos 1)
  · obtain ⟨-, rfl⟩ := Prod.mk.inj (Option.some.inj h)
    exact Nat.lt_succ_self _

/-! ## A text -/

/-- Reads a text up to the quote that ends it, and tells what is left. -/
def unescape (cs : List Char) : List Char × List Char :=
  match _h : unescapeChar cs with
  | none => ([], cs)
  | some (c, rest) => (c :: (unescape rest).1, (unescape rest).2)
termination_by cs.length
decreasing_by all_goals exact length_lt_of_unescapeChar ‹_›

theorem unescape_of_none {cs : List Char} (h : unescapeChar cs = none) :
    unescape cs = ([], cs) := by
  rw [unescape]
  split <;> simp_all

theorem unescape_of_some {cs rest : List Char} {c : Char}
    (h : unescapeChar cs = some (c, rest)) :
    unescape cs = (c :: (unescape rest).1, (unescape rest).2) := by
  rw [unescape]
  split <;> simp_all

/-- All but the first character of a text. -/
theorem unescape_flatMap (classes : EscapeClasses) (cs rest : List Char) :
    unescape (cs.flatMap (escapeChar classes false) ++ '\x27' :: rest)
      = (cs, '\x27' :: rest) := by
  induction cs with
  | nil => exact unescape_of_none rfl
  | cons c cs ih =>
      rw [List.flatMap_cons, List.append_assoc,
        unescape_of_some (unescapeChar_append classes false c _), ih]

/-- An escaped text is read as the one that was written, and up to its end. -/
theorem unescape_escapeList (classes : EscapeClasses) (cs rest : List Char) :
    unescape (escapeList classes cs ++ '\x27' :: rest) = (cs, '\x27' :: rest) := by
  cases cs with
  | nil => exact unescape_of_none rfl
  | cons c cs =>
      rw [escapeList, List.append_assoc,
        unescape_of_some (unescapeChar_append classes true c _), unescape_flatMap]

/-- Texts that are written alike in quotes are the same, and so is what follows
them. -/
theorem escapeList_quoted_inj {classes classes' : EscapeClasses} {cs cs' rest rest' : List Char}
    (h : escapeList classes cs ++ '\x27' :: rest = escapeList classes' cs' ++ '\x27' :: rest') :
    cs = cs' ∧ rest = rest' := by
  have hread := congrArg unescape h
  rw [unescape_escapeList, unescape_escapeList] at hread
  obtain ⟨hcs, hrest⟩ := Prod.mk.inj hread
  exact ⟨hcs, (List.cons.inj hrest).2⟩

end ModalLexer.Text
