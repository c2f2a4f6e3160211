import ModalLexer.Utf8

/-!
# Well-formed byte sequences

A sequence of bytes is well-formed if it is the encoding of some characters,
one after the other. Encodings of characters are told apart at their front, so
there is one way to read a well-formed sequence, and `LongestPrefix` takes any
sequence apart into the longest front that can be read and what is left.

`sequenceLength` knows the length of an encoding from its first byte, and
`decode?` takes so many bytes for a character only if they are its encoding.
-/

namespace ModalLexer.Utf8

/-- The encoding of a text. -/
def encode (cs : List Char) : List UInt8 := cs.flatMap String.utf8EncodeChar

@[simp] theorem encode_nil : encode [] = [] := rfl

@[simp] theorem encode_cons (c : Char) (cs : List Char) :
    encode (c :: cs) = String.utf8EncodeChar c ++ encode cs := rfl

theorem encode_toList (text : String) : encode text.toList = text.toUTF8.data.toList := by
  have h : text.toList.utf8Encode = text.toUTF8 := String.utf8Encode_toList
  rw [← h]
  simp [encode, List.utf8Encode]

/-! ## The first byte -/

theorem sequenceLength_ofNat {n : Nat} (hn : n < 256) :
    sequenceLength (UInt8.ofNat n) =
      if n ≤ 0x7f then 1 else if 0xc2 ≤ n ∧ n ≤ 0xdf then 2
      else if 0xe0 ≤ n ∧ n ≤ 0xef then 3 else if 0xf0 ≤ n ∧ n ≤ 0xf4 then 4 else 0 := by
  simp [sequenceLength, UInt8.le_iff_toNat_le, Nat.mod_eq_of_lt hn]

/-- The first byte of an encoding tells how many follow. -/
theorem sequenceLength_head (c : Char) :
    ∃ b rest, String.utf8EncodeChar c = b :: rest ∧ sequenceLength b = rest.length + 1 := by
  have hmax : c.val.toNat < 0x110000 := by
    rcases c.valid with h | h
    · exact Nat.lt_trans h (by decide)
    · exact h.2
  unfold String.utf8EncodeChar
  simp only
  split
  · refine ⟨_, _, rfl, ?_⟩
    rw [sequenceLength_ofNat (by omega), if_pos (by omega)]
    rfl
  · split
    · refine ⟨_, _, rfl, ?_⟩
      rw [sequenceLength_ofNat (by omega), if_neg (by omega), if_pos (by omega)]
      rfl
    · split
      · refine ⟨_, _, rfl, ?_⟩
        rw [sequenceLength_ofNat (by omega), if_neg (by omega), if_neg (by omega),
          if_pos (by omega)]
        rfl
      · refine ⟨_, _, rfl, ?_⟩
        rw [sequenceLength_ofNat (by omega), if_neg (by omega), if_neg (by omega),
          if_neg (by omega), if_pos (by omega)]
        rfl

/-! ## Reading at the front -/

theorem decode?_utf8EncodeChar_append (c : Char) (bytes : List UInt8) :
    decode? (String.utf8EncodeChar c ++ bytes) = some c := by
  rw [decode?, List.toByteArray_append]
  exact ByteArray.utf8DecodeChar?_utf8EncodeChar_append

/-- Encodings are told apart at the front of what they begin. -/
theorem utf8EncodeChar_append_inj {c c' : Char} {bytes bytes' : List UInt8}
    (h : String.utf8EncodeChar c ++ bytes = String.utf8EncodeChar c' ++ bytes') :
    c = c' ∧ bytes = bytes' := by
  have hc := decode?_utf8EncodeChar_append c bytes
  rw [h, decode?_utf8EncodeChar_append] at hc
  obtain rfl := Option.some.inj hc
  exact ⟨rfl, List.append_cancel_left h⟩

/-- As many bytes as the first one asks for are taken for a character exactly
if they are its encoding. -/
theorem decode?_eq_some {b : UInt8} {rest : List UInt8} {c : Char}
    (hlength : sequenceLength b = rest.length + 1) :
    decode? (b :: rest) = some c ↔ b :: rest = String.utf8EncodeChar c := by
  constructor
  · intro h
    obtain ⟨tail, htail⟩ := ByteArray.exists_of_utf8DecodeChar?_eq_some h
    have hbytes : b :: rest = String.utf8EncodeChar c ++ tail.data.toList := by
      have := congrArg (fun a => a.data.toList) htail
      simpa using this
    obtain ⟨b', rest', hc, hlength'⟩ := sequenceLength_head c
    rw [hc, List.cons_append] at hbytes
    obtain ⟨rfl, hrest⟩ := List.cons.inj hbytes
    have hsame := congrArg List.length hrest
    rw [List.length_append] at hsame
    have hnil : tail.data.toList = [] := List.eq_nil_of_length_eq_zero (by omega)
    rw [hc, hrest, hnil, List.append_nil]
  · intro h
    rw [h, decode?_utf8EncodeChar]

/-! ## Longest prefixes -/

/-- The bytes begin with the encoding of the characters, go on with the rest,
and no longer front of them is the encoding of anything. -/
structure LongestPrefix (bytes : List UInt8) (cs : List Char) (rest : List UInt8) : Prop where
  split : bytes = encode cs ++ rest
  longest : ∀ cs' rest', bytes = encode cs' ++ rest' → (encode cs').length ≤ (encode cs).length

/-- No character can be read at the front of the bytes. -/
def Stuck (bytes : List UInt8) : Prop :=
  ∀ c tail, bytes ≠ String.utf8EncodeChar c ++ tail

theorem stuck_of_decode?_eq_none {bytes : List UInt8} (h : decode? bytes = none) :
    Stuck bytes := by
  rintro c tail rfl
  simp [decode?_utf8EncodeChar_append] at h

theorem stuck_nil : Stuck [] := fun _ _ h =>
  String.utf8EncodeChar_ne_nil (List.append_eq_nil_iff.mp h.symm).1

/-- Two ways to read the same bytes agree as far as both of them go. -/
theorem prefix_of_encode_append : ∀ {cs cs' : List Char} {rest rest' : List UInt8},
    Stuck rest → encode cs ++ rest = encode cs' ++ rest' →
      ∃ more, cs = cs' ++ more ∧ rest' = encode more ++ rest
  | cs, [], rest, rest', _, h => ⟨cs, rfl, h.symm⟩
  | [], c :: cs', rest, rest', hstuck, h => by
      rw [encode_nil, List.nil_append, encode_cons, List.append_assoc] at h
      exact absurd h (hstuck _ _)
  | c :: cs, c' :: cs', rest, rest', hstuck, h => by
      rw [encode_cons, encode_cons, List.append_assoc, List.append_assoc] at h
      obtain ⟨rfl, htail⟩ := utf8EncodeChar_append_inj h
      obtain ⟨more, rfl, hmore⟩ := prefix_of_encode_append hstuck htail
      exact ⟨more, rfl, hmore⟩

theorem LongestPrefix.of_stuck (cs : List Char) {rest : List UInt8} (hstuck : Stuck rest) :
    LongestPrefix (encode cs ++ rest) cs rest where
  split := rfl
  longest cs' rest' h := by
    obtain ⟨more, rfl, -⟩ := prefix_of_encode_append hstuck h
    simp [encode]

theorem LongestPrefix.stuck {bytes : List UInt8} {cs : List Char} {rest : List UInt8}
    (h : LongestPrefix bytes cs rest) : Stuck rest := by
  rintro c tail rfl
  have hle := h.longest (cs ++ [c]) tail (by rw [h.split]; simp [encode])
  have hpos := c.utf8Size_pos
  simp [encode, String.length_utf8EncodeChar] at hle
  omega

/-- There is one longest prefix. -/
theorem LongestPrefix.unique {bytes : List UInt8} {cs cs' : List Char} {rest rest' : List UInt8}
    (h : LongestPrefix bytes cs rest) (h' : LongestPrefix bytes cs' rest') :
    cs' = cs ∧ rest' = rest := by
  obtain ⟨more, rfl, hrest⟩ := prefix_of_encode_append h.stuck (h.split.symm.trans h'.split)
  cases more with
  | nil => simpa using hrest
  | cons c more =>
      rw [encode_cons, List.append_assoc] at hrest
      exact absurd hrest (h'.stuck _ _)

end ModalLexer.Utf8
