/-!
# UTF-8 sequences

The first byte of an encoded character tells how many bytes the encoding has.
The bytes that can begin none are the continuation bytes, the two that could
only begin an overlong form and those beyond the last code point.
-/

namespace ModalLexer.Utf8

/-- Number of bytes in the encoding that `b` begins, zero if it begins none. -/
def sequenceLength (b : UInt8) : Nat :=
  if b ≤ 0x7f then 1
  else if 0xc2 ≤ b ∧ b ≤ 0xdf then 2
  else if 0xe0 ≤ b ∧ b ≤ 0xef then 3
  else if 0xf0 ≤ b ∧ b ≤ 0xf4 then 4
  else 0

/-- The character that the bytes encode at their front. Overlong forms,
surrogates and numbers beyond the last code point encode none. -/
def decode? (bytes : List UInt8) : Option Char :=
  bytes.toByteArray.utf8DecodeChar? 0

theorem decode?_utf8EncodeChar (c : Char) : decode? (String.utf8EncodeChar c) = some c := by
  have h := ByteArray.utf8DecodeChar?_utf8EncodeChar_append (b := ByteArray.empty) (c := c)
  simpa [decode?] using h

example : decode? [0xe2, 0x82, 0xac] = some '€' := by decide +kernel
example : decode? [0xed, 0xa0, 0x80] = none := by decide +kernel

end ModalLexer.Utf8
