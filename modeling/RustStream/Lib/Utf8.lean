import Mathlib.Tactic

/-!
# Text as bytes

The UTF-8 form of a text as a list of bytes, and the check that reads a list of bytes as a text. Both
are those of the standard library, which has them on byte arrays.

## Main definitions

* `Utf8.encode`, `Utf8.decode`: the bytes of a text, and the text of bytes that are one.

## Main results

* `Utf8.decode_encode`: the bytes of a text read as that text.
* `Utf8.map_encode`: a map on bytes that only touches ASCII is a map on characters.
-/

namespace Utf8

open List

/-- The bytes of a text. -/
def encode (text : List Char) : List UInt8 :=
  text.flatMap String.utf8EncodeChar

/-- The text the bytes are the UTF-8 form of, if they are. -/
def decode (bytes : List UInt8) : Option (List Char) :=
  bytes.toByteArray.utf8Decode?.map Array.toList

@[simp] theorem encode_nil : encode [] = [] := rfl

theorem encode_cons (c : Char) (text : List Char) :
    encode (c :: text) = String.utf8EncodeChar c ++ encode text := rfl

@[simp] theorem decode_encode (text : List Char) : decode (encode text) = some text := by
  have hbytes : (encode text).toByteArray = text.utf8Encode := rfl
  rw [decode, hbytes, utf8Decode?_utf8Encode]
  rfl

/-- The bytes of a character are its code, or are all above ASCII. -/
theorem utf8EncodeChar_ascii_or (c : Char) :
    (c.val.toNat ≤ 127 ∧ String.utf8EncodeChar c = [UInt8.ofNat c.val.toNat]) ∨
      ∀ b ∈ String.utf8EncodeChar c, 128 ≤ b.toNat := by
  unfold String.utf8EncodeChar
  dsimp only
  by_cases h1 : c.val.toNat ≤ 127
  · rw [if_pos h1]
    exact .inl ⟨h1, rfl⟩
  · refine .inr ?_
    rw [if_neg h1]
    by_cases h2 : c.val.toNat ≤ 2047
    · rw [if_pos h2]
      simp only [mem_cons, not_mem_nil, or_false, forall_eq_or_imp, forall_eq,
        UInt8.toNat_ofNat']
      omega
    · rw [if_neg h2]
      by_cases h3 : c.val.toNat ≤ 65535
      · rw [if_pos h3]
        simp only [mem_cons, not_mem_nil, or_false, forall_eq_or_imp, forall_eq,
          UInt8.toNat_ofNat']
        omega
      · rw [if_neg h3]
        simp only [mem_cons, not_mem_nil, or_false, forall_eq_or_imp, forall_eq,
          UInt8.toNat_ofNat']
        omega

/-- **Maps on ASCII.** A map on bytes that keeps what is above ASCII, and agrees with a map on
characters below it, takes the bytes of a text to the bytes of a text. -/
theorem map_encode {f : UInt8 → UInt8} {g : Char → Char}
    (hhigh : ∀ b : UInt8, 128 ≤ b.toNat → f b = b) (hlow : ∀ c : Char, c.val.toNat ≤ 127 →
      String.utf8EncodeChar (g c) = [f (UInt8.ofNat c.val.toNat)])
    (hkeep : ∀ c : Char, 127 < c.val.toNat → g c = c) (text : List Char) :
    (encode text).map f = encode (text.map g) := by
  induction text with
  | nil => rfl
  | cons c text ih =>
    rw [encode_cons, map_append, ih, map_cons, encode_cons]
    congr 1
    rcases utf8EncodeChar_ascii_or c with ⟨hascii, hcode⟩ | habove
    · rw [hcode, hlow c hascii]
      rfl
    · have hwide : 127 < c.val.toNat := by
        by_contra hascii
        have hcode : String.utf8EncodeChar c = [UInt8.ofNat c.val.toNat] := by
          rw [String.utf8EncodeChar]
          exact if_pos (by omega)
        have := habove (UInt8.ofNat c.val.toNat) (by rw [hcode]; exact mem_singleton_self _)
        rw [UInt8.toNat_ofNat'] at this
        omega
      rw [hkeep c hwide]
      exact (map_congr_left fun b hb => hhigh b (habove b hb)).trans (map_id _)

end Utf8
