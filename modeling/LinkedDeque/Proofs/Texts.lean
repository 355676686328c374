import LinkedDeque.ByteLen
import Mathlib.Algebra.Ring.Nat
import Mathlib.Data.List.Basic

/-!
# LinkedDeque.Proofs.Texts

The byte length that is recorded for a text:

* `ByteLen.Terminated` — how many bytes a text takes up with its terminator.
* `ByteLen.terminated_iff` — there is one such number for every sequence of bytes, and it is the length
  that is measured.
* `ByteLen.textLen_toUTF8` — of an encoded text, that is the width of the characters in front of the first
  zero one, and one more.

A length is recorded in 64 bits. A text of less than `2 ^ 63` bytes is far from filling them.
-/

namespace LinkedDeque.ByteLen

/-- With its terminator a text takes up so many bytes: none of those in front is zero, and the terminator
is a zero byte, or comes behind the last byte. -/
structure Terminated (bytes : ByteArray) (b : Nat) : Prop where
  pos : 1 ≤ b
  text : 0 ∉ bytes.data.toList.take (b - 1)
  terminator : b - 1 = bytes.size ∨ bytes.data.toList[b - 1]? = some 0

/-- The first zero of a list is the place in front of which there is none, and which is one or the end. -/
theorem eq_idxOf_zero_iff {bytes : List UInt8} {n : Nat} :
    n = bytes.idxOf 0 ↔ 0 ∉ bytes.take n ∧ (n = bytes.length ∨ bytes[n]? = some 0) := by
  induction bytes generalizing n with
  | nil => simp
  | cons x bytes ih =>
    by_cases hx : x = 0
    · rw [hx, List.idxOf_cons_self]
      cases n <;> simp
    · have hx' : (0 : UInt8) ≠ x := fun h => hx h.symm
      rw [List.idxOf_cons_ne _ hx]
      cases n with
      | zero => simp [hx]
      | succ n => simp [hx', ih]

theorem textLen_eq (bytes : ByteArray) : textLen bytes = bytes.data.toList.idxOf 0 + 1 := by
  rw [textLen, ← List.idxOf_toArray, Array.toArray_toList]

theorem terminated_iff {bytes : ByteArray} {b : Nat} : Terminated bytes b ↔ b = textLen bytes := by
  rw [textLen_eq]
  constructor
  · rintro ⟨hpos, htext, hterminator⟩
    have hfirst : b - 1 = bytes.data.toList.idxOf 0 := eq_idxOf_zero_iff.2 ⟨htext, hterminator⟩
    omega
  · intro hb
    have hfirst : b - 1 = bytes.data.toList.idxOf 0 := by rw [hb, Nat.add_sub_cancel]
    obtain ⟨htext, hterminator⟩ := eq_idxOf_zero_iff.1 hfirst
    exact ⟨by omega, htext, hterminator⟩

theorem toNat_resolveBytes_text {bytes : ByteArray} (hsize : bytes.size < 2 ^ 63) :
    (text.resolveBytes bytes).toNat = textLen bytes := by
  have hle : bytes.data.toList.idxOf 0 ≤ bytes.size := List.idxOf_le_length
  rw [resolveBytes, UInt64.toNat_ofNat', textLen_eq, Nat.mod_eq_of_lt (by omega)]

/-! ## Encoded texts -/

theorem zero_ne_ofNat {n : Nat} (hpos : 0 < n) (hlt : n < 256) : 0 ≠ UInt8.ofNat n := by
  intro h
  have h' := congrArg UInt8.toNat h
  rw [UInt8.toNat_ofNat', Nat.mod_eq_of_lt hlt] at h'
  exact Nat.ne_of_lt hpos h'

/-- Only the zero character is encoded with a zero byte: all bytes of a longer encoding are marked. -/
theorem zero_notMem_utf8EncodeChar {c : Char} (hc : c ≠ '\x00') : 0 ∉ String.utf8EncodeChar c := by
  have hpos : 0 < c.val.toNat := Nat.pos_of_ne_zero fun h => hc (Char.ext (UInt32.toNat_inj.1 h))
  fun_cases String.utf8EncodeChar c with
  | case1 v h =>
    rw [List.mem_singleton]
    exact zero_ne_ofNat hpos (Nat.lt_of_le_of_lt h (by decide))
  | case2 v =>
    simp only [List.mem_cons, List.not_mem_nil, or_false, not_or]
    refine ⟨?_, ?_⟩ <;> exact zero_ne_ofNat (by omega) (by omega)
  | case3 v =>
    simp only [List.mem_cons, List.not_mem_nil, or_false, not_or]
    refine ⟨?_, ?_, ?_⟩ <;> exact zero_ne_ofNat (by omega) (by omega)
  | case4 v =>
    simp only [List.mem_cons, List.not_mem_nil, or_false, not_or]
    refine ⟨?_, ?_, ?_, ?_⟩ <;> exact zero_ne_ofNat (by omega) (by omega)

theorem idxOf_zero_flatMap (cs : List Char) :
    (cs.flatMap String.utf8EncodeChar).idxOf 0 =
      ((cs.takeWhile (· ≠ '\x00')).map Char.utf8Size).sum := by
  induction cs with
  | nil => rfl
  | cons c cs ih =>
    rw [List.flatMap_cons, List.takeWhile_cons]
    by_cases hc : c = '\x00'
    · rw [hc]
      rfl
    · rw [List.idxOf_append_of_notMem (zero_notMem_utf8EncodeChar hc), ih, String.length_utf8EncodeChar]
      simp [hc]

theorem textLen_toUTF8 (s : String) :
    textLen s.toUTF8 = ((s.toList.takeWhile (· ≠ '\x00')).map Char.utf8Size).sum + 1 := by
  have hbytes : s.toUTF8.data.toList = s.toList.flatMap String.utf8EncodeChar := by
    rw [String.toUTF8_eq_toByteArray, ← String.utf8Encode_toList, List.utf8Encode, List.data_toByteArray]
  rw [textLen_eq, hbytes, idxOf_zero_flatMap]

/-- Widths in bytes count, and not characters. -/
example : textLen "né\x00e".toUTF8 = 4 := by rw [textLen_toUTF8]; decide

end LinkedDeque.ByteLen
