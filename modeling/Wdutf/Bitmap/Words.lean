import Mathlib.Data.List.Basic
import Mathlib.Data.Nat.Bitwise
import Mathlib.Tactic.Common
import Wdutf.Lib.Action
import Wdutf.Bitmap.Model

/-!
# Wdutf.Bitmap.Words — bits, words and index arithmetic

What the primitive steps of the bitmap routines do, in terms of natural
numbers: `RtlBitMap.bit b i` is bit `i` of the whole buffer, and the index
calculations of the source are the quotient and the remainder by 32. The
routines' proofs use these lemmas and do not unfold the 32-bit operations.
-/

namespace Wdutf.Bitmap

open Wdutf.Action

/-- Bit `k` of a word. -/
def wordBit (w : Ulong) (k : ℕ) : Bool := w.toNat.testBit k

/-- Word `i` of the buffer. -/
def RtlBitMap.word (b : RtlBitMap) (i : ℕ) : Ulong := b.buffer.getD i 0

/-- Bit `i` of the whole buffer, the padding of the last word included. -/
def RtlBitMap.bit (b : RtlBitMap) (i : ℕ) : Bool := wordBit (b.word (i / 32)) (i % 32)

theorem RtlBitMap.wordCount_le (b : RtlBitMap) : b.wordCount ≤ b.buffer.length := b.covers

/-! ## Bits of a word -/

theorem ulong_lt (w : Ulong) : w.toNat < 2 ^ 32 := w.toNat_lt

theorem toNat_bitMask (k : Ulong) : (bitMask k).toNat = 2 ^ (k.toNat % 32) := by
  have hlt : 2 ^ (k.toNat % 32) < 2 ^ 32 := Nat.pow_lt_pow_right (by omega) (by omega)
  rw [bitMask, UInt32.toNat_shiftLeft, UInt32.toNat_one, Nat.shiftLeft_eq, Nat.one_mul,
    Nat.mod_eq_of_lt hlt]

@[simp] theorem wordBit_zero (k : ℕ) : wordBit 0 k = false := by
  simp [wordBit]

theorem wordBit_allBitsSet {k : ℕ} (hk : k < 32) : wordBit allBitsSet k = true := by
  have h : allBitsSet.toNat = 2 ^ 32 - 1 := rfl
  rw [wordBit, h, Nat.testBit_two_pow_sub_one]
  simpa using hk

theorem wordBit_not (w : Ulong) {k : ℕ} (hk : k < 32) : wordBit (~~~w) k = !wordBit w k := by
  have hsub : (~~~w).toNat = 2 ^ 32 - (w.toNat + 1) := by
    rw [UInt32.toNat_not, UInt32.size]
    omega
  rw [wordBit, hsub, Nat.testBit_two_pow_sub_succ (ulong_lt w), wordBit]
  simp [hk]

/-- `w & (1 << k)` tests bit `k` modulo 32. -/
theorem and_bitMask_eq_zero (w k : Ulong) :
    (w &&& bitMask k = 0) ↔ wordBit w (k.toNat % 32) = false := by
  rw [← UInt32.toNat_inj, UInt32.toNat_and, toNat_bitMask, Nat.and_two_pow]
  cases h : wordBit w (k.toNat % 32) with
  | false =>
    rw [wordBit] at h
    simp [h]
  | true =>
    rw [wordBit] at h
    rw [h, Bool.toNat_true, Nat.one_mul, UInt32.toNat_zero]
    simp

theorem and_bitMask_beq_zero (w k : Ulong) :
    ((w &&& bitMask k) == 0) = !wordBit w (k.toNat % 32) := by
  have h := and_bitMask_eq_zero w k
  cases hbit : wordBit w (k.toNat % 32) with
  | false => simpa using h.2 hbit
  | true =>
    rw [hbit] at h
    simpa using h

theorem and_bitMask_bne_zero (w k : Ulong) :
    ((w &&& bitMask k) != 0) = wordBit w (k.toNat % 32) := by
  rw [bne, and_bitMask_beq_zero, Bool.not_not]

/-! ## Index arithmetic -/

@[simp] theorem toNat_calculateArrayIndexFromBitNum (i : Ulong) :
    (calculateArrayIndexFromBitNum i).toNat = i.toNat / 32 := by
  simp [calculateArrayIndexFromBitNum, bitsPerArray]

@[simp] theorem toNat_calculateLastBufferIndex (i : Ulong) :
    (calculateLastBufferIndex i).toNat = i.toNat / 32 := by
  simp [calculateLastBufferIndex, bitsPerArray]

theorem toNat_calculateBitPositionInArrayElement {i k : Ulong} (hk : k.toNat = i.toNat / 32) :
    (calculateBitPositionInArrayElement i k).toNat = i.toNat % 32 := by
  have hi := ulong_lt i
  simp only [calculateBitPositionInArrayElement, bitsPerArray, UInt32.toNat_sub, UInt32.toNat_mul,
    hk, UInt32.toNat_ofNat]
  omega

theorem toNat_calculateBitNumberInBitMap {k j : Ulong} (h : 32 * k.toNat + j.toNat < 2 ^ 32) :
    (calculateBitNumberInBitMap k j).toNat = 32 * k.toNat + j.toNat := by
  simp only [calculateBitNumberInBitMap, bitsPerArray, UInt32.toNat_add, UInt32.toNat_mul,
    UInt32.toNat_ofNat]
  omega

theorem toNat_sub_one {i : Ulong} (h : 1 ≤ i.toNat) : (i - 1).toNat = i.toNat - 1 := by
  have hi := ulong_lt i
  rw [UInt32.toNat_sub, UInt32.toNat_one]
  omega

theorem one_le_toNat {i : Ulong} (h : i ≠ 0) : 1 ≤ i.toNat := by
  rcases Nat.eq_zero_or_pos i.toNat with h0 | hpos
  · exact absurd (UInt32.toNat_inj.1 h0) h
  · exact hpos

theorem toNat_add_of_lt {i j : Ulong} (h : i.toNat + j.toNat < 2 ^ 32) :
    (i + j).toNat = i.toNat + j.toNat := by
  rw [UInt32.toNat_add, Nat.mod_eq_of_lt h]

theorem toNat_ofNat_lt {n : ℕ} (h : n < 2 ^ 32) : (UInt32.ofNat n).toNat = n := by
  rw [UInt32.toNat_ofNat', Nat.mod_eq_of_lt h]

/-- The test of a loop over bits that looks for clear ones. -/
theorem ofNat_bit_clear (w : Ulong) {s : ℕ} (hs : s < 32) :
    ((w &&& bitMask (UInt32.ofNat s)) == 0) = !wordBit w s := by
  rw [and_bitMask_beq_zero, toNat_ofNat_lt (by omega), Nat.mod_eq_of_lt hs]

/-! ## Running the primitive steps -/

theorem ddkAssert_true {c : Bool} (h : c = true) (b : RtlBitMap) : ddkAssert c b = .ok () b := by
  simp [ddkAssert, h]

theorem ddkAssert_false {c : Bool} (h : c = false) (b : RtlBitMap) :
    ddkAssert c b = .error .assertion b := by
  rw [ddkAssert, h]
  rfl

theorem getWord_ok {i : Ulong} {b : RtlBitMap} (h : i.toNat < b.wordCount) :
    getWord i b = .ok (b.word i.toNat) b := by
  rw [getWord, if_pos h, RtlBitMap.word]

theorem bit_lt_wordCount {b : RtlBitMap} {i : ℕ} (h : i < b.sizeOfBitMap.toNat) :
    i / 32 < b.wordCount := by
  rw [RtlBitMap.wordCount]
  omega

/-- `RtlTestBit` reads bit `i` of the buffer and changes nothing. -/
theorem rtlTestBit_ok {b : RtlBitMap} {i : Ulong} (h : i.toNat < b.sizeOfBitMap.toNat) :
    rtlTestBit i b = .ok (b.bit i.toNat) b := by
  have hassert : ddkAssert (decide (i < b.sizeOfBitMap)) b = .ok () b :=
    ddkAssert_true (by simpa [UInt32.lt_iff_toNat_lt] using h) b
  have hword : getWord (calculateArrayIndexFromBitNum i) b = .ok (b.word (i.toNat / 32)) b := by
    rw [getWord_ok (by simpa using bit_lt_wordCount h), toNat_calculateArrayIndexFromBitNum]
  rw [rtlTestBit, get_bind, bind_ok hassert, bind_ok hword, pure_run, and_bitMask_bne_zero,
    RtlBitMap.bit]

end Wdutf.Bitmap
