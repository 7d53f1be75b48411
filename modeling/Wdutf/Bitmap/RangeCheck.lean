import Mathlib.Data.List.Basic
import Mathlib.Tactic.Common
import Wdutf.Bitmap.Words

/-!
# Wdutf.Bitmap.RangeCheck — the range checks of the range operations

`RtlSetBits`, `RtlClearBits`, `RtlAreBitsSet` and `RtlAreBitsClear` compare
`StartingIndex + count` with the size of the bitmap. The sum is taken in 32
bits, so a range whose true end lies at `2 ^ 32` or behind can pass.

* `FailsOnly P size m` — on a bitmap of this size `m` keeps the size, and
  fails, if at all, with a fault in `P`;
* `failsOnly_writeBits`, `failsOnly_areBits` — behind the check, the only
  possible fault is an access out of bounds, and a true range excludes it;
* `rangeChecked_iff` — the checks are exact except for the wrapped sums that
  land inside the bitmap.
-/

namespace Wdutf.Bitmap

open Wdutf.Action

variable {α β : Type} {P : Fault → Prop} {size : Ulong}

/-- On bitmaps of the given size, `m` keeps the size and fails only with a
fault in `P`. -/
def FailsOnly (P : Fault → Prop) (size : Ulong) (m : BitMapM α) : Prop :=
  ∀ b, b.sizeOfBitMap = size →
    match m b with
    | .ok _ b' => b'.sizeOfBitMap = size
    | .error e _ => P e

namespace FailsOnly

protected theorem pure (a : α) : FailsOnly P size (pure a : BitMapM α) := fun _ hb => hb

protected theorem bind {m : BitMapM α} {k : α → BitMapM β} (hm : FailsOnly P size m)
    (hk : ∀ a, FailsOnly P size (k a)) : FailsOnly P size (m >>= k) := by
  intro b hb
  have hmb := hm b hb
  cases hrun : m b with
  | ok a b' =>
    rw [hrun] at hmb
    rw [bind_ok hrun]
    exact hk a b' hmb
  | error e b' =>
    rw [hrun] at hmb
    rw [bind_error hrun]
    exact hmb

protected theorem ite {p : Prop} [Decidable p] {m n : BitMapM α} (hm : p → FailsOnly P size m)
    (hn : ¬ p → FailsOnly P size n) : FailsOnly P size (if p then m else n) := by
  split
  · exact hm ‹_›
  · exact hn ‹_›

/-- A word inside the bitmap can be read; outside, the fault is in `P`. -/
theorem getWord {i : Ulong} (h : ¬ P .outOfBounds → i.toNat < (size.toNat + 31) / 32) :
    FailsOnly P size (getWord i) := by
  intro b hb
  subst hb
  unfold Bitmap.getWord
  by_cases hi : i.toNat < b.wordCount
  · rw [if_pos hi]
  · rw [if_neg hi]
    by_contra hP
    exact hi (h hP)

theorem modifyWord {i : Ulong} (f : Ulong → Ulong)
    (h : ¬ P .outOfBounds → i.toNat < (size.toNat + 31) / 32) :
    FailsOnly P size (modifyWord i f) := by
  intro b hb
  subst hb
  unfold Bitmap.modifyWord
  by_cases hi : i.toNat < b.wordCount
  · rw [if_pos hi]
  · rw [if_neg hi]
    by_contra hP
    exact hi (h hP)

theorem forM {xs : List α} {body : α → BitMapM PUnit} (h : ∀ x ∈ xs, FailsOnly P size (body x)) :
    FailsOnly P size (xs.forM body) := by
  induction xs with
  | nil => exact FailsOnly.pure _
  | cons x xs ih =>
    refine FailsOnly.bind (h x (by simp)) fun _ => ih fun y hy => h y ?_
    exact List.mem_cons_of_mem x hy

end FailsOnly

/-! ## The loops -/

theorem mem_ulongsTo {first last i : Ulong} (h : i ∈ ulongsTo first last) :
    first.toNat ≤ i.toNat ∧ i.toNat ≤ last.toNat := by
  have hlast := ulong_lt last
  simp only [ulongsTo, List.mem_map, List.mem_range'_1] at h
  rcases h with ⟨n, hn, rfl⟩
  rw [toNat_ofNat_lt (by omega)]
  omega

theorem mem_ulongsBelow {first bound i : Ulong} (h : i ∈ ulongsBelow first bound) :
    i.toNat < bound.toNat := by
  have hbound := ulong_lt bound
  simp only [ulongsBelow, List.mem_map, List.mem_range'_1] at h
  rcases h with ⟨n, hn, rfl⟩
  rw [toNat_ofNat_lt (by omega)]
  omega

theorem failsOnly_fillArrayElements {first last : Ulong} (value : Ulong)
    (h : ¬ P .outOfBounds → last.toNat < (size.toNat + 31) / 32) :
    FailsOnly P size (fillArrayElements value first last) := by
  refine FailsOnly.forM fun i hi => FailsOnly.modifyWord _ fun hP => ?_
  have hlast := (mem_ulongsTo hi).2
  have := h hP
  omega

theorem failsOnly_checkElementBits {bufferIndex : Ulong}
    (h : ¬ P .outOfBounds → bufferIndex.toNat < (size.toNat + 31) / 32)
    (mismatch : Ulong → Bool) (stop : Bool) (length : Ulong) (bitNums : List Ulong)
    (bitsChecked : Ulong) :
    FailsOnly P size (checkElementBits mismatch stop length bufferIndex bitNums bitsChecked) := by
  induction bitNums generalizing bitsChecked with
  | nil => exact FailsOnly.pure _
  | cons k ks ih =>
    unfold checkElementBits
    refine FailsOnly.ite (fun _ => ?_) (fun _ => ?_)
    · refine FailsOnly.bind (FailsOnly.getWord h) fun w => ?_
      exact FailsOnly.ite (fun _ => FailsOnly.pure _) (fun _ => ih _)
    · exact FailsOnly.ite (fun _ => FailsOnly.pure _) (fun _ => ih _)

theorem failsOnly_checkElements {bufferNums : List Ulong}
    (h : ¬ P .outOfBounds → ∀ i ∈ bufferNums, i.toNat < (size.toNat + 31) / 32)
    (element length bitsChecked : Ulong) :
    FailsOnly P size (checkElements element length bufferNums bitsChecked) := by
  induction bufferNums generalizing bitsChecked with
  | nil => exact FailsOnly.pure _
  | cons i is ih =>
    have his : ¬ P .outOfBounds → ∀ j ∈ is, j.toNat < (size.toNat + 31) / 32 :=
      fun hP j hj => h hP j (List.mem_cons_of_mem i hj)
    unfold checkElements
    refine FailsOnly.ite (fun _ => ?_) (fun _ => FailsOnly.pure _)
    refine FailsOnly.bind (FailsOnly.getWord fun hP => h hP i (by simp)) fun w => ?_
    exact FailsOnly.ite (fun _ => FailsOnly.pure _) (fun _ => ih his _)

/-! ## Behind the check -/

/-- The words of a true range lie inside the bitmap, in order. -/
theorem range_words {s c : Ulong} (hc : c ≠ 0) (h : s.toNat + c.toNat ≤ size.toNat) :
    (calculateArrayIndexFromBitNum s).toNat ≤ (calculateLastBufferIndex (s + c - 1)).toNat ∧
    (calculateLastBufferIndex (s + c - 1)).toNat < (size.toNat + 31) / 32 := by
  have hsize := ulong_lt size
  have hc' := one_le_toNat hc
  have hsum : (s + c).toNat = s.toNat + c.toNat := toNat_add_of_lt (by omega)
  rw [toNat_calculateArrayIndexFromBitNum, toNat_calculateLastBufferIndex,
    toNat_sub_one (by omega), hsum]
  omega

/-- A routine of the write family, once its assertion has passed. -/
theorem failsOnly_writeBits {s c : Ulong} (hcheck : s + c ≤ size)
    (h : ¬ P .outOfBounds → s.toNat + c.toNat ≤ size.toNat) (value : Ulong)
    (bits : Ulong → Ulong → Ulong → Ulong) :
    FailsOnly P size (writeBits (fillArrayElements value) bits s c) := by
  intro b hb
  have hassert : ddkAssert (decide (s + c ≤ b.sizeOfBitMap)) b = .ok () b :=
    ddkAssert_true (by simpa [hb] using hcheck) b
  rw [writeBits, get_bind, bind_ok hassert]
  refine FailsOnly.ite (fun hc => ?_) (fun _ => FailsOnly.pure ()) b hb
  have hwords := fun hP => range_words hc (h hP)
  refine FailsOnly.ite (fun _ => ?_) (fun hne => ?_)
  · exact FailsOnly.modifyWord _ fun hP => (hwords hP).2
  · refine FailsOnly.bind (FailsOnly.modifyWord _ fun hP => ?_) fun _ => ?_
    · exact lt_of_le_of_lt (hwords hP).1 (hwords hP).2
    refine FailsOnly.bind (failsOnly_fillArrayElements _ fun hP => ?_) fun _ => ?_
    · -- the last word comes after the start word, so it is not word 0
      rcases hwords hP with ⟨hle, hlast⟩
      have hne' : (calculateArrayIndexFromBitNum s).toNat ≠
          (calculateLastBufferIndex (s + c - 1)).toNat := fun heq => hne (UInt32.toNat_inj.1 heq)
      rw [toNat_sub_one (by omega)]
      omega
    · exact FailsOnly.modifyWord _ fun hP => (hwords hP).2

/-- The code after a loop either returns or goes on. -/
theorem failsOnly_flow {m : BitMapM Flow} {k : Ulong → BitMapM Bool} (hm : FailsOnly P size m)
    (hk : ∀ n, FailsOnly P size (k n)) :
    FailsOnly P size
      (m >>= fun | .ret value => pure value | .next bitsChecked => k bitsChecked) := by
  refine FailsOnly.bind hm fun flow => ?_
  cases flow with
  | ret value => exact FailsOnly.pure value
  | next bitsChecked => exact hk bitsChecked

/-- A routine of the read family. -/
theorem failsOnly_areBits {s c : Ulong} (h : ¬ P .outOfBounds → s.toNat + c.toNat ≤ size.toNat)
    (mismatch : Ulong → Bool) (element : Ulong) :
    FailsOnly P size (areBits mismatch element s c) := by
  intro b hb
  rw [areBits, get_bind]
  refine FailsOnly.ite (fun _ => FailsOnly.pure false) (fun hcheck => ?_) b hb
  have hwords := fun hP => range_words (fun hc => hcheck (Or.inl hc)) (h hP)
  have hlast : ¬ P .outOfBounds →
      (calculateArrayIndexFromBitNum (s + c - 1)).toNat < (size.toNat + 31) / 32 :=
    fun hP => (hwords hP).2
  refine FailsOnly.ite (fun _ => ?_) (fun _ => ?_)
  · exact failsOnly_flow (failsOnly_checkElementBits hlast _ _ _ _ _) fun _ => FailsOnly.pure true
  · refine failsOnly_flow (failsOnly_checkElementBits (fun hP => ?_) _ _ _ _ _) fun _ => ?_
    · exact lt_of_le_of_lt (hwords hP).1 (hwords hP).2
    refine failsOnly_flow (failsOnly_checkElements (fun hP i hi => ?_) _ _ _) fun _ => ?_
    · exact (mem_ulongsBelow hi).trans (hlast hP)
    exact failsOnly_flow (failsOnly_checkElementBits hlast _ _ _ _ _) fun _ => FailsOnly.pure true

/-! ## Exactness -/

/-- The claims of the range checks at one pair of arguments: a range that ends
behind the bitmap is turned down with the buffer untouched, and no range leads
to an access past the last word. -/
structure RangeChecked (b : RtlBitMap) (s c : Ulong) : Prop where
  setBits : b.sizeOfBitMap.toNat < s.toNat + c.toNat → rtlSetBits s c b = .error .assertion b
  clearBits : b.sizeOfBitMap.toNat < s.toNat + c.toNat → rtlClearBits s c b = .error .assertion b
  areBitsClear : b.sizeOfBitMap.toNat < s.toNat + c.toNat → rtlAreBitsClear s c b = .ok false b
  areBitsSet : b.sizeOfBitMap.toNat < s.toNat + c.toNat → rtlAreBitsSet s c b = .ok false b
  setBits_inside : ∀ b', rtlSetBits s c b ≠ .error .outOfBounds b'
  clearBits_inside : ∀ b', rtlClearBits s c b ≠ .error .outOfBounds b'
  areBitsClear_inside : ∀ b', rtlAreBitsClear s c b ≠ .error .outOfBounds b'
  areBitsSet_inside : ∀ b', rtlAreBitsSet s c b ≠ .error .outOfBounds b'

/-- The true end of the range lies at `2 ^ 32` or behind, and its 32-bit value
lies inside the bitmap. -/
def SumWraps (b : RtlBitMap) (s c : Ulong) : Prop :=
  2 ^ 32 ≤ s.toNat + c.toNat ∧ s.toNat + c.toNat - 2 ^ 32 ≤ b.sizeOfBitMap.toNat

theorem FailsOnly.not_error {m : BitMapM α} {b b' : RtlBitMap} {e : Fault}
    (h : FailsOnly P b.sizeOfBitMap m) (he : ¬ P e) : m b ≠ .error e b' := by
  intro hrun
  have hm := h b rfl
  rw [hrun] at hm
  exact he hm

/-- The check passes exactly for the true ranges and the wrapped sums. -/
theorem add_le_size_iff {b : RtlBitMap} {s c : Ulong} :
    s + c ≤ b.sizeOfBitMap ↔ s.toNat + c.toNat ≤ b.sizeOfBitMap.toNat ∨ SumWraps b s c := by
  have hs := ulong_lt s
  have hc := ulong_lt c
  have hsize := ulong_lt b.sizeOfBitMap
  rw [UInt32.le_iff_toNat_le, UInt32.toNat_add, SumWraps]
  omega

theorem writeBits_rejects {b : RtlBitMap} {s c : Ulong} (h : ¬ s + c ≤ b.sizeOfBitMap)
    (elements : Ulong → Ulong → BitMapM Unit) (bits : Ulong → Ulong → Ulong → Ulong) :
    writeBits elements bits s c b = .error .assertion b := by
  rw [writeBits, get_bind]
  exact bind_error (ddkAssert_false (by simpa using h) b)

theorem areBits_rejects {b : RtlBitMap} {s c : Ulong} (h : ¬ s + c ≤ b.sizeOfBitMap)
    (mismatch : Ulong → Bool) (element : Ulong) : areBits mismatch element s c b = .ok false b := by
  rw [areBits, get_bind, if_pos (Or.inr (by simpa using h)), pure_run]

/-- **Range checks.** They are exact unless the 32-bit sum of the arguments
wraps to a value inside the bitmap. -/
theorem rangeChecked_iff (b : RtlBitMap) (s c : Ulong) :
    RangeChecked b s c ↔ ¬ SumWraps b s c := by
  constructor
  · -- the assertion passes on a wrapped sum, and nothing behind it asserts
    intro hchecked hwraps
    have hsize := ulong_lt b.sizeOfBitMap
    have hfails : FailsOnly (· = .outOfBounds) b.sizeOfBitMap (rtlSetBits s c) :=
      failsOnly_writeBits (P := (· = .outOfBounds)) (add_le_size_iff.2 (Or.inr hwraps))
        (fun hP => absurd rfl hP) _ _
    have hlt : b.sizeOfBitMap.toNat < s.toNat + c.toNat := by
      unfold SumWraps at hwraps
      omega
    exact hfails.not_error (by decide) (hchecked.setBits hlt)
  · intro hok
    by_cases hrange : s.toNat + c.toNat ≤ b.sizeOfBitMap.toNat
    · -- a true range: the body runs without any fault
      have hwrite := fun value bits => failsOnly_writeBits (P := fun _ => False)
        (add_le_size_iff.2 (Or.inl hrange)) (fun _ => hrange) value bits
      have hread := fun mismatch element => failsOnly_areBits (P := fun _ => False)
        (fun _ => hrange) mismatch element
      constructor
      case setBits | clearBits | areBitsClear | areBitsSet => intro hlt; omega
      case setBits_inside => exact fun b' => (hwrite _ _).not_error id
      case clearBits_inside => exact fun b' => (hwrite _ _).not_error id
      case areBitsClear_inside => exact fun b' => (hread _ _).not_error id
      case areBitsSet_inside => exact fun b' => (hread _ _).not_error id
    · -- the 32-bit sum is too large as well: every routine stops at its check
      have hreject : ¬ s + c ≤ b.sizeOfBitMap := by
        rw [add_le_size_iff]
        rintro (hle | hwraps)
        · exact hrange hle
        · exact hok hwraps
      have hset : rtlSetBits s c b = .error .assertion b := writeBits_rejects hreject _ _
      have hclear : rtlClearBits s c b = .error .assertion b := writeBits_rejects hreject _ _
      have hareClear : rtlAreBitsClear s c b = .ok false b := areBits_rejects hreject _ _
      have hareSet : rtlAreBitsSet s c b = .ok false b := areBits_rejects hreject _ _
      exact ⟨fun _ => hset, fun _ => hclear, fun _ => hareClear, fun _ => hareSet,
        by simp [hset], by simp [hclear], by simp [hareClear], by simp [hareSet]⟩

/-- Two bits from `0xFFFFFFFF` on pass the check of an eight bit bitmap, and
`RtlSetBits` goes for word `2 ^ 27 - 1` of its one word. -/
theorem rangeCheck_wraps : ¬ ∀ (b : RtlBitMap) (s c : Ulong), RangeChecked b s c := by
  intro hall
  have hchecked := hall ⟨8, [0], by decide⟩ 0xFFFFFFFF 2
  exact hchecked.setBits_inside _ rfl

end Wdutf.Bitmap
