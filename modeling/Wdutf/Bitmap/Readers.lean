import Mathlib.Data.List.Basic
import Mathlib.Data.Set.Card
import Mathlib.Tactic.Common
import Wdutf.Bitmap.ClearRuns
import Wdutf.Bitmap.RangeCheck

/-!
# Wdutf.Bitmap.Readers — the readers against `RtlTestBit`

`RtlAreBitsClear` and `RtlAreBitsSet` go through the range in three loops: the bits
of the start element, the elements in between as a whole, the bits of the last
element. `bits_checked` follows the loops and never reaches `Length` before the
last bit, so that none of the early exits is taken.

* `Checked` — what a loop leaves behind: a mismatch in its part of the range, or none
  and the counter moved on by the length of that part;
* `areBits_reads` — the three loops decide the whole range;
* `readers_agree` — the readers and `RtlNumberOfSetBits` bit by bit.
-/

namespace Wdutf.Bitmap

open Wdutf.Runs Wdutf.Action

/-! ## The loops -/

/-- A loop over the `k` bits from `p` on, entered with `bits_checked = c`, returns
`FALSE` at a mismatch and otherwise counts its bits. -/
inductive Checked (f : ℕ → Bool) (p k : ℕ) (c : Ulong) : Flow → Prop
  | mismatch : ¬ RunAt f p k → Checked f p k c (.ret false)
  | passed (c' : Ulong) : RunAt f p k → c'.toNat = c.toNat + k → Checked f p k c (.next c')

/-- The first part of a loop has passed: the rest decides. -/
theorem Checked.after {f : ℕ → Bool} {p k k' : ℕ} {c c' : Ulong} {flow : Flow}
    (hrun : RunAt f p k) (hc : c'.toNat = c.toNat + k) (h : Checked f (p + k) k' c' flow) :
    Checked f p (k + k') c flow := by
  cases h with
  | mismatch hmiss =>
    refine Checked.mismatch fun hall => hmiss fun j hj hj' => ?_
    exact hall j (by omega) (by omega)
  | passed c'' hrun' hc' => exact Checked.passed c'' (hrun.append hrun') (by omega)

/-- A part of the range has a mismatch. -/
theorem not_runAt_of_miss {f : ℕ → Bool} {p k j : ℕ} (hj : p ≤ j) (hj' : j < p + k)
    (hmiss : f j = false) : ¬ RunAt f p k := by
  intro hrun
  simp [hrun j hj hj'] at hmiss

/-- The test of the bit loops, as a test for value `v`. -/
def MismatchFor (v : Bool) (mismatch : Ulong → Bool) : Prop :=
  ∀ w k : Ulong, k.toNat < 32 → mismatch (w &&& bitMask k) = !(wordBit w k.toNat == v)

theorem mismatchFor_clear : MismatchFor false (fun bitSet => bitSet != 0) := by
  intro w k hk
  show ((w &&& bitMask k) != 0) = _
  rw [and_bitMask_bne_zero, Nat.mod_eq_of_lt hk]
  cases wordBit w k.toNat <;> rfl

theorem mismatchFor_set : MismatchFor true (fun bitSet => bitSet == 0) := by
  intro w k hk
  show ((w &&& bitMask k) == 0) = _
  rw [and_bitMask_beq_zero, Nat.mod_eq_of_lt hk]
  cases wordBit w k.toNat <;> rfl

variable {b : RtlBitMap} {v : Bool} {mismatch : Ulong → Bool} {l : Ulong}

/-- A loop over bits of one element. The counter stays below `Length` up to the last
turn, so that `stopAtLength` does not matter. -/
theorem checkElementBits_checked (hm : MismatchFor v mismatch) (stop : Bool) {i : Ulong}
    (hi : i.toNat < b.wordCount) (s k : ℕ) (hk : s + k ≤ 32) (c : Ulong)
    (hc : c.toNat + k ≤ l.toNat) :
    ∃ flow, checkElementBits mismatch stop l i ((List.range' s k).map UInt32.ofNat) c b =
        .ok flow b ∧ Checked (b.hits v) (32 * i.toNat + s) k c flow := by
  induction k generalizing s c with
  | zero =>
    refine ⟨.next c, rfl, Checked.passed c ?_ rfl⟩
    intro j hj hj'
    omega
  | succ k ih =>
    have hlength := ulong_lt l
    have hs : (UInt32.ofNat s).toNat = s := toNat_ofNat_lt (by omega)
    have hmore : l > c := UInt32.lt_iff_toNat_lt.2 (by omega)
    have hbit : b.hits v (32 * i.toNat + s) = (wordBit (b.word i.toNat) s == v) :=
      hits_word hi (by omega)
    have htest : mismatch (b.word i.toNat &&& bitMask (UInt32.ofNat s)) =
        !b.hits v (32 * i.toNat + s) := by
      rw [hm _ _ (by omega), hs, hbit]
    rw [List.range'_succ, List.map_cons, checkElementBits, if_pos hmore,
      bind_ok (getWord_ok hi), htest]
    cases hit : b.hits v (32 * i.toNat + s) with
    | false => exact ⟨_, rfl, Checked.mismatch (not_runAt_of_miss (le_refl _) (by omega) hit)⟩
    | true =>
      have hone : (c + 1).toNat = c.toNat + 1 := by
        rw [toNat_add_of_lt (by rw [UInt32.toNat_one]; omega), UInt32.toNat_one]
      rcases ih (s + 1) (by omega) (c + 1) (by omega) with ⟨flow, hrun, hflow⟩
      refine ⟨flow, hrun, ?_⟩
      rw [Nat.add_comm k 1]
      exact Checked.after (runAt_one hit) hone hflow

/-- The loop over the elements in between compares whole words. -/
theorem checkElements_checked (i k : ℕ) (hk : i + k ≤ b.wordCount) (hpow : i + k < 2 ^ 32)
    (c : Ulong) (hc : c.toNat + 32 * k ≤ l.toNat) :
    ∃ flow, checkElements (if v then allBitsSet else 0) l
        ((List.range' i k).map UInt32.ofNat) c b = .ok flow b ∧
      Checked (b.hits v) (32 * i) (32 * k) c flow := by
  induction k generalizing i c with
  | zero =>
    refine ⟨.next c, rfl, Checked.passed c ?_ rfl⟩
    intro j hj hj'
    omega
  | succ k ih =>
    have hlength := ulong_lt l
    have hi : (UInt32.ofNat i).toNat = i := toNat_ofNat_lt (by omega)
    have hword : getWord (UInt32.ofNat i) b = .ok (b.word i) b := by
      rw [getWord_ok (by omega), hi]
    have hmore : l > c := UInt32.lt_iff_toNat_lt.2 (by omega)
    rw [List.range'_succ, List.map_cons, checkElements, if_pos hmore, bind_ok hword]
    by_cases hw : (if v then allBitsSet else 0) = b.word i
    · rw [if_neg (by simpa using hw)]
      have hall : RunAt (b.hits v) (32 * i) 32 := runAt_of_word (by omega) hw.symm
      have h32 : bitsPerArray.toNat = 32 := rfl
      have hcount : (c + bitsPerArray).toNat = c.toNat + 32 := by
        rw [toNat_add_of_lt (by omega), h32]
      rcases ih (i + 1) (by omega) (by omega) (c + bitsPerArray) (by omega)
        with ⟨flow, hrun, hflow⟩
      refine ⟨flow, hrun, ?_⟩
      rw [show 32 * (k + 1) = 32 + 32 * k by omega]
      exact Checked.after hall hcount hflow
    · -- a word that differs has a bit that differs
      rw [if_pos (by simpa using hw)]
      refine ⟨_, rfl, Checked.mismatch fun hall => hw ?_⟩
      exact (word_of_runAt (hall.mono (by omega))).symm

/-! ## The whole range -/

/-- The code behind a loop decides the rest of the range. -/
theorem Checked.decides {m : BitMapM Flow} {rest : Ulong → BitMapM Bool} {f : ℕ → Bool}
    {p k k' : ℕ} {c : Ulong}
    (hm : ∃ flow, m b = .ok flow b ∧ Checked f p k c flow)
    (hrest : ∀ c' : Ulong, c'.toNat = c.toNat + k →
      ∃ r, rest c' b = .ok r b ∧ (r = true ↔ RunAt f (p + k) k')) :
    ∃ r, (m >>= fun | .ret value => pure value | .next bitsChecked => rest bitsChecked) b =
        .ok r b ∧ (r = true ↔ RunAt f p (k + k')) := by
  rcases hm with ⟨flow, hrun, hflow⟩
  rw [bind_ok hrun]
  cases hflow with
  | mismatch hmiss =>
    refine ⟨false, rfl, iff_of_false Bool.false_ne_true fun hall => hmiss ?_⟩
    exact hall.mono (by omega)
  | passed c' hpassed hc =>
    rcases hrest c' hc with ⟨r, hr, hiff⟩
    refine ⟨r, hr, hiff.trans ⟨fun h => hpassed.append h, fun hall j hj hj' => ?_⟩⟩
    exact hall j (by omega) (by omega)

/-- Behind the last loop nothing is left to check. -/
theorem runAt_nothing (f : ℕ → Bool) (p : ℕ) : ∃ r, (pure true : BitMapM Bool) b = .ok r b ∧
    (r = true ↔ RunAt f p 0) :=
  ⟨true, rfl, ⟨fun _ j _ _ => by omega, fun _ => rfl⟩⟩

/-- The body of `RtlAreBitsClear` and `RtlAreBitsSet` decides a range that lies
inside the bitmap. -/
theorem areBits_reads (hm : MismatchFor v mismatch) {s n : Ulong} (hn : n ≠ 0)
    (hfit : s.toNat + n.toNat ≤ b.sizeOfBitMap.toNat) :
    ∃ r, areBits mismatch (if v then allBitsSet else 0) s n b = .ok r b ∧
      (r = true ↔ RunAt (b.hits v) s.toNat n.toNat) := by
  have hsize := ulong_lt b.sizeOfBitMap
  have hn' := one_le_toNat hn
  have hsum : (s + n).toNat = s.toNat + n.toNat := toNat_add_of_lt (by omega)
  have hlast : (s + n - 1).toNat = s.toNat + n.toNat - 1 := by
    rw [toNat_sub_one (by omega), hsum]
  have hcheck : ¬ (n = 0 ∨ b.sizeOfBitMap < s + n) := by
    rintro (h0 | hlt)
    · exact hn h0
    · rw [UInt32.lt_iff_toNat_lt] at hlt
      omega
  rw [areBits, get_bind, if_neg hcheck]
  have hsi := toNat_calculateArrayIndexFromBitNum s
  have hsp := toNat_calculateBitPositionInArrayElement hsi
  have hli := toNat_calculateArrayIndexFromBitNum (s + n - 1)
  have hlp := toNat_calculateBitPositionInArrayElement hli
  rw [hlast] at hli hlp
  generalize calculateBitPositionInArrayElement s (calculateArrayIndexFromBitNum s) = sp at hsp ⊢
  generalize calculateBitPositionInArrayElement (s + n - 1)
    (calculateArrayIndexFromBitNum (s + n - 1)) = lp at hlp ⊢
  generalize calculateArrayIndexFromBitNum s = si at hsi ⊢
  generalize calculateArrayIndexFromBitNum (s + n - 1) = li at hli ⊢
  have hliw : li.toNat < b.wordCount := by
    rw [hli]
    exact bit_lt_wordCount (by omega)
  have hstart : 32 * si.toNat + sp.toNat = s.toNat := by omega
  by_cases hsame : si = li
  · -- one element holds the whole range
    rw [if_pos hsame]
    have hcount : lp.toNat + 1 - sp.toNat = n.toNat := by
      rw [hsame] at hsi
      omega
    have hbits := checkElementBits_checked (l := n) hm false hliw sp.toNat n.toNat (by omega) 0
      (by rw [UInt32.toNat_zero]; omega)
    rw [← hsame, hstart, hsame] at hbits
    rw [ulongsTo, hcount]
    exact Checked.decides hbits fun _ _ => runAt_nothing _ _
  · have hlt : si.toNat < li.toNat := by
      have hne : si.toNat ≠ li.toNat := fun h => hsame (UInt32.toNat_inj.1 h)
      omega
    have h32 : bitsPerArray.toNat = 32 := rfl
    have hone : (si + 1).toNat = si.toNat + 1 := toNat_add_of_lt (by
      rw [UInt32.toNat_one]
      omega)
    -- the lengths of the three parts add up
    have hparts : n.toNat = 32 - sp.toNat + (32 * (li.toNat - (si.toNat + 1)) +
        (lp.toNat + 1 + 0)) := by omega
    rw [if_neg hsame, ulongsBelow, h32, ulongsBelow, hone, ulongsTo, UInt32.toNat_zero,
      Nat.sub_zero]
    have hfirst := checkElementBits_checked (b := b) (l := n) hm true (i := si) (by omega)
      sp.toNat (32 - sp.toNat) (by omega) 0 (by rw [UInt32.toNat_zero]; omega)
    rw [hstart] at hfirst
    rw [hparts]
    refine Checked.decides hfirst fun c hc => ?_
    rw [UInt32.toNat_zero] at hc
    have hbetween := checkElements_checked (b := b) (v := v) (l := n) (si.toNat + 1)
      (li.toNat - (si.toNat + 1)) (by omega) (by omega) c (by omega)
    rw [show 32 * (si.toNat + 1) = s.toNat + (32 - sp.toNat) by omega] at hbetween
    refine Checked.decides hbetween fun c' hc' => ?_
    have hend := checkElementBits_checked (l := n) hm false hliw 0 (lp.toNat + 1) (by omega) c'
      (by omega)
    rw [show 32 * li.toNat + 0 =
      s.toNat + (32 - sp.toNat) + 32 * (li.toNat - (si.toNat + 1)) by omega] at hend
    exact Checked.decides hend fun _ _ => runAt_nothing _ _

/-! ## Bit by bit -/

/-- A reader of a range answers as `RtlTestBit` does on each of its bits, and reads only. -/
def ReadsRange (reader : Ulong → Ulong → BitMapM Bool) (v : Bool) (b : RtlBitMap)
    (s n : Ulong) : Prop :=
  ∃ r, reader s n b = .ok r b ∧ (r = true ↔
    0 < n.toNat ∧ s.toNat + n.toNat ≤ b.sizeOfBitMap.toNat ∧
    ∀ i : Ulong, s.toNat ≤ i.toNat → i.toNat < s.toNat + n.toNat → rtlTestBit i b = .ok v b)

theorem readsRange_of_areBits (hm : MismatchFor v mismatch) {s n : Ulong}
    (hsum : s.toNat + n.toNat ≤ 2 ^ 32 - 1) :
    ReadsRange (areBits mismatch (if v then allBitsSet else 0)) v b s n := by
  by_cases hn : n = 0
  · refine ⟨false, ?_, ?_⟩
    · rw [areBits, get_bind, if_pos (Or.inl hn), pure_run]
    · simp [hn]
  by_cases hfit : s.toNat + n.toNat ≤ b.sizeOfBitMap.toNat
  · rcases areBits_reads hm hn hfit with ⟨r, hrun, hiff⟩
    refine ⟨r, hrun, hiff.trans ?_⟩
    rw [runAt_iff_testBit hfit]
    exact ⟨fun h => ⟨one_le_toNat hn, hfit, h⟩, fun h => h.2.2⟩
  · -- the sum does not wrap, so the check turns the range down
    refine ⟨false, areBits_rejects ?_ _ _, ?_⟩
    · rw [add_le_size_iff]
      rintro (hle | hwraps)
      · exact hfit hle
      · have := hwraps.1
        omega
    · exact iff_of_false Bool.false_ne_true fun h => hfit h.2.1

/-- The count of the set bits, as a count of the bits that `RtlTestBit` reads as set. -/
theorem hitCount_eq_ncard (b : RtlBitMap) : hitCount (b.hits true) b.sizeOfBitMap.toNat =
    Set.ncard {i : ℕ | i < b.sizeOfBitMap.toNat ∧ rtlTestBit (UInt32.ofNat i) b = .ok true b} := by
  have hset : {i : ℕ | i < b.sizeOfBitMap.toNat ∧ rtlTestBit (UInt32.ofNat i) b = .ok true b} =
      ↑((Finset.range b.sizeOfBitMap.toNat).filter fun i => b.hits true i = true) := by
    ext i
    simp only [Set.mem_ofPred_eq, Finset.coe_filter, Finset.mem_range]
    refine and_congr_right fun hi => ?_
    have hsize := ulong_lt b.sizeOfBitMap
    rw [rtlTestBit_ok (by rw [toNat_ofNat_lt (by omega)]; exact hi), toNat_ofNat_lt (by omega),
      hits_of_lt hi]
    cases b.bit i <;> simp
  rw [hset, Set.ncard_coe_finset, hitCount, Nat.count_eq_card_filter_range]

/-- **Readers.** `RtlNumberOfSetBits` counts the bits that `RtlTestBit` reads as set,
and `RtlAreBitsClear` and `RtlAreBitsSet` answer for a range as `RtlTestBit` does for
its bits. -/
theorem readers_agree (b : RtlBitMap) (hS : 1 ≤ b.sizeOfBitMap.toNat) :
    (∃ n, rtlNumberOfSetBits b = .ok n b ∧ n.toNat =
      Set.ncard {i : ℕ | i < b.sizeOfBitMap.toNat ∧
        rtlTestBit (UInt32.ofNat i) b = .ok true b}) ∧
    ∀ s n : Ulong, s.toNat + n.toNat ≤ 2 ^ 32 - 1 →
      ReadsRange rtlAreBitsClear false b s n ∧ ReadsRange rtlAreBitsSet true b s n := by
  constructor
  · rcases rtlNumberOfSetBits_spec hS with ⟨n, hrun, hn⟩
    exact ⟨n, hrun, by rw [hn, hitCount_eq_ncard]⟩
  · intro s n hsum
    exact ⟨readsRange_of_areBits mismatchFor_clear hsum, readsRange_of_areBits mismatchFor_set hsum⟩

/-- Forty bits of two words: the range from bit 28 on spans both. -/
def fortyBits : RtlBitMap := ⟨40, [0xF0000000, 0x0F], by decide⟩

theorem readers_agree_fortyBits : 1 ≤ fortyBits.sizeOfBitMap.toNat ∧
    ReadsRange rtlAreBitsSet true fortyBits 28 8 :=
  ⟨by decide, ((readers_agree fortyBits (by decide)).2 28 8 (by decide)).2⟩

end Wdutf.Bitmap
