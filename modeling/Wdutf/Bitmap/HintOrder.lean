import Mathlib.Data.List.Basic
import Mathlib.Tactic.Common
import Wdutf.Bitmap.FindBits

/-!
# Wdutf.Bitmap.HintOrder — the order in which the run search looks

Which of several runs `RtlFindClearBits` and `RtlFindSetBits` return. Both the
exact and the inexact outcome of a pass from bit `a` start at the first run behind
`a` (`PassFinds.first`), and a pass that fails although runs lie behind `a` has let
its count wrap, which only a pass from bit 0 can do (`PassFails.noRun`).

* `findBits_hint_order` — first fit from the hint on, and only if there is none,
  first fit from bit 0 on.
-/

namespace Wdutf.Bitmap

open Wdutf.Runs Wdutf.Action

/-- Bit `i` starts `n` bits of value `v` inside the bitmap. -/
def IsStart (b : RtlBitMap) (v : Bool) (n i : ℕ) : Prop :=
  i + n ≤ b.sizeOfBitMap.toNat ∧
  ∀ j : Ulong, i ≤ j.toNat → j.toNat < i + n → rtlTestBit j b = .ok v b

theorem IsStart.runAt {b : RtlBitMap} {v : Bool} {n i : ℕ} (h : IsStart b v n i) :
    RunAt (b.hits v) i n :=
  (runAt_iff_testBit h.1).2 h.2

/-- The result of a search, if there is one, is the first start from the hint on
or, when no start lies there, the first one at all. -/
def HintOrder (find : BitMapM Ulong) (v : Bool) (b : RtlBitMap) (n h : Ulong) : Prop :=
  ∃ s, find b = .ok s b ∧ (s ≠ allBitsSet →
    (b.sizeOfBitMap.toNat ≤ h.toNat → ∀ i, i < s.toNat → ¬ IsStart b v n.toNat i) ∧
    (h.toNat < b.sizeOfBitMap.toNat → h.toNat ≤ s.toNat →
      ∀ i, h.toNat ≤ i → i < s.toNat → ¬ IsStart b v n.toNat i) ∧
    (h.toNat < b.sizeOfBitMap.toNat → s.toNat < h.toNat →
      (∀ i, h.toNat ≤ i → ¬ IsStart b v n.toNat i) ∧
      ∀ i, i < s.toNat → ¬ IsStart b v n.toNat i))

/-- No run lies between the start of a pass and what it returns, whether or not
the last element was counted as a whole. -/
theorem PassFinds.first {b : RtlBitMap} {v : Bool} {n a s i : ℕ} (h : PassFinds b v n a s)
    (ha : a ≤ i) (hi : i < s) : ¬ RunAt (b.hits v) i n := by
  rcases h with ⟨hz, -, hs⟩ | ⟨-, hrun⟩
  · rw [hs] at hi
    exact not_runAt_of_lt hz.2.2.2 ha hi
  · exact hrun.2.2.2 i ha hi

/-- The count of a pass that starts behind bit 0 does not wrap, so that the pass
fails only if no run lies behind its start. -/
theorem PassFails.noRun {b : RtlBitMap} {v : Bool} {n a : ℕ} (h : PassFails b v n a) (hn : 1 ≤ n)
    (ha : 0 < a) (hS : 1 ≤ b.sizeOfBitMap.toNat) :
    NoRun (b.hits v) a b.sizeOfBitMap.toNat n := by
  rcases h with ⟨hz, hshort⟩ | ⟨-, hno⟩
  · have hlast := lastStart_lt hS
    have hpow := lastIndex_lt_pow b
    have hstart : b.lastStart = 32 * b.lastIndex := rfl
    have htrail := trailing_le (f := b.hits v) a b.lastStart
    have hbefore : a < b.lastStart := hz.1
    rw [Nat.mod_eq_of_lt (by omega)] at hshort
    have hno := noRun_add hbefore.le hn hz.2.2.2 (hz.runAt hS) (by omega)
    rwa [show b.lastStart + (b.sizeOfBitMap.toNat - b.lastStart) = b.sizeOfBitMap.toNat by omega]
      at hno
  · exact hno

/-- What the two passes say about the runs before the result. -/
theorem FindOutcome.first {b : RtlBitMap} {v : Bool} {n h : ℕ} {s : Ulong} (hn : 1 ≤ n)
    (hout : FindOutcome b v n h s) (hne : s ≠ allBitsSet) :
    (∀ i, firstStart b n h ≤ i → i < s.toNat → ¬ RunAt (b.hits v) i n) ∧
    (s.toNat < firstStart b n h →
      NoRun (b.hits v) (firstStart b n h) b.sizeOfBitMap.toNat n ∧
      ∀ i, i < s.toNat → ¬ RunAt (b.hits v) i n) := by
  rcases hout with ⟨-, heq⟩ | ⟨hlt, -, hfinds⟩ | ⟨-, heq, -⟩
  · exact absurd heq hne
  · rcases hfinds with hfinds | ⟨hfails, hfinds⟩
    · -- the first pass finds the result, which lies behind its start
      refine ⟨fun i hi his => hfinds.first hi his, fun hbefore => ?_⟩
      exfalso
      rcases hfinds with ⟨hz, -, hs⟩ | ⟨-, hrun⟩
      · have htrail := trailing_le (f := b.hits v) (firstStart b n h) b.lastStart
        have := hz.1
        omega
      · have := hrun.1
        omega
    · refine ⟨fun i _ his => hfinds.first (Nat.zero_le i) his, fun hbefore => ?_⟩
      have hpos : 0 < firstStart b n h := by omega
      exact ⟨hfails.noRun hn hpos (by omega), fun i his => hfinds.first (Nat.zero_le i) his⟩
  · exact absurd heq hne

theorem hintOrder_of_outcome {find : BitMapM Ulong} {v : Bool} {b : RtlBitMap} {n h s : Ulong}
    (hn : 1 ≤ n.toNat) (hrun : find b = .ok s b) (hout : FindOutcome b v n.toNat h.toNat s) :
    HintOrder find v b n h := by
  refine ⟨s, hrun, fun hne => ?_⟩
  rcases hout.first hn hne with ⟨hbetween, hbefore⟩
  by_cases hstart : h.toNat < b.sizeOfBitMap.toNat ∧ n.toNat ≤ b.sizeOfBitMap.toNat - h.toNat
  · -- two passes, the first one from the hint
    have hfirst : firstStart b n.toNat h.toNat = h.toNat := if_pos hstart
    rw [hfirst] at hbetween hbefore
    refine ⟨fun hge => by omega, fun _ _ i hi his hst => hbetween i hi his hst.runAt, ?_⟩
    intro _ hlt
    rcases hbefore hlt with ⟨hno, hbelow⟩
    exact ⟨fun i hi hst => hno i hi hst.1 hst.runAt, fun i his hst => hbelow i his hst.runAt⟩
  · -- one pass from bit 0; a start from the hint on has no room
    have hfirst : firstStart b n.toNat h.toNat = 0 := if_neg hstart
    rw [hfirst] at hbetween
    have hbelow : ∀ i, i < s.toNat → ¬ IsStart b v n.toNat i :=
      fun i his hst => hbetween i (Nat.zero_le i) his hst.runAt
    refine ⟨fun _ => hbelow, fun _ _ i _ his => hbelow i his, fun hlt _ => ⟨?_, hbelow⟩⟩
    intro i hi hst
    have hfit := hst.1
    omega

/-- **Hint order of the run search.** `RtlFindClearBits` and `RtlFindSetBits` are
first fit from the hint on, and first fit from bit 0 on when nothing lies there. -/
theorem findBits_hint_order (b : RtlBitMap) (n h : Ulong) (hn : 1 ≤ n.toNat) :
    HintOrder (rtlFindClearBits n h) false b n h ∧ HintOrder (rtlFindSetBits n h) true b n h := by
  rcases rtlFindClearBits_spec b n h hn with ⟨s, hrun, hout⟩
  rcases rtlFindSetBits_spec b n h hn with ⟨s', hrun', hout'⟩
  exact ⟨hintOrder_of_outcome hn hrun hout, hintOrder_of_outcome hn hrun' hout'⟩

/-- The bitmap of the test `DdkBitMapFindClearBitsSameStartEndIndexLoopTwice`. -/
def middleClear : RtlBitMap := ⟨32, [0xFFF000FF], by decide⟩

/-- The search for twelve clear bits from bit 16 on goes around and returns 8, so
that no start lies at or above 16 and none below 8. -/
theorem findBits_hint_order_middleClear :
    1 ≤ (12 : Ulong).toNat ∧ rtlFindClearBits 12 16 middleClear = .ok 8 middleClear ∧
    HintOrder (rtlFindClearBits 12 16) false middleClear 12 16 :=
  ⟨by decide, rfl, (findBits_hint_order middleClear 12 16 (by decide)).1⟩

end Wdutf.Bitmap
