import Mathlib.Data.List.Basic
import Mathlib.Tactic.Common
import Wdutf.Bitmap.FindBits

/-!
# Wdutf.Bitmap.ClearRuns — walking through the clear runs

`RtlFindNextForwardRunClear` against the runs of the bitmap. Between two elements
the variables it passes by reference describe the first run so far (`Progress`).
Every element is counted exactly, with the exception of the last one: when a run is
under way and the last element is zero, 32 is added for it, however many of its
bits belong to the bitmap (`TailRun`).

* `rtlFindNextForwardRunClear_spec` — what the routine returns;
* `nextRun_start_iff` — the start is the first clear bit, and no run is reported
  exactly when there is none, unless the count wraps to zero;
* `nextRun_length_iff` — the length is right, and the walk from run to run lists the
  maximal runs and adds up with `RtlNumberOfSetBits`, unless the last element is
  partial and ends a run that reaches into it.
-/

namespace Wdutf.Bitmap

open Wdutf.Runs Wdutf.Action

/-! ## Counting in one element -/

/-- The variables of a search from `a` that stands at `q`. -/
inductive Progress (f : ℕ → Bool) (a q : ℕ) : ClearRun → Prop
  | searching (startBit : Ulong) :
      (∀ i, a ≤ i → i < q → f i = false) → Progress f a q ⟨false, false, startBit, 0⟩
  | running (s c : Ulong) :
      FirstHit f a s.toNat → 0 < c.toNat → RunAt f s.toNat c.toNat →
      s.toNat + c.toNat = q → Progress f a q ⟨true, false, s, c⟩
  | ended (s c : Ulong) :
      FirstHit f a s.toNat → 0 < c.toNat → RunAt f s.toNat c.toNat →
      s.toNat + c.toNat < q → f (s.toNat + c.toNat) = false → Progress f a q ⟨true, true, s, c⟩

/-- A run that has ended stays as it is. -/
theorem Progress.mono {f : ℕ → Bool} {a q q' : ℕ} {r : ClearRun} (h : Progress f a q r)
    (hr : r.runEnded = true) (hq : q ≤ q') : Progress f a q' r := by
  cases h with
  | searching _ _ => cases hr
  | running _ _ _ _ _ _ => cases hr
  | ended s c hfirst hpos hrun hlt hmiss =>
    exact Progress.ended s c hfirst hpos hrun (by omega) hmiss

/-- The first hit starts the run. -/
theorem Progress.starts {f : ℕ → Bool} {a q : ℕ} (ha : a ≤ q)
    (hnone : ∀ i, a ≤ i → i < q → f i = false) (hit : f q = true) {s : Ulong} (hs : s.toNat = q) :
    Progress f a (q + 1) ⟨true, false, s, 0 + 1⟩ := by
  have hone : ((0 : Ulong) + 1).toNat = 1 := rfl
  refine Progress.running _ _ ?_ (by omega) ?_ (by omega)
  · rw [hs]
    exact ⟨ha, hit, hnone⟩
  · rw [hs, hone]
    exact runAt_one hit

/-- A further hit goes on with the run. -/
theorem Progress.goesOn {f : ℕ → Bool} {a q : ℕ} {s c : Ulong} (hq : q < 2 ^ 32 - 1)
    (hfirst : FirstHit f a s.toNat) (hrun : RunAt f s.toNat c.toNat)
    (hsum : s.toNat + c.toNat = q) (hit : f q = true) :
    Progress f a (q + 1) ⟨true, false, s, c + 1⟩ := by
  have hcount : (c + 1).toNat = c.toNat + 1 := by
    rw [toNat_add_of_lt (by rw [UInt32.toNat_one]; omega), UInt32.toNat_one]
  refine Progress.running s (c + 1) hfirst (by omega) ?_ (by omega)
  rw [hcount]
  exact hrun.append (runAt_one (by rwa [hsum]))

/-- The bit loop follows the first run bit by bit. -/
theorem countClearBits_progress {f : ℕ → Bool} {a : ℕ} {w i : Ulong} (s k : ℕ) (hk : s + k ≤ 32)
    (hwrap : 32 * i.toNat + (s + k) < 2 ^ 32)
    (hf : ∀ j, s ≤ j → j < s + k → f (32 * i.toNat + j) = !wordBit w j)
    (ha : a ≤ 32 * i.toNat + s) (r : ClearRun) (hr : r.runEnded = false)
    (hp : Progress f a (32 * i.toNat + s) r) :
    Progress f a (32 * i.toNat + (s + k))
      (countClearBits w i ((List.range' s k).map UInt32.ofNat) r) := by
  induction k generalizing s r with
  | zero => exact hp
  | succ k ih =>
    have hs : (UInt32.ofNat s).toNat = s := toNat_ofNat_lt (by omega)
    have hend : 32 * i.toNat + (s + (k + 1)) = 32 * i.toNat + (s + 1 + k) := by omega
    have hnext : ∀ j, s + 1 ≤ j → j < s + 1 + k → f (32 * i.toNat + j) = !wordBit w j :=
      fun j hj hj' => hf j (by omega) (by omega)
    have hbit : f (32 * i.toNat + s) = !wordBit w s := hf s (le_refl s) (by omega)
    have htest : ((w &&& bitMask (UInt32.ofNat s)) == 0) = f (32 * i.toNat + s) := by
      rw [ofNat_bit_clear w (by omega), hbit]
    rw [List.range'_succ, List.map_cons, countClearBits, htest, hend]
    cases hp with
    | searching startBit hnone =>
      by_cases hit : f (32 * i.toNat + s) = true
      · -- the run starts here
        rw [if_pos hit]
        refine ih (s + 1) (by omega) (by omega) hnext (by omega) _ rfl ?_
        have hnum : (calculateBitNumberInBitMap i (UInt32.ofNat s)).toNat =
            32 * i.toNat + s := by
          rw [toNat_calculateBitNumberInBitMap (by omega), hs]
        exact Progress.starts ha hnone hit hnum
      · rw [if_neg hit, if_neg (by simp)]
        refine ih (s + 1) (by omega) (by omega) hnext (by omega) _ rfl ?_
        refine Progress.searching startBit fun j hj hj' => ?_
        by_cases hjs : j = 32 * i.toNat + s
        · rw [hjs]
          simpa using hit
        · exact hnone j hj (by omega)
    | running st c hfirst hpos hrun hsum =>
      by_cases hit : f (32 * i.toNat + s) = true
      · -- the run goes on
        rw [if_pos hit]
        refine ih (s + 1) (by omega) (by omega) hnext (by omega) _ rfl ?_
        have hq : 32 * i.toNat + s < 2 ^ 32 - 1 := by omega
        exact Progress.goesOn hq hfirst hrun hsum hit
      · -- the run ends here
        rw [if_neg hit, if_pos rfl]
        refine Progress.ended st c hfirst hpos hrun (by omega) ?_
        rw [hsum]
        simpa using hit
    | ended _ _ _ _ _ _ _ => cases hr

/-- The count of an element is exact unless it adds 32 to a run under way for an
element that does not stand for 32 further bits. -/
theorem countClearRun_progress {f : ℕ → Bool} {a : ℕ} {w i s e : Ulong}
    (hse : s.toNat ≤ e.toNat) (he : e.toNat ≤ 31)
    (hwrap : 32 * i.toNat + (e.toNat + 1) < 2 ^ 32)
    (hf : ∀ j, s.toNat ≤ j → j ≤ e.toNat → f (32 * i.toNat + j) = !wordBit w j)
    (ha : a ≤ 32 * i.toNat + s.toNat) {r : ClearRun} (hr : r.runEnded = false)
    (hp : Progress f a (32 * i.toNat + s.toNat) r)
    (hexact : w = 0 → r.runStarted = true → s.toNat = 0 ∧ e.toNat = 31) :
    Progress f a (32 * i.toNat + (e.toNat + 1)) (countClearRun w i s e r) := by
  rw [countClearRun]
  by_cases hw : w = 0
  · -- all bits of the element are clear
    have hclear : RunAt f (32 * i.toNat + s.toNat) (e.toNat + 1 - s.toNat) := by
      intro j hj hj'
      have hfj := hf (j - 32 * i.toNat) (by omega) (by omega)
      rw [hw, wordBit_zero, show 32 * i.toNat + (j - 32 * i.toNat) = j by omega] at hfj
      simpa using hfj
    cases hp with
    | searching startBit hnone =>
      rw [if_pos ⟨hw, rfl⟩]
      have hsub : (e - s + 1).toNat = e.toNat + 1 - s.toNat := by
        have := ulong_lt e
        rw [UInt32.toNat_add, UInt32.toNat_sub, UInt32.toNat_one]
        omega
      have hnum : (calculateBitNumberInBitMap i s).toNat = 32 * i.toNat + s.toNat :=
        toNat_calculateBitNumberInBitMap (by omega)
      refine Progress.running _ _ ?_ (by omega) ?_ (by omega)
      · rw [hnum]
        exact ⟨ha, hclear _ (le_refl _) (by omega), hnone⟩
      · rw [hnum, hsub]
        exact hclear
    | running st c hfirst hpos hrun hsum =>
      rw [if_neg (by simp), if_pos ⟨hw, rfl⟩]
      rcases hexact hw rfl with ⟨hs0, he31⟩
      have h32 : bitsPerArray.toNat = 32 := rfl
      have hcount : (c + bitsPerArray).toNat = c.toNat + 32 := by
        rw [toNat_add_of_lt (by omega), h32]
      refine Progress.running st (c + bitsPerArray) hfirst (by omega) ?_ (by omega)
      rw [hcount]
      refine hrun.append ?_
      rw [hsum]
      exact hclear.mono (by omega)
    | ended _ _ _ _ _ _ _ => cases hr
  · rw [if_neg (by simp [hw]), if_neg (by simp [hw]), ulongsTo]
    have h := countClearBits_progress s.toNat (e.toNat + 1 - s.toNat) (by omega) (by omega)
      (fun j hj hj' => hf j hj (by omega)) ha r hr hp
    rwa [show s.toNat + (e.toNat + 1 - s.toNat) = e.toNat + 1 by omega] at h

/-! ## The routine -/

/-- The elements between the first and the last one are counted exactly. -/
theorem countElements_progress {b : RtlBitMap} {a : ℕ} (i k : ℕ) (hk : i + k ≤ b.lastIndex)
    (hS : 1 ≤ b.sizeOfBitMap.toNat) (ha : a ≤ 32 * i) (r : ClearRun) (hr : r.runEnded = false)
    (hp : Progress (b.hits false) a (32 * i) r) :
    ∃ r', countElements ((List.range' i k).map UInt32.ofNat) r b = .ok r' b ∧
      Progress (b.hits false) a (32 * (i + k)) r' := by
  induction k generalizing i r with
  | zero => exact ⟨r, rfl, hp⟩
  | succ k ih =>
    have hlast := lastIndex_lt hS
    have hpow := lastIndex_lt_pow b
    have hi : (UInt32.ofNat i).toNat = i := toNat_ofNat_lt (by omega)
    have hword := getWord_ofNat hS (show i ≤ b.lastIndex by omega)
    have h31 : (bitsPerArray - 1).toNat = 31 := rfl
    have hstep : Progress (b.hits false) a (32 * (i + 1))
        (countClearRun (b.word i) (UInt32.ofNat i) 0 (bitsPerArray - 1) r) := by
      have h := countClearRun_progress (f := b.hits false) (a := a) (w := b.word i)
        (i := UInt32.ofNat i) (s := 0) (e := bitsPerArray - 1) (r := r)
      simp only [hi, h31, UInt32.toNat_zero, Nat.add_zero] at h
      rw [show 32 * (i + 1) = 32 * i + (31 + 1) by omega]
      refine h (by omega) (by omega) (by omega) ?_ ha hr hp (fun _ _ => ⟨trivial, trivial⟩)
      intro j _ hj
      exact hits_false_word (by omega) (by omega)
    rw [List.range'_succ, List.map_cons, countElements, bind_ok hword]
    by_cases hend : (countClearRun (b.word i) (UInt32.ofNat i) 0 (bitsPerArray - 1) r).runEnded
        = true
    · refine ⟨_, if_pos hend ▸ rfl, hstep.mono hend (by omega)⟩
    · simp only [if_neg hend]
      rw [show 32 * (i + (k + 1)) = 32 * (i + 1 + k) by omega]
      exact ih (i + 1) (by omega) (by omega) _ (by simpa using hend) hstep

/-- The first clear run from `a` on starts at `m`, before the last element, and
reaches it, and that element is zero as a whole. -/
def TailRun (b : RtlBitMap) (a m : ℕ) : Prop :=
  m < b.lastStart ∧ b.word b.lastIndex = 0 ∧ FirstHit (b.hits false) a m ∧
  RunAt (b.hits false) m (b.lastStart - m)

/-- What the routine returns from bit `a` on: the count `c` and the start `s`. -/
def NextOutcome (b : RtlBitMap) (a : ℕ) (c s : Ulong) : Prop :=
  (TailRun b a s.toNat ∧ c.toNat = (b.lastStart - s.toNat + 32) % 2 ^ 32) ∨
  ((¬ ∃ m, TailRun b a m) ∧
    ((c = 0 ∧ ∀ i, a ≤ i → i < b.sizeOfBitMap.toNat → b.hits false i = false) ∨
      NextRun (b.hits false) b.sizeOfBitMap.toNat a s.toNat c.toNat))

/-- With the last element counted exactly, the variables give the next run. -/
theorem Progress.outcome {b : RtlBitMap} {a : ℕ} {r : ClearRun}
    (h : Progress (b.hits false) a b.sizeOfBitMap.toNat r) (htail : ¬ ∃ m, TailRun b a m) :
    NextOutcome b a r.runCount r.startBit := by
  refine Or.inr ⟨htail, ?_⟩
  cases h with
  | searching _ hnone => exact Or.inl ⟨rfl, hnone⟩
  | running s c hfirst hpos hrun hsum =>
    exact Or.inr ⟨hfirst, hpos, hsum.le, hrun, Or.inl hsum⟩
  | ended s c hfirst hpos hrun hlt hmiss =>
    exact Or.inr ⟨hfirst, hpos, hlt.le, hrun, Or.inr hmiss⟩

/-- A run that ends before the last element does not reach it. -/
theorem Progress.not_tailRun {b : RtlBitMap} {a q : ℕ} {r : ClearRun}
    (h : Progress (b.hits false) a q r) (hr : r.runEnded = true) (hq : q ≤ b.lastStart) :
    ¬ ∃ m, TailRun b a m := by
  rintro ⟨m, hm, -, hfirst', hrun'⟩
  cases h with
  | searching _ _ => cases hr
  | running _ _ _ _ _ _ => cases hr
  | ended s c hfirst hpos hrun hlt hmiss =>
    rw [← hfirst.unique hfirst'] at hrun' hm
    have hhit := hrun' (s.toNat + c.toNat) (by omega) (by omega)
    simp [hmiss] at hhit

/-- The last element, entered with no run or with a run under way. -/
theorem lastElement_nextOutcome {b : RtlBitMap} {a : ℕ} {li lp : Ulong}
    (hS : 1 ≤ b.sizeOfBitMap.toNat) (hli : li.toNat = b.lastIndex)
    (hlp : lp.toNat = (b.sizeOfBitMap.toNat - 1) % 32) (ha : a ≤ b.lastStart) {r : ClearRun}
    (hr : r.runEnded = false) (hp : Progress (b.hits false) a b.lastStart r) :
    NextOutcome b a (countClearRun (b.word b.lastIndex) li 0 lp r).runCount
      (countClearRun (b.word b.lastIndex) li 0 lp r).startBit := by
  have hsize := ulong_lt b.sizeOfBitMap
  have hend : b.lastStart + (lp.toNat + 1) = b.sizeOfBitMap.toNat := by
    rw [hlp, RtlBitMap.lastStart, RtlBitMap.lastIndex]
    omega
  by_cases hz : b.word b.lastIndex = 0 ∧ r.runStarted = true
  · -- the inexact case: 32 is added whatever the last position is
    rcases hz with ⟨hw, hstarted⟩
    cases hp with
    | searching _ _ => cases hstarted
    | running s c hfirst hpos hrun hsum =>
      refine Or.inl ?_
      rw [countClearRun, if_neg (by simp), if_pos ⟨hw, rfl⟩]
      have hcount : b.lastStart - s.toNat = c.toNat := by omega
      refine ⟨⟨?_, hw, hfirst, ?_⟩, ?_⟩
      · show s.toNat < b.lastStart
        omega
      · show RunAt (b.hits false) s.toNat (b.lastStart - s.toNat)
        rwa [hcount]
      · show (c + bitsPerArray).toNat = (b.lastStart - s.toNat + 32) % 2 ^ 32
        rw [hcount, UInt32.toNat_add]
        rfl
    | ended _ _ _ _ _ _ _ => cases hr
  · have hstep : Progress (b.hits false) a b.sizeOfBitMap.toNat
        (countClearRun (b.word b.lastIndex) li 0 lp r) := by
      have h := countClearRun_progress (f := b.hits false) (a := a) (w := b.word b.lastIndex)
        (i := li) (s := 0) (e := lp) (r := r)
      simp only [hli, UInt32.toNat_zero, Nat.add_zero] at h
      rw [← hend, RtlBitMap.lastStart]
      rw [RtlBitMap.lastStart] at hend
      refine h (by omega) (by omega) (by omega) ?_ ha hr hp (fun hw hst => absurd ⟨hw, hst⟩ hz)
      intro j _ hj
      exact hits_false_word (lastIndex_lt hS) (by omega)
    refine hstep.outcome ?_
    rintro ⟨m, hm, hw, hfirst', hrun'⟩
    -- the run would be under way
    cases hp with
    | searching _ hnone =>
      have hhit := hfirst'.2.1
      simp [hnone m hfirst'.1 hm] at hhit
    | running s c hfirst hpos hrun hsum => exact hz ⟨hw, rfl⟩
    | ended _ _ _ _ _ _ _ => cases hr

/-- `RtlFindNextForwardRunClear` returns, and what it returns. -/
theorem rtlFindNextForwardRunClear_spec {b : RtlBitMap} {a : Ulong}
    (ha : a.toNat < b.sizeOfBitMap.toNat) :
    ∃ c s, rtlFindNextForwardRunClear a b = .ok (c, s) b ∧ NextOutcome b a.toNat c s := by
  have hS : 1 ≤ b.sizeOfBitMap.toNat := by omega
  have hlast := lastIndex_lt hS
  have hpow := lastIndex_lt_pow b
  have hsize := ulong_lt b.sizeOfBitMap
  have hassert : ddkAssert (decide (a < b.sizeOfBitMap)) b = .ok () b :=
    ddkAssert_true (by simpa [UInt32.lt_iff_toNat_lt] using ha) b
  rw [rtlFindNextForwardRunClear, get_bind, bind_ok hassert]
  have hsi : (calculateArrayIndexFromBitNum a).toNat = a.toNat / 32 :=
    toNat_calculateArrayIndexFromBitNum a
  have hsp : (calculateBitPositionInArrayElement a (calculateArrayIndexFromBitNum a)).toNat =
      a.toNat % 32 := toNat_calculateBitPositionInArrayElement hsi
  have hli := toNat_lastBufferIndex hS
  have hlp := toNat_lastBitPosition hS
  generalize calculateBitPositionInArrayElement a (calculateArrayIndexFromBitNum a) = sp at hsp ⊢
  generalize calculateBitPositionInArrayElement (b.sizeOfBitMap - 1)
    (calculateLastBufferIndex (b.sizeOfBitMap - 1)) = lp at hlp ⊢
  generalize calculateArrayIndexFromBitNum a = si at hsi ⊢
  generalize calculateLastBufferIndex (b.sizeOfBitMap - 1) = li at hli ⊢
  have hle : a.toNat / 32 ≤ b.lastIndex := by
    rw [RtlBitMap.lastIndex]
    omega
  have hstart : b.lastStart = 32 * b.lastIndex := rfl
  have hpos : 32 * si.toNat + sp.toNat = a.toNat := by omega
  have hword : getWord si b = .ok (b.word si.toNat) b := getWord_ok (by omega)
  have hlword : getWord li b = .ok (b.word b.lastIndex) b := by
    rw [getWord_ok (by omega), hli]
  have hbits : ∀ j, j < 32 → b.hits false (32 * si.toNat + j) = !wordBit (b.word si.toNat) j :=
    fun j hj => hits_false_word (by omega) hj
  have hinit : Progress (b.hits false) a.toNat (32 * si.toNat + sp.toNat)
      ⟨false, false, 0, 0⟩ := Progress.searching 0 fun i hi hi' => by omega
  rw [bind_ok hword]
  by_cases hsame : si = li
  · -- one element, the last one
    have hidx : si.toNat = b.lastIndex := by rw [hsame, hli]
    have hend : 32 * si.toNat + (lp.toNat + 1) = b.sizeOfBitMap.toNat := by
      rw [hlp, hidx, RtlBitMap.lastIndex]
      omega
    have hstep := countClearRun_progress (s := sp) (e := lp) (by omega) (by omega) (by omega)
      (fun j _ hj => hbits j (by omega)) (by omega) rfl hinit (fun _ h => by cases h)
    rw [hend] at hstep
    simp only [if_pos hsame]
    refine ⟨_, _, rfl, hstep.outcome ?_⟩
    rintro ⟨m, hm, -, hfirst, -⟩
    have := hfirst.1
    omega
  · have hlt : si.toNat < b.lastIndex := by
      have : si.toNat ≠ li.toNat := fun h => hsame (UInt32.toNat_inj.1 h)
      omega
    have h31 : (bitsPerArray - 1).toNat = 31 := rfl
    have hstep := countClearRun_progress (s := sp) (e := bitsPerArray - 1) (by omega) (by omega)
      (by omega) (fun j _ hj => hbits j (by omega)) (by omega) rfl hinit (fun _ h => by cases h)
    rw [h31, show 32 * si.toNat + (31 + 1) = 32 * (si.toNat + 1) by omega] at hstep
    simp only [if_neg hsame]
    generalize countClearRun (b.word si.toNat) si sp (bitsPerArray - 1) ⟨false, false, 0, 0⟩ = r
      at hstep ⊢
    have hlastStart : b.lastStart < b.sizeOfBitMap.toNat := (lastStart_lt hS).1
    by_cases hend1 : r.runEnded = true
    · -- the run ends in the first element
      simp only [if_pos hend1]
      refine ⟨_, _, rfl, (hstep.mono hend1 (by omega)).outcome ?_⟩
      exact hstep.not_tailRun hend1 (by omega)
    have hone : (si + 1).toNat = si.toNat + 1 := toNat_add_of_lt (by
      rw [UInt32.toNat_one]
      omega)
    obtain ⟨r', hrun, hstep'⟩ := countElements_progress (si.toNat + 1)
      (b.lastIndex - (si.toNat + 1)) (by omega) hS (by omega) r (by simpa using hend1) hstep
    rw [show si.toNat + 1 + (b.lastIndex - (si.toNat + 1)) = b.lastIndex by omega,
      ← hstart] at hstep'
    have hrange : ulongsBelow (si + 1) li =
        (List.range' (si.toNat + 1) (b.lastIndex - (si.toNat + 1))).map UInt32.ofNat := by
      rw [ulongsBelow, hone, hli]
    rw [← hrange] at hrun
    simp only [if_neg hend1]
    rw [bind_ok hrun]
    by_cases hend2 : r'.runEnded = true
    · -- the run ends before the last element
      simp only [if_pos hend2]
      refine ⟨_, _, rfl, (hstep'.mono hend2 (by omega)).outcome ?_⟩
      exact hstep'.not_tailRun hend2 (le_refl _)
    · simp only [if_neg hend2]
      rw [bind_ok hlword]
      exact ⟨_, _, rfl, lastElement_nextOutcome hS hli hlp (by omega) (by simpa using hend2) hstep'⟩

/-! ## The start of the run -/

/-- `RtlTestBit` reads bit `i` as `v`. -/
def TestsAs (b : RtlBitMap) (v : Bool) (i : ℕ) : Prop :=
  rtlTestBit (UInt32.ofNat i) b = .ok v b

theorem testsAs_iff {b : RtlBitMap} {v : Bool} {i : ℕ} (h : i < b.sizeOfBitMap.toNat) :
    TestsAs b v i ↔ b.hits false i = !v := by
  have hsize := ulong_lt b.sizeOfBitMap
  have hi : (UInt32.ofNat i).toNat = i := toNat_ofNat_lt (by omega)
  rw [TestsAs, rtlTestBit_ok (by omega), hi, hits_of_lt h]
  constructor
  · intro heq
    injection heq with hbit
    rw [hbit]
    cases v <;> rfl
  · intro heq
    have hbit : b.bit i = v := by
      revert heq
      cases b.bit i <;> cases v <;> simp
    rw [hbit]

/-- A call from bit `a` returns 0 exactly if no clear bit follows, and otherwise
stores the first of them. -/
def StartsAtFirstClear (b : RtlBitMap) (a : Ulong) : Prop :=
  ∃ c s, rtlFindNextForwardRunClear a b = .ok (c, s) b ∧
    (c = 0 ↔ ∀ i, a.toNat ≤ i → i < b.sizeOfBitMap.toNat → TestsAs b true i) ∧
    ((∃ i, a.toNat ≤ i ∧ i < b.sizeOfBitMap.toNat ∧ TestsAs b false i) →
      a.toNat ≤ s.toNat ∧ s.toNat < b.sizeOfBitMap.toNat ∧ TestsAs b false s.toNat ∧
      ∀ i, a.toNat ≤ i → i < s.toNat → TestsAs b true i)

/-- Every word is zero, and counting the last one as 32 bits makes `2 ^ 32`. -/
def WholeWraps (b : RtlBitMap) (a : ℕ) : Prop :=
  a = 0 ∧ 2 ^ 32 - 32 < b.sizeOfBitMap.toNat ∧ ∀ i, i < b.wordCount → b.word i = 0

/-- The count of a tail run is zero exactly in the wrapping case. -/
theorem TailRun.count_eq_zero_iff {b : RtlBitMap} {a m : ℕ} (h : TailRun b a m)
    (hS : 1 ≤ b.sizeOfBitMap.toNat) :
    (b.lastStart - m + 32) % 2 ^ 32 = 0 ↔ WholeWraps b a := by
  have hpow := lastIndex_lt_pow b
  have hstart : b.lastStart = 32 * b.lastIndex := rfl
  have hlast := lastStart_lt hS
  have hcount : b.wordCount = b.lastIndex + 1 := by
    rw [RtlBitMap.wordCount, RtlBitMap.lastIndex]
    omega
  rcases h with ⟨hm, hw, hfirst, hrun⟩
  have ha := hfirst.1
  constructor
  · intro hzero
    have hm0 : m = 0 := by omega
    refine ⟨by omega, by omega, fun i hi => ?_⟩
    by_cases hil : i = b.lastIndex
    · rw [hil]
      exact hw
    · have hword : RunAt (b.hits false) (32 * i) 32 :=
        fun j _ hj => hrun j (by omega) (by omega)
      exact word_of_runAt hword
  · rintro ⟨ha0, hlarge, hwords⟩
    -- bit 0 is clear, so that the run starts there
    have hbit : b.hits false 0 = true :=
      runAt_of_word (v := false) (i := 0) (by omega) (hwords 0 (by omega)) 0 (by omega) (by omega)
    have hm0 : m = 0 := by
      by_contra hne
      have := hfirst.2.2 0 (by omega) (by omega)
      simp [hbit] at this
    omega

theorem WholeWraps.tailRun {b : RtlBitMap} {a : ℕ} (h : WholeWraps b a) : TailRun b a 0 := by
  rcases h with ⟨ha, hlarge, hwords⟩
  have hsize := ulong_lt b.sizeOfBitMap
  have hlast := lastIndex_lt (b := b) (by omega)
  have hrun : RunAt (b.hits false) 0 b.lastStart :=
    runAt_of_words (fun j hj => hwords j (by omega)) (by omega)
  have hstart : b.lastStart = 2 ^ 32 - 32 := by
    rw [RtlBitMap.lastStart, RtlBitMap.lastIndex]
    omega
  refine ⟨by omega, hwords _ hlast, ⟨by omega, ?_, fun i _ hi => by omega⟩, hrun⟩
  exact hrun 0 (by omega) (by omega)

/-- The first hit of an outcome with a non-zero count, and its absence otherwise. -/
theorem startsAtFirstClear_of_firstHit {b : RtlBitMap} {a c s : Ulong}
    (hcall : rtlFindNextForwardRunClear a b = .ok (c, s) b) (hc : c ≠ 0)
    (hs : s.toNat < b.sizeOfBitMap.toNat) (hfirst : FirstHit (b.hits false) a.toNat s.toNat) :
    StartsAtFirstClear b a := by
  have hclear : TestsAs b false s.toNat := (testsAs_iff hs).2 hfirst.2.1
  refine ⟨c, s, hcall, ⟨fun h => absurd h hc, fun hall => ?_⟩, fun _ => ?_⟩
  · have hset := (testsAs_iff hs).1 (hall s.toNat hfirst.1 hs)
    simp [hfirst.2.1] at hset
  · refine ⟨hfirst.1, hs, hclear, fun i hi his => ?_⟩
    exact (testsAs_iff (by omega)).2 (hfirst.2.2 i hi his)

/-- In the wrapping case the count is zero although bit 0 is clear. -/
theorem WholeWraps.not_starts {b : RtlBitMap} {a : Ulong} (hwraps : WholeWraps b a.toNat) :
    ¬ StartsAtFirstClear b a := by
  have hS : 1 ≤ b.sizeOfBitMap.toNat := by
    have := hwraps.2.1
    omega
  have ha : a.toNat < b.sizeOfBitMap.toNat := by
    have := hwraps.1
    omega
  have htail := hwraps.tailRun
  rcases rtlFindNextForwardRunClear_spec ha with ⟨c, s, hcall, hout⟩
  rintro ⟨c', s', hcall', hzero, -⟩
  rw [hcall] at hcall'
  injection hcall' with hpair
  injection hpair with hc hs
  rw [← hc] at hzero
  rcases hout with ⟨htail', hcount⟩ | ⟨hnone, -⟩
  · have hc0 : c = 0 := by
      rw [(htail'.count_eq_zero_iff hS).2 hwraps] at hcount
      exact UInt32.toNat_inj.1 hcount
    have hset := (testsAs_iff hS).1 (hzero.1 hc0 0 (by have := hwraps.1; omega) hS)
    have hbit := htail.2.2.1.2.1
    simp [hbit] at hset
  · exact hnone ⟨0, htail⟩

/-- **Run start.** `RtlFindNextForwardRunClear` reports no run exactly if no clear
bit follows, and otherwise the first clear bit as the start, unless every word is
zero and the count of a walk from bit 0 wraps. -/
theorem nextRun_start_iff (b : RtlBitMap) (a : Ulong) (ha : a.toNat < b.sizeOfBitMap.toNat) :
    StartsAtFirstClear b a ↔ ¬ WholeWraps b a.toNat := by
  have hS : 1 ≤ b.sizeOfBitMap.toNat := by omega
  rcases rtlFindNextForwardRunClear_spec ha with ⟨c, s, hcall, hout⟩
  constructor
  · intro hstarts hwraps
    exact hwraps.not_starts hstarts
  · intro hwraps
    rcases hout with ⟨htail, hcount⟩ | ⟨-, ⟨hc, hnone⟩ | hnext⟩
    · have hlast := lastStart_lt hS
      have hlt : s.toNat < b.lastStart := htail.1
      refine startsAtFirstClear_of_firstHit hcall ?_ (by omega) htail.2.2.1
      intro hc
      rw [hc, UInt32.toNat_zero] at hcount
      exact hwraps ((htail.count_eq_zero_iff hS).1 hcount.symm)
    · refine ⟨c, s, hcall, ⟨fun _ i hi hi' => ?_, fun _ => hc⟩, ?_⟩
      · exact (testsAs_iff hi').2 (hnone i hi hi')
      · rintro ⟨i, hi, hi', hclear⟩
        have hhit := (testsAs_iff hi').1 hclear
        simp [hnone i hi hi'] at hhit
    · have hpos := hnext.pos
      have hinside := hnext.inside
      refine startsAtFirstClear_of_firstHit hcall ?_ (by omega) hnext.first
      rintro rfl
      simp at hpos

/-- Forty bits with three clear runs, the last of which is the partial element. -/
def threeRuns : RtlBitMap := ⟨40, [0xFF00FF00, 0], by decide⟩

/-- From bit 8 of `threeRuns` the call finds the run that starts at bit 16. -/
theorem nextRun_start_threeRuns : StartsAtFirstClear threeRuns 8 := by
  refine (nextRun_start_iff threeRuns 8 (by decide)).2 ?_
  rintro ⟨hstart, -⟩
  exact absurd hstart (by decide)

/-- The largest bitmap, all clear, padding included. -/
def largestClear : RtlBitMap :=
  ⟨0xFFFFFFFF, List.replicate (2 ^ 27) 0, by rw [List.length_replicate]; decide⟩

/-- In the largest bitmap the first call returns 0 although every bit is clear. -/
theorem nextRun_start_wraps :
    ¬ ∀ (b : RtlBitMap) (a : Ulong), 1 ≤ b.sizeOfBitMap.toNat →
      a.toNat < b.sizeOfBitMap.toNat → StartsAtFirstClear b a := by
  intro hall
  have hwraps : WholeWraps largestClear (0 : Ulong).toNat := by
    refine ⟨rfl, by decide, fun i hi => ?_⟩
    rw [RtlBitMap.word, largestClear, List.getD_eq_getElem?_getD, List.getElem?_replicate]
    split
    · rfl
    · rfl
  exact hwraps.not_starts (hall largestClear 0 (by decide) (by decide))

/-! ## The length of the run -/

/-- A run that a call from bit `a` reports lies inside the bitmap, is clear, and ends
at a set bit or with the bitmap. -/
def CountsWholeRun (b : RtlBitMap) (a : Ulong) : Prop :=
  ∃ c s, rtlFindNextForwardRunClear a b = .ok (c, s) b ∧ (c ≠ 0 →
    s.toNat + c.toNat ≤ b.sizeOfBitMap.toNat ∧
    (∀ i, s.toNat ≤ i → i < s.toNat + c.toNat → TestsAs b false i) ∧
    (s.toNat + c.toNat = b.sizeOfBitMap.toNat ∨ TestsAs b true (s.toNat + c.toNat)))

/-- A call from bit `a` counts bits behind the bitmap: the last element is partial,
and the first run from `a` on reaches it and is reported. -/
def OverrunsFrom (b : RtlBitMap) (a : ℕ) : Prop :=
  b.sizeOfBitMap.toNat % 32 ≠ 0 ∧ (∃ m, TailRun b a m) ∧ ¬ WholeWraps b a

theorem countsWholeRun_of_nextRun {b : RtlBitMap} {a c s : Ulong}
    (hcall : rtlFindNextForwardRunClear a b = .ok (c, s) b)
    (h : NextRun (b.hits false) b.sizeOfBitMap.toNat a.toNat s.toNat c.toNat) :
    CountsWholeRun b a := by
  have hinside := h.inside
  refine ⟨c, s, hcall, fun _ => ⟨hinside, fun i hi hi' => ?_, ?_⟩⟩
  · exact (testsAs_iff (by omega)).2 (h.run i hi hi')
  · by_cases hend : s.toNat + c.toNat = b.sizeOfBitMap.toNat
    · exact Or.inl hend
    · rcases h.ends with hend' | hmiss
      · exact Or.inl hend'
      · exact Or.inr ((testsAs_iff (by omega)).2 hmiss)

/-- With a whole last element a tail run is counted exactly. -/
theorem TailRun.nextRun {b : RtlBitMap} {a m c : ℕ} (h : TailRun b a m)
    (hS : 1 ≤ b.sizeOfBitMap.toNat) (hwhole : b.sizeOfBitMap.toNat % 32 = 0)
    (hc : c = (b.lastStart - m + 32) % 2 ^ 32) :
    NextRun (b.hits false) b.sizeOfBitMap.toNat a m c := by
  have hsize := ulong_lt b.sizeOfBitMap
  have hlast := lastIndex_lt hS
  have hend : b.lastStart + 32 = b.sizeOfBitMap.toNat := by
    rw [RtlBitMap.lastStart, RtlBitMap.lastIndex]
    omega
  rcases h with ⟨hm, hw, hfirst, hrun⟩
  have hc' : c = b.lastStart - m + 32 := by
    rw [hc, Nat.mod_eq_of_lt (by omega)]
  have htail : RunAt (b.hits false) (m + (b.lastStart - m)) 32 := by
    rw [show m + (b.lastStart - m) = 32 * b.lastIndex by rw [RtlBitMap.lastStart] at hm ⊢; omega]
    exact runAt_of_word hlast hw
  refine ⟨hfirst, by omega, by omega, ?_, Or.inl (by omega)⟩
  rw [hc']
  exact hrun.append htail

theorem countsWholeRun_iff {b : RtlBitMap} {a : Ulong} (ha : a.toNat < b.sizeOfBitMap.toNat) :
    CountsWholeRun b a ↔ ¬ OverrunsFrom b a.toNat := by
  have hS : 1 ≤ b.sizeOfBitMap.toNat := by omega
  have hlast := lastStart_lt hS
  have hpow := lastIndex_lt_pow b
  have hstart : b.lastStart = 32 * b.lastIndex := rfl
  rcases rtlFindNextForwardRunClear_spec ha with ⟨c, s, hcall, hout⟩
  constructor
  · rintro ⟨c', s', hcall', hcounts⟩ ⟨hpart, ⟨m, htail⟩, hwraps⟩
    rw [hcall] at hcall'
    injection hcall' with hpair
    injection hpair with hc hs
    rw [← hc, ← hs] at hcounts
    rcases hout with ⟨htail', hcount⟩ | ⟨hnone, -⟩
    · have hlt := htail'.1
      have hc0 : c ≠ 0 := by
        rintro rfl
        exact hwraps ((htail'.count_eq_zero_iff hS).1 hcount.symm)
      have hle := (hcounts hc0).1
      -- the count does not wrap, and its end is the end of the last word
      have hnz : (b.lastStart - s.toNat + 32) % 2 ^ 32 ≠ 0 := fun h =>
        hwraps ((htail'.count_eq_zero_iff hS).1 h)
      omega
    · exact hnone ⟨m, htail⟩
  · intro hok
    rcases hout with ⟨htail, hcount⟩ | ⟨-, ⟨hc, -⟩ | hnext⟩
    · by_cases hpart : b.sizeOfBitMap.toNat % 32 = 0
      · exact countsWholeRun_of_nextRun hcall (htail.nextRun hS hpart hcount)
      · -- the run is not reported at all
        have hwraps : WholeWraps b a.toNat := by
          by_contra hwraps
          exact hok ⟨hpart, ⟨_, htail⟩, hwraps⟩
        refine ⟨c, s, hcall, fun hc => absurd ?_ hc⟩
        rw [(htail.count_eq_zero_iff hS).2 hwraps] at hcount
        exact UInt32.toNat_inj.1 hcount
    · exact ⟨c, s, hcall, fun hne => absurd hc hne⟩
    · exact countsWholeRun_of_nextRun hcall hnext

/-! ## Counting the set bits -/

/-- The bit loop adds the hits among the bits it looks at. -/
theorem addSetBits_toNat {f : ℕ → Bool} {w : Ulong} {i : ℕ} (s k : ℕ) (hk : s + k ≤ 32)
    (hwrap : 32 * i + (s + k) < 2 ^ 32)
    (hf : ∀ j, s ≤ j → j < s + k → f (32 * i + j) = wordBit w j) (n : Ulong)
    (hn : n.toNat = hitCount f (32 * i + s)) :
    (addSetBits w ((List.range' s k).map UInt32.ofNat) n).toNat =
      hitCount f (32 * i + (s + k)) := by
  induction k generalizing s n with
  | zero => exact hn
  | succ k ih =>
    have hs : (UInt32.ofNat s).toNat = s := toNat_ofNat_lt (by omega)
    have htest : ((w &&& bitMask (UInt32.ofNat s)) != 0) = f (32 * i + s) := by
      rw [and_bitMask_bne_zero, hs, Nat.mod_eq_of_lt (by omega), hf s (le_refl s) (by omega)]
    have hle := hitCount_le (f := f) (32 * i + s)
    have hsucc : hitCount f (32 * i + (s + 1)) = hitCount f (32 * i + s) +
        (f (32 * i + s)).toNat := hitCount_succ (32 * i + s)
    rw [List.range'_succ, List.map_cons, addSetBits, List.foldl_cons, htest]
    rw [show 32 * i + (s + (k + 1)) = 32 * i + (s + 1 + k) by omega]
    refine ih (s + 1) (by omega) (by omega) (fun j hj hj' => hf j (by omega) (by omega)) _ ?_
    rw [hsucc]
    cases hit : f (32 * i + s) with
    | true =>
      rw [if_pos rfl, toNat_add_of_lt (by rw [UInt32.toNat_one]; omega), hn]
      rfl
    | false =>
      rw [if_neg (by simp), hn]
      rfl

/-- The elements before the last one, with the shortcut for whole ones. -/
theorem addElements_toNat {b : RtlBitMap} (i k : ℕ) (hk : i + k ≤ b.lastIndex)
    (hS : 1 ≤ b.sizeOfBitMap.toNat) (n : Ulong)
    (hn : n.toNat = hitCount (b.hits true) (32 * i)) :
    ∃ n', addElements ((List.range' i k).map UInt32.ofNat) n b = .ok n' b ∧
      n'.toNat = hitCount (b.hits true) (32 * (i + k)) := by
  induction k generalizing i n with
  | zero => exact ⟨n, rfl, hn⟩
  | succ k ih =>
    have hlast := lastIndex_lt hS
    have hpow := lastIndex_lt_pow b
    have hi : (UInt32.ofNat i).toNat = i := toNat_ofNat_lt (by omega)
    have hword := getWord_ofNat hS (show i ≤ b.lastIndex by omega)
    have hle := hitCount_le (f := b.hits true) (32 * i)
    rw [List.range'_succ, List.map_cons, addElements, bind_ok hword]
    rw [show 32 * (i + (k + 1)) = 32 * (i + 1 + k) by omega]
    by_cases hw : allBitsSet = b.word i
    · rw [if_pos hw]
      refine ih (i + 1) (by omega) _ ?_
      have hrun : RunAt (b.hits true) (32 * i) 32 := runAt_of_word (by omega) hw.symm
      have h32 : bitsPerArray.toNat = 32 := rfl
      rw [show 32 * (i + 1) = 32 * i + 32 by omega, hitCount_run hrun,
        toNat_add_of_lt (by omega), hn, h32]
    · rw [if_neg hw]
      refine ih (i + 1) (by omega) _ ?_
      exact addSetBits_toNat (i := i) 0 32 (by omega) (by omega)
        (fun j _ hj => hits_true_word (by omega) (by omega)) n hn

/-- `RtlNumberOfSetBits` counts the set bits of the bitmap. -/
theorem rtlNumberOfSetBits_spec {b : RtlBitMap} (hS : 1 ≤ b.sizeOfBitMap.toNat) :
    ∃ n, rtlNumberOfSetBits b = .ok n b ∧
      n.toNat = hitCount (b.hits true) b.sizeOfBitMap.toNat := by
  have hlast := lastIndex_lt hS
  have hsize := ulong_lt b.sizeOfBitMap
  have hli := toNat_lastBufferIndex hS
  have hlp := toNat_lastBitPosition hS
  have hend : 32 * b.lastIndex + ((b.sizeOfBitMap.toNat - 1) % 32 + 1) =
      b.sizeOfBitMap.toNat := by
    rw [RtlBitMap.lastIndex]
    omega
  have hlword : getWord (calculateLastBufferIndex (b.sizeOfBitMap - 1)) b =
      .ok (b.word b.lastIndex) b := by
    rw [getWord_ok (by omega), hli]
  obtain ⟨n, hrun, hn⟩ := addElements_toNat 0 b.lastIndex (by omega) hS 0 rfl
  have hrange : ulongsBelow 0 (calculateLastBufferIndex (b.sizeOfBitMap - 1)) =
      (List.range' 0 b.lastIndex).map UInt32.ofNat := by
    rw [ulongsBelow, hli]
    rfl
  rw [← hrange] at hrun
  rw [rtlNumberOfSetBits, get_bind, bind_ok hrun, bind_ok hlword, ulongsTo, hlp]
  refine ⟨_, rfl, ?_⟩
  have hadd := addSetBits_toNat (f := b.hits true) (i := b.lastIndex) 0
    ((b.sizeOfBitMap.toNat - 1) % 32 + 1) (by omega) (by omega)
    (fun j _ hj => hits_true_word hlast (by omega)) n (by rw [hn, Nat.zero_add]; rfl)
  rwa [Nat.zero_add, hend] at hadd

/-- The clear and the set bits make up the bitmap. -/
theorem hitCount_clear_add_set (b : RtlBitMap) :
    hitCount (b.hits false) b.sizeOfBitMap.toNat + hitCount (b.hits true) b.sizeOfBitMap.toNat =
      b.sizeOfBitMap.toNat := by
  have hset : hitCount (b.hits true) b.sizeOfBitMap.toNat =
      hitCount (fun i => !b.hits false i) b.sizeOfBitMap.toNat := by
    refine hitCount_congr fun i hi => ?_
    rw [hits_of_lt hi, hits_of_lt hi]
    cases b.bit i <;> rfl
  rw [hset]
  exact hitCount_not b.sizeOfBitMap.toNat

/-! ## Walking from run to run -/

/-- A caller that takes one run after the other, each with `FromIndex` at the end of
the run before, until no bit or no run is left. -/
inductive Iterates (b : RtlBitMap) : Ulong → List (ℕ × ℕ) → Prop
  | atEnd {a : Ulong} : b.sizeOfBitMap.toNat ≤ a.toNat → Iterates b a []
  | noRun {a s : Ulong} : rtlFindNextForwardRunClear a b = .ok (0, s) b → Iterates b a []
  | run {a c s : Ulong} {runs : List (ℕ × ℕ)} :
      rtlFindNextForwardRunClear a b = .ok (c, s) b → c ≠ 0 → Iterates b (s + c) runs →
      Iterates b a ((s.toNat, c.toNat) :: runs)

/-- The walk from bit 0 comes to an end, lists the maximal clear runs in order, and
their lengths and `RtlNumberOfSetBits` make up the bitmap. -/
def WalksRuns (b : RtlBitMap) : Prop :=
  ∃ runs n, Iterates b 0 runs ∧ Enumerates (b.hits false) b.sizeOfBitMap.toNat runs ∧
    rtlNumberOfSetBits b = .ok n b ∧
    (runs.map Prod.snd).sum + n.toNat = b.sizeOfBitMap.toNat

/-- The last element is partial and zero as a whole, and a clear run reaches it. -/
def PartialTail (b : RtlBitMap) : Prop :=
  b.sizeOfBitMap.toNat % 32 ≠ 0 ∧ 0 < b.lastIndex ∧ b.word b.lastIndex = 0 ∧
  TestsAs b false (b.lastStart - 1)

/-- Every run of a walk is what some call returned. -/
theorem Iterates.mem {b : RtlBitMap} {a : Ulong} {runs : List (ℕ × ℕ)} (h : Iterates b a runs)
    {r : ℕ × ℕ} (hr : r ∈ runs) :
    ∃ a' c s, rtlFindNextForwardRunClear a' b = .ok (c, s) b ∧ r = (s.toNat, c.toNat) := by
  induction h with
  | atEnd _ => simp at hr
  | noRun _ => simp at hr
  | @run a c s runs hcall _ _ ih =>
    rcases List.mem_cons.1 hr with heq | htail
    · exact ⟨a, c, s, hcall, heq⟩
    · exact ih htail

/-- A call that returns was made inside the bitmap. -/
theorem lt_of_call {b : RtlBitMap} {a c s : Ulong}
    (h : rtlFindNextForwardRunClear a b = .ok (c, s) b) : a.toNat < b.sizeOfBitMap.toNat := by
  by_contra hge
  have hassert : ddkAssert (decide (a < b.sizeOfBitMap)) b = .error .assertion b :=
    ddkAssert_false (by simpa [UInt32.lt_iff_toNat_lt] using hge) b
  rw [rtlFindNextForwardRunClear, get_bind, bind_error hassert] at h
  cases h

/-- A tail run in a partial element makes the tail partial. -/
theorem TailRun.partialTail {b : RtlBitMap} {a m : ℕ} (h : TailRun b a m)
    (hpart : b.sizeOfBitMap.toNat % 32 ≠ 0) (hS : 1 ≤ b.sizeOfBitMap.toNat) :
    PartialTail b := by
  have hlast := lastStart_lt hS
  have hstart : b.lastStart = 32 * b.lastIndex := rfl
  rcases h with ⟨hm, hw, -, hrun⟩
  refine ⟨hpart, by omega, hw, (testsAs_iff (by omega)).2 ?_⟩
  exact hrun (b.lastStart - 1) (by omega) (by omega)

/-- Without a partial tail the caller's walk is the walk of the sequence. -/
theorem exists_walk {b : RtlBitMap} (hS : 1 ≤ b.sizeOfBitMap.toNat) (hok : ¬ PartialTail b)
    (k : ℕ) (a : Ulong) (hk : b.sizeOfBitMap.toNat - a.toNat ≤ k) :
    ∃ runs, Iterates b a runs ∧
      Walk (b.hits false) b.sizeOfBitMap.toNat a.toNat runs := by
  induction k generalizing a with
  | zero => exact ⟨[], Iterates.atEnd (by omega), Walk.done fun i hi hi' => by omega⟩
  | succ k ih =>
    by_cases ha : a.toNat < b.sizeOfBitMap.toNat
    swap
    · exact ⟨[], Iterates.atEnd (by omega), Walk.done fun i hi hi' => by omega⟩
    rcases rtlFindNextForwardRunClear_spec ha with ⟨c, s, hcall, hout⟩
    -- a run that was found is the next one, and the walk goes on behind it
    have hstep : NextRun (b.hits false) b.sizeOfBitMap.toNat a.toNat s.toNat c.toNat →
        ∃ runs, Iterates b a runs ∧
          Walk (b.hits false) b.sizeOfBitMap.toNat a.toNat runs := by
      intro hnext
      have hsize := ulong_lt b.sizeOfBitMap
      have hinside := hnext.inside
      have hpos := hnext.pos
      have hfirst := hnext.first.1
      have hsum : (s + c).toNat = s.toNat + c.toNat := toNat_add_of_lt (by omega)
      rcases ih (s + c) (by omega) with ⟨runs, hiter, hwalk⟩
      rw [hsum] at hwalk
      refine ⟨_, Iterates.run hcall ?_ hiter, Walk.next hnext hwalk⟩
      rintro rfl
      simp at hpos
    rcases hout with ⟨htail, hcount⟩ | ⟨-, ⟨hc, hnone⟩ | hnext⟩
    · by_cases hpart : b.sizeOfBitMap.toNat % 32 = 0
      · exact hstep (htail.nextRun hS hpart hcount)
      · exact absurd (htail.partialTail hpart hS) hok
    · rw [hc] at hcall
      exact ⟨[], Iterates.noRun hcall, Walk.done hnone⟩
    · exact hstep hnext

/-- With a partial tail the last maximal run is never reported. -/
theorem PartialTail.not_walks {b : RtlBitMap} (h : PartialTail b) : ¬ WalksRuns b := by
  rcases h with ⟨hpart, hidx, hw, hbit⟩
  have hS : 1 ≤ b.sizeOfBitMap.toNat := by omega
  have hlast := lastStart_lt hS
  have hpow := lastIndex_lt_pow b
  have hstart : b.lastStart = 32 * b.lastIndex := rfl
  have hhit : b.hits false (b.lastStart - 1) = true := (testsAs_iff (by omega)).1 hbit
  -- the run that ends with the bitmap
  have htrail := trailing_le (f := b.hits false) 0 b.lastStart
  have hrun := runAt_trailing (f := b.hits false) 0 b.lastStart
  have hgrow := trailing_hit (f := b.hits false) (Nat.zero_le (b.lastStart - 1)) hhit
  rw [show b.lastStart - 1 + 1 = b.lastStart by omega] at hgrow
  have hbefore := trailing_start (f := b.hits false) b.lastStart
  generalize hm : b.lastStart - trailing (b.hits false) 0 b.lastStart = m at hrun hbefore
  rw [show trailing (b.hits false) 0 b.lastStart = b.lastStart - m by omega] at hrun
  have htail : RunAt (b.hits false) (m + (b.lastStart - m))
      (b.sizeOfBitMap.toNat - b.lastStart) := by
    rw [show m + (b.lastStart - m) = 32 * b.lastIndex by omega]
    exact (runAt_of_word (v := false) (lastIndex_lt hS) hw).mono (by omega)
  have hmax : MaximalRun (b.hits false) b.sizeOfBitMap.toNat m (b.sizeOfBitMap.toNat - m) := by
    refine ⟨by omega, by omega, ?_, hbefore, Or.inl (by omega)⟩
    rw [show b.sizeOfBitMap.toNat - m =
      b.lastStart - m + (b.sizeOfBitMap.toNat - b.lastStart) by omega]
    exact hrun.append htail
  rintro ⟨runs, n, hiter, henum, -⟩
  rcases hiter.mem ((henum.2 (m, b.sizeOfBitMap.toNat - m)).2 hmax) with ⟨a, c, s, hcall, heq⟩
  injection heq with hs hc
  rcases rtlFindNextForwardRunClear_spec (lt_of_call hcall) with ⟨c', s', hcall', hout⟩
  rw [hcall] at hcall'
  injection hcall' with hpair
  injection hpair with hc' hs'
  rw [← hc', ← hs'] at hout
  rcases hout with ⟨-, hcount⟩ | ⟨hnone, ⟨hzero, -⟩ | hnext⟩
  · -- the count is that of the whole last element
    omega
  · rw [hzero, UInt32.toNat_zero] at hc
    omega
  · refine hnone ⟨m, by omega, hw, ?_, hrun⟩
    rw [hs]
    exact hnext.first

/-- **Run length.** A reported run is a whole clear run of the bitmap, except when a
partial last element that is zero as a whole is counted as 32 bits; and exactly when
that cannot happen, the walk from bit 0 lists all runs. -/
theorem nextRun_length_iff (b : RtlBitMap) (hS : 1 ≤ b.sizeOfBitMap.toNat) :
    (∀ a : Ulong, a.toNat < b.sizeOfBitMap.toNat →
      (CountsWholeRun b a ↔ ¬ OverrunsFrom b a.toNat)) ∧
    (WalksRuns b ↔ ¬ PartialTail b) := by
  refine ⟨fun a ha => countsWholeRun_iff ha, fun hwalks htail => htail.not_walks hwalks, ?_⟩
  intro hok
  rcases exists_walk hS hok b.sizeOfBitMap.toNat 0 (by omega) with ⟨runs, hiter, hwalk⟩
  rcases rtlNumberOfSetBits_spec hS with ⟨n, hcount, hn⟩
  refine ⟨runs, n, hiter, hwalk.enumerates, hcount, ?_⟩
  have hsum : 0 + (runs.map Prod.snd).sum = hitCount (b.hits false) b.sizeOfBitMap.toNat :=
    hwalk.sum_eq (Nat.zero_le _)
  have hall := hitCount_clear_add_set b
  omega

/-- The first run of `threeRuns` is counted whole, and the walk lists all three. -/
theorem nextRun_length_threeRuns : CountsWholeRun threeRuns 0 ∧ WalksRuns threeRuns := by
  constructor
  · refine ((nextRun_length_iff threeRuns (by decide)).1 0 (by decide)).2 ?_
    rintro ⟨-, ⟨m, hm, -, hfirst, hrun⟩, -⟩
    have hle : m ≤ 8 := by
      by_contra hlt
      exact absurd (hfirst.2.2 0 (by decide) (by omega)) (by decide)
    -- bit 8 is set, and a run that reaches the last element passes it
    have hstart : threeRuns.lastStart = 32 := by decide
    exact absurd (hrun 8 hle (by omega)) (by decide)
  · refine (nextRun_length_iff threeRuns (by decide)).2.2 ?_
    rintro ⟨-, -, -, hclear⟩
    exact absurd ((testsAs_iff (by decide)).1 hclear) (by decide)

/-- In forty clear bits a run of 64 is reported. -/
def fortyClear : RtlBitMap := ⟨40, [0, 0], by decide⟩

theorem nextRun_length_overruns :
    ¬ ∀ (b : RtlBitMap) (a : Ulong), 1 ≤ b.sizeOfBitMap.toNat →
      a.toNat < b.sizeOfBitMap.toNat → CountsWholeRun b a := by
  intro hall
  rcases hall fortyClear 0 (by decide) (by decide) with ⟨c, s, hcall, hcounts⟩
  have hres : rtlFindNextForwardRunClear 0 fortyClear = .ok (64, 0) fortyClear := rfl
  rw [hres] at hcall
  injection hcall with hpair
  injection hpair with hc hs
  rw [← hc, ← hs] at hcounts
  exact absurd (hcounts (by decide)).1 (by decide)

end Wdutf.Bitmap
