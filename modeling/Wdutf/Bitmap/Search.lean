import Mathlib.Data.List.Basic
import Mathlib.Tactic.Common
import Wdutf.Lib.Runs
import Wdutf.Bitmap.Duality

/-!
# Wdutf.Bitmap.Search — what the run search finds

`RtlFindClearBits` against the runs of the bitmap, by following the variables
it passes by reference: between two elements they hold the trailing run of
`Wdutf.Lib.Runs` (`Tracks`). The scan of an element keeps that up exactly
(`numClearBitsFound_scanned`), with one exception: when a run is under way and
the element is zero as a whole, 32 is added to the count even if the element
is the partial last one, and the sum is taken modulo `2 ^ 32`.

* `searchPass_outcome` — what one pass finds;
* `rtlFindClearBits_spec` — the result of both passes;
* `rtlFindSetBits_spec` — the set half, by duality with the clear half.
-/

namespace Wdutf.Bitmap

open Wdutf.Runs Wdutf.Action

/-- The bits the search for value `v` looks for. -/
def RtlBitMap.hits (b : RtlBitMap) (v : Bool) (i : ℕ) : Bool :=
  decide (i / 32 < b.wordCount) && (b.bit i == v)

theorem hits_of_lt {b : RtlBitMap} {v : Bool} {i : ℕ} (h : i < b.sizeOfBitMap.toNat) :
    b.hits v i = (b.bit i == v) := by
  simp [RtlBitMap.hits, bit_lt_wordCount h]

/-- The set bits are the clear bits of the complement. -/
theorem hits_comp (b : RtlBitMap) : b.comp.hits false = b.hits true := by
  funext i
  by_cases h : i / 32 < b.wordCount
  · cases hbit : b.bit i <;> simp [RtlBitMap.hits, h, comp_bit h, hbit]
  · simp [RtlBitMap.hits, h]

/-- The hits inside word `i`. -/
theorem hits_word {b : RtlBitMap} {v : Bool} {i j : ℕ} (hi : i < b.wordCount) (hj : j < 32) :
    b.hits v (32 * i + j) = (wordBit (b.word i) j == v) := by
  have hdiv : (32 * i + j) / 32 = i := by omega
  have hmod : (32 * i + j) % 32 = j := by omega
  simp [RtlBitMap.hits, RtlBitMap.bit, hdiv, hmod, hi]

theorem hits_false_word {b : RtlBitMap} {i j : ℕ} (hi : i < b.wordCount) (hj : j < 32) :
    b.hits false (32 * i + j) = !wordBit (b.word i) j := by
  rw [hits_word hi hj, beq_false]

theorem hits_true_word {b : RtlBitMap} {i j : ℕ} (hi : i < b.wordCount) (hj : j < 32) :
    b.hits true (32 * i + j) = wordBit (b.word i) j := by
  rw [hits_word hi hj, beq_true]

/-! ## Scanning one element -/

/-- The variables of a search that started at `a` and stands at `p`. -/
structure Tracks (f : ℕ → Bool) (a p : ℕ) (r : Run) : Prop where
  started : r.runStarted = decide (0 < trailing f a p)
  count : r.runCount.toNat = trailing f a p
  start : 0 < trailing f a p → r.startBit.toNat = p - trailing f a p

/-- A scan up to `q` reports the first run, or that there is none so far. -/
def Scanned (f : ℕ → Bool) (a q n : ℕ) (res : Bool × Run) : Prop :=
  (res.1 = true → FirstRun f a q n res.2.startBit.toNat) ∧
  (res.1 = false → NoRun f a q n ∧ Tracks f a q res.2)

theorem tracks_start (f : ℕ → Bool) (a : ℕ) (startBit : Ulong) :
    Tracks f a a ⟨false, startBit, 0⟩ := by
  have h : trailing f a a = 0 := trailing_of_le (le_refl a)
  exact ⟨by simp [h], by simp [h], by simp [h]⟩

/-- The bit loop follows the trailing run bit by bit. -/
theorem scanBits_scanned {f : ℕ → Bool} {a : ℕ} {w i n : Ulong} (hn : 1 ≤ n.toNat)
    (hi : i.toNat < 2 ^ 27) (s k : ℕ) (hk : s + k ≤ 32)
    (hf : ∀ j, s ≤ j → j < s + k → f (32 * i.toNat + j) = !wordBit w j)
    (ha : a ≤ 32 * i.toNat + s) (r : Run) (hno : NoRun f a (32 * i.toNat + s) n.toNat)
    (ht : Tracks f a (32 * i.toNat + s) r) :
    Scanned f a (32 * i.toNat + (s + k)) n.toNat
      (scanBits (fun bitSet => bitSet == 0) w i n ((List.range' s k).map UInt32.ofNat) r) := by
  induction k generalizing s r with
  | zero => exact ⟨by simp [scanBits], fun _ => ⟨hno, ht⟩⟩
  | succ k ih =>
    have hs : (UInt32.ofNat s).toNat = s := toNat_ofNat_lt (by omega)
    have hlt := trailing_lt ha hno
    have hnlt := ulong_lt n
    have hend : 32 * i.toNat + (s + (k + 1)) = 32 * i.toNat + (s + 1 + k) := by omega
    have hnext : ∀ j, s + 1 ≤ j → j < s + 1 + k → f (32 * i.toNat + j) = !wordBit w j :=
      fun j hj hj' => hf j (by omega) (by omega)
    have hbit : f (32 * i.toNat + s) = !wordBit w s := hf s (le_refl s) (by omega)
    have htest : ((w &&& bitMask (UInt32.ofNat s)) == 0) = f (32 * i.toNat + s) := by
      rw [ofNat_bit_clear w (by omega), hbit]
    rw [List.range'_succ, List.map_cons, scanBits, htest, hend]
    by_cases hit : f (32 * i.toNat + s) = true
    · -- a hit: the trailing run grows by one
      rw [if_pos hit]
      have hgrow : trailing f a (32 * i.toNat + (s + 1)) = trailing f a (32 * i.toNat + s) + 1 :=
        trailing_hit ha hit
      have hcount : (r.runCount + 1).toNat = trailing f a (32 * i.toNat + s) + 1 := by
        rw [toNat_add_of_lt (by rw [ht.count, UInt32.toNat_one]; omega), ht.count, UInt32.toNat_one]
      have hstart : (if r.runStarted then r.startBit
          else calculateBitNumberInBitMap i (UInt32.ofNat s)).toNat =
          32 * i.toNat + s - trailing f a (32 * i.toNat + s) := by
        by_cases hpos : 0 < trailing f a (32 * i.toNat + s)
        · rw [ht.started, decide_eq_true hpos, if_pos rfl, ht.start hpos]
        · rw [ht.started, decide_eq_false hpos, if_neg (by simp),
            toNat_calculateBitNumberInBitMap (by omega), hs]
          omega
      have htracks : Tracks f a (32 * i.toNat + (s + 1)) ⟨true, if r.runStarted then r.startBit
          else calculateBitNumberInBitMap i (UInt32.ofNat s), r.runCount + 1⟩ := by
        refine ⟨by simp [hgrow], by rw [hcount, hgrow], fun _ => ?_⟩
        rw [hstart, hgrow]
        omega
      by_cases hfound : r.runCount + 1 ≥ n
      · -- enough hits: the start of the trailing run is the answer
        have hle : n.toNat ≤ trailing f a (32 * i.toNat + s) + 1 := by
          rw [← hcount]
          exact UInt32.le_iff_toNat_le.1 hfound
        simp only [ge_iff_le, hfound, if_true]
        refine ⟨fun _ => ?_, by simp⟩
        rw [hstart]
        refine firstRun_of_trailing ha hno (k := 1) ?_ hle ?_
        · intro j hj hj'
          rw [show j = 32 * i.toNat + s by omega]
          exact hit
        · have := trailing_le (f := f) a (32 * i.toNat + s)
          omega
      · simp only [ge_iff_le, hfound, if_false]
        refine ih (s + 1) (by omega) hnext (by omega) _ (noRun_succ hn hno ?_) htracks
        have : ¬ n.toNat ≤ (r.runCount + 1).toNat := fun h => hfound (UInt32.le_iff_toNat_le.2 h)
        show trailing f a (32 * i.toNat + (s + 1)) < n.toNat
        omega
    · -- a miss: the search starts over
      rw [if_neg hit]
      have hzero : trailing f a (32 * i.toNat + (s + 1)) = 0 := trailing_miss (by simpa using hit)
      refine ih (s + 1) (by omega) hnext (by omega) _ (noRun_succ hn hno ?_) ?_
      · show trailing f a (32 * i.toNat + (s + 1)) < n.toNat
        omega
      · exact ⟨by simp [hzero], by simp [hzero], by simp [hzero]⟩

/-- The whole-element path of the scanner when the `k` bits it stands for are
hits and the count does not wrap. -/
theorem scanned_of_runAt {f : ℕ → Bool} {a p k : ℕ} {n count start : Ulong} (hn : 1 ≤ n.toNat)
    (ha : a ≤ p) (hk : 0 < k) (hno : NoRun f a p n.toNat) (hrun : RunAt f p k)
    (hcount : count.toNat = trailing f a p + k)
    (hstart : start.toNat = p - trailing f a p) :
    Scanned f a (p + k) n.toNat (decide (count ≥ n), ⟨true, start, count⟩) := by
  have hadd : trailing f a (p + k) = trailing f a p + k := trailing_add ha hrun
  have hle := trailing_le (f := f) a p
  have hge : count ≥ n ↔ n.toNat ≤ trailing f a p + k := by
    rw [← hcount]
    exact UInt32.le_iff_toNat_le
  constructor
  · intro hfound
    have hn' : n.toNat ≤ trailing f a p + k := hge.1 (by simpa using hfound)
    show FirstRun f a (p + k) n.toNat start.toNat
    rw [hstart]
    exact firstRun_of_trailing ha hno hrun hn' (by omega)
  · intro hfound
    have hn' : ¬ n.toNat ≤ trailing f a p + k := fun h => by simp [hge.2 h] at hfound
    refine ⟨noRun_add ha hn hno hrun (by omega), ?_, ?_, ?_⟩
    · rw [hadd]
      exact (decide_eq_true (by omega)).symm
    · rw [hadd]
      exact hcount
    · intro _
      rw [hadd]
      show start.toNat = _
      omega

/-- The scan of an element is exact unless it adds 32 to a run under way for
an element that does not stand for 32 further bits. -/
theorem numClearBitsFound_scanned {f : ℕ → Bool} {a : ℕ} {w i n s e : Ulong} (hn : 1 ≤ n.toNat)
    (hi : i.toNat < 2 ^ 27) (hse : s.toNat ≤ e.toNat) (he : e.toNat ≤ 31)
    (hf : ∀ j, s.toNat ≤ j → j ≤ e.toNat → f (32 * i.toNat + j) = !wordBit w j)
    (ha : a ≤ 32 * i.toNat + s.toNat) {r : Run}
    (hno : NoRun f a (32 * i.toNat + s.toNat) n.toNat)
    (ht : Tracks f a (32 * i.toNat + s.toNat) r)
    (hexact : w = 0 → 0 < trailing f a (32 * i.toNat + s.toNat) →
      s.toNat = 0 ∧ e.toNat = 31 ∧ trailing f a (32 * i.toNat) + 32 < 2 ^ 32) :
    Scanned f a (32 * i.toNat + (e.toNat + 1)) n.toNat (numClearBitsFound w i n s e r) := by
  have hlen : s.toNat + (e.toNat + 1 - s.toNat) = e.toNat + 1 := by omega
  have hend : 32 * i.toNat + (e.toNat + 1) =
      32 * i.toNat + s.toNat + (e.toNat + 1 - s.toNat) := by omega
  rw [numClearBitsFound]
  by_cases hw : w = 0
  · -- all bits of the element are hits
    have hrun : RunAt f (32 * i.toNat + s.toNat) (e.toNat + 1 - s.toNat) := by
      intro j hj hj'
      have hfj := hf (j - 32 * i.toNat) (by omega) (by omega)
      rw [hw, wordBit_zero, show 32 * i.toNat + (j - 32 * i.toNat) = j by omega] at hfj
      simpa using hfj
    by_cases hpos : 0 < trailing f a (32 * i.toNat + s.toNat)
    · -- a run is under way: the element is a whole one
      rcases hexact hw hpos with ⟨hs0, he31, hwrap⟩
      have hstarted : r.runStarted = true := by rw [ht.started, decide_eq_true hpos]
      rw [if_neg (by simp [hstarted]), if_pos ⟨hw, hstarted⟩]
      rw [hs0, Nat.add_zero] at hend hrun hno ht hpos
      rw [he31] at hend hrun ⊢
      rw [hs0, Nat.add_zero] at ha
      have hcount : (r.runCount + bitsPerArray).toNat = trailing f a (32 * i.toNat) + 32 := by
        have h32 : bitsPerArray.toNat = 32 := rfl
        rw [toNat_add_of_lt (by rw [ht.count, h32]; omega), ht.count, h32]
      have hr : ({ r with runCount := r.runCount + bitsPerArray } : Run) =
          ⟨true, r.startBit, r.runCount + bitsPerArray⟩ := by rw [hstarted]
      simp only [hr]
      exact scanned_of_runAt hn ha (by omega) hno hrun hcount (ht.start hpos)
    · -- no run under way: the first bit of the element starts one
      have hzero : trailing f a (32 * i.toNat + s.toNat) = 0 := by omega
      have hstarted : r.runStarted = false := by rw [ht.started, decide_eq_false hpos]
      rw [if_pos ⟨hw, hstarted⟩, hend]
      have hsub : (e - s + 1).toNat = e.toNat + 1 - s.toNat := by
        have := ulong_lt e
        rw [UInt32.toNat_add, UInt32.toNat_sub, UInt32.toNat_one]
        omega
      have hcount : (r.runCount + (e - s + 1)).toNat =
          trailing f a (32 * i.toNat + s.toNat) + (e.toNat + 1 - s.toNat) := by
        rw [toNat_add_of_lt (by rw [ht.count, hsub]; omega), ht.count, hsub]
      have hstart : (calculateBitNumberInBitMap i s).toNat =
          32 * i.toNat + s.toNat - trailing f a (32 * i.toNat + s.toNat) := by
        rw [toNat_calculateBitNumberInBitMap (by omega), hzero]
        rfl
      exact scanned_of_runAt hn ha (by omega) hno hrun hcount hstart
  · rw [if_neg (by simp [hw]), if_neg (by simp [hw]), ulongsTo]
    have h := scanBits_scanned hn hi s.toNat (e.toNat + 1 - s.toNat) (by omega)
      (fun j hj hj' => hf j hj (by omega)) ha r hno ht
    rwa [hlen] at h

/-- The scan of a zero element with a run under way: 32 more bits, whatever
the last position is. -/
theorem numClearBitsFound_zero {i n s e : Ulong} {r : Run} (hr : r.runStarted = true) :
    numClearBitsFound 0 i n s e r =
      (decide (r.runCount + 32 ≥ n), { r with runCount := r.runCount + 32 }) := by
  rw [numClearBitsFound, if_neg (by simp [hr]), if_pos ⟨rfl, hr⟩]
  rfl

/-! ## One pass -/

/-- The index of the last element, and the number of its first bit. -/
def RtlBitMap.lastIndex (b : RtlBitMap) : ℕ := (b.sizeOfBitMap.toNat - 1) / 32

def RtlBitMap.lastStart (b : RtlBitMap) : ℕ := 32 * b.lastIndex

theorem lastIndex_lt {b : RtlBitMap} (h : 1 ≤ b.sizeOfBitMap.toNat) :
    b.lastIndex < b.wordCount := by
  rw [RtlBitMap.lastIndex, RtlBitMap.wordCount]
  omega

theorem lastIndex_lt_pow (b : RtlBitMap) : b.lastIndex < 2 ^ 27 := by
  have := ulong_lt b.sizeOfBitMap
  rw [RtlBitMap.lastIndex]
  omega

/-- An element of a loop over the elements. -/
theorem getWord_ofNat {b : RtlBitMap} (h : 1 ≤ b.sizeOfBitMap.toNat) {i : ℕ}
    (hi : i ≤ b.lastIndex) : getWord (UInt32.ofNat i) b = .ok (b.word i) b := by
  have hlast := lastIndex_lt h
  have hpow := lastIndex_lt_pow b
  have hnat : (UInt32.ofNat i).toNat = i := toNat_ofNat_lt (by omega)
  rw [getWord_ok (by omega), hnat]

/-- The source's calculations of the last index and of the last bit position. -/
theorem toNat_lastBufferIndex {b : RtlBitMap} (h : 1 ≤ b.sizeOfBitMap.toNat) :
    (calculateLastBufferIndex (b.sizeOfBitMap - 1)).toNat = b.lastIndex := by
  rw [toNat_calculateLastBufferIndex, toNat_sub_one h, RtlBitMap.lastIndex]

theorem toNat_lastBitPosition {b : RtlBitMap} (h : 1 ≤ b.sizeOfBitMap.toNat) :
    (calculateBitPositionInArrayElement (b.sizeOfBitMap - 1)
      (calculateLastBufferIndex (b.sizeOfBitMap - 1))).toNat =
      (b.sizeOfBitMap.toNat - 1) % 32 := by
  rw [toNat_calculateBitPositionInArrayElement (toNat_calculateLastBufferIndex _),
    toNat_sub_one h]

/-- The elements between the first and the last one of a pass are scanned
exactly: the count cannot wrap below the last element. -/
theorem scanElements_scanned {b : RtlBitMap} {a : ℕ} {n : Ulong} (hn : 1 ≤ n.toNat) (i k : ℕ)
    (hk : i + k ≤ b.lastIndex) (hS : 1 ≤ b.sizeOfBitMap.toNat) (ha : a ≤ 32 * i) (r : Run)
    (hno : NoRun (b.hits false) a (32 * i) n.toNat) (ht : Tracks (b.hits false) a (32 * i) r) :
    ∃ res, scanElements numClearBitsFound n ((List.range' i k).map UInt32.ofNat) r b = .ok res b ∧
      Scanned (b.hits false) a (32 * (i + k)) n.toNat res := by
  induction k generalizing i r with
  | zero => exact ⟨(false, r), rfl, by simp, fun _ => ⟨hno, ht⟩⟩
  | succ k ih =>
    have hlast := lastIndex_lt hS
    have hpow := lastIndex_lt_pow b
    have hi : (UInt32.ofNat i).toNat = i := toNat_ofNat_lt (by omega)
    have hword := getWord_ofNat hS (show i ≤ b.lastIndex by omega)
    have h31 : (bitsPerArray - 1).toNat = 31 := rfl
    have htrail := trailing_le (f := b.hits false) a (32 * i)
    have hscan : Scanned (b.hits false) a (32 * (i + 1)) n.toNat
        (numClearBitsFound (b.word i) (UInt32.ofNat i) n 0 (bitsPerArray - 1) r) := by
      have h := numClearBitsFound_scanned (f := b.hits false) (a := a) (w := b.word i)
        (i := UInt32.ofNat i) (n := n) (s := 0) (e := bitsPerArray - 1) (r := r)
      simp only [hi, h31, UInt32.toNat_zero, Nat.add_zero] at h
      rw [show 32 * (i + 1) = 32 * i + (31 + 1) by omega]
      refine h hn (by omega) (by omega) (by omega) ?_ ha hno ht
        (fun _ _ => ⟨trivial, trivial, by omega⟩)
      intro j _ hj
      exact hits_false_word (by omega) (by omega)
    rw [List.range'_succ, List.map_cons, scanElements, bind_ok hword]
    cases hres : numClearBitsFound (b.word i) (UInt32.ofNat i) n 0 (bitsPerArray - 1) r with
    | mk found r' =>
      rw [hres] at hscan
      cases found with
      | true =>
        refine ⟨(true, r'), rfl, fun _ => ?_, by simp⟩
        exact (hscan.1 rfl).mono (by omega)
      | false =>
        rcases hscan.2 rfl with ⟨hno', ht'⟩
        rw [show 32 * (i + (k + 1)) = 32 * (i + 1 + k) by omega]
        exact ih (i + 1) (by omega) (by omega) r' hno' ht'

/-- A pass from `a` reaches the last element inside a run, and that element is
zero as a whole: the case in which the scan is not exact. -/
def ZeroTail (b : RtlBitMap) (v : Bool) (n a : ℕ) : Prop :=
  a < b.lastStart ∧ b.word b.lastIndex = (if v then allBitsSet else 0) ∧
  0 < trailing (b.hits v) a b.lastStart ∧ NoRun (b.hits v) a b.lastStart n

/-- What a pass from `a` returns when it finds something. -/
def PassFinds (b : RtlBitMap) (v : Bool) (n a s : ℕ) : Prop :=
  (ZeroTail b v n a ∧ n ≤ (trailing (b.hits v) a b.lastStart + 32) % 2 ^ 32 ∧
    s = b.lastStart - trailing (b.hits v) a b.lastStart) ∨
  (¬ ZeroTail b v n a ∧ FirstRun (b.hits v) a b.sizeOfBitMap.toNat n s)

/-- When a pass from `a` finds nothing. -/
def PassFails (b : RtlBitMap) (v : Bool) (n a : ℕ) : Prop :=
  (ZeroTail b v n a ∧ (trailing (b.hits v) a b.lastStart + 32) % 2 ^ 32 < n) ∨
  (¬ ZeroTail b v n a ∧ NoRun (b.hits v) a b.sizeOfBitMap.toNat n)

/-- The outcome of a pass, from its `found` flag and its variables. -/
def PassOutcome (b : RtlBitMap) (v : Bool) (n a : ℕ) (res : Bool × Run) : Prop :=
  (res.1 = true → PassFinds b v n a res.2.startBit.toNat) ∧ (res.1 = false → PassFails b v n a)

/-- A run found before the last element rules out the inexact case. -/
theorem passFinds_of_firstRun {b : RtlBitMap} {v : Bool} {n a e s : ℕ}
    (h : FirstRun (b.hits v) a e n s) (he : e ≤ b.lastStart)
    (hS : 1 ≤ b.sizeOfBitMap.toNat) : PassFinds b v n a s := by
  have hlast : b.lastStart ≤ b.sizeOfBitMap.toNat := by
    rw [RtlBitMap.lastStart, RtlBitMap.lastIndex]
    omega
  refine Or.inr ⟨fun hz => ?_, h.mono (by omega)⟩
  exact (h.mono he).not_noRun hz.2.2.2

/-- The scan of the last element, which a pass enters with nothing found. -/
theorem lastElement_outcome {b : RtlBitMap} {a : ℕ} {n li lp : Ulong} (hn : 1 ≤ n.toNat)
    (hS : 1 ≤ b.sizeOfBitMap.toNat) (hli : li.toNat = b.lastIndex)
    (hlp : lp.toNat = (b.sizeOfBitMap.toNat - 1) % 32) (ha : a < b.lastStart) {r : Run}
    (hno : NoRun (b.hits false) a b.lastStart n.toNat)
    (ht : Tracks (b.hits false) a b.lastStart r) :
    PassOutcome b false n.toNat a (numClearBitsFound (b.word b.lastIndex) li n 0 lp r) := by
  have hpow := lastIndex_lt_pow b
  have hend : b.lastStart + (lp.toNat + 1) = b.sizeOfBitMap.toNat := by
    rw [hlp, RtlBitMap.lastStart, RtlBitMap.lastIndex]
    omega
  by_cases hz : ZeroTail b false n.toNat a
  · have hw : b.word b.lastIndex = 0 := hz.2.1
    have hpos := hz.2.2.1
    have hstarted : r.runStarted = true := by rw [ht.started, decide_eq_true hpos]
    have hcount : (r.runCount + 32).toNat =
        (trailing (b.hits false) a b.lastStart + 32) % 2 ^ 32 := by
      rw [UInt32.toNat_add, ht.count]
      rfl
    have hge : r.runCount + 32 ≥ n ↔
        n.toNat ≤ (trailing (b.hits false) a b.lastStart + 32) % 2 ^ 32 := by
      rw [← hcount]
      exact UInt32.le_iff_toNat_le
    rw [hw, numClearBitsFound_zero hstarted]
    constructor
    · intro hfound
      exact Or.inl ⟨hz, hge.1 (by simpa using hfound), ht.start hpos⟩
    · intro hfound
      refine Or.inl ⟨hz, ?_⟩
      by_contra hle
      simp [hge.2 (by omega)] at hfound
  · have hscan : Scanned (b.hits false) a b.sizeOfBitMap.toNat n.toNat
        (numClearBitsFound (b.word b.lastIndex) li n 0 lp r) := by
      have h := numClearBitsFound_scanned (f := b.hits false) (a := a) (w := b.word b.lastIndex)
        (i := li) (n := n) (s := 0) (e := lp) (r := r)
      simp only [hli, UInt32.toNat_zero, Nat.add_zero] at h
      rw [← hend, RtlBitMap.lastStart]
      refine h hn hpow (by omega) (by omega) ?_ ha.le hno ht ?_
      · intro j _ hj
        exact hits_false_word (lastIndex_lt hS) (by omega)
      · intro hw hpos
        exact absurd ⟨ha, hw, hpos, hno⟩ hz
    exact ⟨fun hfound => Or.inr ⟨hz, hscan.1 hfound⟩, fun hfound => Or.inr ⟨hz, (hscan.2 hfound).1⟩⟩

/-- The scan of the element a pass from `a` starts in. No run is under way, so
it is exact. -/
theorem firstElement_scanned {b : RtlBitMap} {a : ℕ} {n si sp e : Ulong} (hn : 1 ≤ n.toNat)
    (hsi : si.toNat ≤ b.lastIndex) (hlast : b.lastIndex < b.wordCount)
    (ha : 32 * si.toNat + sp.toNat = a) (hse : sp.toNat ≤ e.toNat) (he : e.toNat ≤ 31)
    (startBit : Ulong) :
    Scanned (b.hits false) a (32 * si.toNat + (e.toNat + 1)) n.toNat
      (numClearBitsFound (b.word si.toNat) si n sp e ⟨false, startBit, 0⟩) := by
  have hpow := lastIndex_lt_pow b
  have hzero : trailing (b.hits false) a a = 0 := trailing_of_le (le_refl a)
  refine numClearBitsFound_scanned hn (by omega) hse he ?_ (by omega) ?_ ?_ ?_
  · intro j _ hj
    exact hits_false_word (by omega) (by omega)
  · rw [ha]
    exact noRun_self hn
  · rw [ha]
    exact tracks_start (b.hits false) a startBit
  · intro _ hpos
    rw [ha] at hpos
    omega

/-- One pass of the search, from bit `a`. -/
theorem searchPass_outcome {b : RtlBitMap} {a : ℕ} {n si sp li lp : Ulong} (hn : 1 ≤ n.toNat)
    (hS : 1 ≤ b.sizeOfBitMap.toNat) (ha : a < b.sizeOfBitMap.toNat) (hsi : si.toNat = a / 32)
    (hsp : sp.toNat = a % 32) (hli : li.toNat = b.lastIndex)
    (hlp : lp.toNat = (b.sizeOfBitMap.toNat - 1) % 32) (startBit : Ulong) :
    ∃ res, searchPass numClearBitsFound n si sp li lp ⟨false, startBit, 0⟩ b = .ok res b ∧
      PassOutcome b false n.toNat a res := by
  have hlast := lastIndex_lt hS
  have hpow := lastIndex_lt_pow b
  have hle : a / 32 ≤ b.lastIndex := by
    rw [RtlBitMap.lastIndex]
    omega
  have hpos : 32 * si.toNat + sp.toNat = a := by omega
  have hword : getWord si b = .ok (b.word si.toNat) b := getWord_ok (by omega)
  have hlword : getWord li b = .ok (b.word b.lastIndex) b := by
    rw [getWord_ok (by omega), hli]
  rw [searchPass, bind_ok hword]
  by_cases hsame : si = li
  · -- the pass starts in the last element
    have hidx : si.toNat = b.lastIndex := by rw [hsame, hli]
    rw [if_pos hsame]
    refine ⟨_, rfl, ?_⟩
    have hscan := firstElement_scanned (e := lp) hn (by omega) hlast hpos
      (by rw [RtlBitMap.lastIndex] at hidx; omega) (by omega) startBit
    have hend : 32 * si.toNat + (lp.toNat + 1) = b.sizeOfBitMap.toNat := by
      rw [hlp, hidx, RtlBitMap.lastIndex]
      omega
    rw [hend] at hscan
    have hz : ¬ ZeroTail b false n.toNat a := by
      intro hz
      have := hz.1
      rw [RtlBitMap.lastStart] at this
      omega
    exact ⟨fun h => Or.inr ⟨hz, hscan.1 h⟩, fun h => Or.inr ⟨hz, (hscan.2 h).1⟩⟩
  · have hlt : si.toNat < b.lastIndex := by
      have : si.toNat ≠ li.toNat := fun h => hsame (UInt32.toNat_inj.1 h)
      omega
    have h31 : (bitsPerArray - 1).toNat = 31 := rfl
    have hscan := firstElement_scanned (e := bitsPerArray - 1) hn (by omega) hlast hpos
      (by omega) (by omega) startBit
    rw [h31, show 32 * si.toNat + (31 + 1) = 32 * (si.toNat + 1) by omega] at hscan
    rw [if_neg hsame]
    cases hres : numClearBitsFound (b.word si.toNat) si n sp (bitsPerArray - 1)
        ⟨false, startBit, 0⟩ with
    | mk found r =>
      rw [hres] at hscan
      cases found with
      | true =>
        refine ⟨(true, r), rfl, fun _ => ?_, by simp⟩
        exact passFinds_of_firstRun (hscan.1 rfl) (by rw [RtlBitMap.lastStart]; omega) hS
      | false =>
        rcases hscan.2 rfl with ⟨hno1, ht1⟩
        have hone : (si + 1).toNat = si.toNat + 1 := toNat_add_of_lt (by
          rw [UInt32.toNat_one]
          omega)
        obtain ⟨res, hrun, hscan2⟩ := scanElements_scanned hn (si.toNat + 1)
          (b.lastIndex - (si.toNat + 1)) (by omega) hS (by omega) r hno1 ht1
        rw [show si.toNat + 1 + (b.lastIndex - (si.toNat + 1)) = b.lastIndex by omega] at hscan2
        have hrange : ulongsBelow (si + 1) li =
            (List.range' (si.toNat + 1) (b.lastIndex - (si.toNat + 1))).map UInt32.ofNat := by
          rw [ulongsBelow, hone, hli]
        rw [← hrange] at hrun
        show ∃ res, (scanElements numClearBitsFound n (ulongsBelow (si + 1) li) r >>= _) b = _ ∧ _
        rw [bind_ok hrun]
        rcases res with ⟨found2, r2⟩
        cases found2 with
        | true =>
          refine ⟨(true, r2), rfl, fun _ => ?_, by simp⟩
          exact passFinds_of_firstRun (hscan2.1 rfl) (by rw [RtlBitMap.lastStart]) hS
        | false =>
          rcases hscan2.2 rfl with ⟨hno2, ht2⟩
          refine ⟨_, ?_, lastElement_outcome hn hS hli hlp
            (by rw [RtlBitMap.lastStart]; omega) hno2 ht2⟩
          show (getWord li >>= _) b = _
          rw [bind_ok hlword]
          rfl

/-! ## Both passes -/

/-- Where the first pass starts: at the hint if enough bits lie behind it. -/
def firstStart (b : RtlBitMap) (n h : ℕ) : ℕ :=
  if h < b.sizeOfBitMap.toNat ∧ n ≤ b.sizeOfBitMap.toNat - h then h else 0

/-- The result of a search, from its two passes. -/
def FindOutcome (b : RtlBitMap) (v : Bool) (n h : ℕ) (s : Ulong) : Prop :=
  (b.sizeOfBitMap.toNat ≤ n ∧ s = allBitsSet) ∨
  (n < b.sizeOfBitMap.toNat ∧ s ≠ allBitsSet ∧
    (PassFinds b v n (firstStart b n h) s.toNat ∨
      (PassFails b v n (firstStart b n h) ∧ PassFinds b v n 0 s.toNat))) ∨
  (n < b.sizeOfBitMap.toNat ∧ s = allBitsSet ∧
    PassFails b v n (firstStart b n h) ∧ PassFails b v n 0)

/-- A start that a pass returns is a bit number, not `0xFFFFFFFF`. -/
theorem PassFinds.ne_allBitsSet {b : RtlBitMap} {v : Bool} {n a : ℕ} {s : Ulong}
    (h : PassFinds b v n a s.toNat) (hn : 1 ≤ n) : s ≠ allBitsSet := by
  have hpow := lastIndex_lt_pow b
  have hsize := ulong_lt b.sizeOfBitMap
  intro hs
  have hval : s.toNat = 2 ^ 32 - 1 := by
    rw [hs]
    rfl
  rcases h with ⟨hz, -, hstart⟩ | ⟨-, hrun⟩
  · have := hz.2.2.1
    rw [RtlBitMap.lastStart] at hstart
    omega
  · have := hrun.2.1
    omega

section Loop

variable {found : Scanner} {n li lp si sp : Ulong} {k : ℕ} {r r' : Run} {b : RtlBitMap}

theorem searchLoop_found (h : searchPass found n si sp li lp r b = .ok (true, r') b) :
    searchLoop found n li lp (k + 1) si sp r b = .ok r'.startBit b := by
  rw [searchLoop, bind_ok h]
  rfl

theorem searchLoop_again (h : searchPass found n si sp li lp r b = .ok (false, r') b) :
    searchLoop found n li lp (k + 1) si sp r b =
      searchLoop found n li lp k 0 0 ⟨false, r'.startBit, 0⟩ b := by
  rw [searchLoop, bind_ok h]

end Loop

/-- The last turn of the loop, from bit 0. -/
theorem searchLoop_last {b : RtlBitMap} {n li lp : Ulong} (hn : 1 ≤ n.toNat)
    (hS : 1 ≤ b.sizeOfBitMap.toNat) (hli : li.toNat = b.lastIndex)
    (hlp : lp.toNat = (b.sizeOfBitMap.toNat - 1) % 32) (startBit : Ulong) :
    ∃ s, searchLoop numClearBitsFound n li lp 1 0 0 ⟨false, startBit, 0⟩ b = .ok s b ∧
      ((s ≠ allBitsSet ∧ PassFinds b false n.toNat 0 s.toNat) ∨
        (s = allBitsSet ∧ PassFails b false n.toNat 0)) := by
  have hsi : (0 : Ulong).toNat = 0 / 32 := rfl
  have hsp : (0 : Ulong).toNat = 0 % 32 := rfl
  rcases searchPass_outcome hn hS hS hsi hsp hli hlp startBit with ⟨⟨found, r⟩, hpass, hout⟩
  cases found with
  | true =>
    have hfinds := hout.1 rfl
    exact ⟨r.startBit, searchLoop_found hpass, Or.inl ⟨hfinds.ne_allBitsSet hn, hfinds⟩⟩
  | false =>
    refine ⟨allBitsSet, ?_, Or.inr ⟨rfl, hout.2 rfl⟩⟩
    rw [searchLoop_again hpass]
    rfl

/-- `RtlFindClearBits` returns what its two passes find. -/
theorem rtlFindClearBits_spec (b : RtlBitMap) (n h : Ulong) (hn : 1 ≤ n.toNat) :
    ∃ s, rtlFindClearBits n h b = .ok s b ∧ FindOutcome b false n.toNat h.toNat s := by
  rw [rtlFindClearBits, findBits, get_bind]
  by_cases hlt : n.toNat < b.sizeOfBitMap.toNat
  swap
  · -- the guard turns the request down
    refine ⟨allBitsSet, ?_, Or.inl ⟨by omega, rfl⟩⟩
    rw [if_neg (by rwa [UInt32.lt_iff_toNat_lt])]
    rfl
  rw [if_pos (UInt32.lt_iff_toNat_lt.2 hlt)]
  have hS : 1 ≤ b.sizeOfBitMap.toNat := by omega
  have hli := toNat_lastBufferIndex hS
  have hlp := toNat_lastBitPosition hS
  have hguard : (n > b.sizeOfBitMap - h ∨ b.sizeOfBitMap ≤ h) ↔
      ¬ (h.toNat < b.sizeOfBitMap.toNat ∧ n.toNat ≤ b.sizeOfBitMap.toNat - h.toNat) := by
    have hh := ulong_lt h
    have hb := ulong_lt b.sizeOfBitMap
    rw [gt_iff_lt, UInt32.lt_iff_toNat_lt, UInt32.le_iff_toNat_le, UInt32.toNat_sub]
    omega
  by_cases hstart : h.toNat < b.sizeOfBitMap.toNat ∧ n.toNat ≤ b.sizeOfBitMap.toNat - h.toNat
  swap
  · -- one pass, from bit 0
    have hfirst : firstStart b n.toNat h.toNat = 0 := if_neg hstart
    simp only [if_pos (hguard.2 hstart)]
    rcases searchLoop_last hn hS hli hlp allBitsSet with ⟨s, hrun, hs⟩
    refine ⟨s, hrun, Or.inr ?_⟩
    rw [hfirst]
    rcases hs with ⟨hne, hfinds⟩ | ⟨heq, hfails⟩
    · exact Or.inl ⟨hlt, hne, Or.inl hfinds⟩
    · exact Or.inr ⟨hlt, heq, hfails, hfails⟩
  -- a pass from the hint, then one from bit 0
  have hfirst : firstStart b n.toNat h.toNat = h.toNat := if_pos hstart
  simp only [if_neg (fun hg => hguard.1 hg hstart)]
  obtain ⟨⟨found, r⟩, hpass, hout⟩ := searchPass_outcome hn hS hstart.1
    (toNat_calculateArrayIndexFromBitNum h)
    (toNat_calculateBitPositionInArrayElement (toNat_calculateArrayIndexFromBitNum h))
    hli hlp allBitsSet
  cases found with
  | true =>
    have hfinds := hout.1 rfl
    refine ⟨r.startBit, searchLoop_found hpass, Or.inr (Or.inl ?_)⟩
    rw [hfirst]
    exact ⟨hlt, hfinds.ne_allBitsSet hn, Or.inl hfinds⟩
  | false =>
    have hfails := hout.2 rfl
    rcases searchLoop_last hn hS hli hlp r.startBit with ⟨s, hrun, hs⟩
    refine ⟨s, by rw [searchLoop_again hpass, hrun], Or.inr ?_⟩
    rw [hfirst]
    rcases hs with ⟨hne, hfinds⟩ | ⟨heq, hfails0⟩
    · exact Or.inl ⟨hlt, hne, Or.inr ⟨hfails, hfinds⟩⟩
    · exact Or.inr ⟨hlt, heq, hfails, hfails0⟩

/-! ## The set half, by duality -/

theorem comp_injective {b b' : RtlBitMap} (h : b.comp = b'.comp) : b = b' := by
  rcases b with ⟨size, buffer, covers⟩
  rcases b' with ⟨size', buffer', covers'⟩
  simp only [RtlBitMap.comp, RtlBitMap.mk.injEq] at h ⊢
  refine ⟨h.1, List.map_injective_iff.2 ?_ h.2⟩
  intro w w' hw
  simpa using hw

theorem zeroTail_comp {b : RtlBitMap} (hS : 1 ≤ b.sizeOfBitMap.toNat) (n a : ℕ) :
    ZeroTail b.comp false n a ↔ ZeroTail b true n a := by
  have hword : b.comp.word b.lastIndex = ~~~b.word b.lastIndex := comp_word (lastIndex_lt hS)
  simp only [ZeroTail, hits_comp]
  show a < b.lastStart ∧ b.comp.word b.lastIndex = 0 ∧ _ ↔ _
  rw [hword, not_eq_zero_iff]
  rfl

theorem findOutcome_comp (b : RtlBitMap) (n h : ℕ) (s : Ulong) :
    FindOutcome b.comp false n h s → FindOutcome b true n h s := by
  intro hout
  by_cases hS : 1 ≤ b.sizeOfBitMap.toNat
  · simp only [FindOutcome, PassFinds, PassFails, zeroTail_comp hS, hits_comp] at hout
    exact hout
  · refine Or.inl ⟨by omega, ?_⟩
    rcases hout with ⟨-, heq⟩ | ⟨hlt, -⟩ | ⟨hlt, -⟩
    · exact heq
    · rw [comp_sizeOfBitMap] at hlt
      omega
    · rw [comp_sizeOfBitMap] at hlt
      omega

/-- `RtlFindSetBits` returns what its two passes find. -/
theorem rtlFindSetBits_spec (b : RtlBitMap) (n h : Ulong) (hn : 1 ≤ n.toNat) :
    ∃ s, rtlFindSetBits n h b = .ok s b ∧ FindOutcome b true n.toNat h.toNat s := by
  rcases rtlFindClearBits_spec b.comp n h hn with ⟨s, hrun, hout⟩
  refine ⟨s, ?_, findOutcome_comp b _ _ s hout⟩
  rw [dual_rtlFindSetBits n h b] at hrun
  cases hset : rtlFindSetBits n h b with
  | ok s' b' =>
    rw [hset, compOutcome] at hrun
    injection hrun with hs hb
    rw [hs, comp_injective hb]
  | error e b' =>
    rw [hset, compOutcome] at hrun
    cases hrun

end Wdutf.Bitmap
