import Mathlib.Data.List.Basic
import Mathlib.Tactic.Common
import Mathlib.Tactic.IntervalCases
import Wdutf.Bitmap.Search

/-!
# Wdutf.Bitmap.FindBits — soundness and completeness of the run search

When the result of `RtlFindClearBits` and `RtlFindSetBits` can be relied on:

* `findBits_sound_iff` — a returned start begins a run of the right length
  inside the bitmap, except when the partial last word was counted as 32 bits
  (`Overcounts`);
* `findBits_complete_iff` — a run that exists is found, except when it is the
  whole bitmap, which the guard on `NumberToFind` turns down, or when the
  32-bit count wraps to zero in the last word (`CountWraps`).

Both are read off `FindOutcome`, the result of the two passes.
-/

namespace Wdutf.Bitmap

open Wdutf.Runs Wdutf.Action

theorem lastStart_lt {b : RtlBitMap} (hS : 1 ≤ b.sizeOfBitMap.toNat) :
    b.lastStart < b.sizeOfBitMap.toNat ∧ b.sizeOfBitMap.toNat ≤ b.lastStart + 32 := by
  rw [RtlBitMap.lastStart, RtlBitMap.lastIndex]
  omega

theorem wordBit_whole {v : Bool} {k : ℕ} (hk : k < 32) :
    wordBit (if v then allBitsSet else 0) k = v := by
  cases v with
  | true => exact wordBit_allBitsSet hk
  | false => exact wordBit_zero k

/-- A word that is whole consists of hits. -/
theorem runAt_of_word {b : RtlBitMap} {v : Bool} {i : ℕ} (hi : i < b.wordCount)
    (hw : b.word i = if v then allBitsSet else 0) : RunAt (b.hits v) (32 * i) 32 := by
  intro j hj hj'
  have hdiv : j / 32 = i := by omega
  simp [RtlBitMap.hits, RtlBitMap.bit, hdiv, hi, hw,
    wordBit_whole (v := v) (Nat.mod_lt j (by omega))]

/-- A word of hits is whole. -/
theorem word_of_runAt {b : RtlBitMap} {v : Bool} {i : ℕ} (h : RunAt (b.hits v) (32 * i) 32) :
    b.word i = if v then allBitsSet else 0 := by
  have hbits : ∀ k, k < 32 → wordBit (b.word i) k = v := by
    intro k hk
    have hhit := h (32 * i + k) (by omega) (by omega)
    have hdiv : (32 * i + k) / 32 = i := by omega
    have hmod : (32 * i + k) % 32 = k := by omega
    simp only [RtlBitMap.hits, RtlBitMap.bit, hdiv, hmod, Bool.and_eq_true, beq_iff_eq] at hhit
    exact hhit.2
  apply UInt32.toNat_inj.1
  apply Nat.eq_of_testBit_eq
  intro k
  by_cases hk : k < 32
  · have h1 := hbits k hk
    have h2 := wordBit_whole (v := v) hk
    rw [wordBit] at h1 h2
    rw [h1, h2]
  · have hbig : ∀ w : Ulong, w.toNat.testBit k = false := by
      intro w
      have hlt : w.toNat < 2 ^ k :=
        lt_of_lt_of_le (ulong_lt w) (Nat.pow_le_pow_right (by omega) (by omega))
      exact Nat.testBit_lt_two_pow hlt
    rw [hbig, hbig]

/-- Behind a zero tail the bits of the last word continue the run. -/
theorem ZeroTail.runAt {b : RtlBitMap} {v : Bool} {n a : ℕ} (h : ZeroTail b v n a)
    (hS : 1 ≤ b.sizeOfBitMap.toNat) :
    RunAt (b.hits v) b.lastStart (b.sizeOfBitMap.toNat - b.lastStart) := by
  have hlast := lastStart_lt hS
  exact (runAt_of_word (lastIndex_lt hS) h.2.1).mono (by omega)

/-- The trailing run and the last word, as one run. -/
theorem ZeroTail.tail_runAt {b : RtlBitMap} {v : Bool} {n a : ℕ} (h : ZeroTail b v n a)
    (hS : 1 ≤ b.sizeOfBitMap.toNat) :
    RunAt (b.hits v) (b.lastStart - trailing (b.hits v) a b.lastStart)
      (trailing (b.hits v) a b.lastStart + (b.sizeOfBitMap.toNat - b.lastStart)) := by
  have hle := trailing_le (f := b.hits v) a b.lastStart
  refine (runAt_trailing a b.lastStart).append ?_
  rw [show b.lastStart - trailing (b.hits v) a b.lastStart + trailing (b.hits v) a b.lastStart =
    b.lastStart by omega]
  exact h.runAt hS

/-! ## Soundness -/

/-- A pass from `a` returns a start for which the bitmap has too few bits: it
enters the partial last word inside a run, that word is whole, padding
included, and the run has `n` bits only if the word is counted as 32. -/
def Overcounts (b : RtlBitMap) (v : Bool) (n a : ℕ) : Prop :=
  ZeroTail b v n a ∧
  trailing (b.hits v) a b.lastStart + (b.sizeOfBitMap.toNat - b.lastStart) < n ∧
  n ≤ trailing (b.hits v) a b.lastStart + 32

/-- An overcounting pass from bit 0 passes no run at all. -/
theorem Overcounts.noRun {b : RtlBitMap} {v : Bool} {n : ℕ} (h : Overcounts b v n 0) (hn : 1 ≤ n)
    (hS : 1 ≤ b.sizeOfBitMap.toNat) : NoRun (b.hits v) 0 b.sizeOfBitMap.toNat n := by
  rcases h with ⟨hz, hshort, -⟩
  have hlast := lastStart_lt hS
  have hno := noRun_add (Nat.zero_le _) hn hz.2.2.2 (hz.runAt hS) hshort
  rwa [show b.lastStart + (b.sizeOfBitMap.toNat - b.lastStart) = b.sizeOfBitMap.toNat by omega]
    at hno

/-- An overcounting pass returns, and what it returns is not a run inside the
bitmap. -/
theorem Overcounts.not_fails {b : RtlBitMap} {v : Bool} {n a : ℕ} (h : Overcounts b v n a)
    (hlt : n < b.sizeOfBitMap.toNat) : ¬ PassFails b v n a := by
  rcases h with ⟨hz, hshort, hle⟩
  have hlast := lastStart_lt (b := b) (by omega)
  have hpow := lastIndex_lt_pow b
  have htrail := trailing_le (f := b.hits v) a b.lastStart
  have hstart : b.lastStart = 32 * b.lastIndex := rfl
  -- the count cannot wrap: a trailing run of `2 ^ 32 - 32` bits would be the whole bitmap
  have hmod : (trailing (b.hits v) a b.lastStart + 32) % 2 ^ 32 =
      trailing (b.hits v) a b.lastStart + 32 := Nat.mod_eq_of_lt (by omega)
  rintro (⟨-, hfails⟩ | ⟨hnz, -⟩)
  · rw [hmod] at hfails
    omega
  · exact hnz hz

theorem Overcounts.not_sound {b : RtlBitMap} {v : Bool} {n a s : ℕ} (h : Overcounts b v n a)
    (hlt : n < b.sizeOfBitMap.toNat) (hfinds : PassFinds b v n a s) :
    b.sizeOfBitMap.toNat < s + n := by
  rcases h with ⟨hz, hshort, -⟩
  have hlast := lastStart_lt (b := b) (by omega)
  have htrail := trailing_le (f := b.hits v) a b.lastStart
  rcases hfinds with ⟨-, -, hs⟩ | ⟨hnz, -⟩
  · omega
  · exact absurd hz hnz

/-- A pass that does not overcount returns a run inside the bitmap. -/
theorem PassFinds.sound {b : RtlBitMap} {v : Bool} {n a s : ℕ} (h : PassFinds b v n a s)
    (hlt : n < b.sizeOfBitMap.toNat) (hover : ¬ Overcounts b v n a) :
    s + n ≤ b.sizeOfBitMap.toNat ∧ RunAt (b.hits v) s n := by
  have hlast := lastStart_lt (b := b) (by omega)
  rcases h with ⟨hz, hle, hs⟩ | ⟨-, hrun⟩
  · have hmod := Nat.mod_le (trailing (b.hits v) a b.lastStart + 32) (2 ^ 32)
    have htrail := trailing_le (f := b.hits v) a b.lastStart
    have henough : n ≤ trailing (b.hits v) a b.lastStart +
        (b.sizeOfBitMap.toNat - b.lastStart) := by
      by_contra hshort
      exact hover ⟨hz, by omega, by omega⟩
    refine ⟨by omega, ?_⟩
    rw [hs]
    exact (hz.tail_runAt (by omega)).mono henough
  · exact ⟨hrun.2.1, hrun.2.2.1⟩

/-- The result of a search is sound exactly when neither pass overcounts. -/
theorem FindOutcome.sound_iff {b : RtlBitMap} {v : Bool} {n h : ℕ} {s : Ulong} (hn : 1 ≤ n)
    (hout : FindOutcome b v n h s) :
    (s ≠ allBitsSet → s.toNat + n ≤ b.sizeOfBitMap.toNat ∧ RunAt (b.hits v) s.toNat n) ↔
      ¬ (n < b.sizeOfBitMap.toNat ∧
        (Overcounts b v n (firstStart b n h) ∨ Overcounts b v n 0)) := by
  constructor
  · rintro hsound ⟨hlt, hover⟩
    rcases hout with ⟨hge, -⟩ | ⟨-, hne, hfinds⟩ | ⟨-, -, hfails, hfails0⟩
    · omega
    · rcases hsound hne with ⟨hfit, hrun⟩
      have hno : ∀ hover0 : Overcounts b v n 0, False := fun hover0 =>
        hover0.noRun hn (by omega) s.toNat (Nat.zero_le _) hfit hrun
      rcases hover with hover1 | hover0
      · rcases hfinds with hfinds1 | ⟨hfails1, -⟩
        · have := hover1.not_sound hlt hfinds1
          omega
        · exact hover1.not_fails hlt hfails1
      · exact hno hover0
    · rcases hover with hover1 | hover0
      · exact hover1.not_fails hlt hfails
      · exact hover0.not_fails hlt hfails0
  · intro hover hne
    rcases hout with ⟨-, heq⟩ | ⟨hlt, -, hfinds⟩ | ⟨-, heq, -⟩
    · exact absurd heq hne
    · rcases hfinds with hfinds1 | ⟨-, hfinds0⟩
      · exact hfinds1.sound hlt fun ho => hover ⟨hlt, Or.inl ho⟩
      · exact hfinds0.sound hlt fun ho => hover ⟨hlt, Or.inr ho⟩
    · exact absurd heq hne

/-- A run of hits, as `RtlTestBit` reads it. -/
theorem runAt_iff_testBit {b : RtlBitMap} {v : Bool} {s n : ℕ} (h : s + n ≤ b.sizeOfBitMap.toNat) :
    RunAt (b.hits v) s n ↔
      ∀ i : Ulong, s ≤ i.toNat → i.toNat < s + n → rtlTestBit i b = .ok v b := by
  constructor
  · intro hrun i hi hi'
    have hhit := hrun i.toNat hi hi'
    rw [hits_of_lt (by omega), beq_iff_eq] at hhit
    rw [rtlTestBit_ok (by omega), hhit]
  · intro htest j hj hj'
    have hsize := ulong_lt b.sizeOfBitMap
    have hval : (UInt32.ofNat j).toNat = j := toNat_ofNat_lt (by omega)
    have hbit := htest (UInt32.ofNat j) (by omega) (by omega)
    rw [rtlTestBit_ok (by omega), hval] at hbit
    injection hbit with hv
    rw [hits_of_lt (by omega), beq_iff_eq, hv]

/-- A search result is sound: it is `0xFFFFFFFF`, or it is followed by
`n` bits of value `v` inside the bitmap. -/
def SoundSearch (find : BitMapM Ulong) (v : Bool) (b : RtlBitMap) (n : Ulong) : Prop :=
  ∃ s, find b = .ok s b ∧ (s ≠ allBitsSet →
    s.toNat + n.toNat ≤ b.sizeOfBitMap.toNat ∧
    ∀ i : Ulong, s.toNat ≤ i.toNat → i.toNat < s.toNat + n.toNat → rtlTestBit i b = .ok v b)

theorem soundSearch_iff {find : BitMapM Ulong} {v : Bool} {b : RtlBitMap} {n h s : Ulong}
    (hn : 1 ≤ n.toNat) (hrun : find b = .ok s b) (hout : FindOutcome b v n.toNat h.toNat s) :
    SoundSearch find v b n ↔ ¬ (n.toNat < b.sizeOfBitMap.toNat ∧
      (Overcounts b v n.toNat (firstStart b n.toNat h.toNat) ∨ Overcounts b v n.toNat 0)) := by
  rw [← hout.sound_iff hn]
  constructor
  · rintro ⟨s', hrun', hsound⟩ hne
    rw [hrun] at hrun'
    injection hrun' with hs
    rw [← hs] at hsound
    rcases hsound hne with ⟨hfit, htest⟩
    exact ⟨hfit, (runAt_iff_testBit hfit).2 htest⟩
  · intro hsound
    refine ⟨s, hrun, fun hne => ?_⟩
    rcases hsound hne with ⟨hfit, hruns⟩
    exact ⟨hfit, (runAt_iff_testBit hfit).1 hruns⟩

/-- **Soundness of the run search.** What `RtlFindClearBits` and
`RtlFindSetBits` return is a run of the right length inside the bitmap exactly
when neither of the two passes overcounts the partial last word. -/
theorem findBits_sound_iff (b : RtlBitMap) (n h : Ulong) (hn : 1 ≤ n.toNat) :
    (SoundSearch (rtlFindClearBits n h) false b n ↔ ¬ (n.toNat < b.sizeOfBitMap.toNat ∧
      (Overcounts b false n.toNat (firstStart b n.toNat h.toNat) ∨
        Overcounts b false n.toNat 0))) ∧
    (SoundSearch (rtlFindSetBits n h) true b n ↔ ¬ (n.toNat < b.sizeOfBitMap.toNat ∧
      (Overcounts b true n.toNat (firstStart b n.toNat h.toNat) ∨
        Overcounts b true n.toNat 0))) := by
  rcases rtlFindClearBits_spec b n h hn with ⟨s, hrun, hout⟩
  rcases rtlFindSetBits_spec b n h hn with ⟨s', hrun', hout'⟩
  exact ⟨soundSearch_iff hn hrun hout, soundSearch_iff hn hrun' hout'⟩

/-- Forty bits of which the last word and the bit before it are clear. -/
def clearTail : RtlBitMap := ⟨40, [0x7FFFFFFF, 0], by decide⟩

/-- Both searches of `clearTail` are sound for runs that it has. -/
theorem findBits_sound_clearTail :
    SoundSearch (rtlFindClearBits 9 0) false clearTail 9 ∧
    SoundSearch (rtlFindSetBits 20 5) true clearTail 20 := by
  constructor
  · refine (findBits_sound_iff clearTail 9 0 (by decide)).1.2 ?_
    rintro ⟨-, ⟨-, hshort, -⟩ | ⟨-, hshort, -⟩⟩ <;> exact absurd hshort (by decide)
  · refine (findBits_sound_iff clearTail 20 5 (by decide)).2.2 ?_
    -- the last word is clear
    rintro ⟨-, ⟨⟨-, hword, -⟩, -⟩ | ⟨⟨-, hword, -⟩, -⟩⟩ <;> exact absurd hword (by decide)

/-- The search returns bit 31 as the start of twenty clear bits of forty. -/
theorem findClearBits_unsound :
    ¬ ∀ (b : RtlBitMap) (n h : Ulong), 1 ≤ b.sizeOfBitMap.toNat → 1 ≤ n.toNat →
      SoundSearch (rtlFindClearBits n h) false b n := by
  intro hall
  rcases hall clearTail 20 0 (by decide) (by decide) with ⟨s, hrun, hsound⟩
  have hres : rtlFindClearBits 20 0 clearTail = .ok 31 clearTail := rfl
  rw [hres] at hrun
  injection hrun with hs
  rw [← hs] at hsound
  have hfit := (hsound (by decide)).1
  exact absurd hfit (by decide)

/-! ## Completeness -/

/-- The request is for the whole bitmap, and the whole bitmap consists of hits. -/
def WholeBitMap (b : RtlBitMap) (v : Bool) (n : ℕ) : Prop :=
  n = b.sizeOfBitMap.toNat ∧ RunAt (b.hits v) 0 b.sizeOfBitMap.toNat

/-- Every word is whole, the last one is bit `2 ^ 32 - 32` and on, the request
needs it, and the search starts from bit 0: the count wraps to zero. -/
def CountWraps (b : RtlBitMap) (v : Bool) (n h : ℕ) : Prop :=
  2 ^ 32 - 32 < n ∧ (∀ i, i < b.wordCount → b.word i = if v then allBitsSet else 0) ∧
  (h = 0 ∨ b.sizeOfBitMap.toNat ≤ h ∨ b.sizeOfBitMap.toNat < h + n)

/-- Whole words below `i` are one run. -/
theorem runAt_of_words {b : RtlBitMap} {v : Bool} {i : ℕ}
    (h : ∀ j, j < i → b.word j = if v then allBitsSet else 0) (hi : i ≤ b.wordCount) :
    RunAt (b.hits v) 0 (32 * i) := by
  intro j _ hj
  exact runAt_of_word (i := j / 32) (by omega) (h _ (by omega)) j (by omega) (by omega)

/-- With only whole words the trailing run reaches back to the start. -/
theorem trailing_of_runAt {f : ℕ → Bool} {a p : ℕ} (ha : a ≤ p) (h : RunAt f 0 p) :
    trailing f a p = p - a := by
  have hle := trailing_le (f := f) a p
  have hge := le_trailing (le_refl a) ha fun j _ hj => h j (Nat.zero_le j) (by omega)
  omega

theorem CountWraps.lastStart_eq {b : RtlBitMap} {v : Bool} {n h : ℕ} (hw : CountWraps b v n h)
    (hle : n ≤ b.sizeOfBitMap.toNat) : b.lastStart = 2 ^ 32 - 32 := by
  have hsize := ulong_lt b.sizeOfBitMap
  have hn := hw.1
  rw [RtlBitMap.lastStart, RtlBitMap.lastIndex]
  omega

/-- A count that wraps makes the pass from bit 0 fail. -/
theorem CountWraps.fails {b : RtlBitMap} {v : Bool} {n h : ℕ} (hw : CountWraps b v n h)
    (hle : n ≤ b.sizeOfBitMap.toNat) : PassFails b v n 0 := by
  have hstart := hw.lastStart_eq hle
  rcases hw with ⟨hn, hwords, -⟩
  have hlast := lastIndex_lt (b := b) (by omega)
  have hrun : RunAt (b.hits v) 0 b.lastStart :=
    runAt_of_words (fun j hj => hwords j (by omega)) (by omega)
  have htrail : trailing (b.hits v) 0 b.lastStart = b.lastStart :=
    trailing_of_runAt (Nat.zero_le _) hrun
  refine Or.inl ⟨⟨by omega, hwords _ hlast, by omega, fun i _ hi => by omega⟩, ?_⟩
  rw [htrail, hstart]
  omega

theorem CountWraps.firstStart_eq {b : RtlBitMap} {v : Bool} {n h : ℕ} (hw : CountWraps b v n h) :
    firstStart b n h = 0 := by
  rcases hw with ⟨-, -, hhint⟩
  rw [firstStart]
  split
  · omega
  · rfl

/-- A pass from bit 0 that misses an existing run has let the count wrap. -/
theorem PassFails.wraps {b : RtlBitMap} {v : Bool} {n i : ℕ} (h : PassFails b v n 0)
    (hlt : n < b.sizeOfBitMap.toNat) (hi : i + n ≤ b.sizeOfBitMap.toNat)
    (hrun : RunAt (b.hits v) i n) :
    2 ^ 32 - 32 < n ∧ b.lastStart = 2 ^ 32 - 32 ∧
      ∀ i, i < b.wordCount → b.word i = if v then allBitsSet else 0 := by
  have hlast := lastStart_lt (b := b) (by omega)
  have hpow := lastIndex_lt_pow b
  have hstart : b.lastStart = 32 * b.lastIndex := rfl
  have htrail := trailing_le (f := b.hits v) 0 b.lastStart
  rcases h with ⟨hz, hfails⟩ | ⟨-, hno⟩
  · -- the run starts inside the trailing run, so the trailing run is `2 ^ 32 - 32` bits long
    have hfrom : b.lastStart - trailing (b.hits v) 0 b.lastStart ≤ i := by
      by_contra hbefore
      exact not_runAt_of_lt hz.2.2.2 (Nat.zero_le i) (by omega) hrun
    have hlong : 2 ^ 32 ≤ trailing (b.hits v) 0 b.lastStart + 32 := by
      by_contra hshort
      rw [Nat.mod_eq_of_lt (by omega)] at hfails
      omega
    have hfull : trailing (b.hits v) 0 b.lastStart = b.lastStart := by omega
    have hshort := trailing_lt (Nat.zero_le _) hz.2.2.2
    refine ⟨by omega, by omega, fun j hj => ?_⟩
    have hcount : b.wordCount = b.lastIndex + 1 := by
      rw [RtlBitMap.wordCount, RtlBitMap.lastIndex]
      omega
    by_cases hjl : j = b.lastIndex
    · rw [hjl]
      exact hz.2.1
    · have hall := runAt_trailing (f := b.hits v) 0 b.lastStart
      rw [hfull, Nat.sub_self] at hall
      exact word_of_runAt fun k _ hk => hall k (Nat.zero_le k) (by omega)
  · exact absurd hrun (hno i (Nat.zero_le i) hi)

/-- A pass that fails finds nothing. -/
theorem PassFails.not_finds {b : RtlBitMap} {v : Bool} {n a s : ℕ} (h : PassFails b v n a) :
    ¬ PassFinds b v n a s := by
  rintro (⟨hz, henough, -⟩ | ⟨hnz, hrun⟩)
  · rcases h with ⟨-, hshort⟩ | ⟨hnz, -⟩
    · omega
    · exact hnz hz
  · rcases h with ⟨hz, -⟩ | ⟨-, hno⟩
    · exact hnz hz
    · exact hrun.not_noRun hno

/-- Given that a run exists, a search fails exactly in the two cases. -/
theorem FindOutcome.missed_iff {b : RtlBitMap} {v : Bool} {n h i : ℕ} {s : Ulong}
    (hout : FindOutcome b v n h s) (hle : n ≤ b.sizeOfBitMap.toNat)
    (hi : i + n ≤ b.sizeOfBitMap.toNat) (hrun : RunAt (b.hits v) i n) :
    s = allBitsSet ↔ n = b.sizeOfBitMap.toNat ∨ CountWraps b v n h := by
  constructor
  · intro hs
    rcases hout with ⟨hge, -⟩ | ⟨-, hne, -⟩ | ⟨hlt, -, hfails, hfails0⟩
    · exact Or.inl (by omega)
    · exact absurd hs hne
    · rcases hfails0.wraps hlt hi hrun with ⟨hn, hstart, hwords⟩
      refine Or.inr ⟨hn, hwords, ?_⟩
      by_contra hhint
      -- otherwise the first pass starts inside the first word and its count does not wrap
      have hsize := ulong_lt b.sizeOfBitMap
      have hfirst : firstStart b n h = h := if_pos ⟨by omega, by omega⟩
      have hidx : b.lastStart = 32 * b.lastIndex := rfl
      have hlast := lastIndex_lt (b := b) (by omega)
      have hrun0 : RunAt (b.hits v) 0 b.lastStart :=
        runAt_of_words (fun j hj => hwords j (by omega)) (by omega)
      have htrail : trailing (b.hits v) h b.lastStart = b.lastStart - h :=
        trailing_of_runAt (by omega) hrun0
      have hz : ZeroTail b v n h :=
        ⟨by omega, hwords _ hlast, by omega, fun k _ hk => by omega⟩
      rw [hfirst] at hfails
      rcases hfails with ⟨-, hshort⟩ | ⟨hnz, -⟩
      · rw [htrail, Nat.mod_eq_of_lt (by omega)] at hshort
        omega
      · exact hnz hz
  · intro hmiss
    rcases hout with ⟨-, heq⟩ | ⟨hlt, -, hfinds⟩ | ⟨-, heq, -⟩
    · exact heq
    · exfalso
      rcases hmiss with heq | hwraps
      · omega
      · have hfails := hwraps.fails hle
        have hfirst := hwraps.firstStart_eq
        rw [hfirst] at hfinds
        have hfinds0 : PassFinds b v n 0 s.toNat := by
          rcases hfinds with h1 | ⟨-, h0⟩
          · exact h1
          · exact h0
        exact hfails.not_finds hfinds0
    · exact heq

/-- A search is complete: if the bitmap has a run of `n` bits of value `v`, it
returns a start. -/
def CompleteSearch (find : BitMapM Ulong) (v : Bool) (b : RtlBitMap) (n : Ulong) : Prop :=
  (∃ i, i + n.toNat ≤ b.sizeOfBitMap.toNat ∧
    ∀ j : Ulong, i ≤ j.toNat → j.toNat < i + n.toNat → rtlTestBit j b = .ok v b) →
  ∃ s, find b = .ok s b ∧ s ≠ allBitsSet

theorem completeSearch_iff {find : BitMapM Ulong} {v : Bool} {b : RtlBitMap} {n h s : Ulong}
    (hle : n.toNat ≤ b.sizeOfBitMap.toNat) (hfind : find b = .ok s b)
    (hout : FindOutcome b v n.toNat h.toNat s) :
    CompleteSearch find v b n ↔
      ¬ (WholeBitMap b v n.toNat ∨ CountWraps b v n.toNat h.toNat) := by
  constructor
  · intro hcomplete hmiss
    -- in both cases the run from bit 0 exists
    have hrun : RunAt (b.hits v) 0 n.toNat := by
      rcases hmiss with ⟨heq, hall⟩ | hwraps
      · exact hall.mono (by omega)
      · refine (runAt_of_words (i := b.wordCount) (fun j hj => hwraps.2.1 j hj) (le_refl _)).mono ?_
        rw [RtlBitMap.wordCount]
        omega
    rcases hcomplete ⟨0, by omega, (runAt_iff_testBit (by omega)).1 hrun⟩ with ⟨s', hfind', hne⟩
    rw [hfind] at hfind'
    injection hfind' with hs
    rw [← hs] at hne
    apply hne
    rw [hout.missed_iff hle (i := 0) (by omega) hrun]
    rcases hmiss with ⟨heq, -⟩ | hwraps
    · exact Or.inl heq
    · exact Or.inr hwraps
  · rintro hok ⟨i, hi, htest⟩
    have hrun : RunAt (b.hits v) i n.toNat := (runAt_iff_testBit hi).2 htest
    refine ⟨s, hfind, fun hs => ?_⟩
    rcases (hout.missed_iff hle hi hrun).1 hs with heq | hwraps
    · refine hok (Or.inl ⟨heq, ?_⟩)
      rw [show i = 0 by omega, heq] at hrun
      exact hrun
    · exact hok (Or.inr hwraps)

/-- **Completeness of the run search.** A run that exists is found exactly when
it is not the whole bitmap and the count does not wrap. -/
theorem findBits_complete_iff (b : RtlBitMap) (n h : Ulong) (hn : 1 ≤ n.toNat)
    (hle : n.toNat ≤ b.sizeOfBitMap.toNat) :
    (CompleteSearch (rtlFindClearBits n h) false b n ↔
      ¬ (WholeBitMap b false n.toNat ∨ CountWraps b false n.toNat h.toNat)) ∧
    (CompleteSearch (rtlFindSetBits n h) true b n ↔
      ¬ (WholeBitMap b true n.toNat ∨ CountWraps b true n.toNat h.toNat)) := by
  rcases rtlFindClearBits_spec b n h hn with ⟨s, hrun, hout⟩
  rcases rtlFindSetBits_spec b n h hn with ⟨s', hrun', hout'⟩
  exact ⟨completeSearch_iff hle hrun hout, completeSearch_iff hle hrun' hout'⟩

/-- The nine clear bits and the 31 set ones of `clearTail` are found. -/
theorem findBits_complete_clearTail :
    CompleteSearch (rtlFindClearBits 9 0) false clearTail 9 ∧
    CompleteSearch (rtlFindSetBits 31 5) true clearTail 31 := by
  constructor
  · refine (findBits_complete_iff clearTail 9 0 (by decide) (by decide)).1.2 ?_
    rintro (⟨hall, -⟩ | ⟨hmany, -⟩)
    · exact absurd hall (by decide)
    · exact absurd hmany (by decide)
  · refine (findBits_complete_iff clearTail 31 5 (by decide) (by decide)).2.2 ?_
    rintro (⟨hall, -⟩ | ⟨hmany, -⟩)
    · exact absurd hall (by decide)
    · exact absurd hmany (by decide)

/-- Eight clear bits. -/
def eightClear : RtlBitMap := ⟨8, [0], by decide⟩

/-- Eight clear bits of eight are not found. -/
theorem findClearBits_incomplete :
    ¬ ∀ (b : RtlBitMap) (n h : Ulong), 1 ≤ n.toNat → n.toNat ≤ b.sizeOfBitMap.toNat →
      CompleteSearch (rtlFindClearBits n h) false b n := by
  intro hall
  have hrun : RunAt (eightClear.hits false) 0 8 := by
    intro j _ hj
    rw [hits_of_lt (by simpa [eightClear] using hj)]
    interval_cases j <;> rfl
  have htest :=
    (runAt_iff_testBit (b := eightClear) (v := false) (s := 0) (n := 8) (by decide)).1 hrun
  rcases hall eightClear 8 0 (by decide) (by decide) ⟨0, by decide, htest⟩ with ⟨s, hfind, hne⟩
  have hres : rtlFindClearBits 8 0 eightClear = .ok allBitsSet eightClear := rfl
  rw [hres] at hfind
  injection hfind with hs
  exact hne hs.symm

end Wdutf.Bitmap
