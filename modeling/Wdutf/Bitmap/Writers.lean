import Mathlib.Data.List.Basic
import Mathlib.Tactic.Common
import Wdutf.Bitmap.RangeCheck
import Wdutf.Bitmap.Search

/-!
# Wdutf.Bitmap.Writers — the bit writers change exactly their range

`Writes res b v lo hi` says that the run `res` on `b` returns and gives the bits `lo` to
`hi - 1` of the whole buffer the value `v`, and that every other bit, the padding of the
last word included, is as before. Ranges are put together with `Writes.bind`: the writers
go through the first word, the words in between and the last word in this order.

* `writeBits_writes`, `writeAllBits_writes` — both value-independent bodies;
* `writers_change_range` — all six writers.
-/

namespace Wdutf.Bitmap

open Wdutf.Action

/-- The run `res` gives the bits `lo` to `hi - 1` of `b` the value `v`, and changes no
other bit of the buffer. -/
def Writes (res : EStateM.Result Fault RtlBitMap Unit) (b : RtlBitMap) (v : Bool)
    (lo hi : ℕ) : Prop :=
  ∃ b', res = .ok () b' ∧ b'.sizeOfBitMap = b.sizeOfBitMap ∧
    b'.buffer.length = b.buffer.length ∧
    ∀ i, b'.bit i = if lo ≤ i ∧ i < hi then v else b.bit i

theorem Writes.empty (b : RtlBitMap) (v : Bool) {lo hi : ℕ} (h : hi ≤ lo) :
    Writes (.ok () b) b v lo hi := by
  refine ⟨b, rfl, rfl, rfl, fun i => ?_⟩
  rw [if_neg (by omega)]

/-- Adjacent ranges, one after the other. -/
theorem Writes.bind {m : BitMapM Unit} {k : Unit → BitMapM Unit} {b : RtlBitMap} {v : Bool}
    {lo hi : ℕ} (mid : ℕ) (hlo : lo ≤ mid) (hhi : mid ≤ hi) (hm : Writes (m b) b v lo mid)
    (hk : ∀ b', b'.sizeOfBitMap = b.sizeOfBitMap → Writes (k () b') b' v mid hi) :
    Writes ((m >>= k) b) b v lo hi := by
  rcases hm with ⟨b₁, hrun, hsize, hlen, hbit⟩
  rcases hk b₁ hsize with ⟨b₂, hrun', hsize', hlen', hbit'⟩
  refine ⟨b₂, by rw [bind_ok hrun, hrun'], hsize'.trans hsize, hlen'.trans hlen, fun i => ?_⟩
  rw [hbit' i, hbit i]
  by_cases hlow : lo ≤ i ∧ i < mid
  · rw [if_neg (by omega), if_pos hlow, if_pos (by omega)]
  · by_cases hhigh : mid ≤ i ∧ i < hi
    · rw [if_pos hhigh, if_pos (by omega)]
    · rw [if_neg hhigh, if_neg hlow, if_neg (by omega)]

/-! ## One word -/

/-- On a word, `f` gives the bits `lo` to `hi - 1` the value `v`. -/
def WritesWord (f : Ulong → Ulong) (v : Bool) (lo hi : ℕ) : Prop :=
  ∀ w k, k < 32 → wordBit (f w) k = if lo ≤ k ∧ k < hi then v else wordBit w k

theorem modifyWord_writes {b : RtlBitMap} {i : Ulong} {f : Ulong → Ulong} {v : Bool} {lo hi : ℕ}
    (hhi : hi ≤ 32) (hidx : i.toNat < b.wordCount) (hf : WritesWord f v lo hi) :
    Writes (modifyWord i f b) b v (32 * i.toNat + lo) (32 * i.toNat + hi) := by
  have hlen : i.toNat < b.buffer.length := lt_of_lt_of_le hidx b.wordCount_le
  rw [modifyWord, if_pos hidx]
  refine ⟨_, rfl, rfl, by simp, fun j => ?_⟩
  have hmod : j % 32 < 32 := Nat.mod_lt j (by omega)
  rw [RtlBitMap.bit, RtlBitMap.bit, RtlBitMap.word, RtlBitMap.word]
  by_cases hj : i.toNat = j / 32
  · -- the word itself
    have hget : (b.buffer.modify i.toNat f).getD (j / 32) 0 = f (b.buffer.getD (j / 32) 0) := by
      rw [← hj]
      simp [hlen]
    rw [hget, hf _ _ hmod]
    by_cases hin : lo ≤ j % 32 ∧ j % 32 < hi
    · rw [if_pos hin, if_pos (by omega)]
    · rw [if_neg hin, if_neg (by omega)]
  · have hget : (b.buffer.modify i.toNat f).getD (j / 32) 0 = b.buffer.getD (j / 32) 0 := by
      simp [List.getD_eq_getElem?_getD, hj]
    rw [hget, if_neg (by omega)]

/-! ## The bit loops -/

/-- Or-ing masks sets the bits with these numbers, modulo 32. -/
theorem wordBit_foldl_or (bitNums : List Ulong) (w : Ulong) (k : ℕ) :
    wordBit (bitNums.foldl (fun w bitNum => w ||| bitMask bitNum) w) k =
      (wordBit w k || decide (∃ n ∈ bitNums, n.toNat % 32 = k)) := by
  induction bitNums generalizing w with
  | nil => simp
  | cons n ns ih =>
    have hor : wordBit (w ||| bitMask n) k = (wordBit w k || decide (n.toNat % 32 = k)) := by
      rw [wordBit, UInt32.toNat_or, Nat.testBit_or, toNat_bitMask, Nat.testBit_two_pow, wordBit]
    rw [List.foldl_cons, ih, hor, Bool.or_assoc]
    congr 1
    simp

theorem mem_ulongsTo_iff {s e i : Ulong} :
    i ∈ ulongsTo s e ↔ s.toNat ≤ i.toNat ∧ i.toNat ≤ e.toNat := by
  constructor
  · exact mem_ulongsTo
  · intro h
    simp only [ulongsTo, List.mem_map, List.mem_range'_1]
    exact ⟨i.toNat, by omega, UInt32.ofNat_toNat⟩

/-- The set loop over bit numbers that stand for the positions `lo` to `hi - 1`. -/
theorem foldl_or_writes {bitNums : List Ulong} {lo hi : ℕ}
    (h : ∀ k, k < 32 → ((∃ n ∈ bitNums, n.toNat % 32 = k) ↔ lo ≤ k ∧ k < hi)) :
    WritesWord (bitNums.foldl fun w bitNum => w ||| bitMask bitNum) true lo hi := by
  intro w k hk
  rw [wordBit_foldl_or]
  by_cases hin : lo ≤ k ∧ k < hi
  · rw [if_pos hin, decide_eq_true ((h k hk).2 hin), Bool.or_true]
  · rw [if_neg hin, decide_eq_false (fun hex => hin ((h k hk).1 hex)), Bool.or_false]

/-- `SetBitsInRange` with positions inside the word. -/
theorem setBitsInRange_writes {s e : Ulong} (he : e.toNat < 32) :
    WritesWord (setBitsInRange s e) true s.toNat (e.toNat + 1) := by
  refine foldl_or_writes fun k hk => ?_
  constructor
  · rintro ⟨n, hn, hnk⟩
    have := mem_ulongsTo_iff.1 hn
    omega
  · intro h
    have hval : (UInt32.ofNat k).toNat = k := toNat_ofNat_lt (by omega)
    exact ⟨UInt32.ofNat k, mem_ulongsTo_iff.2 (by omega), by omega⟩

/-- `SetBitsInRange` as the single-bit routines call it, with the full bit number:
the shift takes it modulo 32. -/
theorem setBitsInRange_self (i : Ulong) :
    WritesWord (setBitsInRange i i) true (i.toNat % 32) (i.toNat % 32 + 1) := by
  refine foldl_or_writes fun k _ => ?_
  constructor
  · rintro ⟨n, hn, hnk⟩
    have := mem_ulongsTo_iff.1 hn
    rw [show n.toNat = i.toNat by omega] at hnk
    omega
  · intro h
    exact ⟨i, mem_ulongsTo_iff.2 (by omega), by omega⟩

/-- The clear loop is the set loop on the complement. -/
theorem clearBitsInRange_writes {s e : Ulong} {lo hi : ℕ}
    (h : WritesWord (setBitsInRange s e) true lo hi) :
    WritesWord (clearBitsInRange s e) false lo hi := by
  intro w k hk
  have hset := h (~~~w) k hk
  have heq : setBitsInRange s e (~~~w) = ~~~clearBitsInRange s e w := setBitsInRange_not s e w
  rw [heq, wordBit_not _ hk, wordBit_not _ hk] at hset
  by_cases hin : lo ≤ k ∧ k < hi
  · rw [if_pos hin] at hset ⊢
    simpa using hset
  · rw [if_neg hin] at hset ⊢
    simpa using hset

/-! ## The element loops -/

/-- The word that consists of `v`. -/
def wholeWord (v : Bool) : Ulong := if v then allBitsSet else 0

theorem wholeWord_writes (v : Bool) : WritesWord (fun _ => wholeWord v) v 0 32 := by
  intro w k hk
  rw [if_pos ⟨Nat.zero_le k, hk⟩]
  cases v with
  | true => exact wordBit_allBitsSet hk
  | false => exact wordBit_zero k

/-- The inclusive loop over elements, which may be empty. -/
theorem fillArrayElements_writes {b : RtlBitMap} (v : Bool) (i k : ℕ) (hk : i + k ≤ b.wordCount)
    (hpow : i + k < 2 ^ 32) :
    Writes (((List.range' i k).map UInt32.ofNat).forM (fun bufferIndex =>
      modifyWord bufferIndex fun _ => wholeWord v) b) b v (32 * i) (32 * (i + k)) := by
  induction k generalizing i b with
  | zero => exact Writes.empty b v (by omega)
  | succ k ih =>
    have hi : (UInt32.ofNat i).toNat = i := toNat_ofNat_lt (by omega)
    have hword : Writes (modifyWord (UInt32.ofNat i) (fun _ => wholeWord v) b) b v (32 * i)
        (32 * (i + 1)) := by
      have h := modifyWord_writes (i := UInt32.ofNat i) (le_refl 32) (by omega) (b := b)
        (wholeWord_writes v)
      rwa [hi, Nat.add_zero] at h
    rw [List.range'_succ, List.map_cons]
    show Writes ((modifyWord _ _ >>= fun _ => List.forM _ _) b) b v _ _
    refine Writes.bind (32 * (i + 1)) (by omega) (by omega) hword fun b' hsize => ?_
    have hcount : b'.wordCount = b.wordCount := by
      rw [RtlBitMap.wordCount, RtlBitMap.wordCount, hsize]
    rw [show 32 * (i + (k + 1)) = 32 * (i + 1 + k) by omega]
    exact ih (i + 1) (by omega) (by omega)

/-- The element loop between two words. -/
theorem fill_between_writes {b : RtlBitMap} (v : Bool) (first last : Ulong)
    (hle : first.toNat ≤ last.toNat + 1) (hlast : last.toNat < b.wordCount)
    (hpow : last.toNat + 1 < 2 ^ 32) :
    Writes (fillArrayElements (wholeWord v) first last b) b v (32 * first.toNat)
      (32 * (last.toNat + 1)) := by
  have h := fillArrayElements_writes (b := b) v first.toNat (last.toNat + 1 - first.toNat)
    (by omega) (by omega)
  rwa [show first.toNat + (last.toNat + 1 - first.toNat) = last.toNat + 1 by omega] at h

/-! ## The bodies of the writers -/

section Bodies

variable {b : RtlBitMap} {v : Bool} {bits : Ulong → Ulong → Ulong → Ulong}

/-- The body of `RtlClearBits` and `RtlSetBits`, on a range inside the bitmap. -/
theorem writeBits_writes
    (hbits : ∀ s e : Ulong, e.toNat < 32 → WritesWord (bits s e) v s.toNat (e.toNat + 1))
    {s c : Ulong} (h : s.toNat + c.toNat ≤ b.sizeOfBitMap.toNat) :
    Writes (writeBits (fillArrayElements (wholeWord v)) bits s c b) b v s.toNat
      (s.toNat + c.toNat) := by
  have hsize := ulong_lt b.sizeOfBitMap
  have hassert : ddkAssert (decide (s + c ≤ b.sizeOfBitMap)) b = .ok () b :=
    ddkAssert_true (by simpa using add_le_size_iff.2 (Or.inl h)) b
  rw [writeBits, get_bind, bind_ok hassert]
  by_cases hc : c = 0
  · -- an empty range
    rw [if_neg (by simpa using hc)]
    refine Writes.empty b v ?_
    rw [hc, UInt32.toNat_zero]
    omega
  rw [if_pos hc]
  rcases range_words hc h with ⟨hle, hlast⟩
  have hcount : b.wordCount = (b.sizeOfBitMap.toNat + 31) / 32 := rfl
  have hc' := one_le_toNat hc
  have hsum : (s + c).toNat = s.toNat + c.toNat := toNat_add_of_lt (by omega)
  have hlb : (s + c - 1).toNat = s.toNat + c.toNat - 1 := by
    rw [toNat_sub_one (by omega), hsum]
  have hsi := toNat_calculateArrayIndexFromBitNum s
  have hsp := toNat_calculateBitPositionInArrayElement hsi
  have hli := toNat_calculateLastBufferIndex (s + c - 1)
  have hlp := toNat_calculateBitPositionInArrayElement hli
  rw [hlb] at hli hlp
  generalize calculateBitPositionInArrayElement s (calculateArrayIndexFromBitNum s) = sp
    at hsp ⊢
  generalize calculateBitPositionInArrayElement (s + c - 1)
    (calculateLastBufferIndex (s + c - 1)) = lp at hlp ⊢
  generalize calculateArrayIndexFromBitNum s = si at hsi hle ⊢
  generalize calculateLastBufferIndex (s + c - 1) = li at hli hle hlast ⊢
  have hstart : s.toNat = 32 * si.toNat + sp.toNat := by omega
  have hend : s.toNat + c.toNat = 32 * li.toNat + (lp.toNat + 1) := by omega
  rw [hend, hstart]
  by_cases hsame : si = li
  · rw [if_pos hsame, hsame]
    exact modifyWord_writes (by omega) hlast (hbits sp lp (by omega))
  · have hlt : si.toNat < li.toNat := by
      have : si.toNat ≠ li.toNat := fun heq => hsame (UInt32.toNat_inj.1 heq)
      omega
    have h31 : (bitsPerArray - 1).toNat = 31 := rfl
    have hone : (si + 1).toNat = si.toNat + 1 := toNat_add_of_lt (by
      rw [UInt32.toNat_one]
      omega)
    have hprev : (li - 1).toNat = li.toNat - 1 := toNat_sub_one (by omega)
    rw [if_neg hsame]
    -- the first word, the words in between, the last word
    refine Writes.bind (32 * (si.toNat + 1)) (by omega) (by omega) ?_ fun b₁ hsize₁ => ?_
    · have hfirst := modifyWord_writes (i := si) (by omega) (by omega) (b := b)
        (hbits sp (bitsPerArray - 1) (by omega))
      rwa [h31] at hfirst
    have hcount₁ : b₁.wordCount = (b.sizeOfBitMap.toNat + 31) / 32 := by
      rw [RtlBitMap.wordCount, hsize₁]
    refine Writes.bind (32 * li.toNat) (by omega) (by omega) ?_ fun b₂ hsize₂ => ?_
    · have hbetween := fill_between_writes (b := b₁) v (si + 1) (li - 1)
        (by omega) (by omega) (by omega)
      rwa [hone, hprev, show li.toNat - 1 + 1 = li.toNat by omega] at hbetween
    · have hcount₂ : b₂.wordCount = (b.sizeOfBitMap.toNat + 31) / 32 := by
        rw [RtlBitMap.wordCount, hsize₂, hsize₁]
      exact modifyWord_writes (by omega) (by omega) (hbits 0 lp (by omega))

/-- The body of `RtlClearAllBits` and `RtlSetAllBits`. -/
theorem writeAllBits_writes
    (hbits : ∀ s e : Ulong, e.toNat < 32 → WritesWord (bits s e) v s.toNat (e.toNat + 1))
    (hS : 1 ≤ b.sizeOfBitMap.toNat) :
    Writes (writeAllBits (fillArrayElements (wholeWord v)) bits b) b v 0
      b.sizeOfBitMap.toNat := by
  have hsize := ulong_lt b.sizeOfBitMap
  have hli := toNat_lastBufferIndex hS
  have hlp := toNat_lastBitPosition hS
  have hlast := lastIndex_lt hS
  rw [writeAllBits, get_bind]
  generalize calculateBitPositionInArrayElement (b.sizeOfBitMap - 1)
    (calculateLastBufferIndex (b.sizeOfBitMap - 1)) = lp at hlp ⊢
  generalize calculateLastBufferIndex (b.sizeOfBitMap - 1) = li at hli ⊢
  have hend : b.sizeOfBitMap.toNat = 32 * li.toNat + (lp.toNat + 1) := by
    rw [hlp, hli, RtlBitMap.lastIndex]
    omega
  have hword : ∀ b' : RtlBitMap, b'.sizeOfBitMap = b.sizeOfBitMap →
      Writes (modifyWord li (bits 0 lp) b') b' v (32 * li.toNat) b.sizeOfBitMap.toNat := by
    intro b' hsize'
    have hcount : b'.wordCount = b.wordCount := by
      rw [RtlBitMap.wordCount, RtlBitMap.wordCount, hsize']
    rw [hend]
    exact modifyWord_writes (by omega) (by omega) (hbits 0 lp (by omega))
  by_cases hpos : li > 0
  · -- the elements before the last one
    have hpos' : 0 < li.toNat := UInt32.lt_iff_toNat_lt.1 hpos
    have hprev : (li - 1).toNat = li.toNat - 1 := toNat_sub_one (by omega)
    simp only [if_pos hpos]
    refine Writes.bind (32 * li.toNat) (by omega) (by omega) ?_ fun b' => hword b'
    have hfill := fill_between_writes (b := b) v 0 (li - 1)
      (by rw [UInt32.toNat_zero]; omega) (by omega) (by omega)
    rwa [hprev, show li.toNat - 1 + 1 = li.toNat by omega] at hfill
  · simp only [if_neg hpos]
    have hzero : li.toNat = 0 := by
      by_contra hne
      exact hpos (UInt32.lt_iff_toNat_lt.2 (by rw [UInt32.toNat_zero]; omega))
    have h := hword b rfl
    rwa [hzero] at h

end Bodies

theorem setArrayElements_eq : setArrayElements = fillArrayElements (wholeWord true) := rfl

theorem clearArrayElements_eq : clearArrayElements = fillArrayElements (wholeWord false) := rfl

/-- A single bit. -/
theorem singleBit_writes {b : RtlBitMap} {i : Ulong} {v : Bool} {f : Ulong → Ulong}
    (hf : WritesWord f v (i.toNat % 32) (i.toNat % 32 + 1))
    (h : i.toNat < b.sizeOfBitMap.toNat) :
    Writes ((do
      ddkAssert (i < (← get).sizeOfBitMap)
      modifyWord (calculateArrayIndexFromBitNum i) f : BitMapM Unit) b) b v i.toNat
      (i.toNat + 1) := by
  have hassert : ddkAssert (decide (i < b.sizeOfBitMap)) b = .ok () b :=
    ddkAssert_true (by simpa [UInt32.lt_iff_toNat_lt] using h) b
  rw [get_bind, bind_ok hassert]
  have hidx := toNat_calculateArrayIndexFromBitNum i
  have hword := modifyWord_writes (b := b) (i := calculateArrayIndexFromBitNum i) (by omega)
    (by rw [hidx]; exact bit_lt_wordCount h) hf
  rwa [hidx, show 32 * (i.toNat / 32) + i.toNat % 32 = i.toNat by omega,
    show 32 * (i.toNat / 32) + (i.toNat % 32 + 1) = i.toNat + 1 by omega] at hword

/-- **The bit writers change exactly their range**, in the whole buffer, and
`RtlTestBit` reads the bits that are meant. -/
theorem writers_change_range (b : RtlBitMap) (hS : 1 ≤ b.sizeOfBitMap.toNat) :
    (∀ s c : Ulong, s.toNat + c.toNat ≤ b.sizeOfBitMap.toNat →
      Writes (rtlSetBits s c b) b true s.toNat (s.toNat + c.toNat) ∧
      Writes (rtlClearBits s c b) b false s.toNat (s.toNat + c.toNat)) ∧
    (∀ i : Ulong, i.toNat < b.sizeOfBitMap.toNat →
      Writes (rtlSetBit i b) b true i.toNat (i.toNat + 1) ∧
      Writes (rtlClearBit i b) b false i.toNat (i.toNat + 1)) ∧
    Writes (rtlSetAllBits b) b true 0 b.sizeOfBitMap.toNat ∧
    Writes (rtlClearAllBits b) b false 0 b.sizeOfBitMap.toNat ∧
    ∀ i : Ulong, i.toNat < b.sizeOfBitMap.toNat → rtlTestBit i b = .ok (b.bit i.toNat) b := by
  have hset : ∀ s e : Ulong, e.toNat < 32 →
      WritesWord (setBitsInRange s e) true s.toNat (e.toNat + 1) :=
    fun s e he => setBitsInRange_writes he
  have hclear : ∀ s e : Ulong, e.toNat < 32 →
      WritesWord (clearBitsInRange s e) false s.toNat (e.toNat + 1) :=
    fun s e he => clearBitsInRange_writes (setBitsInRange_writes he)
  refine ⟨fun s c h => ⟨?_, ?_⟩, fun i h => ⟨?_, ?_⟩, ?_, ?_, fun i h => rtlTestBit_ok h⟩
  · rw [rtlSetBits, setArrayElements_eq]
    exact writeBits_writes hset h
  · rw [rtlClearBits, clearArrayElements_eq]
    exact writeBits_writes hclear h
  · exact singleBit_writes (setBitsInRange_self i) h
  · exact singleBit_writes (clearBitsInRange_writes (setBitsInRange_self i)) h
  · rw [rtlSetAllBits, setArrayElements_eq]
    exact writeAllBits_writes hset hS
  · rw [rtlClearAllBits, clearArrayElements_eq]
    exact writeAllBits_writes hclear hS

/-- Seventy bits in three words, the last one with padding. -/
def seventyBits : RtlBitMap := ⟨70, [0xFFFFFFFF, 0, 0xFFFFFFFF], by decide⟩

/-- A range over three words of `seventyBits`. -/
theorem writers_change_seventyBits :
    1 ≤ seventyBits.sizeOfBitMap.toNat ∧
    Writes (rtlClearBits 30 38 seventyBits) seventyBits false (30 : Ulong).toNat
      ((30 : Ulong).toNat + (38 : Ulong).toNat) :=
  ⟨by decide, ((writers_change_range seventyBits (by decide)).1 30 38 (by decide)).2⟩

end Wdutf.Bitmap
