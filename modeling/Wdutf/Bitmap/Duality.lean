import Mathlib.Data.List.Basic
import Mathlib.Tactic.Common
import Wdutf.Bitmap.Words

/-!
# Wdutf.Bitmap.Duality — the set routines are the clear routines on the complement

`comp b` is the bitmap with every word complemented. Two actions are `Dual`
when running the second on `comp b` gives what the first gives on `b`: the
same value or the same fault, and the complement of the buffer it leaves.
`Dual` is closed under sequencing, branching and the loops of the model, and
it relates the reads and writes of complementary words. From that:

* `numSetBitsFound_eq` — the two hand-written scanners are the same function
  of complementary words;
* `dual_findBits`, `dual_areBits`, `dual_writeBits`, `dual_writeAllBits` — each
  pair of routines is dual, through both passes of the search.
-/

namespace Wdutf.Bitmap

open Wdutf.Action

/-- Every word of the buffer complemented. -/
def RtlBitMap.comp (b : RtlBitMap) : RtlBitMap :=
  ⟨b.sizeOfBitMap, b.buffer.map (~~~ ·), by simpa using b.covers⟩

@[simp] theorem comp_sizeOfBitMap (b : RtlBitMap) : b.comp.sizeOfBitMap = b.sizeOfBitMap := rfl

@[simp] theorem comp_wordCount (b : RtlBitMap) : b.comp.wordCount = b.wordCount := rfl

theorem comp_word {b : RtlBitMap} {i : ℕ} (h : i < b.wordCount) : b.comp.word i = ~~~b.word i := by
  have hlen : i < b.buffer.length := lt_of_lt_of_le h b.wordCount_le
  simp [RtlBitMap.word, RtlBitMap.comp, hlen]

theorem comp_bit {b : RtlBitMap} {i : ℕ} (h : i / 32 < b.wordCount) : b.comp.bit i = !b.bit i := by
  rw [RtlBitMap.bit, comp_word h, wordBit_not _ (by omega), RtlBitMap.bit]

/-- The outcome of a run, with the buffer it leaves complemented. -/
def compOutcome {α : Type} :
    EStateM.Result Fault RtlBitMap α → EStateM.Result Fault RtlBitMap α
  | .ok a b => .ok a b.comp
  | .error e b => .error e b.comp

/-- Running `m'` on the complement is running `m` and complementing. -/
def Dual {α : Type} (m m' : BitMapM α) : Prop := ∀ b : RtlBitMap, m' b.comp = compOutcome (m b)

namespace Dual

variable {α β : Type}

protected theorem pure (a : α) : Dual (pure a) (pure a) := fun _ => rfl

protected theorem bind {m m' : BitMapM α} {k k' : α → BitMapM β} (h : Dual m m')
    (hk : ∀ a, Dual (k a) (k' a)) : Dual (m >>= k) (m' >>= k') := by
  intro b
  have hb := h b
  cases hm : m b with
  | ok a b' =>
    rw [hm, compOutcome] at hb
    rw [bind_ok hm, bind_ok hb]
    exact hk a b'
  | error e b' =>
    rw [hm, compOutcome] at hb
    rw [bind_error hm, bind_error hb, compOutcome]

protected theorem ite {p : Prop} [Decidable p] {m m' n n' : BitMapM α} (hm : Dual m m')
    (hn : Dual n n') : Dual (if p then m else n) (if p then m' else n') := by
  split
  · exact hm
  · exact hn

protected theorem ddkAssert (c : Bool) : Dual (ddkAssert c) (ddkAssert c) := by
  intro b
  cases hc : c with
  | true => rw [ddkAssert_true rfl, ddkAssert_true rfl, compOutcome]
  | false => rw [ddkAssert_false rfl, ddkAssert_false rfl, compOutcome]

/-- A read sees complementary words. -/
protected theorem getWord_bind (i : Ulong) {k k' : Ulong → BitMapM β}
    (hk : ∀ w, Dual (k w) (k' (~~~w))) : Dual (getWord i >>= k) (getWord i >>= k') := by
  intro b
  by_cases h : i.toNat < b.wordCount
  · rw [bind_ok (getWord_ok h), bind_ok (getWord_ok (b := b.comp) h), comp_word h]
    exact hk _ b
  · have hb : getWord i b = .error .outOfBounds b := by rw [getWord, if_neg h]
    have hb' : getWord i b.comp = .error .outOfBounds b.comp := by
      rw [getWord, if_neg (by simpa using h)]
    rw [bind_error hb, bind_error hb', compOutcome]

/-- Writes of complementary values keep the buffers complementary. -/
protected theorem modifyWord (i : Ulong) {f f' : Ulong → Ulong} (hf : ∀ w, f' (~~~w) = ~~~f w) :
    Dual (modifyWord i f) (modifyWord i f') := by
  intro b
  by_cases h : i.toNat < b.wordCount
  · rw [modifyWord, modifyWord, if_pos h, if_pos (by simpa using h), compOutcome]
    congr 1
    simp only [RtlBitMap.comp, RtlBitMap.mk.injEq, true_and]
    apply List.ext_getElem
    · simp
    · intro j hj hj'
      by_cases hij : i.toNat = j
      · simp [hij, hf]
      · simp [hij]
  · rw [modifyWord, modifyWord, if_neg h, if_neg (by simpa using h), compOutcome]

protected theorem forM {xs : List α} {body body' : α → BitMapM PUnit}
    (h : ∀ x, Dual (body x) (body' x)) : Dual (xs.forM body) (xs.forM body') := by
  induction xs with
  | nil => exact Dual.pure _
  | cons x xs ih => exact Dual.bind (h x) fun _ => ih

end Dual

/-! ## The functions in which the two halves differ -/

theorem not_allBitsSet : ~~~allBitsSet = (0 : Ulong) := by decide

theorem not_zero : ~~~(0 : Ulong) = allBitsSet := by decide

theorem not_eq_zero_iff (w : Ulong) : ~~~w = 0 ↔ w = allBitsSet := by
  constructor
  · intro h
    rw [← UInt32.not_not (a := w), h, not_zero]
  · intro h
    rw [h, not_allBitsSet]

theorem not_and_bitMask_beq_zero (w k : Ulong) :
    ((~~~w &&& bitMask k) == 0) = ((w &&& bitMask k) != 0) := by
  rw [and_bitMask_beq_zero, and_bitMask_bne_zero, wordBit_not _ (by omega), Bool.not_not]

theorem not_and_bitMask_bne_zero (w k : Ulong) :
    ((~~~w &&& bitMask k) != 0) = ((w &&& bitMask k) == 0) := by
  rw [bne, not_and_bitMask_beq_zero, bne, Bool.not_not]

theorem not_or_eq (v w : Ulong) : ~~~(v ||| w) = ~~~v &&& ~~~w := by
  apply UInt32.toBitVec_inj.1
  simp [BitVec.not_or]

theorem clearBitsInRange_not (startingIndex endIndex w : Ulong) :
    clearBitsInRange startingIndex endIndex (~~~w) =
      ~~~setBitsInRange startingIndex endIndex w := by
  rw [clearBitsInRange, setBitsInRange]
  induction ulongsTo startingIndex endIndex generalizing w with
  | nil => rfl
  | cons k ks ih => rw [List.foldl_cons, List.foldl_cons, ← not_or_eq, ih]

theorem setBitsInRange_not (startingIndex endIndex w : Ulong) :
    setBitsInRange startingIndex endIndex (~~~w) =
      ~~~clearBitsInRange startingIndex endIndex w := by
  have h := clearBitsInRange_not startingIndex endIndex (~~~w)
  rw [UInt32.not_not] at h
  rw [h, UInt32.not_not]

theorem scanBits_not (w bufferIndex numToFind : Ulong) (bitNums : List Ulong) (r : Run) :
    scanBits (fun bitSet => bitSet != 0) w bufferIndex numToFind bitNums r =
      scanBits (fun bitSet => bitSet == 0) (~~~w) bufferIndex numToFind bitNums r := by
  induction bitNums generalizing r with
  | nil => rfl
  | cons k ks ih => simp only [scanBits, not_and_bitMask_beq_zero, ih]

/-- The two hand-written scanners agree on complementary words. -/
theorem numSetBitsFound_eq (w bufferIndex numToFind startBit endBit : Ulong) (r : Run) :
    numSetBitsFound w bufferIndex numToFind startBit endBit r =
      numClearBitsFound (~~~w) bufferIndex numToFind startBit endBit r := by
  simp only [numSetBitsFound, numClearBitsFound, not_eq_zero_iff, scanBits_not]

/-! ## The routines -/

theorem dual_fillArrayElements (value first last : Ulong) :
    Dual (fillArrayElements value first last) (fillArrayElements (~~~value) first last) :=
  Dual.forM fun i => Dual.modifyWord i fun _ => rfl

theorem dual_setArrayElements (first last : Ulong) :
    Dual (setArrayElements first last) (clearArrayElements first last) := by
  have h := dual_fillArrayElements allBitsSet first last
  rwa [not_allBitsSet] at h

theorem dual_clearArrayElements (first last : Ulong) :
    Dual (clearArrayElements first last) (setArrayElements first last) := by
  have h := dual_fillArrayElements 0 first last
  rwa [not_zero] at h

section Writers

variable {elements elements' : Ulong → Ulong → BitMapM Unit}
variable {bits bits' : Ulong → Ulong → Ulong → Ulong}

theorem dual_writeBits (helements : ∀ first last, Dual (elements first last) (elements' first last))
    (hbits : ∀ first last w, bits' first last (~~~w) = ~~~bits first last w) (s c : Ulong) :
    Dual (writeBits elements bits s c) (writeBits elements' bits' s c) := by
  intro b
  rw [writeBits, writeBits, get_bind, get_bind, comp_sizeOfBitMap]
  refine Dual.bind (Dual.ddkAssert _) (fun _ => Dual.ite ?_ (Dual.pure ())) b
  refine Dual.ite (Dual.modifyWord _ (hbits _ _)) ?_
  exact Dual.bind (Dual.modifyWord _ (hbits _ _)) fun _ =>
    Dual.bind (helements _ _) fun _ => Dual.modifyWord _ (hbits _ _)

theorem dual_writeAllBits
    (helements : ∀ first last, Dual (elements first last) (elements' first last))
    (hbits : ∀ first last w, bits' first last (~~~w) = ~~~bits first last w) :
    Dual (writeAllBits elements bits) (writeAllBits elements' bits') := by
  intro b
  rw [writeAllBits, writeAllBits, get_bind, get_bind, comp_sizeOfBitMap]
  refine Dual.ite ?_ (Dual.modifyWord _ (hbits _ _)) b
  exact Dual.bind (helements _ _) fun _ => Dual.modifyWord _ (hbits _ _)

end Writers

section Readers

variable {mismatch mismatch' : Ulong → Bool}

theorem dual_checkElementBits
    (h : ∀ w k, mismatch' (~~~w &&& bitMask k) = mismatch (w &&& bitMask k))
    (stop : Bool) (length i : Ulong) (bitNums : List Ulong) (c : Ulong) :
    Dual (checkElementBits mismatch stop length i bitNums c)
      (checkElementBits mismatch' stop length i bitNums c) := by
  induction bitNums generalizing c with
  | nil => exact Dual.pure _
  | cons k ks ih =>
    rw [checkElementBits, checkElementBits]
    refine Dual.ite (Dual.getWord_bind _ fun w => ?_) (Dual.ite (Dual.pure _) (ih _))
    rw [h]
    exact Dual.ite (Dual.pure _) (ih _)

theorem dual_checkElements (element length : Ulong) (bufferNums : List Ulong) (c : Ulong) :
    Dual (checkElements element length bufferNums c)
      (checkElements (~~~element) length bufferNums c) := by
  induction bufferNums generalizing c with
  | nil => exact Dual.pure _
  | cons i is ih =>
    rw [checkElements, checkElements]
    refine Dual.ite (Dual.getWord_bind _ fun w => ?_) (Dual.pure _)
    have hne : (~~~element ≠ ~~~w) ↔ (element ≠ w) := by simp
    simp only [hne]
    exact Dual.ite (Dual.pure _) (ih _)

/-- The code after a loop sees the same `Flow` on both sides. -/
theorem dual_flow {α : Type} {m m' : BitMapM Flow} (h : Dual m m') {k k' : Ulong → BitMapM α}
    {ret : Bool → BitMapM α} (hret : ∀ v, Dual (ret v) (ret v)) (hk : ∀ c, Dual (k c) (k' c)) :
    Dual (m >>= fun | .ret value => ret value | .next bitsChecked => k bitsChecked)
      (m' >>= fun | .ret value => ret value | .next bitsChecked => k' bitsChecked) := by
  refine Dual.bind h fun flow => ?_
  cases flow with
  | ret value => exact hret value
  | next bitsChecked => exact hk bitsChecked

theorem dual_areBits
    (h : ∀ w k, mismatch' (~~~w &&& bitMask k) = mismatch (w &&& bitMask k))
    (element i l : Ulong) :
    Dual (areBits mismatch element i l) (areBits mismatch' (~~~element) i l) := by
  intro b
  rw [areBits, areBits, get_bind, get_bind, comp_sizeOfBitMap]
  refine Dual.ite (Dual.pure _) (Dual.ite ?_ ?_) b
  · exact dual_flow (dual_checkElementBits h _ _ _ _ _) (fun v => Dual.pure v) fun _ => Dual.pure _
  · refine dual_flow (dual_checkElementBits h _ _ _ _ _) (fun v => Dual.pure v) fun _ => ?_
    refine dual_flow (dual_checkElements _ _ _ _) (fun v => Dual.pure v) fun _ => ?_
    exact dual_flow (dual_checkElementBits h _ _ _ _ _) (fun v => Dual.pure v) fun _ => Dual.pure _

end Readers

section Search

variable {found found' : Scanner}

/-- The code after a scan sees the same result on both sides. -/
theorem dual_found {α : Type} {m m' : BitMapM (Bool × Run)} (h : Dual m m')
    {k k' ret : Run → BitMapM α} (hret : ∀ r, Dual (ret r) (ret r)) (hk : ∀ r, Dual (k r) (k' r)) :
    Dual (m >>= fun | (true, r) => ret r | (false, r) => k r)
      (m' >>= fun | (true, r) => ret r | (false, r) => k' r) := by
  refine Dual.bind h fun res => ?_
  rcases res with ⟨fnd, r⟩
  cases fnd with
  | true => exact hret r
  | false => exact hk r

theorem dual_scanElements
    (h : ∀ w i n s e r, found w i n s e r = found' (~~~w) i n s e r)
    (n : Ulong) (bufferIndices : List Ulong) (r : Run) :
    Dual (scanElements found n bufferIndices r) (scanElements found' n bufferIndices r) := by
  induction bufferIndices generalizing r with
  | nil => exact Dual.pure _
  | cons i is ih =>
    rw [scanElements, scanElements]
    refine Dual.getWord_bind _ fun w => ?_
    rw [← h]
    split
    · exact Dual.pure _
    · exact ih _

theorem dual_searchPass
    (h : ∀ w i n s e r, found w i n s e r = found' (~~~w) i n s e r)
    (n startIndex startPosition lastIndex lastPosition : Ulong) (r : Run) :
    Dual (searchPass found n startIndex startPosition lastIndex lastPosition r)
      (searchPass found' n startIndex startPosition lastIndex lastPosition r) := by
  rw [searchPass, searchPass]
  refine Dual.getWord_bind _ fun w => Dual.ite ?_ ?_
  · rw [h]
    exact Dual.pure _
  · rw [← h]
    split
    · exact Dual.pure _
    · refine dual_found (dual_scanElements h _ _ _) (fun r => Dual.pure _) fun r => ?_
      refine Dual.getWord_bind _ fun w => ?_
      rw [h]
      exact Dual.pure _

theorem dual_searchLoop
    (h : ∀ w i n s e r, found w i n s e r = found' (~~~w) i n s e r)
    (n lastIndex lastPosition : Ulong) (loopCount : ℕ) (startIndex startPosition : Ulong)
    (r : Run) :
    Dual (searchLoop found n lastIndex lastPosition loopCount startIndex startPosition r)
      (searchLoop found' n lastIndex lastPosition loopCount startIndex startPosition r) := by
  induction loopCount generalizing startIndex startPosition r with
  | zero => exact Dual.pure _
  | succ k ih =>
    rw [searchLoop, searchLoop]
    exact dual_found (dual_searchPass h _ _ _ _ _ _) (fun r => Dual.pure _) fun r => ih _ _ _

theorem dual_findBits
    (h : ∀ w i n s e r, found w i n s e r = found' (~~~w) i n s e r) (n hint : Ulong) :
    Dual (findBits found n hint) (findBits found' n hint) := by
  intro b
  rw [findBits, findBits, get_bind, get_bind, comp_sizeOfBitMap]
  refine Dual.ite (Dual.ite ?_ ?_) (Dual.pure _) b
  · exact dual_searchLoop h _ _ _ _ _ _ _
  · exact dual_searchLoop h _ _ _ _ _ _ _

end Search

theorem dual_rtlFindSetBits (n hint : Ulong) :
    Dual (rtlFindSetBits n hint) (rtlFindClearBits n hint) :=
  dual_findBits numSetBitsFound_eq n hint

theorem dual_rtlAreBitsSet (i l : Ulong) : Dual (rtlAreBitsSet i l) (rtlAreBitsClear i l) := by
  have h : Dual (areBits (fun bitSet => bitSet == 0) allBitsSet i l)
      (areBits (fun bitSet => bitSet != 0) (~~~allBitsSet) i l) :=
    dual_areBits not_and_bitMask_bne_zero allBitsSet i l
  rwa [not_allBitsSet] at h

theorem dual_rtlSetBits (s c : Ulong) : Dual (rtlSetBits s c) (rtlClearBits s c) :=
  dual_writeBits dual_setArrayElements clearBitsInRange_not s c

theorem dual_rtlClearBits (s c : Ulong) : Dual (rtlClearBits s c) (rtlSetBits s c) :=
  dual_writeBits dual_clearArrayElements setBitsInRange_not s c

theorem dual_rtlSetAllBits : Dual rtlSetAllBits rtlClearAllBits :=
  dual_writeAllBits dual_setArrayElements clearBitsInRange_not

theorem dual_rtlFindSetBitsAndClear (n hint : Ulong) :
    Dual (rtlFindSetBitsAndClear n hint) (rtlFindClearBitsAndSet n hint) := by
  rw [rtlFindSetBitsAndClear, rtlFindClearBitsAndSet]
  refine Dual.bind (dual_rtlFindSetBits n hint) fun s => ?_
  exact Dual.ite (Dual.bind (dual_rtlClearBits s n) fun _ => Dual.pure _) (Dual.pure _)

/-- **Set/clear duality.** Each set routine on `b` and its clear counterpart on
the complement of `b` return the same value or fail alike, and leave
complementary buffers, for all arguments. -/
theorem set_clear_duality (b : RtlBitMap) :
    (∀ n hint, rtlFindClearBits n hint b.comp = compOutcome (rtlFindSetBits n hint b)) ∧
    (∀ i l, rtlAreBitsClear i l b.comp = compOutcome (rtlAreBitsSet i l b)) ∧
    (∀ s c, rtlClearBits s c b.comp = compOutcome (rtlSetBits s c b)) ∧
    rtlClearAllBits b.comp = compOutcome (rtlSetAllBits b) ∧
    (∀ n hint, rtlFindClearBitsAndSet n hint b.comp =
      compOutcome (rtlFindSetBitsAndClear n hint b)) :=
  ⟨fun n hint => dual_rtlFindSetBits n hint b, fun i l => dual_rtlAreBitsSet i l b,
    fun s c => dual_rtlSetBits s c b, dual_rtlSetAllBits b,
    fun n hint => dual_rtlFindSetBitsAndClear n hint b⟩

end Wdutf.Bitmap
