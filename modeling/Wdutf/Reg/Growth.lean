import Mathlib.Algebra.Group.Nat.Defs
import Mathlib.Data.List.Basic
import Mathlib.Tactic.Common
import Wdutf.Reg.Table

/-!
# Wdutf.Reg.Growth — the buffer that `DdkQueryValue` reads a value into, `src/registry.cpp`

The loop starts with one page. A pass offers six bytes less than it has allocated, and the
next one adds a page, or allocates what the value was said to need if that is still more.
The second condition ignores the six bytes, so that a value that fits into the new pages
without them takes a pass more.

* `readLoop_fits`, `readLoop_more` — a pass that is the last one, and one that is not;
* `valueBuffer_grows` — three passes are enough, and what the buffer holds then.
-/

namespace Wdutf.Reg

open Wdutf.Block

/-- What the loop ends with: memory that does not suffice, or a block with the value, six
zero bytes behind it and nothing else changed. -/
def ReadInto (heap : Heap) (v : Value) : Option Read → Prop
  | none => ∃ len, heap.realloc len = none
  | some r => r.rc = errorSuccess ∧ r.bytes.toNat = v.data.length ∧
      ∃ len block, heap.realloc len = some block ∧ v.data.length + 6 ≤ len.toNat ∧
        r.data = v.data ++ List.replicate 6 0 ++ block.drop (v.data.length + 6)

variable {heap : Heap} {v : Value} {len bytes : UInt32} {buffer : List UInt8}

theorem toNat_dataLength (v : Value) : (UInt32.ofNat v.data.length).toNat = v.data.length := by
  rw [UInt32.toNat_ofNat']
  exact Nat.mod_eq_of_lt v.size

theorem toNat_sub_nullbytes (h : 6 ≤ len.toNat) : (len - nullbytes).toNat = len.toNat - 6 := by
  have hle : nullbytes ≤ len := UInt32.le_iff_toNat_le.2 h
  rw [UInt32.toNat_sub_of_le _ _ hle]
  rfl

theorem readPass_fits (hfits : v.data.length + 6 ≤ len.toNat) (hsize : buffer.length = len.toNat) :
    readPass (.ok v) len buffer = .ok ⟨errorSuccess, v.type,
      v.data ++ List.replicate 6 0 ++ buffer.drop (v.data.length + 6),
      UInt32.ofNat v.data.length⟩ := by
  have hread : readData (.ok v) (len - nullbytes) =
      (errorSuccess, v.data, UInt32.ofNat v.data.length) := by
    rw [readData, if_pos (by rw [toNat_sub_nullbytes (by omega)]; omega)]
  have hdata : put Stop.outOfBounds buffer 0 v.data =
      .ok (v.data ++ buffer.drop v.data.length) := by
    rw [put_ok (by omega), List.take_zero, List.nil_append, Nat.zero_add]
  have hzeros : put Stop.outOfBounds (v.data ++ buffer.drop v.data.length) v.data.length
      (List.replicate 6 0) =
      .ok (v.data ++ List.replicate 6 0 ++ buffer.drop (v.data.length + 6)) := by
    have hroom : v.data.length + (List.replicate 6 (0 : UInt8)).length ≤
        (v.data ++ buffer.drop v.data.length).length := by
      rw [List.length_replicate, List.length_append, List.length_drop]
      omega
    rw [put_ok hroom, List.take_left, List.length_replicate, List.drop_length_add_append,
      List.drop_drop]
  have hterminate : terminate errorSuccess (v.data ++ buffer.drop v.data.length)
      (UInt32.ofNat v.data.length) =
      .ok (v.data ++ List.replicate 6 0 ++ buffer.drop (v.data.length + 6)) := by
    rw [terminate, if_pos rfl, toNat_dataLength]
    exact hzeros
  unfold readPass
  simp only [hread, hdata, hterminate, bind, Except.bind, typeOf]

theorem readPass_more (hlen : 6 ≤ len.toNat) (hmore : len.toNat < v.data.length + 6) :
    readPass (.ok v) len buffer =
      .ok ⟨errorMoreData, v.type, buffer, UInt32.ofNat v.data.length⟩ := by
  have hread : readData (.ok v) (len - nullbytes) =
      (errorMoreData, [], UInt32.ofNat v.data.length) := by
    rw [readData, if_neg (by rw [toNat_sub_nullbytes hlen]; omega)]
  have hnothing : put Stop.outOfBounds buffer 0 [] = .ok buffer := by
    rw [put_ok (Nat.zero_le _)]
    rfl
  have hne : errorMoreData ≠ errorSuccess := by decide
  unfold readPass
  simp only [hread, hnothing, terminate, if_neg hne, bind, Except.bind, typeOf]

/-- The pass that has room enough is the last one. -/
theorem readLoop_fits (hfits : v.data.length + 6 ≤ (growLen len bytes).toNat) (passes : ℕ) :
    ∃ result, readLoop heap (.ok v) (passes + 1) len bytes = .ok result ∧
      ReadInto heap v result := by
  rw [readLoop]
  cases hblock : heap.realloc (growLen len bytes) with
  | none => exact ⟨none, rfl, _, hblock⟩
  | some block =>
    have hpass := readPass_fits hfits (heap.size hblock)
    have hne : errorSuccess ≠ errorMoreData := by decide
    refine ⟨some ⟨errorSuccess, v.type,
      v.data ++ List.replicate 6 0 ++ block.drop (v.data.length + 6),
      UInt32.ofNat v.data.length⟩, ?_, rfl, toNat_dataLength v, _, block, hblock, hfits, rfl⟩
    simp only [hpass, bind, Except.bind, if_neg hne]

/-- A pass that has not goes on with the size of the value. -/
theorem readLoop_more (hlen : 6 ≤ (growLen len bytes).toNat)
    (hmore : (growLen len bytes).toNat < v.data.length + 6) {passes : ℕ}
    (hnext : ∃ result, readLoop heap (.ok v) passes (growLen len bytes)
      (UInt32.ofNat v.data.length) = .ok result ∧ ReadInto heap v result) :
    ∃ result, readLoop heap (.ok v) (passes + 1) len bytes = .ok result ∧
      ReadInto heap v result := by
  rw [readLoop]
  cases hblock : heap.realloc (growLen len bytes) with
  | none => exact ⟨none, rfl, _, hblock⟩
  | some block =>
    have hpass : readPass (.ok v) (growLen len bytes) block = .ok _ := readPass_more hlen hmore
    simp only [hpass, bind, Except.bind, if_true]
    exact hnext

/-! ## The whole loop -/

theorem toNat_growLen (hlen : len.toNat + 4096 < 2 ^ 32) (hbytes : bytes.toNat + 6 < 2 ^ 32) :
    (growLen len bytes).toNat =
      if len.toNat + 4096 < bytes.toNat then bytes.toNat + 6 else len.toNat + 4096 := by
  have hgrown : (len + 4096).toNat = len.toNat + 4096 := by
    rw [UInt32.toNat_add]
    exact Nat.mod_eq_of_lt hlen
  have hneeded : (bytes + nullbytes).toNat = bytes.toNat + 6 := by
    rw [UInt32.toNat_add]
    exact Nat.mod_eq_of_lt hbytes
  unfold growLen
  by_cases hmore : len + 4096 < bytes
  case pos =>
    rw [if_pos hmore, hneeded, if_pos]
    rwa [UInt32.lt_iff_toNat_lt, hgrown] at hmore
  case neg =>
    rw [if_neg hmore, hgrown, if_neg]
    rwa [UInt32.lt_iff_toNat_lt, hgrown] at hmore

/-- Once the size of the value is known, one page more is enough, or two. -/
theorem readLoop_known (hlen : 4096 ≤ len.toNat) (hroom : len.toNat + 8192 < 2 ^ 32)
    (hsize : v.data.length + 6 < 2 ^ 32) (passes : ℕ) :
    ∃ result, readLoop heap (.ok v) (passes + 2) len (UInt32.ofNat v.data.length) = .ok result ∧
      ReadInto heap v result := by
  have hbytes := toNat_dataLength v
  have hneeded : (UInt32.ofNat v.data.length).toNat + 6 < 2 ^ 32 := by omega
  have hpages : len.toNat + 4096 < 2 ^ 32 := by omega
  have hgrow := toNat_growLen hpages hneeded
  by_cases hfits : v.data.length + 6 ≤ (growLen len (UInt32.ofNat v.data.length)).toNat
  case pos => exact readLoop_fits hfits (passes + 1)
  case neg =>
    -- the value fits into the new pages without the six bytes
    have hpage : (growLen len (UInt32.ofNat v.data.length)).toNat = len.toNat + 4096 := by
      split at hgrow <;> omega
    apply readLoop_more (by omega) (by omega)
    apply readLoop_fits
    have hpages' : (growLen len (UInt32.ofNat v.data.length)).toNat + 4096 < 2 ^ 32 := by omega
    have hnext := toNat_growLen hpages' hneeded
    split at hgrow <;> split at hnext <;> omega

/-- **Value buffer growth.** For every value the loop ends within three passes, inside its
buffers: with a block that has the value and six zero bytes in it, unless the memory does
not suffice. -/
theorem valueBuffer_grows (heap : Heap) (v : Value) (hsize : v.data.length < 2 ^ 31 - 2 ^ 13)
    (passes : ℕ) :
    ∃ result, readLoop heap (.ok v) (passes + 3) 0 0 = .ok result ∧ ReadInto heap v result := by
  have hgrow : (growLen 0 0).toNat = 4096 := by decide
  by_cases hfits : v.data.length + 6 ≤ 4096
  case pos => exact readLoop_fits (by omega) (passes + 2)
  case neg =>
    apply readLoop_more (by omega) (by omega)
    exact readLoop_known (by omega) (by omega) (by omega) passes

/-- A value of 8190 bytes: the first page is too small, and the second one is too small for the
six bytes. -/
def twoPages : Value :=
  ⟨[], regBinary, List.replicate 8190 0xAB, by rw [List.length_replicate]; decide⟩

theorem valueBuffer_grows_twoPages :
    ∃ r, readLoop zeroHeap (.ok twoPages) 3 0 0 = .ok (some r) ∧ r.rc = errorSuccess ∧
      r.bytes.toNat = 8190 ∧ 8196 ≤ r.data.length := by
  have hlength : twoPages.data.length = 8190 := List.length_replicate
  rcases valueBuffer_grows zeroHeap twoPages (by omega) 0 with ⟨result, hrun, hread⟩
  cases result with
  | none =>
    rcases hread with ⟨len, hnone⟩
    cases hnone
  | some r =>
    rcases hread with ⟨hrc, hbytes, len, block, -, -, hdata⟩
    refine ⟨r, hrun, hrc, hbytes.trans hlength, ?_⟩
    rw [hdata, List.length_append, List.length_append, hlength, List.length_replicate]
    omega

end Wdutf.Reg
