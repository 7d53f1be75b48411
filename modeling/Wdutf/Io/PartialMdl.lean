import Mathlib.Algebra.Group.Nat.Defs
import Mathlib.Data.List.Basic
import Mathlib.Logic.Function.Basic
import Mathlib.Tactic.Common
import Wdutf.Io.Ioctl

/-!
# Wdutf.Io.PartialMdl — MDLs for parts of other MDLs, `src/mdl.cpp` and `src/memory.cpp`

An MDL has the numbers of the pages of a buffer in an array behind it. `IoBuildPartialMdl`
makes an MDL for a part of the buffer of another one. It does not copy the numbers from
there, but computes them from the address.

Its assertions do not keep it within the other array, nor within its own. `Size` is a
`CSHORT`, which a comparison with a `SIZE_T` extends with its sign, so that a negative size
is large enough for anything; and the end of the part may wrap.

* `pageCount` — how many pages a range has;
* `IsSlice` — what a partial MDL should be of the MDL that its pages come from;
* `partialMdl_isSlice_iff` — exactly when it is, over any chain of partial MDLs.
-/

namespace Wdutf.PartialMdl

/-! ## The model -/

def mdlMappedToSystemVa : UInt16 := 0x1
def mdlPagesLocked : UInt16 := 0x2
def mdlSourceIsNonpagedPool : UInt16 := 0x4
def mdlPartial : UInt16 := 0x10

/-- `MDL`, with the array behind it, in memory that goes on. The rest of the fields are not
read. -/
structure Mdl where
  next : UInt64
  size : Int16
  mdlFlags : UInt16
  startVa : UInt64
  byteCount : UInt32
  byteOffset : UInt32
  pfn : ℕ → UInt64

/-- `MmGetMdlVirtualAddress`. -/
def mmGetMdlVirtualAddress (mdl : Mdl) : UInt64 := mdl.startVa + mdl.byteOffset.toUInt64

/-- `BYTE_OFFSET`. -/
def byteOffset (va : UInt64) : UInt32 := (va &&& 0xFFF).toUInt32

/-- `ADDRESS_AND_SIZE_TO_SPAN_PAGES`. -/
def addressAndSizeToSpanPages (va size : UInt64) : UInt64 :=
  ((byteOffset va).toUInt64 + size + 4095) >>> 12

/-- `MmSizeOfMdl`: `sizeof(MDL)` is 48, `sizeof(PFN_NUMBER)` is 8. -/
def mmSizeOfMdl (base length : UInt64) : UInt64 := 48 + addressAndSizeToSpanPages base length * 8

/-- `MmInitializeMdl`. -/
def mmInitializeMdl (mdl : Mdl) (baseVa : UInt64) (length : UInt32) : Mdl :=
  { mdl with
    next := 0
    size := (mmSizeOfMdl baseVa length.toUInt64).toUInt16.toInt16
    mdlFlags := 0
    startVa := baseVa &&& ~~~0xFFF
    byteCount := length
    byteOffset := byteOffset baseVa }

/-- `IoAllocateMdl`, without an IRP. The memory is zeroed. -/
def ioAllocateMdl (virtualAddress : UInt64) (length : UInt32) : Mdl :=
  mmInitializeMdl ⟨0, 0, 0, 0, 0, 0, fun _ => 0⟩ virtualAddress length

/-- The loop that fills the array, as it is in `IoBuildPartialMdl` and `MmProbeAndLockPages`. -/
def fillPfnArray (mdl : Mdl) (pages : UInt32) : Mdl :=
  (List.range pages.toNat).foldl (fun mdl i =>
    { mdl with
      pfn := Function.update mdl.pfn i
        ((mmGetMdlVirtualAddress mdl >>> 12) + (UInt32.ofNat i).toUInt64) }) mdl

/-- `ULONG pages`. -/
def spanPages (va : UInt64) (length : UInt32) : UInt32 :=
  (addressAndSizeToSpanPages va length.toUInt64).toUInt32

/-- `MmProbeAndLockPages`. -/
def mmProbeAndLockPages (mdl : Mdl) : Mdl :=
  let filled := fillPfnArray mdl (spanPages (mmGetMdlVirtualAddress mdl) mdl.byteCount)
  { filled with mdlFlags := filled.mdlFlags ||| mdlPagesLocked }

/-- The assertions of `IoBuildPartialMdl`, in their order. -/
inductive Assertion where
  | irql
  | flags
  | belowSource
  | aboveSource
  | noLength
  | tooLong
  | targetSize
deriving DecidableEq, Repr

/-- `Length`, which is the rest of the source if it is 0. -/
def lengthOrRest (sourceMdl : Mdl) (virtualAddress : UInt64) (length : UInt32) : UInt32 :=
  if length = 0 then
    sourceMdl.byteCount - (virtualAddress - mmGetMdlVirtualAddress sourceMdl).toUInt32
  else length

/-- `IoBuildPartialMdl`: the target, or the assertion that failed. -/
def ioBuildPartialMdl (irql : UInt8) (sourceMdl targetMdl : Mdl) (virtualAddress : UInt64)
    (length : UInt32) : Except Assertion Mdl :=
  let sourceAddress := mmGetMdlVirtualAddress sourceMdl
  if ¬ irql ≤ 2 then .error .irql
  else if sourceMdl.mdlFlags &&&
      (mdlPagesLocked ||| mdlMappedToSystemVa ||| mdlSourceIsNonpagedPool) = 0 then .error .flags
  else if ¬ sourceAddress ≤ virtualAddress then .error .belowSource
  else if ¬ virtualAddress < sourceAddress + sourceMdl.byteCount.toUInt64 then
    .error .aboveSource
  else
    let length := lengthOrRest sourceMdl virtualAddress length
    if length = 0 then .error .noLength
    else if ¬ virtualAddress + length.toUInt64 ≤
        sourceAddress + sourceMdl.byteCount.toUInt64 then .error .tooLong
    -- the comparison converts `Size` to a `SIZE_T`
    else if ¬ mmSizeOfMdl virtualAddress length.toUInt64 ≤ targetMdl.size.toInt64.toUInt64 then
      .error .targetSize
    else
      let targetMdl := mmInitializeMdl targetMdl virtualAddress length
      let filled := fillPfnArray targetMdl (spanPages virtualAddress length)
      .ok { filled with mdlFlags := filled.mdlFlags ||| mdlPartial }

/-! ## Pages -/

/-- How many pages the `n` bytes from the address `a` on have a part of. -/
def pageCount (a n : ℕ) : ℕ := (a + n - 1) / 4096 - a / 4096 + 1

theorem toNat_byteOffset (va : UInt64) : (byteOffset va).toNat = va.toNat % 4096 := by
  have hand : (va &&& 0xFFF).toNat = va.toNat % 4096 := by
    rw [UInt64.toNat_and]
    exact Nat.and_two_pow_sub_one_eq_mod va.toNat 12
  rw [byteOffset, UInt64.toNat_toUInt32, hand]
  omega

/-- The rounding up counts the pages. -/
theorem toNat_addressAndSizeToSpanPages (va : UInt64) {length : UInt32} (hlength : length ≠ 0) :
    (addressAndSizeToSpanPages va length.toUInt64).toNat = pageCount va.toNat length.toNat := by
  have hlt := length.toNat_lt
  have hpos : 0 < length.toNat :=
    Nat.pos_of_ne_zero fun h => hlength (UInt32.toNat_inj.1 h)
  have hoffset := toNat_byteOffset va
  unfold addressAndSizeToSpanPages pageCount
  simp only [UInt64.toNat_shiftRight, UInt64.toNat_add, UInt32.toNat_toUInt64, hoffset,
    UInt64.reduceToNat, Nat.reduceMod, Nat.shiftRight_eq_div_pow]
  omega

theorem toNat_spanPages (va : UInt64) {length : UInt32} (hlength : length ≠ 0) :
    (spanPages va length).toNat = pageCount va.toNat length.toNat := by
  have hlt := length.toNat_lt
  have hspan := toNat_addressAndSizeToSpanPages va hlength
  rw [spanPages, UInt64.toNat_toUInt32, hspan]
  refine Nat.mod_eq_of_lt ?_
  unfold pageCount
  omega

theorem toNat_mmSizeOfMdl (va : UInt64) {length : UInt32} (hlength : length ≠ 0) :
    (mmSizeOfMdl va length.toUInt64).toNat = 48 + 8 * pageCount va.toNat length.toNat := by
  have hlt := length.toNat_lt
  have hspan := toNat_addressAndSizeToSpanPages va hlength
  have hcount : pageCount va.toNat length.toNat ≤ 2 ^ 20 + 1 := by
    unfold pageCount
    omega
  rw [mmSizeOfMdl, UInt64.toNat_add, UInt64.toNat_mul, hspan]
  simp only [UInt64.reduceToNat]
  omega

/-! ## The array -/

theorem foldl_pfn (mdl : Mdl) (n : ℕ) :
    (List.range n).foldl (fun mdl i =>
      { mdl with
        pfn := Function.update mdl.pfn i
          ((mmGetMdlVirtualAddress mdl >>> 12) + (UInt32.ofNat i).toUInt64) }) mdl =
    { mdl with
      pfn := fun i =>
        if i < n then (mmGetMdlVirtualAddress mdl >>> 12) + (UInt32.ofNat i).toUInt64
        else mdl.pfn i } := by
  induction n with
  | zero => rfl
  | succ n ih =>
    rw [List.range_succ, List.foldl_append, ih, List.foldl_cons, List.foldl_nil, Mdl.mk.injEq]
    refine ⟨rfl, rfl, rfl, rfl, rfl, rfl, funext fun i => ?_⟩
    rcases Nat.lt_trichotomy i n with hlt | rfl | hgt
    · rw [Function.update_of_ne (by omega)]
      exact (if_pos hlt).trans (if_pos (by omega)).symm
    · rw [Function.update_self, if_pos (by omega)]
      rfl
    · rw [Function.update_of_ne (by omega)]
      exact (if_neg (by omega)).trans (if_neg (by omega)).symm

/-- What the loop leaves: the pages from the one of the address on, and the rest of the MDL. -/
theorem fillPfnArray_eq (mdl : Mdl) (pages : UInt32) :
    fillPfnArray mdl pages =
      { mdl with
        pfn := fun i =>
          if i < pages.toNat then (mmGetMdlVirtualAddress mdl >>> 12) + (UInt32.ofNat i).toUInt64
          else mdl.pfn i } := foldl_pfn mdl pages.toNat

/-- An entry does not depend on where the array starts. -/
theorem pfn_eq {va va' : UInt64} {i j : ℕ} (hi : i < 2 ^ 32) (hj : j < 2 ^ 32)
    (h : va.toNat / 4096 + i = va'.toNat / 4096 + j) :
    (va >>> 12) + (UInt32.ofNat i).toUInt64 = (va' >>> 12) + (UInt32.ofNat j).toUInt64 := by
  apply UInt64.toNat_inj.1
  simp only [UInt64.toNat_add, UInt64.toNat_shiftRight, UInt32.toNat_toUInt64, UInt32.toNat_ofNat',
    UInt64.reduceToNat, Nat.reduceMod, Nat.shiftRight_eq_div_pow]
  omega

theorem mmGetMdlVirtualAddress_init (mdl : Mdl) (va : UInt64) (length : UInt32) :
    mmGetMdlVirtualAddress (mmInitializeMdl mdl va length) = va := by
  have hoffset : (byteOffset va).toUInt64 = va &&& 0xFFF := by
    apply UInt64.toNat_inj.1
    rw [UInt32.toNat_toUInt64, toNat_byteOffset, UInt64.toNat_and]
    exact (Nat.and_two_pow_sub_one_eq_mod va.toNat 12).symm
  show (va &&& ~~~0xFFF) + (byteOffset va).toUInt64 = va
  rw [hoffset]
  exact UInt64.toBitVec_inj.1 (Io.and_not_add_and va.toBitVec _)

theorem pageCount_lt (a : ℕ) (n : UInt32) : pageCount a n.toNat < 2 ^ 32 := by
  have hlt := n.toNat_lt
  unfold pageCount
  omega

/-- A locked MDL has the pages of its buffer. -/
theorem pfn_locked {mdl : Mdl} (hcount : mdl.byteCount ≠ 0) {i : ℕ}
    (hi : i < pageCount (mmGetMdlVirtualAddress mdl).toNat mdl.byteCount.toNat) :
    (mmProbeAndLockPages mdl).pfn i =
      (mmGetMdlVirtualAddress mdl >>> 12) + (UInt32.ofNat i).toUInt64 := by
  rw [mmProbeAndLockPages, fillPfnArray_eq]
  exact if_pos (by rwa [toNat_spanPages _ hcount])

@[simp] theorem mmGetMdlVirtualAddress_lock (mdl : Mdl) :
    mmGetMdlVirtualAddress (mmProbeAndLockPages mdl) = mmGetMdlVirtualAddress mdl := by
  rw [mmProbeAndLockPages, fillPfnArray_eq]
  rfl

@[simp] theorem byteCount_lock (mdl : Mdl) :
    (mmProbeAndLockPages mdl).byteCount = mdl.byteCount := by
  rw [mmProbeAndLockPages, fillPfnArray_eq]

/-! ## Partial MDLs -/

/-- What a partial MDL is: it is for `length` bytes at `va`, the entries that were written
are those of the source for its pages, and they lie in the array of the source and in the
`Size` that the target had. -/
structure IsSlice (source target result : Mdl) (va : UInt64) (length : UInt32) : Prop where
  address : mmGetMdlVirtualAddress result = va
  byteCount : result.byteCount = length
  entries : ∀ i < pageCount va.toNat length.toNat, result.pfn i =
    source.pfn (va.toNat / 4096 - (mmGetMdlVirtualAddress source).toNat / 4096 + i)
  others : ∀ i, pageCount va.toNat length.toNat ≤ i → result.pfn i = target.pfn i
  within : va.toNat / 4096 - (mmGetMdlVirtualAddress source).toNat / 4096 +
    pageCount va.toNat length.toNat ≤
      pageCount (mmGetMdlVirtualAddress source).toNat source.byteCount.toNat
  fits : (48 + 8 * pageCount va.toNat length.toNat : ℤ) ≤ target.size.toInt

/-- When it is one: the `Size` of the target is not negative, and the part does not wrap. It
may end with the address space if the source has the last page as well. -/
def Fits (source target : Mdl) (va : UInt64) (length : UInt32) : Prop :=
  0 ≤ target.size.toInt ∧
    (va.toNat + length.toNat < 2 ^ 64 ∨ va.toNat + length.toNat = 2 ^ 64 ∧
      2 ^ 64 - 4096 < (mmGetMdlVirtualAddress source).toNat + source.byteCount.toNat)

/-- The MDLs that are built from a source, and from each other. They are made without the flags
that the assertion wants, so that they are locked first, or their flags are set. -/
inductive Derived (source : Mdl) : Mdl → Prop
  | source : Derived source source
  | lock {mdl : Mdl} : Derived source mdl → Derived source (mmProbeAndLockPages mdl)
  | build {mdl target result : Mdl} {irql : UInt8} {flags : UInt16} {va : UInt64}
      {length : UInt32} :
      Derived source mdl →
      ioBuildPartialMdl irql { mdl with mdlFlags := flags } target va length = .ok result →
      Fits source target va (lengthOrRest mdl va length) → Derived source result

/-- A call that goes on behind an assertion. -/
theorem assertion_ok {c : Prop} [Decidable c] {e : Assertion} {x : Except Assertion Mdl}
    {result : Mdl} (h : (if c then .error e else x) = .ok result) : ¬ c ∧ x = .ok result := by
  split at h
  case isTrue => cases h
  case isFalse hc => exact ⟨hc, h⟩

/-- What a call that returns has found, and what it leaves. -/
theorem build_cases {irql : UInt8} {mdl target result : Mdl} {va : UInt64} {length : UInt32}
    (h : ioBuildPartialMdl irql mdl target va length = .ok result) :
    mmGetMdlVirtualAddress mdl ≤ va ∧
    va < mmGetMdlVirtualAddress mdl + mdl.byteCount.toUInt64 ∧
    lengthOrRest mdl va length ≠ 0 ∧
    va + (lengthOrRest mdl va length).toUInt64 ≤
      mmGetMdlVirtualAddress mdl + mdl.byteCount.toUInt64 ∧
    mmSizeOfMdl va (lengthOrRest mdl va length).toUInt64 ≤ target.size.toInt64.toUInt64 ∧
    mmGetMdlVirtualAddress result = va ∧ result.byteCount = lengthOrRest mdl va length ∧
    ∀ i, result.pfn i =
      if i < pageCount va.toNat (lengthOrRest mdl va length).toNat then
        (va >>> 12) + (UInt32.ofNat i).toUInt64
      else target.pfn i := by
  rcases assertion_ok h with ⟨-, h⟩
  rcases assertion_ok h with ⟨-, h⟩
  rcases assertion_ok h with ⟨hbelow, h⟩
  rcases assertion_ok h with ⟨habove, h⟩
  rcases assertion_ok h with ⟨hlength, h⟩
  rcases assertion_ok h with ⟨hlong, h⟩
  rcases assertion_ok h with ⟨hsize, h⟩
  dsimp only at h
  rw [fillPfnArray_eq, mmGetMdlVirtualAddress_init, toNat_spanPages _ hlength] at h
  rcases Except.ok.inj h with rfl
  exact ⟨not_not.1 hbelow, not_not.1 habove, hlength, not_not.1 hlong, not_not.1 hsize,
    mmGetMdlVirtualAddress_init target va (lengthOrRest mdl va length), rfl, fun _ => rfl⟩

/-! ## Chains of partial MDLs -/

/-- An MDL that is for a part of the buffer of the source, but may end with the address
space. -/
structure Part (source mdl : Mdl) : Prop where
  below : (mmGetMdlVirtualAddress source).toNat ≤ (mmGetMdlVirtualAddress mdl).toNat
  ends : (mmGetMdlVirtualAddress mdl).toNat + mdl.byteCount.toNat ≤
      (mmGetMdlVirtualAddress source).toNat + source.byteCount.toNat ∨
    (mmGetMdlVirtualAddress mdl).toNat + mdl.byteCount.toNat = 2 ^ 64

variable {source mdl target result : Mdl} {irql : UInt8} {va : UInt64} {length : UInt32}

/-- What the assertions say of the source that the chain has come from, as long as nothing
wraps. -/
theorem Part.range (h : Part source mdl)
    (hwrap : (mmGetMdlVirtualAddress source).toNat + source.byteCount.toNat ≤ 2 ^ 64)
    (hbuild : ioBuildPartialMdl irql mdl target va length = .ok result) :
    (mmGetMdlVirtualAddress source).toNat ≤ va.toNat ∧
    va.toNat < (mmGetMdlVirtualAddress source).toNat + source.byteCount.toNat ∧
    0 < (lengthOrRest mdl va length).toNat ∧
    (va.toNat + (lengthOrRest mdl va length).toNat < 2 ^ 64 →
      va.toNat + (lengthOrRest mdl va length).toNat ≤
        (mmGetMdlVirtualAddress source).toNat + source.byteCount.toNat) := by
  rcases build_cases hbuild with ⟨hbelow, habove, hlength, hlong, -⟩
  have hpositive : 0 < (lengthOrRest mdl va length).toNat :=
    Nat.pos_of_ne_zero fun hzero => hlength (UInt32.toNat_inj.1 hzero)
  have hstart := h.below
  have hend := h.ends
  rw [UInt64.le_iff_toNat_le] at hbelow
  rw [UInt64.lt_iff_toNat_lt, UInt64.toNat_add, UInt32.toNat_toUInt64] at habove
  rw [UInt64.le_iff_toNat_le, UInt64.toNat_add, UInt64.toNat_add, UInt32.toNat_toUInt64,
    UInt32.toNat_toUInt64] at hlong
  -- a part that ends with the address space has no address below its end
  have hnowrap : (mmGetMdlVirtualAddress mdl).toNat + mdl.byteCount.toNat < 2 ^ 64 := by
    rcases hend with hend | hend
    · rcases Nat.lt_or_ge ((mmGetMdlVirtualAddress mdl).toNat + mdl.byteCount.toNat) (2 ^ 64) with
        hlt | hge
      · exact hlt
      · have hlast : (mmGetMdlVirtualAddress mdl).toNat + mdl.byteCount.toNat = 2 ^ 64 := by omega
        rw [hlast, Nat.mod_self] at habove
        omega
    · rw [hend, Nat.mod_self] at habove
      omega
  rw [Nat.mod_eq_of_lt hnowrap] at habove hlong
  refine ⟨by omega, by omega, hpositive, ?_⟩
  intro hlt
  rw [Nat.mod_eq_of_lt hlt] at hlong
  omega

/-- The array of the source, at the place of a part. -/
theorem entries_eq {m : Mdl} {i : ℕ}
    (hbelow : (mmGetMdlVirtualAddress m).toNat ≤ va.toNat) (hcount : m.byteCount ≠ 0)
    (hwithin : va.toNat / 4096 - (mmGetMdlVirtualAddress m).toNat / 4096 + i <
      pageCount (mmGetMdlVirtualAddress m).toNat m.byteCount.toNat) :
    (mmProbeAndLockPages m).pfn
        (va.toNat / 4096 - (mmGetMdlVirtualAddress m).toNat / 4096 + i) =
      (va >>> 12) + (UInt32.ofNat i).toUInt64 := by
  have hbound := pageCount_lt (mmGetMdlVirtualAddress m).toNat m.byteCount
  rw [pfn_locked hcount hwithin]
  apply pfn_eq (by omega) (by omega)
  have hpages : (mmGetMdlVirtualAddress m).toNat / 4096 ≤ va.toNat / 4096 :=
    Nat.div_le_div_right hbelow
  omega

/-- One call, on an MDL that is for a part of a locked one. -/
theorem Part.isSlice_iff {m : Mdl} (h : Part (mmProbeAndLockPages m) mdl)
    (hwrap : (mmGetMdlVirtualAddress m).toNat + m.byteCount.toNat ≤ 2 ^ 64)
    (hbuild : ioBuildPartialMdl irql mdl target va length = .ok result) :
    IsSlice (mmProbeAndLockPages m) target result va (lengthOrRest mdl va length) ↔
      Fits (mmProbeAndLockPages m) target va (lengthOrRest mdl va length) := by
  have hrange := h.range (by simpa using hwrap) hbuild
  rcases build_cases hbuild with ⟨-, -, hlength, -, hsize, haddress, hbytes, hpfn⟩
  simp only [mmGetMdlVirtualAddress_lock, byteCount_lock] at hrange
  rcases hrange with ⟨hbelow, habove, hpositive, hlong⟩
  constructor
  case mp =>
    rintro ⟨-, -, -, -, hwithin, hfits⟩
    simp only [mmGetMdlVirtualAddress_lock, byteCount_lock] at hwithin
    refine ⟨by omega, ?_⟩
    simp only [mmGetMdlVirtualAddress_lock, byteCount_lock]
    unfold pageCount at hwithin
    omega
  case mpr =>
    rintro ⟨hnonneg, hend⟩
    simp only [mmGetMdlVirtualAddress_lock, byteCount_lock] at hend
    have hcount : m.byteCount ≠ 0 := by
      rintro hzero
      rw [hzero, UInt32.toNat_zero] at habove
      omega
    have hwithin : va.toNat / 4096 - (mmGetMdlVirtualAddress m).toNat / 4096 +
        pageCount va.toNat (lengthOrRest mdl va length).toNat ≤
          pageCount (mmGetMdlVirtualAddress m).toNat m.byteCount.toNat := by
      unfold pageCount
      omega
    constructor
    case address => exact haddress
    case byteCount => exact hbytes
    case entries =>
      intro i hi
      rw [hpfn, if_pos hi, mmGetMdlVirtualAddress_lock]
      exact (entries_eq hbelow hcount (by omega)).symm
    case others =>
      intro i hi
      rw [hpfn, if_neg (by omega)]
    case within => simpa using hwithin
    case fits =>
      have hle : 0 ≤ target.size.toInt64 := by
        rw [Int64.le_iff_toInt_le, Int64.toInt_zero, Int16.toInt_toInt64]
        exact hnonneg
      rw [UInt64.le_iff_toNat_le, toNat_mmSizeOfMdl va hlength, Int64.toNat_toUInt64_of_le hle,
        Int64.toNatClampNeg, Int16.toInt_toInt64] at hsize
      omega

/-- Every MDL of a chain is for a part of the buffer. -/
theorem Derived.part {m : Mdl} (h : Derived (mmProbeAndLockPages m) mdl)
    (hwrap : (mmGetMdlVirtualAddress m).toNat + m.byteCount.toNat ≤ 2 ^ 64) :
    Part (mmProbeAndLockPages m) mdl := by
  induction h with
  | source => exact ⟨Nat.le_refl _, Or.inl (Nat.le_refl _)⟩
  | @lock mdl _ ih =>
    have hbelow := ih.below
    have hends := ih.ends
    constructor
    · rwa [mmGetMdlVirtualAddress_lock mdl]
    · rwa [mmGetMdlVirtualAddress_lock mdl, byteCount_lock mdl]
  | @build mdl target result irql flags va length _ hbuild hfits ih =>
    have hpart : Part (mmProbeAndLockPages m) { mdl with mdlFlags := flags } := ⟨ih.below, ih.ends⟩
    have hrange := hpart.range (by simpa using hwrap) hbuild
    rcases build_cases hbuild with ⟨-, -, -, -, -, haddress, hbytes, -⟩
    have hends := hfits.2
    constructor
    · rw [haddress]
      exact hrange.1
    · rw [haddress, hbytes]
      rcases hends with hlt | ⟨hlast, -⟩
      · exact Or.inl (hrange.2.2.2 hlt)
      · exact Or.inr hlast

/-- **Partial MDLs are slices.** For every MDL that `MmProbeAndLockPages` has filled, and
every partial MDL that `IoBuildPartialMdl` makes from it or from the partial MDLs before: it
is the slice of the filled one exactly if the `Size` of the target is not negative and the
part does not wrap. -/
theorem partialMdl_isSlice_iff (m : Mdl)
    (hwrap : (mmGetMdlVirtualAddress m).toNat + m.byteCount.toNat ≤ 2 ^ 64)
    (mdl : Mdl) (hderived : Derived (mmProbeAndLockPages m) mdl) (irql : UInt8) (flags : UInt16)
    (target : Mdl) (va : UInt64) (length : UInt32) (result : Mdl)
    (hbuild : ioBuildPartialMdl irql { mdl with mdlFlags := flags } target va length =
      .ok result) :
    IsSlice (mmProbeAndLockPages m) target result va (lengthOrRest mdl va length) ↔
      Fits (mmProbeAndLockPages m) target va (lengthOrRest mdl va length) := by
  rcases hderived.part hwrap with ⟨hbelow, hends⟩
  have hpart : Part (mmProbeAndLockPages m) { mdl with mdlFlags := flags } := ⟨hbelow, hends⟩
  exact hpart.isSlice_iff hwrap hbuild

/-- An MDL of `0x1000000` bytes, and the target for a part of `0xFFA000` bytes, whose `Size`
is `-32768`. -/
theorem partialMdl_isSlice_fails : ∃ result,
    ioBuildPartialMdl 0 (mmProbeAndLockPages (ioAllocateMdl 0 0x1000000))
        (ioAllocateMdl 0 0xFFA000) 0 0 = .ok result ∧
      ¬ IsSlice (mmProbeAndLockPages (ioAllocateMdl 0 0x1000000)) (ioAllocateMdl 0 0xFFA000)
        result 0 0x1000000 := by
  rw [mmProbeAndLockPages, fillPfnArray_eq]
  refine ⟨_, rfl, ?_⟩
  intro hslice
  have hsize : (ioAllocateMdl 0 0xFFA000).size.toInt = -32768 := by decide
  have hfits := hslice.fits
  rw [hsize] at hfits
  omega

/-- The rest of three pages, from their second byte on. -/
theorem partialMdl_isSlice_iff_three_pages : ∃ result,
    ioBuildPartialMdl 0 { mmProbeAndLockPages (ioAllocateMdl 1 0x3000) with
        mdlFlags := mdlPagesLocked } (ioAllocateMdl 1 0x3000) 100 0 = .ok result ∧
      IsSlice (mmProbeAndLockPages (ioAllocateMdl 1 0x3000)) (ioAllocateMdl 1 0x3000) result
        100 (lengthOrRest (mmProbeAndLockPages (ioAllocateMdl 1 0x3000)) 100 0) := by
  refine ⟨_, rfl, (partialMdl_isSlice_iff (ioAllocateMdl 1 0x3000) (by decide)
    (mmProbeAndLockPages (ioAllocateMdl 1 0x3000)) .source 0 mdlPagesLocked
    (ioAllocateMdl 1 0x3000) 100 0 _ rfl).2 ⟨by decide, ?_⟩⟩
  decide

end Wdutf.PartialMdl
