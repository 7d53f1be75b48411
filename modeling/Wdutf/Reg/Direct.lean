import Mathlib.Algebra.Ring.Int.Defs
import Mathlib.Tactic.Common
import Wdutf.Reg.Table

/-!
# Wdutf.Reg.Direct — values that are stored directly, `src/registry.cpp`

What `DdkQueryDirect` writes where `EntryContext` points to.

* `binary_stores` — a number, or as much of a header and the bytes as the `LONG` at
  `EntryContext` has room for;
* `string_iff` — a string fits its `UNICODE_STRING` always, and is complete in a new
  buffer exactly if its length and six bytes more are a `USHORT`;
* `string_truncated` — a string that is cut to nothing.
-/

namespace Wdutf.Reg

open Wdutf.Rtl Wdutf.Io Wdutf.Block

/-! ## Sizes -/

theorem toNat_min32 (a b : UInt32) : (min a b).toNat = min a.toNat b.toNat := by
  show (if a ≤ b then a else b).toNat = _
  by_cases h : a ≤ b
  · rw [if_pos h, Nat.min_eq_left (UInt32.le_iff_toNat_le.1 h)]
  · have hlt : ¬ a.toNat ≤ b.toNat := fun hle => h (UInt32.le_iff_toNat_le.2 hle)
    rw [if_neg h, Nat.min_eq_right (by omega)]

theorem toNat_min64 (a b : UInt64) : (min a b).toNat = min a.toNat b.toNat := by
  show (if a ≤ b then a else b).toNat = _
  by_cases h : a ≤ b
  · rw [if_pos h, Nat.min_eq_left (UInt64.le_iff_toNat_le.1 h)]
  · have hlt : ¬ a.toNat ≤ b.toNat := fun hle => h (UInt64.le_iff_toNat_le.2 hle)
    rw [if_neg h, Nat.min_eq_right (by omega)]

theorem toNat_ofNat32 {n : ℕ} (h : n < 2 ^ 32) : (UInt32.ofNat n).toNat = n := by
  rw [UInt32.toNat_ofNat']
  exact Nat.mod_eq_of_lt h

theorem ofNat_le_four {n : ℕ} (h : n < 2 ^ 32) : UInt32.ofNat n ≤ 4 ↔ n ≤ 4 := by
  rw [UInt32.le_iff_toNat_le, toNat_ofNat32 h]
  exact Iff.rfl

theorem toInt_min (a b : Int32) : (min a b).toInt = min a.toInt b.toInt := by
  show (if a ≤ b then a else b).toInt = _
  by_cases h : a ≤ b
  · rw [if_pos h, Int.min_eq_left (Int32.le_iff_toInt_le.1 h)]
  · have hlt : ¬ a.toInt ≤ b.toInt := fun hle => h (Int32.le_iff_toInt_le.2 hle)
    rw [if_neg h, Int.min_eq_right (by omega)]

/-- A `LONG` that is not negative keeps its value as a `size_t`. -/
theorem toNat_sizeT {n : Int32} (h : 0 ≤ n.toInt) : (sizeT n).toNat = n.toInt.toNat := by
  unfold sizeT
  have hle : (0 : Int64) ≤ n.toInt64 := by
    rw [Int64.le_iff_toInt_le, Int32.toInt_toInt64]
    exact h
  rw [Int64.toNat_toUInt64_of_le hle, Int64.toNatClampNeg, Int32.toInt_toInt64]

theorem toInt_toInt32 {n : UInt32} (h : n.toNat < 2 ^ 31) : n.toInt32.toInt = n.toNat := by
  have hn : n = UInt32.ofNat n.toNat := UInt32.ofNat_toNat.symm
  rw [hn, UInt32.toInt32_ofNat', Int32.toInt_ofNat_of_lt h, ← hn]

/-- `-z` is no overflow. -/
theorem toInt_neg_of_lt {z : Int32} (h : -2 ^ 31 < z.toInt) : (-z).toInt = -z.toInt := by
  have hlt := z.toInt_lt
  rw [Int32.toInt_neg]
  exact Int.bmod_eq_of_le (by omega) (by omega)

/-! ## Numbers and bytes -/

/-- Exactly these bytes are stored from the start on: nothing behind them is written, whatever
was there before. -/
def Stores (writes : List (ℕ × List UInt8)) (bytes : List UInt8) : Prop :=
  WithinAll bytes.length writes ∧ ∀ m : ℕ → UInt8, applyAll m writes = Memory.store m 0 bytes

theorem stores_one (bytes : List UInt8) : Stores [(0, bytes)] bytes := by
  constructor
  · intro w hw
    rcases List.mem_singleton.1 hw with rfl
    exact Nat.le_of_eq (Nat.zero_add _)
  · intro m
    rfl

/-- Bytes behind a header. -/
theorem stores_two (header bytes : List UInt8) :
    Stores [(0, header), (header.length, bytes)] (header ++ bytes) := by
  constructor
  · intro w hw
    rw [List.length_append]
    rcases List.mem_cons.1 hw with rfl | hw
    · dsimp only
      omega
    · rcases List.mem_singleton.1 hw with rfl
      exact Nat.le_refl _
  · intro m
    have h := store_store m 0 header bytes
    rwa [Nat.zero_add] at h

/-- The bytes that are stored: `z` is the `LONG` at `EntryContext`. -/
def binaryBytes (z : ℤ) (type : UInt32) (data : List UInt8) : List UInt8 :=
  if data.length ≤ 4 then data
  else if z < 0 then data.take (min (-z).toNat data.length)
  else (ulong (UInt32.ofNat data.length) ++ ulong type ++ data).take
    (min z.toNat (8 + data.length))

theorem length_header (n type : UInt32) : (ulong n ++ ulong type).length = 8 := rfl

/-- Four bytes or less are stored as they are. -/
theorem storeBinary_small (z : Int32) (type : UInt32) {data : List UInt8} (rest : List UInt8)
    (hsmall : data.length ≤ 4) :
    ∃ writes, storeBinary z type (data ++ rest) (UInt32.ofNat data.length) =
      .ok (.binary writes) ∧ Stores writes (binaryBytes z.toInt type data) := by
  have hbytes : (UInt32.ofNat data.length).toNat = data.length := toNat_ofNat32 (by omega)
  have hle : UInt32.ofNat data.length ≤ 4 := (ofNat_le_four (by omega)).2 hsmall
  unfold storeBinary binaryBytes
  rw [if_pos hle, if_pos hsmall, hbytes, fetch_append rest (Nat.le_refl _), List.take_length]
  exact ⟨_, rfl, stores_one data⟩

/-- A negative `LONG` asks for the bytes alone. -/
theorem storeBinary_bytes {z : Int32} (type : UInt32) {data : List UInt8} (rest : List UInt8)
    (hn : data.length < 2 ^ 31) (hlong : 4 < data.length) (hz : -2 ^ 31 < z.toInt)
    (hneg : z.toInt < 0) :
    ∃ writes, storeBinary z type (data ++ rest) (UInt32.ofNat data.length) =
      .ok (.binary writes) ∧ Stores writes (binaryBytes z.toInt type data) := by
  have hbytes : (UInt32.ofNat data.length).toNat = data.length := toNat_ofNat32 (by omega)
  have hle : ¬ UInt32.ofNat data.length ≤ 4 := fun h =>
    Nat.not_le.2 hlong ((ofNat_le_four (by omega)).1 h)
  have hmin : (min (-z) (UInt32.ofNat data.length).toInt32).toInt =
      min (-z.toInt) data.length := by
    rw [toInt_min, toInt_neg_of_lt hz, toInt_toInt32 (by omega), hbytes]
  have hsize : (sizeT (min (-z) (UInt32.ofNat data.length).toInt32)).toNat =
      min (-z.toInt).toNat data.length := by
    rw [toNat_sizeT (by omega), hmin]
    omega
  unfold storeBinary binaryBytes
  rw [if_neg hle, if_neg (Nat.not_le.2 hlong), if_pos (Int32.lt_iff_toInt_lt.2 hneg),
    if_pos hneg, hsize, fetch_append rest (Nat.min_le_right _ _)]
  exact ⟨_, rfl, stores_one _⟩

/-- There is room for more than the header. -/
theorem take_header_bytes {n : ℕ} (bytes type : UInt32) (data : List UInt8) (h : 8 < n) :
    (ulong bytes ++ ulong type).take (min n 8) = ulong bytes ++ ulong type ∧
      (ulong bytes ++ ulong type ++ data).take (min n (8 + data.length)) =
        ulong bytes ++ ulong type ++ data.take (min (n - 8) data.length) := by
  constructor
  · rw [List.take_of_length_le]
    rw [length_header]
    omega
  · rw [List.take_append, List.take_of_length_le (by rw [length_header]; omega), length_header]
    congr 2
    omega

/-- There is room for the header at most. -/
theorem take_header {n : ℕ} (bytes type : UInt32) (data : List UInt8) (h : n ≤ 8) :
    (ulong bytes ++ ulong type ++ data).take (min n (8 + data.length)) =
      (ulong bytes ++ ulong type).take (min n 8) := by
  rw [Nat.min_eq_left (by omega), Nat.min_eq_left h,
    List.take_append_of_le_length (by rw [length_header]; exact h)]

/-- Another `LONG` asks for the header and the bytes behind it. -/
theorem storeBinary_header {z : Int32} (type : UInt32) {data : List UInt8} (rest : List UInt8)
    (hn : data.length < 2 ^ 31) (hlong : 4 < data.length) (hz : 0 ≤ z.toInt) :
    ∃ writes, storeBinary z type (data ++ rest) (UInt32.ofNat data.length) =
      .ok (.binary writes) ∧ Stores writes (binaryBytes z.toInt type data) := by
  have hbytes : (UInt32.ofNat data.length).toNat = data.length := toNat_ofNat32 (by omega)
  have hle : ¬ UInt32.ofNat data.length ≤ 4 := fun h =>
    Nat.not_le.2 hlong ((ofNat_le_four (by omega)).1 h)
  have hneg : ¬ z < 0 := fun h => Int.not_lt.2 hz (Int32.lt_iff_toInt_lt.1 h)
  have hsize : (sizeT z).toNat = z.toInt.toNat := toNat_sizeT hz
  have hheader : (min (sizeT z) 8).toNat = min z.toInt.toNat 8 := by
    rw [toNat_min64, hsize]
    rfl
  unfold storeBinary binaryBytes
  rw [if_neg hle, if_neg (Nat.not_le.2 hlong), if_neg hneg, if_neg (Int.not_lt.2 hz)]
  dsimp only
  rw [hheader]
  by_cases hroom : 8 < sizeT z
  · -- the header and bytes behind it
    have hroom' : 8 < z.toInt.toNat := by
      rw [← hsize]
      exact UInt64.lt_iff_toNat_lt.1 hroom
    have hcopied : (min (sizeT z - 8) (UInt32.ofNat data.length).toUInt64).toNat =
        min (z.toInt.toNat - 8) data.length := by
      rw [toNat_min64, UInt64.toNat_sub_of_le _ _ (UInt64.le_of_lt hroom), hsize,
        UInt32.toNat_toUInt64, hbytes]
      rfl
    rcases take_header_bytes (UInt32.ofNat data.length) type data hroom' with ⟨htake, hsplit⟩
    rw [if_pos hroom, hcopied, fetch_append rest (Nat.min_le_right _ _), htake, hsplit]
    exact ⟨_, rfl, stores_two _ _⟩
  · -- the header, or its first bytes
    have hroom' : z.toInt.toNat ≤ 8 := by
      rw [← hsize]
      exact Nat.le_of_not_lt fun h => hroom (UInt64.lt_iff_toNat_lt.2 h)
    rw [if_neg hroom, take_header _ type data hroom']
    exact ⟨_, rfl, stores_one _⟩

theorem storeBinary_stores {z : Int32} (type : UInt32) {data : List UInt8} (rest : List UInt8)
    (hn : data.length < 2 ^ 31) (hz : 4 < data.length → -2 ^ 31 < z.toInt) :
    ∃ writes, storeBinary z type (data ++ rest) (UInt32.ofNat data.length) =
      .ok (.binary writes) ∧ Stores writes (binaryBytes z.toInt type data) := by
  by_cases hsmall : data.length ≤ 4
  · exact storeBinary_small z type rest hsmall
  · have hlong : 4 < data.length := Nat.not_le.1 hsmall
    by_cases hneg : z.toInt < 0
    · exact storeBinary_bytes type rest hn hlong (hz hlong) hneg
    · exact storeBinary_header type rest hn hlong (Int.not_lt.1 hneg)

theorem length_binaryBytes_le {z : ℤ} {type : UInt32} {data : List UInt8}
    (h : 4 < data.length) : (binaryBytes z type data).length ≤ z.natAbs := by
  unfold binaryBytes
  rw [if_neg (by omega)]
  split
  · rw [List.length_take]
    omega
  · rw [List.length_take]
    omega

/-- **Direct binary values.** Exactly the bytes are stored that the `LONG` at `EntryContext`
asks for. -/
theorem binary_stores (qp : TableEntry) (hcontext : qp.entryContext ≠ 0) (caller : Caller)
    (target : Target) (type : UInt32)
    (htype : type = regDword ∨ type = regQword ∨ type = regBinary ∨ type = regDwordBigEndian)
    (data rest : List UInt8) (hn : data.length < 2 ^ 31)
    (hz : 4 < data.length → -2 ^ 31 < target.long.toInt) :
    ∃ writes, ddkQueryDirect qp caller target type (data ++ rest) (UInt32.ofNat data.length) =
        .ok (statusSuccess, .binary writes) ∧
      Stores writes (binaryBytes target.long.toInt type data) ∧
      (4 < data.length → WithinAll target.long.toInt.natAbs writes) := by
  rcases storeBinary_stores type rest hn hz with ⟨writes, hwrites, hstores⟩
  have hexpand : ¬ (type = regMultiSz ∨ type = regExpandSz) := by
    rcases htype with rfl | rfl | rfl | rfl <;> decide
  have hsz : type ≠ regSz := by
    rcases htype with rfl | rfl | rfl | rfl <;> decide
  refine ⟨writes, ?_, hstores, ?_⟩
  · rw [ddkQueryDirect, if_neg hcontext, if_neg hexpand, if_neg hsz, if_pos htype, hwrites]
    rfl
  · intro h w hw
    exact Nat.le_trans (hstores.1 w hw) (length_binaryBytes_le h)

/-- An entry in direct mode. -/
def directEntry : TableEntry := ⟨⟨false, 0x20, some [0x41]⟩, 8, 0, [], 0⟩

/-- A `REG_BINARY` value of six bytes, where there is room for ten. -/
theorem binary_stores_six :
    ∃ writes, ddkQueryDirect directEntry ⟨0, 0, fun _ _ => 0⟩ ⟨0, 0, 10⟩ regBinary
        ([1, 2, 3, 4, 5, 6] ++ []) (UInt32.ofNat 6) = .ok (statusSuccess, .binary writes) ∧
      Stores writes (binaryBytes 10 regBinary [1, 2, 3, 4, 5, 6]) ∧
      (4 < 6 → WithinAll 10 writes) :=
  binary_stores directEntry (by decide) ⟨0, 0, fun _ _ => 0⟩ ⟨0, 0, 10⟩ regBinary (by decide)
    [1, 2, 3, 4, 5, 6] [] (by decide) (by decide)

/-! ## Strings -/

/-- A value without one NUL at its end. -/
def stringText (value : List UInt8) : List UInt8 :=
  if [0, 0] <:+ value then value.take (value.length - 2) else value

theorem length_stringText_le (value : List UInt8) : (stringText value).length ≤ value.length := by
  unfold stringText
  split
  · rw [List.length_take]
    exact Nat.min_le_right _ _
  · exact Nat.le_refl _

/-- The length of the text. -/
theorem withoutNul_ok {value : List UInt8} (rest : List UInt8) (hsize : value.length < 2 ^ 32) :
    withoutNul (value ++ rest) (UInt32.ofNat value.length) =
      .ok (UInt32.ofNat (stringText value).length) := by
  have hbytes : (UInt32.ofNat value.length).toNat = value.length := toNat_ofNat32 hsize
  unfold withoutNul stringText
  by_cases htwo : 2 ≤ value.length
  · have hle : 2 ≤ UInt32.ofNat value.length := by
      rw [UInt32.le_iff_toNat_le, hbytes]
      exact htwo
    have hsub : (UInt32.ofNat value.length - 2).toNat = value.length - 2 := by
      rw [UInt32.toNat_sub_of_le _ _ hle, hbytes]
      rfl
    have hdrop : (value ++ rest).drop (value.length - 2) =
        value.drop (value.length - 2) ++ rest := List.drop_append_of_le_length (by omega)
    have hlast : (value.drop (value.length - 2)).length = 2 := by
      rw [List.length_drop]
      omega
    have htake : (value.drop (value.length - 2)).take 2 = value.drop (value.length - 2) :=
      List.take_of_length_le (Nat.le_of_eq hlast)
    rw [if_pos hle, hsub, hdrop, fetch_append rest (Nat.le_of_eq hlast.symm), htake]
    have hiff : value.drop (value.length - 2) = [0, 0] ↔ [0, 0] <:+ value := by
      constructor
      · intro h
        exact ⟨value.take (value.length - 2), by rw [← h, List.take_append_drop]⟩
      · rintro ⟨pre, rfl⟩
        simp
    by_cases hnul : [0, 0] <:+ value
    · rw [if_pos hnul]
      show Except.ok (if value.drop (value.length - 2) = [0, 0] then _ else _) = _
      rw [if_pos (hiff.2 hnul), List.length_take, Nat.min_eq_left (Nat.sub_le _ _)]
      congr 1
      apply UInt32.toNat_inj.1
      rw [hsub, toNat_ofNat32 (by omega)]
    · rw [if_neg hnul]
      show Except.ok (if value.drop (value.length - 2) = [0, 0] then _ else _) = _
      rw [if_neg fun h => hnul (hiff.1 h)]
  · have hle : ¬ 2 ≤ UInt32.ofNat value.length := by
      rw [UInt32.le_iff_toNat_le, hbytes]
      exact htwo
    have hnul : ¬ [0, 0] <:+ value := fun h => htwo h.length_le
    rw [if_neg hle, if_neg hnul]

/-- The text is a prefix of the value. -/
theorem take_stringText (value rest : List UInt8) {n : ℕ} (h : n ≤ (stringText value).length) :
    (value ++ rest).take n = (stringText value).take n := by
  have hle := length_stringText_le value
  rw [List.take_append_of_le_length (by omega)]
  unfold stringText at h ⊢
  split
  · rename_i hnul
    rw [if_pos hnul, List.length_take] at h
    rw [List.take_take, Nat.min_eq_left (by omega)]
  · rfl

/-- What a string query must leave: the `UNICODE_STRING` with the text or its first bytes, NULs
behind it, and nothing written beyond its buffer. A new buffer has the whole text. -/
structure StringOk (target : Target) (text : List UInt8) (allocated : Option UInt32)
    (length maximumLength : UInt16) (writes : List (ℕ × List UInt8)) : Prop where
  le : length ≤ maximumLength
  text_prefix : ∀ m : ℕ → UInt8, Memory.cells (applyAll m writes) 0 length.toNat <+: text
  zeros : ∀ (m : ℕ → UInt8) (i : ℕ), length.toNat ≤ i →
    i < min maximumLength.toNat (length.toNat + 6) → applyAll m writes i = 0
  within : WithinAll maximumLength.toNat writes
  supplied : target.buffer ≠ 0 → allocated = none ∧ maximumLength = target.maximumLength
  complete : target.buffer = 0 → ∃ size : UInt32, allocated = some size ∧
    maximumLength.toNat ≤ size.toNat ∧ length.toNat = text.length

/-- `StringOk` of what is stored. -/
def Output.StringOk (target : Target) (text : List UInt8) : Output → Prop
  | .string allocated length maximumLength writes =>
    Reg.StringOk target text allocated length maximumLength writes
  | _ => False

/-- The query of a string returns, and a success leaves the string. -/
def StringStored (target : Target) (text : List UInt8) (result : Except Stop (NtStatus × Output)) :
    Prop :=
  ∃ status output, result = .ok (status, output) ∧
    (ntSuccess status = true → output.StringOk target text)

theorem storeString_ok (target : Target) {value : List UInt8} (rest : List UInt8)
    {bytes : UInt32} (hbytes : bytes.toNat = (stringText value).length) :
    ∃ length : UInt16, length.toNat = min (target.maximum bytes).toNat bytes.toNat ∧
      storeString target (value ++ rest) bytes = .ok (stringOutput (target.allocated bytes)
        (target.maximum bytes) length ((stringText value).take length.toNat)) := by
  have hle := length_stringText_le value
  have hmin : (min (target.maximum bytes).toUInt32 bytes).toNat =
      min (target.maximum bytes).toNat bytes.toNat := by
    rw [toNat_min32, UInt16.toNat_toUInt32]
  have hlength : (min (target.maximum bytes).toUInt32 bytes).toUInt16.toNat =
      min (target.maximum bytes).toNat bytes.toNat := by
    have hlt := (target.maximum bytes).toNat_lt
    rw [UInt32.toNat_toUInt16, hmin]
    exact Nat.mod_eq_of_lt (by omega)
  have hfits : min (target.maximum bytes).toNat bytes.toNat ≤ (value ++ rest).length := by
    rw [List.length_append]
    omega
  refine ⟨_, hlength, ?_⟩
  unfold storeString
  rw [hlength, hmin, fetch_ok hfits, take_stringText value rest (by omega)]
  rfl

/-- What is written is the text, cut to `MaximumLength`, and the NULs. -/
theorem stringOk_iff {target : Target} {text : List UInt8} {bytes : UInt32} {length : UInt16}
    (hbytes : bytes.toNat = text.length)
    (hlength : length.toNat = min (target.maximum bytes).toNat bytes.toNat) :
    (stringOutput (target.allocated bytes) (target.maximum bytes) length
        (text.take length.toNat)).StringOk target text ↔
      target.buffer ≠ 0 ∨ text.length + 6 < 65536 := by
  have hcopied : (text.take length.toNat).length = length.toNat := by
    rw [List.length_take]
    omega
  have hstores := stores_two (text.take length.toNat)
    (List.replicate (min ((target.maximum bytes).toNat - length.toNat) 6) 0)
  rw [hcopied] at hstores
  have hsum : (bytes + nullbytes).toNat = (text.length + 6) % 2 ^ 32 := by
    rw [UInt32.toNat_add, hbytes]
    rfl
  have hmaximum : target.buffer = 0 →
      (target.maximum bytes).toNat = (text.length + 6) % 2 ^ 32 % 2 ^ 16 := by
    intro hbuffer
    rw [Target.maximum, if_pos hbuffer, UInt32.toNat_toUInt16, hsum]
  constructor
  · intro h
    by_cases hbuffer : target.buffer = 0
    · rcases h.complete hbuffer with ⟨-, -, -, hcomplete⟩
      have hmod := hmaximum hbuffer
      exact Or.inr (by omega)
    · exact Or.inl hbuffer
  · intro h
    constructor
    case le =>
      rw [UInt16.le_iff_toNat_le]
      omega
    case text_prefix =>
      intro m
      have hcells := cells_store_append m 0 (text.take length.toNat)
        (List.replicate (min ((target.maximum bytes).toNat - length.toNat) 6) 0)
      rw [hcopied] at hcells
      rw [hstores.2 m, hcells]
      exact List.take_prefix _ _
    case zeros =>
      intro m i hle hlt
      have hzero : (List.replicate (min ((target.maximum bytes).toNat - length.toNat) 6)
          (0 : UInt8))[i - length.toNat]? = some 0 := by
        rw [List.getElem?_replicate, if_pos (by omega)]
      have hstore := store_append_right m 0 (text.take length.toNat) hzero
      rw [hcopied, Nat.zero_add, Nat.add_sub_cancel' hle] at hstore
      rw [hstores.2 m, hstore]
    case within =>
      intro w hw
      have hend := hstores.1 w hw
      rw [List.length_append, hcopied, List.length_replicate] at hend
      omega
    case supplied =>
      intro hbuffer
      exact ⟨if_neg hbuffer, if_neg hbuffer⟩
    case complete =>
      intro hbuffer
      have hfits : text.length + 6 < 65536 := h.resolve_left (not_not.2 hbuffer)
      have hmod := hmaximum hbuffer
      refine ⟨_, if_pos hbuffer, ?_, ?_⟩
      · omega
      · omega

theorem querySz_stored {target : Target} {value : List UInt8} (rest : List UInt8)
    (hsize : value.length < 2 ^ 32) :
    StringStored target (stringText value)
        (querySz target (value ++ rest) (UInt32.ofNat value.length)) ↔
      target.buffer ≠ 0 ∨ (stringText value).length + 6 < 65536 := by
  have hle := length_stringText_le value
  have hbytes : (UInt32.ofNat (stringText value).length).toNat = (stringText value).length :=
    toNat_ofNat32 (by omega)
  rcases storeString_ok target rest hbytes with ⟨length, hlength, hstore⟩
  have hquery : querySz target (value ++ rest) (UInt32.ofNat value.length) =
      .ok (statusSuccess, stringOutput (target.allocated (UInt32.ofNat (stringText value).length))
        (target.maximum (UInt32.ofNat (stringText value).length)) length
        ((stringText value).take length.toNat)) := by
    show (withoutNul (value ++ rest) (UInt32.ofNat value.length) >>= fun bytes => _) = _
    rw [withoutNul_ok rest hsize]
    show (storeString target (value ++ rest) (UInt32.ofNat (stringText value).length) >>=
      fun stored => _) = _
    rw [hstore]
    rfl
  rw [← stringOk_iff hbytes hlength, hquery]
  constructor
  · rintro ⟨status, output, heq, h⟩
    rcases Prod.mk.inj (Except.ok.inj heq) with ⟨rfl, rfl⟩
    exact h (by decide)
  · intro hok
    exact ⟨_, _, rfl, fun _ => hok⟩

/-- The types that are stored as strings. -/
def StoredAsString (qp : TableEntry) (caller : Caller) (type : UInt32) : Prop :=
  type = regSz ∨ (type = regExpandSz ∧ caller.environment = 0) ∨
    (type = regMultiSz ∧ qp.noexpand = true)

theorem ddkQueryDirect_string {qp : TableEntry} (hcontext : qp.entryContext ≠ 0)
    {caller : Caller} {type : UInt32} (htype : StoredAsString qp caller type)
    (target : Target) (data : List UInt8) (bytes : UInt32) :
    ddkQueryDirect qp caller target type data bytes = querySz target data bytes := by
  unfold ddkQueryDirect
  rw [if_neg hcontext]
  rcases htype with rfl | ⟨rfl, henvironment⟩ | ⟨rfl, hnoexpand⟩
  · rw [if_neg (by decide), if_pos rfl]
  · rw [if_pos (Or.inr rfl)]
    cases qp.noexpand with
    | true => rfl
    | false =>
      rw [if_neg (by decide), if_neg (by decide), henvironment]
      rfl
  · rw [if_pos (Or.inl rfl), if_pos hnoexpand]

/-- **Direct string values.** The string that a query leaves is right exactly when the
`UNICODE_STRING` has a buffer, or the text and six bytes more have a length below 65536. -/
theorem string_iff (qp : TableEntry) (hcontext : qp.entryContext ≠ 0) (caller : Caller)
    (target : Target) (type : UInt32) (htype : StoredAsString qp caller type)
    (value rest : List UInt8) (hsize : value.length < 2 ^ 32) :
    StringStored target (stringText value)
        (ddkQueryDirect qp caller target type (value ++ rest) (UInt32.ofNat value.length)) ↔
      target.buffer ≠ 0 ∨ (stringText value).length + 6 < 65536 := by
  rw [ddkQueryDirect_string hcontext htype]
  exact querySz_stored rest hsize

/-- A short string is complete. -/
theorem string_iff_short :
    StringStored ⟨0, 0, 0⟩ (stringText [0x41, 0, 0, 0])
      (ddkQueryDirect directEntry ⟨0, 0, fun _ _ => 0⟩ ⟨0, 0, 0⟩ regSz
        ([0x41, 0, 0, 0] ++ []) (UInt32.ofNat 4)) :=
  (string_iff directEntry (by decide) ⟨0, 0, fun _ _ => 0⟩ ⟨0, 0, 0⟩ regSz (Or.inl rfl)
    [0x41, 0, 0, 0] [] (by decide)).2 (Or.inr (by decide))

/-- A text of 65530 bytes, and no buffer. -/
theorem querySz_truncated {value : List UInt8} (rest : List UInt8)
    (hsize : value.length < 2 ^ 32) (hlength : (stringText value).length = 65530) :
    querySz ⟨0, 0, 0⟩ (value ++ rest) (UInt32.ofNat value.length) =
        .ok (statusSuccess, .string (some 65536) 0 0 [(0, []), (0, [])]) ∧
      ¬ StringStored ⟨0, 0, 0⟩ (stringText value)
        (querySz ⟨0, 0, 0⟩ (value ++ rest) (UInt32.ofNat value.length)) := by
  constructor
  · have hzero : min (Target.maximum ⟨0, 0, 0⟩ (UInt32.ofNat 65530)).toUInt32
        (UInt32.ofNat 65530) = 0 := by decide
    have hstore : storeString ⟨0, 0, 0⟩ (value ++ rest) (UInt32.ofNat 65530) =
        .ok (.string (some 65536) 0 0 [(0, []), (0, [])]) := by
      unfold storeString
      rw [hzero]
      exact congrArg (Except.map _) (fetch_ok (Nat.zero_le _))
    show (withoutNul (value ++ rest) (UInt32.ofNat value.length) >>= fun bytes => _) = _
    rw [withoutNul_ok rest hsize, hlength]
    show (storeString ⟨0, 0, 0⟩ (value ++ rest) (UInt32.ofNat 65530) >>= fun stored => _) = _
    rw [hstore]
    rfl
  · rw [querySz_stored rest hsize, hlength]
    decide

/-- 65530 bytes without a NUL. -/
def longText : List UInt8 := List.replicate 65530 0x41

/-- The query is successful, with a string of the length 0. -/
theorem string_truncated :
    ddkQueryDirect directEntry ⟨0, 0, fun _ _ => 0⟩ ⟨0, 0, 0⟩ regSz (longText ++ [])
        (UInt32.ofNat longText.length) =
          .ok (statusSuccess, .string (some 65536) 0 0 [(0, []), (0, [])]) ∧
      ¬ StringStored ⟨0, 0, 0⟩ (stringText longText)
        (ddkQueryDirect directEntry ⟨0, 0, fun _ _ => 0⟩ ⟨0, 0, 0⟩ regSz (longText ++ [])
          (UInt32.ofNat longText.length)) := by
  have hlength : longText.length = 65530 := List.length_replicate
  have htext : stringText longText = longText := by
    rw [stringText, if_neg]
    intro h
    exact absurd (List.eq_of_mem_replicate (h.subset List.mem_cons_self)) (by decide)
  rw [ddkQueryDirect_string (by decide) (Or.inl rfl)]
  apply querySz_truncated
  · rw [hlength]
    decide
  · rw [htext, hlength]

end Wdutf.Reg
