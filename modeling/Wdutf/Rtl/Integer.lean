import Mathlib.Data.List.Basic
import Mathlib.Tactic.Common
import Wdutf.Lib.Numerals
import Wdutf.Rtl.Unicode

/-!
# Wdutf.Rtl.Integer — integers as text, `src/unicode.cpp`

`RtlIntegerToUnicodeString` writes a number into the caller's buffer,
`RtlUnicodeStringToInteger` reads one.

* `readDigits_digits` — the loop of the reader undoes the digits of the writer;
* `readPrefix_digits` — no written number has a prefix that the reader takes for
  that of another base;
* `integer_round_trip` — what was written is read back, in every base.
-/

namespace Wdutf.Rtl

open Wdutf.Numerals

/-! ## Writing -/

/-- The character of a digit. -/
def digitChar (d : ℕ) : Wchar := UInt16.ofNat (if d < 10 then 0x30 + d else 0x61 + (d - 10))

/-- `_ui64tow_s`: the digits in lower case, without leading zeros. -/
def ui64tow (value base : ℕ) : List Wchar := (digits base value).map digitChar

/-- The base that is written: base 0 is decimal. -/
def writtenBase (base : UInt32) : Option ℕ :=
  match base with
  | 0 => some 10
  | 10 => some 10
  | 2 => some 2
  | 8 => some 8
  | 16 => some 16
  | _ => none

/-- `RtlIntegerToUnicodeString`. -/
def rtlIntegerToUnicodeString (val base : UInt32) (u : UnicodeBuffer) : Status × UnicodeBuffer :=
  match writtenBase base with
  | none => (.invalidParameter, u)
  | some base =>
    let buf := ui64tow val.toNat base
    let lenInBytes := buf.length * 2
    if lenInBytes > u.maximumLength.toNat then (.bufferOverflow, u)
    else (.success, u.write buf (UInt16.ofNat lenInBytes))

/-! ## Reading -/

/-- `iswspace` in the C locale. -/
def iswspace (c : Wchar) : Bool := c = 0x20 ∨ 0x09 ≤ c ∧ c ≤ 0x0D

/-- The value of a character as a digit, `ULONG_MAX` if it is none. -/
def charDigit (c : Wchar) : UInt32 :=
  if 0x30 ≤ c ∧ c ≤ 0x39 then c.toUInt32 - 0x30
  else if 0x61 ≤ c ∧ c ≤ 0x66 then c.toUInt32 - 0x61 + 10
  else if 0x41 ≤ c ∧ c ≤ 0x46 then c.toUInt32 - 0x41 + 10
  else 0xFFFFFFFF

/-- The sign and what follows it. -/
def readSign : List Wchar → Wchar × List Wchar
  | [] => (0x2B, [])
  | c :: head => if c = 0x2B ∨ c = 0x2D then (c, head) else (0x2B, c :: head)

/-- The prefix of a number when the caller gives no base: the base, 0 if there is
none, and what follows the prefix. A leading zero is passed in any case. -/
def readPrefix (base : UInt32) (head : List Wchar) : UInt32 × List Wchar :=
  match head with
  | z :: c :: tail =>
    if base = 0 ∧ z = 0x30 then
      if c = 0x78 then (16, tail)
      else if c = 0x6F then (8, tail)
      else if c = 0x62 then (2, tail)
      else (0, c :: tail)
    else (base, head)
  | _ => (base, head)

/-- The loop over the digits. -/
def readDigits (base : UInt32) (value : UInt32) : List Wchar → UInt32
  | [] => value
  | c :: head =>
    let digit := charDigit c
    if digit ≥ base then value else readDigits base (value * base + digit) head

/-- `RtlUnicodeStringToInteger`: the status, and `*Value`. -/
def rtlUnicodeStringToInteger (string : UnicodeBuffer) (base : UInt32) : Status × UInt32 :=
  if (base ≠ 16 ∧ base ≠ 10 ∧ base ≠ 8 ∧ base ≠ 2 ∧ base ≠ 0) ∨ string.length = 0 then
    (.invalidParameter, 0)
  else
    let head := string.buffer.take ((string.length.toNat - 1) / 2 + 1)
    let head := head.dropWhile iswspace
    let (sign, head) := readSign head
    let (base, head) := readPrefix base head
    let base := if base = 0 then 10 else base
    let value := readDigits base 0 head
    (.success, if sign = 0x2D then -value else value)

/-! ## Reading what was written -/

/-- A digit reads back as itself. -/
theorem charDigit_digitChar {d : ℕ} (hd : d < 16) : charDigit (digitChar d) = UInt32.ofNat d := by
  interval_cases d <;> decide

/-- A digit is neither white space nor a sign nor the letter of a prefix. -/
theorem digitChar_ne {d : ℕ} (hd : d < 16) :
    iswspace (digitChar d) = false ∧ digitChar d ≠ 0x2B ∧ digitChar d ≠ 0x2D ∧
      (digitChar d = 0x30 → d = 0) := by
  interval_cases d <;> decide

/-- The loop computes the value of the digits, up to the wrap. -/
theorem readDigits_map {b : ℕ} (hb : b ≤ 16) (ds : List ℕ) (hds : ∀ d ∈ ds, d < b) (v : ℕ) :
    readDigits (UInt32.ofNat b) (UInt32.ofNat v) (ds.map digitChar) =
      UInt32.ofNat (ds.foldl (fun v d => v * b + d) v) := by
  induction ds generalizing v with
  | nil => rfl
  | cons d ds ih =>
    have hd : d < b := hds d (List.mem_cons_self ..)
    have hstep : ¬ UInt32.ofNat d ≥ UInt32.ofNat b := by
      rw [ge_iff_le, UInt32.le_iff_toNat_le, UInt32.toNat_ofNat', UInt32.toNat_ofNat']
      omega
    rw [List.map_cons, readDigits, charDigit_digitChar (by omega)]
    rw [if_neg hstep, ← UInt32.ofNat_mul, ← UInt32.ofNat_add]
    exact ih (fun d' hd' => hds d' (List.mem_cons_of_mem d hd')) _

theorem readDigits_digits {b : ℕ} (hb : 1 < b) (hb' : b ≤ 16) (v : UInt32) :
    readDigits (UInt32.ofNat b) 0 (ui64tow v.toNat b) = v := by
  unfold ui64tow
  rw [show (0 : UInt32) = UInt32.ofNat 0 from rfl,
    readDigits_map hb' _ (fun d hd => digits_lt hb hd)]
  show UInt32.ofNat (value b (digits b v.toNat)) = v
  rw [value_digits, UInt32.ofNat_toNat]

/-- A written number starts with a digit, and with a zero only if it is one. -/
theorem ui64tow_head {b : ℕ} (hb : 1 < b) (hb' : b ≤ 16) (n : ℕ) :
    ∃ c tail, ui64tow n b = c :: tail ∧ iswspace c = false ∧ c ≠ 0x2B ∧ c ≠ 0x2D ∧
      (c = 0x30 → tail = []) := by
  unfold ui64tow
  cases hds : digits b n with
  | nil => exact absurd hds (digits_ne_nil b n)
  | cons d ds =>
    have hd : d < b := digits_lt (n := n) hb (by simp [hds])
    rcases digitChar_ne (d := d) (by omega) with ⟨hspace, hplus, hminus, hzero⟩
    refine ⟨digitChar d, ds.map digitChar, rfl, hspace, hplus, hminus, fun hc => ?_⟩
    by_cases hn : n = 0
    · rw [hn] at hds
      rw [← (List.cons.inj hds).2]
      rfl
    · exact absurd (hzero hc) (digits_head hn hds)

/-- White space, sign and prefix leave a written number as it is. -/
theorem readPrefix_digits {base : UInt32} {b : ℕ} (hb : 1 < b) (hb' : b ≤ 16) (n : ℕ) :
    readSign ((ui64tow n b).dropWhile iswspace) = (0x2B, ui64tow n b) ∧
      readPrefix base (ui64tow n b) = (base, ui64tow n b) := by
  rcases ui64tow_head hb hb' n with ⟨c, tail, htext, hspace, hplus, hminus, hzero⟩
  rw [htext]
  constructor
  · rw [List.dropWhile_cons_of_neg (by simp [hspace]), readSign, if_neg (by simp [hplus, hminus])]
  · cases tail with
    | nil => rfl
    | cons c' tail =>
      have hne : c ≠ 0x30 := fun hc => absurd (hzero hc) (by simp)
      rw [readPrefix, if_neg (by simp [hne])]

theorem writtenBase_cases {base : UInt32} {b : ℕ} (h : writtenBase base = some b) :
    (base = 0 ∧ b = 10) ∨ (base = 10 ∧ b = 10) ∨ (base = 2 ∧ b = 2) ∨ (base = 8 ∧ b = 8) ∨
      (base = 16 ∧ b = 16) := by
  unfold writtenBase at h
  split at h
  case h_6 => cases h
  all_goals
    cases h
    decide

/-- The reader undoes the writer. -/
theorem read_written {base : UInt32} {b : ℕ} (hbase : writtenBase base = some b) (v : UInt32)
    {u : UnicodeBuffer} (hlength : u.length.toNat = 2 * (ui64tow v.toNat b).length)
    (hbuffer : u.buffer.take (ui64tow v.toNat b).length = ui64tow v.toNat b) :
    rtlUnicodeStringToInteger u base = (.success, v) := by
  have hcases := writtenBase_cases hbase
  have hb : 1 < b ∧ b ≤ 16 := by omega
  rcases ui64tow_head hb.1 hb.2 v.toNat with ⟨c, tail, htext, -⟩
  have hpos : 0 < (ui64tow v.toNat b).length := by simp [htext]
  have hcount : (u.length.toNat - 1) / 2 + 1 = (ui64tow v.toNat b).length := by omega
  rcases readPrefix_digits hb.1 hb.2 v.toNat with ⟨hsign, hbegin⟩
  have hdigits : readDigits (if base = 0 then 10 else base) 0 (ui64tow v.toNat b) = v := by
    have hbaseOf : (if base = 0 then 10 else base) = UInt32.ofNat b := by
      rcases hcases with ⟨rfl, rfl⟩ | ⟨rfl, rfl⟩ | ⟨rfl, rfl⟩ | ⟨rfl, rfl⟩ | ⟨rfl, rfl⟩ <;> decide
    rw [hbaseOf]
    exact readDigits_digits hb.1 hb.2 v
  unfold rtlUnicodeStringToInteger
  rw [if_neg, hcount, hbuffer]
  · dsimp only
    rw [hsign]
    dsimp only
    rw [hbegin]
    dsimp only
    rw [hdigits, if_neg (by decide)]
  · rintro (hother | hzero)
    · rcases hcases with ⟨rfl, -⟩ | ⟨rfl, -⟩ | ⟨rfl, -⟩ | ⟨rfl, -⟩ | ⟨rfl, -⟩ <;> simp at hother
    · rw [hzero, UInt16.toNat_zero] at hlength
      omega

theorem length_ui64tow {base : UInt32} {b : ℕ} (hbase : writtenBase base = some b) (v : UInt32) :
    (ui64tow v.toNat b).length ≤ 32 := by
  have hb : 1 < b := by
    have := writtenBase_cases hbase
    omega
  unfold ui64tow
  rw [List.length_map, length_digits_le hb (by decide)]
  exact Nat.lt_of_lt_of_le v.toNat_lt (Nat.pow_le_pow_left (by omega) 32)

/-- The text of a number in a base; base 0 is decimal. -/
def text (v base : UInt32) : List Wchar := ui64tow v.toNat (if base = 0 then 10 else base.toNat)

theorem writtenBase_of_mem {base : UInt32} (h : base ∈ [0, 2, 8, 10, 16]) :
    writtenBase base = some (if base = 0 then 10 else base.toNat) := by
  simp only [List.mem_cons, List.not_mem_nil, or_false] at h
  rcases h with rfl | rfl | rfl | rfl | rfl <;> rfl

/-- What the writer does in a base that it takes. -/
theorem rtlIntegerToUnicodeString_eq {base : UInt32} (h : base ∈ [0, 2, 8, 10, 16]) (v : UInt32)
    (u : UnicodeBuffer) :
    rtlIntegerToUnicodeString v base u =
      if (text v base).length * 2 > u.maximumLength.toNat then (.bufferOverflow, u)
      else (.success, u.write (text v base) (UInt16.ofNat ((text v base).length * 2))) := by
  unfold rtlIntegerToUnicodeString
  rw [writtenBase_of_mem h]
  rfl

/-- **Integer text round trip.** In every base that the routines take, the writer is
successful exactly when the digits fit, and then the reader gives the number back;
otherwise the string stays as it is. -/
theorem integer_round_trip (v base : UInt32) (hbase : base ∈ [0, 2, 8, 10, 16])
    (u : UnicodeBuffer) :
    ((rtlIntegerToUnicodeString v base u).1 = .success →
      rtlUnicodeStringToInteger (rtlIntegerToUnicodeString v base u).2 base = (.success, v)) ∧
    ((rtlIntegerToUnicodeString v base u).1 = .success ↔
      2 * (text v base).length ≤ u.maximumLength.toNat) ∧
    (¬ 2 * (text v base).length ≤ u.maximumLength.toNat →
      rtlIntegerToUnicodeString v base u = (.bufferOverflow, u)) := by
  rw [rtlIntegerToUnicodeString_eq hbase]
  by_cases hfits : 2 * (text v base).length ≤ u.maximumLength.toNat
  · rw [if_neg (by omega)]
    refine ⟨fun _ => ?_, iff_of_true rfl hfits, fun h => absurd hfits h⟩
    refine read_written (writtenBase_of_mem hbase) v ?_ ?_
    · have hle : (text v base).length ≤ 32 := length_ui64tow (writtenBase_of_mem hbase) v
      show (UInt16.ofNat ((text v base).length * 2)).toNat = 2 * (text v base).length
      rw [UInt16.toNat_ofNat']
      omega
    · exact List.take_left
  · rw [if_pos (by omega)]
    exact ⟨nofun, iff_of_false nofun hfits, fun _ => rfl⟩

/-- The number 10 in binary, in a buffer of eight bytes. -/
theorem integer_round_trip_ten :
    (rtlIntegerToUnicodeString 10 2 ⟨[0, 0, 0, 0], 0, 8, by decide⟩).1 = .success ∧
    rtlUnicodeStringToInteger (rtlIntegerToUnicodeString 10 2 ⟨[0, 0, 0, 0], 0, 8, by decide⟩).2 2 =
      (.success, 10) := by
  have h := integer_round_trip 10 2 (by decide) ⟨[0, 0, 0, 0], 0, 8, by decide⟩
  have hsuccess := h.2.1.2 (by simp [text, ui64tow, digits])
  exact ⟨hsuccess, h.1 hsuccess⟩

end Wdutf.Rtl
