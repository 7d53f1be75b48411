import Mathlib.Algebra.Group.Nat.Defs
import Mathlib.Data.List.Basic
import Mathlib.Tactic.Common
import Wdutf.Rtl.Unicode

/-!
# Wdutf.Rtl.Ansi — between `ANSI_STRING` and `UNICODE_STRING`, `src/unicode.cpp`

`RtlAnsiStringToUnicodeString` and `RtlUnicodeStringToAnsiString` take the sizes
from the counted lengths, and leave the conversion to `mbstowcs` and `wcstombs`,
which go on to a NUL or to the end of the destination.

The code page is a single-byte one (`NlsMbCodePageTag` is FALSE). What the C
library does with characters that are not ASCII is a parameter.

* `mbstowcs_append`, `wcstombs_append` — ASCII characters are converted one by one;
* `ansi_round_trip_iff` — a string of ASCII characters makes the round trip exactly
  when a NUL follows its last character;
* `ansi_round_trip_slice` — the first character of `"ab"` becomes two.
-/

namespace Wdutf.Rtl

/-- What the routines use from outside: the conversions of one character, the size
that `WideCharToMultiByte` computes, and the contents of memory from the pool. -/
structure Crt where
  mbtowc : UInt8 → Option Wchar
  wctomb : Wchar → Option UInt8
  wideCharToMultiByte : List Wchar → ℕ
  poolWchar : ℕ → Wchar
  poolChar : ℕ → UInt8

/-- The conversions as documented for ASCII characters. -/
structure Crt.Ascii (crt : Crt) : Prop where
  mbtowc : ∀ b : UInt8, 0 < b → b < 128 → crt.mbtowc b = some b.toUInt16
  wctomb : ∀ b : UInt8, 0 < b → b < 128 → crt.wctomb b.toUInt16 = some b
  wideCharToMultiByte : ∀ bs : List UInt8, (∀ b ∈ bs, 0 < b ∧ b < 128) →
    crt.wideCharToMultiByte (bs.map UInt8.toUInt16) = bs.length

/-- `ANSI_STRING`: the memory at `Buffer`, which `MaximumLength` does not exceed. -/
structure AnsiString where
  buffer : List UInt8
  length : UInt16
  maximumLength : UInt16
  capacity : maximumLength.toNat ≤ buffer.length

/-- Characters written to the start of the buffer, and a new `Length`. -/
def AnsiString.write (s : AnsiString) (chars : List UInt8) (length : UInt16) : AnsiString where
  buffer := chars ++ s.buffer.drop chars.length
  length := length
  maximumLength := s.maximumLength
  capacity := by
    have := s.capacity
    rw [List.length_append, List.length_drop]
    omega

/-! ## The C library -/

/-- One more character was converted. -/
def converted {α : Type} (c : α) (r : Option ℕ × List α) : Option ℕ × List α :=
  (r.1.map (· + 1), c :: r.2)

/-- `mbstowcs`, `wcstombs`: the number of characters that were converted, or a failure,
and what was written. There is no result when the source is read behind its end. -/
def convert {α β : Type} [DecidableEq α] [OfNat α 0] [OfNat β 0] (f : α → Option β) :
    ℕ → List α → Option (Option ℕ × List β)
  | 0, _ => some (some 0, [])
  | _ + 1, [] => none
  | n + 1, c :: src =>
    if c = 0 then some (some 0, [0])
    else match f c with
      | none => some (none, [])
      | some c' => (convert f n src).map (converted c')

/-- `mbstowcs`. -/
def mbstowcs (crt : Crt) (src : List UInt8) (count : ℕ) : Option (Option ℕ × List Wchar) :=
  convert crt.mbtowc count src

/-- `wcstombs`. -/
def wcstombs (crt : Crt) (src : List Wchar) (count : ℕ) : Option (Option ℕ × List UInt8) :=
  convert crt.wctomb count src

/-- The `size_t` that stands for the number of converted characters: a failure is -1. -/
def sizeT : Option ℕ → ℕ
  | none => 2 ^ 64 - 1
  | some count => count

/-! ## The routines -/

/-- `RtlAnsiStringToUnicodeSize`, for a single-byte code page. -/
def rtlAnsiStringToUnicodeSize (s : AnsiString) : ℕ := (s.length.toNat + 1) * 2

/-- `DdkAllocUnicodeBuffer` and the new `MaximumLength`. -/
def UnicodeBuffer.allocate (crt : Crt) (u : UnicodeBuffer) (len : ℕ) : UnicodeBuffer where
  buffer := (List.range ((len + 1) / 2)).map crt.poolWchar
  length := u.length
  maximumLength := UInt16.ofNat len
  capacity := by
    rw [UInt16.toNat_ofNat', List.length_map, List.length_range]
    have := Nat.mod_le len (2 ^ 16)
    omega

/-- `DdkAllocAnsiBuffer` and the new `MaximumLength`. -/
def AnsiString.allocate (crt : Crt) (s : AnsiString) (len : ℕ) : AnsiString where
  buffer := (List.range (UInt16.ofNat len).toNat).map crt.poolChar
  length := s.length
  maximumLength := UInt16.ofNat len
  capacity := by simp

/-- `RtlAnsiStringToUnicodeString`. -/
def rtlAnsiStringToUnicodeString (crt : Crt) (destinationString : UnicodeBuffer)
    (sourceString : AnsiString) (allocateDestinationString : Bool) :
    Option (Status × UnicodeBuffer) :=
  let len := rtlAnsiStringToUnicodeSize sourceString
  if len = 0 then some (.invalidParameter, destinationString)
  else
    let dest := if allocateDestinationString then destinationString.allocate crt len
      else destinationString
    if len > dest.maximumLength.toNat + 2 then some (.bufferTooSmall, dest)
    else
      match mbstowcs crt sourceString.buffer (dest.maximumLength.toNat / 2) with
      | none => none
      | some (count, written) =>
        some (.success, dest.write written (UInt16.ofNat (sizeT count * 2)))

/-- `RtlxUnicodeStringToAnsiSize`: no size when the string is longer than its buffer. -/
def rtlxUnicodeStringToAnsiSize (crt : Crt) (u : UnicodeBuffer) : Option ℕ :=
  if u.length.toNat / 2 ≤ u.buffer.length then
    some (crt.wideCharToMultiByte (u.buffer.take (u.length.toNat / 2)) + 1)
  else none

/-- `RtlUnicodeStringToAnsiString`. -/
def rtlUnicodeStringToAnsiString (crt : Crt) (destinationString : AnsiString)
    (sourceString : UnicodeBuffer) (allocateDestinationString : Bool) :
    Option (Status × AnsiString) :=
  match rtlxUnicodeStringToAnsiSize crt sourceString with
  | none => none
  | some len =>
    let dest := if allocateDestinationString then destinationString.allocate crt len
      else destinationString
    if ¬ allocateDestinationString ∧ len > dest.maximumLength.toNat then
      some (.bufferTooSmall, dest)
    else
      match wcstombs crt sourceString.buffer dest.maximumLength.toNat with
      | none => none
      | some (count, written) => some (.success, dest.write written (UInt16.ofNat (sizeT count)))

/-! ## ASCII characters -/

/-- The counted characters are ASCII characters, none of them NUL. -/
structure AnsiString.Ascii (s : AnsiString) : Prop where
  length_le : s.length.toNat ≤ s.buffer.length
  ascii : ∀ b ∈ s.buffer.take s.length.toNat, 0 < b ∧ b < 128

/-- The size of the converted string is one that a `MaximumLength` can hold. -/
def AnsiString.Accepted (s : AnsiString) : Prop := rtlAnsiStringToUnicodeSize s ≤ 0xFFFF

/-- Characters that can be converted, and are no NUL, are converted one by one. -/
theorem convert_append {α β : Type} [DecidableEq α] [OfNat α 0] [OfNat β 0] {f : α → Option β}
    {g : α → β} {cs : List α} (hcs : ∀ c ∈ cs, c ≠ 0 ∧ f c = some (g c)) (n : ℕ) (rest : List α) :
    convert f (cs.length + n) (cs ++ rest) =
      (convert f n rest).map fun r => (r.1.map (· + cs.length), cs.map g ++ r.2) := by
  induction cs with
  | nil => simp
  | cons c cs ih =>
    rcases hcs c (List.mem_cons_self ..) with ⟨hne, hc⟩
    have hrest := ih fun c' hc' => hcs c' (List.mem_cons_of_mem c hc')
    rw [List.length_cons, Nat.succ_add, List.cons_append, convert, if_neg hne, hc]
    dsimp only
    rw [hrest, Option.map_map]
    congr 1
    funext r
    simp [converted, Function.comp_def, Nat.add_assoc]

theorem ne_zero_of_pos {b : UInt8} (h : 0 < b) : b ≠ 0 := by
  rintro rfl
  exact absurd h (by decide)

theorem toUInt16_ne_zero {b : UInt8} (h : 0 < b) : b.toUInt16 ≠ 0 := by
  intro hzero
  refine ne_zero_of_pos h ?_
  have hnat := congrArg UInt16.toNat hzero
  rw [UInt8.toNat_toUInt16] at hnat
  exact UInt8.toNat_inj.1 hnat

variable {crt : Crt} {s : AnsiString}

theorem mbstowcs_append (hcrt : crt.Ascii) {bs : List UInt8} (hbs : ∀ b ∈ bs, 0 < b ∧ b < 128)
    (rest : List UInt8) (n : ℕ) :
    mbstowcs crt (bs ++ rest) (bs.length + n) =
      (mbstowcs crt rest n).map fun r => (r.1.map (· + bs.length), bs.map UInt8.toUInt16 ++ r.2) :=
  convert_append
    (fun b hb => ⟨ne_zero_of_pos (hbs b hb).1, hcrt.mbtowc b (hbs b hb).1 (hbs b hb).2⟩) n rest

theorem wcstombs_append (hcrt : crt.Ascii) {bs : List UInt8} (hbs : ∀ b ∈ bs, 0 < b ∧ b < 128)
    (rest : List Wchar) (n : ℕ) :
    wcstombs crt (bs.map UInt8.toUInt16 ++ rest) (bs.length + n) =
      (wcstombs crt rest n).map fun r => (r.1.map (· + bs.length), bs ++ r.2) := by
  have hcs : ∀ c ∈ bs.map UInt8.toUInt16, c ≠ 0 ∧ crt.wctomb c = some c.toUInt8 := by
    intro c hc
    rcases List.mem_map.1 hc with ⟨b, hb, rfl⟩
    refine ⟨toUInt16_ne_zero (hbs b hb).1, ?_⟩
    rw [hcrt.wctomb b (hbs b hb).1 (hbs b hb).2]
    simp
  have hback : (bs.map UInt8.toUInt16).map UInt16.toUInt8 = bs := by simp [Function.comp_def]
  have h := convert_append hcs n rest
  rwa [List.length_map, hback] at h

/-! ## From ANSI to Unicode -/

/-- The destination gets room for the counted characters and one more. -/
theorem maximumLength_allocate (u : UnicodeBuffer) (h : s.Accepted) :
    (u.allocate crt (rtlAnsiStringToUnicodeSize s)).maximumLength.toNat =
      (s.length.toNat + 1) * 2 := by
  unfold AnsiString.Accepted at h
  show (UInt16.ofNat _).toNat = _
  rw [UInt16.toNat_ofNat']
  unfold rtlAnsiStringToUnicodeSize at h ⊢
  omega

/-- The allocating call, on a string that is not too long. -/
theorem rtlAnsiStringToUnicodeString_allocate (u : UnicodeBuffer) (h : s.Accepted) :
    rtlAnsiStringToUnicodeString crt u s true =
      (mbstowcs crt s.buffer (s.length.toNat + 1)).map fun r =>
        (.success, (u.allocate crt (rtlAnsiStringToUnicodeSize s)).write r.2
          (UInt16.ofNat (sizeT r.1 * 2))) := by
  have hmax : (u.allocate crt (rtlAnsiStringToUnicodeSize s)).maximumLength.toNat =
      (s.length.toNat + 1) * 2 := maximumLength_allocate u h
  unfold rtlAnsiStringToUnicodeString
  dsimp only
  rw [if_neg (by unfold rtlAnsiStringToUnicodeSize; omega), if_pos rfl, hmax,
    if_neg (by unfold rtlAnsiStringToUnicodeSize; omega), Nat.mul_div_cancel _ (by decide)]
  cases mbstowcs crt s.buffer (s.length.toNat + 1) with
  | none => rfl
  | some r => rfl

/-- Longer strings are refused. -/
theorem rtlAnsiStringToUnicodeString_refused (u : UnicodeBuffer) (h : ¬ s.Accepted) :
    (rtlAnsiStringToUnicodeString crt u s true).map (·.1) = some .bufferTooSmall := by
  have hlt := s.length.toNat_lt
  unfold AnsiString.Accepted at h
  have hmax : (u.allocate crt (rtlAnsiStringToUnicodeSize s)).maximumLength.toNat + 2 <
      rtlAnsiStringToUnicodeSize s := by
    show (UInt16.ofNat _).toNat + 2 < _
    rw [UInt16.toNat_ofNat']
    unfold rtlAnsiStringToUnicodeSize at h ⊢
    omega
  unfold rtlAnsiStringToUnicodeString
  dsimp only
  rw [if_neg (by unfold rtlAnsiStringToUnicodeSize; omega), if_pos rfl, if_pos hmax]
  rfl

/-! ## The round trip -/

/-- The string is converted to Unicode and back, character by character. -/
def RoundTrips (crt : Crt) (s : AnsiString) : Prop :=
  ∀ u₀ s₀, ∃ u s₂,
    rtlAnsiStringToUnicodeString crt u₀ s true = some (.success, u) ∧
    u.length.toNat = 2 * s.length.toNat ∧
    (∀ i, i < s.length.toNat → u.buffer[i]? = s.buffer[i]?.map UInt8.toUInt16) ∧
    rtlUnicodeStringToAnsiString crt s₀ u true = some (.success, s₂) ∧
    s₂.length = s.length ∧ s₂.buffer.take s.length.toNat = s.buffer.take s.length.toNat

/-- The back conversion of a string that is followed by a NUL. -/
theorem rtlUnicodeStringToAnsiString_allocate (hcrt : crt.Ascii) (s₀ : AnsiString)
    {u : UnicodeBuffer}
    {bs : List UInt8} (hbs : ∀ b ∈ bs, 0 < b ∧ b < 128) (hshort : bs.length + 1 < 2 ^ 16)
    (hlength : u.length.toNat = 2 * bs.length)
    (hterminated : ∃ rest, u.buffer = bs.map UInt8.toUInt16 ++ 0 :: rest) :
    rtlUnicodeStringToAnsiString crt s₀ u true =
      some (.success,
        (s₀.allocate crt (bs.length + 1)).write (bs ++ [0]) (UInt16.ofNat bs.length)) := by
  rcases hterminated with ⟨rest, hbuffer⟩
  have hhalf : u.length.toNat / 2 = (bs.map UInt8.toUInt16).length := by
    rw [List.length_map]
    omega
  have hsize : rtlxUnicodeStringToAnsiSize crt u = some (bs.length + 1) := by
    unfold rtlxUnicodeStringToAnsiSize
    rw [hhalf, hbuffer, if_pos (by simp), List.take_left, hcrt.wideCharToMultiByte bs hbs]
  have hmax : (s₀.allocate crt (bs.length + 1)).maximumLength.toNat = bs.length + 1 := by
    show (UInt16.ofNat _).toNat = _
    rw [UInt16.toNat_ofNat']
    omega
  have hbytes : wcstombs crt u.buffer (bs.length + 1) = some (some bs.length, bs ++ [0]) := by
    rw [hbuffer, wcstombs_append hcrt hbs]
    simp [wcstombs, convert]
  unfold rtlUnicodeStringToAnsiString
  rw [hsize]
  dsimp only
  rw [if_pos rfl, if_neg (by simp), hmax, hbytes]
  rfl

/-- With a NUL behind its last character, the string makes the round trip. -/
theorem roundTrips_of_terminated (hcrt : crt.Ascii) (hs : s.Ascii) (hacc : s.Accepted)
    (hnul : s.buffer[s.length.toNat]? = some 0) : RoundTrips crt s := by
  intro u₀ s₀
  rcases hs with ⟨hle, hascii⟩
  obtain ⟨bs, hbs⟩ : ∃ bs, bs = s.buffer.take s.length.toNat := ⟨_, rfl⟩
  have hlen : bs.length = s.length.toNat := by simp [hbs, hle]
  have hsplit : s.buffer = bs ++ 0 :: s.buffer.drop (s.length.toNat + 1) := by
    rcases List.getElem?_eq_some_iff.1 hnul with ⟨hlt, hget⟩
    rw [hbs, ← hget, ← List.drop_eq_getElem_cons hlt, List.take_append_drop]
  rw [← hbs] at hascii
  -- the conversion stops at the NUL
  have hwide : mbstowcs crt s.buffer (s.length.toNat + 1) =
      some (some bs.length, bs.map UInt8.toUInt16 ++ [0]) := by
    rw [hsplit, ← hlen, mbstowcs_append hcrt hascii]
    simp [mbstowcs, convert]
  have hsmall : 2 * bs.length < 2 ^ 16 := by
    unfold AnsiString.Accepted rtlAnsiStringToUnicodeSize at hacc
    omega
  have hlength : (UInt16.ofNat (bs.length * 2)).toNat = 2 * bs.length := by
    rw [UInt16.toNat_ofNat']
    omega
  have hforth := @rtlAnsiStringToUnicodeString_allocate crt _ u₀ hacc
  rw [hwide] at hforth
  refine ⟨_, (s₀.allocate crt (bs.length + 1)).write (bs ++ [0]) (UInt16.ofNat bs.length), hforth,
    ?_, ?_, ?_, ?_, ?_⟩
  · show (UInt16.ofNat (bs.length * 2)).toNat = _
    rw [hlength, hlen]
  · intro i hi
    show (bs.map UInt8.toUInt16 ++ [0] ++ _)[i]? = _
    rw [List.append_assoc, List.getElem?_append_left (by simpa [hlen] using hi), List.getElem?_map,
      hbs,
      List.getElem?_take_of_lt hi]
  · refine rtlUnicodeStringToAnsiString_allocate hcrt s₀ hascii (by omega) hlength ?_
    exact ⟨_, List.append_assoc (bs.map UInt8.toUInt16) [0] _⟩
  · show UInt16.ofNat bs.length = s.length
    rw [hlen]
    exact UInt16.ofNat_toNat
  · show (bs ++ [0] ++ _).take _ = _
    rw [List.append_assoc, ← hlen, List.take_left, hlen, hbs]

/-- Otherwise one character too many is converted, or the conversion fails, or the
source is read behind its end. -/
theorem terminated_of_roundTrips (hcrt : crt.Ascii) (hs : s.Ascii) (hacc : s.Accepted)
    (h : RoundTrips crt s) : s.buffer[s.length.toNat]? = some 0 := by
  rcases hs with ⟨hle, hascii⟩
  rcases h ⟨[], 0, 0, by decide⟩ ⟨[], 0, 0, by decide⟩ with ⟨u, s₂, hforth, hlength, -⟩
  rw [rtlAnsiStringToUnicodeString_allocate _ hacc] at hforth
  have hlen : (s.buffer.take s.length.toNat).length = s.length.toNat := by simp [hle]
  have hconvert := mbstowcs_append hcrt hascii (s.buffer.drop s.length.toNat) 1
  rw [List.take_append_drop, hlen] at hconvert
  rw [hconvert] at hforth
  unfold AnsiString.Accepted rtlAnsiStringToUnicodeSize at hacc
  rw [← List.head?_drop]
  cases hrest : s.buffer.drop s.length.toNat with
  | nil =>
    rw [hrest] at hforth
    cases hforth
  | cons b rest =>
    by_cases hb : b = 0
    · rw [hb]
      rfl
    · -- the length that comes out is not the right one
      exfalso
      rw [hrest] at hforth
      unfold mbstowcs convert at hforth
      rw [if_neg hb] at hforth
      cases hc : crt.mbtowc b with
      | none =>
        rw [hc] at hforth
        cases hforth
        replace hlength : (UInt16.ofNat ((2 ^ 64 - 1) * 2)).toNat = 2 * s.length.toNat := hlength
        rw [UInt16.toNat_ofNat'] at hlength
        omega
      | some c =>
        rw [hc] at hforth
        cases hforth
        replace hlength : (UInt16.ofNat ((1 + s.length.toNat) * 2)).toNat = 2 * s.length.toNat :=
          hlength
        rw [UInt16.toNat_ofNat'] at hlength
        omega

/-- **ANSI/Unicode round trip.** A counted string of ASCII characters that is not too
long makes the round trip exactly when a NUL follows its last character. -/
theorem ansi_round_trip_iff (crt : Crt) (hcrt : crt.Ascii) (s : AnsiString) (hs : s.Ascii)
    (hacc : s.Accepted) : RoundTrips crt s ↔ s.buffer[s.length.toNat]? = some 0 :=
  ⟨terminated_of_roundTrips hcrt hs hacc, roundTrips_of_terminated hcrt hs hacc⟩

/-- Conversions that keep every byte, as those of the C locale do. -/
def crtC : Crt where
  mbtowc b := some b.toUInt16
  wctomb c := if c < 256 then some c.toUInt8 else none
  wideCharToMultiByte := List.length
  poolWchar _ := 0xCDCD
  poolChar _ := 0xCD

theorem crtC_ascii : crtC.Ascii := by
  constructor
  · intro b _ _
    rfl
  · intro b _ hb
    have hlt : b.toUInt16 < 256 := by
      rw [UInt16.lt_iff_toNat_lt, UInt8.toNat_toUInt16]
      exact b.toNat_lt
    simp [crtC, hlt]
  · intro bs _
    simp [crtC]

/-- `"ab"` with its terminator. -/
theorem ansi_round_trip_ab : RoundTrips crtC ⟨[0x61, 0x62, 0], 2, 3, by decide⟩ := by
  have hascii : AnsiString.Ascii ⟨[0x61, 0x62, 0], 2, 3, by decide⟩ := by
    refine ⟨by decide, fun b hb => ?_⟩
    replace hb : b ∈ [(0x61 : UInt8), 0x62] := hb
    rcases List.mem_pair.1 hb with rfl | rfl
    · decide
    · decide
  have haccepted : AnsiString.Accepted ⟨[0x61, 0x62, 0], 2, 3, by decide⟩ := by
    unfold AnsiString.Accepted
    decide
  exact (ansi_round_trip_iff crtC crtC_ascii _ hascii haccepted).2 rfl

/-- A string that counts the first character of `"ab"`: two characters come out. -/
theorem ansi_round_trip_slice : ¬ RoundTrips crtC ⟨[0x61, 0x62, 0], 1, 1, by decide⟩ := by
  intro h
  rcases h ⟨[], 0, 0, by decide⟩ ⟨[], 0, 0, by decide⟩ with ⟨u, s₂, hforth, hlength, -⟩
  cases hforth
  revert hlength
  decide

end Wdutf.Rtl
