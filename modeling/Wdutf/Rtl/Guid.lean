import Mathlib.Data.List.Basic
import Mathlib.Data.List.TakeWhile
import Mathlib.Tactic.Common
import Mathlib.Tactic.FinCases
import Wdutf.Lib.Numerals
import Wdutf.Rtl.Integer

/-!
# Wdutf.Rtl.Guid — GUIDs as text, `src/unicode.cpp`

`RtlStringFromGUID` prints a GUID with `swprintf`, `RtlGUIDFromString` reads one with
`swscanf`. Both formats have the same fields; the length modifiers of the eight
bytes differ.

* `scanHex_hexField` — a field that was printed with its width is read to its end,
  and no further;
* `swscanf_swprintf` — so what a format prints, a format with the same fields reads;
* `guid_round_trip` — every GUID is read back.
-/

namespace Wdutf.Rtl

open Wdutf.Numerals

/-! ## `swprintf` and `swscanf` -/

/-- A part of a format: a character, or `%0wX` with the size of the argument in bits. -/
inductive Conversion where
  | literal (c : Wchar)
  | hex (width bits : ℕ)

/-- The character of a digit in upper case. -/
def upperDigitChar (d : ℕ) : Wchar := UInt16.ofNat (if d < 10 then 0x30 + d else 0x41 + (d - 10))

/-- A number in at least `width` hexadecimal digits. -/
def hexField (width v : ℕ) : List Wchar := (List.leftpad width 0 (digits 16 v)).map upperDigitChar

/-- The text that `swprintf` makes of its arguments. -/
def swprintf : List Conversion → List ℕ → List Wchar
  | [], _ => []
  | .literal c :: format, args => c :: swprintf format args
  | .hex width bits :: format, v :: args => hexField width (v % 2 ^ bits) ++ swprintf format args
  | .hex _ _ :: _, [] => []

/-- A character of a hexadecimal number. -/
def iswxdigit (c : Wchar) : Bool := charDigit c < 16

/-- The sign of a number: whether it is negative, and how many characters it takes. -/
def scanSign (width : ℕ) : List Wchar → Bool × ℕ
  | [] => (false, 0)
  | c :: _ => if 0 < width ∧ c = 0x2D then (true, 1) else if 0 < width ∧ c = 0x2B then (false, 1)
    else (false, 0)

/-- The number of characters of a prefix `0x` or `0X`. -/
def scanPrefix (width : ℕ) : List Wchar → ℕ
  | z :: c :: _ => if 2 ≤ width ∧ z = 0x30 ∧ (c = 0x78 ∨ c = 0x58) then 2 else 0
  | _ => 0

/-- A hexadecimal number of at most `width` characters, after white space: the number and
the input behind it. -/
def scanHex (width : ℕ) (input : List Wchar) : Option (ℤ × List Wchar) :=
  let input := input.dropWhile iswspace
  let (negative, n) := scanSign width input
  let width := width - n
  let input := input.drop n
  let n := scanPrefix width input
  let width := width - n
  let input := input.drop n
  let ds := (input.take width).takeWhile iswxdigit
  if ds = [] then none
  else
    let v : ℤ := value 16 (ds.map fun c => (charDigit c).toNat)
    some (if negative then -v else v, input.drop ds.length)

/-- The values that `swscanf` assigns before it fails or is done. -/
def swscanf : List Conversion → List Wchar → List ℕ
  | [], _ => []
  | .literal c :: format, input =>
    match input with
    | [] => []
    | c' :: input => if c' = c then swscanf format input else []
  | .hex width bits :: format, input =>
    match scanHex width input with
    | none => []
    | some (v, input) => (v % 2 ^ bits).toNat :: swscanf format input

/-! ## The routines -/

/-- `GUID`. -/
structure Guid where
  data1 : UInt32
  data2 : UInt16
  data3 : UInt16
  data4 : Fin 8 → UInt8

/-- `{%08lX-%04hX-%04hX-%02hhX%02hhX-...}`, with the size of the last eight arguments: `hhX`
for printing and `hX` for reading. -/
def guidFormat (bits : ℕ) : List Conversion :=
  [.literal 0x7B, .hex 8 32, .literal 0x2D, .hex 4 16, .literal 0x2D, .hex 4 16, .literal 0x2D,
    .hex 2 bits, .hex 2 bits, .literal 0x2D, .hex 2 bits, .hex 2 bits, .hex 2 bits, .hex 2 bits,
    .hex 2 bits, .hex 2 bits, .literal 0x7D]

/-- The arguments of the formats. -/
def Guid.fields (g : Guid) : List ℕ :=
  [g.data1.toNat, g.data2.toNat, g.data3.toNat, (g.data4 0).toNat, (g.data4 1).toNat,
    (g.data4 2).toNat, (g.data4 3).toNat, (g.data4 4).toNat, (g.data4 5).toNat, (g.data4 6).toNat,
    (g.data4 7).toNat]

/-- `RtlGUIDFromString`: the status and `*Guid`. The buffer is one that ends with a NUL. -/
def rtlGUIDFromString (guidString : UnicodeBuffer) (guid : Guid) : Status × Guid :=
  if guidString.length.toNat ≠ 38 * 2 then (.invalidParameter, guid)
  else if guidString.buffer[0]? ≠ some 0x7B ∨ guidString.buffer[37]? ≠ some 0x7D then
    (.invalidParameter, guid)
  else
    let values := swscanf (guidFormat 16) (guidString.buffer.takeWhile (· ≠ 0))
    -- the members are assigned even when a later field fails
    let assigned : Guid :=
      { guid with
        data1 := (values[0]?.map UInt32.ofNat).getD guid.data1
        data2 := (values[1]?.map UInt16.ofNat).getD guid.data2
        data3 := (values[2]?.map UInt16.ofNat).getD guid.data3 }
    if values.length ≠ 11 then (.invalidParameter, assigned)
    else
      let tmpI := fun i : Fin 8 => UInt16.ofNat ((values[3 + i.val]?).getD 0)
      (.success, { assigned with data4 := fun i => (tmpI i).toUInt8 })

/-- `RtlStringFromGUID`: the status and the string, none when its buffer was freed. -/
def rtlStringFromGUID (guid : Guid) : Status × Option UnicodeBuffer :=
  let text := swprintf (guidFormat 8) guid.fields
  if h : text.length = 38 then
    (.success, some ⟨text ++ [0], 38 * 2, 39 * 2, by simp [h]⟩)
  else (.invalidParameter, none)

/-! ## Reading what was printed -/

/-- A digit in upper case reads back as itself. -/
theorem charDigit_upperDigitChar {d : ℕ} (hd : d < 16) :
    charDigit (upperDigitChar d) = UInt32.ofNat d := by
  interval_cases d <;> decide

/-- It is neither white space nor a sign nor the letter of a prefix nor a NUL. -/
theorem upperDigitChar_ne {d : ℕ} (hd : d < 16) :
    iswspace (upperDigitChar d) = false ∧ upperDigitChar d ≠ 0x2D ∧ upperDigitChar d ≠ 0x2B ∧
      upperDigitChar d ≠ 0x78 ∧ upperDigitChar d ≠ 0x58 ∧ upperDigitChar d ≠ 0 := by
  interval_cases d <;> decide

theorem iswxdigit_upperDigitChar {d : ℕ} (hd : d < 16) : iswxdigit (upperDigitChar d) = true := by
  unfold iswxdigit
  rw [charDigit_upperDigitChar hd, decide_eq_true_iff, UInt32.lt_iff_toNat_lt, UInt32.toNat_ofNat']
  simp only [UInt32.reduceToNat]
  omega

theorem lt_of_mem_leftpad {w v d : ℕ} (hd : d ∈ List.leftpad w 0 (digits 16 v)) : d < 16 := by
  rcases List.mem_append.1 hd with hd | hd
  · rw [List.eq_of_mem_replicate hd]
    decide
  · exact digits_lt (by decide) hd

theorem length_hexField {w v : ℕ} (hw : 0 < w) (hv : v < 16 ^ w) : (hexField w v).length = w := by
  have hle : (digits 16 v).length ≤ w := (length_digits_le (by decide) hw).2 hv
  unfold hexField
  rw [List.length_map, List.length_leftpad]
  omega

theorem value_hexField (w v : ℕ) :
    value 16 ((hexField w v).map fun c => (charDigit c).toNat) = v := by
  have hback : (hexField w v).map (fun c => (charDigit c).toNat) =
      List.leftpad w 0 (digits 16 v) := by
    unfold hexField
    rw [List.map_map]
    refine (List.map_congr_left fun d hd => ?_).trans (List.map_id _)
    have hlt := lt_of_mem_leftpad hd
    show (charDigit (upperDigitChar d)).toNat = d
    rw [charDigit_upperDigitChar hlt, UInt32.toNat_ofNat']
    omega
  rw [hback, value_leftpad, value_digits]

/-- White space, sign and prefix: a printed field has none of them. -/
theorem scan_hexField {w v : ℕ} (hw : 0 < w) (hv : v < 16 ^ w) (rest : List Wchar) :
    (hexField w v ++ rest).dropWhile iswspace = hexField w v ++ rest ∧
      scanSign w (hexField w v ++ rest) = (false, 0) ∧ scanPrefix w (hexField w v ++ rest) = 0 := by
  have hlen := length_hexField hw hv
  have hdigit : ∀ c ∈ hexField w v, ∃ d, d < 16 ∧ c = upperDigitChar d := by
    intro c hc
    rcases List.mem_map.1 hc with ⟨d, hd, rfl⟩
    exact ⟨d, lt_of_mem_leftpad hd, rfl⟩
  generalize hexField w v = text at hlen hdigit
  cases text with
  | nil => exact absurd hlen (by simpa using Nat.ne_of_lt hw)
  | cons c text =>
    rcases hdigit c (List.mem_cons_self ..) with ⟨d, hd, rfl⟩
    rcases upperDigitChar_ne hd with ⟨hspace, hminus, hplus, -⟩
    refine ⟨?_, ?_, ?_⟩
    · rw [List.cons_append, List.dropWhile_cons_of_neg (by simp [hspace])]
    · simp [scanSign, hminus, hplus]
    · -- the second character is a digit of the field, or the field has only one
      cases text with
      | nil =>
        have hw1 : ¬ 2 ≤ w := by
          rw [← hlen]
          simp
        cases rest with
        | nil => rfl
        | cons c rest => simp [scanPrefix, hw1]
      | cons c text =>
        rcases hdigit c (by simp) with ⟨d', hd', rfl⟩
        rcases upperDigitChar_ne hd' with ⟨-, -, -, hx, hX, -⟩
        simp [scanPrefix, hx, hX]

/-- A printed field is read to its end. -/
theorem scanHex_hexField {w v : ℕ} (hw : 0 < w) (hv : v < 16 ^ w) (rest : List Wchar) :
    scanHex w (hexField w v ++ rest) = some ((v : ℤ), rest) := by
  have hlen := length_hexField hw hv
  rcases scan_hexField hw hv rest with ⟨hspace, hsign, hbegin⟩
  have htake : ((hexField w v ++ rest).take w).takeWhile iswxdigit = hexField w v := by
    rw [List.take_append_of_le_length (by omega), List.take_of_length_le (by omega),
      List.takeWhile_eq_self_iff]
    intro c hc
    rcases List.mem_map.1 hc with ⟨d, hd, rfl⟩
    exact iswxdigit_upperDigitChar (lt_of_mem_leftpad hd)
  have hne : hexField w v ≠ [] := by
    intro hnil
    rw [hnil] at hlen
    exact absurd hlen (Nat.ne_of_lt hw)
  unfold scanHex
  dsimp only
  rw [hspace, hsign]
  dsimp only
  rw [List.drop_zero, Nat.sub_zero, hbegin, Nat.sub_zero, List.drop_zero, htake, if_neg hne,
    value_hexField, List.drop_left]
  rfl

/-- The two formats have the same fields, and the arguments fit into them. -/
def Fits : List Conversion → List Conversion → List ℕ → Prop
  | [], [], [] => True
  | .literal c :: format, .literal c' :: format', args => c' = c ∧ Fits format format' args
  | .hex w bits :: format, .hex w' bits' :: format', v :: args =>
    w' = w ∧ 0 < w ∧ v < 16 ^ w ∧ v < 2 ^ bits ∧ v < 2 ^ bits' ∧ Fits format format' args
  | _, _, _ => False

/-- What one format prints, the other one reads. -/
theorem swscanf_swprintf (format format' : List Conversion) (args : List ℕ)
    (h : Fits format format' args) : swscanf format' (swprintf format args) = args := by
  induction format generalizing format' args with
  | nil =>
    cases format' with
    | cons _ _ => exact h.elim
    | nil =>
      cases args with
      | cons _ _ => exact h.elim
      | nil => rfl
  | cons part format ih =>
    cases part with
    | literal c =>
      match format', h with
      | .literal c' :: format', h =>
        rcases h with ⟨rfl, hrest⟩
        show (if c' = c' then swscanf format' (swprintf format args) else []) = args
        rw [if_pos rfl, ih format' args hrest]
    | hex w bits =>
      match format', args, h with
      | .hex w' bits' :: format', v :: args, h =>
        rcases h with ⟨rfl, hw, hv, hbits, hbits', hrest⟩
        unfold swprintf swscanf
        rw [Nat.mod_eq_of_lt hbits, scanHex_hexField hw hv]
        dsimp only
        rw [ih format' args hrest]
        have hkept : (v : ℤ) % 2 ^ bits' = v := by
          refine Int.emod_eq_of_lt (Int.natCast_nonneg v) ?_
          exact_mod_cast hbits'
        rw [hkept, Int.toNat_natCast]

/-- The length of the text, when every argument fits into its field. -/
def formatLength : List Conversion → ℕ
  | [] => 0
  | .literal _ :: format => formatLength format + 1
  | .hex w _ :: format => w + formatLength format

/-- The format prints no NUL of its own. -/
def NoNul : List Conversion → Prop
  | [] => True
  | .literal c :: format => c ≠ 0 ∧ NoNul format
  | .hex _ _ :: format => NoNul format

theorem length_swprintf (format format' : List Conversion) (args : List ℕ)
    (h : Fits format format' args) : (swprintf format args).length = formatLength format := by
  induction format generalizing format' args with
  | nil => rfl
  | cons part format ih =>
    cases part with
    | literal c =>
      match format', h with
      | .literal c' :: format', h => simp [swprintf, formatLength, ih format' args h.2]
    | hex w bits =>
      match format', args, h with
      | .hex w' bits' :: format', v :: args, h =>
        rcases h with ⟨-, hw, hv, hbits, -, hrest⟩
        unfold swprintf formatLength
        rw [Nat.mod_eq_of_lt hbits, List.length_append, length_hexField hw hv,
          ih format' args hrest]

theorem zero_notMem_swprintf (format : List Conversion) (args : List ℕ) (h : NoNul format) :
    0 ∉ swprintf format args := by
  induction format generalizing args with
  | nil => exact List.not_mem_nil
  | cons part format ih =>
    cases part with
    | literal c =>
      intro hmem
      rcases List.mem_cons.1 hmem with hc | hmem
      · exact h.1 hc.symm
      · exact ih args h.2 hmem
    | hex w bits =>
      cases args with
      | nil => exact List.not_mem_nil
      | cons v args =>
        intro hmem
        rcases List.mem_append.1 hmem with hmem | hmem
        · rcases List.mem_map.1 hmem with ⟨d, hd, hzero⟩
          exact (upperDigitChar_ne (lt_of_mem_leftpad hd)).2.2.2.2.2 hzero
        · exact ih args h hmem

/-! ## GUIDs -/

theorem guid_fits (g : Guid) : Fits (guidFormat 8) (guidFormat 16) g.fields := by
  have h1 := g.data1.toNat_lt
  have h2 := g.data2.toNat_lt
  have h3 := g.data3.toNat_lt
  have h4 := fun i => (g.data4 i).toNat_lt
  have hbyte : ∀ i, (g.data4 i).toNat < 16 ^ 2 ∧ (g.data4 i).toNat < 2 ^ 8 ∧
      (g.data4 i).toNat < 2 ^ 16 := by
    intro i
    have := h4 i
    omega
  refine ⟨rfl, rfl, by decide, by omega, h1, h1, rfl, rfl, by decide, by omega, h2, h2, rfl, rfl,
    by decide, by omega, h3, h3, rfl, ?_⟩
  simp only [Fits, hbyte, and_true, Nat.zero_lt_succ]

/-- The text of a GUID: 38 characters without a NUL, in braces. -/
theorem guid_text (g : Guid) :
    (swprintf (guidFormat 8) g.fields).length = 38 ∧ 0 ∉ swprintf (guidFormat 8) g.fields ∧
      (∃ tail, swprintf (guidFormat 8) g.fields = 0x7B :: tail) ∧
      ∃ init, swprintf (guidFormat 8) g.fields = init ++ [0x7D] := by
  refine ⟨length_swprintf _ _ _ (guid_fits g), ?_, ⟨_, rfl⟩, ?_⟩
  · refine zero_notMem_swprintf _ _ ?_
    simp only [guidFormat, NoNul]
    decide
  · simp only [guidFormat, Guid.fields, swprintf, ← List.append_assoc, ← List.cons_append]
    exact ⟨_, rfl⟩

/-- The bytes come back out of the 16-bit array. -/
theorem data4_fields (g : Guid) (i : Fin 8) :
    (UInt16.ofNat ((g.fields[3 + i.val]?).getD 0)).toUInt8 = g.data4 i := by
  have hbyte : ∀ b : UInt8, (UInt16.ofNat b.toNat).toUInt8 = b := by
    intro b
    have := b.toNat_lt
    rw [← UInt8.toNat_inj, UInt16.toNat_toUInt8, UInt16.toNat_ofNat']
    omega
  fin_cases i <;> exact hbyte _

/-- A string with braces, in which `swscanf` finds the fields of a GUID. -/
theorem rtlGUIDFromString_fields {u : UnicodeBuffer} {g : Guid} (guid : Guid)
    (hlength : u.length.toNat = 38 * 2) (hfirst : u.buffer[0]? = some 0x7B)
    (hbrace : u.buffer[37]? = some 0x7D)
    (hscan : swscanf (guidFormat 16) (u.buffer.takeWhile (· ≠ 0)) = g.fields) :
    rtlGUIDFromString u guid = (.success, g) := by
  have hfields : g.fields.length = 11 := rfl
  unfold rtlGUIDFromString
  rw [if_neg (by simp [hlength]), if_neg (by simp [hfirst, hbrace])]
  dsimp only
  rw [hscan, if_neg (not_not.2 hfields)]
  simp only [data4_fields]
  simp [Guid.fields]

/-- Reading the text of a GUID from a buffer that it fills. -/
theorem rtlGUIDFromString_text (g guid : Guid) {u : UnicodeBuffer}
    (hlength : u.length.toNat = 38 * 2)
    (hbuffer : u.buffer = swprintf (guidFormat 8) g.fields ++ [0]) :
    rtlGUIDFromString u guid = (.success, g) := by
  rcases guid_text g with ⟨hlen, hnul, ⟨tail, hhead⟩, init, hlast⟩
  have hscan := swscanf_swprintf _ _ _ (guid_fits g)
  generalize swprintf (guidFormat 8) g.fields = text at hlen hnul hhead hlast hscan hbuffer
  have hfirst : u.buffer[0]? = some 0x7B := by
    rw [hbuffer, hhead]
    rfl
  have hbrace : u.buffer[37]? = some 0x7D := by
    have hinit : init.length = 37 := by
      rw [hlast] at hlen
      simpa using hlen
    rw [hbuffer, List.getElem?_append_left (by omega), hlast, ← hinit, List.getElem?_concat_length]
  have hcut : u.buffer.takeWhile (· ≠ 0) = text := by
    rw [hbuffer, List.takeWhile_append_of_pos]
    · simp
    · intro c hc
      have hne : c ≠ 0 := fun hzero => hnul (hzero ▸ hc)
      simpa using hne
  apply rtlGUIDFromString_fields guid hlength hfirst hbrace
  rw [hcut, hscan]

/-- **GUID text round trip.** Every GUID is printed in 76 bytes, and read back. -/
theorem guid_round_trip (g guid : Guid) :
    ∃ u, rtlStringFromGUID g = (.success, some u) ∧ u.length = 76 ∧
      rtlGUIDFromString u guid = (.success, g) := by
  have hlen := (guid_text g).1
  refine ⟨⟨swprintf (guidFormat 8) g.fields ++ [0], 38 * 2, 39 * 2, by simp [hlen]⟩, ?_, rfl, ?_⟩
  · unfold rtlStringFromGUID
    dsimp only
    rw [dif_pos hlen]
  · exact rtlGUIDFromString_text g guid rfl rfl

end Wdutf.Rtl
