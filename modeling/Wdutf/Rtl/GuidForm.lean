import Mathlib.Data.Fin.VecNotation
import Mathlib.Data.List.Basic
import Mathlib.Data.List.TakeWhile
import Mathlib.Tactic.Common
import Wdutf.Rtl.Guid
import Wdutf.Rtl.Parse

/-!
# Wdutf.Rtl.GuidForm — which texts `RtlGUIDFromString` takes for a GUID

`swscanf` reads a field more freely than a GUID is written: after white space, with a
sign and a prefix, and its width is an upper bound only. The two braces and the length
of 38 characters are all that the routine checks besides.

* `HexField`, `Reads` — the fields of `swscanf`, with what they take of the input;
* `scanHex_reads`, `reads_scanHex` — they are what the scanner finds;
* `FullText` — the grammar of a GUID: every field in full;
* `guid_exact_iff` — the routine accepts exactly the GUIDs, with the values of their
  digits, except for the texts that have a field of another form.
-/

namespace Wdutf.Rtl

open Wdutf.Numerals

/-! ## The fields of `swscanf` -/

/-- What a conversion of a hexadecimal number takes of the input. -/
structure HexField where
  blanks : List Wchar
  sign : List Wchar
  marker : List Wchar
  digits : List Wchar

def HexField.text (f : HexField) : List Wchar := f.blanks ++ (f.sign ++ (f.marker ++ f.digits))

/-- The characters that count for the width. -/
def HexField.used (f : HexField) : ℕ := f.sign.length + f.marker.length + f.digits.length

/-- A field without white space, sign or prefix, and with all the digits it may have. -/
def HexField.Full (width : ℕ) (f : HexField) : Prop :=
  f.blanks = [] ∧ f.sign = [] ∧ f.marker = [] ∧ f.digits.length = width

/-- The text begins with `0x` or `0X`. -/
def StartsWithMarker (text : List Wchar) : Prop :=
  ∃ x tail, text = 0x30 :: x :: tail ∧ (x = 0x78 ∨ x = 0x58)

/-- The field that `%wX` finds at the start of the input: it takes as much as it can. -/
structure Reads (width : ℕ) (input : List Wchar) (f : HexField) (rest : List Wchar) : Prop where
  split : input = f.text ++ rest
  blanks : ∀ c ∈ f.blanks, iswspace c = true
  sign : f.sign = [] ∨ f.sign = [0x2B] ∨ f.sign = [0x2D]
  marker : f.marker = [] ∨ f.marker = [0x30, 0x78] ∨ f.marker = [0x30, 0x58]
  digits : f.digits ≠ [] ∧ ∀ c ∈ f.digits, iswxdigit c = true
  fits : f.used ≤ width
  longest : f.used = width ∨ ∀ c, rest.head? = some c → iswxdigit c = false
  unmarked : f.marker = [] → 2 ≤ width - f.sign.length → ¬ StartsWithMarker (f.digits ++ rest)

/-- A digit is a digit in lower or upper case, so it is none of the characters that stand
for something else. -/
theorem iswxdigit_ne {c : Wchar} (h : iswxdigit c = true) :
    iswspace c = false ∧ c ≠ 0x2D ∧ c ≠ 0x2B ∧ c ≠ 0x78 ∧ c ≠ 0x58 ∧ c ≠ 0 := by
  have hlt : (charDigit c).toNat < 16 := by
    unfold iswxdigit at h
    rw [decide_eq_true_iff, UInt32.lt_iff_toNat_lt] at h
    exact h
  rcases Parse.eq_digitChar_of_charDigit hlt with hc | hc
  · rw [hc]
    interval_cases (charDigit c).toNat <;> decide
  · rw [hc]
    interval_cases (charDigit c).toNat <;> decide

/-! ## The scanner finds such a field -/

theorem scanSign_eq (width : ℕ) (input : List Wchar) :
    (scanSign width input).2 ≤ width ∧
      (input.take (scanSign width input).2).length = (scanSign width input).2 ∧
      (input.take (scanSign width input).2 = [] ∨ input.take (scanSign width input).2 = [0x2B] ∨
        input.take (scanSign width input).2 = [0x2D]) := by
  cases input with
  | nil => exact ⟨Nat.zero_le _, rfl, Or.inl rfl⟩
  | cons c input =>
    unfold scanSign
    dsimp only
    split
    · rename_i h
      refine ⟨h.1, rfl, Or.inr (Or.inr ?_)⟩
      show [c] = [0x2D]
      rw [h.2]
    · split
      · rename_i h
        refine ⟨h.1, rfl, Or.inr (Or.inl ?_)⟩
        show [c] = [0x2B]
        rw [h.2]
      · exact ⟨Nat.zero_le _, rfl, Or.inl rfl⟩

theorem scanPrefix_eq (width : ℕ) (input : List Wchar) :
    (scanPrefix width input = 2 ∧ 2 ≤ width ∧ (input.take 2 = [0x30, 0x78] ∨
      input.take 2 = [0x30, 0x58])) ∨
    (scanPrefix width input = 0 ∧ (2 ≤ width → ¬ StartsWithMarker input)) := by
  rcases input with - | ⟨z, - | ⟨x, input⟩⟩
  · refine Or.inr ⟨rfl, fun _ => ?_⟩
    rintro ⟨x, tail, heq, -⟩
    cases heq
  · refine Or.inr ⟨rfl, fun _ => ?_⟩
    rintro ⟨x, tail, heq, -⟩
    cases heq
  · unfold scanPrefix
    dsimp only
    by_cases h : 2 ≤ width ∧ z = 0x30 ∧ (x = 0x78 ∨ x = 0x58)
    · rw [if_pos h]
      rcases h with ⟨hw, rfl, hx⟩
      refine Or.inl ⟨rfl, hw, ?_⟩
      rcases hx with rfl | rfl
      · exact Or.inl rfl
      · exact Or.inr rfl
    · rw [if_neg h]
      refine Or.inr ⟨rfl, fun hw => ?_⟩
      rintro ⟨x', tail, heq, hx'⟩
      cases heq
      exact h ⟨hw, rfl, hx'⟩

/-- The longest run of digits within a width. -/
theorem takeWhile_take_longest (width : ℕ) (input : List Wchar) :
    ((input.take width).takeWhile iswxdigit).length = width ∨
      ∀ c, (input.drop ((input.take width).takeWhile iswxdigit).length).head? = some c →
        iswxdigit c = false := by
  induction width generalizing input with
  | zero => exact Or.inl rfl
  | succ width ih =>
    cases input with
    | nil => exact Or.inr fun c hc => by simp at hc
    | cons a input =>
      rw [List.take_succ_cons]
      by_cases ha : iswxdigit a = true
      · rw [List.takeWhile_cons_of_pos ha, List.length_cons, List.drop_succ_cons]
        rcases ih input with hfull | hmiss
        · exact Or.inl (by rw [hfull])
        · exact Or.inr hmiss
      · rw [List.takeWhile_cons_of_neg ha]
        refine Or.inr fun c hc => ?_
        cases hc
        simpa using ha

/-- What `scanHex` reads is a field, and the rest is behind it. -/
theorem scanHex_reads {width : ℕ} {input rest : List Wchar} {v : ℤ}
    (h : scanHex width input = some (v, rest)) : ∃ f, Reads width input f rest := by
  unfold scanHex at h
  dsimp only at h
  have hsplit : input = input.takeWhile iswspace ++ input.dropWhile iswspace :=
    List.takeWhile_append_dropWhile.symm
  have hblanks : ∀ c ∈ input.takeWhile iswspace, iswspace c = true :=
    fun c hc => List.mem_takeWhile_imp hc
  generalize input.takeWhile iswspace = blanks at hsplit hblanks
  generalize input.dropWhile iswspace = i0 at h hsplit
  rcases scanSign_eq width i0 with ⟨hn, hlen, hsign⟩
  generalize (scanSign width i0).2 = n at h hn hlen hsign
  have hsplit1 : i0 = i0.take n ++ i0.drop n := (List.take_append_drop n i0).symm
  generalize i0.take n = sign at hlen hsign hsplit1
  generalize i0.drop n = i1 at h hsplit1
  have hmark := scanPrefix_eq (width - n) i1
  generalize hk : scanPrefix (width - n) i1 = k at h hmark
  split at h
  · cases h
  rename_i hne
  injection h with h
  injection h with hv hrest
  have hsplit2 : i1 = i1.take k ++ i1.drop k := (List.take_append_drop k i1).symm
  have hlongest := takeWhile_take_longest (width - n - k) (i1.drop k)
  have hds : ((i1.drop k).take (width - n - k)).takeWhile iswxdigit ++
      (i1.drop k).drop (((i1.drop k).take (width - n - k)).takeWhile iswxdigit).length =
      i1.drop k :=
    List.prefix_iff_eq_append.1 ((List.takeWhile_prefix _).trans (List.take_prefix _ _))
  have hdigits : ∀ c ∈ ((i1.drop k).take (width - n - k)).takeWhile iswxdigit,
      iswxdigit c = true := fun c hc => List.mem_takeWhile_imp hc
  have hshort : (((i1.drop k).take (width - n - k)).takeWhile iswxdigit).length ≤
      width - n - k :=
    (List.takeWhile_prefix _).length_le.trans (by rw [List.length_take]; omega)
  rw [hrest] at hlongest hds
  generalize ((i1.drop k).take (width - n - k)).takeWhile iswxdigit = ds at *
  have hmarker : (i1.take k).length = k ∧ (i1.take k = [] ∨ i1.take k = [0x30, 0x78] ∨
      i1.take k = [0x30, 0x58]) ∧ k ≤ width - n := by
    rcases hmark with ⟨hk2, hw, hx⟩ | ⟨hk0, -⟩
    · rw [hk2]
      rcases hx with hx | hx
      · rw [hx]
        exact ⟨rfl, Or.inr (Or.inl rfl), hw⟩
      · rw [hx]
        exact ⟨rfl, Or.inr (Or.inr rfl), hw⟩
    · rw [hk0]
      exact ⟨rfl, Or.inl rfl, Nat.zero_le _⟩
  rcases hmarker with ⟨hmlen, hmtext, hkw⟩
  refine ⟨⟨blanks, sign, i1.take k, ds⟩, ?_⟩
  constructor
  case split =>
    show input = (blanks ++ (sign ++ (i1.take k ++ ds))) ++ rest
    rw [hsplit, hsplit1, List.append_assoc, List.append_assoc, List.append_assoc, hds,
      ← hsplit2]
  case blanks => exact hblanks
  case sign => exact hsign
  case marker => exact hmtext
  case digits => exact ⟨hne, hdigits⟩
  case fits =>
    show sign.length + (i1.take k).length + ds.length ≤ width
    omega
  case longest =>
    rcases hlongest with hfull | hmiss
    · left
      show sign.length + (i1.take k).length + ds.length = width
      omega
    · exact Or.inr hmiss
  case unmarked =>
    intro hnone hw
    change i1.take k = [] at hnone
    change 2 ≤ width - sign.length at hw
    show ¬ StartsWithMarker (ds ++ rest)
    rw [hnone, List.length_nil] at hmlen
    rcases hmark with ⟨hk2, -⟩ | ⟨-, hno⟩
    · omega
    · rw [hds, ← hmlen, List.drop_zero]
      exact hno (by omega)

/-! ## Such a field is found -/

/-- White space ends where a sign, a prefix or a digit stands. -/
theorem Reads.dropWhile {width : ℕ} {input rest : List Wchar} {f : HexField}
    (h : Reads width input f rest) :
    input.dropWhile iswspace = f.sign ++ (f.marker ++ (f.digits ++ rest)) := by
  have hinput : input = f.blanks ++ (f.sign ++ (f.marker ++ (f.digits ++ rest))) := by
    rw [h.split]
    simp [HexField.text, List.append_assoc]
  rcases h.digits with ⟨hne, hdigits⟩
  have hstart : ∀ c tail, f.sign ++ (f.marker ++ (f.digits ++ rest)) = c :: tail →
      iswspace c = false := by
    intro c tail heq
    rcases h.sign with hs | hs | hs
    · rcases h.marker with hm | hm | hm
      · cases hd : f.digits with
        | nil => exact absurd hd hne
        | cons d ds =>
          have hdigit := iswxdigit_ne (hdigits d (by rw [hd]; exact List.mem_cons_self ..))
          rw [hs, hm, hd] at heq
          cases heq
          exact hdigit.1
      all_goals
        rw [hs, hm] at heq
        cases heq
        decide
    all_goals
      rw [hs] at heq
      cases heq
      decide
  rw [hinput, List.dropWhile_append_of_pos h.blanks]
  cases htext : f.sign ++ (f.marker ++ (f.digits ++ rest)) with
  | nil => rfl
  | cons c tail => rw [List.dropWhile_cons_of_neg (by simp [hstart c tail htext])]

theorem Reads.scanSign {width : ℕ} {input rest : List Wchar} {f : HexField}
    (h : Reads width input f rest) :
    (scanSign width (f.sign ++ (f.marker ++ (f.digits ++ rest)))).2 = f.sign.length := by
  rcases h.digits with ⟨hne, hdigits⟩
  have hfits := h.fits
  unfold HexField.used at hfits
  have hpos : 0 < f.digits.length := List.length_pos_iff.2 hne
  rcases h.sign with hs | hs | hs
  · rw [hs]
    rcases h.marker with hm | hm | hm
    · cases hd : f.digits with
      | nil => exact absurd hd hne
      | cons d ds =>
        rcases iswxdigit_ne (hdigits d (by rw [hd]; exact List.mem_cons_self ..))
          with ⟨-, hminus, hplus, -⟩
        rw [hm]
        simp [Rtl.scanSign, hminus, hplus]
    · rw [hm]
      simp [Rtl.scanSign]
    · rw [hm]
      simp [Rtl.scanSign]
  · have hw : 0 < width := by omega
    rw [hs]
    simp [Rtl.scanSign, hw]
  · have hw : 0 < width := by omega
    rw [hs]
    simp [Rtl.scanSign, hw]

theorem Reads.scanPrefix {width : ℕ} {input rest : List Wchar} {f : HexField}
    (h : Reads width input f rest) :
    scanPrefix (width - f.sign.length) (f.marker ++ (f.digits ++ rest)) = f.marker.length := by
  have hfits := h.fits
  unfold HexField.used at hfits
  rcases h.marker with hm | hm | hm
  · rcases scanPrefix_eq (width - f.sign.length) (f.digits ++ rest) with
      ⟨-, hw, hx⟩ | ⟨hzero, -⟩
    · -- the input would begin with a prefix
      exfalso
      apply h.unmarked hm hw
      have hsplit := (List.take_append_drop 2 (f.digits ++ rest)).symm
      rcases hx with hx | hx
      · exact ⟨0x78, _, by rw [hx] at hsplit; exact hsplit, Or.inl rfl⟩
      · exact ⟨0x58, _, by rw [hx] at hsplit; exact hsplit, Or.inr rfl⟩
    · rw [hm]
      exact hzero
  · rw [hm] at hfits ⊢
    rw [List.length_cons, List.length_cons, List.length_nil] at hfits
    have hw : 2 ≤ width - f.sign.length := by omega
    simp [Rtl.scanPrefix, hw]
  · rw [hm] at hfits ⊢
    rw [List.length_cons, List.length_cons, List.length_nil] at hfits
    have hw : 2 ≤ width - f.sign.length := by omega
    simp [Rtl.scanPrefix, hw]

/-- The digits of a field are the longest run within the width. -/
theorem takeWhile_take_eq {ds rest : List Wchar} {width : ℕ} (hds : ∀ c ∈ ds, iswxdigit c = true)
    (hle : ds.length ≤ width)
    (hlongest : ds.length = width ∨ ∀ c, rest.head? = some c → iswxdigit c = false) :
    ((ds ++ rest).take width).takeWhile iswxdigit = ds := by
  rw [List.take_append, List.take_of_length_le hle,
    List.takeWhile_append_of_pos hds]
  rcases hlongest with hfull | hmiss
  · rw [hfull, Nat.sub_self, List.take_zero, List.takeWhile_nil, List.append_nil]
  · cases rest with
    | nil => simp
    | cons c rest =>
      have hc : iswxdigit c = false := hmiss c rfl
      cases width - ds.length with
      | zero => simp
      | succ k =>
        rw [List.take_succ_cons, List.takeWhile_cons_of_neg (by simp [hc]), List.append_nil]

/-- A field of the input is what `scanHex` reads. -/
theorem reads_scanHex {width : ℕ} {input rest : List Wchar} {f : HexField}
    (h : Reads width input f rest) : ∃ v, scanHex width input = some (v, rest) ∧
      (f.sign = [] → v = value 16 (f.digits.map fun c => (charDigit c).toNat)) := by
  have hfits := h.fits
  have hlongest := h.longest
  unfold HexField.used at hfits hlongest
  have hds : ((f.digits ++ rest).take (width - f.sign.length - f.marker.length)).takeWhile
      iswxdigit = f.digits := by
    refine takeWhile_take_eq h.digits.2 (by omega) ?_
    rcases hlongest with hfull | hmiss
    · exact Or.inl (by omega)
    · exact Or.inr hmiss
  have hsign := h.scanSign
  unfold scanHex
  dsimp only
  rw [h.dropWhile]
  rw [hsign, List.drop_left, h.scanPrefix, List.drop_left, hds, if_neg h.digits.1, List.drop_left]
  refine ⟨_, rfl, fun hnone => ?_⟩
  have hplus : (Rtl.scanSign width (f.sign ++ (f.marker ++ (f.digits ++ rest)))).1 = false := by
    rw [hnone, List.length_nil] at hsign
    rw [hnone]
    revert hsign
    cases htext : [] ++ (f.marker ++ (f.digits ++ rest)) with
    | nil => exact fun _ => rfl
    | cons c tail =>
      unfold Rtl.scanSign
      dsimp only
      split
      · exact fun hone => absurd hone (by decide)
      · split
        · exact fun _ => rfl
        · exact fun _ => rfl
  rw [hplus]
  rfl

/-! ## Formats -/

/-- The input has a field for every conversion, and the characters in between. -/
inductive ReadsAll : List Conversion → List Wchar → Prop
  | done {input : List Wchar} : ReadsAll [] input
  | literal {c : Wchar} {format : List Conversion} {input : List Wchar} :
      ReadsAll format input → ReadsAll (.literal c :: format) (c :: input)
  | field {width bits : ℕ} {format : List Conversion} {input rest : List Wchar} {f : HexField} :
      Reads width input f rest → ReadsAll format rest → ReadsAll (.hex width bits :: format) input

/-- The same, with a field that is not in full. -/
inductive ReadsLoosely : List Conversion → List Wchar → Prop
  | literal {c : Wchar} {format : List Conversion} {input : List Wchar} :
      ReadsLoosely format input → ReadsLoosely (.literal c :: format) (c :: input)
  | here {width bits : ℕ} {format : List Conversion} {input rest : List Wchar} {f : HexField} :
      Reads width input f rest → ¬ f.Full width → ReadsAll format rest →
      ReadsLoosely (.hex width bits :: format) input
  | later {width bits : ℕ} {format : List Conversion} {input rest : List Wchar} {f : HexField} :
      Reads width input f rest → ReadsLoosely format rest →
      ReadsLoosely (.hex width bits :: format) input

/-- A text of a format, every number with exactly the digits of its width. -/
def FullText : List Conversion → List Wchar → Prop
  | [], text => text = []
  | .literal c :: format, text => ∃ rest, text = c :: rest ∧ FullText format rest
  | .hex width _ :: format, text => ∃ ds rest, text = ds ++ rest ∧ ds.length = width ∧
      (∀ c ∈ ds, iswxdigit c = true) ∧ FullText format rest

/-- The values of the digits of a text in full. -/
def fieldValues : List Conversion → List Wchar → List ℕ
  | [], _ => []
  | .literal _ :: format, text => fieldValues format (text.drop 1)
  | .hex width _ :: format, text =>
    value 16 ((text.take width).map fun c => (charDigit c).toNat) ::
      fieldValues format (text.drop width)

/-- The number of the fields of a format. -/
def fieldCount : List Conversion → ℕ
  | [] => 0
  | .literal _ :: format => fieldCount format
  | .hex _ _ :: format => fieldCount format + 1

/-- The last part of a format is a field. -/
def EndsInField : List Conversion → Prop
  | [] => True
  | .literal _ :: format => format ≠ [] ∧ EndsInField format
  | .hex _ _ :: format => EndsInField format

theorem fieldCount_pos {format : List Conversion} (h : EndsInField format) (hne : format ≠ []) :
    0 < fieldCount format := by
  induction format with
  | nil => exact absurd rfl hne
  | cons part format ih =>
    cases part with
    | literal c => exact ih h.2 h.1
    | hex w bits => exact Nat.succ_pos _

theorem ReadsLoosely.all {format : List Conversion} {input : List Wchar}
    (h : ReadsLoosely format input) : ReadsAll format input := by
  induction h with
  | literal _ ih => exact ReadsAll.literal ih
  | here hread _ hrest => exact ReadsAll.field hread hrest
  | later hread _ ih => exact ReadsAll.field hread ih

/-- `swscanf` assigns all the values when it finds all the fields. -/
theorem length_swscanf_iff {format : List Conversion} (h : EndsInField format)
    (input : List Wchar) :
    (swscanf format input).length = fieldCount format ↔ ReadsAll format input := by
  induction format generalizing input with
  | nil => exact iff_of_true rfl ReadsAll.done
  | cons part format ih =>
    cases part with
    | literal c =>
      have hpos : 0 < fieldCount format := fieldCount_pos h.2 h.1
      unfold swscanf fieldCount
      cases input with
      | nil =>
        refine iff_of_false (fun hlen => ?_) (fun hall => by cases hall)
        rw [List.length_nil] at hlen
        omega
      | cons c' input =>
        by_cases hc : c' = c
        · subst hc
          dsimp only
          rw [if_pos rfl, ih h.2]
          refine ⟨ReadsAll.literal, fun hall => ?_⟩
          cases hall with
          | literal hrest => exact hrest
        · dsimp only
          rw [if_neg hc]
          refine iff_of_false (fun hlen => ?_) (fun hall => ?_)
          · rw [List.length_nil] at hlen
            omega
          · cases hall with
            | literal _ => exact hc rfl
    | hex w bits =>
      unfold swscanf fieldCount
      cases hscan : scanHex w input with
      | none =>
        refine iff_of_false (fun hlen => by cases hlen) (fun hall => ?_)
        cases hall with
        | field hread _ =>
          rcases reads_scanHex hread with ⟨v, hv, -⟩
          rw [hscan] at hv
          cases hv
      | some result =>
        rcases result with ⟨v, rest⟩
        dsimp only
        rw [List.length_cons, Nat.add_right_cancel_iff, ih h]
        constructor
        · intro hrest
          rcases scanHex_reads hscan with ⟨f, hf⟩
          exact ReadsAll.field hf hrest
        · intro hall
          cases hall with
          | field hread hrest =>
            rcases reads_scanHex hread with ⟨v', hv, -⟩
            rw [hscan] at hv
            cases hv
            exact hrest

/-- A character behind the last field assigns nothing. -/
theorem swscanf_concat_literal (format : List Conversion) (c : Wchar) (input : List Wchar) :
    swscanf (format ++ [.literal c]) input = swscanf format input := by
  induction format generalizing input with
  | nil =>
    cases input with
    | nil => rfl
    | cons c' input =>
      show (if c' = c then [] else []) = []
      split <;> rfl
  | cons part format ih =>
    cases part with
    | literal c' =>
      cases input with
      | nil => rfl
      | cons d input =>
        show (if d = c' then swscanf (format ++ [.literal c]) input else []) =
          if d = c' then swscanf format input else []
        rw [ih]
    | hex w bits =>
      rw [List.cons_append]
      unfold swscanf
      cases scanHex w input with
      | none => rfl
      | some result =>
        dsimp only
        rw [ih]

/-! ## Texts in full -/

/-- A field of `width` digits is read in full. -/
theorem reads_full {width : ℕ} (hw : 0 < width) {ds : List Wchar} (hlen : ds.length = width)
    (hds : ∀ c ∈ ds, iswxdigit c = true) (rest : List Wchar) :
    Reads width (ds ++ rest) ⟨[], [], [], ds⟩ rest := by
  constructor
  case split => rfl
  case blanks => exact fun c hc => absurd hc List.not_mem_nil
  case sign => exact Or.inl rfl
  case marker => exact Or.inl rfl
  case digits =>
    refine ⟨fun hnil => ?_, hds⟩
    change ds = [] at hnil
    rw [hnil, List.length_nil] at hlen
    omega
  case fits =>
    show 0 + 0 + ds.length ≤ width
    omega
  case longest =>
    left
    show 0 + 0 + ds.length = width
    omega
  case unmarked =>
    rintro - hw2 ⟨x, tail, heq, hx⟩
    change 2 ≤ width - 0 at hw2
    change ds ++ rest = 0x30 :: x :: tail at heq
    -- the letter of a prefix would be a digit of the field
    rcases ds with - | ⟨d, - | ⟨d', ds⟩⟩
    · simp at hlen
      omega
    · simp at hlen
      omega
    · cases heq
      rcases iswxdigit_ne (hds x (by simp)) with ⟨-, -, -, hx1, hx2, -⟩
      rcases hx with hx | hx
      · exact hx1 hx
      · exact hx2 hx

/-- A field that is read where `width` digits stand is a full one. -/
theorem Reads.full {width : ℕ} {ds rest rest' : List Wchar} {f : HexField}
    (h : Reads width (ds ++ rest) f rest') (hlen : ds.length = width)
    (hds : ∀ c ∈ ds, iswxdigit c = true) : f.Full width ∧ rest' = rest := by
  have hw : 0 < width := by
    have hpos : 0 < f.digits.length := List.length_pos_iff.2 h.digits.1
    have hfits := h.fits
    unfold HexField.used at hfits
    omega
  rcases reads_scanHex h with ⟨v, hv, -⟩
  rcases reads_scanHex (reads_full hw hlen hds rest) with ⟨v', hv', -⟩
  rw [hv] at hv'
  cases hv'
  refine ⟨?_, rfl⟩
  -- the same rest, so the field takes the digits and nothing else
  have htext : f.text = ds := List.append_cancel_right h.split.symm
  have hused := h.fits
  unfold HexField.used at hused
  unfold HexField.text at htext
  have hblanks : f.blanks = [] := by
    cases hb : f.blanks with
    | nil => rfl
    | cons c blanks =>
      have hspace := h.blanks c (by rw [hb]; exact List.mem_cons_self ..)
      have hdigit := iswxdigit_ne (hds c (by rw [← htext, hb]; simp))
      rw [hdigit.1] at hspace
      cases hspace
  have hsign : f.sign = [] := by
    rcases h.sign with hs | hs | hs
    · exact hs
    · exact absurd rfl (iswxdigit_ne (hds 0x2B (by rw [← htext, hs]; simp))).2.2.1
    · exact absurd rfl (iswxdigit_ne (hds 0x2D (by rw [← htext, hs]; simp))).2.1
  have hmarker : f.marker = [] := by
    rcases h.marker with hm | hm | hm
    · exact hm
    · exact absurd rfl (iswxdigit_ne (hds 0x78 (by rw [← htext, hm]; simp))).2.2.2.1
    · exact absurd rfl (iswxdigit_ne (hds 0x58 (by rw [← htext, hm]; simp))).2.2.2.2.1
  refine ⟨hblanks, hsign, hmarker, ?_⟩
  rw [hblanks, hsign, hmarker] at htext
  rw [← hlen, ← htext]
  rfl

/-- The format has no field of width 0, and what fits into a field fits into its argument. -/
def WideEnough : List Conversion → Prop
  | [] => True
  | .literal _ :: format => WideEnough format
  | .hex width bits :: format => 0 < width ∧ 16 ^ width ≤ 2 ^ bits ∧ WideEnough format

theorem value_lt_of_digits {ds : List Wchar} (hds : ∀ c ∈ ds, iswxdigit c = true) :
    value 16 (ds.map fun c => (charDigit c).toNat) < 16 ^ ds.length := by
  have hlt := Nat.ofDigits_lt_base_pow_length' (b := 14)
    (l := (ds.map fun c => (charDigit c).toNat).reverse) (by
      intro d hd
      rcases List.mem_map.1 (List.mem_reverse.1 hd) with ⟨c, hc, rfl⟩
      have hdigit := hds c hc
      unfold iswxdigit at hdigit
      rw [decide_eq_true_iff, UInt32.lt_iff_toNat_lt] at hdigit
      exact hdigit)
  rw [← value_reverse, List.reverse_reverse] at hlt
  simpa using hlt

/-- `swscanf` gives the values of the digits of a text in full. -/
theorem swscanf_full {format : List Conversion} (hwide : WideEnough format) {text : List Wchar}
    (h : FullText format text) (rest : List Wchar) :
    swscanf format (text ++ rest) = fieldValues format text := by
  induction format generalizing text with
  | nil => rfl
  | cons part format ih =>
    cases part with
    | literal c =>
      rcases h with ⟨tail, rfl, htail⟩
      show (if c = c then swscanf format (tail ++ rest) else []) = fieldValues format tail
      rw [if_pos rfl, ih hwide htail]
    | hex w bits =>
      rcases h with ⟨ds, tail, rfl, hlen, hds, htail⟩
      rcases hwide with ⟨hw, hbits, hwide⟩
      rcases reads_scanHex (reads_full hw hlen hds (tail ++ rest)) with ⟨v, hscan, hv⟩
      have hvalue := value_lt_of_digits hds
      rw [hlen] at hvalue
      unfold swscanf fieldValues
      rw [List.append_assoc, hscan]
      dsimp only
      rw [ih hwide htail, hv rfl, ← hlen, List.take_left, List.drop_left]
      have hkept : ((value 16 (ds.map fun c => (charDigit c).toNat) : ℕ) : ℤ) % 2 ^ bits =
          value 16 (ds.map fun c => (charDigit c).toNat) := by
        refine Int.emod_eq_of_lt (Int.natCast_nonneg _) ?_
        exact_mod_cast hvalue.trans_le hbits
      rw [hkept, Int.toNat_natCast]

/-- Without a loose field all fields are in full. -/
theorem ReadsAll.full {format : List Conversion} {input : List Wchar} (h : ReadsAll format input)
    (hstrict : ¬ ReadsLoosely format input) :
    ∃ text rest, input = text ++ rest ∧ FullText format text := by
  induction h with
  | @done input => exact ⟨[], input, rfl, rfl⟩
  | @literal c format input _ ih =>
    rcases ih fun hl => hstrict (ReadsLoosely.literal hl) with ⟨text, rest, rfl, htext⟩
    exact ⟨c :: text, rest, rfl, text, rfl, htext⟩
  | @field width bits format input rest f hread hall ih =>
    have hfull : f.Full width := by
      by_contra hloose
      exact hstrict (ReadsLoosely.here hread hloose hall)
    rcases ih fun hl => hstrict (ReadsLoosely.later hread hl) with ⟨text, rest', rfl, htext⟩
    rcases hfull with ⟨hblanks, hsign, hmarker, hlen⟩
    refine ⟨f.digits ++ text, rest', ?_, f.digits, text, rfl, hlen, hread.digits.2, htext⟩
    rw [hread.split]
    unfold HexField.text
    rw [hblanks, hsign, hmarker]
    simp

/-- A text in full has no loose field. -/
theorem FullText.not_loose {format : List Conversion} {text rest : List Wchar}
    (h : FullText format text) : ¬ ReadsLoosely format (text ++ rest) := by
  induction format generalizing text with
  | nil =>
    intro hl
    cases hl
  | cons part format ih =>
    cases part with
    | literal c =>
      rcases h with ⟨tail, rfl, htail⟩
      intro hl
      cases hl with
      | literal hl => exact ih htail hl
    | hex w bits =>
      rcases h with ⟨ds, tail, rfl, hlen, hds, htail⟩
      intro hl
      rw [List.append_assoc] at hl
      cases hl with
      | here hread hloose _ => exact hloose (hread.full hlen hds).1
      | later hread hl =>
        rw [(hread.full hlen hds).2] at hl
        exact ih htail hl

theorem FullText.length {format : List Conversion} {text : List Wchar} (h : FullText format text) :
    text.length = formatLength format := by
  induction format generalizing text with
  | nil =>
    rw [show text = [] from h]
    rfl
  | cons part format ih =>
    cases part with
    | literal c =>
      rcases h with ⟨tail, rfl, htail⟩
      rw [List.length_cons, ih htail]
      rfl
    | hex w bits =>
      rcases h with ⟨ds, tail, rfl, hlen, -, htail⟩
      rw [List.length_append, hlen, ih htail]
      rfl

theorem FullText.zero_notMem {format : List Conversion} (hformat : NoNul format)
    {text : List Wchar} (h : FullText format text) : 0 ∉ text := by
  induction format generalizing text with
  | nil =>
    rw [show text = [] from h]
    exact List.not_mem_nil
  | cons part format ih =>
    cases part with
    | literal c =>
      rcases h with ⟨tail, rfl, htail⟩
      intro hmem
      rcases List.mem_cons.1 hmem with hc | hmem
      · exact hformat.1 hc.symm
      · exact ih hformat.2 htail hmem
    | hex w bits =>
      rcases h with ⟨ds, tail, rfl, hlen, hds, htail⟩
      intro hmem
      rcases List.mem_append.1 hmem with hmem | hmem
      · exact (iswxdigit_ne (hds 0 hmem)).2.2.2.2.2 rfl
      · exact ih hformat htail hmem

theorem fullText_concat_literal {format : List Conversion} {c : Wchar} {text : List Wchar} :
    FullText (format ++ [.literal c]) text ↔ ∃ init, text = init ++ [c] ∧ FullText format init := by
  induction format generalizing text with
  | nil =>
    constructor
    · rintro ⟨rest, rfl, hrest⟩
      rw [show rest = [] from hrest]
      exact ⟨[], rfl, rfl⟩
    · rintro ⟨init, rfl, hinit⟩
      rw [show init = [] from hinit]
      exact ⟨[], rfl, rfl⟩
  | cons part format ih =>
    cases part with
    | literal c' =>
      constructor
      · rintro ⟨rest, rfl, hrest⟩
        rcases ih.1 hrest with ⟨init, rfl, hinit⟩
        exact ⟨c' :: init, rfl, init, rfl, hinit⟩
      · rintro ⟨init, rfl, rest, rfl, hrest⟩
        exact ⟨rest ++ [c], rfl, ih.2 ⟨rest, rfl, hrest⟩⟩
    | hex w bits =>
      constructor
      · rintro ⟨ds, rest, rfl, hlen, hds, hrest⟩
        rcases ih.1 hrest with ⟨init, rfl, hinit⟩
        exact ⟨ds ++ init, by rw [List.append_assoc], ds, init, rfl, hlen, hds, hinit⟩
      · rintro ⟨init, rfl, ds, rest, rfl, hlen, hds, hrest⟩
        exact ⟨ds, rest ++ [c], by rw [List.append_assoc], hlen, hds, ih.2 ⟨rest, rfl, hrest⟩⟩

/-- The values of a text in full fit into their arguments. -/
theorem FullText.fits {format : List Conversion} (hwide : WideEnough format) {text : List Wchar}
    (h : FullText format text) : Fits format format (fieldValues format text) := by
  induction format generalizing text with
  | nil => exact trivial
  | cons part format ih =>
    cases part with
    | literal c =>
      rcases h with ⟨tail, rfl, htail⟩
      exact ⟨rfl, ih hwide htail⟩
    | hex w bits =>
      rcases h with ⟨ds, tail, rfl, hlen, hds, htail⟩
      rcases hwide with ⟨hw, hbits, hwide⟩
      have hvalue := value_lt_of_digits hds
      unfold fieldValues
      rw [← hlen, List.take_left, List.drop_left]
      rw [hlen] at hvalue ⊢
      exact ⟨rfl, hw, hvalue, hvalue.trans_le hbits, hvalue.trans_le hbits, ih hwide htail⟩

/-! ## GUIDs -/

/-- The format of a GUID up to its closing brace. -/
def guidFields : List Conversion := (guidFormat 16).dropLast

/-- The grammar of a GUID: 38 characters, every number in full. -/
def GuidForm (s : UnicodeBuffer) : Prop :=
  s.length.toNat = 38 * 2 ∧ FullText (guidFormat 16) (s.buffer.take 38)

/-- The routine accepts a string exactly if it is a GUID, with the values of its digits. -/
structure GuidExact (s : UnicodeBuffer) (guid : Guid) : Prop where
  accepts : (rtlGUIDFromString s guid).1 = .success ↔ GuidForm s
  values : (rtlGUIDFromString s guid).1 = .success →
    (rtlGUIDFromString s guid).2.fields = fieldValues (guidFormat 16) (s.buffer.take 38)
  rejects : (rtlGUIDFromString s guid).1 ≠ .success →
    (rtlGUIDFromString s guid).1 = .invalidParameter

/-- A string of 38 characters in braces that has eleven fields of `swscanf` between its
dashes, one of them with white space, a sign, a prefix or too few digits. -/
def LooseGuid (s : UnicodeBuffer) : Prop :=
  s.length.toNat = 38 * 2 ∧ s.buffer[0]? = some 0x7B ∧ s.buffer[37]? = some 0x7D ∧
    ReadsLoosely guidFields (s.buffer.takeWhile (· ≠ 0))

theorem guidFormat_eq : guidFormat 16 = guidFields ++ [.literal 0x7D] := rfl

theorem guidFields_endsInField : EndsInField guidFields := by
  simp [guidFields, guidFormat, EndsInField]

/-- What the routine accepts. -/
theorem rtlGUIDFromString_success_iff (s : UnicodeBuffer) (guid : Guid) :
    (rtlGUIDFromString s guid).1 = .success ↔
      s.length.toNat = 38 * 2 ∧ s.buffer[0]? = some 0x7B ∧ s.buffer[37]? = some 0x7D ∧
        ReadsAll guidFields (s.buffer.takeWhile (· ≠ 0)) := by
  rw [← length_swscanf_iff guidFields_endsInField, ← swscanf_concat_literal _ 0x7D, ← guidFormat_eq,
    show fieldCount guidFields = 11 from rfl]
  unfold rtlGUIDFromString
  by_cases hlength : s.length.toNat = 38 * 2
  · rw [if_neg (by simp [hlength])]
    by_cases hbraces : s.buffer[0]? ≠ some 0x7B ∨ s.buffer[37]? ≠ some 0x7D
    · rw [if_pos hbraces]
      refine iff_of_false (by simp) ?_
      rintro ⟨-, hfirst, hlast, -⟩
      rcases hbraces with h | h
      · exact h hfirst
      · exact h hlast
    · rw [if_neg hbraces]
      rw [not_or, not_not, not_not] at hbraces
      dsimp only
      split
      · rename_i hcount
        exact iff_of_false (by simp) fun h => hcount h.2.2.2
      · rename_i hcount
        rw [not_not] at hcount
        exact iff_of_true rfl ⟨hlength, hbraces.1, hbraces.2, hcount⟩
  · rw [if_pos hlength]
    exact iff_of_false (by simp) fun h => hlength h.1

/-- A rejection is an invalid parameter. -/
theorem rtlGUIDFromString_rejects (s : UnicodeBuffer) (guid : Guid)
    (h : (rtlGUIDFromString s guid).1 ≠ .success) :
    (rtlGUIDFromString s guid).1 = .invalidParameter := by
  revert h
  unfold rtlGUIDFromString
  split
  · exact fun _ => rfl
  split
  · exact fun _ => rfl
  dsimp only
  split
  · exact fun _ => rfl
  · exact fun h => absurd rfl h

/-- The memory of a GUID in full: its text is what `swscanf` sees first. -/
theorem GuidForm.memory {s : UnicodeBuffer} (h : GuidForm s) :
    ∃ init rest, FullText guidFields init ∧ s.buffer.take 38 = init ++ [0x7D] ∧
      s.buffer[0]? = some 0x7B ∧ s.buffer[37]? = some 0x7D ∧
      s.buffer.takeWhile (· ≠ 0) = s.buffer.take 38 ++ rest := by
  rcases h with ⟨-, hfull⟩
  have hnul : 0 ∉ s.buffer.take 38 := by
    apply FullText.zero_notMem _ hfull
    simp only [guidFormat, NoNul]
    decide
  rw [guidFormat_eq, fullText_concat_literal] at hfull
  rcases hfull with ⟨init, htake, hinit⟩
  have hlen : init.length = 37 := hinit.length
  have hbuffer : s.buffer = init ++ [0x7D] ++ s.buffer.drop 38 := by
    rw [← htake, List.take_append_drop]
  refine ⟨init, (s.buffer.drop 38).takeWhile (· ≠ 0), hinit, htake, ?_, ?_, ?_⟩
  · rcases hinit with ⟨tail, rfl, -⟩
    rw [hbuffer]
    rfl
  · rw [hbuffer, List.append_assoc, List.getElem?_append_right (by omega), hlen]
    rfl
  · nth_rewrite 1 [← List.take_append_drop 38 s.buffer]
    apply List.takeWhile_append_of_pos
    intro c hc
    have hne : c ≠ 0 := fun hzero => hnul (hzero ▸ hc)
    simpa using hne

/-- The numbers of a text in full are those of a GUID. -/
theorem guid_of_fits {a b c d0 d1 d2 d3 d4 d5 d6 d7 : ℕ}
    (h : Fits (guidFormat 8) (guidFormat 8) [a, b, c, d0, d1, d2, d3, d4, d5, d6, d7]) :
    ∃ g : Guid, g.fields = [a, b, c, d0, d1, d2, d3, d4, d5, d6, d7] := by
  simp only [guidFormat, Fits, true_and, and_true, and_self_iff] at h
  have hlt : a < 2 ^ 32 ∧ b < 2 ^ 16 ∧ c < 2 ^ 16 ∧ d0 < 2 ^ 8 ∧ d1 < 2 ^ 8 ∧ d2 < 2 ^ 8 ∧
      d3 < 2 ^ 8 ∧ d4 < 2 ^ 8 ∧ d5 < 2 ^ 8 ∧ d6 < 2 ^ 8 ∧ d7 < 2 ^ 8 := by omega
  rcases hlt with ⟨ha, hb, hc, h0, h1, h2, h3, h4, h5, h6, h7⟩
  refine ⟨⟨UInt32.ofNat a, UInt16.ofNat b, UInt16.ofNat c,
    ![UInt8.ofNat d0, UInt8.ofNat d1, UInt8.ofNat d2, UInt8.ofNat d3, UInt8.ofNat d4,
      UInt8.ofNat d5, UInt8.ofNat d6, UInt8.ofNat d7]⟩, ?_⟩
  have hbyte : ∀ {d : ℕ}, d < 2 ^ 8 → (UInt8.ofNat d).toNat = d := by
    intro d hd
    rw [UInt8.toNat_ofNat', Nat.mod_eq_of_lt hd]
  show [(UInt32.ofNat a).toNat, (UInt16.ofNat b).toNat, (UInt16.ofNat c).toNat,
    (UInt8.ofNat d0).toNat, (UInt8.ofNat d1).toNat, (UInt8.ofNat d2).toNat, (UInt8.ofNat d3).toNat,
    (UInt8.ofNat d4).toNat, (UInt8.ofNat d5).toNat, (UInt8.ofNat d6).toNat,
    (UInt8.ofNat d7).toNat] = _
  rw [UInt32.toNat_ofNat', Nat.mod_eq_of_lt ha, UInt16.toNat_ofNat', Nat.mod_eq_of_lt hb,
    UInt16.toNat_ofNat', Nat.mod_eq_of_lt hc, hbyte h0, hbyte h1, hbyte h2, hbyte h3, hbyte h4,
    hbyte h5, hbyte h6, hbyte h7]

theorem guidFormat_wideEnough : WideEnough (guidFormat 8) ∧ WideEnough (guidFormat 16) := by
  simp [guidFormat, WideEnough]

/-- A GUID in full is accepted, with the values of its digits. -/
theorem GuidForm.accepted {s : UnicodeBuffer} (h : GuidForm s) (guid : Guid) :
    (rtlGUIDFromString s guid).1 = .success ∧
      (rtlGUIDFromString s guid).2.fields = fieldValues (guidFormat 16) (s.buffer.take 38) := by
  rcases h.memory with ⟨-, rest, -, -, hfirst, hlast, hscan⟩
  have hfits : Fits (guidFormat 8) (guidFormat 8)
      (fieldValues (guidFormat 8) (s.buffer.take 38)) :=
    FullText.fits guidFormat_wideEnough.1 h.2
  rcases guid_of_fits hfits with ⟨g, hg⟩
  have hvalues : swscanf (guidFormat 16) (s.buffer.takeWhile (· ≠ 0)) = g.fields := by
    rw [hscan, swscanf_full guidFormat_wideEnough.2 h.2]
    exact hg.symm
  rw [rtlGUIDFromString_fields guid h.1 hfirst hlast hvalues]
  exact ⟨rfl, hg⟩

/-- **The grammar of a GUID.** `RtlGUIDFromString` accepts exactly the GUIDs and gives the
values of their digits, except for the strings with a field of another form. -/
theorem guid_exact_iff (s : UnicodeBuffer) (guid : Guid) : GuidExact s guid ↔ ¬ LooseGuid s := by
  constructor
  · rintro hexact ⟨hlength, hfirst, hlast, hloose⟩
    have hsuccess := (rtlGUIDFromString_success_iff s guid).2 ⟨hlength, hfirst, hlast, hloose.all⟩
    rcases (hexact.accepts.1 hsuccess).memory with ⟨init, rest, hinit, htake, -, -, hscan⟩
    rw [hscan, htake, List.append_assoc] at hloose
    exact hinit.not_loose hloose
  · intro hstrict
    have hform : (rtlGUIDFromString s guid).1 = .success → GuidForm s := by
      intro hsuccess
      rcases (rtlGUIDFromString_success_iff s guid).1 hsuccess with
        ⟨hlength, hfirst, hlast, hall⟩
      rcases hall.full fun hloose => hstrict ⟨hlength, hfirst, hlast, hloose⟩ with
        ⟨text, rest, hscan, htext⟩
      have hlen : text.length = 37 := htext.length
      refine ⟨hlength, ?_⟩
      rw [guidFormat_eq, fullText_concat_literal]
      refine ⟨text, ?_, htext⟩
      -- the text is the first 37 characters, and the brace follows
      have htake : s.buffer.take 37 = text := by
        have hpre : text <+: s.buffer := by
          have := List.takeWhile_prefix (l := s.buffer) (· ≠ (0 : Wchar))
          rw [hscan] at this
          exact (List.prefix_append text rest).trans this
        rw [← hlen]
        exact (List.prefix_iff_eq_take.1 hpre).symm
      rw [List.take_add_one, htake, hlast]
      rfl
    constructor
    case accepts => exact ⟨hform, fun h => (h.accepted guid).1⟩
    case values => exact fun hsuccess => ((hform hsuccess).accepted guid).2
    case rejects => exact rtlGUIDFromString_rejects s guid

/-- `{ 2345678-1234-1234-1234-123456789012}`, with a blank for the first digit. -/
def blankGuid : UnicodeBuffer :=
  ⟨[0x7B, 0x20, 0x32, 0x33, 0x34, 0x35, 0x36, 0x37, 0x38, 0x2D, 0x31, 0x32, 0x33, 0x34, 0x2D,
    0x31, 0x32, 0x33, 0x34, 0x2D, 0x31, 0x32, 0x33, 0x34, 0x2D, 0x31, 0x32, 0x33, 0x34, 0x35,
    0x36, 0x37, 0x38, 0x39, 0x30, 0x31, 0x32, 0x7D, 0], 76, 78, by decide⟩

/-- The blank is skipped, and the seven digits behind it are taken for the first field. -/
theorem blankGuid_accepted : ¬ GuidExact blankGuid ⟨0, 0, 0, fun _ => 0⟩ := by
  intro hexact
  have hsuccess : (rtlGUIDFromString blankGuid ⟨0, 0, 0, fun _ => 0⟩).1 = .success := by decide
  rcases hexact.accepts.1 hsuccess with ⟨-, rest, hrest, ds, tail, hds, hlen, hdigits, -⟩
  cases ds with
  | nil => cases hlen
  | cons d ds =>
    rw [hds] at hrest
    have hd : d = 0x20 := by
      injection hrest with _ hrest
      injection hrest with hd
      exact hd.symm
    have hdigit := hdigits d (List.mem_cons_self ..)
    rw [hd] at hdigit
    exact absurd hdigit (by decide)

end Wdutf.Rtl
