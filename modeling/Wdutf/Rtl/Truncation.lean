import Mathlib.Algebra.Group.Nat.Defs
import Mathlib.Data.List.Basic
import Mathlib.Tactic.Common
import Wdutf.Rtl.Utf

/-!
# Wdutf.Rtl.Truncation — where the conversions cut a text, `src/unicode.cpp`

The sizes of a destination at which `RtlUnicodeToUTF8N` and `RtlUTF8ToUnicodeN` do not
end with the last whole character that fits, for the lengths of UTF-16 and UTF-8.

* `splitting_utf8` — three of the four bytes of a character are filled with U+FFFD;
* `splitting_utf16` — so is the place of a high surrogate; and the loop, which starts two
  bytes before the end, loses a character before a last one of one byte;
* `systemApi` — a conversion that behaves as documented;
* `utf_truncation_iff` — when the routines keep whole characters and report what they
  wrote.
-/

namespace Wdutf.Rtl

open Coding

variable {α β : Type} {enc : Char → List α} {out : Char → List β}

/-! ## The sizes that split a character -/

/-- A destination of bytes ends in the last one of a character of four bytes, where U+FFFD
has room. -/
def SplitsUtf8 (cs : List Char) (size : ℕ) : Prop :=
  ∃ pre c rest, cs = pre ++ c :: rest ∧ 0x10000 ≤ c.toNat ∧
    size = (pre.flatMap utf8EncodeChar).length + 3

/-- A destination of UTF-16 ends between two surrogates, where U+FFFD has room; or before
a last character of one byte, which the loop has passed over when it starts. -/
def SplitsUtf16 (cs : List Char) (size : ℕ) : Prop :=
  (∃ pre c rest, cs = pre ++ c :: rest ∧ 0x10000 ≤ c.toNat ∧
    size = (pre.flatMap utf16EncodeChar).length + 1) ∨
  (∃ pre a z, cs = pre ++ [a, z] ∧ z.toNat < 0x80 ∧ a ≠ replacementCharacter ∧
    size = ((pre ++ [a]).flatMap utf16EncodeChar).length)

theorem length_text_cons {f : Char → List α} (pre rest : List Char) (c : Char) :
    ((pre ++ c :: rest).flatMap f).length =
      (pre.flatMap f).length + (f c).length + (rest.flatMap f).length := by
  rw [List.flatMap_append, List.flatMap_cons, List.length_append, List.length_append]
  omega

theorem splitting_utf8 {api : Api Wchar UInt8}
    (h : Documented utf16EncodeChar utf8EncodeChar api) :
    Splitting utf16EncodeChar utf8EncodeChar api 1 SplitsUtf8 where
  tooSmall := by
    rintro _ size ⟨pre, c, rest, rfl, hsupp, rfl⟩
    rw [length_text_cons, length_utf8_supplementary hsupp]
    omega
  missed := by
    intro cs size t hpos hlong hstop
    have hrep : (utf8EncodeChar replacementCharacter).length = 3 := by decide
    constructor
    · rintro ⟨pre, hlongest, heq⟩ ⟨pre', c, rest, rfl, hsupp, hsize⟩
      have hfour := length_utf8_supplementary hsupp
      have htwo := length_utf16_supplementary hsupp
      have hcut : Longest utf8EncodeChar (pre' ++ c :: rest) size pre' :=
        longest_of_cut (by omega) (by omega)
      rw [hlongest.unique hcut] at heq
      rw [length_text_cons] at hstop
      rw [retried_eq_iff h (by omega) (by omega) hstop (by omega) (by omega)] at heq
      exact heq ⟨by omega, by omega, by omega⟩
    · intro hsplit
      rcases exists_cut hlong with ⟨pre, c, rest, rfl, hle, hlt⟩
      refine ⟨pre, longest_of_cut hle hlt, ?_⟩
      have hone := List.length_pos_of_ne_nil (utf16EncodeChar_ne_nil c)
      rw [length_text_cons] at hstop
      rw [retried_eq_iff h hle hlt hstop (by omega) (by omega)]
      rintro ⟨hfit, -, -⟩
      -- only a character of four bytes leaves room for U+FFFD
      have hsupp : 0x10000 ≤ c.toNat := by
        by_contra hbasic
        have hthree := length_utf8_le_three (Nat.lt_of_not_le hbasic)
        omega
      have hfour := length_utf8_supplementary hsupp
      exact hsplit ⟨pre, c, rest, rfl, hsupp, by omega⟩

section Utf16

variable {api : Api UInt8 Wchar} (h : Documented utf8EncodeChar utf16EncodeChar api)
  {pre : List Char} {a z : Char} {size t : ℕ}

/-- A character that is converted to replacements is the replacement character. -/
theorem eq_replacementCharacter {r : ℕ} (hr : 1 ≤ r)
    (heq : (List.replicate r replacementCharacter).flatMap utf16EncodeChar = utf16EncodeChar a) :
    a = replacementCharacter := by
  match r with
  | 0 => omega
  | r + 1 =>
    rw [List.replicate_succ, List.flatMap_cons] at heq
    have hread := utf16Next_append replacementCharacter
      ((List.replicate r replacementCharacter).flatMap utf16EncodeChar)
    have hself := utf16Next_append a []
    rw [List.append_nil] at hself
    rw [heq, hself, Option.some.injEq] at hread
    exact hread

theorem length_utf16_replacementCharacter :
    (utf16EncodeChar replacementCharacter).length = 1 := by
  decide

theorem length_utf16_pos (c : Char) : 0 < (utf16EncodeChar c).length :=
  List.length_pos_of_ne_nil (utf16EncodeChar_ne_nil c)

include h

/-- The loop that starts inside the last character that fits ends there or at its
beginning; so the character is lost, unless it is the replacement character itself. -/
theorem passedOver_iff (hz : z.toNat < 0x80)
    (hsize : size = ((pre ++ [a]).flatMap utf16EncodeChar).length)
    (hstop : StopsAt api ((pre ++ [a, z]).flatMap utf8EncodeChar) size
      (((pre ++ [a, z]).flatMap utf8EncodeChar).length - 2) t) :
    api.lossy (((pre ++ [a, z]).flatMap utf8EncodeChar).take t) =
      (pre ++ [a]).flatMap utf16EncodeChar ↔ a = replacementCharacter := by
  have hone := length_utf8_eq_one_iff.2 hz
  have hapos := List.length_pos_of_ne_nil (utf8EncodeChar_ne_nil a)
  have hbetween := @lossy_between _ _ _ _ _ h pre [z] a
  have hle := hstop.le_start
  have hfits := hstop.fits
  rw [length_flatMap_concat] at hsize
  rw [length_text_cons, List.flatMap_singleton, hone] at hle hstop
  -- the characters before it fit
  have hge : (pre.flatMap utf8EncodeChar).length ≤ t := by
    by_contra hlt
    have hbeyond := hstop.beyond _ (Nat.lt_of_not_le hlt) (by omega)
    rw [hbetween] at hbeyond
    omega
  have hout : (pre ++ [a]).flatMap utf16EncodeChar =
      pre.flatMap utf16EncodeChar ++ utf16EncodeChar a := by
    rw [List.flatMap_append, List.flatMap_singleton]
  rw [hout]
  rcases Nat.eq_or_lt_of_le hge with hat | hlater
  · rw [← hat, hbetween]
    constructor
    · intro heq
      have hlen := congrArg List.length heq
      have hpos := length_utf16_pos a
      rw [List.length_append] at hlen
      omega
    · -- the replacement of the replacement character fits
      rintro rfl
      exfalso
      have hthree : (utf8EncodeChar replacementCharacter).length = 3 := by decide
      have hrep := length_utf16_replacementCharacter
      rcases @lossy_inside _ _ _ _ _ h pre [z] replacementCharacter
        ((pre.flatMap utf8EncodeChar).length + 1) (by omega) (by omega) with ⟨r, hr, hr', hlossy⟩
      have hbeyond := hstop.beyond ((pre.flatMap utf8EncodeChar).length + 1) (by omega) (by omega)
      have hr1 : r = 1 := by omega
      rw [hlossy, List.length_append, length_replacements, hr1, hrep] at hbeyond
      omega
  · rcases @lossy_inside _ _ _ _ _ h pre [z] a t hlater (by omega) with ⟨r, hr, -, hlossy⟩
    rw [hlossy, List.append_cancel_left_eq]
    constructor
    · exact eq_replacementCharacter hr
    · rintro rfl
      have hrep := length_utf16_replacementCharacter
      rw [hlossy, List.length_append, length_replacements, hrep] at hfits
      have hr1 : r = 1 := by omega
      rw [hr1, List.replicate_one, List.flatMap_singleton]

omit h in
/-- What comes behind a prefix in less than two bytes. -/
theorem last_oneByte {pre rest : List Char} {c : Char}
    (h : ((pre ++ c :: rest).flatMap utf8EncodeChar).length <
      (pre.flatMap utf8EncodeChar).length + 2) : rest = [] ∧ c.toNat < 0x80 := by
  have hcpos := List.length_pos_of_ne_nil (utf8EncodeChar_ne_nil c)
  rw [length_text_cons] at h
  have hrest : rest = [] := by
    cases rest with
    | nil => rfl
    | cons d rest =>
      have hdpos := List.length_pos_of_ne_nil (utf8EncodeChar_ne_nil d)
      rw [List.flatMap_cons, List.length_append] at h
      omega
  subst hrest
  exact ⟨rfl, length_utf8_eq_one_iff.1 (by omega)⟩

theorem splitting_utf16 : Splitting utf8EncodeChar utf16EncodeChar api 2 SplitsUtf16 where
  tooSmall := by
    rintro _ size (⟨pre, c, rest, rfl, hsupp, rfl⟩ | ⟨pre, a, z, rfl, -, -, rfl⟩)
    · rw [length_text_cons, length_utf16_supplementary hsupp]
      omega
    · have hpos := length_utf16_pos a
      have hpos' := length_utf16_pos z
      rw [length_flatMap_concat, length_text_cons, List.flatMap_singleton]
      omega
  missed := by
    intro cs size t hpos hlong hstop
    have hrep := length_utf16_replacementCharacter
    constructor
    · rintro ⟨pre, hlongest, heq⟩ (⟨pre', c, rest, rfl, hsupp, hsize⟩ |
        ⟨pre', a, z, rfl, hz, ha, hsize⟩)
      · -- between two surrogates
        have htwo := length_utf16_supplementary hsupp
        have hfour := length_utf8_supplementary hsupp
        have hcut : Longest utf16EncodeChar (pre' ++ c :: rest) size pre' :=
          longest_of_cut (by omega) (by omega)
        rw [hlongest.unique hcut] at heq
        rw [length_text_cons] at hstop
        rw [retried_eq_iff h (by omega) (by omega) hstop (by omega) (by omega)] at heq
        exact heq ⟨by omega, by omega, by omega⟩
      · -- before the last character
        have hzpos := length_utf16_pos z
        have hcut : Longest utf16EncodeChar ((pre' ++ [a]) ++ z :: []) size (pre' ++ [a]) :=
          longest_of_cut (by omega) (by omega)
        rw [List.append_assoc] at hcut
        rw [hlongest.unique hcut] at heq
        exact ha ((passedOver_iff h hz hsize hstop).1 heq)
    · intro hsplit
      rcases exists_cut hlong with ⟨pre, c, rest, rfl, hle, hlt⟩
      refine ⟨pre, longest_of_cut hle hlt, ?_⟩
      have hcpos := List.length_pos_of_ne_nil (utf8EncodeChar_ne_nil c)
      by_cases hstart : (pre.flatMap utf8EncodeChar).length ≤
          ((pre ++ c :: rest).flatMap utf8EncodeChar).length - 2
      · rw [retried_eq_iff h hle hlt hstop (by omega) hstart]
        rintro ⟨hfit, -, -⟩
        have hsupp : 0x10000 ≤ c.toNat := by
          by_contra hbasic
          have hone := length_utf16_basic (Nat.lt_of_not_le hbasic)
          omega
        have htwo := length_utf16_supplementary hsupp
        exact hsplit (Or.inl ⟨pre, c, rest, rfl, hsupp, by omega⟩)
      · -- a last character of one byte behind the prefix
        have hshort : ((pre ++ c :: rest).flatMap utf8EncodeChar).length <
            (pre.flatMap utf8EncodeChar).length + 2 := by omega
        rcases last_oneByte hshort with ⟨rfl, hz⟩
        have hone : (utf16EncodeChar c).length = 1 := length_utf16_basic (by omega)
        rcases List.eq_nil_or_concat pre with rfl | ⟨pre, a, rfl⟩
        · rw [List.flatMap_nil, List.length_nil] at hlt
          omega
        · rw [List.concat_eq_append] at hle hlt hstop hsplit ⊢
          rw [List.append_assoc] at hstop hsplit ⊢
          have hsize : size = ((pre ++ [a]).flatMap utf16EncodeChar).length := by omega
          rw [show [a] ++ [c] = [a, c] from rfl] at hstop hsplit ⊢
          rw [passedOver_iff h hz hsize hstop]
          by_contra ha
          exact hsplit (Or.inr ⟨pre, a, c, rfl, hz, ha, hsize⟩)

end Utf16

/-! ## A conversion as documented -/

/-- The conversion of what a decoder reads; each unit that it passes over is replaced. -/
def systemApi {enc : Char → List α} (d : Decoder enc) (out : Char → List β) : Api α β where
  strict src :=
    let chars := d.scan src.length src
    if chars.all Option.isSome then some (chars.flatMap fun o => out (o.getD replacementCharacter))
    else none
  lossy src := (d.scan src.length src).flatMap fun o => out (o.getD replacementCharacter)
  lengthFirst := fun _ _ => false
  spill := fun _ _ dst => dst
  length_spill := fun _ _ _ => rfl

section System

variable (d : Decoder enc)

theorem flatMap_some (out : Char → List β) (cs : List Char) :
    (cs.map some).flatMap (fun o => out (o.getD replacementCharacter)) = cs.flatMap out := by
  rw [List.flatMap_map]
  rfl

theorem scan_text (cs : List Char) :
    d.scan (cs.flatMap enc).length (cs.flatMap enc) = cs.map some := by
  have hlength : (cs.flatMap enc ++ []).length ≤ (cs.flatMap enc).length :=
    Nat.le_of_eq (by rw [List.append_nil])
  rcases d.scan_append cs hlength with ⟨left, -, hscan⟩
  rw [List.append_nil, d.scan_nil, List.append_nil] at hscan
  exact hscan

/-- A text that is read without a replacement. -/
theorem eq_map_some {os : List (Option Char)} (h : os.all Option.isSome) :
    ∃ cs : List Char, os = cs.map some := by
  induction os with
  | nil => exact ⟨[], rfl⟩
  | cons o os ih =>
    rw [List.all_cons, Bool.and_eq_true] at h
    rcases Option.isSome_iff_exists.1 h.1 with ⟨c, rfl⟩
    rcases ih h.2 with ⟨cs, rfl⟩
    exact ⟨c :: cs, rfl⟩

theorem systemApi_documented {Inner : α → Prop} (hfirst : ∀ c, FirstOnly Inner (enc c))
    (hout : ∀ c, out c ≠ [])
    (hlength : ∀ c, (out c).length ≤ (out replacementCharacter).length * (enc c).length) :
    Documented enc out (systemApi d out) where
  strict_iff := by
    intro src o
    simp only [systemApi]
    constructor
    · intro h
      split at h
      · rename_i hall
        rcases eq_map_some hall with ⟨cs, hcs⟩
        injection h with h
        rw [hcs, flatMap_some] at h
        exact ⟨cs, d.eq_of_scan (Nat.le_refl _) hcs, h.symm⟩
      · cases h
    · rintro ⟨cs, rfl, rfl⟩
      rw [scan_text, if_pos (by simp), flatMap_some]
  lossy_text := by
    intro cs
    simp only [systemApi]
    rw [scan_text, flatMap_some]
  lossy_cut := by
    intro cs c n hpos hlt
    refine ⟨n, hpos, Nat.le_refl n, ?_⟩
    simp only [systemApi]
    rcases d.scan_append cs (Nat.le_refl (cs.flatMap enc ++ (enc c).take n).length) with
      ⟨left, hleft, hscan⟩
    rw [hscan, d.scan_none hleft fun s hs => d.next_suffix_eq_none hfirst hlt hs,
      List.flatMap_append, flatMap_some, List.length_take, Nat.min_eq_left (Nat.le_of_lt hlt)]
    rw [List.append_cancel_left_eq, List.flatMap_replicate, List.flatMap_replicate]
    rfl
  lossy_ne_nil := by
    intro src hsrc
    simp only [systemApi]
    match src with
    | [] => exact absurd rfl hsrc
    | u :: src =>
      rw [List.length_cons, Decoder.scan]
      split
      · rw [List.flatMap_cons]
        exact fun hnil => hout _ (List.append_eq_nil_iff.1 hnil).1
      · rw [List.flatMap_cons]
        exact fun hnil => hout _ (List.append_eq_nil_iff.1 hnil).1
  length_lossy := by
    intro src
    exact d.length_flatMap_scan_le (Nat.le_refl _) hlength _ src

end System

/-- `WideCharToMultiByte` for `CP_UTF8`. -/
def wideCharToMultiByte : Api Wchar UInt8 := systemApi utf16Decoder utf8EncodeChar

/-- `MultiByteToWideChar` for `CP_UTF8`. -/
def multiByteToWideChar : Api UInt8 Wchar := systemApi utf8Decoder utf16EncodeChar

theorem wideCharToMultiByte_documented :
    Documented utf16EncodeChar utf8EncodeChar wideCharToMultiByte := by
  apply systemApi_documented _ utf16_firstOnly utf8EncodeChar_ne_nil
  intro c
  have hrep : (utf8EncodeChar replacementCharacter).length = 3 := by decide
  rw [hrep]
  by_cases hc : c.toNat < 0x10000
  · have hthree := length_utf8_le_three hc
    have hone := length_utf16_basic hc
    omega
  · have hfour := length_utf8_supplementary (Nat.le_of_not_lt hc)
    have htwo := length_utf16_supplementary (Nat.le_of_not_lt hc)
    omega

theorem multiByteToWideChar_documented :
    Documented utf8EncodeChar utf16EncodeChar multiByteToWideChar := by
  apply systemApi_documented _ utf8_firstOnly utf16EncodeChar_ne_nil
  intro c
  rw [length_utf16_replacementCharacter]
  by_cases hc : c.toNat < 0x10000
  · have hone := length_utf16_basic hc
    have hpos := List.length_pos_of_ne_nil (utf8EncodeChar_ne_nil c)
    omega
  · have hfour := length_utf8_supplementary (Nat.le_of_not_lt hc)
    have htwo := length_utf16_supplementary (Nat.le_of_not_lt hc)
    omega

/-! ## The two routines -/

/-- The checks of the pointers. -/
def UtfCall.Checked {sizeofSource sizeofDestination : ℕ}
    (c : UtfCall α β sizeofSource sizeofDestination) : Prop :=
  (c.destination ≠ 0 ∨ c.actualByteCount = true) ∧ c.source ≠ c.destination ∧ c.source ≠ 0

/-- A call that is refused promises nothing. -/
theorem keepsPrefix_refused {sizeofSource sizeofDestination : ℕ}
    (c : UtfCall α β sizeofSource sizeofDestination) {status : UtfStatus}
    (hstatus : status ≠ .success ∧ status ≠ .someNotMapped ∧ status ≠ .bufferTooSmall) :
    KeepsPrefix enc out c ⟨status, none, c.memory⟩ where
  truncated := fun h => absurd h hstatus.2.2
  complete := fun h => absurd h hstatus.1
  written := fun h => by
    rcases h with h | h | h
    · exact absurd h hstatus.1
    · exact absurd h hstatus.2.1
    · exact absurd h hstatus.2.2

/-- The first check is the one of `UtfCall.Checked`. -/
theorem not_checked {sizeofSource sizeofDestination : ℕ}
    {c : UtfCall α β sizeofSource sizeofDestination}
    (h : (c.destination = 0 ∧ c.actualByteCount = false) ∨ c.source = c.destination) :
    ¬ c.Checked := by
  rintro ⟨hpointer, hother, -⟩
  rcases h with ⟨hnull, hactual⟩ | hsame
  · rcases hpointer with hne | htrue
    · exact hne hnull
    · rw [hactual] at htrue
      cases htrue
  · exact hother hsame

theorem checked_of_not {sizeofSource sizeofDestination : ℕ}
    {c : UtfCall α β sizeofSource sizeofDestination}
    (h : ¬ ((c.destination = 0 ∧ c.actualByteCount = false) ∨ c.source = c.destination))
    (hsource : c.source ≠ 0) : c.Checked := by
  rw [not_or, not_and, Bool.not_eq_false] at h
  refine ⟨?_, h.2, hsource⟩
  by_cases hnull : c.destination = 0
  · exact Or.inr (h.1 hnull)
  · exact Or.inl hnull

theorem rtlUnicodeToUTF8N_keeps_iff {api : Api Wchar UInt8}
    (h : Documented utf16EncodeChar utf8EncodeChar api) {c : UtfCall Wchar UInt8 2 1}
    (hasserted : c.Asserted) :
    ∃ r, rtlUnicodeToUTF8N api c = some r ∧ (KeepsPrefix utf16EncodeChar utf8EncodeChar c r ↔
      (c.Checked ∧ c.byteCount % sizeofWchar = 0 → Unsplit utf16EncodeChar SplitsUtf8 c)) := by
  unfold rtlUnicodeToUTF8N
  rw [if_neg (not_not_intro hasserted)]
  by_cases hparameter : (c.destination = 0 ∧ c.actualByteCount = false) ∨ c.source = c.destination
  · rw [if_pos hparameter]
    exact ⟨_, rfl, iff_of_true (keepsPrefix_refused c (by decide))
      fun hc => absurd hc.1 (not_checked hparameter)⟩
  rw [if_neg hparameter]
  by_cases hsource : c.source = 0
  · rw [if_pos hsource]
    exact ⟨_, rfl, iff_of_true (keepsPrefix_refused c (by decide))
      fun hc => absurd hsource hc.1.2.2⟩
  rw [if_neg hsource]
  by_cases heven : c.byteCount % sizeofWchar = 0
  · rw [if_neg (not_not_intro heven)]
    have hlength := c.length_text
    have hint := hasserted.2.2
    unfold sizeofWchar at heven
    have hconvert := convertN_iff h (splitting_utf8 h) rfl (Nat.zero_le 1) Nat.one_pos
      (show c.byteCount = 2 * c.text.length by omega) (by omega)
    rcases hconvert with ⟨r, hr, hiff⟩
    refine ⟨r, hr, hiff.trans ⟨fun hunsplit _ => hunsplit, fun himp => himp ⟨?_, heven⟩⟩⟩
    exact checked_of_not hparameter hsource
  · rw [if_pos heven]
    exact ⟨_, rfl, iff_of_true (keepsPrefix_refused c (by decide)) fun hc => absurd hc.2 heven⟩

theorem rtlUTF8ToUnicodeN_keeps_iff {api : Api UInt8 Wchar}
    (h : Documented utf8EncodeChar utf16EncodeChar api) {c : UtfCall UInt8 Wchar 1 2}
    (hasserted : c.Asserted) :
    ∃ r, rtlUTF8ToUnicodeN api c = some r ∧ (KeepsPrefix utf8EncodeChar utf16EncodeChar c r ↔
      (c.Checked → Unsplit utf8EncodeChar SplitsUtf16 c)) := by
  unfold rtlUTF8ToUnicodeN
  rw [if_neg (not_not_intro hasserted)]
  simp only [@eq_comm _ c.destination c.source]
  by_cases hparameter : (c.destination = 0 ∧ c.actualByteCount = false) ∨ c.source = c.destination
  · rw [if_pos hparameter]
    exact ⟨_, rfl, iff_of_true (keepsPrefix_refused c (by decide))
      fun hc => absurd hc (not_checked hparameter)⟩
  rw [if_neg hparameter]
  by_cases hsource : c.source = 0
  · rw [if_pos hsource]
    exact ⟨_, rfl, iff_of_true (keepsPrefix_refused c (by decide))
      fun hc => absurd hsource hc.2.2⟩
  rw [if_neg hsource]
  have hlength := c.length_text
  have hint := hasserted.2.2
  have hrep : (utf16EncodeChar replacementCharacter).length * (2 - 1) ≤ 1 := by
    rw [length_utf16_replacementCharacter]
  have hconvert := convertN_iff h (splitting_utf16 h) rfl hrep Nat.two_pos
    (show c.byteCount = 1 * c.text.length by omega) (by omega)
  rcases hconvert with ⟨r, hr, hiff⟩
  refine ⟨r, hr, hiff.trans ⟨fun hunsplit _ => hunsplit, fun himp => himp ?_⟩⟩
  exact checked_of_not hparameter hsource

/-- `RtlUnicodeToUTF8N` and `RtlUTF8ToUnicodeN` return whenever their assertions hold. They
keep whole characters and report what they wrote exactly when the arguments are refused,
or an empty text has no count to report, a destination for a well-formed text has room for
a unit, and its size does not split a character. -/
theorem utf_truncation_iff {toUtf8 : Api Wchar UInt8} {toUtf16 : Api UInt8 Wchar}
    (h8 : Documented utf16EncodeChar utf8EncodeChar toUtf8)
    (h16 : Documented utf8EncodeChar utf16EncodeChar toUtf16) :
    (∀ c : UtfCall Wchar UInt8 2 1, c.Asserted →
      ∃ r, rtlUnicodeToUTF8N toUtf8 c = some r ∧
        (KeepsPrefix utf16EncodeChar utf8EncodeChar c r ↔
          (c.Checked ∧ c.byteCount % sizeofWchar = 0 → Unsplit utf16EncodeChar SplitsUtf8 c))) ∧
    (∀ c : UtfCall UInt8 Wchar 1 2, c.Asserted →
      ∃ r, rtlUTF8ToUnicodeN toUtf16 c = some r ∧
        (KeepsPrefix utf8EncodeChar utf16EncodeChar c r ↔
          (c.Checked → Unsplit utf8EncodeChar SplitsUtf16 c))) := by
  constructor
  · intro c hasserted
    exact rtlUnicodeToUTF8N_keeps_iff h8 hasserted
  · intro c hasserted
    exact rtlUTF8ToUnicodeN_keeps_iff h16 hasserted

/-- U+1F600 for three bytes. -/
def emojiCall : UtfCall Wchar UInt8 2 1 where
  irql := 0
  destination := 0x1000
  maxByteCount := 3
  memory := [0, 0, 0]
  actualByteCount := true
  source := 0x2000
  byteCount := 4
  text := [0xD83D, 0xDE00]
  maxByteCount_lt := by decide
  byteCount_lt := by decide
  length_memory := rfl
  length_text := rfl

/-- The letters `ab` for one byte. -/
def lettersCall : UtfCall Wchar UInt8 2 1 where
  irql := 0
  destination := 0x1000
  maxByteCount := 1
  memory := [0]
  actualByteCount := true
  source := 0x2000
  byteCount := 4
  text := [0x61, 0x62]
  maxByteCount_lt := by decide
  byteCount_lt := by decide
  length_memory := rfl
  length_text := rfl

theorem utf_truncation_letters :
    ∃ r, rtlUnicodeToUTF8N wideCharToMultiByte lettersCall = some r ∧
      KeepsPrefix utf16EncodeChar utf8EncodeChar lettersCall r := by
  have hasserted : lettersCall.Asserted := by decide
  rcases (utf_truncation_iff wideCharToMultiByte_documented multiByteToWideChar_documented).1
    lettersCall hasserted with ⟨r, hr, hiff⟩
  refine ⟨r, hr, hiff.2 fun _ => ⟨nofun, fun _ _ _ => by decide, ?_⟩⟩
  rintro - - cs - ⟨pre, c, rest, -, -, hsize⟩
  have hone : lettersCall.maxByteCount / 1 = 1 := rfl
  omega

/-- Three bytes are reported for a character that has four, and U+FFFD is written. -/
theorem replacement_reported :
    rtlUnicodeToUTF8N wideCharToMultiByte emojiCall =
      some ⟨.bufferTooSmall, some 3, [0xEF, 0xBF, 0xBD]⟩ ∧
    ¬ KeepsPrefix utf16EncodeChar utf8EncodeChar emojiCall
      ⟨.bufferTooSmall, some 3, [0xEF, 0xBF, 0xBD]⟩ := by
  refine ⟨rfl, fun hkeeps => ?_⟩
  have htext : emojiCall.text = [Char.ofNat 0x1F600].flatMap utf16EncodeChar := by decide
  rcases hkeeps.truncated rfl _ 3 htext rfl with ⟨pre, hlongest, hcount, -⟩
  have hfits : (pre.flatMap utf8EncodeChar).length = 3 := by omega
  -- the prefixes of one character have no byte, or four
  rcases List.prefix_cons_iff.1 hlongest.isPrefix with rfl | ⟨pre', rfl, hpre⟩
  · cases hfits
  · rw [List.prefix_nil.1 hpre] at hfits
    revert hfits
    decide

end Wdutf.Rtl
