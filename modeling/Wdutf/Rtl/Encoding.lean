import Mathlib.Algebra.Group.Nat.Defs
import Mathlib.Data.List.Basic
import Mathlib.Tactic.Common
import Wdutf.Lib.Coding
import Wdutf.Rtl.Unicode

/-!
# Wdutf.Rtl.Encoding — UTF-16 and UTF-8

The two encodings of a text that `RtlUnicodeToUTF8N` and `RtlUTF8ToUnicodeN` convert
between. A `Char` is a Unicode scalar value, so the words of a list of characters are
the well-formed texts.

* `utf16Decoder`, `utf8Decoder` — the first character of a text;
* `utf16_firstOnly`, `utf8_firstOnly` — the first unit of a word is told from the others,
  so that no character is read inside a word that was cut off.
-/

namespace Wdutf.Rtl

open Coding

/-- The words of UTF-16: a unit, or a surrogate pair from U+10000 on. -/
def utf16EncodeChar (c : Char) : List Wchar :=
  if c.toNat < 0x10000 then [UInt16.ofNat c.toNat]
  else [UInt16.ofNat (0xD800 + (c.toNat - 0x10000) / 0x400),
    UInt16.ofNat (0xDC00 + (c.toNat - 0x10000) % 0x400)]

/-- The words of UTF-8. -/
abbrev utf8EncodeChar (c : Char) : List UInt8 := String.utf8EncodeChar c

/-- U+FFFD. -/
def replacementCharacter : Char := '\uFFFD'

variable {c : Char}

/-! ## The widths of the characters -/

theorem toNat_valid (c : Char) : c.toNat < 0xD800 ∨ 0xDFFF < c.toNat ∧ c.toNat < 0x110000 :=
  c.valid

theorem length_utf16_basic (h : c.toNat < 0x10000) : (utf16EncodeChar c).length = 1 := by
  unfold utf16EncodeChar
  rw [if_pos h]
  rfl

theorem length_utf16_supplementary (h : 0x10000 ≤ c.toNat) : (utf16EncodeChar c).length = 2 := by
  unfold utf16EncodeChar
  rw [if_neg (by omega)]
  rfl

/-- The four forms of a word of UTF-8. -/
theorem utf8EncodeChar_cases (c : Char) :
    (c.toNat < 0x80 ∧ utf8EncodeChar c = [UInt8.ofNat c.toNat]) ∨
    (0x80 ≤ c.toNat ∧ c.toNat < 0x800 ∧ utf8EncodeChar c =
      [UInt8.ofNat (c.toNat / 64 % 0x20 + 0xC0), UInt8.ofNat (c.toNat % 0x40 + 0x80)]) ∨
    (0x800 ≤ c.toNat ∧ c.toNat < 0x10000 ∧ utf8EncodeChar c =
      [UInt8.ofNat (c.toNat / 4096 % 0x10 + 0xE0), UInt8.ofNat (c.toNat / 64 % 0x40 + 0x80),
        UInt8.ofNat (c.toNat % 0x40 + 0x80)]) ∨
    (0x10000 ≤ c.toNat ∧ utf8EncodeChar c =
      [UInt8.ofNat (c.toNat / 262144 % 0x08 + 0xF0), UInt8.ofNat (c.toNat / 4096 % 0x40 + 0x80),
        UInt8.ofNat (c.toNat / 64 % 0x40 + 0x80), UInt8.ofNat (c.toNat % 0x40 + 0x80)]) := by
  have hval : c.val.toNat = c.toNat := rfl
  simp only [utf8EncodeChar, String.utf8EncodeChar, hval]
  split
  · exact Or.inl ⟨by omega, rfl⟩
  · split
    · exact Or.inr (Or.inl ⟨by omega, by omega, rfl⟩)
    · split
      · exact Or.inr (Or.inr (Or.inl ⟨by omega, by omega, rfl⟩))
      · exact Or.inr (Or.inr (Or.inr ⟨by omega, rfl⟩))

theorem length_utf8_le_three (h : c.toNat < 0x10000) : (utf8EncodeChar c).length ≤ 3 := by
  rcases utf8EncodeChar_cases c with ⟨_, hc⟩ | ⟨_, _, hc⟩ | ⟨_, _, hc⟩ | ⟨hlt, _⟩
  · simp [hc]
  · simp [hc]
  · simp [hc]
  · omega

theorem length_utf8_supplementary (h : 0x10000 ≤ c.toNat) : (utf8EncodeChar c).length = 4 := by
  rcases utf8EncodeChar_cases c with ⟨hlt, _⟩ | ⟨_, hlt, _⟩ | ⟨_, hlt, _⟩ | ⟨_, hc⟩
  · omega
  · omega
  · omega
  · simp [hc]

theorem length_utf8_eq_one_iff : (utf8EncodeChar c).length = 1 ↔ c.toNat < 0x80 := by
  rcases utf8EncodeChar_cases c with ⟨hlt, hc⟩ | ⟨hlt, _, hc⟩ | ⟨hlt, _, hc⟩ | ⟨hlt, hc⟩
  · exact iff_of_true (by simp [hc]) hlt
  · exact iff_of_false (by simp [hc]) (by omega)
  · exact iff_of_false (by simp [hc]) (by omega)
  · exact iff_of_false (by simp [hc]) (by omega)

theorem utf16EncodeChar_ne_nil (c : Char) : utf16EncodeChar c ≠ [] := by
  unfold utf16EncodeChar
  split <;> exact List.cons_ne_nil _ _

theorem utf8EncodeChar_ne_nil (c : Char) : utf8EncodeChar c ≠ [] := String.utf8EncodeChar_ne_nil

/-! ## Reading UTF-16 -/

/-- Low surrogates, the second units of UTF-16. -/
def LowSurrogate (u : Wchar) : Prop := 0xDC00 ≤ u.toNat ∧ u.toNat ≤ 0xDFFF

instance (u : Wchar) : Decidable (LowSurrogate u) := by
  unfold LowSurrogate
  infer_instance

/-- The character of a surrogate pair, if the text goes on with a low surrogate. -/
def surrogatePair (u : Wchar) : List Wchar → Option Char
  | [] => none
  | w :: _ =>
    if LowSurrogate w then
      some (Char.ofNat (0x10000 + (u.toNat - 0xD800) * 0x400 + (w.toNat - 0xDC00)))
    else none

/-- The first character of a text in UTF-16. -/
def utf16Next : List Wchar → Option Char
  | [] => none
  | u :: rest =>
    if u.toNat < 0xD800 ∨ 0xDFFF < u.toNat then some (Char.ofNat u.toNat)
    else if LowSurrogate u then none
    else surrogatePair u rest

theorem toNat_ofNat16 {n : ℕ} (h : n < 0x10000) : (UInt16.ofNat n).toNat = n := by
  rw [UInt16.toNat_ofNat']
  exact Nat.mod_eq_of_lt h

theorem toNat_charOfNat {n : ℕ} (h : n < 0xD800 ∨ 0xDFFF < n ∧ n < 0x110000) :
    (Char.ofNat n).toNat = n := by
  have hvalid : n.isValidChar := h
  unfold Char.ofNat
  rw [dif_pos hvalid]
  rfl

theorem utf16Next_append (c : Char) (rest : List Wchar) :
    utf16Next (utf16EncodeChar c ++ rest) = some c := by
  have hvalid := toNat_valid c
  unfold utf16EncodeChar
  split
  · rename_i h
    rw [List.singleton_append, utf16Next, toNat_ofNat16 h, if_pos (by omega), Char.ofNat_toNat]
  · rename_i h
    -- the two surrogates hold ten bits each
    have hhigh := toNat_ofNat16 (n := 0xD800 + (c.toNat - 0x10000) / 0x400) (by omega)
    have hlow := toNat_ofNat16 (n := 0xDC00 + (c.toNat - 0x10000) % 0x400) (by omega)
    rw [List.cons_append, List.cons_append, utf16Next, hhigh, if_neg (by omega)]
    rw [if_neg (by unfold LowSurrogate; rw [hhigh]; omega)]
    rw [surrogatePair, if_pos (by unfold LowSurrogate; rw [hlow]; omega), hhigh, hlow]
    rw [Option.some.injEq]
    have hsum : 0x10000 + (0xD800 + (c.toNat - 0x10000) / 0x400 - 0xD800) * 0x400 +
        (0xDC00 + (c.toNat - 0x10000) % 0x400 - 0xDC00) = c.toNat := by omega
    rw [hsum, Char.ofNat_toNat]

theorem prefix_of_utf16Next (src : List Wchar) (c : Char) (h : utf16Next src = some c) :
    utf16EncodeChar c <+: src := by
  unfold utf16Next at h
  split at h
  · cases h
  · rename_i u rest
    have hu := u.toNat_lt
    split at h
    · -- a unit that is no surrogate
      rename_i hbasic
      injection h with h
      have hval : c.toNat = u.toNat := by
        rw [← h]
        exact toNat_charOfNat (hbasic.imp id fun h => ⟨h, by omega⟩)
      refine ⟨rest, ?_⟩
      unfold utf16EncodeChar
      rw [hval, if_pos (by omega), UInt16.ofNat_toNat]
      rfl
    · rename_i hbasic
      split at h
      · cases h
      · rename_i hhigh
        unfold LowSurrogate at hhigh
        unfold surrogatePair at h
        split at h
        · cases h
        · rename_i w rest
          split at h
          · rename_i hlow
            unfold LowSurrogate at hlow
            injection h with h
            have hval : c.toNat = 0x10000 + (u.toNat - 0xD800) * 0x400 + (w.toNat - 0xDC00) := by
              rw [← h]
              exact toNat_charOfNat (Or.inr ⟨by omega, by omega⟩)
            refine ⟨rest, ?_⟩
            unfold utf16EncodeChar
            rw [if_neg (by omega)]
            have h1 : 0xD800 + (c.toNat - 0x10000) / 0x400 = u.toNat := by omega
            have h2 : 0xDC00 + (c.toNat - 0x10000) % 0x400 = w.toNat := by omega
            rw [h1, h2, UInt16.ofNat_toNat, UInt16.ofNat_toNat]
            rfl
          · cases h

def utf16Decoder : Decoder utf16EncodeChar where
  next := utf16Next
  next_append := utf16Next_append
  prefix_of_next := prefix_of_utf16Next
  enc_ne_nil := utf16EncodeChar_ne_nil

/-! ## Reading UTF-8 -/

/-- The first character of a text in UTF-8. -/
def utf8Next (src : List UInt8) : Option Char := src.toByteArray.utf8DecodeChar? 0

theorem utf8Next_append (c : Char) (rest : List UInt8) :
    utf8Next (utf8EncodeChar c ++ rest) = some c := by
  unfold utf8Next
  rw [List.toByteArray_append]
  exact ByteArray.utf8DecodeChar?_utf8EncodeChar_append

theorem prefix_of_utf8Next (src : List UInt8) (c : Char) (h : utf8Next src = some c) :
    utf8EncodeChar c <+: src := by
  rcases ByteArray.exists_of_utf8DecodeChar?_eq_some h with ⟨rest, hrest⟩
  refine ⟨rest.data.toList, ?_⟩
  have hdata := congrArg (fun b => b.data.toList) hrest
  simpa using hdata.symm

def utf8Decoder : Decoder utf8EncodeChar where
  next := utf8Next
  next_append := utf8Next_append
  prefix_of_next := prefix_of_utf8Next
  enc_ne_nil := utf8EncodeChar_ne_nil

/-- The bytes of UTF-8 behind the first one of a word. -/
def ContinuationByte (b : UInt8) : Prop := 0x80 ≤ b.toNat ∧ b.toNat ≤ 0xBF

theorem toNat_ofNat8 {n : ℕ} (h : n < 0x100) : (UInt8.ofNat n).toNat = n := by
  rw [UInt8.toNat_ofNat']
  exact Nat.mod_eq_of_lt h

theorem continuationByte_ofNat (n : ℕ) : ContinuationByte (UInt8.ofNat (n % 0x40 + 0x80)) := by
  unfold ContinuationByte
  rw [toNat_ofNat8 (by omega)]
  omega

theorem not_continuationByte_ofNat {n : ℕ} (h : n < 0x80 ∨ 0xC0 ≤ n) (hlt : n < 0x100) :
    ¬ ContinuationByte (UInt8.ofNat n) := by
  unfold ContinuationByte
  rw [toNat_ofNat8 hlt]
  omega

/-! ## Cut words -/

theorem utf16_firstOnly (c : Char) : FirstOnly LowSurrogate (utf16EncodeChar c) := by
  have hvalid := toNat_valid c
  unfold utf16EncodeChar
  split
  · rename_i h
    refine ⟨_, [], rfl, ?_, fun x hx => absurd hx List.not_mem_nil⟩
    unfold LowSurrogate
    rw [toNat_ofNat16 h]
    omega
  · rename_i h
    refine ⟨_, _, rfl, ?_, ?_⟩
    · unfold LowSurrogate
      rw [toNat_ofNat16 (by omega)]
      omega
    · intro x hx
      rw [List.mem_singleton.1 hx]
      unfold LowSurrogate
      rw [toNat_ofNat16 (by omega)]
      omega

theorem utf8_firstOnly (c : Char) : FirstOnly ContinuationByte (utf8EncodeChar c) := by
  rcases utf8EncodeChar_cases c with ⟨hlt, hc⟩ | ⟨_, _, hc⟩ | ⟨_, _, hc⟩ | ⟨_, hc⟩
  · exact ⟨_, [], hc, not_continuationByte_ofNat (by omega) (by omega), by simp⟩
  all_goals
    refine ⟨_, _, hc, not_continuationByte_ofNat (by omega) (by omega), ?_⟩
    simp only [List.forall_mem_cons, continuationByte_ofNat, true_and]
    exact List.forall_mem_nil _

end Wdutf.Rtl
