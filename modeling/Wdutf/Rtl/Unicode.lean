import Mathlib.Data.List.Basic
import Mathlib.Data.Int.Basic
import Mathlib.Tactic.Common

/-!
# Wdutf.Rtl.Unicode — counted strings and their comparison, `src/unicode.cpp`

A `UNICODE_STRING` is the list of the characters it counts, embedded NULs
included. `RtlCompareUnicodeString` compares with `wcsncmp` or `_wcsnicmp`, which
stop at a NUL:

* `rtlCompareUnicodeString_eq_zero_iff` — two strings of one length compare equal
  when they agree through their first NUL;
* `rtlCompareUnicodeString_eq_zero` — so when one of them has no NUL, exactly when
  their folded forms agree.
-/

namespace Wdutf.Rtl

/-- `WCHAR`. -/
abbrev Wchar := UInt16

/-- `UNICODE_STRING`: the first `Length / sizeof(WCHAR)` characters of `Buffer`. -/
abbrev UnicodeString := List Wchar

/-- The `NTSTATUS` values that the routines of `src/unicode.cpp` return. -/
inductive Status where
  | success
  | bufferOverflow
  | bufferTooSmall
  | invalidParameter
deriving DecidableEq

/-- `UNICODE_STRING` as its caller owns it: the characters of the memory at `Buffer`,
which `MaximumLength` does not exceed. The lengths are in bytes. -/
structure UnicodeBuffer where
  buffer : List Wchar
  length : UInt16
  maximumLength : UInt16
  capacity : maximumLength.toNat ≤ 2 * buffer.length

/-- Characters written to the start of the buffer, and a new `Length`. -/
def UnicodeBuffer.write (u : UnicodeBuffer) (chars : List Wchar) (length : UInt16) :
    UnicodeBuffer where
  buffer := chars ++ u.buffer.drop chars.length
  length := length
  maximumLength := u.maximumLength
  capacity := by
    have := u.capacity
    rw [List.length_append, List.length_drop]
    omega

/-- The case folding of `_wcsnicmp` in the C locale. -/
def towlower (c : Wchar) : Wchar := if 0x41 ≤ c ∧ c ≤ 0x5A then c + 0x20 else c

/-- `wcsncmp` after a mapping of the characters: at most `count` characters are
compared, and none behind a NUL. -/
def wcsncmpBy (f : Wchar → Wchar) : ℕ → UnicodeString → UnicodeString → ℤ
  | 0, _, _ => 0
  | count + 1, s, t =>
    let a := f (s.headD 0)
    let b := f (t.headD 0)
    if a = b then
      if a = 0 then 0 else wcsncmpBy f count s.tail t.tail
    else (a.toNat : ℤ) - b.toNat

/-- `RtlCompareUnicodeStrings`, with the lengths of the lists. -/
def rtlCompareUnicodeStrings (string1 string2 : UnicodeString) (ign : Bool) : ℤ :=
  let l := min string1.length string2.length
  let rc := wcsncmpBy (if ign then towlower else id) l string1 string2
  if rc ≠ 0 then rc else 2 * (string1.length : ℤ) - 2 * string2.length

/-- `RtlCompareUnicodeString`. -/
def rtlCompareUnicodeString (u1 u2 : UnicodeString) (ign : Bool) : ℤ :=
  rtlCompareUnicodeStrings u1 u2 ign

/-- `RtlEqualUnicodeString`. -/
def rtlEqualUnicodeString (string1 string2 : UnicodeString) (caseInSensitive : Bool) : Bool :=
  rtlCompareUnicodeString string1 string2 caseInSensitive = 0

/-- The folded form of a string. -/
def folded (s : UnicodeString) : UnicodeString := s.map towlower

/-- The string up to its first NUL, and with it. -/
def throughNul : UnicodeString → UnicodeString
  | [] => []
  | c :: s => if c = 0 then [0] else c :: throughNul s

theorem towlower_eq_zero {c : Wchar} : towlower c = 0 ↔ c = 0 := by
  unfold towlower
  split
  · rename_i h
    rw [UInt16.le_iff_toNat_le, UInt16.le_iff_toNat_le] at h
    rw [← UInt16.toNat_inj, ← UInt16.toNat_inj, UInt16.toNat_add]
    simp only [UInt16.reduceToNat, UInt16.toNat_zero] at *
    omega
  · rfl

theorem mem_folded_zero {s : UnicodeString} : 0 ∈ folded s ↔ 0 ∈ s := by
  simp [folded, towlower_eq_zero]

theorem throughNul_cons_of_ne {c : Wchar} (hc : c ≠ 0) (s : UnicodeString) :
    throughNul (c :: s) = c :: throughNul s := by
  rw [throughNul, if_neg hc]

/-- A NUL at the end or none at all: nothing is cut off. -/
theorem throughNul_eq_self {s : UnicodeString} (h : 0 ∉ s.dropLast) : throughNul s = s := by
  induction s with
  | nil => rfl
  | cons c s ih =>
    unfold throughNul
    cases s with
    | nil =>
      split
      · rename_i hc
        rw [hc]
      · rfl
    | cons d s =>
      rw [List.dropLast_cons_cons, List.mem_cons, not_or] at h
      rw [if_neg (Ne.symm h.1), ih h.2]

/-- What is cut off comes after a NUL, so that nothing is when the lengths agree. -/
theorem throughNul_eq_of_length {s : UnicodeString} (h : (throughNul s).length = s.length) :
    throughNul s = s := by
  induction s with
  | nil => rfl
  | cons c s ih =>
    unfold throughNul at h ⊢
    split
    · rename_i hc
      rw [if_pos hc] at h
      have hs : s = [] := by
        rw [← List.length_eq_zero_iff]
        simpa using h.symm
      rw [hc, hs]
    · rename_i hc
      rw [if_neg hc] at h
      rw [ih (by simpa using h)]

/-- `wcsncmp` finds no difference when the strings agree through their first NUL. -/
theorem wcsncmpBy_eq_zero (f : Wchar → Wchar) {s t : UnicodeString} (h : s.length = t.length) :
    wcsncmpBy f s.length s t = 0 ↔ throughNul (s.map f) = throughNul (t.map f) := by
  induction s generalizing t with
  | nil =>
    rw [List.length_nil] at h
    rw [List.length_eq_zero_iff.1 h.symm]
    simp [wcsncmpBy]
  | cons a s ih =>
    cases t with
    | nil => simp at h
    | cons b t =>
      have hrest := ih (t := t) (by simpa using h)
      show (if f a = f b then if f a = 0 then 0 else wcsncmpBy f s.length s t
        else ((f a).toNat : ℤ) - (f b).toNat) = 0 ↔
          (if f a = 0 then [0] else f a :: throughNul (s.map f)) =
            if f b = 0 then [0] else f b :: throughNul (t.map f)
      by_cases hab : f a = f b
      · rw [if_pos hab, ← hab]
        by_cases hzero : f a = 0
        · simp [hzero]
        · simpa [hzero] using hrest
      · have hne : ((f a).toNat : ℤ) - (f b).toNat ≠ 0 := by
          intro hzero
          exact hab (UInt16.toNat_inj.1 (by omega))
        rw [if_neg hab]
        refine iff_of_false hne fun heq => ?_
        -- the two strings differ in their first character
        by_cases ha : f a = 0
        · have hb : f b ≠ 0 := fun hb => hab (ha.trans hb.symm)
          rw [if_pos ha, if_neg hb] at heq
          exact hb (List.cons.inj heq).1.symm
        · by_cases hb : f b = 0
          · rw [if_neg ha, if_pos hb] at heq
            exact ha (List.cons.inj heq).1
          · rw [if_neg ha, if_neg hb] at heq
            exact hab (List.cons.inj heq).1

/-- Equality of counted strings as the code decides it. -/
theorem rtlCompareUnicodeString_eq_zero_iff (s t : UnicodeString) (ign : Bool) :
    rtlCompareUnicodeString s t ign = 0 ↔ s.length = t.length ∧
      throughNul (s.map (if ign then towlower else id)) =
        throughNul (t.map (if ign then towlower else id)) := by
  unfold rtlCompareUnicodeString rtlCompareUnicodeStrings
  by_cases hlen : s.length = t.length
  · rw [← hlen, Nat.min_self, ← wcsncmpBy_eq_zero _ hlen]
    simp
  · refine iff_of_false ?_ fun h => hlen h.1
    dsimp only
    generalize wcsncmpBy _ _ s t = rc
    split
    · assumption
    · omega

theorem length_eq_of_folded {s t : UnicodeString} (h : folded s = folded t) :
    s.length = t.length := by
  simpa [folded] using congrArg List.length h

/-- Case-insensitive equality of counted strings, one of them without NULs. -/
theorem rtlCompareUnicodeString_eq_zero {s t : UnicodeString} (ht : ∀ c ∈ t, c ≠ 0) :
    rtlCompareUnicodeString s t true = 0 ↔ folded s = folded t := by
  rw [rtlCompareUnicodeString_eq_zero_iff]
  show s.length = t.length ∧ throughNul (folded s) = throughNul (folded t) ↔ _
  have hnul : 0 ∉ folded t := fun hmem => ht 0 (mem_folded_zero.1 hmem) rfl
  rw [throughNul_eq_self fun hmem => hnul (List.dropLast_subset _ hmem)]
  constructor
  · rintro ⟨hlen, heq⟩
    rw [← heq, throughNul_eq_of_length]
    rw [heq]
    simp [folded, hlen]
  · intro heq
    refine ⟨length_eq_of_folded heq, ?_⟩
    rw [heq, throughNul_eq_self fun hmem => hnul (List.dropLast_subset _ hmem)]

end Wdutf.Rtl
