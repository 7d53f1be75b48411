import Mathlib.Data.List.Basic
import Mathlib.Tactic.Common
import Wdutf.Rtl.Unicode

/-!
# Wdutf.Rtl.Hash — `RtlHashUnicodeString` and `RtlEqualUnicodeString`

The hash goes over every counted character, the comparison only up to the first
NUL, so that the two fit together on strings with no NUL before their last
character.

* `hashAndEqualityAgree_iff` — exactly there hash and equality agree, and
  case-sensitive equality is equality;
* `hashAndEqualityDisagree` — two strings that differ after a NUL.
-/

namespace Wdutf.Rtl

/-- `HASH_STRING_ALGORITHM_DEFAULT`. -/
def hashStringAlgorithmDefault : UInt32 := 0

/-- `HASH_STRING_ALGORITHM_X65599`. -/
def hashStringAlgorithmX65599 : UInt32 := 1

/-- `towupper` in the C locale. -/
def towupper (c : Wchar) : Wchar := if 0x61 ≤ c ∧ c ≤ 0x7A then c - 0x20 else c

/-- The body of the loop of `RtlHashUnicodeString`. -/
def hashStep (caseInSensitive : Bool) (hash : UInt32) (c : Wchar) : UInt32 :=
  let c := if caseInSensitive then towupper c else c
  c.toUInt32 + (hash <<< 6) + (hash <<< 16) - hash

/-- `RtlHashUnicodeString`, with both pointers given: the hash or an error. -/
def rtlHashUnicodeString (string : UnicodeString) (caseInSensitive : Bool)
    (hashAlgorithm : UInt32) :
    Except Status UInt32 :=
  if hashAlgorithm ≠ hashStringAlgorithmDefault ∧ hashAlgorithm ≠ hashStringAlgorithmX65599 then
    .error .invalidParameter
  else .ok (string.foldl (hashStep caseInSensitive) 0)

/-- Equal strings have equal hashes, and case-sensitive equality is equality. -/
def HashAndEqualityAgree (s t : UnicodeString) : Prop :=
  (∀ ci algorithm, rtlEqualUnicodeString s t ci = true →
    rtlHashUnicodeString s ci algorithm = rtlHashUnicodeString t ci algorithm) ∧
  (rtlEqualUnicodeString s t false = true ↔ s = t)

theorem rtlEqualUnicodeString_iff (s t : UnicodeString) (ci : Bool) :
    rtlEqualUnicodeString s t ci = true ↔ s.length = t.length ∧
      throughNul (s.map (if ci then towlower else id)) =
        throughNul (t.map (if ci then towlower else id)) := by
  unfold rtlEqualUnicodeString
  rw [decide_eq_true_iff, rtlCompareUnicodeString_eq_zero_iff]

/-! ## Folding up and folding down -/

/-- Folding down first makes no difference to folding up. -/
theorem towupper_towlower (c : Wchar) : towupper (towlower c) = towupper c := by
  unfold towlower
  split
  · rename_i h
    unfold towupper
    rw [UInt16.le_iff_toNat_le, UInt16.le_iff_toNat_le] at h
    have hsum : (c + 0x20).toNat = c.toNat + 0x20 := by
      rw [UInt16.toNat_add]
      simp only [UInt16.reduceToNat] at *
      omega
    rw [if_pos, if_neg]
    · simp
    · rw [UInt16.le_iff_toNat_le]
      simp only [UInt16.reduceToNat] at *
      omega
    · rw [UInt16.le_iff_toNat_le, UInt16.le_iff_toNat_le, hsum]
      simp only [UInt16.reduceToNat] at *
      omega
  · rfl

/-- The case-insensitive hash is one of the folded form. -/
theorem foldl_hashStep_folded (s : UnicodeString) (hash : UInt32) :
    (folded s).foldl (hashStep true) hash = s.foldl (hashStep true) hash := by
  have hstep : ∀ h c, hashStep true h (towlower c) = hashStep true h c := by
    intro h c
    unfold hashStep
    rw [if_pos rfl, if_pos rfl, towupper_towlower]
  unfold folded
  rw [List.foldl_map]
  simp only [hstep]

theorem rtlHashUnicodeString_congr {s t : UnicodeString} {ci : Bool}
    (h : s.map (if ci then towlower else id) = t.map (if ci then towlower else id))
    (algorithm : UInt32) :
    rtlHashUnicodeString s ci algorithm = rtlHashUnicodeString t ci algorithm := by
  have hfold : s.foldl (hashStep ci) 0 = t.foldl (hashStep ci) 0 := by
    cases ci with
    | false =>
      have hst : s = t := by simpa using h
      rw [hst]
    | true =>
      have hst : folded s = folded t := h
      rw [← foldl_hashStep_folded s, ← foldl_hashStep_folded t, hst]
  unfold rtlHashUnicodeString
  rw [hfold]

/-! ## Strings that are cut off -/

/-- The comparison looks at all of a string with no NUL before its last character. -/
theorem map_eq_of_equal {s t : UnicodeString} {ci : Bool} (hnul : 0 ∉ s.dropLast)
    (h : rtlEqualUnicodeString s t ci = true) :
    s.map (if ci then towlower else id) = t.map (if ci then towlower else id) := by
  rcases (rtlEqualUnicodeString_iff s t ci).1 h with ⟨hlen, heq⟩
  have hs : 0 ∉ (s.map (if ci then towlower else id)).dropLast := by
    rw [List.dropLast_eq_take, List.length_map, ← List.map_take, ← List.dropLast_eq_take]
    intro hmem
    rcases List.mem_map.1 hmem with ⟨c, hc, hzero⟩
    cases ci with
    | false => exact hnul (hzero ▸ hc)
    | true => exact hnul (towlower_eq_zero.1 hzero ▸ hc)
  rw [throughNul_eq_self hs] at heq
  rw [heq]
  refine throughNul_eq_of_length ?_
  rw [← heq, List.length_map, List.length_map, hlen]

/-- Behind a NUL a character can be changed without the comparison noticing. -/
theorem exists_equal_ne {s : UnicodeString} (hnul : 0 ∈ s.dropLast) :
    ∃ t, rtlEqualUnicodeString s t false = true ∧ s ≠ t := by
  have hcut : ∃ t : UnicodeString, t.length = s.length ∧ throughNul t = throughNul s ∧ t ≠ s := by
    induction s with
    | nil => cases hnul
    | cons c s ih =>
      cases s with
      | nil => cases hnul
      | cons d s =>
        by_cases hc : c = 0
        · -- the first character is the NUL: change the second one
          refine ⟨c :: (d + 1) :: s, rfl, ?_, ?_⟩
          · simp [throughNul, hc]
          · simp
        · have hrest : 0 ∈ (d :: s).dropLast := by
            rw [List.dropLast_cons_cons, List.mem_cons] at hnul
            exact hnul.resolve_left (Ne.symm hc)
          rcases ih hrest with ⟨t, hlen, heq, hne⟩
          refine ⟨c :: t, by simp [hlen], ?_, by simpa using hne⟩
          rw [throughNul_cons_of_ne hc, throughNul_cons_of_ne hc, heq]
  rcases hcut with ⟨t, hlen, heq, hne⟩
  refine ⟨t, ?_, Ne.symm hne⟩
  rw [rtlEqualUnicodeString_iff]
  exact ⟨hlen.symm, by simpa using heq.symm⟩

/-- **Hash and equality.** Against every string, hash and equality of a string agree
exactly when it has no NUL before its last character. -/
theorem hashAndEqualityAgree_iff (s : UnicodeString) :
    (∀ t, HashAndEqualityAgree s t) ↔ 0 ∉ s.dropLast := by
  constructor
  · intro h hnul
    rcases exists_equal_ne hnul with ⟨t, hequal, hne⟩
    exact hne ((h t).2.1 hequal)
  · intro hnul t
    refine ⟨fun ci algorithm hequal => ?_, fun hequal => ?_, ?_⟩
    · exact rtlHashUnicodeString_congr (map_eq_of_equal hnul hequal) algorithm
    · simpa using map_eq_of_equal hnul hequal
    · rintro rfl
      rw [rtlEqualUnicodeString_iff]
      exact ⟨rfl, rfl⟩

/-- `"\0a"` and `"\0b"` are equal, with and without regard to case, and have
different hashes. -/
theorem hashAndEqualityDisagree :
    rtlEqualUnicodeString [0, 0x61] [0, 0x62] false = true ∧
      rtlHashUnicodeString [0, 0x61] false hashStringAlgorithmDefault ≠
        rtlHashUnicodeString [0, 0x62] false hashStringAlgorithmDefault ∧
      ¬ HashAndEqualityAgree [0, 0x61] [0, 0x62] := by
  have hequal : rtlEqualUnicodeString [0, 0x61] [0, 0x62] false = true := by decide
  refine ⟨hequal, by decide, fun h => ?_⟩
  have heq := h.2.1 hequal
  exact absurd heq (by decide)

end Wdutf.Rtl
