import Mathlib.Data.Nat.Digits.Lemmas
import Mathlib.Tactic.Common

/-!
# Wdutf.Lib.Numerals — numerals, most significant digit first

The value of a list of digits, and the digits that a number is written with:
at least one, and no leading zeros.

* `value_digits` — reading back what was written;
* `length_digits_le` — how long a numeral gets;
* `value_leftpad` — leading zeros make no difference.
-/

namespace Wdutf.Numerals

variable {b n : ℕ}

/-- The value of a list of digits. -/
def value (b : ℕ) (ds : List ℕ) : ℕ := ds.foldl (fun v d => v * b + d) 0

/-- The digits that a number is written with. -/
def digits (b n : ℕ) : List ℕ := if n = 0 then [0] else (Nat.digits b n).reverse

theorem digits_ne_nil (b n : ℕ) : digits b n ≠ [] := by
  unfold digits
  split
  · simp
  · rename_i hn
    simpa [Nat.digits_eq_nil_iff_eq_zero] using hn

theorem digits_lt (hb : 1 < b) {d : ℕ} (hd : d ∈ digits b n) : d < b := by
  unfold digits at hd
  split at hd
  · rw [List.mem_singleton.1 hd]
    omega
  · exact Nat.digits_lt_base hb (List.mem_reverse.1 hd)

/-- Only the number 0 starts with the digit 0. -/
theorem digits_head (hn : n ≠ 0) {d : ℕ} {ds : List ℕ} (h : digits b n = d :: ds) : d ≠ 0 := by
  unfold digits at h
  rw [if_neg hn] at h
  have hne : Nat.digits b n ≠ [] := Nat.digits_ne_nil_iff_ne_zero.2 hn
  have hlast := Nat.getLast_digit_ne_zero b hn
  have hd : (Nat.digits b n).getLast hne = d := by
    rw [List.getLast_eq_head_reverse]
    simp [h]
  rwa [hd] at hlast

theorem value_reverse (b : ℕ) (ds : List ℕ) : value b ds.reverse = Nat.ofDigits b ds := by
  unfold value
  rw [List.foldl_reverse, Nat.ofDigits_eq_foldr]
  congr 1
  funext d v
  rw [Nat.cast_id, Nat.mul_comm, Nat.add_comm]

theorem value_digits (b n : ℕ) : value b (digits b n) = n := by
  unfold digits
  split
  · rename_i hn
    simp [value, hn]
  · rw [value_reverse, Nat.ofDigits_digits]

theorem length_digits_le (hb : 1 < b) {w : ℕ} (hw : 0 < w) :
    (digits b n).length ≤ w ↔ n < b ^ w := by
  unfold digits
  split
  · rename_i hn
    rw [hn]
    exact iff_of_true hw (Nat.pow_pos (by omega))
  · rw [List.length_reverse]
    exact Nat.digits_length_le_iff hb n

theorem value_leftpad (b w : ℕ) (ds : List ℕ) : value b (List.leftpad w 0 ds) = value b ds := by
  unfold List.leftpad
  induction w - ds.length with
  | zero => rfl
  | succ k ih =>
    rw [List.replicate_succ, List.cons_append]
    simpa [value] using ih

end Wdutf.Numerals
