import Mathlib.Algebra.Group.Nat.Defs
import Mathlib.Algebra.Ring.Int.Defs
import Mathlib.Data.Int.Basic
import Mathlib.Tactic.Common
import Wdutf.Lib.Transition

/-!
# Wdutf.Lib.Long — counts in signed 32-bit words

A program counts in a word that wraps, and a model of it counts in the integers. Whatever was
added and subtracted, the word is that of the count; the program reads and tests the count in
it as long as it fits.

* `NoWrap`, `Within.noWrap` — the word is read as the count, and so are the results of the
  interlocked operations;
* `count_bounded` — a count that a step moves by at most one is bounded along a run.
-/

namespace Wdutf.Long

open Wdutf.Transition

/-- The word after the operations that made the count. -/
def word (x : ℤ) : Int32 := Int32.ofInt x

theorem word_add_one (x : ℤ) : word (x + 1) = word x + 1 := Int32.ofInt_add x 1

theorem word_sub_one (x : ℤ) : word (x - 1) = word x - 1 := Int32.ofInt_sub x 1

/-- The word is read as the count, and what an interlocked operation on it returns as the next
and as the previous one. -/
structure NoWrap (x : ℤ) : Prop where
  read : (word x).toInt = x
  increment : (word x + 1).toInt = x + 1
  decrement : (word x - 1).toInt = x - 1

/-- At most `n` away from zero. -/
def Within (n x : ℤ) : Prop := -n ≤ x ∧ x ≤ n

variable {n k x y : ℤ}

theorem Within.noWrap (h : Within n x) (hn : n + 1 < 2 ^ 31) : NoWrap x := by
  rcases h with ⟨hlow, hhigh⟩
  constructor
  case read => exact Int32.toInt_ofInt_of_le (by omega) (by omega)
  case increment =>
    rw [← word_add_one]
    exact Int32.toInt_ofInt_of_le (by omega) (by omega)
  case decrement =>
    rw [← word_sub_one]
    exact Int32.toInt_ofInt_of_le (by omega) (by omega)

/-- A move by at most `k`. -/
theorem Within.add (h : Within n x) (hmove : Within k (y - x)) : Within (n + k) y := by
  rcases h with ⟨hlow, hhigh⟩
  rcases hmove with ⟨hlow', hhigh'⟩
  exact ⟨by omega, by omega⟩

/-- A count is bounded along a run by what its steps move it. -/
theorem count_bounded {S E : Type*} {Init : S → Prop} {Next : S → E → S → Prop}
    (count : S → ℤ) (hinit : ∀ s, Init s → Within k (count s))
    (hstep : ∀ s e s', Next s e s' → Within 1 (count s' - count s)) {es : List E} {s : S}
    (h : Trace Init Next es s) : Within (k + es.length) (count s) := by
  induction h with
  | start hs => simpa using hinit _ hs
  | snoc _ hnext ih =>
    have hmoved := ih.add (hstep _ _ _ hnext)
    rw [List.length_append, List.length_singleton]
    push_cast
    rwa [← Int.add_assoc]

end Wdutf.Long
