import Mathlib.Data.List.Basic
import Mathlib.Tactic.Common

/-!
# Wdutf.Lib.Memory — memory that is copied byte by byte

Memory is a function from addresses to cells. `copy` copies a range in ascending
order, cell by cell, as a simple loop does; the two ranges may overlap.

* `copy_below` — copied downwards, every cell of the target gets what its source was;
* `copy_above` — copied upwards by `d`, the target repeats the first `d` cells of the
  source;
* `copy_eq_iff` — so the copy is exact when the source does not run into the target, or
  has the period `d`.
-/

namespace Wdutf.Memory

variable {β : Type}

/-- The cells of a range. -/
def cells (m : ℕ → β) (a n : ℕ) : List β := (List.range n).map fun i => m (a + i)

/-- One cell written. -/
def write (m : ℕ → β) (a : ℕ) (v : β) : ℕ → β := fun x => if x = a then v else m x

/-- Cells written from an address on. -/
def store (m : ℕ → β) (a : ℕ) (vs : List β) : ℕ → β :=
  fun x => if a ≤ x then vs.getD (x - a) (m x) else m x

/-- `n` cells copied in ascending order. -/
def copy (m : ℕ → β) (dst src : ℕ) : ℕ → ℕ → β
  | 0 => m
  | n + 1 => write (copy m dst src n) (dst + n) (copy m dst src n (src + n))

variable {m m' : ℕ → β} {a b n k dst src : ℕ}

/-! ## Ranges -/

@[simp] theorem length_cells (m : ℕ → β) (a n : ℕ) : (cells m a n).length = n := by
  simp [cells]

theorem cells_eq_iff : cells m a n = cells m' b n ↔ ∀ i, i < n → m (a + i) = m' (b + i) := by
  unfold cells
  rw [List.map_inj_left]
  simp only [List.mem_range]

theorem cells_append (m : ℕ → β) (a n k : ℕ) :
    cells m a (n + k) = cells m a n ++ cells m (a + n) k := by
  unfold cells
  rw [List.range_add, List.map_append, List.map_map]
  congr 1
  apply List.map_congr_left
  intro i _
  rw [Function.comp, Nat.add_assoc]

theorem cells_store (m : ℕ → β) (a : ℕ) (vs : List β) : cells (store m a vs) a vs.length = vs := by
  apply List.ext_getElem
  · simp
  · intro i hi hi'
    simp [cells, store, hi']

theorem store_of_not_mem {vs : List β} {x : ℕ} (h : ¬ (a ≤ x ∧ x < a + vs.length)) :
    store m a vs x = m x := by
  unfold store
  by_cases hx : a ≤ x
  · rw [if_pos hx]
    rw [List.getD_eq_getElem?_getD, List.getElem?_eq_none (by omega), Option.getD_none]
  · rw [if_neg hx]

/-! ## Copying -/

/-- A copy changes the target only. -/
theorem copy_of_not_mem {x : ℕ} (h : ¬ (dst ≤ x ∧ x < dst + n)) : copy m dst src n x = m x := by
  induction n with
  | zero => rfl
  | succ n ih =>
    unfold copy write
    rw [if_neg (by omega), ih (by omega)]

/-- What has been copied stays. -/
theorem copy_target (h : k < n) : copy m dst src n (dst + k) = copy m dst src k (src + k) := by
  induction n with
  | zero => omega
  | succ n ih =>
    rw [copy, write]
    by_cases hk : k = n
    · rw [if_pos (by omega), hk]
    · rw [if_neg (by omega), ih (by omega)]

/-- Copied downwards, or in place. -/
theorem copy_below (hle : dst ≤ src) (h : k < n) : copy m dst src n (dst + k) = m (src + k) := by
  rw [copy_target h]
  exact copy_of_not_mem (by omega)

/-- Copied upwards: the part of the source that lies in the target has been overwritten
with what came before. -/
theorem copy_above (hlt : src < dst) (h : k < n) :
    copy m dst src n (dst + k) = m (src + k % (dst - src)) := by
  induction k using Nat.strongRecOn generalizing n with
  | ind k ih =>
    rw [copy_target h]
    by_cases hk : k < dst - src
    · rw [Nat.mod_eq_of_lt hk]
      exact copy_of_not_mem (by omega)
    · have hread : src + k = dst + (k - (dst - src)) := by omega
      rw [hread, ih (k - (dst - src)) (by omega) (by omega), ← Nat.mod_eq_sub_mod (by omega)]

/-- The source of a copy upwards repeats itself from the target on. -/
def Periodic (m : ℕ → β) (dst src n : ℕ) : Prop :=
  ∀ k, k < n → m (src + k) = m (src + k % (dst - src))

/-- When a copy is exact. -/
theorem copy_eq_iff : cells (copy m dst src n) dst n = cells m src n ↔
    dst ≤ src ∨ Periodic m dst src n := by
  rw [cells_eq_iff]
  by_cases hle : dst ≤ src
  · exact iff_of_true (fun k hk => copy_below hle hk) (Or.inl hle)
  · have hcopied : ∀ k, k < n → copy m dst src n (dst + k) = m (src + k % (dst - src)) :=
      fun k hk => copy_above (by omega) hk
    constructor
    · intro h
      refine Or.inr fun k hk => ?_
      rw [← h k hk, hcopied k hk]
    · rintro (h | h)
      · exact absurd h hle
      · intro k hk
        rw [hcopied k hk, h k hk]

/-- A source that ends before the target is repeated not even once. -/
theorem periodic_of_le (h : src + n ≤ dst) : Periodic m dst src n := by
  intro k hk
  rw [Nat.mod_eq_of_lt (by omega)]

end Wdutf.Memory
