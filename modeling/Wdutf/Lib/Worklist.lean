import Mathlib.Data.Set.Finite.Basic
import Mathlib.Data.Set.Finite.Range
import Mathlib.Data.List.Nodup
import Mathlib.Logic.Function.Iterate
import Mathlib.Tactic.Common

/-!
# Wdutf.Lib.Worklist — loops that look for work until there is none

A loop that handles the first item it finds, and looks again, in a state that the handling has
changed. Nothing is known about the change: it may bring new items, and old ones back.

* `worklist_iff` — the loop ends, with no item handled twice, exactly if there are finitely many
  items to find and none that has been handled is found again.
-/

namespace Wdutf.Worklist

variable {S D : Type*}

/-- The items of the first turns. -/
def handled (first : S → Option D) (step : S → S) : ℕ → S → List D
  | 0, _ => []
  | n + 1, s => (first s).toList ++ handled first step n (step s)

variable {first : S → Option D} {step : S → S} {s : S} {n : ℕ} {d : D}

theorem mem_handled : d ∈ handled first step n s ↔ ∃ i < n, first (step^[i] s) = some d := by
  induction n generalizing s with
  | zero => simp [handled]
  | succ n ih =>
    rw [handled, List.mem_append, ih, Option.mem_toList]
    constructor
    · rintro (h | ⟨i, hi, h⟩)
      · exact ⟨0, Nat.succ_pos n, h⟩
      · exact ⟨i + 1, Nat.succ_lt_succ hi, h⟩
    · rintro ⟨i, hi, h⟩
      cases i with
      | zero => exact Or.inl h
      | succ i => exact Or.inr ⟨i, Nat.lt_of_succ_lt_succ hi, h⟩

/-- No item is handled twice. -/
theorem nodup_handled : (handled first step n s).Nodup ↔
    ∀ i j, i < j → j < n → ∀ d, first (step^[i] s) = some d → first (step^[j] s) ≠ some d := by
  induction n generalizing s with
  | zero =>
    exact iff_of_true List.nodup_nil fun i j _ hj => absurd hj (Nat.not_lt_zero j)
  | succ n ih =>
    rw [handled, List.nodup_append', ih]
    constructor
    · rintro ⟨-, hrest, hdisjoint⟩ i j hij hj d hi hjd
      obtain ⟨j, rfl⟩ : ∃ k, j = k + 1 := ⟨j - 1, by omega⟩
      cases i with
      | zero =>
        refine hdisjoint (Option.mem_toList.2 hi) ?_
        exact mem_handled.2 ⟨j, Nat.lt_of_succ_lt_succ hj, hjd⟩
      | succ i =>
        exact hrest i j (Nat.lt_of_succ_lt_succ hij) (Nat.lt_of_succ_lt_succ hj) d hi hjd
    · intro h
      refine ⟨?_, ?_, ?_⟩
      · cases first s with
        | none => exact List.nodup_nil
        | some d => exact List.nodup_singleton d
      · exact fun i j hij hj d hi =>
          h (i + 1) (j + 1) (Nat.succ_lt_succ hij) (Nat.succ_lt_succ hj) d hi
      · intro d hd hmem
        rcases mem_handled.1 hmem with ⟨j, hj, hjd⟩
        exact h 0 (j + 1) (Nat.succ_pos j) (Nat.succ_lt_succ hj) d (Option.mem_toList.1 hd) hjd

/-- Where there is no work, nothing changes any more. -/
theorem iterate_done (hstop : ∀ s, first s = none → step s = s) (hdone : first (step^[n] s) = none)
    {k : ℕ} (hk : n ≤ k) : step^[k] s = step^[n] s := by
  induction k, hk using Nat.le_induction with
  | base => rfl
  | succ k _ ih => rw [Function.iterate_succ_apply', ih, hstop _ hdone]

/-- **Worklists.** -/
theorem worklist_iff (hstop : ∀ s, first s = none → step s = s) :
    (∃ n, first (step^[n] s) = none ∧ (handled first step n s).Nodup) ↔
      {d | ∃ i, first (step^[i] s) = some d}.Finite ∧
        ∀ i j, i < j → ∀ d, first (step^[i] s) = some d → first (step^[j] s) ≠ some d := by
  constructor
  · rintro ⟨n, hdone, hnodup⟩
    -- all items belong to the turns before the end
    have hlt : ∀ i d, first (step^[i] s) = some d → i < n := by
      intro i d hd
      by_contra hge
      rw [iterate_done hstop hdone (Nat.le_of_not_lt hge), hdone] at hd
      cases hd
    constructor
    · refine (List.finite_toSet (handled first step n s)).subset ?_
      rintro d ⟨i, hd⟩
      exact mem_handled.2 ⟨i, hlt i d hd, hd⟩
    · intro i j hij d hi hj
      exact nodup_handled.1 hnodup i j hij (hlt j d hj) d hi hj
  · rintro ⟨hfinite, hnever⟩
    -- infinitely many turns would need infinitely many items
    have hends : ∃ n, first (step^[n] s) = none := by
      by_contra hno
      have hsome : ∀ n, ∃ d, first (step^[n] s) = some d := fun n =>
        Option.ne_none_iff_exists'.1 fun h => hno ⟨n, h⟩
      choose item hitem using hsome
      have hinjective : Function.Injective item := by
        intro i j hij
        rcases Nat.lt_trichotomy i j with h | h | h
        · exact absurd (hij ▸ hitem j) (hnever i j h _ (hitem i))
        · exact h
        · exact absurd (hij ▸ hitem i) (hnever j i h _ (hitem j))
      refine Set.infinite_range_of_injective hinjective (hfinite.subset ?_)
      rintro d ⟨i, rfl⟩
      exact ⟨i, hitem i⟩
    rcases hends with ⟨n, hdone⟩
    exact ⟨n, hdone, nodup_handled.2 fun i j hij _ d => hnever i j hij d⟩

end Wdutf.Worklist
