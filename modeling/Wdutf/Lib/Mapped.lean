import Mathlib.Data.List.Basic
import Mathlib.Tactic.Common
import Wdutf.Lib.Memory

/-!
# Wdutf.Lib.Mapped — memory of which only some cells are there

Memory is a function from addresses to cells, or to nothing where none is mapped. An access
to such an address fails, so that a routine that returns has touched mapped cells only.

* `load_ok` — cells that are read one by one;
* `save_ok` — and written.
-/

namespace Wdutf.Mapped

open Wdutf.Memory

variable {ε β : Type} {out : ε} {m : ℕ → Option β} {a n : ℕ} {vs : List β}

/-- `n` cells are read. -/
def load (out : ε) (m : ℕ → Option β) (a : ℕ) : ℕ → Except ε (List β)
  | 0 => .ok []
  | n + 1 =>
    match m a with
    | none => .error out
    | some v => (load out m (a + 1) n).map (v :: ·)

/-- Cells are written from an address on. -/
def save (out : ε) (m : ℕ → Option β) (a : ℕ) : List β → Except ε (ℕ → Option β)
  | [] => .ok m
  | v :: vs =>
    match m a with
    | none => .error out
    | some _ => save out (write m a (some v)) (a + 1) vs

/-- All cells of a range are there. -/
def Present (m : ℕ → Option β) (a n : ℕ) : Prop := ∀ x, a ≤ x → x < a + n → m x ≠ none

theorem cells_succ {γ : Type} (m : ℕ → γ) (a n : ℕ) :
    cells m a (n + 1) = m a :: cells m (a + 1) n := by
  rw [Nat.add_comm, cells_append]
  rfl

theorem load_ok (h : vs.map some = cells m a vs.length) : load out m a vs.length = .ok vs := by
  induction vs generalizing a with
  | nil => rfl
  | cons v vs ih =>
    rw [List.length_cons, cells_succ, List.map_cons, List.cons.injEq] at h
    rw [List.length_cons, load, ← h.1]
    show (load out m (a + 1) vs.length).map (v :: ·) = _
    rw [ih h.2]
    rfl

/-- The cells of a range that is there. -/
theorem exists_cells (h : Present m a n) :
    ∃ vs : List β, vs.length = n ∧ vs.map some = cells m a n := by
  induction n generalizing a with
  | zero => exact ⟨[], rfl, rfl⟩
  | succ n ih =>
    rcases ih (a := a + 1) (fun x hx hlt => h x (by omega) (by omega)) with ⟨vs, hlen, hvs⟩
    rcases Option.ne_none_iff_exists'.1 (h a (Nat.le_refl a) (by omega)) with ⟨v, hv⟩
    refine ⟨v :: vs, by rw [List.length_cons, hlen], ?_⟩
    rw [cells_succ, List.map_cons, hvs, hv]

theorem present_of_cells (h : vs.map some = cells m a vs.length) : Present m a vs.length := by
  intro x hle hlt
  have hx : m x ∈ cells m a vs.length :=
    List.mem_map.2 ⟨x - a, List.mem_range.2 (by omega), congrArg m (by omega)⟩
  rw [← h] at hx
  rcases List.mem_map.1 hx with ⟨v, -, hv⟩
  rw [← hv]
  exact Option.some_ne_none v

theorem store_cons {γ : Type} (m : ℕ → γ) (a : ℕ) (v : γ) (vs : List γ) :
    store (write m a v) (a + 1) vs = store m a (v :: vs) := by
  funext x
  unfold store write
  rcases Nat.lt_trichotomy x a with hlt | rfl | hgt
  · rw [if_neg (by omega), if_neg (by omega), if_neg (by omega)]
  · rw [if_neg (by omega), if_pos rfl, if_pos (Nat.le_refl x), Nat.sub_self]
    rfl
  · have hsucc : x - a = (x - (a + 1)) + 1 := by omega
    rw [if_pos (by omega), if_neg (by omega), if_pos (by omega), hsucc]
    rfl

/-- Cells that are put where they come from, in another memory. -/
theorem store_cells {γ : Type} (m m' : ℕ → γ) {a n x : ℕ} (h : a ≤ x ∧ x < a + n) :
    store m' a (cells m a n) x = m x := by
  have hstored := cells_store m' a (cells m a n)
  rw [length_cells, cells_eq_iff] at hstored
  have hx := hstored (x - a) (by omega)
  rwa [Nat.add_sub_cancel' h.1] at hx

/-- What is there can be written, and stays there. -/
theorem save_ok (h : Present m a vs.length) : save out m a vs = .ok (store m a (vs.map some)) := by
  induction vs generalizing m a with
  | nil =>
    rw [save]
    refine congrArg Except.ok (funext fun x => ?_)
    exact (store_of_not_mem (by simp)).symm
  | cons v vs ih =>
    rw [List.length_cons] at h
    rcases Option.ne_none_iff_exists'.1 (h a (Nat.le_refl a) (by omega)) with ⟨w, hw⟩
    have hrest : Present (write m a (some v)) (a + 1) vs.length := by
      intro x hx hlt
      unfold write
      rw [if_neg (by omega)]
      exact h x (by omega) (by omega)
    rw [save, hw]
    show save out (write m a (some v)) (a + 1) vs = _
    rw [ih hrest, List.map_cons, store_cons]

end Wdutf.Mapped
