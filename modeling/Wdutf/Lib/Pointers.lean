import Mathlib.Logic.Relation
import Mathlib.Logic.Function.Basic
import Mathlib.Tactic.Common

/-!
# Wdutf.Lib.Pointers — chains of pointers

A pointer field is a partial function `next`. A loop that follows it is given a
number of tests (`chase`).

* `chase_total` — a rank that falls along the pointers ends every loop;
* `ends_connected` — all nodes of a component lead to one end;
* `Inverse` — two fields that point back at each other, and what linking and
  unlinking two nodes does to them.
-/

namespace Wdutf.Pointers

open Relation

variable {α : Type*}

/-- The pointer of `a` leads to `b`. -/
def Link (next : α → Option α) (a b : α) : Prop := next a = some b

/-- The loop `while (next a) a = next a`, for at most `turns` tests. -/
def chase (next : α → Option α) : ℕ → α → Option α
  | 0, _ => none
  | turns + 1, a =>
    match next a with
    | none => some a
    | some b => chase next turns b

/-- From `a` on the pointers lead to `z`, and end. -/
def Ends (next : α → Option α) (a z : α) : Prop := ReflTransGen (Link next) a z ∧ next z = none

/-- From `a` on the pointers visit the nodes of the list, and end. -/
def Visits (next : α → Option α) : α → List α → Prop
  | a, [] => next a = none
  | a, b :: l => next a = some b ∧ Visits next b l

section Chains

variable {next : α → Option α} {a b z : α}

theorem ends_self (h : next a = none) : Ends next a a := ⟨ReflTransGen.refl, h⟩

/-- A node leads where its successor leads. -/
theorem ends_step (h : next a = some b) : Ends next a z ↔ Ends next b z := by
  constructor
  · rintro ⟨hreach, hend⟩
    rcases ReflTransGen.cases_head hreach with rfl | ⟨c, hlink, hrest⟩
    · rw [h] at hend
      cases hend
    · rcases Option.some.inj (h.symm.trans hlink) with rfl
      exact ⟨hrest, hend⟩
  · rintro ⟨hreach, hend⟩
    exact ⟨ReflTransGen.head h hreach, hend⟩

theorem ends_unique {z' : α} (h : Ends next a z) (h' : Ends next a z') : z = z' := by
  rcases h with ⟨hreach, hend⟩
  induction hreach using ReflTransGen.head_induction_on with
  | refl =>
    rcases ReflTransGen.cases_head h'.1 with rfl | ⟨c, hlink, -⟩
    · rfl
    · rw [Link, hend] at hlink
      cases hlink
  | head hlink _ ih => exact ih ((ends_step hlink).1 h')

/-- The nodes of a component lead to the same end. -/
theorem ends_connected (h : EqvGen (Link next) a b) : Ends next a z ↔ Ends next b z := by
  induction h with
  | rel a b hlink => exact ends_step hlink
  | refl a => exact Iff.rfl
  | symm a b _ ih => exact ih.symm
  | trans a b c _ _ ih ih' => exact ih.trans ih'

theorem connected_of_ends (h : Ends next a z) : EqvGen (Link next) a z := by
  rcases h with ⟨hreach, -⟩
  induction hreach with
  | refl => exact EqvGen.refl a
  | tail _ hlink ih => exact ih.trans _ _ _ (EqvGen.rel _ _ hlink)

/-- What a loop returns is the end of the chain. -/
theorem ends_of_chase {turns : ℕ} (h : chase next turns a = some z) : Ends next a z := by
  induction turns generalizing a with
  | zero => cases h
  | succ turns ih =>
    rw [chase] at h
    cases hnext : next a with
    | none =>
      rw [hnext] at h
      rcases Option.some.inj h with rfl
      exact ends_self hnext
    | some b =>
      rw [hnext] at h
      exact (ends_step hnext).2 (ih h)

section Rank

variable {rank : α → ℕ}

/-- Where a rank falls along the pointers, the loop ends after as many tests. -/
theorem chase_total (hrank : ∀ a b, next a = some b → rank b < rank a) (a : α) :
    ∃ z, ∀ turns, rank a < turns → chase next turns a = some z := by
  induction hn : rank a using Nat.strongRecOn generalizing a with
  | ind n ih =>
    cases hnext : next a with
    | none =>
      refine ⟨a, fun turns hturns => ?_⟩
      rcases turns with _ | turns
      · exact absurd hturns (Nat.not_lt_zero _)
      · rw [chase, hnext]
    | some b =>
      have hlt := hrank a b hnext
      rcases ih (rank b) (hn ▸ hlt) b rfl with ⟨z, hz⟩
      refine ⟨z, fun turns hturns => ?_⟩
      rcases turns with _ | turns
      · exact absurd hturns (Nat.not_lt_zero _)
      · rw [chase, hnext]
        exact hz turns (by omega)

/-- No chain comes back to where it started. -/
theorem acyclic_of_rank (hrank : ∀ a b, next a = some b → rank b < rank a) (a : α) :
    ¬TransGen (Link next) a a := by
  intro hcycle
  have hfall : ∀ {b}, TransGen (Link next) a b → rank b < rank a := by
    intro b h
    induction h with
    | single hlink => exact hrank _ _ hlink
    | tail _ hlink ih => exact Nat.lt_trans (hrank _ _ hlink) ih
  exact Nat.lt_irrefl _ (hfall hcycle)

end Rank

/-- A chain that ends can be listed. -/
theorem visits_of_ends (h : Ends next a z) : ∃ l, Visits next a l := by
  rcases h with ⟨hreach, hend⟩
  induction hreach using ReflTransGen.head_induction_on with
  | refl => exact ⟨[], hend⟩
  | head hlink _ ih =>
    rcases ih with ⟨l, hl⟩
    exact ⟨_ :: l, hlink, hl⟩

end Chains

/-! ## Two fields that point back at each other -/

/-- The fields `up` and `down` are inverse to each other. -/
def Inverse (up down : α → Option α) : Prop := ∀ a b, up a = some b ↔ down b = some a

section Inverse

variable {up down : α → Option α} {a b : α}

/-- The links of one field are those of the other, turned round. -/
theorem connected_of_swap {r r' : α → α → Prop} (hswap : ∀ x y, r x y → r' y x) {x y : α}
    (h : EqvGen r x y) : EqvGen r' x y := by
  induction h with
  | rel x y hlink => exact (EqvGen.rel y x (hswap x y hlink)).symm
  | refl x => exact EqvGen.refl x
  | symm x y _ ih => exact ih.symm
  | trans x y z _ _ ih ih' => exact ih.trans _ _ _ ih'

theorem Inverse.connected (h : Inverse up down) {x y : α} :
    EqvGen (Link down) x y ↔ EqvGen (Link up) x y :=
  ⟨connected_of_swap fun x y => (h y x).2, connected_of_swap fun x y => (h x y).1⟩

variable [DecidableEq α]

/-- Two free ends are linked. -/
theorem Inverse.link (h : Inverse up down) (ha : up a = none) (hb : down b = none) :
    Inverse (Function.update up a (some b)) (Function.update down b (some a)) := by
  intro x y
  by_cases hx : x = a <;> by_cases hy : y = b
  · simp [hx, hy]
  · have hmiss : down y ≠ some a := fun hdown => by
      rw [← h, ha] at hdown
      cases hdown
    simp [hx, hy, hmiss, Ne.symm hy]
  · have hmiss : up x ≠ some b := fun hup => by
      rw [h, hb] at hup
      cases hup
    simp [hx, hy, hmiss, Ne.symm hx]
  · simp [hx, hy, h x y]

/-- A link is taken away. -/
theorem Inverse.unlink (h : Inverse up down) (hab : up a = some b) :
    Inverse (Function.update up a none) (Function.update down b none) := by
  have hba := (h a b).1 hab
  intro x y
  by_cases hx : x = a <;> by_cases hy : y = b
  · simp [hx, hy]
  · have hmiss : down y ≠ some a := fun hdown => by
      rw [← h, hab] at hdown
      exact hy (Option.some.inj hdown).symm
    simp [hx, hy, hmiss]
  · have hmiss : up x ≠ some b := fun hup => by
      rw [h, hba] at hup
      exact hx (Option.some.inj hup).symm
    simp [hx, hy, hmiss]
  · simp [hx, hy, h x y]

end Inverse

end Wdutf.Pointers
