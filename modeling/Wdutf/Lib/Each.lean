import Mathlib.Data.List.Basic
import Mathlib.Tactic.Common

/-!
# Wdutf.Lib.Each — items that are gone through in order, up to a failure

`each` hands the items of a list to a stateful routine that may also end the whole
run. It goes on as long as the results are good.

* `prefix_of_each` — the items that were gone through are the first ones;
* `each_eq_nil_iff`, `each_ne_nil` — they are none, only if there is none.
-/

namespace Wdutf.Each

variable {ε σ α β : Type} {ok : β → Bool} {f : α → σ → Except ε (β × σ)} {a : α} {l done : List α}
  {b b' : β} {s s' : σ}

/-- The items that were gone through, the last result, and the state. -/
def each (ok : β → Bool) (f : α → σ → Except ε (β × σ)) :
    List α → β → σ → Except ε (List α × β × σ)
  | [], b, s => .ok ([], b, s)
  | a :: l, _, s =>
    match f a s with
    | .error e => .error e
    | .ok (b, s) =>
      if ok b = true then (each ok f l b s).map fun r => (a :: r.1, r.2) else .ok ([a], b, s)

theorem each_error {e : ε} (h : f a s = .error e) : each ok f (a :: l) b s = .error e := by
  rw [each, h]

theorem each_good (h : f a s = .ok (b', s')) (hok : ok b' = true) :
    each ok f (a :: l) b s = (each ok f l b' s').map fun r => (a :: r.1, r.2) := by
  rw [each, h]
  dsimp only
  rw [if_pos hok]

theorem each_bad (h : f a s = .ok (b', s')) (hok : ok b' = false) :
    each ok f (a :: l) b s = .ok ([a], b', s') := by
  rw [each, h]
  dsimp only
  rw [if_neg (by simp [hok])]

/-- How a run over a list that is not empty begins. -/
theorem each_cons_cases (h : each ok f (a :: l) b s = .ok (done, b', s')) :
    (∃ b₁ s₁ rest, f a s = .ok (b₁, s₁) ∧ ok b₁ = true ∧ done = a :: rest ∧
      each ok f l b₁ s₁ = .ok (rest, b', s')) ∨
    (f a s = .ok (b', s') ∧ ok b' = false ∧ done = [a]) := by
  cases hf : f a s with
  | error e =>
    rw [each_error hf] at h
    cases h
  | ok r =>
    rcases r with ⟨b₁, s₁⟩
    cases hok : ok b₁ with
    | true =>
      rw [each_good hf hok] at h
      cases hrest : each ok f l b₁ s₁ with
      | error e =>
        rw [hrest] at h
        cases h
      | ok r =>
        rw [hrest] at h
        rcases r with ⟨rest, b₂, s₂⟩
        cases h
        exact Or.inl ⟨b₁, s₁, rest, rfl, hok, rfl, hrest⟩
    | false =>
      rw [each_bad hf hok] at h
      cases h
      exact Or.inr ⟨rfl, hok, rfl⟩

theorem prefix_of_each (h : each ok f l b s = .ok (done, b', s')) : done <+: l := by
  induction l generalizing b s done with
  | nil =>
    cases h
    exact List.prefix_refl _
  | cons a l ih =>
    rcases each_cons_cases h with ⟨b₁, s₁, rest, -, -, rfl, hrest⟩ | ⟨-, -, rfl⟩
    · exact (List.prefix_cons_inj a).2 (ih hrest)
    · exact List.prefix_append [a] l

theorem each_eq_nil_iff (h : each ok f l b s = .ok (done, b', s')) : done = [] ↔ l = [] := by
  cases l with
  | nil =>
    cases h
    exact iff_of_true rfl rfl
  | cons a l =>
    rcases each_cons_cases h with ⟨b₁, s₁, rest, -, -, rfl, -⟩ | ⟨-, -, rfl⟩
    · exact iff_of_false (List.cons_ne_nil _ _) (List.cons_ne_nil _ _)
    · exact iff_of_false (List.cons_ne_nil _ _) (List.cons_ne_nil _ _)

/-- A run that ends with a bad result has gone through an item. -/
theorem each_ne_nil (h : each ok f l b s = .ok (done, b', s')) (hok : ok b = true)
    (hbad : ok b' = false) : done ≠ [] := by
  rintro rfl
  rw [each_eq_nil_iff h |>.1 rfl] at h
  cases h
  rw [hok] at hbad
  cases hbad

end Wdutf.Each
