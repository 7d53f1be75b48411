import Mathlib.Data.List.Basic

/-!
# Wdutf.Lib.Action — running stateful actions that can fail

Equations that run an `EStateM` action one primitive step at a time. A proof
about a routine states what each of its steps returns and rewrites with these;
it never unfolds the monad.
-/

namespace Wdutf.Action

variable {ε σ α β : Type}

theorem bind_ok {m : EStateM ε σ α} {k : α → EStateM ε σ β} {s s' : σ} {a : α}
    (h : m s = .ok a s') : (m >>= k) s = k a s' := by
  show EStateM.bind m k s = _
  rw [EStateM.bind, h]

theorem bind_error {m : EStateM ε σ α} {k : α → EStateM ε σ β} {s s' : σ} {e : ε}
    (h : m s = .error e s') : (m >>= k) s = .error e s' := by
  show EStateM.bind m k s = _
  rw [EStateM.bind, h]

/-- A sequence that returns is made of actions that return. -/
theorem bind_inv {m : EStateM ε σ α} {k : α → EStateM ε σ β} {s t : σ} {b : β}
    (h : (m >>= k) s = .ok b t) : ∃ a u, m s = .ok a u ∧ k a u = .ok b t := by
  cases hm : m s with
  | ok a u =>
    rw [bind_ok hm] at h
    exact ⟨a, u, rfl, h⟩
  | error e u =>
    rw [bind_error hm] at h
    cases h

/-- The result of an action is unique. -/
theorem result_eq {m : EStateM ε σ α} {a b : α} {s t u : σ} (h : m s = .ok a t)
    (h' : m s = .ok b u) : a = b ∧ t = u := by
  rw [h] at h'
  injection h' with ha ht
  exact ⟨ha, ht⟩

@[simp] theorem pure_run (a : α) (s : σ) : (pure a : EStateM ε σ α) s = .ok a s := rfl

@[simp] theorem get_bind (k : σ → EStateM ε σ β) (s : σ) :
    ((get : EStateM ε σ σ) >>= k) s = k s s := rfl

@[simp] theorem modify_run (f : σ → σ) (s : σ) :
    (modify f : EStateM ε σ PUnit) s = .ok ⟨⟩ (f s) := rfl

end Wdutf.Action
