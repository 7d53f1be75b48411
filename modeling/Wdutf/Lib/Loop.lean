import Wdutf.Lib.Action

/-!
# Wdutf.Lib.Loop — loops that change what they iterate over

A loop of a stateful routine, given by one iteration: `none` when the condition
of the loop fails, or the loop variables for the next iteration. The loop is given
a number of turns, and fails when it needs more.

* `loop_total` — the rule of total correctness: an invariant that is indexed by a
  bound for the iterations that are left.
-/

namespace Wdutf.Loop

variable {ε σ χ : Type}

/-- At most `turns` turns of a loop with the variables `x`. -/
def loop (out : ε) (body : χ → EStateM ε σ (Option χ)) : ℕ → χ → EStateM ε σ χ
  | 0, _ => throw out
  | turns + 1, x => do
    match ← body x with
    | none => pure x
    | some x' => loop out body turns x'

/-- If every iteration keeps the invariant at a lower bound, or is the last one and
leaves the postcondition, the loop ends with the postcondition. -/
theorem loop_total {out : ε} {body : χ → EStateM ε σ (Option χ)} {Inv : ℕ → χ → σ → Prop}
    {Post : χ → σ → Prop}
    (h : ∀ n x s, Inv n x s → (body x s = .ok none s ∧ Post x s) ∨
      ∃ x' s' m, body x s = .ok (some x') s' ∧ m < n ∧ Inv m x' s')
    {turns n : ℕ} {x : χ} {s : σ} (hinv : Inv n x s) (hturns : n < turns) :
    ∃ x' s', loop out body turns x s = .ok x' s' ∧ Post x' s' := by
  induction turns generalizing n x s with
  | zero => exact absurd hturns (Nat.not_lt_zero n)
  | succ turns ih =>
    rcases h n x s hinv with ⟨hdone, hpost⟩ | ⟨x', s', m, hbody, hm, hinv'⟩
    · refine ⟨x, s, ?_, hpost⟩
      rw [loop, Action.bind_ok hdone]
      rfl
    · rcases ih hinv' (by omega) with ⟨x'', s'', hrun, hpost⟩
      refine ⟨x'', s'', ?_, hpost⟩
      rw [loop, Action.bind_ok hbody]
      exact hrun

end Wdutf.Loop
