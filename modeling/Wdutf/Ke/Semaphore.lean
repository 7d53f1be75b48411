import Mathlib.Algebra.BigOperators.Fin
import Mathlib.Data.List.Count
import Mathlib.Data.List.Basic
import Mathlib.Logic.Function.Basic
import Mathlib.Tactic.Common
import Wdutf.Ke.Dispatch

/-!
# Wdutf.Ke.Semaphore — the count of a semaphore, `src/semaphore.cpp`

`count` is what the count of the Win32 semaphore will be when the calls in progress
have done their part: a wait has taken from the Win32 semaphore before it takes
from `count`, a release adds to `count` before it adds to the Win32 semaphore.

* `pending` — what a call in progress has still to do;
* `Balanced` — `count` differs from the Win32 count by what is pending;
* `count_of_clean` — the two are equal when no call is in progress, as long as
  every release succeeds and no wait for all ends with an abandoned mutex;
* `count_after_raise` — a release that raises leaves `count` too high.
-/

namespace Wdutf.Ke

open Wdutf.Threads Wdutf.Transition

variable {P T : Type}

/-- `KeInitializeSemaphore`. -/
def keInitializeSemaphore (count limit : ℤ) : Semaphore := ⟨count, limit, count⟩

/-- The arguments that `CreateSemaphore` accepts; `limit` is a `LONG`. -/
def CreateSemaphoreAccepts (count limit : ℤ) : Prop :=
  0 ≤ count ∧ count ≤ limit ∧ 0 < limit ∧ limit < 2 ^ 31

/-- `KeReadStateSemaphore`. -/
def keReadStateSemaphore (s : Semaphore) : ℤ := if s.count ≠ 0 then 1 else 0

section Pending

variable [DecidableEq P]

/-- How much a call has still to take from `count` of the semaphore at `p`, or to add to
its Win32 count. -/
def pending (p : P) : Pc P → ℤ
  | .update rest _ => rest.count p
  | .updateThread _ rest _ => rest.count p
  | .updateCount _ rest _ => rest.count p
  | .updateRead _ rest _ => rest.count p
  | .updateWrite _ rest _ _ => rest.count p
  | .semaphoreRelease q adjustment => if q = p then adjustment else 0
  | _ => 0

/-- The value of `count` is that of the Win32 count and all that is pending. -/
def Balanced [Fintype T] (p : P) (limit : ℤ) (c : Conf (Objects P T) T (Pc P)) : Prop :=
  ∃ s, c.shared p = some (.semaphore s) ∧ s.limit = limit ∧ 0 ≤ s.win32 ∧ s.win32 ≤ limit ∧
    s.count = wrap (s.win32 + ∑ t, pending p (c.pc t))

/-- The steps at which the copy stays right: `ReleaseSemaphore` accepts the adjustment,
or it is 0, and a wait for all that can be satisfied and has an abandoned mutex
among its objects does not have the semaphore. -/
def KeepsCount [DecidableEq T] (p : P) (c : Conf (Objects P T) T (Pc P)) (t : T) : Prop :=
  (∀ adjustment s, c.pc t = .semaphoreRelease p adjustment → c.shared p = some (.semaphore s) →
    adjustment = 0 ∨ 0 < adjustment ∧ s.win32 + adjustment ≤ s.limit) ∧
  (∀ objects, c.pc t = .wait objects true → Acquirable t c.shared objects →
    (∃ q ∈ objects, abandonedAt c.shared (some q) = true) → p ∉ objects)

end Pending

/-! ## Steps -/

section Steps

variable [DecidableEq P] [DecidableEq T]
variable {p : P} {t : T} {o o' : Objects P T} {l l' : Pc P} {s : Semaphore}

/-- What a step does to the semaphore at `p`: the change of `count` is that of the Win32
count and of what the thread has pending. -/
def Shifts (p : P) (s : Semaphore) (l : Pc P) (o' : Objects P T) (l' : Pc P) : Prop :=
  ∃ s' a, o' p = some (.semaphore s') ∧ s'.limit = s.limit ∧ 0 ≤ s'.win32 ∧ s'.win32 ≤ s.limit ∧
    s'.win32 + pending p l' = s.win32 + pending p l + a ∧
    (a = 0 ∧ s'.count = s.count ∨ s'.count = wrap (s.count + a))

omit [DecidableEq T] in
/-- A step that leaves the semaphore alone and has as much pending as before. -/
theorem shifts_same (hs : o p = some (.semaphore s)) (h₀ : 0 ≤ s.win32) (h₁ : s.win32 ≤ s.limit)
    (ho : o' p = o p) (hpending : pending p l' = pending p l) : Shifts p s l o' l' := by
  refine ⟨s, 0, ho.trans hs, rfl, h₀, h₁, ?_, Or.inl ⟨rfl, rfl⟩⟩
  rw [hpending, Int.add_zero]

omit [DecidableEq T] in
/-- A step that changes another object. -/
theorem shifts_other {q : P} {d : Dispatch T} (hs : o p = some (.semaphore s)) (h₀ : 0 ≤ s.win32)
    (h₁ : s.win32 ≤ s.limit) (hpq : p ≠ q) (hpending : pending p l' = pending p l) :
    Shifts p s l (o.set q d) l' :=
  shifts_same hs h₀ h₁ (set_of_ne o d hpq) hpending

omit [DecidableEq P] [DecidableEq T] in
/-- An object that is no semaphore is another one. -/
theorem ne_of_not_semaphore {q : P} {d : Dispatch T} (hs : o p = some (.semaphore s))
    (hq : o q = some d) (hd : ∀ s, d ≠ .semaphore s) : p ≠ q := by
  rintro rfl
  rw [hs] at hq
  exact hd s (Option.some.inj hq).symm

omit [DecidableEq P] [DecidableEq T] in
theorem ne_of_mutex {q : P} {m : Mutex T} (hs : o p = some (.semaphore s))
    (hq : o q = some (.mutex m)) : p ≠ q :=
  ne_of_not_semaphore hs hq fun _ h => by cases h

omit [DecidableEq T] in
theorem pending_update_cons {q : P} {rest : List P} (status : ℕ) (h : p ≠ q) :
    pending p (.update rest status) = pending p (.update (q :: rest) status) := by
  simp only [pending, List.count_cons_of_ne (Ne.symm h)]

omit [DecidableEq T] in
/-- After a Win32 wait that `WaitStatus` does not take for a success. -/
theorem pending_afterWait_none {objects : List P} {all : Bool} {rc : ℕ}
    (h : maximumWaitObjects ≤ rc) : pending p (afterWait objects all rc) = 0 := by
  simp only [afterWait, pending, waitStatus_none h, List.count_nil, Nat.cast_zero]

omit [DecidableEq T] in
/-- The objects left to be updated after a satisfied wait for any. -/
theorem pending_afterWait_any {nullevent : Bool} {objects : List P} {i : ℕ} {q : P} {d : Dispatch T}
    (hmax : (waitHandles nullevent objects).length ≤ maximumWaitObjects)
    (hhandle : (waitHandles nullevent objects)[i]? = some (some q)) (hd : d.abandoned = false) :
    pending p (afterWait objects false (if d.abandoned then waitAbandoned0 + i else i)) =
      if q = p then 1 else 0 := by
  rcases List.getElem?_eq_some_iff.1 hhandle with ⟨hi, -⟩
  have hlt : i < maximumWaitObjects := Nat.lt_of_lt_of_le hi hmax
  rw [hd, if_neg (by decide), afterWait, waitStatus_object false hlt, getElem?_of_handle hhandle]
  simp [pending, List.count_singleton]

/-- A step of a thread that keeps the copy of the count right. -/
theorem shifts_of_act {nullevent : Bool} {MayExit : T → Objects P T → Prop}
    (hact : Act nullevent MayExit t o l o' l') (hs : o p = some (.semaphore s))
    (h₀ : 0 ≤ s.win32) (h₁ : s.win32 ≤ s.limit)
    (hrelease : ∀ adjustment, l = .semaphoreRelease p adjustment →
      adjustment = 0 ∨ 0 < adjustment ∧ s.win32 + adjustment ≤ s.limit)
    (hwait : ∀ objects, l = .wait objects true → Acquirable t o objects →
      (∃ q ∈ objects, abandonedAt o (some q) = true) → p ∉ objects) :
    Shifts p s l o' l' := by
  cases hact with
  | waitCall objects waitAll waitBlockArray hcount hvalid => exact shifts_same hs h₀ h₁ rfl rfl
  | @waitAny objects i q d hmax hhandle hd hacquirable =>
    by_cases hpq : p = q
    · subst hpq
      rw [hs] at hd
      cases hd
      have hpos : 0 < s.win32 := by
        simpa [Dispatch.acquirable, Dispatch.signalled] using hacquirable
      refine ⟨{ s with win32 := s.win32 - 1 }, 0,
        acquireAll_of_mem t (List.mem_singleton.2 rfl) hs, rfl, by dsimp only; omega,
        by dsimp only; omega, ?_, Or.inl ⟨rfl, rfl⟩⟩
      rw [pending_afterWait_any hmax hhandle rfl, if_pos rfl]
      simp [pending]
    · refine shifts_same hs h₀ h₁ (acquireAll_of_not_mem t (by simpa using hpq)) ?_
      cases habandoned : d.abandoned with
      | true =>
        rw [if_pos rfl]
        exact pending_afterWait_none (Nat.le_trans (by decide) (Nat.le_add_right waitAbandoned0 i))
      | false =>
        have hany := pending_afterWait_any (p := p) hmax hhandle habandoned
        rw [habandoned, if_neg (Ne.symm hpq)] at hany
        exact hany
  | @waitAll objects ps i hmax hhandles hnodup hacquirable hi habandoned =>
    have hobjects := objects_of_handles hhandles
    subst hobjects
    have hlt : i < maximumWaitObjects := Nat.lt_of_lt_of_le hi hmax
    by_cases hp : p ∈ objects
    · -- no abandoned mutex, so `WaitStatus` takes the wait for a success
      have hnone : abandonedAt o objects[i]? = false := by
        cases hi' : abandonedAt o objects[i]? with
        | false => rfl
        | true =>
          rw [List.getElem?_eq_getElem hi] at hi'
          exact absurd hp (hwait objects rfl hacquirable ⟨_, List.getElem_mem hi, hi'⟩)
      have hpos : 0 < s.win32 := by
        rcases hacquirable p hp with ⟨d, hd, hacq⟩
        rw [hs] at hd
        cases hd
        simpa [Dispatch.acquirable, Dispatch.signalled] using hacq
      refine ⟨{ s with win32 := s.win32 - 1 }, 0, acquireAll_of_mem t hp hs, rfl,
        by dsimp only; omega, by dsimp only; omega, ?_, Or.inl ⟨rfl, rfl⟩⟩
      rw [hnone, if_neg (by decide), afterWait, waitStatus_object true hlt]
      simp [pending, List.count_eq_one_of_mem hnodup hp]
    · refine shifts_same hs h₀ h₁ (acquireAll_of_not_mem t hp) ?_
      cases abandonedAt o objects[i]? with
      | true =>
        rw [if_pos rfl]
        exact pending_afterWait_none (Nat.le_trans (by decide) (Nat.le_add_right waitAbandoned0 i))
      | false =>
        rw [if_neg (by decide), afterWait, waitStatus_object true hlt]
        simp [pending, List.count_eq_zero_of_not_mem hp]
  | waitNone hrc =>
    refine shifts_same hs h₀ h₁ rfl (pending_afterWait_none ?_)
    simp only [List.mem_cons, List.not_mem_nil, or_false] at hrc
    rcases hrc with rfl | rfl | rfl <;> decide
  | @updateSemaphore q rest status s₂ hq =>
    by_cases hpq : p = q
    · subst hpq
      rw [hs] at hq
      cases hq
      refine ⟨ddkUpdateSemaphore s, -1, set_self .., rfl, h₀, h₁, ?_, Or.inr rfl⟩
      simp only [ddkUpdateSemaphore, pending, List.count_cons_self, Nat.cast_add, Nat.cast_one]
      omega
    · exact shifts_other hs h₀ h₁ hpq (pending_update_cons _ hpq)
  | updateOther hq hsemaphore hmutex =>
    exact shifts_same hs h₀ h₁ rfl (pending_update_cons _ (ne_of_not_semaphore hs hq hsemaphore))
  | updateDone => exact shifts_same hs h₀ h₁ rfl rfl
  | updateNew hq hthread =>
    exact shifts_same hs h₀ h₁ rfl (pending_update_cons _ (ne_of_mutex hs hq))
  | updateOwn hq hthread =>
    exact shifts_same hs h₀ h₁ rfl (pending_update_cons _ (ne_of_mutex hs hq))
  | updateThread hq => exact shifts_other hs h₀ h₁ (ne_of_mutex hs hq) rfl
  | updateCount hq => exact shifts_other hs h₀ h₁ (ne_of_mutex hs hq) rfl
  | updateRead hq => exact shifts_same hs h₀ h₁ rfl rfl
  | updateWrite hq => exact shifts_other hs h₀ h₁ (ne_of_mutex hs hq) rfl
  | semaphoreCall adjustment hq => exact shifts_same hs h₀ h₁ rfl rfl
  | @semaphoreAdd q s₂ adjustment hq =>
    by_cases hpq : p = q
    · subst hpq
      rw [hs] at hq
      cases hq
      refine ⟨{ s with count := wrap (s.count + adjustment) }, adjustment, set_self .., rfl, h₀, h₁,
        ?_, Or.inr rfl⟩
      simp [pending]
    · exact shifts_other hs h₀ h₁ hpq (by simp [pending, Ne.symm hpq])
  | @semaphoreReleased q s₂ adjustment hq hfits =>
    by_cases hpq : p = q
    · subst hpq
      rw [hs] at hq
      cases hq
      refine ⟨{ s with win32 := s.win32 + adjustment }, 0, set_self .., rfl, by dsimp only; omega,
        hfits.2, ?_, Or.inl ⟨rfl, rfl⟩⟩
      simp [pending]
    · exact shifts_other hs h₀ h₁ hpq (by simp [pending, Ne.symm hpq])
  | @semaphoreRaised q s₂ adjustment hq hfits =>
    refine shifts_same hs h₀ h₁ rfl ?_
    by_cases hpq : p = q
    · subst hpq
      rw [hs] at hq
      cases hq
      rcases hrelease adjustment rfl with rfl | hfits'
      · simp [pending]
      · exact absurd hfits' hfits
    · simp [pending, Ne.symm hpq]
  | mutexCall hq => exact shifts_same hs h₀ h₁ rfl rfl
  | mutexTestOther hq hthread => exact shifts_same hs h₀ h₁ rfl rfl
  | mutexTestOwn hq hthread => exact shifts_same hs h₀ h₁ rfl rfl
  | mutexRead hq => exact shifts_same hs h₀ h₁ rfl rfl
  | mutexWrite hq =>
    refine shifts_other hs h₀ h₁ (ne_of_mutex hs hq) ?_
    split <;> rfl
  | mutexClear hq => exact shifts_other hs h₀ h₁ (ne_of_mutex hs hq) rfl
  | mutexReleased hq howner => exact shifts_other hs h₀ h₁ (ne_of_mutex hs hq) rfl
  | mutexRefused hq howner => exact shifts_same hs h₀ h₁ rfl rfl
  | ret => exact shifts_same hs h₀ h₁ rfl rfl
  | @signal q d d' hq hflips =>
    refine shifts_other hs h₀ h₁ (ne_of_not_semaphore hs hq ?_) rfl
    rintro s₂ rfl
    exact hflips.elim
  | exit hexit =>
    refine shifts_same hs h₀ h₁ ?_ rfl
    rw [abandonAll, hs]
    rfl

end Steps

/-! ## Runs -/

section Runs

variable [DecidableEq P] [DecidableEq T] [Fintype T]
variable {p : P} {count limit : ℤ} {nullevent : Bool} {c c' : Conf (Objects P T) T (Pc P)}

/-- The semaphore has just been initialized; nothing is known of the other objects. -/
def InitSemaphore (p : P) (count limit : ℤ) (c : Conf (Objects P T) T (Pc P)) : Prop :=
  (∀ t, c.pc t = .idle) ∧ c.shared p = some (.semaphore (keInitializeSemaphore count limit))

/-- What the threads have pending after a step of one of them. -/
theorem sum_pending_update (pc : T → Pc P) (t : T) (l : Pc P) :
    ∑ u, pending p (Function.update pc t l u) + pending p (pc t) =
      ∑ u, pending p (pc u) + pending p l := by
  have hnew := Finset.add_sum_erase Finset.univ (fun u => pending p (Function.update pc t l u))
    (Finset.mem_univ t)
  have hold := Finset.add_sum_erase Finset.univ (fun u => pending p (pc u)) (Finset.mem_univ t)
  have hrest : ∑ u ∈ Finset.univ.erase t, pending p (Function.update pc t l u) =
      ∑ u ∈ Finset.univ.erase t, pending p (pc u) := by
    refine Finset.sum_congr rfl ?_
    intro u hu
    rw [Function.update_of_ne (Finset.ne_of_mem_erase hu)]
  simp only [Function.update_self] at hnew
  omega

omit [DecidableEq T] in
theorem balanced_init (haccept : CreateSemaphoreAccepts count limit)
    (h : InitSemaphore p count limit c) : Balanced p limit c := by
  rcases h with ⟨hidle, hs⟩
  rcases haccept with ⟨h₀, h₁, -, hmax⟩
  refine ⟨_, hs, rfl, h₀, h₁, ?_⟩
  have hsum : ∑ t, pending p (c.pc t) = 0 :=
    Finset.sum_eq_zero fun t _ => by rw [hidle t]; rfl
  rw [hsum, Int.add_zero]
  exact (wrap_of_range h₀ (by omega)).symm

theorem balanced_step {t : T} (h : Balanced p limit c) (hkeeps : KeepsCount p c t)
    (hstep : Step (Act nullevent fun _ _ => True) c t c') : Balanced p limit c' := by
  rcases h with ⟨s, hs, hlimit, h₀, h₁, hcount⟩
  rcases hstep with ⟨o', l', hact, rfl⟩
  rcases shifts_of_act hact hs h₀ (by rw [hlimit]; exact h₁)
    (fun adjustment hl => hkeeps.1 adjustment s hl hs) hkeeps.2
    with ⟨s', a, hs', hlimit', h₀', h₁', hshift, hcount'⟩
  refine ⟨s', hs', hlimit'.trans hlimit, h₀', by rw [← hlimit]; exact h₁', ?_⟩
  have hsum := sum_pending_update (p := p) c.pc t l'
  have htotal : s'.win32 + ∑ u, pending p (Function.update c.pc t l' u) =
      s.win32 + ∑ u, pending p (c.pc u) + a := by omega
  rw [htotal]
  rcases hcount' with ⟨rfl, hcount'⟩ | hcount'
  · rw [hcount', hcount, Int.add_zero]
  · rw [hcount', hcount, wrap_wrap_add]

/-- In a run whose steps keep the count right, `count` is the count of the Win32
semaphore whenever no call is in progress, so that `KeReadStateSemaphore` tells
whether a wait would succeed. -/
theorem count_of_clean (haccept : CreateSemaphoreAccepts count limit) {ts : List T}
    (h : Trace (InitSemaphore p count limit)
      (fun c t c' => Step (Act nullevent fun _ _ => True) c t c' ∧ KeepsCount p c t) ts c)
    (hquiet : ∀ t, c.pc t = .idle) :
    ∃ s, c.shared p = some (.semaphore s) ∧ s.count = s.win32 ∧ 0 ≤ s.count ∧ s.count ≤ limit ∧
      ∀ t, keReadStateSemaphore s ≠ 0 ↔ signalledAt t c.shared (some p) = true := by
  have hbalanced : Balanced p limit c := by
    refine Trace.invariant ?_ ?_ h
    · intro c hc
      exact balanced_init haccept hc
    · rintro c t c' hc ⟨hstep, hkeeps⟩
      exact balanced_step hc hkeeps hstep
  rcases hbalanced with ⟨s, hs, -, h₀, h₁, hcount⟩
  have hsum : ∑ t, pending p (c.pc t) = 0 :=
    Finset.sum_eq_zero fun t _ => by rw [hquiet t]; rfl
  have hequal : s.count = s.win32 := by
    rw [hcount, hsum, Int.add_zero]
    exact wrap_of_range h₀ (Int.lt_of_le_of_lt h₁ haccept.2.2.2)
  refine ⟨s, hs, hequal, by omega, by omega, ?_⟩
  intro t
  have hsignalled : signalledAt t c.shared (some p) = decide (0 < s.win32) := by
    simp [signalledAt, hs, Dispatch.signalled]
  rw [hsignalled, keReadStateSemaphore, hequal, decide_eq_true_eq]
  split <;> omega

end Runs

/-- A semaphore with count 0 and limit 2 that one thread of two releases by 1. -/
theorem count_of_clean_released : ∃ (ts : List Bool)
    (c : Conf (Objects Unit Bool) Bool (Pc Unit)),
    CreateSemaphoreAccepts 0 2 ∧
    Trace (InitSemaphore () 0 2)
      (fun c t c' => Step (Act true fun _ _ => True) c t c' ∧ KeepsCount () c t) ts c ∧
    (∀ t, c.pc t = .idle) ∧ c.shared () = some (.semaphore ⟨1, 2, 1⟩) ∧
    ∃ s, c.shared () = some (.semaphore s) ∧ s.count = s.win32 ∧ 0 ≤ s.count ∧ s.count ≤ 2 ∧
      ∀ t, keReadStateSemaphore s ≠ 0 ↔ signalledAt t c.shared (some ()) = true := by
  have haccept : CreateSemaphoreAccepts 0 2 := ⟨by decide, by decide, by decide, by decide⟩
  let start : Conf (Objects Unit Bool) Bool (Pc Unit) :=
    ⟨fun _ => some (.semaphore (keInitializeSemaphore 0 2)), fun _ => .idle⟩
  have h : Trace (InitSemaphore () 0 2)
      (fun c t c' => Step (Act true fun _ _ => True) c t c' ∧ KeepsCount () c t) [] start :=
    Trace.start ⟨fun _ => rfl, rfl⟩
  have h := run_step_with h true (Act.semaphoreCall (p := ()) 1 rfl)
    ⟨fun _ _ hpc => (nomatch hpc), fun _ hpc => (nomatch hpc)⟩
  have h := run_step_with h true (Act.semaphoreAdd rfl)
    ⟨fun _ _ hpc => (nomatch hpc), fun _ hpc => (nomatch hpc)⟩
  have h := run_step_with h true (Act.semaphoreReleased rfl ⟨by decide, by decide⟩) (by
    refine ⟨?_, fun _ hpc => (nomatch hpc)⟩
    intro adjustment s hpc hs
    cases hpc
    cases hs
    exact Or.inr ⟨by decide, by decide⟩)
  have h := run_step_with h true Act.ret
    ⟨fun _ _ hpc => (nomatch hpc), fun _ hpc => (nomatch hpc)⟩
  exact ⟨_, _, haccept, h, by rintro (_ | _) <;> rfl, rfl,
    count_of_clean haccept h (by rintro (_ | _) <;> rfl)⟩

/-- A release of a semaphore that is at its limit raises, and `count` stays one above
the count of the Win32 semaphore. -/
theorem count_after_raise : ∃ (ts : List Unit) (c : Conf (Objects Unit Unit) Unit (Pc Unit)),
    CreateSemaphoreAccepts 1 1 ∧
    Trace (InitSemaphore () 1 1) (Step (Act true fun _ _ => True)) ts c ∧
    (∀ t, c.pc t = .idle) ∧ c.shared () = some (.semaphore ⟨1, 1, 2⟩) := by
  let start : Conf (Objects Unit Unit) Unit (Pc Unit) :=
    ⟨fun _ => some (.semaphore (keInitializeSemaphore 1 1)), fun _ => .idle⟩
  have h : Trace (InitSemaphore () 1 1) (Step (Act true fun _ _ => True)) [] start :=
    Trace.start ⟨fun _ => rfl, rfl⟩
  have h := run_step h () (Act.semaphoreCall (p := ()) 1 rfl)
  have h := run_step h () (Act.semaphoreAdd rfl)
  have h := run_step h () (Act.semaphoreRaised rfl (by decide))
  have h := run_step h () Act.ret
  exact ⟨_, _, ⟨by decide, by decide, by decide, by decide⟩, h, fun _ => rfl, rfl⟩

end Wdutf.Ke
