import Mathlib.Data.List.Basic
import Mathlib.Logic.Function.Basic
import Mathlib.Tactic.Common
import Wdutf.Lib.Threads
import Wdutf.Ke.Wait

/-!
# Wdutf.Ke.Dispatch — waits and releases by many threads

`src/wait.cpp`, `src/semaphore.cpp` and `src/mutex.cpp`, one atomic step at a time: a
Win32 call, an interlocked operation, a read or a write of a member. A thread is
in a wait, in the loop of `WaitStatus` after it, in a release, or in none of these
routines; then it may signal or clear an event, a timer or a thread object.

A wait is satisfied at any time at which its objects are signalled, and ends
without being satisfied at any time. Win32 does not let a thread own a mutex more
than `maximumRecursion` times. A thread that exits abandons the mutexes it owns.
-/

namespace Wdutf.Ke

open Wdutf.Threads Wdutf.Transition

variable {P T : Type}

/-- What a routine returned, or that it raised an exception. -/
inductive Result where
  | status (status : ℕ)
  | long (value : ℤ)
  | raised
deriving DecidableEq, Repr

/-- Where a thread stands: the step that it takes next. -/
inductive Pc (P : Type) where
  | idle
  /-- At `WaitForMultipleObjectsEx`. -/
  | wait (objects : List P) (waitAll : Bool)
  /-- In the loop of `WaitStatus`, with the objects that it has still to update. -/
  | update (rest : List P) (status : ℕ)
  -- `DdkUpdateMutex`, called from the loop
  | updateThread (p : P) (rest : List P) (status : ℕ)
  | updateCount (p : P) (rest : List P) (status : ℕ)
  | updateRead (p : P) (rest : List P) (status : ℕ)
  | updateWrite (p : P) (rest : List P) (status : ℕ) (count : ℤ)
  -- `KeReleaseSemaphore`
  | semaphoreAdd (p : P) (adjustment : ℤ)
  | semaphoreRelease (p : P) (adjustment : ℤ)
  -- `KeReleaseMutex`
  | mutexTest (p : P)
  | mutexRead (p : P)
  | mutexWrite (p : P) (count : ℤ)
  | mutexClear (p : P)
  | mutexRelease (p : P) (rc : ℤ)
  | returned (result : Result)

/-- `MINLONG` times. -/
def maximumRecursion : ℕ := 2 ^ 31

/-- Win32 lets the object be acquired once more. -/
def Dispatch.acquirable (me : T) [DecidableEq T] : Dispatch T → Bool
  | .mutex m => decide (m.recursion < maximumRecursion) && (Dispatch.mutex m).signalled me
  | d => d.signalled me

/-- The objects of a list can be acquired. -/
def Acquirable [DecidableEq T] (me : T) (o : Objects P T) (ps : List P) : Prop :=
  ∀ p ∈ ps, ∃ d, o p = some d ∧ d.acquirable me = true

/-- The state of an event, a timer or a thread object may change. -/
def Dispatch.flips : Dispatch T → Dispatch T → Prop
  | .event notify _, .event notify' _ => notify' = notify
  | .timer notify _, .timer notify' _ => notify' = notify
  | .thread _, .thread _ => True
  | _, _ => False

section Steps

variable [DecidableEq P] [DecidableEq T]

/-- One object changed. -/
def Objects.set (o : Objects P T) (p : P) (d : Dispatch T) : Objects P T :=
  Function.update o p (some d)

/-- A mutex after thread `t` exited. -/
def Mutex.abandon (t : T) (m : Mutex T) : Mutex T :=
  if m.owner = some t then { m with owner := none, recursion := 0, abandoned := true } else m

/-- The objects after thread `t` exited. -/
def abandonAll (t : T) (o : Objects P T) : Objects P T := fun p =>
  (o p).map fun d =>
    match d with
    | .mutex m => .mutex (m.abandon t)
    | d => d

/-- `ReleaseMutex` by its owner. -/
def Mutex.release (m : Mutex T) : Mutex T :=
  { m with owner := if m.recursion = 1 then none else m.owner, recursion := m.recursion - 1 }

/-- The loop of `WaitStatus` after a Win32 wait that returned `rc`. -/
def afterWait (objects : List P) (waitAll : Bool) (rc : ℕ) : Pc P :=
  .update (waitStatus objects waitAll rc).1 (waitStatus objects waitAll rc).2

/-- The atomic steps of thread `t`. `MayExit` says when it may exit. -/
inductive Act (nullevent : Bool) (MayExit : T → Objects P T → Prop) (t : T) :
    Objects P T → Pc P → Objects P T → Pc P → Prop
  -- `KeWaitForMultipleObjects`
  | waitCall {o} (objects : List P) (waitAll waitBlockArray : Bool) :
      objects.length ≤ waitLimit waitBlockArray → (∀ p ∈ objects, o p ≠ none) →
      Act nullevent MayExit t o .idle o (.wait objects waitAll)
  | waitAny {o} {objects : List P} {i : ℕ} {p : P} {d : Dispatch T} :
      (waitHandles nullevent objects).length ≤ maximumWaitObjects →
      (waitHandles nullevent objects)[i]? = some (some p) → o p = some d → d.acquirable t = true →
      Act nullevent MayExit t o (.wait objects false) (acquireAll t o [p])
        (afterWait objects false (if d.abandoned then waitAbandoned0 + i else i))
  | waitAll {o} {objects ps : List P} {i : ℕ} :
      ps.length ≤ maximumWaitObjects →
      waitHandles nullevent objects = ps.map some → ps.Nodup → Acquirable t o ps →
      i < ps.length → ((∃ p ∈ ps, abandonedAt o (some p) = true) → abandonedAt o ps[i]? = true) →
      Act nullevent MayExit t o (.wait objects true) (acquireAll t o ps)
        (afterWait objects true (if abandonedAt o ps[i]? then waitAbandoned0 + i else i))
  | waitNone {o} {objects : List P} {waitAll : Bool} {rc : ℕ} :
      rc ∈ [waitTimeout, waitIoCompletion, waitFailed] →
      Act nullevent MayExit t o (.wait objects waitAll) o (afterWait objects waitAll rc)
  -- `WaitStatus`
  | updateSemaphore {o p rest status s} : o p = some (.semaphore s) →
      Act nullevent MayExit t o (.update (p :: rest) status)
        (o.set p (.semaphore (ddkUpdateSemaphore s))) (.update rest status)
  | updateOther {o p rest status d} : o p = some d → (∀ s, d ≠ .semaphore s) →
      (∀ m, d ≠ .mutex m) →
      Act nullevent MayExit t o (.update (p :: rest) status) o (.update rest status)
  | updateDone {o status} :
      Act nullevent MayExit t o (.update [] status) o (.returned (.status status))
  -- `DdkUpdateMutex`
  | updateNew {o p rest status m} : o p = some (.mutex m) → m.threadid ≠ some t →
      Act nullevent MayExit t o (.update (p :: rest) status) o (.updateThread p rest status)
  | updateOwn {o p rest status m} : o p = some (.mutex m) → m.threadid = some t →
      Act nullevent MayExit t o (.update (p :: rest) status) o (.updateRead p rest status)
  | updateThread {o p rest status m} : o p = some (.mutex m) →
      Act nullevent MayExit t o (.updateThread p rest status)
        (o.set p (.mutex { m with threadid := some t })) (.updateCount p rest status)
  | updateCount {o p rest status m} : o p = some (.mutex m) →
      Act nullevent MayExit t o (.updateCount p rest status)
        (o.set p (.mutex { m with count := 1 })) (.update rest status)
  | updateRead {o p rest status m} : o p = some (.mutex m) →
      Act nullevent MayExit t o (.updateRead p rest status) o (.updateWrite p rest status m.count)
  | updateWrite {o p rest status m count} : o p = some (.mutex m) →
      Act nullevent MayExit t o (.updateWrite p rest status count)
        (o.set p (.mutex { m with count := wrap (count + 1) })) (.update rest status)
  -- `KeReleaseSemaphore`
  | semaphoreCall {o p s} (adjustment : ℤ) : o p = some (.semaphore s) →
      Act nullevent MayExit t o .idle o (.semaphoreAdd p adjustment)
  | semaphoreAdd {o p s adjustment} : o p = some (.semaphore s) →
      Act nullevent MayExit t o (.semaphoreAdd p adjustment)
        (o.set p (.semaphore { s with count := wrap (s.count + adjustment) }))
        (.semaphoreRelease p adjustment)
  | semaphoreReleased {o p s adjustment} : o p = some (.semaphore s) →
      0 < adjustment ∧ s.win32 + adjustment ≤ s.limit →
      Act nullevent MayExit t o (.semaphoreRelease p adjustment)
        (o.set p (.semaphore { s with win32 := s.win32 + adjustment }))
        (.returned (.long (if s.win32 ≠ 0 then 1 else 0)))
  | semaphoreRaised {o p s adjustment} : o p = some (.semaphore s) →
      ¬ (0 < adjustment ∧ s.win32 + adjustment ≤ s.limit) →
      Act nullevent MayExit t o (.semaphoreRelease p adjustment) o (.returned .raised)
  -- `KeReleaseMutex`
  | mutexCall {o p m} : o p = some (.mutex m) → Act nullevent MayExit t o .idle o (.mutexTest p)
  | mutexTestOther {o p m} : o p = some (.mutex m) → m.threadid ≠ some t →
      Act nullevent MayExit t o (.mutexTest p) o (.mutexRelease p 1)
  | mutexTestOwn {o p m} : o p = some (.mutex m) → m.threadid = some t →
      Act nullevent MayExit t o (.mutexTest p) o (.mutexRead p)
  | mutexRead {o p m} : o p = some (.mutex m) →
      Act nullevent MayExit t o (.mutexRead p) o (.mutexWrite p m.count)
  | mutexWrite {o p m count} : o p = some (.mutex m) →
      Act nullevent MayExit t o (.mutexWrite p count)
        (o.set p (.mutex { m with count := wrap (count - 1) }))
        (if wrap (count - 1) = 0 then .mutexClear p else .mutexRelease p 1)
  | mutexClear {o p m} : o p = some (.mutex m) →
      Act nullevent MayExit t o (.mutexClear p) (o.set p (.mutex { m with threadid := none }))
        (.mutexRelease p 0)
  | mutexReleased {o p m rc} : o p = some (.mutex m) → m.owner = some t →
      Act nullevent MayExit t o (.mutexRelease p rc) (o.set p (.mutex m.release))
        (.returned (.long rc))
  | mutexRefused {o p m rc} : o p = some (.mutex m) → m.owner ≠ some t →
      Act nullevent MayExit t o (.mutexRelease p rc) o (.returned (.long 1))
  -- outside of the routines
  | ret {o result} : Act nullevent MayExit t o (.returned result) o .idle
  | signal {o p d d'} : o p = some d → d.flips d' →
      Act nullevent MayExit t o .idle (o.set p d') .idle
  | exit {o} : MayExit t o → Act nullevent MayExit t o .idle (abandonAll t o) .idle

end Steps

/-! ## What a step does to the objects -/


/-- A handle of the wait that is not the dummy handle is that of an object. -/
theorem getElem?_of_handle {nullevent : Bool} {objects : List P} {i : ℕ} {p : P}
    (h : (waitHandles nullevent objects)[i]? = some (some p)) : objects[i]? = some p := by
  rw [waitHandles, List.getElem?_append] at h
  split at h
  · rename_i hi
    rw [List.getElem?_map] at h
    rcases Option.map_eq_some_iff.1 h with ⟨q, hq, hqp⟩
    cases hqp
    exact hq
  · have hmem := List.mem_of_getElem? h
    split at hmem
    · cases List.mem_singleton.1 hmem
    · cases hmem

/-- A wait for all that can be satisfied has no dummy handle. -/
theorem objects_of_handles {nullevent : Bool} {objects ps : List P}
    (h : waitHandles nullevent objects = ps.map some) : objects = ps := by
  by_cases hhidden : objects.length = 1 ∧ nullevent = true
  · rw [waitHandles_hidden hhidden] at h
    have hmem : (none : Option P) ∈ ps.map some := by
      rw [← h]
      exact List.mem_append_right _ (List.mem_singleton.2 rfl)
    rcases List.mem_map.1 hmem with ⟨q, -, hq⟩
    cases hq
  · rw [waitHandles_plain hhidden] at h
    exact List.map_injective_iff.2 (fun _ _ => Option.some.inj) h

theorem waitStatus_none {objects : List P} {all : Bool} {rc : ℕ} (h : maximumWaitObjects ≤ rc) :
    (waitStatus objects all rc).1 = [] := by
  rw [waitStatus, if_neg (fun hlt => Nat.not_lt.2 h hlt.2)]
  split
  · rfl
  · split <;> rfl

variable [DecidableEq P]

@[simp] theorem set_self (o : Objects P T) (p : P) (d : Dispatch T) : o.set p d p = some d :=
  Function.update_self ..

theorem set_of_ne (o : Objects P T) {p q : P} (d : Dispatch T) (h : q ≠ p) :
    o.set p d q = o q := Function.update_of_ne h ..

theorem acquireAll_of_mem (t : T) {o : Objects P T} {ps : List P} {p : P} {d : Dispatch T}
    (hp : p ∈ ps) (hd : o p = some d) : acquireAll t o ps p = some (d.acquire t) := by
  simp only [acquireAll, if_pos hp, hd, Option.map_some]

theorem acquireAll_of_not_mem (t : T) {o : Objects P T} {ps : List P} {p : P} (hp : p ∉ ps) :
    acquireAll t o ps p = o p := by
  simp only [acquireAll, if_neg hp]

end Wdutf.Ke
