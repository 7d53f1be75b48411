import Mathlib.Data.List.Basic
import Mathlib.Logic.Function.Basic
import Wdutf.Lib.Threads

/-!
# Wdutf.Dpc.Model — deferred procedure calls, `src/dpc.cpp`

Threads call `KeInsertQueueDpc`, `KeRemoveQueueDpc` and `KeFlushQueuedDpcs`, and
the threads of the pool run `DdkDpcCallback`, one atomic step at a time: a lock
operation, a read or write of a member, an interlocked operation, a call of the
thread pool. A routine that calls back into these functions is another thread
of the model: the callback holds no lock while its routine runs.

The thread pool of a work object is a list of submissions that have not started
and a list of the threads that run a callback and are still associated with it. A cancelling
wait takes the pending submissions away, and returns when no started callback
is associated any more.

Every submission carries the number of its insertion. `accepted`, `done` and
`history` record what happened; no step reads them. The two 64-bit totals do
not wrap.
-/

namespace Wdutf.Dpc

open Wdutf.Threads Wdutf.Transition

variable {D T A : Type}

/-- `KDPC`, with the thread pool's view of its work object. -/
structure Kdpc (T A : Type) where
  lock : Option T
  queued : Bool
  cancel : Bool
  systemArgument1 : A
  systemArgument2 : A
  pending : List ℕ
  associated : List T

/-- What an observer sees. The number is that of the insertion; a removal names the
submissions that it cancelled. -/
inductive Event (D A : Type) where
  /-- `KeInsertQueueDpc` returned TRUE. -/
  | inserted (d : D) (k : ℕ)
  /-- The `DeferredRoutine` was called with these arguments. -/
  | run (d : D) (k : ℕ) (a₁ a₂ : A)
  /-- The `DeferredRoutine` returned. -/
  | finished (d : D) (k : ℕ)
  /-- `KeRemoveQueueDpc` found the DPC queued and took it out. -/
  | dequeued (d : D) (cancelled : List ℕ)
  /-- `KeRemoveQueueDpc` returned TRUE. -/
  | removed (d : D) (cancelled : List ℕ)
deriving DecidableEq

/-- The shared data. `accepted` lists the insertions in the order in which they
were counted in `DpcsQueued`, with their arguments; `done` lists those that
were counted in `DpcsCompleted`. -/
structure Shared (D T A : Type) where
  dpc : D → Kdpc T A
  dpcsQueued : ℕ
  dpcsCompleted : ℕ
  accepted : List (D × A × A)
  done : List ℕ
  history : List (Event D A)

/-- Where a thread stands: the step that it takes next. -/
inductive Pc (D A : Type) where
  | idle
  | insertEnter (d : D) (a₁ a₂ : A)
  | insertTestQueued (d : D) (a₁ a₂ : A)
  | insertTestCancel (d : D) (a₁ a₂ : A)
  | insertArgument1 (d : D) (a₁ a₂ : A)
  | insertArgument2 (d : D) (a₁ a₂ : A)
  | insertQueued (d : D) (a₁ a₂ : A)
  | insertCount (d : D) (a₁ a₂ : A)
  | insertSubmit (d : D) (k : ℕ)
  | insertLeave (d : D) (k : ℕ)
  | removeEnter (d : D)
  | removeTestQueued (d : D)
  | removeTestCancel (d : D)
  | removeSetCancel (d : D)
  | removeLeave (d : D)
  | removeCancelWork (d : D)
  | removeWaitWork (d : D) (cancelled : List ℕ)
  | removeExchange (d : D) (cancelled : List ℕ)
  | removeCount (d : D) (cancelled : List ℕ)
  | removeClearCancel (d : D) (rc : Bool) (cancelled : List ℕ)
  /-- Leave the lock and return FALSE. -/
  | refuse (d : D)
  | callbackExchange (d : D) (k : ℕ)
  | callbackDisassociate (d : D) (k : ℕ)
  | callbackArgument1 (d : D) (k : ℕ)
  | callbackArgument2 (d : D) (k : ℕ) (a₁ : A)
  | callbackRoutine (d : D) (k : ℕ)
  | callbackCount (d : D) (k : ℕ)
  /-- A flush began; `before` lists the insertions that had returned TRUE. -/
  | flushRead (before : List ℕ)
  | flushWait (before : List ℕ) (queued : ℕ)

/-- The insertions that have returned TRUE. -/
def returnedTrue : List (Event D A) → List ℕ
  | [] => []
  | .inserted _ k :: history => k :: returnedTrue history
  | _ :: history => returnedTrue history

variable [DecidableEq D] [DecidableEq T]

/-- The shared data with one DPC changed. -/
def Shared.set (s : Shared D T A) (d : D) (x : Kdpc T A) : Shared D T A :=
  { s with dpc := Function.update s.dpc d x }

/-- The shared data with an event recorded. -/
def Shared.record (s : Shared D T A) (e : Event D A) : Shared D T A :=
  { s with history := e :: s.history }

/-- The atomic steps of a thread. -/
inductive Act (t : T) : Shared D T A → Pc D A → Shared D T A → Pc D A → Prop
  -- `KeInsertQueueDpc`
  | insertCall {s} (d : D) (a₁ a₂ : A) : Act t s .idle s (.insertEnter d a₁ a₂)
  | insertEnter {s d a₁ a₂} : (s.dpc d).lock = none →
      Act t s (.insertEnter d a₁ a₂) (s.set d { s.dpc d with lock := some t })
        (.insertTestQueued d a₁ a₂)
  | insertQueuedSet {s d a₁ a₂} : (s.dpc d).queued = true →
      Act t s (.insertTestQueued d a₁ a₂) s (.refuse d)
  | insertQueuedClear {s d a₁ a₂} : (s.dpc d).queued = false →
      Act t s (.insertTestQueued d a₁ a₂) s (.insertTestCancel d a₁ a₂)
  | insertCancelSet {s d a₁ a₂} : (s.dpc d).cancel = true →
      Act t s (.insertTestCancel d a₁ a₂) s (.refuse d)
  | insertCancelClear {s d a₁ a₂} : (s.dpc d).cancel = false →
      Act t s (.insertTestCancel d a₁ a₂) s (.insertArgument1 d a₁ a₂)
  | insertArgument1 {s d a₁ a₂} :
      Act t s (.insertArgument1 d a₁ a₂) (s.set d { s.dpc d with systemArgument1 := a₁ })
        (.insertArgument2 d a₁ a₂)
  | insertArgument2 {s d a₁ a₂} :
      Act t s (.insertArgument2 d a₁ a₂) (s.set d { s.dpc d with systemArgument2 := a₂ })
        (.insertQueued d a₁ a₂)
  | insertQueued {s d a₁ a₂} :
      Act t s (.insertQueued d a₁ a₂) (s.set d { s.dpc d with queued := true })
        (.insertCount d a₁ a₂)
  | insertCount {s d a₁ a₂} :
      Act t s (.insertCount d a₁ a₂)
        { s with dpcsQueued := s.dpcsQueued + 1, accepted := s.accepted ++ [(d, a₁, a₂)] }
        (.insertSubmit d s.dpcsQueued)
  | insertSubmit {s d k} :
      Act t s (.insertSubmit d k) (s.set d { s.dpc d with pending := (s.dpc d).pending ++ [k] })
        (.insertLeave d k)
  | insertLeave {s d k} :
      Act t s (.insertLeave d k)
        ((s.set d { s.dpc d with lock := none }).record (.inserted d k)) .idle
  | refuse {s d} : Act t s (.refuse d) (s.set d { s.dpc d with lock := none }) .idle
  -- `KeRemoveQueueDpc`
  | removeCall {s} (d : D) : Act t s .idle s (.removeEnter d)
  | removeEnter {s d} : (s.dpc d).lock = none →
      Act t s (.removeEnter d) (s.set d { s.dpc d with lock := some t }) (.removeTestQueued d)
  | removeQueuedClear {s d} : (s.dpc d).queued = false →
      Act t s (.removeTestQueued d) s (.refuse d)
  | removeQueuedSet {s d} : (s.dpc d).queued = true →
      Act t s (.removeTestQueued d) s (.removeTestCancel d)
  | removeCancelSet {s d} : (s.dpc d).cancel = true →
      Act t s (.removeTestCancel d) s (.refuse d)
  | removeCancelClear {s d} : (s.dpc d).cancel = false →
      Act t s (.removeTestCancel d) s (.removeSetCancel d)
  | removeSetCancel {s d} :
      Act t s (.removeSetCancel d) (s.set d { s.dpc d with cancel := true }) (.removeLeave d)
  | removeLeave {s d} :
      Act t s (.removeLeave d) (s.set d { s.dpc d with lock := none }) (.removeCancelWork d)
  | removeCancelWork {s d} :
      Act t s (.removeCancelWork d) (s.set d { s.dpc d with pending := [] })
        (.removeWaitWork d (s.dpc d).pending)
  | removeWaitWork {s d c} : (s.dpc d).associated = [] →
      Act t s (.removeWaitWork d c) s (.removeExchange d c)
  | removeExchangeSet {s d c} : (s.dpc d).queued = true →
      Act t s (.removeExchange d c)
        ((s.set d { s.dpc d with queued := false }).record (.dequeued d c)) (.removeCount d c)
  | removeExchangeClear {s d c} : (s.dpc d).queued = false →
      Act t s (.removeExchange d c) (s.set d { s.dpc d with queued := false })
        (.removeClearCancel d false c)
  | removeCount {s d c} :
      Act t s (.removeCount d c)
        { s with dpcsCompleted := s.dpcsCompleted + 1, done := c ++ s.done }
        (.removeClearCancel d true c)
  | removeReturnTrue {s d c} :
      Act t s (.removeClearCancel d true c)
        ((s.set d { s.dpc d with cancel := false }).record (.removed d c)) .idle
  | removeReturnFalse {s d c} :
      Act t s (.removeClearCancel d false c) (s.set d { s.dpc d with cancel := false }) .idle
  -- `DdkDpcCallback`, on an idle thread of the pool
  | callbackStart {s} (d : D) (k : ℕ) : k ∈ (s.dpc d).pending →
      Act t s .idle
        (s.set d { s.dpc d with
          pending := (s.dpc d).pending.erase k, associated := t :: (s.dpc d).associated })
        (.callbackExchange d k)
  | callbackExchange {s d k} :
      Act t s (.callbackExchange d k) (s.set d { s.dpc d with queued := false })
        (.callbackDisassociate d k)
  | callbackDisassociate {s d k} :
      Act t s (.callbackDisassociate d k)
        (s.set d { s.dpc d with associated := (s.dpc d).associated.erase t })
        (.callbackArgument1 d k)
  | callbackArgument1 {s d k} :
      Act t s (.callbackArgument1 d k) s (.callbackArgument2 d k (s.dpc d).systemArgument1)
  | callbackArgument2 {s d k a₁} :
      Act t s (.callbackArgument2 d k a₁) (s.record (.run d k a₁ (s.dpc d).systemArgument2))
        (.callbackRoutine d k)
  | callbackRoutine {s d k} :
      Act t s (.callbackRoutine d k) (s.record (.finished d k)) (.callbackCount d k)
  | callbackCount {s d k} :
      Act t s (.callbackCount d k)
        { s with dpcsCompleted := s.dpcsCompleted + 1, done := k :: s.done } .idle
  -- `KeFlushQueuedDpcs`
  | flushCall {s} : Act t s .idle s (.flushRead (returnedTrue s.history))
  | flushRead {s before} : Act t s (.flushRead before) s (.flushWait before s.dpcsQueued)
  | flushWait {s before n} : n ≤ s.dpcsCompleted → Act t s (.flushWait before n) s .idle

/-- `KeInitializeDpc` has been called for all DPCs, and nothing else. -/
def Init (c : Conf (Shared D T A) T (Pc D A)) : Prop :=
  (∀ t, c.pc t = .idle) ∧ c.shared.dpcsQueued = 0 ∧ c.shared.dpcsCompleted = 0 ∧
  c.shared.accepted = [] ∧ c.shared.done = [] ∧ c.shared.history = [] ∧
  ∀ d, (c.shared.dpc d).lock = none ∧ (c.shared.dpc d).queued = false ∧
    (c.shared.dpc d).cancel = false ∧ (c.shared.dpc d).pending = [] ∧
    (c.shared.dpc d).associated = []

/-- A run, by the threads that take its steps. -/
abbrev Run : List T → Conf (Shared D T A) T (Pc D A) → Prop := Trace Init (Step Act)

end Wdutf.Dpc
