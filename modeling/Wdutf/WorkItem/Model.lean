import Mathlib.Data.List.Basic
import Mathlib.Data.Int.Basic
import Mathlib.Logic.Function.Basic
import Wdutf.Lib.Long
import Wdutf.Lib.Threads
import Wdutf.Io.Irp

/-!
# Wdutf.WorkItem.Model — work items, `src/workitem.cpp`

Threads call `IoQueueWorkItem` and `IoQueueWorkItemEx` on one work item, and the threads of
the pool run `DdkWorkCallback`, one atomic step at a time: a read or write of a member, an
interlocked operation, a call of the thread pool. A routine that queues the item again is another
thread of the model: the callback holds nothing while its routine runs.

The item is queued only while `queued` is clear and no other call queues it: a call before
that would not wait for the callback of the previous one.

The thread pool counts the submissions whose callback has not started. The runs are numbered in the
order in which their callbacks start, the calls in the order in which they are made. `QueueType`
is left out: nothing reads it. The reference count is an integer; the `LONG` of the source does
not wrap in a run that is not too long (`refcount_noWrap`).

`calls`, `before`, `started`, `held`, `invoked` and `ended` record what happened. No step tests
them, and `caller` keeps the calls from overlapping.
-/

namespace Wdutf.WorkItem

open Wdutf.Threads Wdutf.Transition Wdutf.Long Wdutf.Io

variable {R T : Type}

/-- The function that queues the item, after which its routine is called. -/
inductive Convention where
  /-- `IoQueueWorkItem`: the routine gets the device object and the context. -/
  | plain
  /-- `IoQueueWorkItemEx`: the routine gets the object, the context and the item. -/
  | ex
deriving DecidableEq

/-- A call of one of the two functions. -/
structure Call (R : Type) where
  convention : Convention
  workerRoutine : R
  context : Pvoid
deriving DecidableEq

/-- The call of a routine by `DdkWorkCallback`; it goes through a null pointer when there is no
routine. -/
structure Invocation (R : Type) where
  convention : Convention
  routine : Option R
  ioObject : Pvoid
  context : Pvoid
deriving DecidableEq

/-- The members of `IO_WORKITEM` that `DdkWorkCallback` uses of its copy. -/
structure Copy (R : Type) where
  ioObject : Pvoid
  workerRoutine : Option R
  workerRoutineEx : Option R
  context : Pvoid
deriving DecidableEq

/-- What the object and the calls look like at one moment: its `refcount`, and the calls whose
reference it counts. -/
structure Count where
  refcount : ℤ
  held : List ℕ
deriving DecidableEq

/-- `IO_WORKITEM` with the thread pool's view of it, and the reference count of its object. -/
structure Shared (R T : Type) where
  item : Copy R
  queued : Bool
  refcount : ℤ
  /-- The object was freed. -/
  freed : Bool
  pending : ℕ
  caller : Option T
  calls : List (Call R)
  /-- The count when the call was made. -/
  before : List Count
  started : ℕ
  /-- The calls that have taken a reference which no run has released. -/
  held : List ℕ
  /-- The runs that have called a routine, with what they called. -/
  invoked : List (ℕ × Invocation R)
  /-- The runs that have ended, with the count that they left. -/
  ended : List (ℕ × Count)

/-- Where a thread stands: the step that it takes next. The number is that of the call or the
run. -/
inductive Pc (R : Type) where
  | idle
  | setRoutine (k : ℕ) (call : Call R)
  | setContext (k : ℕ) (call : Call R)
  | setQueued (k : ℕ)
  | reference (k : ℕ)
  | submit
  | copyObject (k : ℕ)
  | copyRoutine (k : ℕ) (ioObject : Pvoid)
  | copyRoutineEx (k : ℕ) (ioObject : Pvoid) (workerRoutine : Option R)
  | copyContext (k : ℕ) (ioObject : Pvoid) (workerRoutine workerRoutineEx : Option R)
  | clearQueued (k : ℕ) (w : Copy R)
  | invoke (k : ℕ) (w : Copy R)
  | routine (k : ℕ)
  | dereference (k : ℕ)

/-- The item with the routine of a call. -/
def Copy.withRoutine (item : Copy R) (call : Call R) : Copy R :=
  match call.convention with
  | .plain => { item with workerRoutine := some call.workerRoutine }
  | .ex => { item with workerRoutineEx := some call.workerRoutine }

/-- What `DdkWorkCallback` calls, with its copy of the item. -/
def Copy.invocation (w : Copy R) : Invocation R :=
  match w.workerRoutineEx with
  | some workerRoutineEx => ⟨.ex, some workerRoutineEx, w.ioObject, w.context⟩
  | none => ⟨.plain, w.workerRoutine, w.ioObject, w.context⟩

/-- The atomic steps of a thread. -/
inductive Act (t : T) : Shared R T → Pc R → Shared R T → Pc R → Prop
  -- `IoQueueWorkItem` and `IoQueueWorkItemEx`
  | call {s} (call : Call R) : s.caller = none → s.queued = false →
      Act t s .idle
        { s with caller := some t, calls := s.calls ++ [call]
                 before := s.before ++ [⟨s.refcount, s.held⟩] }
        (.setRoutine s.calls.length call)
  | setRoutine {s k call} :
      Act t s (.setRoutine k call) { s with item := s.item.withRoutine call } (.setContext k call)
  | setContext {s k call} :
      Act t s (.setContext k call) { s with item := { s.item with context := call.context } }
        (.setQueued k)
  | setQueued {s k} : Act t s (.setQueued k) { s with queued := true } (.reference k)
  | reference {s k} :
      Act t s (.reference k) { s with refcount := s.refcount + 1, held := k :: s.held } .submit
  | submit {s} : Act t s .submit { s with pending := s.pending + 1, caller := none } .idle
  -- `DdkWorkCallback`, on an idle thread of the pool
  | callbackStart {s} : 0 < s.pending →
      Act t s .idle { s with pending := s.pending - 1, started := s.started + 1 }
        (.copyObject s.started)
  | copyObject {s k} : Act t s (.copyObject k) s (.copyRoutine k s.item.ioObject)
  | copyRoutine {s k o} :
      Act t s (.copyRoutine k o) s (.copyRoutineEx k o s.item.workerRoutine)
  | copyRoutineEx {s k o r} :
      Act t s (.copyRoutineEx k o r) s (.copyContext k o r s.item.workerRoutineEx)
  | copyContext {s k o r rx} :
      Act t s (.copyContext k o r rx) s (.clearQueued k ⟨o, r, rx, s.item.context⟩)
  | clearQueued {s k w} : Act t s (.clearQueued k w) { s with queued := false } (.invoke k w)
  | invoke {s k w} :
      Act t s (.invoke k w) { s with invoked := (k, w.invocation) :: s.invoked } (.routine k)
  | routine {s k} : Act t s (.routine k) s (.dereference k)
  | dereference {s k} :
      Act t s (.dereference k)
        { s with refcount := s.refcount - 1, held := s.held.erase k
                 freed := s.freed || s.refcount - 1 = 0
                 ended := (k, ⟨s.refcount - 1, s.held.erase k⟩) :: s.ended }
        .idle

/-- The item after `IoInitializeWorkItem`. -/
def initial (ioObject : Pvoid) (refcount : ℤ) : Shared R T :=
  ⟨⟨ioObject, none, none, 0⟩, false, refcount, false, 0, none, [], [], 0, [], [], []⟩

/-- The owner of the item has a reference to its object. -/
def Init (ioObject : Pvoid) (refcount : ℤ) (c : Conf (Shared R T) T (Pc R)) : Prop :=
  0 < refcount ∧ c.shared = initial ioObject refcount ∧ ∀ t, c.pc t = .idle

/-- A run, by the threads that take its steps. -/
abbrev Run [DecidableEq T] (ioObject : Pvoid) (refcount : ℤ) :
    List T → Conf (Shared R T) T (Pc R) → Prop :=
  Trace (Init ioObject refcount) (Step Act)

/-- A step moves the reference count by at most one. -/
theorem Act.refcount {t : T} {s s' : Shared R T} {l l' : Pc R} (h : Act t s l s' l') :
    Within 1 (s'.refcount - s.refcount) := by
  cases h <;> simp only [Within] <;> omega

/-- **No wrap.** In a run that is not too long the `LONG` in the object holds the reference
count. -/
theorem refcount_noWrap [DecidableEq T] {ioObject : Pvoid} {refcount : ℤ} {ts : List T}
    {c : Conf (Shared R T) T (Pc R)} (h : Run ioObject refcount ts c)
    (hlen : refcount + ts.length + 1 < 2 ^ 31) : NoWrap c.shared.refcount := by
  have hbound : Within (refcount + ts.length) c.shared.refcount := by
    refine count_bounded (fun c => c.shared.refcount) (fun c hc => ?_) (fun c t c' hstep => ?_) h
    · rcases hc with ⟨hpos, hshared, -⟩
      rw [hshared]
      exact ⟨by simp only [initial]; omega, Int.le_refl refcount⟩
    · rcases hstep with ⟨s, l, hact, rfl⟩
      exact hact.refcount
  exact hbound.noWrap hlen

end Wdutf.WorkItem
