import Mathlib.Data.List.Basic
import Mathlib.Logic.Function.Basic
import Wdutf.Lib.Threads

/-!
# Wdutf.Timer.Model — timers, `src/timer.cpp`

`KeSetTimerEx` and `KeCancelTimer` are called by one thread at a time, and the threads of
the pool run `DdkTimerCallback`, one atomic step at a time: a read or write of a member, an
interlocked operation, a call of the thread pool or of the event.

The clock of the thread pool is set for an arming of the timer; when it expires, one callback
for the arming is pending, until a thread of the pool starts it. A clock without a period
expires once. A cancelling wait takes the pending callbacks away, and returns when no callback
is running. The due time is not modelled: the clock expires at any time.

`armings`, `current` and `history` record what happened. No step tests them, and `caller` keeps
the calls from overlapping.
-/

namespace Wdutf.Timer

open Wdutf.Threads Wdutf.Transition

variable {D T : Type}

/-- The values of `state`. -/
inductive TimerState where
  | idle
  | active
  | done
deriving DecidableEq

/-- What an observer sees. The number is that of the arming. -/
inductive Event (D : Type) where
  /-- The callback set the event of the timer. -/
  | signaled (k : ℕ)
  /-- The callback called `KeInsertQueueDpc`. -/
  | inserted (k : ℕ) (dpc : Option D)
  /-- The call after the one that made the arming has returned. -/
  | returned (k : ℕ) (rc : Bool)
deriving DecidableEq

/-- `TIMER`, with the thread pool's view of its clock. -/
structure Shared (D T : Type) where
  dpc : Option D
  period : Int32
  state : TimerState
  event : Bool
  /-- The arming that the clock is set for, and the period. -/
  clock : Option (ℕ × Int32)
  pending : List ℕ
  running : List T
  caller : Option T
  /-- The `Dpc` of each arming. -/
  armings : List (Option D)
  /-- The last arming, until the next call has exchanged the state. -/
  current : Option ℕ
  history : List (Event D)

/-- A call: `KeCancelTimer`, or `KeSetTimerEx` with its `Dpc` and its period. -/
inductive Request (D : Type) where
  | cancel
  | set (dpc : Option D) (period : Int32)

/-- Where a thread stands: the step that it takes next. The arguments of a call are the arming that
it follows, and what it is going to return. -/
inductive Pc (D : Type) where
  | idle
  | exchange (r : Request D)
  | stopClock (after : Option ℕ) (rc : Bool) (r : Request D)
  | cancelPending (after : Option ℕ) (rc : Bool) (r : Request D)
  | waitCallbacks (after : Option ℕ) (rc : Bool) (r : Request D)
  | setDpc (after : Option ℕ) (rc : Bool) (dpc : Option D) (period : Int32)
  | setPeriod (after : Option ℕ) (rc : Bool) (dpc : Option D) (period : Int32)
  | setState (after : Option ℕ) (rc : Bool) (dpc : Option D) (period : Int32)
  | resetEvent (after : Option ℕ) (rc : Bool) (k : ℕ) (period : Int32)
  | startClock (after : Option ℕ) (rc : Bool) (k : ℕ) (period : Int32)
  | leave (after : Option ℕ) (rc : Bool)
  | callbackPeriod (k : ℕ)
  | callbackCompare (k : ℕ)
  | callbackSignal (k : ℕ)
  | callbackDpc (k : ℕ)
  | callbackInsert (k : ℕ)
  | callbackEnd

/-- The events of a call that returns. -/
def returns (after : Option ℕ) (rc : Bool) : List (Event D) :=
  match after with
  | none => []
  | some k => [.returned k rc]

variable [DecidableEq T]

/-- The atomic steps of a thread, when the calls of `KeSetTimerEx` have the periods `P`. -/
inductive Act (P : Int32 → Prop) (t : T) : Shared D T → Pc D → Shared D T → Pc D → Prop
  -- the calls
  | cancelCall {s} : s.caller = none →
      Act P t s .idle { s with caller := some t } (.exchange .cancel)
  | setCall {s} (dpc : Option D) (period : Int32) : P period → s.caller = none →
      Act P t s .idle { s with caller := some t } (.exchange (.set dpc period))
  | exchange {s r} :
      Act P t s (.exchange r) { s with state := .idle, current := none }
        (.stopClock s.current (s.state = .active) r)
  | stopClock {s after rc r} :
      Act P t s (.stopClock after rc r) { s with clock := none } (.cancelPending after rc r)
  | cancelPending {s after rc r} :
      Act P t s (.cancelPending after rc r) { s with pending := [] } (.waitCallbacks after rc r)
  | waitCancel {s after rc} : s.running = [] →
      Act P t s (.waitCallbacks after rc .cancel) s (.leave after rc)
  | waitSet {s after rc dpc period} : s.running = [] →
      Act P t s (.waitCallbacks after rc (.set dpc period)) s (.setDpc after rc dpc period)
  | setDpc {s after rc dpc period} :
      Act P t s (.setDpc after rc dpc period) { s with dpc := dpc } (.setPeriod after rc dpc period)
  | setPeriod {s after rc dpc period} :
      Act P t s (.setPeriod after rc dpc period) { s with period := period }
        (.setState after rc dpc period)
  | setState {s after rc dpc period} :
      Act P t s (.setState after rc dpc period)
        { s with state := .active, current := some s.armings.length, armings := s.armings ++ [dpc] }
        (.resetEvent after rc s.armings.length period)
  | resetEvent {s after rc k period} :
      Act P t s (.resetEvent after rc k period) { s with event := false }
        (.startClock after rc k period)
  | startClock {s after rc k period} :
      Act P t s (.startClock after rc k period) { s with clock := some (k, period) }
        (.leave after rc)
  | leave {s after rc} :
      Act P t s (.leave after rc)
        { s with caller := none, history := returns after rc ++ s.history } .idle
  -- the clock, and `DdkTimerCallback`, on an idle thread of the pool
  | expire {s k period} : s.clock = some (k, period) →
      Act P t s .idle
        { s with clock := if period = 0 then none else some (k, period), pending := k :: s.pending }
        .idle
  | callbackStart {s} (k : ℕ) : k ∈ s.pending →
      Act P t s .idle { s with pending := s.pending.erase k, running := t :: s.running }
        (.callbackPeriod k)
  | callbackPeriodic {s k} : s.period ≠ 0 →
      Act P t s (.callbackPeriod k) s (.callbackSignal k)
  | callbackPeriod {s k} : s.period = 0 →
      Act P t s (.callbackPeriod k) s (.callbackCompare k)
  | callbackActive {s k} : s.state = .active →
      Act P t s (.callbackCompare k) { s with state := .done } (.callbackSignal k)
  | callbackInactive {s k} : s.state ≠ .active →
      Act P t s (.callbackCompare k) s .callbackEnd
  | callbackSignal {s k} :
      Act P t s (.callbackSignal k) { s with event := true, history := .signaled k :: s.history }
        (.callbackDpc k)
  | callbackDpc {s k} : s.dpc ≠ none →
      Act P t s (.callbackDpc k) s (.callbackInsert k)
  | callbackNoDpc {s k} : s.dpc = none →
      Act P t s (.callbackDpc k) s .callbackEnd
  | callbackInsert {s k} :
      Act P t s (.callbackInsert k) { s with history := .inserted k s.dpc :: s.history }
        .callbackEnd
  | callbackEnd {s} :
      Act P t s .callbackEnd { s with running := s.running.erase t } .idle

/-- The timer after `KeInitializeTimerEx`. -/
def initial : Shared D T := ⟨none, 0, .idle, false, none, [], [], none, [], none, []⟩

def Init (c : Conf (Shared D T) T (Pc D)) : Prop := c.shared = initial ∧ ∀ t, c.pc t = .idle

/-- A run, by the threads that take its steps. -/
abbrev Run (P : Int32 → Prop) : List T → Conf (Shared D T) T (Pc D) → Prop :=
  Trace Init (Step (Act P))

end Wdutf.Timer
