import Mathlib.Data.List.Induction
import Mathlib.Data.List.Nodup
import Mathlib.Tactic.Common
import Wdutf.WorkItem.Model

/-!
# Wdutf.WorkItem.Dispatch — what a queued work item runs, `src/workitem.cpp`

`IoQueueWorkItem` sets `WorkerRoutine`, `IoQueueWorkItemEx` sets `WorkerRoutineEx`, and neither
clears the other member; `DdkWorkCallback` calls `WorkerRoutineEx` whenever it is set.

* `written` — the item after a sequence of calls;
* `workItem_holds` — the invariant: each run has a copy of what the calls up to its own wrote;
* `workItem_runs_iff` — the runs call what was queued exactly when no item queued by
  `IoQueueWorkItem` had been queued by `IoQueueWorkItemEx` before;
* `workItem_stale` — a run that calls the routine of an earlier call.
-/

namespace Wdutf.WorkItem

open Wdutf.Threads Wdutf.Transition Wdutf.Io

variable {R T : Type}

/-! ## What the calls write -/

/-- The item after one more call. -/
def Copy.afterCall (item : Copy R) (call : Call R) : Copy R :=
  { item.withRoutine call with context := call.context }

/-- The item after a sequence of calls. -/
def written (ioObject : Pvoid) (calls : List (Call R)) : Copy R :=
  calls.foldl Copy.afterCall ⟨ioObject, none, none, 0⟩

/-- What a call asks for. -/
def Call.invocation (ioObject : Pvoid) (call : Call R) : Invocation R :=
  ⟨call.convention, some call.workerRoutine, ioObject, call.context⟩

theorem written_append (ioObject : Pvoid) (calls : List (Call R)) (call : Call R) :
    written ioObject (calls ++ [call]) = (written ioObject calls).afterCall call := by
  simp [written]

theorem written_ioObject (ioObject : Pvoid) (calls : List (Call R)) :
    (written ioObject calls).ioObject = ioObject := by
  induction calls using List.reverseRecOn with
  | nil => rfl
  | append_singleton calls call ih =>
    rw [written_append]
    cases h : call.convention <;> simpa [Copy.afterCall, Copy.withRoutine, h] using ih

/-- `WorkerRoutineEx` stays clear as long as `IoQueueWorkItemEx` is not called. -/
theorem written_workerRoutineEx (ioObject : Pvoid) (calls : List (Call R)) :
    (written ioObject calls).workerRoutineEx = none ↔
      ∀ call ∈ calls, call.convention = .plain := by
  induction calls using List.reverseRecOn with
  | nil => simp [written]
  | append_singleton calls call ih =>
    rw [written_append]
    cases h : call.convention with
    | plain =>
      simp only [Copy.afterCall, Copy.withRoutine, h, ih, List.forall_mem_append,
        List.forall_mem_singleton, and_true]
    | ex => simp [Copy.afterCall, Copy.withRoutine, h]

/-- The callback does what the last call asks for unless that is a call of `IoQueueWorkItem`
after one of `IoQueueWorkItemEx`. -/
theorem invocation_written (ioObject : Pvoid) (calls : List (Call R)) (call : Call R) :
    (written ioObject (calls ++ [call])).invocation = call.invocation ioObject ↔
      (call.convention = .plain → ∀ earlier ∈ calls, earlier.convention = .plain) := by
  have hobject := written_ioObject ioObject calls
  rw [written_append]
  cases h : call.convention with
  | ex => simp [Copy.afterCall, Copy.withRoutine, Copy.invocation, Call.invocation, h, hobject]
  | plain =>
    rw [← written_workerRoutineEx ioObject]
    cases hex : (written ioObject calls).workerRoutineEx with
    | none =>
      simp [Copy.afterCall, Copy.withRoutine, Copy.invocation, Call.invocation, h, hobject, hex]
    | some stale =>
      -- the member that an earlier call has left set
      simp [Copy.afterCall, Copy.withRoutine, Copy.invocation, Call.invocation, h, hex]

/-! ## The invariant -/

/-- Who works on the item: the thread that queues it, nobody until the callback starts, or the
callback that copies it. -/
inductive Phase (T : Type) where
  | free
  | calling (t : T)
  | waiting
  | copying (t : T)

/-- The thread that the item belongs to for now. -/
def Phase.holder : Phase T → Option T
  | .calling t => some t
  | .copying t => some t
  | _ => none

/-- The phase of the item, and the thread of each run. -/
structure Ghost (T : Type) where
  phase : Phase T
  owner : ℕ → Option T

/-- The members of the item in each phase. -/
def PhaseOk (ioObject : Pvoid) (s : Shared R T) : Phase T → Prop
  | .free => s.queued = false ∧ s.pending = 0 ∧ s.caller = none ∧ s.started = s.calls.length ∧
      s.item = written ioObject s.calls
  | .calling t => s.pending = 0 ∧ s.caller = some t ∧ s.started + 1 = s.calls.length
  | .waiting => s.queued = true ∧ s.pending = 1 ∧ s.caller = none ∧
      s.started + 1 = s.calls.length ∧ s.item = written ioObject s.calls ∧ s.started ∈ s.held
  | .copying _ => s.queued = true ∧ s.pending = 0 ∧ s.caller = none ∧
      s.started = s.calls.length ∧ s.item = written ioObject s.calls

/-- Each reference that is counted is that of a call, or one of the references from before. -/
def Count.Ok (refcount : ℤ) (n : Count) : Prop := n.refcount = refcount + n.held.length

/-- The assertion about the shared data. -/
structure ItemOk (ioObject : Pvoid) (refcount : ℤ) (g : Ghost T) (s : Shared R T) : Prop where
  phase : PhaseOk ioObject s g.phase
  owner : ∀ k t, g.owner k = some t → k < s.started
  count : Count.Ok refcount ⟨s.refcount, s.held⟩
  nodup : s.held.Nodup
  held : ∀ k ∈ s.held, k < s.calls.length
  freed : s.freed = false
  length : s.before.length = s.calls.length
  before : ∀ k (n : Count), s.before[k]? = some n → n.Ok refcount ∧ k ∉ n.held
  once : (s.invoked.map Prod.fst).Nodup
  invoked : ∀ k inv, (k, inv) ∈ s.invoked →
    k < s.started ∧ inv = (written ioObject (s.calls.take (k + 1))).invocation
  ended : ∀ k (n : Count), (k, n) ∈ s.ended → k < s.started ∧ n.Ok refcount ∧ k ∉ n.held

/-- The thread has a run, which has not released its reference. -/
structure Owns (t : T) (g : Ghost T) (s : Shared R T) (k : ℕ) : Prop where
  owner : g.owner k = some t
  held : k ∈ s.held

/-- The thread copies the item for the run. -/
structure Copying (t : T) (g : Ghost T) (s : Shared R T) (k : ℕ) : Prop extends Owns t g s k where
  phase : g.phase = .copying t
  last : k + 1 = s.calls.length
  fresh : k ∉ s.invoked.map Prod.fst

/-- The thread queues the item by its last call. -/
structure Calling (t : T) (g : Ghost T) (s : Shared R T) (k : ℕ) : Prop where
  phase : g.phase = .calling t
  last : k + 1 = s.calls.length

/-- The assertion at each point. -/
def AtPoint (ioObject : Pvoid) (t : T) (g : Ghost T) (s : Shared R T) : Pc R → Prop
  | .idle => True
  | .setRoutine k call => Calling t g s k ∧ k ∉ s.held ∧
      ∃ calls, s.calls = calls ++ [call] ∧ s.item = written ioObject calls
  | .setContext k call => Calling t g s k ∧ k ∉ s.held ∧
      ∃ calls, s.calls = calls ++ [call] ∧ s.item = (written ioObject calls).withRoutine call
  | .setQueued k => Calling t g s k ∧ k ∉ s.held ∧ s.item = written ioObject s.calls
  | .reference k =>
      Calling t g s k ∧ k ∉ s.held ∧ s.item = written ioObject s.calls ∧ s.queued = true
  | .submit => ∃ k, Calling t g s k ∧ k ∈ s.held ∧ s.item = written ioObject s.calls ∧
      s.queued = true
  | .copyObject k => Copying t g s k
  | .copyRoutine k o => Copying t g s k ∧ o = s.item.ioObject
  | .copyRoutineEx k o r => Copying t g s k ∧ o = s.item.ioObject ∧ r = s.item.workerRoutine
  | .copyContext k o r rx => Copying t g s k ∧ o = s.item.ioObject ∧ r = s.item.workerRoutine ∧
      rx = s.item.workerRoutineEx
  | .clearQueued k w => Copying t g s k ∧ w = s.item
  | .invoke k w => Owns t g s k ∧ k ∉ s.invoked.map Prod.fst ∧ k < s.calls.length ∧
      w = written ioObject (s.calls.take (k + 1))
  | .routine k => Owns t g s k
  | .dereference k => Owns t g s k

/-- What thread `u` relies on when another thread takes a step. -/
structure Rely (u : T) (g : Ghost T) (s : Shared R T) (g' : Ghost T) (s' : Shared R T) : Prop where
  phase : g.phase.holder = some u →
    g'.phase = g.phase ∧ s'.item = s.item ∧ s'.queued = s.queued ∧ s'.calls = s.calls
  calling : g.phase = .calling u → ∀ k, k + 1 = s.calls.length → (k ∈ s'.held ↔ k ∈ s.held)
  owner : ∀ k, g.owner k = some u →
    g'.owner k = some u ∧ (k ∈ s.held → k ∈ s'.held) ∧
      (k ∈ s'.invoked.map Prod.fst → k ∈ s.invoked.map Prod.fst)
  calls : s.calls <+: s'.calls

section Stable

variable {ioObject : Pvoid} {refcount : ℤ} {t u : T} {g g' : Ghost T} {s s' : Shared R T} {k : ℕ}

theorem Owns.stable (h : Owns u g s k) (hrely : Rely u g s g' s') : Owns u g' s' k := by
  rcases hrely.owner k h.owner with ⟨howner, hheld, -⟩
  exact ⟨howner, hheld h.held⟩

theorem Copying.stable (h : Copying u g s k) (hrely : Rely u g s g' s') : Copying u g' s' k := by
  have hholder : g.phase.holder = some u := by
    rw [h.phase]
    rfl
  rcases hrely.phase hholder with ⟨hphase, -, -, hcalls⟩
  refine { h.toOwns.stable hrely with phase := ?_, last := ?_, fresh := ?_ }
  · rw [hphase, h.phase]
  · rw [hcalls, h.last]
  · intro hmem
    exact h.fresh ((hrely.owner k h.owner).2.2 hmem)

theorem Calling.stable (h : Calling u g s k) (hrely : Rely u g s g' s') :
    Calling u g' s' k ∧ s'.item = s.item ∧ s'.queued = s.queued ∧ s'.calls = s.calls ∧
      (k ∈ s'.held ↔ k ∈ s.held) := by
  have hholder : g.phase.holder = some u := by
    rw [h.phase]
    rfl
  rcases hrely.phase hholder with ⟨hphase, hitem, hqueued, hcalls⟩
  refine ⟨⟨?_, ?_⟩, hitem, hqueued, hcalls, hrely.calling h.phase k h.last⟩
  · rw [hphase, h.phase]
  · rw [hcalls, h.last]

theorem Copying.item (h : Copying u g s k) (hrely : Rely u g s g' s') : s'.item = s.item := by
  have hholder : g.phase.holder = some u := by
    rw [h.phase]
    rfl
  exact (hrely.phase hholder).2.1

/-- The assertion of a thread survives the steps of the others. -/
theorem atPoint_stable {l : Pc R} (h : AtPoint ioObject u g s l) (hrely : Rely u g s g' s') :
    AtPoint ioObject u g' s' l := by
  cases l with
  | idle => trivial
  -- the thread queues the item
  | setRoutine k call =>
    rcases h with ⟨hcalling, hheld, calls, hcalls, hitem⟩
    rcases hcalling.stable hrely with ⟨hcalling', hitem', -, hcalls', hheld'⟩
    exact ⟨hcalling', hheld'.not.2 hheld, calls, hcalls'.trans hcalls, hitem'.trans hitem⟩
  | setContext k call =>
    rcases h with ⟨hcalling, hheld, calls, hcalls, hitem⟩
    rcases hcalling.stable hrely with ⟨hcalling', hitem', -, hcalls', hheld'⟩
    exact ⟨hcalling', hheld'.not.2 hheld, calls, hcalls'.trans hcalls, hitem'.trans hitem⟩
  | setQueued k =>
    rcases h with ⟨hcalling, hheld, hitem⟩
    rcases hcalling.stable hrely with ⟨hcalling', hitem', -, hcalls', hheld'⟩
    rw [← hitem', ← hcalls'] at hitem
    exact ⟨hcalling', hheld'.not.2 hheld, hitem⟩
  | reference k =>
    rcases h with ⟨hcalling, hheld, hitem, hqueued⟩
    rcases hcalling.stable hrely with ⟨hcalling', hitem', hqueued', hcalls', hheld'⟩
    rw [← hitem', ← hcalls'] at hitem
    exact ⟨hcalling', hheld'.not.2 hheld, hitem, hqueued'.trans hqueued⟩
  | submit =>
    rcases h with ⟨k, hcalling, hheld, hitem, hqueued⟩
    rcases hcalling.stable hrely with ⟨hcalling', hitem', hqueued', hcalls', hheld'⟩
    rw [← hitem', ← hcalls'] at hitem
    exact ⟨k, hcalling', hheld'.2 hheld, hitem, hqueued'.trans hqueued⟩
  -- the thread copies the item
  | copyObject k => exact Copying.stable h hrely
  | copyRoutine k o =>
    rcases h with ⟨hcopying, ho⟩
    refine ⟨hcopying.stable hrely, ?_⟩
    rwa [hcopying.item hrely]
  | copyRoutineEx k o r =>
    rcases h with ⟨hcopying, ho, hr⟩
    refine ⟨hcopying.stable hrely, ?_⟩
    rw [hcopying.item hrely]
    exact ⟨ho, hr⟩
  | copyContext k o r rx =>
    rcases h with ⟨hcopying, ho, hr, hrx⟩
    refine ⟨hcopying.stable hrely, ?_⟩
    rw [hcopying.item hrely]
    exact ⟨ho, hr, hrx⟩
  | clearQueued k w =>
    rcases h with ⟨hcopying, hw⟩
    refine ⟨hcopying.stable hrely, ?_⟩
    rwa [hcopying.item hrely]
  -- the thread has its copy
  | invoke k w =>
    rcases h with ⟨howns, hfresh, hlt, hw⟩
    refine ⟨howns.stable hrely, ?_, ?_, ?_⟩
    · intro hmem
      exact hfresh ((hrely.owner k howns.owner).2.2 hmem)
    · exact Nat.lt_of_lt_of_le hlt hrely.calls.length_le
    · rcases hrely.calls with ⟨more, hmore⟩
      rw [hw, ← hmore, List.take_append_of_le_length hlt]
  | routine k => exact Owns.stable h hrely
  | dereference k => exact Owns.stable h hrely

/-- The step of a thread while the item belongs to it. -/
theorem rely_holder (hu : u ≠ t) (hholder : g.phase.holder = some t) (phase : Phase T)
    (hheld : ∀ k ∈ s.held, k ∈ s'.held) (hinvoked : s'.invoked = s.invoked)
    (hcalls : s'.calls = s.calls) : Rely u g s ⟨phase, g.owner⟩ s' := by
  have hne : g.phase.holder ≠ some u := by
    rw [hholder]
    intro h
    exact hu (Option.some.inj h).symm
  constructor
  case phase => exact fun h => absurd h hne
  case calling =>
    intro h
    rw [h] at hne
    exact absurd rfl hne
  case owner =>
    intro k hk
    exact ⟨hk, hheld k, fun h => hinvoked ▸ h⟩
  case calls => exact hcalls.symm ▸ List.prefix_refl s.calls

/-- The step of a thread that does not touch the item. -/
theorem rely_run (hitem : s'.item = s.item) (hqueued : s'.queued = s.queued)
    (hcalls : s'.calls = s.calls)
    (hheld : ∀ k, g.owner k ≠ some t → (k ∈ s'.held ↔ k ∈ s.held))
    (hinvoked : ∀ k, g.owner k ≠ some t → k ∈ s'.invoked.map Prod.fst →
      k ∈ s.invoked.map Prod.fst)
    (hlast : ∀ k, g.phase = .calling u → k + 1 = s.calls.length → g.owner k = none)
    (hu : u ≠ t) : Rely u g s g s' := by
  constructor
  case phase => exact fun _ => ⟨rfl, hitem, hqueued, hcalls⟩
  case calling =>
    intro hphase k hk
    apply hheld
    rw [hlast k hphase hk]
    exact nofun
  case owner =>
    intro k hk
    have hne : g.owner k ≠ some t := by
      rw [hk]
      intro h
      exact hu (Option.some.inj h)
    exact ⟨hk, (hheld k hne).2, hinvoked k hne⟩
  case calls => exact hcalls.symm ▸ List.prefix_refl s.calls

end Stable

/-! ## Steps -/

section Steps

variable {ioObject : Pvoid} {refcount : ℤ} {g : Ghost T} {c : Conf (Shared R T) T (Pc R)} {t : T}
variable {s' : Shared R T} {l' : Pc R}

/-- The conclusion of a step for the rule of `Wdutf.Lib.Threads`. -/
def StepOk (ioObject : Pvoid) (refcount : ℤ) (g : Ghost T) (c : Conf (Shared R T) T (Pc R)) (t : T)
    (s' : Shared R T) (l' : Pc R) : Prop :=
  ∃ g', ItemOk ioObject refcount g' s' ∧ AtPoint ioObject t g' s' l' ∧
    ∀ u, u ≠ t → AtPoint ioObject u g c.shared (c.pc u) → AtPoint ioObject u g' s' (c.pc u)

/-- It follows from what the others rely on. -/
theorem stepOk_of (g' : Ghost T) (hok : ItemOk ioObject refcount g' s')
    (hat : AtPoint ioObject t g' s' l') (hrely : ∀ u, u ≠ t → Rely u g c.shared g' s') :
    StepOk ioObject refcount g c t s' l' :=
  ⟨g', hok, hat, fun u hu h => atPoint_stable h (hrely u hu)⟩

/-- A run has not started when its call is being made. -/
theorem owner_calling (hok : ItemOk ioObject refcount g c.shared) {u : T} {k : ℕ}
    (hphase : g.phase = .calling u) (hk : k + 1 = c.shared.calls.length) : g.owner k = none := by
  have hlen : PhaseOk ioObject c.shared (.calling u) := hphase ▸ hok.phase
  cases hk' : g.owner k with
  | none => rfl
  | some t =>
    have hlt := hok.owner k t hk'
    have hstarted := hlen.2.2
    omega

/-- The item is queued: its members have been set by the calls before. -/
theorem stepOk_call (hok : ItemOk ioObject refcount g c.shared) (call : Call R)
    (hfree : c.shared.caller = none) (hqueued : c.shared.queued = false) :
    StepOk ioObject refcount g c t
      { c.shared with caller := some t, calls := c.shared.calls ++ [call]
                      before := c.shared.before ++ [⟨c.shared.refcount, c.shared.held⟩] }
      (.setRoutine c.shared.calls.length call) := by
  have hphase := hok.phase
  cases hg : g.phase with
  | calling u =>
    rw [hg] at hphase
    rw [hphase.2.1] at hfree
    cases hfree
  | waiting =>
    rw [hg] at hphase
    rw [hphase.1] at hqueued
    cases hqueued
  | copying u =>
    rw [hg] at hphase
    rw [hphase.1] at hqueued
    cases hqueued
  | free =>
    rw [hg] at hphase
    rcases hphase with ⟨-, hpending, -, hstarted, hitem⟩
    have hlen : (c.shared.calls ++ [call]).length = c.shared.calls.length + 1 := by simp
    have hnew : c.shared.calls.length ∉ c.shared.held := by
      intro hmem
      exact lt_irrefl _ (hok.held _ hmem)
    apply stepOk_of ⟨.calling t, g.owner⟩
    · refine { hok with phase := ?_, held := ?_, length := ?_, before := ?_, invoked := ?_ }
      · exact ⟨hpending, rfl, by rw [hlen, hstarted]⟩
      · intro k hk
        rw [hlen]
        exact Nat.lt_succ_of_lt (hok.held k hk)
      · simp [hok.length]
      · intro k n hn
        rcases Nat.lt_or_ge k c.shared.before.length with hlt | hge
        · rw [List.getElem?_append_left hlt] at hn
          exact hok.before k n hn
        · -- the count of this call
          rw [List.getElem?_append_right hge] at hn
          rcases List.getElem?_eq_some_iff.1 hn with ⟨hzero, rfl⟩
          have hk : k = c.shared.calls.length := by
            rw [← hok.length]
            simp only [List.length_singleton] at hzero
            omega
          simp only [List.getElem_singleton]
          exact ⟨hok.count, hk ▸ hnew⟩
      · intro k inv hmem
        rcases hok.invoked k inv hmem with ⟨hlt, hinv⟩
        rw [hstarted] at hlt
        rw [List.take_append_of_le_length hlt]
        exact ⟨hstarted ▸ hlt, hinv⟩
    · exact ⟨⟨rfl, hlen.symm⟩, hnew, c.shared.calls, rfl, hitem⟩
    · intro u _
      constructor
      case phase =>
        rw [hg]
        exact nofun
      case calling =>
        rw [hg]
        exact nofun
      case owner => exact fun k hk => ⟨hk, id, id⟩
      case calls => exact List.prefix_append ..

/-- A callback starts: it is that of the last call. -/
theorem stepOk_start [DecidableEq T] (hok : ItemOk ioObject refcount g c.shared)
    (hpending : 0 < c.shared.pending) :
    StepOk ioObject refcount g c t
      { c.shared with pending := c.shared.pending - 1, started := c.shared.started + 1 }
      (.copyObject c.shared.started) := by
  have hphase := hok.phase
  cases hg : g.phase with
  | free =>
    rw [hg] at hphase
    rw [hphase.2.1] at hpending
    cases hpending
  | calling u =>
    rw [hg] at hphase
    rw [hphase.1] at hpending
    cases hpending
  | copying u =>
    rw [hg] at hphase
    rw [hphase.2.1] at hpending
    cases hpending
  | waiting =>
    rw [hg] at hphase
    rcases hphase with ⟨hqueued, hone, hcaller, hstarted, hitem, hheld⟩
    have hfresh : ∀ k u, g.owner k = some u → k ≠ c.shared.started := fun k u hk =>
      Nat.ne_of_lt (hok.owner k u hk)
    apply stepOk_of ⟨.copying t, Function.update g.owner c.shared.started (some t)⟩
    · refine { hok with phase := ?_, owner := ?_, invoked := ?_, ended := ?_ }
      · exact ⟨hqueued, by simp [hone], hcaller, hstarted, hitem⟩
      · intro k u hk
        by_cases hks : k = c.shared.started
        · exact hks ▸ Nat.lt_succ_self _
        · have hk : g.owner k = some u := by simpa [hks] using hk
          exact Nat.lt_succ_of_lt (hok.owner k u hk)
      · intro k inv hmem
        exact ⟨Nat.lt_succ_of_lt (hok.invoked k inv hmem).1, (hok.invoked k inv hmem).2⟩
      · intro k n hmem
        exact ⟨Nat.lt_succ_of_lt (hok.ended k n hmem).1, (hok.ended k n hmem).2⟩
    · refine ⟨⟨Function.update_self .., hheld⟩, rfl, hstarted, ?_⟩
      intro hmem
      rcases List.mem_map.1 hmem with ⟨⟨k, inv⟩, hinv, hk⟩
      exact Nat.ne_of_lt (hok.invoked k inv hinv).1 hk
    · intro u _
      constructor
      case phase =>
        rw [hg]
        exact nofun
      case calling =>
        rw [hg]
        exact nofun
      case owner =>
        intro k hk
        exact ⟨by simpa [hfresh k u hk] using hk, id, id⟩
      case calls => exact List.prefix_refl _

/-! ### The members of the item, set by the thread that queues it -/

/-- The thread that queues the item writes its members. -/
theorem stepOk_write {k : ℕ} (hok : ItemOk ioObject refcount g c.shared)
    (hcalling : Calling t g c.shared k) (item : Copy R) (queued : Bool)
    (hat : AtPoint ioObject t g { c.shared with item := item, queued := queued } l') :
    StepOk ioObject refcount g c t { c.shared with item := item, queued := queued } l' := by
  have hphase := hcalling.phase ▸ hok.phase
  refine stepOk_of g { hok with phase := ?_ } hat ?_
  · rw [hcalling.phase]
    exact hphase
  · intro u hu
    exact rely_holder hu (by rw [hcalling.phase]; rfl) g.phase (fun _ h => h) rfl rfl

theorem stepOk_reference {k : ℕ} (hok : ItemOk ioObject refcount g c.shared)
    (hat : AtPoint ioObject t g c.shared (.reference k)) :
    StepOk ioObject refcount g c t
      { c.shared with refcount := c.shared.refcount + 1, held := k :: c.shared.held } .submit := by
  rcases hat with ⟨hcalling, hheld, hitem, hqueued⟩
  have hphase := hcalling.phase ▸ hok.phase
  refine stepOk_of g { hok with phase := ?_, count := ?_, nodup := ?_, held := ?_ }
    ⟨k, ⟨hcalling.phase, hcalling.last⟩, List.mem_cons_self, hitem, hqueued⟩ ?_
  · rw [hcalling.phase]
    exact hphase
  · have hcount := hok.count
    simp only [Count.Ok, List.length_cons] at hcount ⊢
    omega
  · exact List.nodup_cons.2 ⟨hheld, hok.nodup⟩
  · intro j hj
    rcases List.mem_cons.1 hj with rfl | hj
    · exact Nat.lt_of_succ_le (Nat.le_of_eq hcalling.last)
    · exact hok.held j hj
  · intro u hu
    exact rely_holder hu (by rw [hcalling.phase]; rfl) g.phase
      (fun _ h => List.mem_cons_of_mem _ h) rfl rfl

theorem stepOk_submit (hok : ItemOk ioObject refcount g c.shared)
    (hat : AtPoint ioObject t g c.shared .submit) :
    StepOk ioObject refcount g c t
      { c.shared with pending := c.shared.pending + 1, caller := none } .idle := by
  rcases hat with ⟨k, hcalling, hheld, hitem, hqueued⟩
  have hphase : PhaseOk ioObject c.shared (.calling t) := hcalling.phase ▸ hok.phase
  rcases hphase with ⟨hpending, -, hstarted⟩
  have hk : c.shared.started = k := Nat.succ.inj (hstarted.trans hcalling.last.symm)
  refine stepOk_of ⟨.waiting, g.owner⟩ { hok with phase := ?_ } trivial ?_
  · exact ⟨hqueued, by simp [hpending], rfl, hstarted, hitem, hk ▸ hheld⟩
  · intro u hu
    exact rely_holder hu (by rw [hcalling.phase]; rfl) .waiting (fun _ h => h) rfl rfl

/-! ### The members of the item, read by its callback -/

/-- The thread that copies the item reads a member. -/
theorem stepOk_read {k : ℕ} (hok : ItemOk ioObject refcount g c.shared)
    (hcopying : Copying t g c.shared k) (hat : AtPoint ioObject t g c.shared l') :
    StepOk ioObject refcount g c t c.shared l' :=
  stepOk_of _ hok hat fun _ hu =>
    rely_holder hu (by rw [hcopying.phase]; rfl) g.phase (fun _ h => h) rfl rfl

theorem stepOk_clearQueued {k : ℕ} {w : Copy R} (hok : ItemOk ioObject refcount g c.shared)
    (hat : AtPoint ioObject t g c.shared (.clearQueued k w)) :
    StepOk ioObject refcount g c t { c.shared with queued := false } (.invoke k w) := by
  rcases hat with ⟨hcopying, hw⟩
  have hphase : PhaseOk ioObject c.shared (.copying t) := hcopying.phase ▸ hok.phase
  rcases hphase with ⟨-, hpending, hcaller, hstarted, hitem⟩
  refine stepOk_of ⟨.free, g.owner⟩ { hok with phase := ?_ }
    ⟨⟨hcopying.owner, hcopying.held⟩, hcopying.fresh, ?_, ?_⟩ ?_
  · exact ⟨rfl, hpending, hcaller, hstarted, hitem⟩
  · exact Nat.lt_of_succ_le (Nat.le_of_eq hcopying.last)
  · show w = written ioObject (c.shared.calls.take (k + 1))
    rw [hw, hitem, hcopying.last, List.take_length]
  · intro u hu
    exact rely_holder hu (by rw [hcopying.phase]; rfl) .free (fun _ h => h) rfl rfl

/-! ### The run -/

theorem stepOk_invoke {k : ℕ} {w : Copy R} (hok : ItemOk ioObject refcount g c.shared)
    (hat : AtPoint ioObject t g c.shared (.invoke k w)) :
    StepOk ioObject refcount g c t
      { c.shared with invoked := (k, w.invocation) :: c.shared.invoked } (.routine k) := by
  rcases hat with ⟨howns, hfresh, -, hw⟩
  refine stepOk_of g { hok with once := ?_, invoked := ?_ } ⟨howns.owner, howns.held⟩ ?_
  · exact List.nodup_cons.2 ⟨hfresh, hok.once⟩
  · intro j inv hmem
    rcases List.mem_cons.1 hmem with heq | hmem
    · cases heq
      exact ⟨hok.owner k t howns.owner, congrArg Copy.invocation hw⟩
    · exact hok.invoked j inv hmem
  · intro u hu
    refine rely_run rfl rfl rfl (fun _ _ => Iff.rfl) ?_ (fun _ => owner_calling hok) hu
    intro j hj hmem
    rcases List.mem_cons.1 hmem with rfl | hmem
    · exact absurd howns.owner hj
    · exact hmem

/-- A call that waits is not the one whose run gives its reference back. -/
theorem PhaseOk.dereference {k : ℕ} {phase : Phase T} {refs : ℤ} {freed : Bool}
    {ended : List (ℕ × Count)} (h : PhaseOk ioObject c.shared phase) (hk : k < c.shared.started) :
    PhaseOk ioObject { c.shared with refcount := refs, held := c.shared.held.erase k
                                     freed := freed, ended := ended } phase := by
  cases phase with
  | waiting =>
    rcases h with ⟨hqueued, hone, hcaller, hstarted, hitem, hheld⟩
    have hne : c.shared.started ≠ k := Nat.ne_of_gt hk
    exact ⟨hqueued, hone, hcaller, hstarted, hitem, (List.mem_erase_of_ne hne).2 hheld⟩
  | free => exact h
  | calling u => exact h
  | copying u => exact h

theorem stepOk_dereference {k : ℕ} (hrefs : 0 < refcount)
    (hok : ItemOk ioObject refcount g c.shared)
    (hat : AtPoint ioObject t g c.shared (.dereference k)) :
    StepOk ioObject refcount g c t
      { c.shared with refcount := c.shared.refcount - 1, held := c.shared.held.erase k
                      freed := c.shared.freed || c.shared.refcount - 1 = 0
                      ended := (k, ⟨c.shared.refcount - 1, c.shared.held.erase k⟩) ::
                        c.shared.ended } .idle := by
  have hlen := List.length_erase_of_mem hat.held
  have hpos := List.length_pos_of_mem hat.held
  have hstarted := hok.owner k t hat.owner
  have hcount : Count.Ok refcount ⟨c.shared.refcount - 1, c.shared.held.erase k⟩ := by
    have hcount := hok.count
    simp only [Count.Ok, hlen] at hcount ⊢
    omega
  have hout : k ∉ c.shared.held.erase k := hok.nodup.not_mem_erase
  refine stepOk_of g { hok with phase := hok.phase.dereference hstarted
                                count := hcount
                                nodup := hok.nodup.erase k
                                held := ?_
                                freed := ?_
                                ended := ?_ } trivial ?_
  · exact fun j hj => hok.held j (List.mem_of_mem_erase hj)
  · -- the owner of the item still has its reference
    have hne : c.shared.refcount - 1 ≠ 0 := by
      simp only [Count.Ok] at hcount
      omega
    simp [hok.freed, hne]
  · intro j n hmem
    rcases List.mem_cons.1 hmem with heq | hmem
    · cases heq
      exact ⟨hstarted, hcount, hout⟩
    · exact hok.ended j n hmem
  · intro u hu
    refine rely_run rfl rfl rfl ?_ (fun _ _ h => h) (fun _ => owner_calling hok) hu
    intro j hj
    apply List.mem_erase_of_ne
    rintro rfl
    exact hj hat.owner

/-- Every step keeps the assertions. -/
theorem workItem_step [DecidableEq T] (hrefs : 0 < refcount)
    (hok : ItemOk ioObject refcount g c.shared)
    (hall : ∀ u, AtPoint ioObject u g c.shared (c.pc u))
    (hact : Act t c.shared (c.pc t) s' l') : StepOk ioObject refcount g c t s' l' := by
  have hat := hall t
  generalize hl : c.pc t = l at hact hat
  cases hact with
  | call call hfree hqueued => exact stepOk_call hok call hfree hqueued
  | callbackStart hpending => exact stepOk_start hok hpending
  | setRoutine =>
    rcases hat with ⟨hcalling, hheld, calls, hcalls, hitem⟩
    exact stepOk_write hok hcalling _ _ ⟨⟨hcalling.phase, hcalling.last⟩, hheld, calls, hcalls,
      congrArg (Copy.withRoutine · _) hitem⟩
  | @setContext k call =>
    rcases hat with ⟨hcalling, hheld, calls, hcalls, hitem⟩
    refine stepOk_write hok hcalling _ _ ⟨⟨hcalling.phase, hcalling.last⟩, hheld, ?_⟩
    -- all that the call writes
    show { c.shared.item with context := call.context } = written ioObject c.shared.calls
    rw [hcalls, written_append, hitem]
    rfl
  | setQueued =>
    rcases hat with ⟨hcalling, hheld, hitem⟩
    exact stepOk_write hok hcalling _ _ ⟨⟨hcalling.phase, hcalling.last⟩, hheld, hitem, rfl⟩
  | reference => exact stepOk_reference hok hat
  | submit => exact stepOk_submit hok hat
  | copyObject => exact stepOk_read hok hat ⟨hat, rfl⟩
  | copyRoutine =>
    rcases hat with ⟨hcopying, ho⟩
    exact stepOk_read hok hcopying ⟨hcopying, ho, rfl⟩
  | copyRoutineEx =>
    rcases hat with ⟨hcopying, ho, hr⟩
    exact stepOk_read hok hcopying ⟨hcopying, ho, hr, rfl⟩
  | copyContext =>
    rcases hat with ⟨hcopying, rfl, rfl, rfl⟩
    exact stepOk_read hok hcopying ⟨hcopying, rfl⟩
  | clearQueued => exact stepOk_clearQueued hok hat
  | invoke => exact stepOk_invoke hok hat
  | routine =>
    exact stepOk_of _ hok hat fun u hu =>
      rely_run rfl rfl rfl (fun _ _ => Iff.rfl) (fun _ _ h => h) (fun _ => owner_calling hok) hu
  | dereference => exact stepOk_dereference hrefs hok hat

end Steps

/-- The assertions hold after every run. -/
theorem workItem_holds [DecidableEq T] {ioObject : Pvoid} {refcount : ℤ} {ts : List T}
    {c : Conf (Shared R T) T (Pc R)} (h : Run ioObject refcount ts c) :
    Holds (ItemOk ioObject refcount) (AtPoint ioObject) c := by
  have hrefs : 0 < refcount := by
    induction h with
    | start hinit => exact hinit.1
    | snoc _ _ ih => exact ih
  refine invariant ?_ ?_ h
  · rintro c ⟨-, hshared, hidle⟩
    refine ⟨⟨.free, fun _ => none⟩, ?_, ?_⟩
    · rw [hshared]
      constructor <;> simp [initial, PhaseOk, written, Count.Ok]
    · intro u
      rw [hidle u]
      trivial
  · intro g c t s' l' hok hall hact
    exact workItem_step hrefs hok hall hact

/-! ## What the runs call -/

/-- What a work item is for. -/
structure RunsWhatWasQueued (ioObject : Pvoid) (s : Shared R T) : Prop where
  /-- Each run calls one routine. -/
  once : (s.invoked.map Prod.fst).Nodup
  /-- It is the one that was passed to the call, called as the function does that queued it. -/
  routine : ∀ k inv, (k, inv) ∈ s.invoked →
    ∃ call, s.calls[k]? = some call ∧ inv = call.invocation ioObject
  /-- After the run, the reference count is what it was before the call, but for the references of
  the other calls. -/
  refcount : ∀ k (after : Count), (k, after) ∈ s.ended → ∃ before : Count,
    s.before[k]? = some before ∧ k ∉ before.held ∧ k ∉ after.held ∧
      after.refcount - after.held.length = before.refcount - before.held.length

/-- The call is not one of `IoQueueWorkItem` after one of `IoQueueWorkItemEx`. -/
def NotStale (calls : List (Call R)) (k : ℕ) : Prop :=
  ∀ call, calls[k]? = some call → call.convention = .plain →
    ∀ earlier ∈ calls.take k, earlier.convention = .plain

/-- What a run calls is what was queued if its call is not stale, and only then. -/
theorem ItemOk.invoked_iff {ioObject : Pvoid} {refcount : ℤ} {g : Ghost T} {s : Shared R T}
    (hok : ItemOk ioObject refcount g s) (hstarted : s.started ≤ s.calls.length) {k : ℕ}
    {inv : Invocation R} (hmem : (k, inv) ∈ s.invoked) :
    (∃ call, s.calls[k]? = some call ∧ inv = call.invocation ioObject) ↔ NotStale s.calls k := by
  rcases hok.invoked k inv hmem with ⟨hlt, rfl⟩
  have hk : k < s.calls.length := Nat.lt_of_lt_of_le hlt hstarted
  have hget : s.calls[k]? = some s.calls[k] := List.getElem?_eq_getElem hk
  have htake : s.calls.take (k + 1) = s.calls.take k ++ [s.calls[k]] :=
    List.take_succ_eq_append_getElem hk
  rw [htake]
  constructor
  · rintro ⟨call, hcall, hinv⟩ call' hcall'
    rw [hget] at hcall hcall'
    cases hcall
    cases hcall'
    exact (invocation_written ioObject _ _).1 hinv
  · intro hstale
    exact ⟨_, hget, (invocation_written ioObject _ _).2 (hstale _ hget)⟩

/-- No callback has started that no call has submitted. -/
theorem PhaseOk.started_le {ioObject : Pvoid} {s : Shared R T} {phase : Phase T}
    (h : PhaseOk ioObject s phase) : s.started ≤ s.calls.length := by
  cases phase with
  | free => exact Nat.le_of_eq h.2.2.2.1
  | calling t => exact Nat.le_of_succ_le (Nat.le_of_eq h.2.2)
  | waiting => exact Nat.le_of_succ_le (Nat.le_of_eq h.2.2.2.1)
  | copying t => exact Nat.le_of_eq h.2.2.2.1

/-- **Work items run what was queued** in every run, for every call but those of
`IoQueueWorkItem` on an item that `IoQueueWorkItemEx` has queued before. -/
theorem workItem_runs_iff [DecidableEq T] (ioObject : Pvoid) (refcount : ℤ) (ts : List T)
    (c : Conf (Shared R T) T (Pc R)) (h : Run ioObject refcount ts c) :
    RunsWhatWasQueued ioObject c.shared ↔
      ∀ k inv, (k, inv) ∈ c.shared.invoked → NotStale c.shared.calls k := by
  rcases workItem_holds h with ⟨g, hok, -⟩
  have hstarted := hok.phase.started_le
  constructor
  · intro hruns k inv hmem
    exact (hok.invoked_iff hstarted hmem).1 (hruns.routine k inv hmem)
  · intro hstale
    constructor
    case once => exact hok.once
    case routine =>
      intro k inv hmem
      exact (hok.invoked_iff hstarted hmem).2 (hstale k inv hmem)
    case refcount =>
      intro k after hmem
      rcases hok.ended k after hmem with ⟨hlt, hafter, hout⟩
      have hk : k < c.shared.before.length := by
        rw [hok.length]
        exact Nat.lt_of_lt_of_le hlt hstarted
      have hget := List.getElem?_eq_getElem hk
      rcases hok.before k _ hget with ⟨hbefore, hout'⟩
      refine ⟨_, hget, hout', hout, ?_⟩
      rw [hafter, hbefore]
      omega

/-- The object outlives the runs. -/
theorem workItem_not_freed [DecidableEq T] {ioObject : Pvoid} {refcount : ℤ} {ts : List T}
    {c : Conf (Shared R T) T (Pc R)} (h : Run ioObject refcount ts c) : c.shared.freed = false := by
  rcases workItem_holds h with ⟨g, hok, -⟩
  exact hok.freed

section Runs

variable {ts : List Unit} {c : Conf (Shared ℕ Unit) Unit (Pc ℕ)}

/-- The item after a call. -/
def Shared.queue (s : Shared ℕ Unit) (call : Call ℕ) : Shared ℕ Unit :=
  { s with item := s.item.afterCall call, queued := true, refcount := s.refcount + 1
           pending := s.pending + 1, caller := none, calls := s.calls ++ [call]
           before := s.before ++ [⟨s.refcount, s.held⟩], held := s.calls.length :: s.held }

/-- The item after a run. -/
def Shared.work (s : Shared ℕ Unit) : Shared ℕ Unit :=
  { s with queued := false, refcount := s.refcount - 1, pending := s.pending - 1
           freed := s.freed || s.refcount - 1 = 0, started := s.started + 1
           held := s.held.erase s.started, invoked := (s.started, s.item.invocation) :: s.invoked
           ended := (s.started, ⟨s.refcount - 1, s.held.erase s.started⟩) :: s.ended }

/-- One thread queues the item. -/
theorem run_queue (h : Run 8 1 ts c) (hidle : c.pc () = .idle) (call : Call ℕ)
    (hcaller : c.shared.caller = none) (hqueued : c.shared.queued = false) :
    ∃ ts' pc, Run 8 1 ts' ⟨c.shared.queue call, pc⟩ ∧ pc () = .idle := by
  have h1 := run_step h () (hidle ▸ Act.call call hcaller hqueued)
  have h2 := run_step h1 () Act.setRoutine
  have h3 := run_step h2 () Act.setContext
  have h4 := run_step h3 () Act.setQueued
  have h5 := run_step h4 () Act.reference
  exact ⟨_, _, run_step h5 () Act.submit, rfl⟩

/-- One thread runs a callback. -/
theorem run_work (h : Run 8 1 ts c) (hidle : c.pc () = .idle) (hpending : 0 < c.shared.pending) :
    ∃ ts' pc, Run 8 1 ts' ⟨c.shared.work, pc⟩ ∧ pc () = .idle := by
  have h1 := run_step h () (hidle ▸ Act.callbackStart hpending)
  have h2 := run_step h1 () Act.copyObject
  have h3 := run_step h2 () Act.copyRoutine
  have h4 := run_step h3 () Act.copyRoutineEx
  have h5 := run_step h4 () Act.copyContext
  have h6 := run_step h5 () Act.clearQueued
  have h7 := run_step h6 () Act.invoke
  have h8 := run_step h7 () Act.routine
  exact ⟨_, _, run_step h8 () Act.dereference, rfl⟩

/-- One thread queues the item and runs its callback, twice. -/
theorem run_twice (first second : Call ℕ) : ∃ ts pc,
    Run 8 1 ts ⟨((((initial 8 1).queue first).work).queue second).work, pc⟩ := by
  have h0 : Run 8 1 [] (⟨initial 8 1, fun _ => .idle⟩ : Conf (Shared ℕ Unit) Unit (Pc ℕ)) :=
    Trace.start ⟨by decide, rfl, fun _ => rfl⟩
  rcases run_queue h0 rfl first rfl rfl with ⟨ts1, pc1, h1, hidle1⟩
  rcases run_work h1 hidle1 Nat.zero_lt_one with ⟨ts2, pc2, h2, hidle2⟩
  rcases run_queue h2 hidle2 second rfl rfl with ⟨ts3, pc3, h3, hidle3⟩
  rcases run_work h3 hidle3 Nat.zero_lt_one with ⟨ts4, pc4, h4, -⟩
  exact ⟨ts4, pc4, h4⟩

end Runs

/-- An item queued by `IoQueueWorkItem` and then by `IoQueueWorkItemEx`. -/
theorem workItem_runs_iff_plain_ex : ∃ c : Conf (Shared ℕ Unit) Unit (Pc ℕ),
    RunsWhatWasQueued 8 c.shared ∧
      c.shared.invoked = [(1, ⟨.ex, some 2, 8, 6⟩), (0, ⟨.plain, some 1, 8, 5⟩)] := by
  rcases run_twice ⟨.plain, 1, 5⟩ ⟨.ex, 2, 6⟩ with ⟨ts, pc, h⟩
  refine ⟨_, (workItem_runs_iff 8 1 ts _ h).2 ?_, rfl⟩
  intro k inv hmem call hcall hplain earlier hearlier
  have hinvoked : (k, inv) ∈
      [(1, (⟨.ex, some 2, 8, 6⟩ : Invocation ℕ)), (0, ⟨.plain, some 1, 8, 5⟩)] := hmem
  simp only [List.mem_cons, Prod.mk.injEq, List.not_mem_nil, or_false] at hinvoked
  rcases hinvoked with ⟨rfl, -⟩ | ⟨rfl, -⟩
  · cases hcall
    cases hplain
  · cases hearlier

/-- An item queued by `IoQueueWorkItemEx` with the routine 1 and then by `IoQueueWorkItem`
with the routine 2: the second run calls the routine 1 again. -/
theorem workItem_stale :
    ¬ ∀ (ts : List Unit) (c : Conf (Shared ℕ Unit) Unit (Pc ℕ)),
      Run 8 1 ts c → RunsWhatWasQueued 8 c.shared := by
  intro hall
  rcases run_twice ⟨.ex, 1, 5⟩ ⟨.plain, 2, 6⟩ with ⟨ts, pc, h⟩
  rcases (hall ts _ h).routine 1 ⟨.ex, some 1, 8, 6⟩ List.mem_cons_self with ⟨call, hcall, hinv⟩
  cases hcall
  cases hinv

end Wdutf.WorkItem
