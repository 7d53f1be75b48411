import Mathlib.Algebra.Ring.Int.Defs
import Mathlib.Algebra.Group.Nat.Defs
import Mathlib.Data.Int.Basic
import Mathlib.Data.List.Nodup
import Mathlib.Data.List.ReduceOption
import Mathlib.Logic.Function.Basic
import Mathlib.Tactic.Common

/-!
# Wdutf.Ke.Wait — dispatch objects and waits, `src/wait.cpp`

A dispatch object is a Win32 object with a handle. Semaphores and mutexes have
besides, in memory, a copy of the state of the Win32 object that the routines
keep up to date themselves: `DdkUpdateSemaphore` and `DdkUpdateMutex` after a
wait, `KeReleaseSemaphore` and `KeReleaseMutex` at a release.

* `waitStatus` — which objects `WaitStatus` updates, and the status it returns;
* `keWaitForMultipleObjects` — the whole routine, for a timeout of 0;
* `poll_meets_iff` — when it does what a wait should do.

A `DWORD` and an `NTSTATUS` are numbers below `2 ^ 32`; a `LONG` is an integer that
wraps (`wrap`).
-/

namespace Wdutf.Ke

variable {P T : Type}

/-! ## Objects -/

/-- The value of a `LONG` after an operation on it. -/
def wrap (x : ℤ) : ℤ := Int.bmod x (2 ^ 32)

theorem wrap_wrap_add (x y : ℤ) : wrap (wrap x + y) = wrap (x + y) :=
  Int.bmod_add_bmod

theorem wrap_wrap (x : ℤ) : wrap (wrap x) = wrap x :=
  Int.bmod_bmod

theorem wrap_of_range {x : ℤ} (h₀ : 0 ≤ x) (h₁ : x < 2 ^ 31) : wrap x = x := by
  apply Int.bmod_eq_of_le
  · omega
  · omega

/-- `SEMAPHORE`: the count and the limit of its Win32 semaphore, and `count`. -/
structure Semaphore where
  win32 : ℤ
  limit : ℤ
  count : ℤ
deriving DecidableEq, Repr

/-- `MUTEX`: the owner and the recursion count of its Win32 mutex and whether it was
abandoned, and `threadid` (`none` for 0) and `count`. -/
structure Mutex (T : Type) where
  owner : Option T
  recursion : ℕ
  abandoned : Bool
  threadid : Option T
  count : ℤ
deriving DecidableEq, Repr

/-- The objects that `isDispatchObject` accepts. The handle of a timer is a Win32
event. -/
inductive Dispatch (T : Type) where
  | event (notify signalled : Bool)
  | timer (notify signalled : Bool)
  | thread (terminated : Bool)
  | semaphore (s : Semaphore)
  | mutex (m : Mutex T)
deriving DecidableEq, Repr

/-- The dispatch objects in memory. -/
abbrev Objects (P T : Type) := P → Option (Dispatch T)

section Model

variable [DecidableEq P] [DecidableEq T]

/-- A wait of thread `me` on the object alone would be satisfied. -/
def Dispatch.signalled (me : T) : Dispatch T → Bool
  | .event _ signalled => signalled
  | .timer _ signalled => signalled
  | .thread terminated => terminated
  | .semaphore s => decide (0 < s.win32)
  | .mutex m => decide (m.owner = none ∨ m.owner = some me)

/-- What a satisfied wait does to the Win32 object. -/
def Dispatch.acquire (me : T) : Dispatch T → Dispatch T
  | .event notify signalled => .event notify (notify && signalled)
  | .timer notify signalled => .timer notify (notify && signalled)
  | .thread terminated => .thread terminated
  | .semaphore s => .semaphore { s with win32 := s.win32 - 1 }
  | .mutex m => .mutex { m with
      owner := some me, recursion := m.recursion + 1, abandoned := false }

/-- The mutex was abandoned. -/
def Dispatch.abandoned : Dispatch T → Bool
  | .mutex m => m.abandoned
  | _ => false

/-- `DdkUpdateSemaphore`. -/
def ddkUpdateSemaphore (s : Semaphore) : Semaphore := { s with count := wrap (s.count - 1) }

/-- `DdkUpdateMutex`. -/
def ddkUpdateMutex (me : T) (m : Mutex T) : Mutex T :=
  if m.threadid ≠ some me then { m with threadid := some me, count := 1 }
  else { m with count := wrap (m.count + 1) }

/-- The body of the loop of `WaitStatus`. -/
def Dispatch.update (me : T) : Dispatch T → Dispatch T
  | .semaphore s => .semaphore (ddkUpdateSemaphore s)
  | .mutex m => .mutex (ddkUpdateMutex me m)
  | d => d

/-! ## Win32 waits -/

def waitTimeout : ℕ := 258
def waitIoCompletion : ℕ := 192
def waitAbandoned0 : ℕ := 128
def waitFailed : ℕ := 4294967295
def maximumWaitObjects : ℕ := 64

/-- A handle is that of an object, or `nullevent` (`none`), which nobody ever sets. -/
def signalledAt (me : T) (o : Objects P T) : Option P → Bool
  | none => false
  | some p => (o p).any (Dispatch.signalled me)

def abandonedAt (o : Objects P T) : Option P → Bool
  | none => false
  | some p => (o p).any Dispatch.abandoned

/-- The Win32 objects of a list are acquired. -/
def acquireAll (me : T) (o : Objects P T) (ps : List P) : Objects P T := fun p =>
  if p ∈ ps then (o p).map (Dispatch.acquire me) else o p

/-- `WaitForMultipleObjectsEx` with a timeout of 0, not alertable. A wait for all
objects returns the index of one of them, if none was abandoned (`j`). -/
def waitForMultipleObjectsEx (me : T) (o : Objects P T) (h : List (Option P)) (waitAll : Bool)
    (j : ℕ) : ℕ × Objects P T :=
  if h = [] ∨ maximumWaitObjects < h.length ∨ waitAll = true ∧ ¬ h.Nodup then (waitFailed, o)
  else if waitAll then
    if h.all (signalledAt me o) then
      match h.findIdx? (abandonedAt o) with
      | some i => (waitAbandoned0 + i, acquireAll me o h.reduceOption)
      | none => (j % h.length, acquireAll me o h.reduceOption)
    else (waitTimeout, o)
  else
    match h.findIdx? (signalledAt me o) with
    | some i =>
      let p := h[i]?.join
      (if abandonedAt o p then waitAbandoned0 + i else i, acquireAll me o p.toList)
    | none => (waitTimeout, o)

/-! ## The routine -/

def statusTimeout : ℕ := 0x102
def statusAlerted : ℕ := 0x101
def statusUnsuccessful : ℕ := 0xC0000001

/-- `WaitStatus`: the objects that its loop updates, and the status. -/
def waitStatus (pVec : List P) (all : Bool) (rc : ℕ) : List P × ℕ :=
  if rc < 2 ^ 31 ∧ rc < maximumWaitObjects then
    (if all then pVec else pVec[rc]?.toList, rc)
  else if rc = waitTimeout then ([], statusTimeout)
  else if rc = waitIoCompletion then ([], statusAlerted)
  else ([], statusUnsuccessful)

/-- The largest `Count`: `MAXIMUM_WAIT_OBJECTS`, or `ThreadWaitObjects` for a wait
without a `WaitBlockArray`. -/
def waitLimit (waitBlockArray : Bool) : ℕ := if waitBlockArray then maximumWaitObjects else 3

/-- The handles of the wait; `nullevent` says whether there is a dummy handle. -/
def waitHandles (nullevent : Bool) (objects : List P) : List (Option P) :=
  objects.map some ++ if objects.length = 1 ∧ nullevent = true then [none] else []

inductive Failure where
  | maximumWaitObjectsExceeded
  | invalidDispatchObject
deriving DecidableEq, Repr

/-- The loop of `WaitStatus`. -/
def updateAll (me : T) (o : Objects P T) (ps : List P) : Objects P T :=
  ps.foldl (fun o p => Function.update o p ((o p).map (Dispatch.update me))) o

/-- `KeWaitForMultipleObjects` called by `me` with a timeout of 0, for which
`DdkGetWaitTime` gives 0, and `Alertable` FALSE: the status and the objects after it. -/
def keWaitForMultipleObjects (me : T) (nullevent : Bool) (o : Objects P T) (objects : List P)
    (waitAll waitBlockArray : Bool) (j : ℕ) : Except Failure (ℕ × Objects P T) :=
  if waitLimit waitBlockArray < objects.length then .error .maximumWaitObjectsExceeded
  else if objects.any (fun p => (o p).isNone) then .error .invalidDispatchObject
  else
    let (rc, o) := waitForMultipleObjectsEx me o (waitHandles nullevent objects) waitAll j
    let (updated, status) := waitStatus objects waitAll rc
    .ok (status, updateAll me o updated)

/-! ## Purpose -/

/-- The object after a thread acquired it: the Win32 object and its copy. -/
def Dispatch.acquired (me : T) : Dispatch T → Dispatch T
  | .semaphore s => .semaphore { s with win32 := s.win32 - 1, count := wrap (s.count - 1) }
  | .mutex m => .mutex {
      owner := some me
      recursion := m.recursion + 1
      abandoned := false
      threadid := some me
      count := if m.threadid = some me then wrap (m.count + 1) else 1 }
  | d => d.acquire me

/-- The objects after a thread acquired those of a list. -/
def acquired (me : T) (o : Objects P T) (ps : List P) : Objects P T := fun p =>
  if p ∈ ps then (o p).map (Dispatch.acquired me) else o p

/-- What a poll of a list of objects should give. -/
def PollMeets (me : T) (o : Objects P T) (objects : List P) (waitAll : Bool)
    (result : Except Failure (ℕ × Objects P T)) : Prop :=
  if waitAll then
    if ∀ p ∈ objects, signalledAt me o (some p) = true then
      ∃ i, i < objects.length ∧ result = .ok (i, acquired me o objects)
    else result = .ok (statusTimeout, o)
  else
    match objects.findIdx? (fun p => signalledAt me o (some p)) with
    | some i => result = .ok (i, acquired me o objects[i]?.toList)
    | none => result = .ok (statusTimeout, o)

end Model

/-! ## The loop of `WaitStatus` -/

section Update

variable [DecidableEq P] [DecidableEq T]

/-- The Win32 wait and the update together acquire an object. -/
theorem update_acquire (me : T) (d : Dispatch T) : (d.acquire me).update me = d.acquired me := by
  cases d with
  | event notify signalled => rfl
  | timer notify signalled => rfl
  | thread terminated => rfl
  | semaphore s => rfl
  | mutex m =>
    by_cases h : m.threadid = some me
    · simp [Dispatch.acquire, Dispatch.update, Dispatch.acquired, ddkUpdateMutex, h]
    · simp [Dispatch.acquire, Dispatch.update, Dispatch.acquired, ddkUpdateMutex, h]

/-- The loop updates each object of its list, and no other. -/
theorem updateAll_apply (me : T) {ps : List P} (hnodup : ps.Nodup) :
    ∀ (o : Objects P T) (p : P), updateAll me o ps p =
      if p ∈ ps then (o p).map (Dispatch.update me) else o p := by
  induction ps with
  | nil =>
    intro o p
    simp [updateAll]
  | cons q rest ih =>
    intro o p
    rcases List.nodup_cons.1 hnodup with ⟨hq, hrest⟩
    have hstep : updateAll me o (q :: rest) =
        updateAll me (Function.update o q ((o q).map (Dispatch.update me))) rest := rfl
    rw [hstep, ih hrest]
    by_cases hp : p = q
    · subst hp
      rw [if_neg hq, Function.update_self, if_pos (List.mem_cons_self ..)]
    · rw [Function.update_of_ne hp]
      simp [hp]

/-- The wait and the loop acquire the objects of a list. -/
theorem updateAll_acquireAll (me : T) (o : Objects P T) {ps : List P} (hnodup : ps.Nodup) :
    updateAll me (acquireAll me o ps) ps = acquired me o ps := by
  funext p
  rw [updateAll_apply me hnodup]
  by_cases hp : p ∈ ps
  · simp only [acquireAll, acquired, if_pos hp, Option.map_map]
    congr 1
    funext d
    exact update_acquire me d
  · simp only [acquireAll, acquired, if_neg hp]

end Update

theorem waitStatus_object {pVec : List P} (all : Bool) {rc : ℕ} (h : rc < maximumWaitObjects) :
    waitStatus pVec all rc = (if all then pVec else pVec[rc]?.toList, rc) := by
  have h31 : rc < 2 ^ 31 := Nat.lt_trans h (by decide)
  rw [waitStatus, if_pos ⟨h31, h⟩]

theorem waitStatus_timeout (pVec : List P) (all : Bool) :
    waitStatus pVec all waitTimeout = ([], statusTimeout) := by
  rw [waitStatus, if_neg (by decide), if_pos rfl]

/-! ## The handles -/

section Handles

variable {nullevent : Bool} {objects : List P}

theorem waitHandles_hidden (h : objects.length = 1 ∧ nullevent = true) :
    waitHandles nullevent objects = objects.map some ++ [none] := by
  rw [waitHandles, if_pos h]

theorem waitHandles_plain (h : ¬ (objects.length = 1 ∧ nullevent = true)) :
    waitHandles nullevent objects = objects.map some := by
  rw [waitHandles, if_neg h, List.append_nil]

theorem reduceOption_map_some (ps : List P) : (ps.map some).reduceOption = ps := by
  induction ps with
  | nil => rfl
  | cons p rest ih => rw [List.map_cons, List.reduceOption_cons_of_some, ih]

theorem nodup_waitHandles (h : objects.Nodup) : (waitHandles nullevent objects).Nodup := by
  have hmap : (objects.map some).Nodup := h.map fun _ _ => Option.some.inj
  by_cases hhidden : objects.length = 1 ∧ nullevent = true
  · rw [waitHandles_hidden hhidden, List.nodup_append]
    refine ⟨hmap, List.nodup_singleton _, ?_⟩
    intro x hx y hy
    rcases List.mem_map.1 hx with ⟨p, -, rfl⟩
    rw [List.mem_singleton.1 hy]
    simp
  · rw [waitHandles_plain hhidden]
    exact hmap

theorem length_waitHandles_pos (h : 1 ≤ objects.length) : waitHandles nullevent objects ≠ [] := by
  intro hnil
  have hlength := congrArg List.length hnil
  rw [waitHandles, List.length_append, List.length_map, List.length_nil] at hlength
  omega

theorem length_waitHandles_le (h : objects.length ≤ maximumWaitObjects) :
    (waitHandles nullevent objects).length ≤ maximumWaitObjects := by
  by_cases hhidden : objects.length = 1 ∧ nullevent = true
  · rw [waitHandles_hidden hhidden, List.length_append, List.length_map, hhidden.1]
    simp [maximumWaitObjects]
  · rw [waitHandles_plain hhidden, List.length_map]
    exact h

/-- The dummy handle does not change which handle is the first one of a kind. -/
theorem findIdx?_waitHandles {f : Option P → Bool} (hnull : f none = false) :
    (waitHandles nullevent objects).findIdx? f = objects.findIdx? fun p => f (some p) := by
  have hmap : (objects.map some).findIdx? f = objects.findIdx? fun p => f (some p) := by
    rw [List.findIdx?_map]
    rfl
  by_cases hhidden : objects.length = 1 ∧ nullevent = true
  · rw [waitHandles_hidden hhidden, List.findIdx?_append, hmap]
    simp [hnull]
  · rw [waitHandles_plain hhidden, hmap]

end Handles

/-! ## The poll -/

section Poll

variable [DecidableEq P] [DecidableEq T]
variable {me : T} {o : Objects P T} {nullevent : Bool} {objects : List P}

omit [DecidableEq P] in
/-- The arguments of the Win32 wait are in order. -/
theorem wait_accepted (hdistinct : objects.Nodup) (hcount : 1 ≤ objects.length)
    (hmax : objects.length ≤ maximumWaitObjects) (waitAll : Bool) :
    ¬ (waitHandles nullevent objects = [] ∨
      maximumWaitObjects < (waitHandles nullevent objects).length ∨
      waitAll = true ∧ ¬ (waitHandles nullevent objects).Nodup) := by
  rintro (h | h | ⟨-, h⟩)
  · exact length_waitHandles_pos hcount h
  · exact absurd (length_waitHandles_le hmax) (Nat.not_le.2 h)
  · exact h (nodup_waitHandles hdistinct)

/-- The Win32 wait for any of the objects. -/
theorem wait_any (hdistinct : objects.Nodup) (hcount : 1 ≤ objects.length)
    (hmax : objects.length ≤ maximumWaitObjects)
    (habandoned : ∀ p ∈ objects, abandonedAt o (some p) = false) (j : ℕ) :
    waitForMultipleObjectsEx me o (waitHandles nullevent objects) false j =
      match objects.findIdx? (fun p => signalledAt me o (some p)) with
      | some i => (i, acquireAll me o objects[i]?.toList)
      | none => (waitTimeout, o) := by
  rw [waitForMultipleObjectsEx, if_neg (wait_accepted hdistinct hcount hmax false),
    if_neg (by decide), findIdx?_waitHandles rfl]
  cases hfind : objects.findIdx? (fun p => signalledAt me o (some p)) with
  | none => rfl
  | some i =>
    rcases List.findIdx?_eq_some_iff_getElem.1 hfind with ⟨hi, -, -⟩
    have hhandle : (waitHandles nullevent objects)[i]? = some (some objects[i]) := by
      rw [waitHandles, List.getElem?_append_left (by rwa [List.length_map]), List.getElem?_map,
        List.getElem?_eq_getElem hi]
      rfl
    have hplain : abandonedAt o (some objects[i]) = false := habandoned _ (List.getElem_mem hi)
    simp only [hhandle, Option.join_some, hplain, List.getElem?_eq_getElem hi]
    rfl

/-- The Win32 wait for all of the objects. With the dummy handle it is never
satisfied. -/
theorem wait_all (hdistinct : objects.Nodup) (hcount : 1 ≤ objects.length)
    (hmax : objects.length ≤ maximumWaitObjects)
    (habandoned : ∀ p ∈ objects, abandonedAt o (some p) = false) (j : ℕ) :
    waitForMultipleObjectsEx me o (waitHandles nullevent objects) true j =
      if (∀ p ∈ objects, signalledAt me o (some p) = true) ∧
        ¬ (objects.length = 1 ∧ nullevent = true) then
        (j % objects.length, acquireAll me o objects)
      else (waitTimeout, o) := by
  have hnone : (waitHandles nullevent objects).findIdx? (abandonedAt o) = none := by
    rw [findIdx?_waitHandles rfl, List.findIdx?_eq_none_iff]
    exact habandoned
  rw [waitForMultipleObjectsEx, if_neg (wait_accepted hdistinct hcount hmax true), if_pos rfl,
    hnone]
  by_cases hhidden : objects.length = 1 ∧ nullevent = true
  · have hall : (waitHandles nullevent objects).all (signalledAt me o) = false := by
      rw [waitHandles_hidden hhidden, List.all_append]
      simp [signalledAt]
    rw [hall, if_neg (by decide), if_neg (fun h => h.2 hhidden)]
  · have hall : (waitHandles nullevent objects).all (signalledAt me o) = true ↔
        ∀ p ∈ objects, signalledAt me o (some p) = true := by
      rw [waitHandles_plain hhidden, List.all_map, List.all_eq_true]
      rfl
    by_cases hsignalled : ∀ p ∈ objects, signalledAt me o (some p) = true
    · rw [if_pos (hall.2 hsignalled), if_pos ⟨hsignalled, hhidden⟩, waitHandles_plain hhidden,
        List.length_map, reduceOption_map_some]
    · rw [if_neg (fun h => hsignalled (hall.1 h)), if_neg (fun h => hsignalled h.1)]

/-- A poll of distinct objects, none of them an abandoned mutex, does what it should,
except that a wait for all of one object is given a second handle that is never
signalled. -/
theorem poll_meets_iff (me : T) (nullevent : Bool) (o : Objects P T) (objects : List P)
    (waitAll waitBlockArray : Bool) (j : ℕ) (hdistinct : objects.Nodup)
    (hcount : 1 ≤ objects.length) (hlimit : objects.length ≤ waitLimit waitBlockArray)
    (hvalid : ∀ p ∈ objects, o p ≠ none)
    (habandoned : ∀ p ∈ objects, abandonedAt o (some p) = false) :
    PollMeets me o objects waitAll
        (keWaitForMultipleObjects me nullevent o objects waitAll waitBlockArray j) ↔
      ¬ (nullevent = true ∧ waitAll = true ∧ objects.length = 1 ∧
        ∀ p ∈ objects, signalledAt me o (some p) = true) := by
  have hmax : objects.length ≤ maximumWaitObjects := by
    refine Nat.le_trans hlimit ?_
    cases waitBlockArray <;> decide
  have hsome : objects.any (fun p => (o p).isNone) = false := by
    rw [List.any_eq_false]
    intro p hp hnone
    exact hvalid p hp (Option.isNone_iff_eq_none.1 hnone)
  rw [keWaitForMultipleObjects, if_neg (Nat.not_lt.2 hlimit), hsome, if_neg (by decide)]
  cases waitAll with
  | false =>
    refine iff_of_true ?_ (fun h => Bool.noConfusion h.2.1)
    rw [wait_any hdistinct hcount hmax habandoned, PollMeets, if_neg (by decide)]
    cases hfind : objects.findIdx? (fun p => signalledAt me o (some p)) with
    | none =>
      simp only [waitStatus_timeout]
      rfl
    | some i =>
      rcases List.findIdx?_eq_some_iff_getElem.1 hfind with ⟨hi, -, -⟩
      simp only [waitStatus_object false (Nat.lt_of_lt_of_le hi hmax), Bool.false_eq_true, if_false]
      rw [updateAll_acquireAll me o]
      rw [List.getElem?_eq_getElem hi]
      exact List.nodup_singleton _
  | true =>
    rw [wait_all hdistinct hcount hmax habandoned, PollMeets, if_pos rfl]
    by_cases hsignalled : ∀ p ∈ objects, signalledAt me o (some p) = true
    · rw [if_pos hsignalled]
      by_cases hhidden : objects.length = 1 ∧ nullevent = true
      · refine iff_of_false ?_ (fun h => h ⟨hhidden.2, rfl, hhidden.1, hsignalled⟩)
        rw [if_neg (fun h => h.2 hhidden)]
        simp only [waitStatus_timeout]
        rintro ⟨i, hi, heq⟩
        have hstatus : statusTimeout = i := congrArg Prod.fst (Except.ok.inj heq)
        rw [← hstatus, hhidden.1] at hi
        exact absurd hi (by decide)
      · refine iff_of_true ?_ (fun h => hhidden ⟨h.2.2.1, h.1⟩)
        rw [if_pos ⟨hsignalled, hhidden⟩]
        have hj : j % objects.length < objects.length := Nat.mod_lt _ hcount
        simp only [waitStatus_object true (Nat.lt_of_lt_of_le hj hmax), if_true]
        rw [updateAll_acquireAll me o hdistinct]
        exact ⟨_, hj, rfl⟩
    · refine iff_of_true ?_ (fun h => hsignalled h.2.2.2)
      rw [if_neg hsignalled, if_neg (fun h => hsignalled h.1)]
      simp only [waitStatus_timeout]
      rfl

end Poll

/-- A free mutex and a semaphore with count 1. -/
def mutexAndSemaphore : Objects Bool Bool
  | false => some (.mutex ⟨none, 0, false, none, 0⟩)
  | true => some (.semaphore ⟨1, 2, 1⟩)

/-- A wait for both, without the dummy handle in the way. -/
theorem poll_meets_mutexAndSemaphore :
    [false, true].Nodup ∧ PollMeets true mutexAndSemaphore [false, true] true
      (keWaitForMultipleObjects true true mutexAndSemaphore [false, true] true false 0) :=
  ⟨by decide, (poll_meets_iff true true mutexAndSemaphore [false, true] true false 0 (by decide)
    (by decide) (by decide) (by decide) (by decide)).2 (by decide)⟩

/-- A wait for all of one event that is signalled times out. -/
theorem poll_one_event_not_meets :
    let o : Objects Bool Bool := fun _ => some (.event true true)
    signalledAt true o (some true) = true ∧ abandonedAt o (some true) = false ∧
      ¬ PollMeets true o [true] true
        (keWaitForMultipleObjects true true o [true] true false 0) := by
  refine ⟨rfl, rfl, ?_⟩
  rw [PollMeets, if_pos rfl, if_pos (by decide)]
  rintro ⟨i, hi, heq⟩
  have hstatus : statusTimeout = i := congrArg Prod.fst (Except.ok.inj heq)
  rw [← hstatus] at hi
  exact absurd hi (by decide)

end Wdutf.Ke
