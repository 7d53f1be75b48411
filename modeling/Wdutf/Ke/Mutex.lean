import Mathlib.Data.List.Basic
import Mathlib.Logic.Function.Basic
import Mathlib.Tactic.Common
import Wdutf.Ke.Dispatch

/-!
# Wdutf.Ke.Mutex — the owner of a mutex, `src/mutex.cpp`

`threadid` and `count` are written without a lock, after the Win32 mutex was acquired
and before it is released, and `KeReleaseMutex` reads them in any thread. Only the
owner of the Win32 mutex ever writes them, so that a thread that reads its own id
there is the owner.

* `Stage` — where a thread stands with respect to one mutex;
* `Owned`, `NotOwned` — what the owner knows there, and where the others can be;
* `owner_copy_iff` — when no call is in progress, the copy is right exactly if a `LONG`
  holds the recursion count; a release by a thread that does not own the mutex has no
  effect, and `KeReleaseMutex` returns 0 exactly if it freed the mutex;
* `nested_waits_wrap` — Win32 lets a mutex be acquired once more than that.
-/

namespace Wdutf.Ke

open Wdutf.Threads Wdutf.Transition

variable {P T : Type}

/-- `KeInitializeMutex`. -/
def keInitializeMutex : Mutex T := ⟨none, 0, false, none, 0⟩

/-- Where a thread stands with respect to a mutex. -/
inductive Stage where
  | out
  /-- The wait acquired the mutex, and `WaitStatus` has still to update it. -/
  | pending
  -- in `DdkUpdateMutex`
  | setThread
  | setCount
  | readCount
  | writeCount (count : ℤ)
  -- in `KeReleaseMutex`
  | decrement
  | decremented (count : ℤ)
  | clear
  | release (rc : ℤ)

/-- What the owner of a mutex knows about it. -/
def Owned (t : T) (m : Mutex T) : Stage → Prop
  | .out => m.threadid = some t ∧ m.count = wrap m.recursion
  | .pending => m.recursion = 1 ∧ m.threadid = none ∧ m.count = 0 ∨
      2 ≤ m.recursion ∧ m.threadid = some t ∧ m.count = wrap (m.recursion - 1)
  | .setThread => m.recursion = 1 ∧ m.threadid = none
  | .setCount => m.recursion = 1 ∧ m.threadid = some t
  | .readCount => m.threadid = some t ∧ m.count = wrap (m.recursion - 1)
  | .writeCount count => m.threadid = some t ∧ count = wrap (m.recursion - 1)
  | .decrement => m.threadid = some t ∧ m.count = wrap m.recursion
  | .decremented count => m.threadid = some t ∧ count = wrap m.recursion
  | .clear => m.recursion = 1 ∧ m.threadid = some t ∧ m.count = 0
  | .release rc => rc = 0 ∧ m.recursion = 1 ∧ m.threadid = none ∧ m.count = 0 ∨
      rc = 1 ∧ 2 ≤ m.recursion ∧ m.threadid = some t ∧ m.count = wrap (m.recursion - 1)

/-- Where a thread can be that does not own the mutex. -/
def NotOwned : Stage → Prop
  | .out => True
  | .release rc => rc = 1
  | _ => False

/-- A mutex that nobody owns, or the bounds of its recursion count. -/
def Consistent (m : Mutex T) : Prop :=
  m.owner = none ∧ m.recursion = 0 ∧ m.threadid = none ∧ m.count = 0 ∨
  m.owner ≠ none ∧ 1 ≤ m.recursion ∧ m.recursion ≤ maximumRecursion

/-- The lists of objects in the loop of `WaitStatus` have no duplicates. -/
def Distinct : Pc P → Prop
  | .update rest _ => rest.Nodup
  | .updateThread q rest _ => (q :: rest).Nodup
  | .updateCount q rest _ => (q :: rest).Nodup
  | .updateRead q rest _ => (q :: rest).Nodup
  | .updateWrite q rest _ _ => (q :: rest).Nodup
  | _ => True

section Stages

variable [DecidableEq P]

/-- The stage in the loop of `WaitStatus`. -/
def loopStage (p : P) (rest : List P) : Stage := if p ∈ rest then .pending else .out

/-- The stage of a thread at a point of its program. -/
def stage (p : P) : Pc P → Stage
  | .update rest _ => loopStage p rest
  | .updateThread q rest _ => if q = p then .setThread else loopStage p rest
  | .updateCount q rest _ => if q = p then .setCount else loopStage p rest
  | .updateRead q rest _ => if q = p then .readCount else loopStage p rest
  | .updateWrite q rest _ count => if q = p then .writeCount count else loopStage p rest
  | .mutexRead q => if q = p then .decrement else .out
  | .mutexWrite q count => if q = p then .decremented count else .out
  | .mutexClear q => if q = p then .clear else .out
  | .mutexRelease q rc => if q = p then .release rc else .out
  | _ => .out

/-- The assertion about a thread. -/
def Stands (p : P) (t : T) (m : Mutex T) (l : Pc P) : Prop :=
  Distinct l ∧ (m.owner = some t → Owned t m (stage p l)) ∧
    (m.owner ≠ some t → NotOwned (stage p l))

end Stages

/-- A thread may exit if it owns no mutex. -/
def OwnsNone (t : T) (o : Objects P T) : Prop := ∀ p m, o p = some (.mutex m) → m.owner ≠ some t

/-- All mutexes have just been initialized; nothing is known of the other objects. -/
def InitMutexes (c : Conf (Objects P T) T (Pc P)) : Prop :=
  (∀ t, c.pc t = .idle) ∧ ∀ p m, c.shared p = some (.mutex m) → m = keInitializeMutex

/-! ## Interference -/

/-- What a step of `t` does to a mutex: nothing, or the mutex is free or its own, before
and after. -/
def Touches (t : T) (m m' : Mutex T) : Prop :=
  m' = m ∨ (m.owner = none ∨ m.owner = some t) ∧ (m'.owner = none ∨ m'.owner = some t)

theorem ne_of_free_or_own {owner : Option T} {t u : T} (h : owner = none ∨ owner = some t)
    (hu : u ≠ t) : owner ≠ some u := by
  rcases h with h | h
  · rw [h]
    exact fun hn => nomatch hn
  · rw [h]
    exact fun heq => hu (Option.some.inj heq).symm

/-- The assertion about another thread survives. -/
theorem stands_stable [DecidableEq P] {p : P} {t u : T} {m m' : Mutex T} {l : Pc P} (hu : u ≠ t)
    (h : Touches t m m') (hstands : Stands p u m l) : Stands p u m' l := by
  rcases h with rfl | ⟨hbefore, hafter⟩
  · exact hstands
  · rcases hstands with ⟨hdistinct, -, hnot⟩
    refine ⟨hdistinct, ?_, ?_⟩
    · intro howner
      exact absurd howner (ne_of_free_or_own hafter hu)
    · intro _
      exact hnot (ne_of_free_or_own hbefore hu)

/-- The owner never leaves the id of another thread behind. -/
theorem Owned.threadid {t : T} {m : Mutex T} {g : Stage} (h : Owned t m g) :
    m.threadid = none ∨ m.threadid = some t := by
  cases g with
  | out => exact Or.inr h.1
  | pending =>
    rcases h with ⟨-, h, -⟩ | ⟨-, h, -⟩
    · exact Or.inl h
    · exact Or.inr h
  | setThread => exact Or.inl h.2
  | setCount => exact Or.inr h.2
  | readCount => exact Or.inr h.1
  | writeCount count => exact Or.inr h.1
  | decrement => exact Or.inr h.1
  | decremented count => exact Or.inr h.1
  | clear => exact Or.inr h.2.1
  | release rc =>
    rcases h with ⟨-, -, h, -⟩ | ⟨-, -, h, -⟩
    · exact Or.inl h
    · exact Or.inr h

/-- A thread that finds its own id in `threadid` owns the mutex. -/
theorem owner_of_threadid [DecidableEq P] {p : P} {m : Mutex T} {pc : T → Pc P} {t : T}
    (hconsistent : Consistent m) (hall : ∀ u, Stands p u m (pc u)) (h : m.threadid = some t) :
    m.owner = some t := by
  rcases hconsistent with ⟨-, -, hnone, -⟩ | ⟨howner, -⟩
  · rw [hnone] at h
    cases h
  · rcases Option.ne_none_iff_exists'.1 howner with ⟨u, hu⟩
    rcases ((hall u).2.1 hu).threadid with hnone | hown
    · rw [hnone] at h
      cases h
    · rw [hown] at h
      cases h
      exact hu

/-! ## Steps -/

section Steps

variable [DecidableEq P] {p : P} {t : T} {m : Mutex T} {o o' : Objects P T} {l l' : Pc P}

/-- What a step of `t` leads to. -/
def Leads (p : P) (t : T) (m : Mutex T) (o' : Objects P T) (l' : Pc P) : Prop :=
  ∃ m', o' p = some (.mutex m') ∧ Consistent m' ∧ Stands p t m' l' ∧ Touches t m m'

/-- A step that leaves the mutex alone and its thread at the same stage. -/
theorem leads_same (hm : o p = some (.mutex m)) (hconsistent : Consistent m)
    (hstands : Stands p t m l) (ho : o' p = o p) (hstage : stage p l' = stage p l)
    (hdistinct : Distinct l') : Leads p t m o' l' := by
  refine ⟨m, ho.trans hm, hconsistent, ⟨hdistinct, ?_, ?_⟩, Or.inl rfl⟩
  · rw [hstage]
    exact hstands.2.1
  · rw [hstage]
    exact hstands.2.2

/-- A step of the owner that leaves the mutex alone. -/
theorem leads_read (hm : o p = some (.mutex m)) (hconsistent : Consistent m)
    (howner : m.owner = some t) (hdistinct : Distinct l') (howned : Owned t m (stage p l')) :
    Leads p t m o l' :=
  ⟨m, hm, hconsistent, ⟨hdistinct, fun _ => howned, fun h => absurd howner h⟩, Or.inl rfl⟩

/-- A step of the owner that writes `threadid` or `count`. -/
theorem leads_write {m' : Mutex T} (hconsistent : Consistent m) (howner : m.owner = some t)
    (howner' : m'.owner = m.owner) (hrecursion : m'.recursion = m.recursion)
    (hdistinct : Distinct l') (howned : Owned t m' (stage p l')) :
    Leads p t m (o.set p (.mutex m')) l' := by
  refine ⟨m', set_self .., ?_, ⟨hdistinct, fun _ => howned, ?_⟩, Or.inr ⟨Or.inr howner, ?_⟩⟩
  · rcases hconsistent with ⟨hnone, -⟩ | ⟨hsome, hbounds⟩
    · rw [howner] at hnone
      cases hnone
    · refine Or.inr ⟨?_, ?_⟩
      · rw [howner']
        exact hsome
      · rw [hrecursion]
        exact hbounds
  · intro h
    rw [howner'] at h
    exact absurd howner h
  · rw [howner']
    exact Or.inr howner

/-- A step that changes another object and leaves its thread at the same stage. -/
theorem leads_other {q : P} {d : Dispatch T} (hm : o p = some (.mutex m))
    (hconsistent : Consistent m) (hstands : Stands p t m l) (hpq : p ≠ q)
    (hstage : stage p l' = stage p l) (hdistinct : Distinct l') : Leads p t m (o.set q d) l' :=
  leads_same hm hconsistent hstands (set_of_ne o d hpq) hstage hdistinct

/-- A wait acquires the mutex. -/
theorem leads_acquire [DecidableEq T] (hconsistent : Consistent m) (hstands : Stands p t m l)
    (hstage : stage p l = .out) (hacquirable : (Dispatch.mutex m).acquirable t = true)
    (ho : o' p = some ((Dispatch.mutex m).acquire t)) (hstage' : stage p l' = .pending)
    (hdistinct : Distinct l') : Leads p t m o' l' := by
  rw [Dispatch.acquirable, Bool.and_eq_true, decide_eq_true_eq] at hacquirable
  rcases hacquirable with ⟨hlimit, hsignalled⟩
  have howner : m.owner = none ∨ m.owner = some t := by
    simpa [Dispatch.signalled] using hsignalled
  have howned : Owned t { m with owner := some t, recursion := m.recursion + 1, abandoned := false }
      .pending := by
    rcases hconsistent with ⟨-, hzero, hthread, hcount⟩ | ⟨hsome, hpos, -⟩
    · refine Or.inl ⟨?_, hthread, hcount⟩
      show m.recursion + 1 = 1
      rw [hzero]
    · have hown : m.owner = some t := howner.resolve_left hsome
      have hout := hstands.2.1 hown
      rw [hstage] at hout
      refine Or.inr ⟨?_, hout.1, ?_⟩
      · show 2 ≤ m.recursion + 1
        omega
      · show m.count = wrap ((m.recursion + 1 : ℕ) - 1)
        rw [hout.2]
        simp
  refine ⟨_, ho, Or.inr ⟨?_, ?_, ?_⟩, ⟨hdistinct, ?_, ?_⟩, Or.inr ⟨howner, Or.inr rfl⟩⟩
  · exact fun h => nomatch h
  · show 1 ≤ m.recursion + 1
    omega
  · show m.recursion + 1 ≤ maximumRecursion
    omega
  · intro _
    rw [hstage']
    exact howned
  · intro h
    exact absurd rfl h

/-- A thread at a stage where only the owner can be. -/
theorem Stands.owned {g : Stage} (h : Stands p t m l) (hg : stage p l = g) (hnot : ¬ NotOwned g) :
    m.owner = some t ∧ Owned t m g := by
  by_cases howner : m.owner = some t
  · exact ⟨howner, hg ▸ h.2.1 howner⟩
  · exact absurd (hg ▸ h.2.2 howner) hnot

/-- The bounds of the recursion count of a mutex that is owned. -/
theorem Consistent.bounds (h : Consistent m) (howner : m.owner = some t) :
    1 ≤ m.recursion ∧ m.recursion ≤ maximumRecursion := by
  rcases h with ⟨hnone, -⟩ | ⟨-, hbounds⟩
  · rw [howner] at hnone
    cases hnone
  · exact hbounds

omit [DecidableEq P] in
theorem ne_of_not_mutex {q : P} {d : Dispatch T} (hm : o p = some (.mutex m)) (hq : o q = some d)
    (hd : ∀ m, d ≠ .mutex m) : p ≠ q := by
  rintro rfl
  rw [hm] at hq
  exact hd m (Option.some.inj hq).symm

theorem loopStage_cons {q : P} {rest : List P} (h : p ≠ q) :
    loopStage p (q :: rest) = loopStage p rest := by
  simp [loopStage, h]

theorem loopStage_not_mem {rest : List P} (h : p ∉ rest) : loopStage p rest = .out := by
  rw [loopStage, if_neg h]

theorem stage_afterWait_none {objects : List P} {all : Bool} {rc : ℕ}
    (h : maximumWaitObjects ≤ rc) : stage p (afterWait objects all rc) = .out := by
  simp [afterWait, stage, waitStatus_none h, loopStage]

omit [DecidableEq P] in
theorem distinct_afterWait_none {objects : List P} {all : Bool} {rc : ℕ}
    (h : maximumWaitObjects ≤ rc) : Distinct (afterWait objects all rc) := by
  simp [afterWait, Distinct, waitStatus_none h]

omit [DecidableEq P] in
/-- After a satisfied wait for any, on an object that is no abandoned mutex. -/
theorem afterWait_any {nullevent : Bool} {objects : List P} {i : ℕ} {q : P}
    (hmax : (waitHandles nullevent objects).length ≤ maximumWaitObjects)
    (hhandle : (waitHandles nullevent objects)[i]? = some (some q)) :
    afterWait objects false i = .update [q] i := by
  rcases List.getElem?_eq_some_iff.1 hhandle with ⟨hi, -⟩
  rw [afterWait, waitStatus_object false (Nat.lt_of_lt_of_le hi hmax), getElem?_of_handle hhandle]
  rfl

/-- `ReleaseMutex` by the owner. -/
theorem leads_release {rc : ℤ} {result : Result} (hconsistent : Consistent m)
    (howner : m.owner = some t) (howned : Owned t m (.release rc)) :
    Leads p t m (o.set p (.mutex m.release)) (.returned result) := by
  have hmax := (hconsistent.bounds howner).2
  rcases howned with ⟨-, hone, hnone, hzero⟩ | ⟨-, htwo, hown, hcount⟩
  · -- the mutex becomes free
    have hfree : m.release.owner = none := by
      rw [Mutex.release, if_pos hone]
    refine ⟨m.release, set_self .., Or.inl ⟨hfree, ?_, hnone, hzero⟩, ⟨trivial, ?_, ?_⟩,
      Or.inr ⟨Or.inr howner, Or.inl hfree⟩⟩
    · show m.recursion - 1 = 0
      omega
    · intro h
      rw [hfree] at h
      cases h
    · exact fun _ => trivial
  · have hkeeps : m.release.owner = some t := by
      rw [Mutex.release, if_neg (by omega)]
      exact howner
    refine ⟨m.release, set_self .., Or.inr ⟨?_, ?_, ?_⟩, ⟨trivial, ?_, ?_⟩,
      Or.inr ⟨Or.inr howner, Or.inr hkeeps⟩⟩
    · rw [hkeeps]
      exact fun h => nomatch h
    · show 1 ≤ m.recursion - 1
      omega
    · show m.recursion - 1 ≤ maximumRecursion
      omega
    · intro _
      refine ⟨hown, ?_⟩
      show m.count = wrap ((m.recursion - 1 : ℕ) : ℤ)
      rw [hcount, Int.natCast_sub (by omega)]
      rfl
    · exact fun h => absurd hkeeps h

variable [DecidableEq T]

omit [DecidableEq P] [DecidableEq T] in
/-- A step on a mutex is one on this mutex or on another. -/
theorem same_or_other {q : P} {m₂ : Mutex T} (hm : o p = some (.mutex m))
    (hq : o q = some (.mutex m₂)) : p = q ∧ m = m₂ ∨ p ≠ q := by
  by_cases hpq : p = q
  · subst hpq
    rw [hm] at hq
    cases hq
    exact Or.inl ⟨rfl, rfl⟩
  · exact Or.inr hpq

/-- A wait for any object is satisfied. -/
theorem leads_waitAny {nullevent : Bool} {objects : List P} {i : ℕ} {q : P} {d : Dispatch T}
    (hm : o p = some (.mutex m)) (hconsistent : Consistent m) (hstands : Stands p t m l)
    (hstage : stage p l = .out)
    (habandoned : ∀ q m, o q = some (.mutex m) → m.abandoned = false)
    (hmax : (waitHandles nullevent objects).length ≤ maximumWaitObjects)
    (hhandle : (waitHandles nullevent objects)[i]? = some (some q)) (hd : o q = some d)
    (hacquirable : d.acquirable t = true) :
    Leads p t m (acquireAll t o [q])
      (afterWait objects false (if d.abandoned then waitAbandoned0 + i else i)) := by
  have hplain : d.abandoned = false := by
    cases d with
    | mutex m₂ => exact habandoned q m₂ hd
    | _ => rfl
  rw [hplain, if_neg (by decide), afterWait_any hmax hhandle]
  by_cases hpq : p = q
  · subst hpq
    rw [hm] at hd
    cases hd
    exact leads_acquire hconsistent hstands hstage hacquirable
      (acquireAll_of_mem t (List.mem_singleton.2 rfl) hm) (by simp [stage, loopStage])
      (List.nodup_singleton _)
  · have hnot : p ∉ [q] := by simpa using hpq
    exact leads_same hm hconsistent hstands (acquireAll_of_not_mem t hnot)
      ((loopStage_not_mem hnot).trans hstage.symm) (List.nodup_singleton _)

/-- A wait for all objects is satisfied. -/
theorem leads_waitAll {objects : List P} {i : ℕ} (hm : o p = some (.mutex m))
    (hconsistent : Consistent m) (hstands : Stands p t m l) (hstage : stage p l = .out)
    (habandoned : ∀ q m, o q = some (.mutex m) → m.abandoned = false)
    (hmax : objects.length ≤ maximumWaitObjects) (hnodup : objects.Nodup)
    (hacquirable : Acquirable t o objects) (hi : i < objects.length) :
    Leads p t m (acquireAll t o objects)
      (afterWait objects true (if abandonedAt o objects[i]? then waitAbandoned0 + i else i)) := by
  have hnone : abandonedAt o objects[i]? = false := by
    rw [List.getElem?_eq_getElem hi]
    rcases hacquirable _ (List.getElem_mem hi) with ⟨d, hd, -⟩
    rw [abandonedAt, hd, Option.any_some]
    cases d with
    | mutex m₂ => exact habandoned _ m₂ hd
    | _ => rfl
  have hafter : afterWait objects true i = .update objects i := by
    rw [afterWait, waitStatus_object true (Nat.lt_of_lt_of_le hi hmax)]
    rfl
  rw [hnone, if_neg (by decide), hafter]
  by_cases hp : p ∈ objects
  · rcases hacquirable p hp with ⟨d, hd, hacq⟩
    rw [hm] at hd
    cases hd
    exact leads_acquire hconsistent hstands hstage hacq (acquireAll_of_mem t hp hm)
      (by simp [stage, loopStage, hp]) hnodup
  · exact leads_same hm hconsistent hstands (acquireAll_of_not_mem t hp)
      ((loopStage_not_mem hp).trans hstage.symm) hnodup

omit [DecidableEq T] in
/-- `KeReleaseMutex` writes the decremented count, and goes by what it wrote. -/
theorem leads_decremented {count : ℤ} (hconsistent : Consistent m) (howner : m.owner = some t)
    (hown : m.threadid = some t) (hcount : count = wrap m.recursion) :
    Leads p t m (o.set p (.mutex { m with count := wrap (count - 1) }))
      (if wrap (count - 1) = 0 then .mutexClear p else .mutexRelease p 1) := by
  rcases hconsistent.bounds howner with ⟨hpos, hmax⟩
  have hvalue : wrap (count - 1) = m.recursion - 1 := by
    rw [hcount, Int.sub_eq_add_neg, wrap_wrap_add, ← Int.sub_eq_add_neg]
    refine wrap_of_range (by omega) ?_
    rw [maximumRecursion] at hmax
    omega
  rw [hvalue]
  by_cases hone : m.recursion = 1
  · rw [if_pos (by omega)]
    exact leads_write hconsistent howner rfl rfl trivial
      (by simpa [stage, Owned, hone] using hown)
  · rw [if_neg (by omega)]
    refine leads_write hconsistent howner rfl rfl trivial ?_
    rw [stage, if_pos rfl]
    refine Or.inr ⟨rfl, ?_, hown, ?_⟩
    · show 2 ≤ m.recursion
      omega
    · show (m.recursion : ℤ) - 1 = wrap (m.recursion - 1)
      rw [← hvalue, wrap_wrap]

/-- A step keeps the assertions about the mutex and about its thread. -/
theorem leads_of_act {nullevent : Bool} (hact : Act nullevent OwnsNone t o l o' l')
    (hm : o p = some (.mutex m)) (hconsistent : Consistent m) (hstands : Stands p t m l)
    (habandoned : ∀ q m, o q = some (.mutex m) → m.abandoned = false)
    (hthread : m.threadid = some t → m.owner = some t) : Leads p t m o' l' := by
  cases hact with
  | waitCall objects waitAll waitBlockArray hcount hvalid =>
    exact leads_same hm hconsistent hstands rfl rfl trivial
  | waitAny hmax hhandle hd hacquirable =>
    exact leads_waitAny hm hconsistent hstands rfl habandoned hmax hhandle hd hacquirable
  | waitAll hmax hhandles hnodup hacquirable hi hrc =>
    have hobjects := objects_of_handles hhandles
    subst hobjects
    exact leads_waitAll hm hconsistent hstands rfl habandoned hmax hnodup hacquirable hi
  | waitNone hrc =>
    have hlarge : ∀ rc ∈ [waitTimeout, waitIoCompletion, waitFailed], maximumWaitObjects ≤ rc := by
      decide
    exact leads_same hm hconsistent hstands rfl (stage_afterWait_none (hlarge _ hrc))
      (distinct_afterWait_none (hlarge _ hrc))
  | updateSemaphore hq =>
    have hpq := ne_of_not_mutex hm hq fun _ h => nomatch h
    exact leads_other hm hconsistent hstands hpq (loopStage_cons hpq).symm
      (List.nodup_cons.1 hstands.1).2
  | updateOther hq hsemaphore hmutex =>
    have hpq := ne_of_not_mutex hm hq hmutex
    exact leads_same hm hconsistent hstands rfl (loopStage_cons hpq).symm
      (List.nodup_cons.1 hstands.1).2
  | updateDone => exact leads_same hm hconsistent hstands rfl rfl trivial
  | @updateNew q rest status m₂ hq hother =>
    rcases same_or_other hm hq with ⟨rfl, rfl⟩ | hpq
    · rcases hstands.owned (by simp [stage, loopStage]) (g := .pending) id with ⟨howner, howned⟩
      rcases howned with ⟨hone, hnone, -⟩ | ⟨-, hown, -⟩
      · exact leads_read hm hconsistent howner hstands.1
          (by simpa [stage, Owned] using ⟨hone, hnone⟩)
      · exact absurd hown hother
    · exact leads_same hm hconsistent hstands rfl (by simp [stage, loopStage, hpq, Ne.symm hpq])
        hstands.1
  | @updateOwn q rest status m₂ hq hown =>
    rcases same_or_other hm hq with ⟨rfl, rfl⟩ | hpq
    · rcases hstands.owned (by simp [stage, loopStage]) (g := .pending) id with ⟨howner, howned⟩
      rcases howned with ⟨-, hnone, -⟩ | ⟨-, -, hcount⟩
      · rw [hown] at hnone
        cases hnone
      · exact leads_read hm hconsistent howner hstands.1
          (by simpa [stage, Owned] using ⟨hown, hcount⟩)
    · exact leads_same hm hconsistent hstands rfl (by simp [stage, loopStage, hpq, Ne.symm hpq])
        hstands.1
  | @updateThread q rest status m₂ hq =>
    rcases same_or_other hm hq with ⟨rfl, rfl⟩ | hpq
    · rcases hstands.owned (by simp [stage]) (g := .setThread) id with ⟨howner, hone, -⟩
      exact leads_write hconsistent howner rfl rfl hstands.1 (by simpa [stage, Owned] using hone)
    · exact leads_other hm hconsistent hstands hpq (by simp [stage, Ne.symm hpq]) hstands.1
  | @updateCount q rest status m₂ hq =>
    rcases same_or_other hm hq with ⟨rfl, rfl⟩ | hpq
    · rcases List.nodup_cons.1 hstands.1 with ⟨hrest, hdistinct⟩
      rcases hstands.owned (by simp [stage]) (g := .setCount) id with ⟨howner, hone, hown⟩
      refine leads_write hconsistent howner rfl rfl hdistinct ?_
      rw [stage, loopStage_not_mem hrest]
      refine ⟨hown, ?_⟩
      show (1 : ℤ) = wrap m.recursion
      rw [hone]
      decide
    · exact leads_other hm hconsistent hstands hpq (by simp [stage, Ne.symm hpq])
        (List.nodup_cons.1 hstands.1).2
  | @updateRead q rest status m₂ hq =>
    rcases same_or_other hm hq with ⟨rfl, rfl⟩ | hpq
    · rcases hstands.owned (by simp [stage]) (g := .readCount) id with ⟨howner, hown, hcount⟩
      exact leads_read hm hconsistent howner hstands.1
        (by simpa [stage, Owned] using ⟨hown, hcount⟩)
    · exact leads_same hm hconsistent hstands rfl (by simp [stage, Ne.symm hpq]) hstands.1
  | @updateWrite q rest status m₂ count hq =>
    rcases same_or_other hm hq with ⟨rfl, rfl⟩ | hpq
    · rcases List.nodup_cons.1 hstands.1 with ⟨hrest, hdistinct⟩
      rcases hstands.owned (by simp [stage]) (g := .writeCount count) id with ⟨howner, hown, hcount⟩
      refine leads_write hconsistent howner rfl rfl hdistinct ?_
      rw [stage, loopStage_not_mem hrest]
      refine ⟨hown, ?_⟩
      show wrap (count + 1) = wrap m.recursion
      rw [hcount, wrap_wrap_add, Int.sub_add_cancel]
    · exact leads_other hm hconsistent hstands hpq (by simp [stage, Ne.symm hpq])
        (List.nodup_cons.1 hstands.1).2
  | semaphoreCall adjustment hq => exact leads_same hm hconsistent hstands rfl rfl trivial
  | semaphoreAdd hq =>
    exact leads_other hm hconsistent hstands (ne_of_not_mutex hm hq fun _ h => nomatch h) rfl
      trivial
  | semaphoreReleased hq hfits =>
    exact leads_other hm hconsistent hstands (ne_of_not_mutex hm hq fun _ h => nomatch h) rfl
      trivial
  | semaphoreRaised hq hfits => exact leads_same hm hconsistent hstands rfl rfl trivial
  | mutexCall hq => exact leads_same hm hconsistent hstands rfl rfl trivial
  | @mutexTestOther q m₂ hq hother =>
    rcases same_or_other hm hq with ⟨rfl, rfl⟩ | hpq
    · -- the owner would have found its id
      have hnot : m.owner ≠ some t := fun howner => hother (hstands.2.1 howner).1
      refine ⟨m, hm, hconsistent, ⟨trivial, fun howner => absurd howner hnot, ?_⟩, Or.inl rfl⟩
      intro _
      simp [stage, NotOwned]
    · exact leads_same hm hconsistent hstands rfl (by simp [stage, Ne.symm hpq]) trivial
  | @mutexTestOwn q m₂ hq hown =>
    rcases same_or_other hm hq with ⟨rfl, rfl⟩ | hpq
    · have howner := hthread hown
      refine leads_read hm hconsistent howner trivial ?_
      simpa [stage, Owned] using hstands.2.1 howner
    · exact leads_same hm hconsistent hstands rfl (by simp [stage, Ne.symm hpq]) trivial
  | @mutexRead q m₂ hq =>
    rcases same_or_other hm hq with ⟨rfl, rfl⟩ | hpq
    · rcases hstands.owned (by simp [stage]) (g := .decrement) id with ⟨howner, hown, hcount⟩
      exact leads_read hm hconsistent howner trivial (by simpa [stage, Owned] using ⟨hown, hcount⟩)
    · exact leads_same hm hconsistent hstands rfl (by simp [stage, Ne.symm hpq]) trivial
  | @mutexWrite q m₂ count hq =>
    rcases same_or_other hm hq with ⟨rfl, rfl⟩ | hpq
    · rcases hstands.owned (by simp [stage]) (g := .decremented count) id with
        ⟨howner, hown, hcount⟩
      exact leads_decremented hconsistent howner hown hcount
    · refine leads_other hm hconsistent hstands hpq ?_ ?_
      · split <;> simp [stage, Ne.symm hpq]
      · split <;> trivial
  | @mutexClear q m₂ hq =>
    rcases same_or_other hm hq with ⟨rfl, rfl⟩ | hpq
    · rcases hstands.owned (by simp [stage]) (g := .clear) id with ⟨howner, hone, -, hcount⟩
      refine leads_write hconsistent howner rfl rfl trivial ?_
      rw [stage, if_pos rfl]
      exact Or.inl ⟨rfl, hone, rfl, hcount⟩
    · exact leads_other hm hconsistent hstands hpq (by simp [stage, Ne.symm hpq]) trivial
  | @mutexReleased q m₂ rc hq howner =>
    rcases same_or_other hm hq with ⟨rfl, rfl⟩ | hpq
    · have howned := hstands.2.1 howner
      rw [stage, if_pos rfl] at howned
      exact leads_release hconsistent howner howned
    · exact leads_other hm hconsistent hstands hpq (by simp [stage, Ne.symm hpq]) trivial
  | @mutexRefused q m₂ rc hq hnot =>
    rcases same_or_other hm hq with ⟨rfl, rfl⟩ | hpq
    · exact ⟨m, hm, hconsistent, ⟨trivial, fun howner => absurd howner hnot, fun _ => trivial⟩,
        Or.inl rfl⟩
    · exact leads_same hm hconsistent hstands rfl (by simp [stage, Ne.symm hpq]) trivial
  | ret => exact leads_same hm hconsistent hstands rfl rfl trivial
  | @signal q d d' hq hflips =>
    refine leads_other hm hconsistent hstands (ne_of_not_mutex hm hq ?_) rfl trivial
    rintro m₂ rfl
    exact hflips.elim
  | exit hexit =>
    refine leads_same hm hconsistent hstands ?_ rfl trivial
    simp only [abandonAll, hm, Option.map_some, Mutex.abandon, if_neg (hexit p m hm)]

omit [DecidableEq T] in
/-- Writing an object that is no mutex makes no mutex. -/
theorem mutex_of_set {q : P} {d : Dispatch T} {m' : Mutex T} (h : o.set q d p = some (.mutex m'))
    (hd : ∀ m', d = .mutex m' → ∃ m, o q = some (.mutex m) ∧ m'.abandoned = m.abandoned) :
    ∃ m, o p = some (.mutex m) ∧ m'.abandoned = m.abandoned := by
  by_cases hpq : p = q
  · subst hpq
    rw [set_self] at h
    exact hd m' (Option.some.inj h)
  · rw [set_of_ne o d hpq] at h
    exact ⟨m', h, rfl⟩

omit [DecidableEq T] in
/-- A wait makes no mutex and abandons none. -/
theorem mutex_of_acquireAll {ps : List P} {m' : Mutex T}
    (h : acquireAll t o ps p = some (.mutex m')) :
    ∃ m, o p = some (.mutex m) ∧ (m.abandoned = false → m'.abandoned = false) := by
  by_cases hp : p ∈ ps
  · rw [acquireAll, if_pos hp] at h
    rcases Option.map_eq_some_iff.1 h with ⟨d, hd, hacquire⟩
    cases d with
    | mutex m =>
      cases hacquire
      exact ⟨m, hd, fun _ => rfl⟩
    | event notify signalled => cases hacquire
    | timer notify signalled => cases hacquire
    | thread terminated => cases hacquire
    | semaphore s => cases hacquire
  · rw [acquireAll_of_not_mem t hp] at h
    exact ⟨m', h, id⟩

/-- A mutex was one before the step, and no step abandons a mutex. -/
theorem mutex_of_act {nullevent : Bool} {m' : Mutex T} (hact : Act nullevent OwnsNone t o l o' l')
    (h : o' p = some (.mutex m')) :
    ∃ m, o p = some (.mutex m) ∧ (m.abandoned = false → m'.abandoned = false) := by
  have hset : ∀ {q : P} {d : Dispatch T}, o' = o.set q d →
      (∀ m', d = .mutex m' → ∃ m, o q = some (.mutex m) ∧ m'.abandoned = m.abandoned) →
      ∃ m, o p = some (.mutex m) ∧ (m.abandoned = false → m'.abandoned = false) := by
    intro q d ho hd
    rw [ho] at h
    rcases mutex_of_set h hd with ⟨m, hm, heq⟩
    exact ⟨m, hm, fun hfalse => heq.trans hfalse⟩
  cases hact with
  | waitAny hmax hhandle hd hacquirable => exact mutex_of_acquireAll h
  | waitAll hmax hhandles hnodup hacquirable hi hrc => exact mutex_of_acquireAll h
  | updateSemaphore hq => exact hset rfl fun _ hd => nomatch hd
  | updateThread hq => exact hset rfl fun _ hd => ⟨_, hq, by cases hd; rfl⟩
  | updateCount hq => exact hset rfl fun _ hd => ⟨_, hq, by cases hd; rfl⟩
  | updateWrite hq => exact hset rfl fun _ hd => ⟨_, hq, by cases hd; rfl⟩
  | semaphoreAdd hq => exact hset rfl fun _ hd => nomatch hd
  | semaphoreReleased hq hfits => exact hset rfl fun _ hd => nomatch hd
  | mutexWrite hq => exact hset rfl fun _ hd => ⟨_, hq, by cases hd; rfl⟩
  | mutexClear hq => exact hset rfl fun _ hd => ⟨_, hq, by cases hd; rfl⟩
  | mutexReleased hq howner => exact hset rfl fun _ hd => ⟨_, hq, by cases hd; rfl⟩
  | @signal q d d' hq hflips =>
    refine hset rfl ?_
    rintro m₂ rfl
    cases d <;> exact hflips.elim
  | exit hexit =>
    rcases Option.map_eq_some_iff.1 h with ⟨d, hd, habandon⟩
    cases d with
    | mutex m =>
      simp only [Mutex.abandon, if_neg (hexit p m hd)] at habandon
      cases habandon
      exact ⟨_, hd, id⟩
    | event notify signalled => cases habandon
    | timer notify signalled => cases habandon
    | thread terminated => cases habandon
    | semaphore s => cases habandon
  | waitCall objects waitAll waitBlockArray hcount hvalid => exact ⟨m', h, id⟩
  | waitNone hrc => exact ⟨m', h, id⟩
  | updateOther hq hsemaphore hmutex => exact ⟨m', h, id⟩
  | updateDone => exact ⟨m', h, id⟩
  | updateNew hq hother => exact ⟨m', h, id⟩
  | updateOwn hq hown => exact ⟨m', h, id⟩
  | updateRead hq => exact ⟨m', h, id⟩
  | semaphoreCall adjustment hq => exact ⟨m', h, id⟩
  | semaphoreRaised hq hfits => exact ⟨m', h, id⟩
  | mutexCall hq => exact ⟨m', h, id⟩
  | mutexTestOther hq hother => exact ⟨m', h, id⟩
  | mutexTestOwn hq hown => exact ⟨m', h, id⟩
  | mutexRead hq => exact ⟨m', h, id⟩
  | mutexRefused hq hnot => exact ⟨m', h, id⟩
  | ret => exact ⟨m', h, id⟩

end Steps

/-! ## Runs -/

section Runs

variable [DecidableEq P] [DecidableEq T] {nullevent : Bool}

/-- The assertions about all mutexes. -/
def MutexesOk (_ : Unit) (o : Objects P T) : Prop :=
  ∀ p m, o p = some (.mutex m) → Consistent m ∧ m.abandoned = false

/-- The assertions about a thread and all mutexes. -/
def StandsAt (t : T) (_ : Unit) (o : Objects P T) (l : Pc P) : Prop :=
  ∀ p m, o p = some (.mutex m) → Stands p t m l

/-- The assertions hold after every run in which no thread exits with a mutex. -/
theorem mutexes_ok {ts : List T} {c : Conf (Objects P T) T (Pc P)}
    (h : Trace InitMutexes (Step (Act nullevent OwnsNone)) ts c) : Holds MutexesOk StandsAt c := by
  refine Threads.invariant ?_ ?_ h
  · rintro c ⟨hidle, hinit⟩
    refine ⟨(), ?_, ?_⟩
    · intro p m hm
      rw [hinit p m hm]
      exact ⟨Or.inl ⟨rfl, rfl, rfl, rfl⟩, rfl⟩
    · intro t p m hm
      rw [hinit p m hm, hidle t]
      refine ⟨trivial, ?_, fun _ => trivial⟩
      intro howner
      cases howner
  · intro _ c t o' l' hok hall hact
    have hleads : ∀ p m, c.shared p = some (.mutex m) → Leads p t m o' l' := by
      intro p m hm
      exact leads_of_act hact hm (hok p m hm).1 (hall t p m hm) (fun q m hq => (hok q m hq).2)
        (owner_of_threadid (hok p m hm).1 fun u => hall u p m hm)
    -- a mutex after the step comes from a mutex before it
    have hback : ∀ p m', o' p = some (.mutex m') → ∃ m, c.shared p = some (.mutex m) ∧
        Consistent m' ∧ m'.abandoned = false ∧ Stands p t m' l' ∧ Touches t m m' := by
      intro p m' hm'
      rcases mutex_of_act hact hm' with ⟨m, hm, habandoned⟩
      rcases hleads p m hm with ⟨m₂, hm₂, hconsistent, hstands, htouches⟩
      rw [hm'] at hm₂
      cases hm₂
      exact ⟨m, hm, hconsistent, habandoned (hok p m hm).2, hstands, htouches⟩
    refine ⟨(), ?_, ?_, ?_⟩
    · intro p m' hm'
      rcases hback p m' hm' with ⟨-, -, hconsistent, habandoned, -⟩
      exact ⟨hconsistent, habandoned⟩
    · intro p m' hm'
      rcases hback p m' hm' with ⟨-, -, -, -, hstands, -⟩
      exact hstands
    · intro u hu hat p m' hm'
      rcases hback p m' hm' with ⟨m, hm, -, -, -, htouches⟩
      exact stands_stable hu htouches (hat p m hm)

/-- The points of `KeReleaseMutex` on the mutex at `p`. -/
def Releasing (p : P) : Pc P → Prop
  | .mutexTest q => q = p
  | .mutexRead q => q = p
  | .mutexWrite q _ => q = p
  | .mutexClear q => q = p
  | .mutexRelease q _ => q = p
  | _ => False

omit [DecidableEq T] in
/-- A mutex when no call is in progress. -/
theorem copy_of_idle {p : P} {m : Mutex T} (hconsistent : Consistent m)
    (hstands : ∀ t, Stands p t m (.idle : Pc P)) :
    m.threadid = m.owner ∧ m.count = wrap m.recursion ∧ (m.owner = none ↔ m.recursion = 0) ∧
      m.recursion ≤ maximumRecursion := by
  rcases hconsistent with ⟨hfree, hzero, hthread, hcount⟩ | ⟨hsome, hpos, hmax⟩
  · rw [hfree, hzero, hthread, hcount]
    exact ⟨rfl, rfl, ⟨fun _ => rfl, fun _ => rfl⟩, Nat.zero_le _⟩
  · rcases Option.ne_none_iff_exists'.1 hsome with ⟨t, ht⟩
    rcases (hstands t).2.1 ht with ⟨hthread, hcount⟩
    refine ⟨hthread.trans ht.symm, hcount, ⟨fun h => absurd h hsome, ?_⟩, hmax⟩
    intro h
    omega

omit [DecidableEq T] in
/-- A `LONG` holds the recursion count up to the last but one that Win32 allows. -/
theorem wrap_recursion_iff {n : ℕ} (h : n ≤ maximumRecursion) :
    wrap n = (n : ℤ) ↔ n < maximumRecursion := by
  constructor
  · intro heq
    refine lt_of_le_of_ne h ?_
    rintro rfl
    exact absurd heq (by decide)
  · intro hlt
    rw [maximumRecursion] at hlt
    exact wrap_of_range (by omega) (by omega)

/-- A release by a thread that does not own the mutex does not write anything. -/
theorem release_not_owned {p : P} {t : T} {m : Mutex T} {o o' : Objects P T} {l l' : Pc P}
    (hact : Act nullevent OwnsNone t o l o' l') (hm : o p = some (.mutex m))
    (hstands : Stands p t m l) (hreleasing : Releasing p l) (hnot : m.owner ≠ some t) :
    o' = o := by
  have hstage := hstands.2.2 hnot
  cases hact with
  | mutexTestOther hq hother => rfl
  | mutexTestOwn hq hown => rfl
  | mutexRead hq => rfl
  | mutexWrite hq =>
    cases hreleasing
    simp [stage, NotOwned] at hstage
  | mutexClear hq =>
    cases hreleasing
    simp [stage, NotOwned] at hstage
  | mutexReleased hq howner =>
    cases hreleasing
    rw [hm] at hq
    cases hq
    exact absurd howner hnot
  | mutexRefused hq hnot => rfl
  | _ => cases hreleasing

/-- The value of `KeReleaseMutex`. -/
theorem release_value {p : P} {t : T} {m : Mutex T} {o o' : Objects P T} {rc v : ℤ}
    (hact : Act nullevent OwnsNone t o (.mutexRelease p rc) o' (.returned (.long v)))
    (hm : o p = some (.mutex m)) (hstands : Stands p t m (.mutexRelease p rc)) :
    v = 0 ↔ m.owner = some t ∧ ∃ m', o' p = some (.mutex m') ∧ m'.owner = none := by
  cases hact with
  | mutexReleased hq howner =>
    rw [hm] at hq
    cases hq
    have howned := hstands.2.1 howner
    rw [stage, if_pos rfl] at howned
    rcases howned with ⟨rfl, hone, -⟩ | ⟨rfl, htwo, -⟩
    · exact iff_of_true rfl ⟨howner, m.release, set_self .., by rw [Mutex.release, if_pos hone]⟩
    · refine iff_of_false (by decide) ?_
      rintro ⟨-, m', hm', hfree⟩
      rw [set_self] at hm'
      cases hm'
      rw [Mutex.release, if_neg (by omega), howner] at hfree
      cases hfree
  | mutexRefused hq hnot =>
    rw [hm] at hq
    cases hq
    exact iff_of_false (by decide) fun h => hnot h.1

/-- The copy that the routines keep is that of the Win32 mutex. -/
def CopyRight (m : Mutex T) : Prop := m.threadid = m.owner ∧ m.count = m.recursion

omit [DecidableEq P] [DecidableEq T] in
/-- **The owner of a mutex.** In a run in which no thread exits while it owns a mutex:
whenever no call is in progress, `threadid` and `count` are the owner and the
recursion count of the Win32 mutex if and only if it was not acquired 2^31 times more
often than it was released; the steps of a release by a thread that does not own the
mutex write nothing; and the release returns 0 if and only if it made the mutex free. -/
theorem owner_copy_iff [DecidableEq P] [DecidableEq T] {ts : List T}
    {c : Conf (Objects P T) T (Pc P)}
    (h : Trace InitMutexes (Step (Act nullevent OwnsNone)) ts c) :
    ((∀ t, c.pc t = .idle) → ∀ p m, c.shared p = some (.mutex m) →
      (CopyRight m ↔ m.recursion < 2 ^ 31) ∧ (m.owner = none ↔ m.recursion = 0)) ∧
    (∀ t p m o' l', c.shared p = some (.mutex m) → Releasing p (c.pc t) → m.owner ≠ some t →
      Act nullevent OwnsNone t c.shared (c.pc t) o' l' → o' = c.shared) ∧
    (∀ t p m rc o' v, c.shared p = some (.mutex m) → c.pc t = .mutexRelease p rc →
      Act nullevent OwnsNone t c.shared (c.pc t) o' (.returned (.long v)) →
      (v = 0 ↔ m.owner = some t ∧ ∃ m', o' p = some (.mutex m') ∧ m'.owner = none)) := by
  rcases mutexes_ok h with ⟨_, hok, hall⟩
  refine ⟨?_, ?_, ?_⟩
  · intro hidle p m hm
    have hstands : ∀ t, Stands p t m (.idle : Pc P) := by
      intro t
      rw [← hidle t]
      exact hall t p m hm
    rcases copy_of_idle (hok p m hm).1 hstands with ⟨hthread, hcount, hfree, hmax⟩
    refine ⟨?_, hfree⟩
    rw [CopyRight, hcount, wrap_recursion_iff hmax]
    exact and_iff_right hthread
  · intro t p m o' l' hm hreleasing hnot hact
    exact release_not_owned hact hm (hall t p m hm) hreleasing hnot
  · intro t p m rc o' v hm hpc hact
    rw [hpc] at hact
    refine release_value hact hm ?_
    rw [← hpc]
    exact hall t p m hm

end Runs

/-! ## Nested waits -/

section Nested

/-- The mutex that one thread has acquired this many times. -/
def nestedMutex (n : ℕ) : Mutex Bool :=
  ⟨if n = 0 then none else some true, n, false, if n = 0 then none else some true, wrap n⟩

/-- The mutex after one more wait, before its update. -/
def heldMutex (n : ℕ) : Mutex Bool := ⟨some true, n + 1, false, (nestedMutex n).threadid, wrap n⟩

theorem heldMutex_updated {n : ℕ} (hpos : 0 < n) :
    { heldMutex n with count := wrap ((heldMutex n).count + 1) } = nestedMutex (n + 1) := by
  have hown : (nestedMutex n).threadid = some true := if_neg (by omega)
  rw [heldMutex, hown, wrap_wrap_add, nestedMutex, if_neg (Nat.succ_ne_zero n), Nat.cast_succ]

theorem acquireAll_nested (n : ℕ) :
    acquireAll true (fun _ => some (.mutex (nestedMutex n))) [()] =
      fun _ => some (.mutex (heldMutex n)) := by
  have hacquire : (Dispatch.mutex (nestedMutex n)).acquire true = .mutex (heldMutex n) := by
    rw [nestedMutex, Dispatch.acquire, heldMutex, nestedMutex]
  funext p
  rw [← hacquire]
  exact acquireAll_of_mem true (List.mem_singleton.2 rfl) rfl

/-- All threads are at rest after that many waits of one for the only object. -/
def Nested (n : ℕ) (c : Conf (Objects Unit Bool) Bool (Pc Unit)) : Prop :=
  c = ⟨fun _ => some (.mutex (nestedMutex n)), fun _ => .idle⟩

theorem nestedMutex_acquirable {n : ℕ} (h : n < maximumRecursion) :
    (Dispatch.mutex (nestedMutex n)).acquirable true = true := by
  rw [Dispatch.acquirable, Bool.and_eq_true, decide_eq_true_eq]
  refine ⟨h, ?_⟩
  by_cases hn : n = 0
  · simp [Dispatch.signalled, nestedMutex, hn]
  · simp [Dispatch.signalled, nestedMutex, hn]

/-- The end of a call leaves all threads at rest. -/
theorem nested_of_steps {n : ℕ} {ts : List Bool} {c : Conf (Objects Unit Bool) Bool (Pc Unit)}
    (h : Trace InitMutexes (Step (Act true OwnsNone)) ts c)
    (hmutex : c.shared () = some (.mutex (nestedMutex n)))
    (hidle : ∀ t, c.pc t = .idle) :
    ∃ ts c, Trace InitMutexes (Step (Act true OwnsNone)) ts c ∧ Nested n c := by
  refine ⟨ts, c, h, ?_⟩
  rcases c with ⟨shared, pc⟩
  obtain rfl : pc = fun _ => .idle := funext hidle
  obtain rfl : shared = fun _ => some (.mutex (nestedMutex n)) := funext fun _ => hmutex
  rfl

/-- A thread waits again and again for a mutex, and owns it that many times. -/
theorem nested_run (n : ℕ) (h : n ≤ maximumRecursion) :
    ∃ ts c, Trace InitMutexes (Step (Act true OwnsNone)) ts c ∧ Nested n c := by
  induction n with
  | zero =>
    refine ⟨[], _, ?_, rfl⟩
    exact Trace.start ⟨fun _ => rfl, fun _ _ hm => (Dispatch.mutex.inj (Option.some.inj hm)).symm⟩
  | succ n ih =>
    rcases ih (Nat.le_of_succ_le h) with ⟨ts, c, hrun, rfl⟩
    have h := run_step hrun true
      (Act.waitCall [()] false false (by decide) (fun _ _ hn => (nomatch hn)))
    have h := run_step h true
      (Act.waitAny (i := 0) (by decide) rfl rfl (nestedMutex_acquirable (Nat.lt_of_succ_le ‹_›)))
    rcases Nat.eq_zero_or_pos n with rfl | hpos
    · -- the mutex was free
      have h := run_step h true (Act.updateNew rfl (by decide))
      have h := run_step h true (Act.updateThread rfl)
      have h := run_step h true (Act.updateCount rfl)
      have h := run_step h true Act.updateDone
      have h := run_step h true Act.ret
      exact nested_of_steps h rfl (by rintro (_ | _) <;> rfl)
    · have hown : (heldMutex n).threadid = some true := if_neg (by omega)
      have hheld := acquireAll_nested n
      have hafter : afterWait [()] false (if (Dispatch.mutex (nestedMutex n)).abandoned
          then waitAbandoned0 + 0 else 0) = .update [()] 0 := rfl
      rw [hheld, hafter] at h
      have h := run_step h true (Act.updateOwn (m := heldMutex n) rfl hown)
      have h := run_step h true (Act.updateRead (m := heldMutex n) rfl)
      have h := run_step h true (Act.updateWrite (m := heldMutex n) rfl)
      have h := run_step h true Act.updateDone
      have h := run_step h true Act.ret
      refine nested_of_steps h ?_ (by rintro (_ | _) <;> rfl)
      rw [← heldMutex_updated hpos]
      rfl

end Nested

/-- A thread waits twice for a mutex. -/
theorem owner_copy_iff_twice : ∃ (ts : List Bool) (c : Conf (Objects Unit Bool) Bool (Pc Unit)),
    Trace InitMutexes (Step (Act true OwnsNone)) ts c ∧
    c.shared () = some (.mutex ⟨some true, 2, false, some true, 2⟩) ∧
    ∀ p m, c.shared p = some (.mutex m) → CopyRight m := by
  rcases nested_run 2 (by decide) with ⟨ts, c, hrun, rfl⟩
  refine ⟨ts, _, hrun, rfl, ?_⟩
  intro p m hm
  refine (((owner_copy_iff hrun).1 (fun _ => rfl) p m hm).1).2 ?_
  cases hm
  decide

/-- After 2^31 waits of its owner the `LONG` of a mutex is negative. -/
theorem nested_waits_wrap : ¬ ∀ (ts : List Bool) (c : Conf (Objects Unit Bool) Bool (Pc Unit)),
    Trace InitMutexes (Step (Act true OwnsNone)) ts c → (∀ t, c.pc t = .idle) →
    ∀ p m, c.shared p = some (.mutex m) → CopyRight m := by
  intro hall
  rcases nested_run maximumRecursion (Nat.le_refl _) with ⟨ts, c, hrun, rfl⟩
  have hright := hall ts _ hrun (fun _ => rfl) () _ rfl
  exact absurd hright.2 (by decide)

end Wdutf.Ke
