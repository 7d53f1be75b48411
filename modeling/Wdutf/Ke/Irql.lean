import Mathlib.Data.List.Basic
import Mathlib.Tactic.Common
import Wdutf.Lib.RwLock

/-!
# Wdutf.Ke.Irql — the IRQL and the spin lock routines, `src/irql.cpp` and `src/spinlock.cpp`

Every thread has its own `DdkCurrentIrql`. The spin lock routines raise it before they take
a lock and lower it after they have released it, and nearly all of them assert where it has
to be. A routine is given here as what it does one after the other; the parts that other
threads see are steps of `Wdutf.Ke.Locks`.

* `pairs`, `givers` — the routines that take a lock, each with the one that belongs to it,
  and the routines that release one;
* `fits_call` — whatever is called, a routine knows its lock, and gives back what the thread
  has;
* `Ladder`, `runs_call` — when a thread gives back in the order of a stack, and calls within
  the documented IRQL, every routine passes its assertions and leaves the stack on the IRQL
  that was current before it.
-/

namespace Wdutf.Locks

open Wdutf.RwLock

/-! ## The routines -/

def passiveLevel : UInt8 := 0

def dispatchLevel : UInt8 := 2

/-- What the routines do. -/
inductive Instr where
  /-- `DDKASSERT(KeGetCurrentIrql() <= n)` -/
  | assertLe (n : UInt8)
  /-- `DDKASSERT(KeGetCurrentIrql() >= n)` -/
  | assertGe (n : UInt8)
  /-- `DDKASSERT(KeGetCurrentIrql() == n)` -/
  | assertEq (n : UInt8)
  /-- `KeRaiseIrql(n, &rc)` -/
  | raise (n : UInt8)
  /-- `KeRaiseIrql(KeGetCurrentIrql(), &rc)` -/
  | raiseCurrent
  /-- The address of the `SRWLOCK`: a cast, or `GetSRWLock`. -/
  | find
  | acquire (mode : Mode)
  | tryAcquire (mode : Mode)
  | release (mode : Mode)
  /-- `KeLowerIrql(NewIrql)` -/
  | lower
  /-- A raised IRQL is kept by the caller, or given back. -/
  | enter
  | leave
deriving DecidableEq, Repr

/-- `AcquireSpinLock`, with the `KeRaiseIrql` for its `NewIrql`. -/
def acquireSpinLock (raise : Instr) : List Instr := [raise, .find, .acquire .exclusive]

/-- `AcquireSpinLockShared`. -/
def acquireSpinLockShared (raise : Instr) : List Instr := [raise, .find, .acquire .shared]

/-- `AcquireSpinLockExclusive`. -/
def acquireSpinLockExclusive (raise : Instr) : List Instr := [raise, .find, .acquire .exclusive]

def keAcquireSpinLockRaiseToDpc : List Instr :=
  .assertLe dispatchLevel :: acquireSpinLock (.raise dispatchLevel)

def keAcquireSpinLockForDpc : List Instr := acquireSpinLock (.raise dispatchLevel)

def keAcquireSpinLockAtDpcLevel : List Instr :=
  .assertGe dispatchLevel :: acquireSpinLock .raiseCurrent

def keTryToAcquireSpinLockAtDpcLevel : List Instr :=
  [.assertGe dispatchLevel, .find, .tryAcquire .exclusive]

def keReleaseSpinLock : List Instr :=
  [.assertGe dispatchLevel, .find, .release .exclusive, .lower]

def keReleaseSpinLockFromDpcLevel : List Instr := keReleaseSpinLock

def keReleaseSpinLockForDpc : List Instr := keReleaseSpinLock

def keAcquireInStackQueuedSpinLock : List Instr :=
  .assertLe dispatchLevel :: acquireSpinLock (.raise dispatchLevel)

def keAcquireInStackQueuedSpinLockAtDpcLevel : List Instr :=
  .assertGe dispatchLevel :: acquireSpinLock .raiseCurrent

def keReleaseInStackQueuedSpinLock : List Instr := .assertEq dispatchLevel :: keReleaseSpinLock

def keReleaseInStackQueuedSpinLockFromDpcLevel : List Instr :=
  .assertGe dispatchLevel :: keReleaseSpinLock

def exAcquireSpinLockShared : List Instr :=
  .assertLe dispatchLevel :: acquireSpinLockShared (.raise dispatchLevel)

def exReleaseSpinLockShared : List Instr :=
  [.assertEq dispatchLevel, .find, .release .shared, .lower]

def exAcquireSpinLockSharedAtDpcLevel : List Instr :=
  .assertGe dispatchLevel :: acquireSpinLockShared .raiseCurrent

def exReleaseSpinLockSharedFromDpcLevel : List Instr :=
  [.assertGe dispatchLevel, .find, .release .shared]

def exAcquireSpinLockExclusive : List Instr :=
  .assertLe dispatchLevel :: acquireSpinLockExclusive (.raise dispatchLevel)

def exReleaseSpinLockExclusive : List Instr :=
  [.assertGe dispatchLevel, .find, .release .exclusive, .lower]

def exAcquireSpinLockExclusiveAtDpcLevel : List Instr :=
  .assertGe dispatchLevel :: acquireSpinLockExclusive .raiseCurrent

def exReleaseSpinLockExclusiveFromDpcLevel : List Instr := exReleaseSpinLockExclusive

/-- A routine that gives back. -/
structure Giver where
  code : List Instr
  /-- `NewIrql` is `KeGetCurrentIrql()`, not a parameter or what the handle holds. -/
  current : Bool
deriving DecidableEq, Repr

/-- A routine that takes a lock, with the one that belongs to it. -/
structure Pair where
  acquire : List Instr
  mode : Mode
  release : Giver
  /-- It is called at `DISPATCH_LEVEL` or above, not at or below. -/
  atDpc : Bool
deriving DecidableEq, Repr

/-- The routines for a `KSPIN_LOCK`. -/
def spinPairs : List Pair :=
  [⟨keAcquireSpinLockRaiseToDpc, .exclusive, ⟨keReleaseSpinLock, false⟩, false⟩,
    ⟨keAcquireSpinLockForDpc, .exclusive, ⟨keReleaseSpinLockForDpc, false⟩, false⟩,
    ⟨keAcquireSpinLockAtDpcLevel, .exclusive, ⟨keReleaseSpinLockFromDpcLevel, true⟩, true⟩,
    ⟨keTryToAcquireSpinLockAtDpcLevel, .exclusive, ⟨keReleaseSpinLockFromDpcLevel, true⟩, true⟩,
    ⟨keAcquireInStackQueuedSpinLock, .exclusive, ⟨keReleaseInStackQueuedSpinLock, false⟩, false⟩,
    ⟨keAcquireInStackQueuedSpinLockAtDpcLevel, .exclusive,
      ⟨keReleaseInStackQueuedSpinLockFromDpcLevel, false⟩, true⟩]

/-- The routines for an `EX_SPIN_LOCK`. -/
def exPairs : List Pair :=
  [⟨exAcquireSpinLockShared, .shared, ⟨exReleaseSpinLockShared, false⟩, false⟩,
    ⟨exAcquireSpinLockSharedAtDpcLevel, .shared, ⟨exReleaseSpinLockSharedFromDpcLevel, true⟩,
      true⟩,
    ⟨exAcquireSpinLockExclusive, .exclusive, ⟨exReleaseSpinLockExclusive, false⟩, false⟩,
    ⟨exAcquireSpinLockExclusiveAtDpcLevel, .exclusive,
      ⟨exReleaseSpinLockExclusiveFromDpcLevel, true⟩, true⟩]

variable {K W : Type}

/-- A `KSPIN_LOCK` or an `EX_SPIN_LOCK`. -/
inductive Lock (K W : Type) where
  | spin (k : K)
  | ex (w : W)
deriving DecidableEq, Repr

def pairs : Lock K W → List Pair
  | .spin _ => spinPairs
  | .ex _ => exPairs

/-- The routines that release a lock held that way. -/
def givers (lock : Lock K W) (mode : Mode) : List Giver :=
  ((pairs lock).filter fun pair => pair.mode = mode).map Pair.release

/-- What only tests or sets the IRQL. -/
def Instr.quiet : Instr → Bool
  | .assertLe _ | .assertGe _ | .assertEq _ | .raise _ | .raiseCurrent | .lower => true
  | _ => false

theorem mem_all_pairs {lock : Lock K W} {pair : Pair} (h : pair ∈ pairs lock) :
    pair ∈ spinPairs ++ exPairs := by
  cases lock with
  | spin k => exact List.mem_append_left _ h
  | ex w => exact List.mem_append_right _ h

/-- The routines that take a lock: the IRQL, the `SRWLOCK`, and the lock. -/
theorem acquire_form {lock : Lock K W} {pair : Pair} (hpair : pair ∈ pairs lock) :
    ∃ quiet, (∀ i ∈ quiet, i.quiet = true) ∧
      (pair.acquire = quiet ++ [.find, .acquire pair.mode] ∨
        pair.acquire = quiet ++ [.find, .tryAcquire pair.mode]) := by
  have hall : ∀ pair ∈ spinPairs ++ exPairs,
      (∀ i ∈ pair.acquire.takeWhile Instr.quiet, i.quiet = true) ∧
        (pair.acquire = pair.acquire.takeWhile Instr.quiet ++ [.find, .acquire pair.mode] ∨
          pair.acquire = pair.acquire.takeWhile Instr.quiet ++
            [.find, .tryAcquire pair.mode]) := by
    decide
  exact ⟨_, hall pair (mem_all_pairs hpair)⟩

/-- The routines that release one. -/
theorem giver_form {lock : Lock K W} {mode : Mode} {giver : Giver} (h : giver ∈ givers lock mode) :
    ∃ quiet quiet', (∀ i ∈ quiet, i.quiet = true) ∧ (∀ i ∈ quiet', i.quiet = true) ∧
      giver.code = quiet ++ .find :: .release mode :: quiet' := by
  have hall : ∀ pair ∈ spinPairs ++ exPairs, ∃ quiet' ∈ [[], [Instr.lower]],
      (∀ i ∈ pair.release.code.takeWhile Instr.quiet, i.quiet = true) ∧
      (∀ i ∈ quiet', i.quiet = true) ∧ pair.release.code =
        pair.release.code.takeWhile Instr.quiet ++ .find :: .release pair.mode :: quiet' := by
    decide
  rcases List.mem_map.1 h with ⟨pair, hpair, rfl⟩
  rcases List.mem_filter.1 hpair with ⟨hpair, hmode⟩
  rcases hall pair (mem_all_pairs hpair) with ⟨quiet', -, hquiet, hquiet', hcode⟩
  rw [of_decide_eq_true hmode] at hcode
  exact ⟨_, quiet', hquiet, hquiet', hcode⟩

/-- How the routines that take a lock set the IRQL. -/
theorem acquire_irql {lock : Lock K W} {pair : Pair} (hpair : pair ∈ pairs lock) :
    (pair.atDpc = false ∧ pair.release.current = false ∧
      ∃ same, (∀ i ∈ same, i = .assertLe dispatchLevel) ∧
        pair.acquire = same ++ [.raise dispatchLevel, .find, .acquire pair.mode]) ∨
    (pair.atDpc = true ∧
      (pair.acquire = [.assertGe dispatchLevel, .raiseCurrent, .find, .acquire pair.mode] ∨
        pair.acquire = [.assertGe dispatchLevel, .find, .tryAcquire pair.mode])) := by
  have hall : ∀ pair ∈ spinPairs ++ exPairs,
      (pair.atDpc = false ∧ pair.release.current = false ∧
        ∃ same ∈ [[], [Instr.assertLe dispatchLevel]],
          (∀ i ∈ same, i = .assertLe dispatchLevel) ∧
          pair.acquire = same ++ [.raise dispatchLevel, .find, .acquire pair.mode]) ∨
      (pair.atDpc = true ∧
        (pair.acquire = [.assertGe dispatchLevel, .raiseCurrent, .find, .acquire pair.mode] ∨
          pair.acquire = [.assertGe dispatchLevel, .find, .tryAcquire pair.mode])) := by
    decide
  rcases hall pair (mem_all_pairs hpair) with ⟨hdpc, hcurrent, same, -, hsame, hcode⟩ | hdpc
  · exact Or.inl ⟨hdpc, hcurrent, same, hsame, hcode⟩
  · exact Or.inr hdpc

/-- How the routines that belong to them do. -/
theorem release_irql {lock : Lock K W} {pair : Pair} (hpair : pair ∈ pairs lock) :
    ∃ same rest, pair.release.code = same ++ .find :: .release pair.mode :: rest ∧
      (∀ i ∈ same, i = .assertGe dispatchLevel ∨ i = .assertEq dispatchLevel ∧
        pair.atDpc = false) ∧
      (rest = [.lower] ∨ rest = [] ∧ pair.release.current = true) := by
  have hall : ∀ pair ∈ spinPairs ++ exPairs, ∃ rest ∈ [[], [Instr.lower]],
      pair.release.code =
        pair.release.code.takeWhile Instr.quiet ++ .find :: .release pair.mode :: rest ∧
      (∀ i ∈ pair.release.code.takeWhile Instr.quiet,
        i = .assertGe dispatchLevel ∨ i = .assertEq dispatchLevel ∧ pair.atDpc = false) ∧
      (rest = [.lower] ∨ rest = [] ∧ pair.release.current = true) := by
    decide
  rcases hall pair (mem_all_pairs hpair) with ⟨rest, -, h⟩
  exact ⟨_, rest, h⟩

/-- `KeRaiseIrql` and `KeLowerIrql`, called for themselves. -/
def raisePair : Pair := ⟨[], .exclusive, ⟨[.leave, .lower], false⟩, false⟩

/-! ## The thread's side -/

/-- What a thread has taken and not given back: a lock, or a raised IRQL. -/
structure Frame (K W : Type) where
  lock : Option (Lock K W)
  pair : Pair
  /-- The IRQL that the routine returned. -/
  irql : UInt8
  /-- The IRQL after the call. -/
  level : UInt8
deriving DecidableEq, Repr

/-- The IRQL of a thread, with the variables of the routine it runs. -/
structure Core (K W : Type) where
  /-- `DdkCurrentIrql`. -/
  irql : UInt8
  /-- `rc` or `NewIrql`. -/
  newIrql : UInt8
  lock : Option (Lock K W)
  pair : Pair
  /-- What is given back. -/
  frame : Option (Frame K W)
  frames : List (Frame K W)

/-- Nothing but the IRQL and `NewIrql` is different. -/
structure SameCall (c c' : Core K W) : Prop where
  lock : c'.lock = c.lock
  pair : c'.pair = c.pair
  frame : c'.frame = c.frame
  frames : c'.frames = c.frames

theorem SameCall.refl (c : Core K W) : SameCall c c := ⟨rfl, rfl, rfl, rfl⟩

theorem SameCall.trans {c c' c'' : Core K W} (h : SameCall c c') (h' : SameCall c' c'') :
    SameCall c c'' :=
  ⟨h'.lock.trans h.lock, h'.pair.trans h.pair, h'.frame.trans h.frame, h'.frames.trans h.frames⟩

/-- The lock, or the raised IRQL, is the caller's from here on. -/
def Core.push (c : Core K W) (irql : UInt8) : Core K W :=
  { c with frames := ⟨c.lock, c.pair, irql, c.irql⟩ :: c.frames }

/-- A call that a thread makes. -/
inductive Call (K W : Type) where
  | acquire (lock : Lock K W) (pair : Pair)
  | raise (n : UInt8)
  | lower (n : UInt8)
  | giveBack (frame : Frame K W) (giver : Giver) (n : UInt8)

/-- A lock is taken with a routine for it, and what is given back is the thread's. -/
def Call.Valid (c : Core K W) : Call K W → Prop
  | .acquire lock pair => pair ∈ pairs lock
  | .raise _ => True
  | .lower _ => True
  | .giveBack frame giver _ => frame ∈ c.frames ∧
      match frame.lock with
      | some lock => giver ∈ givers lock frame.pair.mode
      | none => giver = raisePair.release

/-- The call is at the documented IRQL, and what was taken last is given back first, by the
routine for it and to the IRQL of before. -/
def Call.Disciplined (c : Core K W) : Call K W → Prop
  | .acquire _ pair => if pair.atDpc then dispatchLevel ≤ c.irql else c.irql ≤ dispatchLevel
  | .raise n => c.irql ≤ n
  | .lower _ => False
  | .giveBack frame giver n =>
    c.frames.head? = some frame ∧ giver = frame.pair.release ∧ n = frame.irql

/-- What the thread is to run. -/
def Call.code : Call K W → List Instr
  | .acquire _ pair => pair.acquire
  | .raise n => [.raise n, .enter]
  | .lower _ => [.lower]
  | .giveBack _ giver _ => giver.code

/-- The variables at the start of the call. -/
def Call.start (c : Core K W) : Call K W → Core K W
  | .acquire lock pair => { c with lock := some lock, pair := pair, frame := none }
  | .raise _ => { c with lock := none, pair := raisePair, frame := none }
  | .lower n => { c with lock := none, frame := none, newIrql := n }
  | .giveBack frame giver n =>
    { c with
      lock := frame.lock
      frame := some frame
      newIrql := if giver.current then c.irql else n }

/-! ## Stacks -/

/-- What is known of a frame on the stack. -/
structure FrameOk (f : Frame K W) : Prop where
  le : f.irql ≤ f.level
  pair : match f.lock with
    | none => f.pair = raisePair
    | some lock => f.pair ∈ pairs lock ∧ dispatchLevel ≤ f.level ∧
      (f.pair.atDpc = false → f.level = dispatchLevel) ∧
      (f.pair.release.current = true → f.irql = f.level)

/-- The frames stand on one another, the lowest one on `PASSIVE_LEVEL`, where every thread
starts. -/
def Ladder : List (Frame K W) → UInt8 → Prop
  | [], irql => irql = passiveLevel
  | f :: frames, irql => f.level = irql ∧ FrameOk f ∧ Ladder frames f.irql

/-- The IRQL is not below that of any frame, and a lock is at `DISPATCH_LEVEL` or above. -/
def Covers (frames : List (Frame K W)) (irql : UInt8) : Prop :=
  ∀ f ∈ frames, f.level ≤ irql ∧ (f.lock ≠ none → dispatchLevel ≤ f.level)

theorem Covers.mono {frames : List (Frame K W)} {irql irql' : UInt8} (h : Covers frames irql)
    (hle : irql ≤ irql') : Covers frames irql' :=
  fun f hf => ⟨UInt8.le_trans (h f hf).1 hle, (h f hf).2⟩

theorem covers_of_ladder {frames : List (Frame K W)} :
    ∀ {irql : UInt8}, Ladder frames irql → Covers frames irql := by
  induction frames with
  | nil => exact fun _ f hf => absurd hf List.not_mem_nil
  | cons g frames ih =>
    rintro irql ⟨hlevel, hok, hladder⟩ f hf
    rcases List.mem_cons.1 hf with rfl | hf
    · refine ⟨UInt8.le_of_eq hlevel, fun hlock => ?_⟩
      have hpair := hok.pair
      cases h : f.lock with
      | none => exact absurd h hlock
      | some lock =>
        rw [h] at hpair
        exact hpair.2.1
    · rw [← hlevel]
      exact (ih hladder).mono hok.le f hf

/-! ## Runs of a routine -/

variable [DecidableEq K] [DecidableEq W]

/-- The frame is given back. -/
def Core.pop (c : Core K W) : Core K W :=
  match c.frame with
  | none => c
  | some f => { c with frames := c.frames.erase f }

theorem Core.pop_of_frame {c : Core K W} {f : Frame K W} (h : c.frame = some f) :
    c.pop = { c with frames := c.frames.erase f } := by
  cases c
  cases h
  rfl

/-- What concerns the thread alone; `none` if the assertion fails. -/
def Instr.run (c : Core K W) : Instr → Option (Core K W)
  | .assertLe n => if c.irql ≤ n then some c else none
  | .assertGe n => if n ≤ c.irql then some c else none
  | .assertEq n => if c.irql = n then some c else none
  | .raise n => if c.irql ≤ n then some { c with irql := n, newIrql := c.irql } else none
  | .raiseCurrent => some { c with newIrql := c.irql }
  | .lower => if c.newIrql ≤ c.irql then some { c with irql := c.newIrql } else none
  | .enter => some (c.push c.newIrql)
  | .leave => some c.pop
  | .find => some c
  -- what the caller has after these
  | .acquire _ => some (c.push c.newIrql)
  | .tryAcquire _ => some (c.push c.irql)
  | .release _ => some c.pop

/-! ## The lock of a routine -/

/-- The frame of a lock that is held that way. -/
def Frame.IsOf (f : Frame K W) (lock : Lock K W) (mode : Mode) : Prop :=
  f.lock = some lock ∧ f.pair.mode = mode

instance (f : Frame K W) (lock : Lock K W) (mode : Mode) : Decidable (f.IsOf lock mode) :=
  inferInstanceAs (Decidable (_ ∧ _))

/-- The rest of a routine finds its lock before it uses it, and gives back what the thread
has; `found` tells whether the `SRWLOCK` is known. -/
def Fits : Bool → List Instr → Core K W → Prop
  | _, [], _ => True
  | _, .find :: code, c => c.lock ≠ none ∧ Fits true code c
  | found, .acquire mode :: code, c =>
    found = true ∧ c.pair.mode = mode ∧ Fits found code (c.push c.newIrql)
  | found, .tryAcquire mode :: code, c =>
    found = true ∧ c.pair.mode = mode ∧ Fits found code (c.push c.irql) ∧ Fits found code c
  | found, .release mode :: code, c =>
    found = true ∧ (∃ f lock, c.frame = some f ∧ f ∈ c.frames ∧ c.lock = some lock ∧
      f.IsOf lock mode) ∧ Fits found code c.pop
  | found, .enter :: code, c => c.lock = none ∧ Fits found code (c.push c.newIrql)
  | found, .leave :: code, c =>
    (∃ f, c.frame = some f ∧ f.lock = none) ∧ Fits found code c.pop
  | found, i :: code, c => ∀ c', i.run c = some c' → Fits found code c'

theorem sameCall_run {i : Instr} (hi : i.quiet = true) {c c' : Core K W}
    (h : i.run c = some c') : SameCall c c' := by
  cases i with
  | raiseCurrent =>
    cases h
    exact ⟨rfl, rfl, rfl, rfl⟩
  | find | acquire | tryAcquire | release | enter | leave => cases hi
  | assertLe | assertGe | assertEq | raise | lower =>
    rw [Instr.run] at h
    split at h
    · cases h
      exact ⟨rfl, rfl, rfl, rfl⟩
    · cases h

theorem fits_cons_quiet {i : Instr} (hi : i.quiet = true) {found : Bool} {code : List Instr}
    {c : Core K W} :
    Fits found (i :: code) c ↔ ∀ c', i.run c = some c' → Fits found code c' := by
  cases i with
  | find | acquire | tryAcquire | release | enter | leave => cases hi
  | assertLe | assertGe | assertEq | raise | raiseCurrent | lower => rfl

/-- What a routine needs does not depend on what is quiet in front of it. -/
theorem fits_append {quiet : List Instr} {found : Bool} {code : List Instr} :
    ∀ {c : Core K W}, (∀ i ∈ quiet, i.quiet = true) →
      (∀ c', SameCall c c' → Fits found code c') → Fits found (quiet ++ code) c := by
  induction quiet with
  | nil => exact fun _ h => h _ (SameCall.refl _)
  | cons i quiet ih =>
    intro c hquiet h
    rw [List.cons_append, fits_cons_quiet (hquiet i List.mem_cons_self)]
    intro c' hrun
    have hsame := sameCall_run (hquiet i List.mem_cons_self) hrun
    exact ih (fun j hj => hquiet j (List.mem_cons_of_mem _ hj)) fun c'' h' => h c'' (hsame.trans h')

theorem fits_quiet {quiet : List Instr} (hquiet : ∀ i ∈ quiet, i.quiet = true) {found : Bool}
    (c : Core K W) : Fits found quiet c := by
  rw [← List.append_nil quiet]
  refine fits_append hquiet fun _ _ => ?_
  rw [Fits]
  trivial

theorem quiet_lower : ∀ i ∈ [Instr.lower], i.quiet = true := by
  intro i hi
  rw [List.mem_singleton.1 hi]
  rfl

/-- Every call, by any client, fits. -/
theorem fits_call {c : Core K W} {call : Call K W} (hvalid : call.Valid c) :
    Fits false call.code (call.start c) := by
  cases call with
  | acquire lock pair =>
    rcases acquire_form hvalid with ⟨quiet, hquiet, hcode | hcode⟩
    · rw [Call.code, hcode]
      refine fits_append hquiet fun c' hsame => ⟨?_, rfl, ?_, trivial⟩
      · rw [hsame.lock]
        exact Option.some_ne_none _
      · exact congrArg Pair.mode hsame.pair
    · rw [Call.code, hcode]
      refine fits_append hquiet fun c' hsame => ⟨?_, rfl, ?_, trivial, trivial⟩
      · rw [hsame.lock]
        exact Option.some_ne_none _
      · exact congrArg Pair.mode hsame.pair
  | raise n =>
    refine (fits_cons_quiet rfl).2 fun c' hrun => ⟨?_, trivial⟩
    exact (sameCall_run rfl hrun).lock
  | lower n => exact fits_quiet quiet_lower _
  | giveBack frame giver n =>
    rcases hvalid with ⟨hmem, hgiver⟩
    cases hlock : frame.lock with
    | none =>
      rw [hlock] at hgiver
      subst hgiver
      exact ⟨⟨frame, rfl, hlock⟩, fits_quiet quiet_lower _⟩
    | some lock =>
      rw [hlock] at hgiver
      rcases giver_form hgiver with ⟨quiet, quiet', hquiet, hquiet', hcode⟩
      rw [Call.code, hcode]
      refine fits_append hquiet fun c' hsame => ⟨?_, rfl, ⟨frame, lock, ?_⟩, fits_quiet hquiet' _⟩
      · rw [hsame.lock]
        show frame.lock ≠ none
        rw [hlock]
        exact Option.some_ne_none _
      · refine ⟨hsame.frame, ?_, ?_, hlock, rfl⟩
        · rw [hsame.frames]
          exact hmem
        · rw [hsame.lock]
          exact hlock

/-! ## Routines on a stack -/

/-- The rest of a routine passes its assertions, whatever the other threads do, stays above
what the thread has taken, and leaves a stack. -/
def Runs : List Instr → Core K W → Prop
  | [], c => Ladder c.frames c.irql
  | .tryAcquire _ :: code, c => Covers c.frames c.irql ∧ Runs code (c.push c.irql) ∧ Runs code c
  | i :: code, c => Covers c.frames c.irql ∧ ∃ c', i.run c = some c' ∧ Runs code c'

theorem Runs.covers {code : List Instr} {c : Core K W} (h : Runs code c) :
    Covers c.frames c.irql := by
  cases code with
  | nil => exact covers_of_ladder h
  | cons i code =>
    cases i with
    | _ => exact h.1

/-- The next instruction passes. -/
theorem Runs.next {i : Instr} (hi : ∀ mode, i ≠ .tryAcquire mode) {code : List Instr}
    {c : Core K W} (h : Runs (i :: code) c) : ∃ c', i.run c = some c' ∧ Runs code c' := by
  cases i with
  | tryAcquire mode => exact absurd rfl (hi mode)
  | _ => exact h.2

/-- Instructions that leave the thread as it is. -/
theorem runs_append {same : List Instr} {code : List Instr} {c : Core K W}
    (hc : Covers c.frames c.irql) (hsame : ∀ i ∈ same, i.quiet = true ∧ i.run c = some c)
    (h : Runs code c) : Runs (same ++ code) c := by
  induction same with
  | nil => exact h
  | cons i same ih =>
    rcases hsame i List.mem_cons_self with ⟨hquiet, hrun⟩
    have hrest := ih fun j hj => hsame j (List.mem_cons_of_mem _ hj)
    cases i with
    | tryAcquire => cases hquiet
    | _ => exact ⟨hc, c, hrun, hrest⟩

/-- The end of a routine that gives back what was taken last. -/
theorem runs_pop {c : Core K W} {f : Frame K W} {frames : List (Frame K W)}
    (hframe : c.frame = some f) (hframes : c.frames = f :: frames) (hle : f.irql ≤ c.irql)
    (hnew : c.newIrql = f.irql) (hladder : Ladder frames f.irql) :
    Runs [.lower] c.pop ∧ (f.irql = c.irql → Runs [] c.pop) := by
  have hpop : c.pop = { c with frames := frames } := by
    rw [Core.pop_of_frame hframe, hframes, List.erase_cons_head]
  have hcovers : Covers frames c.irql := (covers_of_ladder hladder).mono hle
  rw [hpop]
  constructor
  · refine ⟨hcovers, _, if_pos (by rw [hnew]; exact hle), ?_⟩
    show Ladder frames c.newIrql
    rw [hnew]
    exact hladder
  · intro h
    show Ladder frames c.irql
    rw [← h]
    exact hladder

/-- What the caller of a disciplined routine relies on. -/
theorem runs_call {c : Core K W} {call : Call K W} (hladder : Ladder c.frames c.irql)
    (hvalid : call.Valid c) (hok : call.Disciplined c) : Runs call.code (call.start c) := by
  have hcovers : Covers c.frames c.irql := covers_of_ladder hladder
  cases call with
  | acquire lock pair =>
    rcases acquire_irql hvalid with ⟨hdpc, hcurrent, same, hsame, hcode⟩ | ⟨hdpc, hcode⟩
    · -- the IRQL is raised to `DISPATCH_LEVEL`
      have hle : c.irql ≤ dispatchLevel := by simpa [Call.Disciplined, hdpc] using hok
      have habove : Covers c.frames dispatchLevel := hcovers.mono hle
      rw [Call.code, hcode]
      refine runs_append hcovers ?_ ⟨hcovers, _, if_pos hle, habove, _, rfl, habove, _, rfl, ?_⟩
      · intro i hi
        rw [hsame i hi]
        exact ⟨rfl, if_pos hle⟩
      · refine ⟨rfl, ⟨hle, hvalid, UInt8.le_refl _, fun _ => rfl, ?_⟩, hladder⟩
        exact fun h => absurd (hcurrent.symm.trans h) Bool.false_ne_true
    · have hge : dispatchLevel ≤ c.irql := by simpa [Call.Disciplined, hdpc] using hok
      have hframe : FrameOk (⟨some lock, pair, c.irql, c.irql⟩ : Frame K W) := by
        refine ⟨UInt8.le_refl _, hvalid, hge, ?_, fun _ => rfl⟩
        exact fun h => absurd (hdpc.symm.trans h) (Ne.symm Bool.false_ne_true)
      rcases hcode with hcode | hcode
      · rw [Call.code, hcode]
        exact ⟨hcovers, _, if_pos hge, hcovers, _, rfl, hcovers, _, rfl, hcovers, _, rfl, rfl,
          hframe, hladder⟩
      · rw [Call.code, hcode]
        exact ⟨hcovers, _, if_pos hge, hcovers, _, rfl, hcovers, ⟨rfl, hframe, hladder⟩, hladder⟩
  | raise n =>
    have habove : Covers c.frames n := hcovers.mono hok
    exact ⟨hcovers, _, if_pos hok, habove, _, rfl, rfl, ⟨hok, rfl⟩, hladder⟩
  | lower n => exact hok.elim
  | giveBack frame giver n =>
    rcases hok with ⟨hhead, rfl, rfl⟩
    rcases c with ⟨irql, newIrql, lock, pair, back, frames⟩
    cases frames with
    | nil => cases hhead
    | cons f frames =>
      cases hhead
      rcases hladder with ⟨hlevel, hok, hrest⟩
      cases hlevel
      have hpair := hok.pair
      cases hlock : frame.lock with
      | none =>
        rw [hlock] at hpair
        have hlower := (runs_pop (c := Call.start ⟨frame.level, newIrql, lock, pair, back,
          frame :: frames⟩ (.giveBack frame frame.pair.release frame.irql)) rfl rfl hok.le
          (by rw [hpair]; rfl) hrest).1
        rw [Call.code, hpair]
        rw [hpair] at hlower
        exact ⟨hcovers, _, rfl, hlower⟩
      | some held =>
        rw [hlock] at hpair
        rcases hpair with ⟨hmem, hge, hdpc, hcurrent⟩
        rcases release_irql hmem with ⟨same, rest, hcode, hsame, hrest'⟩
        rw [Call.code, hcode]
        have hpop := runs_pop (c := Call.start ⟨frame.level, newIrql, lock, pair, back,
          frame :: frames⟩ (.giveBack frame frame.pair.release frame.irql)) rfl rfl hok.le
          (by
            -- `NewIrql` is the IRQL of before, also where it is read from the thread
            show (if frame.pair.release.current then frame.level else frame.irql) = frame.irql
            split
            · rename_i h
              exact (hcurrent h).symm
            · rfl) hrest
        refine runs_append hcovers ?_ ⟨hcovers, _, rfl, hcovers, _, rfl, ?_⟩
        · intro i hi
          rcases hsame i hi with rfl | ⟨rfl, hno⟩
          · exact ⟨rfl, if_pos hge⟩
          · exact ⟨rfl, if_pos (hdpc hno)⟩
        · rcases hrest' with rfl | ⟨rfl, hyes⟩
          · exact hpop.1
          · exact hpop.2 (hcurrent hyes)

end Wdutf.Locks
