import Mathlib.Algebra.Group.Nat.Defs
import Mathlib.Data.List.Basic
import Mathlib.Data.Int.Notation
import Mathlib.Data.Nat.Notation
import Wdutf.Lib.Keyed
import Wdutf.Lib.Loop
import Wdutf.Lib.Transition

/-!
# Wdutf.Detours.Model — intercepts and detours, `src/detours.cpp`

The routines that attach and detach intercepts, over the regions that hold the detours. Addresses
are numbers, and `NULL` is 0. A `REGION *` is the address of the region, a `DETOUR *` the region
and the index in its array, an `INTERCEPT *` the address of the entry. All of them are looked up
where the source dereferences them; a pointer to memory that has been freed is a fault, and so
is a loop that does not end.

What the Detours library, the system and the allocator answer is given by `Env`. The sizes are those
of the 64-bit build. The code of the wrapper, which is copied into every detour, is left out.
-/

namespace Wdutf.Detours

open Wdutf.Keyed Wdutf.Loop Wdutf.Transition

/-! ## Data -/

abbrev Address := ℕ

/-- The status codes that the routines return. -/
inductive Status where
  | success
  | invalidParameter
  | insufficientResources
  | operationInProgress
  | accessDenied
  | invalidBlockLength
  | invalidHandle
  | dataError
  | unsuccessful
deriving DecidableEq, Repr

/-- `NT_SUCCESS`. -/
def ntSuccess (status : Status) : Bool := status = .success

/-- `DETOUR *`. -/
structure DetourPtr where
  region : Address
  index : ℕ
deriving DecidableEq, Repr

/-- `INTERCEPT`. The member `next` is the rest of the list that the entry is on. -/
structure Intercept where
  address : Address
  detour : Option DetourPtr
  intercept : Address
  identity : Address
  ofInstance : Address
  thread : Address
deriving DecidableEq, Repr

/-- `DETOUR`, without the code of the wrapper and the lock. -/
structure Detour where
  function : Address
  trampoline : Address
  intercepts : List Intercept
deriving DecidableEq, Repr

/-- A zero-filled `DETOUR`. -/
def Detour.zero : Detour := ⟨0, 0, []⟩

/-- `REGION`. -/
structure Region where
  address : Address
  size : ℕ
  refcount : ℕ
  count : ℕ
  freecount : ℕ
  hwm : ℕ
  detours : List Detour
deriving Repr

/-- `pRegion->detour[i]`. -/
def Region.detour (r : Region) (i : ℕ) : Detour := r.detours.getD i .zero

def Region.setDetour (r : Region) (i : ℕ) (d : Detour) : Region :=
  { r with detours := r.detours.set i d }

/-- The regions from `regionlist` on, and the number of transactions so far. `freed` records
the regions that were given back, as they were. -/
structure State where
  regionlist : List Region
  transactions : ℕ
  freed : List Region

/-- What the calls of a transaction return, and the trampoline that it makes. -/
structure Transaction where
  began : ℤ
  updated : ℤ
  attached : ℤ
  detached : ℤ
  committed : ℤ
  trampoline : Address
  trampoline_ne : trampoline ≠ 0

/-- What the routines are answered during a call: the memory for an entry, the memory for
a region and its size, and the transactions. -/
structure Env where
  entry : Option Address
  region : Option (Address × ℕ)
  transaction : ℕ → Transaction

inductive Fault where
  | ddkfail (message : String)
  | useAfterFree
  | endless
deriving DecidableEq, Repr

abbrev DetourM := EStateM Fault State

/-! ## Memory -/

/-- `*pRegion`. -/
def getRegion (pRegion : Address) : DetourM Region := fun s =>
  match lookup Region.address s.regionlist pRegion with
  | some r => .ok r s
  | none => .error .useAfterFree s

/-- Write a region that is on the list. -/
def setRegion (r : Region) : DetourM Unit :=
  modify fun s => { s with regionlist := store Region.address s.regionlist r }

/-- `*pDetour`. -/
def getDetour (pDetour : DetourPtr) : DetourM Detour := do
  pure ((← getRegion pDetour.region).detour pDetour.index)

/-- Write a detour. -/
def setDetour (pDetour : DetourPtr) (d : Detour) : DetourM Unit := do
  setRegion ((← getRegion pDetour.region).setDetour pDetour.index d)

/-! ## Regions -/

/-- `sizeof(DETOUR)`. -/
def sizeofDetour : ℕ := 56

/-- `sizeof(REGION)`, with one detour. -/
def sizeofRegion : ℕ := 96

/-- `MAXIMUM_JUMP`. -/
def maximumJump : ℕ := 0x80000000

/-- `DdkIsRegionWithinJumpBounds`, for a region of the given address and size. -/
def withinJumpBounds (pRegion size pFunction slack : ℕ) : Bool :=
  let maxjump := maximumJump - slack
  (pFunction ≥ pRegion && pFunction - pRegion ≤ maxjump) ||
  (pRegion + size > pFunction && pRegion + size - pFunction ≤ maxjump)

/-- `DdkIsRegionWithinJumpBounds`. -/
def ddkIsRegionWithinJumpBounds (r : Region) (pFunction slack : ℕ) : Bool :=
  withinJumpBounds r.address r.size pFunction slack

/-- The region that `DdkAllocateRegion` makes of zero-filled memory. -/
def newRegion (pRegion size : ℕ) : Region :=
  let count := (size - sizeofRegion) / sizeofDetour + 1
  ⟨pRegion, size, 0, count, count, 0, List.replicate count .zero⟩

/-- `DdkAllocateRegion`. -/
def ddkAllocateRegion (env : Env) : DetourM (Except Status Address) := do
  match env.region with
  | none => pure (.error .insufficientResources)
  | some (pRegion, size) =>
    if size < sizeofRegion then pure (.error .insufficientResources)
    else
      modify fun s => { s with regionlist := newRegion pRegion size :: s.regionlist }
      pure (.ok pRegion)

/-- `DdkFreeRegion`. -/
def ddkFreeRegion (pRegion : Address) : DetourM Unit := do
  let r ← getRegion pRegion
  if r.refcount ≠ 0 || r.freecount ≠ r.count then pure ()
  else modify fun s => { s with
    regionlist := unlink Region.address s.regionlist pRegion
    freed := r :: s.freed }

/-- `DdkAddReference`. -/
def ddkAddReference (pRegion : Address) : DetourM Unit := do
  let r ← getRegion pRegion
  setRegion { r with refcount := r.refcount + 1 }

/-- `DdkDeleteReference`. -/
def ddkDeleteReference (pRegion : Address) : DetourM Unit := do
  let r ← getRegion pRegion
  setRegion { r with refcount := r.refcount - 1 }
  ddkFreeRegion pRegion

/-! ## Transactions -/

/-- `DdkGetDetourStatus`. -/
def ddkGetDetourStatus (rc : ℤ) : Status :=
  match rc with
  | 0 => .success                   -- `NO_ERROR`
  | 4317 => .operationInProgress    -- `ERROR_INVALID_OPERATION`
  | 5 => .accessDenied              -- `ERROR_ACCESS_DENIED`
  | 8 => .insufficientResources     -- `ERROR_NOT_ENOUGH_MEMORY`
  | 9 => .invalidBlockLength        -- `ERROR_INVALID_BLOCK`
  | 6 => .invalidHandle             -- `ERROR_INVALID_HANDLE`
  | 13 => .dataError                -- `ERROR_INVALID_DATA`
  | _ => .unsuccessful

/-- `DdkUpdateDetour`. The commit of an attach leaves the trampoline in the member of that name,
and the commit of a detach the function. -/
def ddkUpdateDetour (env : Env) (pDetour : DetourPtr) (enable : Bool) : DetourM Status := do
  let t := env.transaction (← get).transactions
  modify fun s => { s with transactions := s.transactions + 1 }
  if t.began ≠ 0 then pure (ddkGetDetourStatus t.began)
  else if t.updated ≠ 0 then pure (ddkGetDetourStatus t.updated)
  else
    let rc := if enable then t.attached else t.detached
    if rc ≠ 0 then pure (ddkGetDetourStatus rc)
    else if t.committed ≠ 0 then pure (ddkGetDetourStatus t.committed)
    else
      let d ← getDetour pDetour
      setDetour pDetour { d with trampoline := if enable then t.trampoline else d.function }
      pure (ddkGetDetourStatus t.committed)

/-- `DdkAttachDetour`. -/
def ddkAttachDetour (env : Env) (pDetour : DetourPtr) : DetourM Status := do
  let d ← getDetour pDetour
  if d.trampoline ≠ 0 then pure .success
  else
    setDetour pDetour { d with trampoline := d.function }
    let status ← ddkUpdateDetour env pDetour true
    if ntSuccess status then pure status
    else
      setDetour pDetour { (← getDetour pDetour) with trampoline := 0 }
      pure status

/-- `DdkDetachDetour`. -/
def ddkDetachDetour (env : Env) (pDetour : DetourPtr) : DetourM Status := do
  let d ← getDetour pDetour
  if d.trampoline = 0 then pure .success
  else
    let status ← ddkUpdateDetour env pDetour false
    if ntSuccess status then
      setDetour pDetour { (← getDetour pDetour) with trampoline := 0 }
      pure status
    else pure status

/-! ## Detours -/

/-- The step of `DdkFreeDetour` that gives up a detached detour. -/
def giveUpDetour (pDetour : DetourPtr) : DetourM Unit := do
  let d ← getDetour pDetour
  if d.trampoline = 0 && d.function ≠ 0 then
    setDetour pDetour { d with function := 0 }
    let r ← getRegion pDetour.region
    setRegion { r with freecount := r.freecount + 1 }
  else pure ()

/-- The loop of `DdkFreeDetour` that lowers `hwm`. -/
def Region.lowerHwm (r : Region) : ℕ → ℕ
  | 0 => 0
  | hwm + 1 => if (r.detour hwm).function ≠ 0 then hwm + 1 else r.lowerHwm hwm

def lowerHwm (pRegion : Address) : DetourM Unit := do
  let r ← getRegion pRegion
  setRegion { r with hwm := r.lowerHwm r.hwm }

/-- `DdkFreeDetour`. -/
def ddkFreeDetour (env : Env) (pDetour : DetourPtr) : DetourM Status := do
  let d ← getDetour pDetour
  if d.intercepts ≠ [] then pure .success
  else
    let status ← ddkDetachDetour env pDetour
    giveUpDetour pDetour
    lowerHwm pDetour.region
    ddkFreeRegion pDetour.region
    pure status

/-- `DdkFindDetour`. -/
def ddkFindDetour (pFunction : Address) : DetourM (Option DetourPtr) := do
  pure <| (← get).regionlist.findSome? fun r =>
    if ddkIsRegionWithinJumpBounds r pFunction 0 then
      ((List.range r.hwm).find? fun i => (r.detour i).function = pFunction).map (⟨r.address, ·⟩)
    else none

/-- The region that `DdkAllocateDetour` takes the detour from. -/
def regionFor (env : Env) (pFunction : Address) : DetourM (Except Status Address) := do
  match (← get).regionlist.find? fun r =>
      r.freecount ≠ 0 && ddkIsRegionWithinJumpBounds r pFunction 0x100 with
  | some r => pure (.ok r.address)
  | none => ddkAllocateRegion env

/-- `DdkAllocateDetour`. -/
def ddkAllocateDetour (env : Env) (pFunction : Address) : DetourM (Except Status DetourPtr) := do
  match ← regionFor env pFunction with
  | .error status => pure (.error status)
  | .ok pRegion =>
    let r ← getRegion pRegion
    match (List.range r.count).find? fun i => (r.detour i).function = 0 with
    | none => throw (.ddkfail "Region has no free detours")
    | some i =>
      setRegion { r.setDetour i ⟨pFunction, 0, []⟩ with
        hwm := if i ≥ r.hwm then i + 1 else r.hwm
        freecount := r.freecount - 1 }
      let status ← ddkAttachDetour env ⟨pRegion, i⟩
      if ntSuccess status then pure (.ok ⟨pRegion, i⟩)
      else
        let _ ← ddkFreeDetour env ⟨pRegion, i⟩
        pure (.error status)

/-! ## Intercepts -/

/-- `DdkFreeIntercept`. -/
def ddkFreeIntercept (env : Env) (pEntry : Intercept) : DetourM Status := do
  match pEntry.detour with
  | none => pure .success
  | some pDetour =>
    let d ← getDetour pDetour
    setDetour pDetour { d with intercepts := unlink Intercept.address d.intercepts pEntry.address }
    ddkFreeDetour env pDetour

/-- `DdkAttachIntercept`. -/
def ddkAttachIntercept (env : Env) (pFunction pIntercept pIdentity pInstance pThread : Address) :
    DetourM Status := do
  if pFunction = 0 || pIntercept = 0 then pure .invalidParameter
  else
    match env.entry with
    | none => pure .insufficientResources
    | some address =>
      let entry : Intercept := ⟨address, none, pIntercept, pIdentity, pInstance, pThread⟩
      let found ← match ← ddkFindDetour pFunction with
        | some pDetour => pure (.ok pDetour)
        | none => ddkAllocateDetour env pFunction
      match found with
      | .error status =>
        let _ ← ddkFreeIntercept env entry
        pure status
      | .ok pDetour =>
        let d ← getDetour pDetour
        setDetour pDetour
          { d with intercepts := { entry with detour := some pDetour } :: d.intercepts }
        pure .success

/-- One turn of the loop over the entries of a detour: the entry, and the status so far. -/
def entryTurn (env : Env) (hit : Intercept → Bool) (pDetour : DetourPtr) :
    Option Address × Status → DetourM (Option (Option Address × Status))
  | (none, _) => pure none
  | (some p, status) => do
    let d ← getDetour pDetour
    match lookup Intercept.address d.intercepts p with
    | none => throw .useAfterFree
    | some entry =>
      let next := (next Intercept.address d.intercepts p).map Intercept.address
      if hit entry then
        let rc ← ddkFreeIntercept env entry
        pure (some (next, if ntSuccess rc then status else rc))
      else pure (some (next, status))

/-- One turn of the loop over the detours of a region. -/
def detourTurn (env : Env) (visit : Detour → Bool) (hit : Intercept → Bool) (pRegion : Address) :
    ℕ × Status → DetourM (Option (ℕ × Status))
  | (i, status) => do
    let r ← getRegion pRegion
    if i < r.hwm then
      let d := r.detour i
      if visit d then
        let (_, status) ← loop .endless (entryTurn env hit ⟨pRegion, i⟩) (d.intercepts.length + 1)
          (d.intercepts.head?.map Intercept.address, status)
        pure (some (i + 1, status))
      else pure (some (i + 1, status))
    else pure none

/-- One turn of the loop over the regions. -/
def regionTurn (env : Env) (visit : Detour → Bool) (hit : Intercept → Bool) :
    Option Address × Status → DetourM (Option (Option Address × Status))
  | (none, _) => pure none
  | (some pRegion, status) => do
    ddkAddReference pRegion
    let r ← getRegion pRegion
    let (_, status) ← loop .endless (detourTurn env visit hit pRegion) (r.hwm + 1) (0, status)
    let _ ← getRegion pRegion
    let pNext := (next Region.address (← get).regionlist pRegion).map Region.address
    ddkDeleteReference pRegion
    pure (some (pNext, status))

/-- The loops of `DdkDetachIntercept` and `DdkDetachAddressRange`: the entries that are hit are
freed, in the detours that are visited. -/
def detachEntries (env : Env) (visit : Detour → Bool) (hit : Intercept → Bool) :
    DetourM Status := do
  let regionlist := (← get).regionlist
  let (_, status) ← loop .endless (regionTurn env visit hit) (regionlist.length + 1)
    (regionlist.head?.map Region.address, .success)
  pure status

/-- `DdkDetachIntercept`. -/
def ddkDetachIntercept (env : Env) (pId pThread : Address) : DetourM Status := do
  if (← get).regionlist.isEmpty then pure .success
  else detachEntries env (fun _ => true) fun p =>
    (pThread = 0 || p.thread = pThread) && (pId = 0 || p.identity = pId || p.ofInstance = pId)

/-- `DdkDetachAddressRange`. A module is given by the range of its image. -/
def ddkDetachAddressRange (env : Env) (pAddr len : ℕ) (module : Option (Address × Address)) :
    DetourM Status := do
  let pEnd := (pAddr + len) % 2 ^ 64
  if (← get).regionlist.isEmpty || len = 0 then pure .success
  else
    detachEntries env (fun d => d.function ≠ 0 && pAddr ≤ d.function && d.function < pEnd) fun p =>
      match module with
      | none => true
      | some (pModuleAddr, pModuleEnd) => pModuleAddr ≤ p.intercept && p.intercept < pModuleEnd

/-! ## Runs -/

inductive Call where
  | attachIntercept (pFunction pIntercept pIdentity pInstance pThread : Address)
  | detachIntercept (pId pThread : Address)
  | detachAddressRange (pAddr len : ℕ) (module : Option (Address × Address))
deriving Repr

def call (env : Env) : Call → DetourM Status
  | .attachIntercept pFunction pIntercept pIdentity pInstance pThread =>
    ddkAttachIntercept env pFunction pIntercept pIdentity pInstance pThread
  | .detachIntercept pId pThread => ddkDetachIntercept env pId pThread
  | .detachAddressRange pAddr len module => ddkDetachAddressRange env pAddr len module

/-- What is assumed of the answers: new memory is not in use, and a new region is near the function
that it was allocated for. -/
structure Env.Allowed (env : Env) (s : State) (c : Call) : Prop where
  entry : ∀ address, env.entry = some address → ∀ r ∈ s.regionlist, ∀ d ∈ r.detours,
    ∀ p ∈ d.intercepts, p.address ≠ address
  region : ∀ pRegion size, env.region = some (pRegion, size) →
    ∀ r ∈ s.regionlist, r.address ≠ pRegion
  bounds : ∀ pRegion size pFunction pIntercept pIdentity pInstance pThread,
    env.region = some (pRegion, size) →
    c = .attachIntercept pFunction pIntercept pIdentity pInstance pThread →
    withinJumpBounds pRegion size pFunction 0 = true

/-- A call that returns. -/
def Next (s : State) (e : Call × Env) (s' : State) : Prop :=
  e.2.Allowed s e.1 ∧ ∃ status, call e.2 e.1 s = .ok status s'

/-- A run from the empty list of regions. -/
abbrev Run : List (Call × Env) → State → Prop :=
  Trace (fun s => s.regionlist = [] ∧ s.freed = []) Next

end Wdutf.Detours
