import Mathlib.Data.List.Basic
import Mathlib.Data.Int.Basic

/-!
# Wdutf.Io.Irp — I/O request packets, `src/irp.cpp`

A packet is the `IRP` header followed by its stack locations. The location
pointer `CurrentStackLocation` is a byte offset from the start of the packet,
so that an address which is no stack location can be told from one that is;
`CurrentLocation` and `StackCount` are the 8-bit counters of the source, and
arithmetic on them wraps.

* `iofCallDriver` — up to the call of the dispatch routine;
* `walkStep` — one turn of the loop of `IofCompleteRequest`, up to the call of
  the completion routine;
* `iofCompleteRequest` — the whole loop, over completion routines that work on
  a world of their own, with the list of the visits it made.

The inline functions of the WDK headers (`IoSetNextIrpStackLocation`,
`IoGetCurrentIrpStackLocation`, `IoMarkIrpPending`, `IoSizeOfIrp`) are written
out as documented. The sizes are those of the 64-bit headers.
-/

namespace Wdutf.Io

/-- A pointer; `NULL` is 0. -/
abbrev Pvoid := UInt64

/-- `NTSTATUS`. -/
abbrev NtStatus := Int32

/-- `NT_SUCCESS`. -/
def ntSuccess (status : NtStatus) : Bool := decide (0 ≤ status)

/-- `STATUS_MORE_PROCESSING_REQUIRED`. -/
def statusMoreProcessingRequired : NtStatus := (0xC0000016 : UInt32).toInt32

/-- `SL_PENDING_RETURNED`. -/
def slPendingReturned : UInt8 := 0x01

/-- `SL_INVOKE_ON_CANCEL`. -/
def slInvokeOnCancel : UInt8 := 0x20

/-- `SL_INVOKE_ON_SUCCESS`. -/
def slInvokeOnSuccess : UInt8 := 0x40

/-- `SL_INVOKE_ON_ERROR`. -/
def slInvokeOnError : UInt8 := 0x80

/-- `MDL_PAGES_LOCKED`. -/
def mdlPagesLocked : UInt16 := 0x0002

/-- `IO_STACK_LOCATION`, with `Parameters` as its member `Others`. -/
structure IoStackLocation where
  majorFunction : UInt8
  minorFunction : UInt8
  flags : UInt8
  control : UInt8
  argument1 : Pvoid
  argument2 : Pvoid
  argument3 : Pvoid
  argument4 : Pvoid
  deviceObject : Pvoid
  fileObject : Pvoid
  completionRoutine : Pvoid
  context : Pvoid
deriving DecidableEq, Repr

/-- A location of a packet filled with zeros. -/
def zeroLocation : IoStackLocation := ⟨0, 0, 0, 0, 0, 0, 0, 0, 0, 0, 0, 0⟩

/-- `IO_STATUS_BLOCK`. -/
structure IoStatusBlock where
  status : NtStatus
  information : UInt64
deriving DecidableEq, Repr

/-- `IRP`, with the stack locations that follow it in the packet. The MDL chain
is the list of the `MdlFlags` of its members. -/
structure Irp where
  size : UInt16
  mdlAddress : List UInt16
  ioStatus : IoStatusBlock
  pendingReturned : Bool
  stackCount : Int8
  currentLocation : Int8
  cancel : Bool
  currentStackLocation : ℤ
  stack : List IoStackLocation
deriving DecidableEq, Repr

/-- How a routine can fail: a `DDKASSERT`, `KeBugCheckEx`, or an access through
a pointer that is no stack location of the packet. `outOfFuel` is not a
behaviour of the code: the bound on the turns of the loop was too small. -/
inductive Fault where
  | assertion
  | bugCheck
  | outsideStack
  | outOfFuel
deriving DecidableEq, Repr

/-! ## The packet -/

/-- `sizeof(IRP)`. -/
def sizeofIrp : ℕ := 208

/-- `sizeof(IO_STACK_LOCATION)`. -/
def sizeofIoStackLocation : ℕ := 72

/-- `IoSizeOfIrp`, a `USHORT`. -/
def ioSizeOfIrp (stackSize : Int8) : UInt16 :=
  UInt16.ofInt (sizeofIrp + stackSize.toInt * sizeofIoStackLocation)

/-- The offset of stack location number `k`; the locations are numbered from 1. -/
def locationOffset (k : ℤ) : ℤ := sizeofIrp + (k - 1) * sizeofIoStackLocation

/-- `IoInitializeIrp`. The packet has as many locations as fit behind the header. -/
def ioInitializeIrp (packetSize : UInt16) (stackSize : Int8) : Irp where
  size := packetSize
  mdlAddress := []
  ioStatus := ⟨0, 0⟩
  pendingReturned := false
  stackCount := stackSize
  currentLocation := stackSize + 1
  cancel := false
  currentStackLocation := packetSize.toNat
  stack := List.replicate ((packetSize.toNat - sizeofIrp) / sizeofIoStackLocation) zeroLocation

/-- `IoAllocateIrp`, when the allocation succeeds. -/
def ioAllocateIrp (stackSize : Int8) : Irp := ioInitializeIrp (ioSizeOfIrp stackSize) stackSize

/-- The index in `stack` of the location at an address. -/
def Irp.indexAt (irp : Irp) (p : ℤ) : Option ℕ :=
  let i := ((p - sizeofIrp) / sizeofIoStackLocation).toNat
  if p = locationOffset (i + 1) ∧ i < irp.stack.length then some i else none

/-- Read the location at an address. -/
def Irp.load (irp : Irp) (p : ℤ) : Except Fault IoStackLocation :=
  match irp.indexAt p with
  | some i => .ok (irp.stack.getD i zeroLocation)
  | none => .error .outsideStack

/-- Change the location at an address. -/
def Irp.update (irp : Irp) (p : ℤ) (f : IoStackLocation → IoStackLocation) : Except Fault Irp :=
  match irp.indexAt p with
  | some i => .ok { irp with stack := irp.stack.modify i f }
  | none => .error .outsideStack

/-! ## `IofCallDriver` -/

/-- `IoSetNextIrpStackLocation`. -/
def ioSetNextIrpStackLocation (irp : Irp) : Irp :=
  { irp with
    currentLocation := irp.currentLocation - 1
    currentStackLocation := irp.currentStackLocation - sizeofIoStackLocation }

/-- `DISPATCH_LEVEL`. -/
def dispatchLevel : UInt8 := 2

/-- `DDKASSERT`. -/
def ddkAssert (condition : Bool) : Except Fault Unit :=
  if condition then pure () else throw .assertion

/-- `IofCallDriver` at an interrupt level, up to the call of the dispatch
routine: the packet that the routine receives and the `MajorFunction` it is
selected by. -/
def iofCallDriver (irql : UInt8) (deviceObject : Pvoid) (irp : Irp) :
    Except Fault (Irp × UInt8) := do
  ddkAssert (irql ≤ dispatchLevel)
  ddkAssert (irp.currentLocation.toInt > 0)
  let irp := ioSetNextIrpStackLocation irp
  let irp ← irp.update irp.currentStackLocation
    fun location => { location with deviceObject := deviceObject }
  let location ← irp.load irp.currentStackLocation
  pure (irp, location.majorFunction)

/-! ## `IofCompleteRequest` -/

/-- `ClearStackLocation`. -/
def clearStackLocation (location : IoStackLocation) : IoStackLocation :=
  { location with
    minorFunction := 0
    flags := 0
    control := 0
    argument1 := 0
    argument2 := 0
    argument3 := 0
    fileObject := 0 }

/-- `IoMarkIrpPending` on one location. -/
def markPending (location : IoStackLocation) : IoStackLocation :=
  { location with control := location.control ||| slPendingReturned }

/-- `IoMarkIrpPending`. -/
def ioMarkIrpPending (irp : Irp) : Except Fault Irp :=
  irp.update irp.currentStackLocation markPending

/-- `pStack = Irp->Tail.Overlay.CurrentStackLocation++, Irp->CurrentLocation++`. -/
def advance (irp : Irp) : Irp :=
  { irp with
    currentLocation := irp.currentLocation + 1
    currentStackLocation := irp.currentStackLocation + sizeofIoStackLocation }

/-- The condition on which a completion routine is called. -/
def invokes (control : UInt8) (irp : Irp) : Bool :=
  (ntSuccess irp.ioStatus.status && control &&& slInvokeOnSuccess != 0) ||
  (!ntSuccess irp.ioStatus.status && control &&& slInvokeOnError != 0) ||
  (irp.cancel && control &&& slInvokeOnCancel != 0)

/-- How one turn of the loop ends: the loop is over, the completion routine of
the location is about to be called, or the location has been passed. Each turn
that looks at a location tells its address and the `Control` it found. -/
inductive WalkStep where
  | finish (irp : Irp)
  | invoke (pStack : ℤ) (control : UInt8) (routine device context : Pvoid) (irp : Irp)
  | pass (pStack : ℤ) (control : UInt8) (seen irp : Irp)

/-- `MmUnlockPages`, on the flags of an MDL. -/
def mmUnlockPages (mdlFlags : UInt16) : UInt16 := mdlFlags &&& ~~~mdlPagesLocked

/-- One turn of the loop: the increments, the test and the body up to the call
of the completion routine. -/
def walkStep (irp : Irp) : Except Fault WalkStep := do
  let pStack := irp.currentStackLocation
  let irp := advance irp
  if irp.currentLocation.toInt ≤ irp.stackCount.toInt + 1 then
    let location ← irp.load pStack
    let control := location.control
    let irp := { irp with pendingReturned := control &&& slPendingReturned != 0 }
    let irp ← irp.update pStack clearStackLocation
    if invokes control irp then
      if irp.currentLocation.toInt ≤ irp.stackCount.toInt then
        let above ← irp.load irp.currentStackLocation
        pure (.invoke pStack control location.completionRoutine above.deviceObject
          location.context irp)
      else
        pure (.invoke pStack control location.completionRoutine 0 location.context irp)
    else if irp.pendingReturned && decide (irp.currentLocation.toInt ≤ irp.stackCount.toInt) then
      pure (.pass pStack control irp (← ioMarkIrpPending irp))
    else
      pure (.pass pStack control irp irp)
  else
    pure (.finish { irp with mdlAddress := irp.mdlAddress.map mmUnlockPages })

/-- The check on entry to `IofCompleteRequest`. -/
def checkNotCompleted (irp : Irp) : Except Fault Unit :=
  if irp.currentLocation.toInt > irp.stackCount.toInt + 1 then throw .bugCheck else pure ()

section Routines

variable {W : Type}

/-- What a completion routine leaves behind: it may change `IoStatus`, `Cancel`
and the world, and it returns a status. -/
structure Reply (W : Type) where
  ioStatus : IoStatusBlock
  cancel : Bool
  status : NtStatus
  world : W

/-- The completion routines: the address, then `DeviceObject`, `Irp` and
`Context`. -/
abbrev Routines (W : Type) := Pvoid → Pvoid → Irp → Pvoid → W → Reply W

/-- A call of a completion routine. -/
structure Call (W : Type) where
  routine : Pvoid
  device : Pvoid
  context : Pvoid
  reply : Reply W

/-- A visit of the loop at a location: its address, the `Control` found there,
the packet and the world at the decision, and the call, if one was made. -/
structure Visit (W : Type) where
  pStack : ℤ
  control : UInt8
  irp : Irp
  world : W
  call : Option (Call W)

/-- The loop of `IofCompleteRequest`, for at most `fuel` turns. -/
def completeLoop (routines : Routines W) : ℕ → Irp → W → Except Fault (Irp × W × List (Visit W))
  | 0, _, _ => throw .outOfFuel
  | fuel + 1, irp, w => do
    match ← walkStep irp with
    | .finish irp => pure (irp, w, [])
    | .invoke pStack control routine device context irp =>
      let reply := routines routine device irp context w
      let visit : Visit W := ⟨pStack, control, irp, w, some ⟨routine, device, context, reply⟩⟩
      let irp := { irp with ioStatus := reply.ioStatus, cancel := reply.cancel }
      if reply.status = statusMoreProcessingRequired then
        pure (irp, reply.world, [visit])
      else
        let (irp, w, visits) ← completeLoop routines fuel irp reply.world
        pure (irp, w, visit :: visits)
    | .pass pStack control seen irp =>
      let (irp, w', visits) ← completeLoop routines fuel irp w
      pure (irp, w', ⟨pStack, control, seen, w, none⟩ :: visits)

/-- `IofCompleteRequest`. Every turn but the last one looks at another location. -/
def iofCompleteRequest (routines : Routines W) (irp : Irp) (w : W) :
    Except Fault (Irp × W × List (Visit W)) := do
  checkNotCompleted irp
  completeLoop routines (irp.stack.length + 1) irp w

end Routines

end Wdutf.Io
