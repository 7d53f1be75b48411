import Mathlib.Data.List.Basic
import Mathlib.Data.Int.Basic
import Mathlib.Logic.Function.Basic
import Wdutf.Io.StackBounds
import Wdutf.Ke.Event
import Wdutf.Lib.Memory

/-!
# Wdutf.Io.Ioctl — device control requests, `src/irp.cpp`, `src/mdl.cpp`

`IoBuildDeviceIoControlRequest` sets up a packet for one of four transfer methods, and
`DdkIoctlCompletion` is the completion routine that it sets for the packet. The two communicate
through the fields of the packet alone (`IrpFields`).

* `Heap` — the bytes of the buffers, and the status blocks and events, which are objects of their
  own;
* `Trap` — an access through a null pointer, or a fault on the stack of the packet;
* `Env` — what the pool answers; a null answer makes the routine return `NULL`.

The macros of the WDK headers (`MmInitializeMdl`, `IoSetCompletionRoutine` and so on) are written
out as documented.
-/

namespace Wdutf.Io

open Wdutf.Memory

/-! ## Memory -/

/-- The memory that the routines work on. An event has its type (`notify`) and its state. -/
structure Heap where
  memory : ℕ → UInt8
  statusBlocks : Pvoid → IoStatusBlock
  events : Pvoid → Bool × Bool
  freed : List Pvoid

inductive Trap where
  | nullPointer
  | stack (fault : Fault)
deriving DecidableEq, Repr

/-- `memcpy` and `RtlCopyMemory`. -/
def Heap.copyMemory (heap : Heap) (destination source : Pvoid) (length : ℕ) : Except Trap Heap :=
  if length ≠ 0 ∧ (destination = 0 ∨ source = 0) then throw .nullPointer
  else pure { heap with memory := copy heap.memory destination.toNat source.toNat length }

/-- `ExFreePool`. -/
def Heap.free (heap : Heap) (p : Pvoid) : Heap := { heap with freed := p :: heap.freed }

/-- `KeSetEvent`. -/
def Heap.setEvent (heap : Heap) (event : Pvoid) : Heap :=
  let (notify, signalled) := heap.events event
  { heap with
    events := Function.update heap.events event
      (notify, Ke.Event.alone notify signalled (Ke.Event.keSetEvent notify)) }

/-! ## Requests -/

/-- The transfer method of a control code. -/
inductive Method where
  | buffered
  | inDirect
  | outDirect
  | neither
deriving DecidableEq, Repr

/-- `METHOD_FROM_CTL_CODE`. -/
def methodFromCtlCode (ioControlCode : UInt32) : Method :=
  match (ioControlCode &&& 3).toNat with
  | 0 => .buffered
  | 1 => .inDirect
  | 2 => .outDirect
  | _ => .neither

/-- `METHOD_IN_DIRECT` or `METHOD_OUT_DIRECT`. -/
def Method.direct (method : Method) : Prop := method = .inDirect ∨ method = .outDirect

/-- The arguments of `IoBuildDeviceIoControlRequest`, with `DeviceObject->StackSize`. -/
structure Request where
  ioControlCode : UInt32
  deviceObject : Pvoid
  stackSize : Int8
  inputBuffer : Pvoid
  inputBufferLength : UInt32
  outputBuffer : Pvoid
  outputBufferLength : UInt32
  internalDeviceIoControl : Bool
  event : Pvoid
  ioStatusBlock : Pvoid
deriving DecidableEq, Repr

def Request.method (req : Request) : Method := methodFromCtlCode req.ioControlCode

/-- The size of the system buffer. -/
def Request.systemBufferLength (req : Request) : UInt32 :=
  if req.inputBufferLength > req.outputBufferLength then req.inputBufferLength
  else req.outputBufferLength

/-- `MDL`: where it is, and the range of memory that it describes. -/
structure Mdl where
  address : Pvoid
  startVa : Pvoid
  byteOffset : UInt64
  byteCount : UInt32
deriving DecidableEq, Repr

/-- `MmInitializeMdl`. -/
def mmInitializeMdl (pMdl virtualAddress : Pvoid) (length : UInt32) : Mdl :=
  ⟨pMdl, virtualAddress &&& ~~~0xFFF, virtualAddress &&& 0xFFF, length⟩

/-- `MmGetMdlVirtualAddress`. -/
def mmGetMdlVirtualAddress (mdl : Mdl) : Pvoid := mdl.startVa + mdl.byteOffset

/-- The part of a word above a mask and the part below. -/
theorem and_not_add_and {w : ℕ} (b m : BitVec w) : (b &&& ~~~m) + (b &&& m) = b := by
  have hdisjoint : (b &&& ~~~m) &&& (b &&& m) = 0#w := by
    ext i hi
    simp only [BitVec.getElem_and, BitVec.getElem_not, BitVec.getElem_zero]
    cases b[i] <;> cases m[i] <;> rfl
  rw [BitVec.add_eq_or_of_and_eq_zero _ _ hdisjoint]
  ext i hi
  simp only [BitVec.getElem_and, BitVec.getElem_not, BitVec.getElem_or]
  cases b[i] <;> cases m[i] <;> rfl

/-- The address that an MDL was made for. -/
theorem mmGetMdlVirtualAddress_init (pMdl virtualAddress : Pvoid) (length : UInt32) :
    mmGetMdlVirtualAddress (mmInitializeMdl pMdl virtualAddress length) = virtualAddress := by
  apply UInt64.toBitVec_inj.1
  exact and_not_add_and virtualAddress.toBitVec _

/-- The fields of an `IRP` that the loop of `IofCompleteRequest` does not read, with its address.
Of the MDL the packet itself has the flags. -/
structure IrpFields where
  address : Pvoid
  flags : UInt32
  systemBuffer : Pvoid
  userBuffer : Pvoid
  userEvent : Pvoid
  userIosb : Pvoid
  requestorMode : UInt8
  mdl : Option Mdl
deriving DecidableEq, Repr

/-- The fields of a packet filled with zeros. -/
def zeroFields (address : Pvoid) : IrpFields := ⟨address, 0, 0, 0, 0, 0, 0, none⟩

/-- `IRP_BUFFERED_IO`. -/
def irpBufferedIo : UInt32 := 0x10

/-- `IRP_DEALLOCATE_BUFFER`. -/
def irpDeallocateBuffer : UInt32 := 0x20

/-- `IRP_MJ_DEVICE_CONTROL`. -/
def irpMjDeviceControl : UInt8 := 0x0E

/-- `IRP_MJ_INTERNAL_DEVICE_CONTROL`. -/
def irpMjInternalDeviceControl : UInt8 := 0x0F

/-- `KernelMode`. -/
def kernelMode : UInt8 := 0

/-- What the pool answers for the packet, the system buffer and the MDL; and the address of
`DdkIoctlCompletion`. -/
structure Env where
  irp : Pvoid
  systemBuffer : Pvoid
  mdl : Pvoid
  ddkIoctlCompletion : Pvoid

/-! ## `IoBuildDeviceIoControlRequest` -/

/-- A routine on the stack of the packet. -/
def onStack {α : Type} : Except Fault α → Except Trap α
  | .ok a => .ok a
  | .error fault => .error (.stack fault)

/-- A write through `IoGetNextIrpStackLocation`. -/
def updateNext (irp : Irp) (f : IoStackLocation → IoStackLocation) : Except Trap Irp :=
  onStack (irp.update (irp.currentStackLocation - sizeofIoStackLocation) f)

/-- The parameters of the request; `DeviceIoControl` has the lengths and the code where `Others`
has its first three arguments. -/
def setParameters (req : Request) (location : IoStackLocation) : IoStackLocation :=
  { location with
    majorFunction :=
      if req.internalDeviceIoControl then irpMjInternalDeviceControl else irpMjDeviceControl
    minorFunction := 0
    argument1 := req.outputBufferLength.toUInt64
    argument2 := req.inputBufferLength.toUInt64
    argument3 := req.ioControlCode.toUInt64
    deviceObject := req.deviceObject }

/-- `IoSetCompletionRoutine`, to be called on success, on error and on cancel. -/
def setCompletionRoutine (routine context : Pvoid) (location : IoStackLocation) :
    IoStackLocation :=
  { location with
    completionRoutine := routine
    context := context
    control := slInvokeOnSuccess ||| slInvokeOnError ||| slInvokeOnCancel }

/-- The end of `IoBuildDeviceIoControlRequest`, behind the `switch`. -/
def finishRequest (env : Env) (req : Request) (irp : Irp) (fields : IrpFields) (heap : Heap) :
    Except Trap (Option (Irp × IrpFields) × Heap) := do
  let fields := { fields with
    userEvent := req.event
    userIosb := req.ioStatusBlock
    requestorMode := kernelMode }
  let irp ← updateNext irp (setCompletionRoutine env.ddkIoctlCompletion 0)
  pure (some (irp, fields), heap)

/-- `METHOD_BUFFERED`. -/
def buildBuffered (env : Env) (req : Request) (irp : Irp) (fields : IrpFields) (heap : Heap) :
    Except Trap (Option (Irp × IrpFields) × Heap) := do
  let fields := { fields with systemBuffer := env.systemBuffer }
  if fields.systemBuffer = 0 then pure (none, heap.free fields.address)
  else
    let heap ← heap.copyMemory fields.systemBuffer req.inputBuffer req.inputBufferLength.toNat
    let fields := { fields with
      userBuffer := req.outputBuffer
      flags := fields.flags ||| (irpBufferedIo ||| irpDeallocateBuffer) }
    finishRequest env req irp fields heap

/-- `METHOD_IN_DIRECT` and `METHOD_OUT_DIRECT`, with `IoAllocateMdl`: the MDL becomes the only one
of the packet. -/
def buildDirect (env : Env) (req : Request) (irp : Irp) (fields : IrpFields) (heap : Heap) :
    Except Trap (Option (Irp × IrpFields) × Heap) :=
  let fields := { fields with
    systemBuffer := req.inputBuffer
    flags := fields.flags ||| irpBufferedIo }
  if env.mdl = 0 then pure (none, heap.free fields.address)
  else
    let irp := { irp with mdlAddress := [0] }
    let fields := { fields with
      mdl := some (mmInitializeMdl env.mdl req.outputBuffer req.outputBufferLength) }
    finishRequest env req irp fields heap

/-- `METHOD_NEITHER`. -/
def buildNeither (env : Env) (req : Request) (irp : Irp) (fields : IrpFields) (heap : Heap) :
    Except Trap (Option (Irp × IrpFields) × Heap) := do
  let irp ← updateNext irp fun location => { location with argument4 := req.inputBuffer }
  finishRequest env req irp { fields with userBuffer := req.outputBuffer } heap

/-- The `switch` over the transfer method. -/
def buildMethod (env : Env) (req : Request) (irp : Irp) (fields : IrpFields) (heap : Heap) :
    Except Trap (Option (Irp × IrpFields) × Heap) :=
  match req.method with
  | .buffered => buildBuffered env req irp fields heap
  | .inDirect => buildDirect env req irp fields heap
  | .outDirect => buildDirect env req irp fields heap
  | .neither => buildNeither env req irp fields heap

/-- `IoBuildDeviceIoControlRequest`: the packet, or nothing when the pool is exhausted. -/
def ioBuildDeviceIoControlRequest (env : Env) (req : Request) (heap : Heap) :
    Except Trap (Option (Irp × IrpFields) × Heap) := do
  if env.irp = 0 then pure (none, heap)
  else
    let irp ← updateNext (ioAllocateIrp req.stackSize) (setParameters req)
    buildMethod env req irp (zeroFields env.irp) heap

/-! ## `DdkIoctlCompletion` -/

/-- The copy of the output, when `IRP_BUFFERED_IO` is set. -/
def copyOutput (fields : IrpFields) (information : UInt64) (heap : Heap) : Except Trap Heap :=
  if fields.flags &&& irpBufferedIo ≠ 0 then
    heap.copyMemory fields.userBuffer fields.systemBuffer information.toNat
  else pure heap

/-- `*(Irp->UserIosb) = Irp->IoStatus`, if there is one. -/
def Heap.setUserIosb (heap : Heap) (userIosb : Pvoid) (ioStatus : IoStatusBlock) : Heap :=
  if userIosb ≠ 0 then
    { heap with statusBlocks := Function.update heap.statusBlocks userIosb ioStatus }
  else heap

/-- `KeSetEvent(Irp->UserEvent)`, if there is one. -/
def Heap.setUserEvent (heap : Heap) (userEvent : Pvoid) : Heap :=
  if userEvent ≠ 0 then heap.setEvent userEvent else heap

/-- `IoFreeMdl(Irp->MdlAddress)`, if there is one. -/
def Heap.freeMdl (heap : Heap) : Option Mdl → Heap
  | some mdl => heap.free mdl.address
  | none => heap

/-- `DdkIoctlCompletion`, with `IoFreeIrp` at its end. -/
def ddkIoctlCompletion (fields : IrpFields) (irp : Irp) (heap : Heap) : Except Trap Heap := do
  let heap ← copyOutput fields irp.ioStatus.information heap
  let heap := heap.setUserIosb fields.userIosb irp.ioStatus
  let heap := heap.setUserEvent fields.userEvent
  let heap := heap.freeMdl fields.mdl
  pure (heap.free fields.address)

/-- `DdkIoctlCompletion` as the loop of `IofCompleteRequest` calls it. -/
def ioctlReply (fields : IrpFields) (irp : Irp) (world : Except Trap Heap) :
    Reply (Except Trap Heap) :=
  ⟨irp.ioStatus, irp.cancel, statusMoreProcessingRequired,
    world.bind (ddkIoctlCompletion fields irp)⟩

end Wdutf.Io
