import Mathlib.Data.List.Basic
import Mathlib.Data.Int.Basic
import Mathlib.Logic.Function.Basic
import Wdutf.Rtl.Unicode

/-!
# Wdutf.Ob.Model — objects and their names, `src/object.cpp` and `src/name.cpp`

The state is the heap of objects, the list of names, and the deletions handed
to the thread pool. Routines are `EStateM` actions on it: a `DDKASSERT`, a call
of `ddkfail` and an access to a freed object or name entry are faults.

Releasing the last reference frees the object, which releases what it refers
to and removes its names, which releases references again. This recursion is
bounded by a number of levels (`derefLevels`); the loops over the name list keep
the entry whose `Next` field they point into, so that an entry freed under the
loop shows up as a fault.

Addresses are never used twice. Counts are integers; `Wdutf.Ob.Counts` tells when the `LONG`s
of the source hold them.
-/

namespace Wdutf.Ob

open Wdutf.Rtl

/-- The address of an object. -/
abbrev ObjId := ℕ

/-- The members of a `DRIVER` that the routines use. `image` and `driverUnload`
tell whether the pointer of that name is set. -/
structure Driver where
  deviceObject : Option ObjId
  loadcount : ℤ
  image : Bool
  driverUnload : Bool
deriving DecidableEq, Repr

/-- The part of an object that depends on its `type`. `other` stands for the
remaining types; like events and symbolic links they have no routine of their own
in `DdkFreeObject`. -/
inductive Body where
  | driver (driver : Driver)
  | device (driverObject : ObjId) (nextDevice : Option ObjId)
  | file (deviceObject : Option ObjId)
  | key
  | event (notify : Bool)
  | symlink (destination : UnicodeString) (enabled : Bool)
  | other
deriving DecidableEq, Repr

/-- `OBJECT`. -/
structure Object where
  refcount : ℤ
  body : Body
deriving DecidableEq, Repr

/-- `NAME`, with its address. -/
structure Name where
  addr : ℕ
  object : ObjId
  name : UnicodeString
deriving DecidableEq, Repr

/-- What the routines leave behind for an observer: a driver was created, with or
without a `DriverUnload` routine, a device was put on the list of a driver,
`DriverUnload` was called, an object was freed. -/
inductive Note where
  | driverCreated (driver : ObjId) (driverUnload : Bool)
  | deviceCreated (driver device : ObjId)
  | driverUnload (driver : ObjId)
  | freed (o : ObjId)
deriving DecidableEq, Repr

/-- The objects, `DdkNameList` from its head on, the objects whose deletion was
submitted to the thread pool, `UniqueId`, and the notes, newest first. An
object address from `nextObject` on and a name address from `nextName` on is
unused. -/
@[ext] structure State where
  objects : ObjId → Option Object
  nextObject : ObjId
  ddkNameList : List Name
  nextName : ℕ
  work : List ObjId
  uniqueId : UInt32
  notes : List Note

inductive Fault where
  | assertion
  | ddkfail
  | useAfterFree
  /-- A buffer is overrun. -/
  | overrun
  | outOfLevels
deriving DecidableEq, Repr

abbrev ObM := EStateM Fault State

/-! ## Primitive steps -/

/-- `DDKASSERT`. -/
def ddkAssert (condition : Bool) : ObM Unit := if condition then pure () else throw .assertion

/-- Read an object. -/
def getObject (o : ObjId) : ObM Object := fun s =>
  match s.objects o with
  | some ob => .ok ob s
  | none => .error .useAfterFree s

/-- Write an object. -/
def setObject (o : ObjId) (ob : Object) : ObM Unit :=
  modify fun s => { s with objects := Function.update s.objects o (some ob) }

/-- Record a note. -/
def note (n : Note) : ObM Unit := modify fun s => { s with notes := n :: s.notes }

/-- `DdkAllocObject`. -/
def ddkAllocObject (body : Body) : ObM ObjId := do
  let s ← get
  set { s with
    objects := Function.update s.objects s.nextObject (some ⟨1, body⟩)
    nextObject := s.nextObject + 1 }
  pure s.nextObject

/-- `free`. -/
def freeMemory (o : ObjId) : ObM Unit := do
  modify fun s => { s with objects := Function.update s.objects o none }
  note (.freed o)

/-- `FromPointer`: a pointer to an object without references is turned down. -/
def fromPointer (o : ObjId) : ObM Object := do
  let ob ← getObject o
  if ob.refcount ≤ 0 then throw .ddkfail else pure ob

/-- `DdkReferenceObject`. -/
def ddkReferenceObject (o : ObjId) : ObM Unit := do
  let ob ← getObject o
  setObject o { ob with refcount := ob.refcount + 1 }

/-! ## Loops over the name list -/

/-- The entry that `*ppEntry` points to, where `ppEntry` is the head of the list
or the `Next` field of an entry. -/
def entryAt (ppEntry : Option ℕ) : ObM (Option Name) := fun s =>
  match ppEntry with
  | none => .ok s.ddkNameList.head? s
  | some addr =>
    match s.ddkNameList.dropWhile (fun e => e.addr != addr) with
    | [] => .error .useAfterFree s
    | _ :: rest => .ok rest.head? s

/-- Take an entry off the list. -/
def unlinkName (addr : ℕ) : ObM Unit :=
  modify fun s => { s with ddkNameList := s.ddkNameList.filter fun e => e.addr != addr }

/-- The loop of `DdkRemoveName` and `DdkRemoveObjectName`: entries that match are
taken off the list, and their objects are released. -/
def removeNames (deref : ObjId → ObM Unit) (hit : Name → Bool) : ℕ → Option ℕ → ObM Unit
  | 0, _ => throw .outOfLevels
  | turns + 1, ppEntry => do
    match ← entryAt ppEntry with
    | none => pure ()
    | some pEntry =>
      if hit pEntry then
        unlinkName pEntry.addr
        deref pEntry.object
        removeNames deref hit turns ppEntry
      else
        removeNames deref hit turns (some pEntry.addr)

/-- `DdkRemoveObjectName`, over the routine that releases a reference. -/
def removeObjectName (deref : ObjId → ObM Unit) (o : ObjId) : ObM Unit := do
  removeNames deref (fun e => e.object == o) ((← get).ddkNameList.length + 1) none

/-! ## Device lists -/

/-- `*ppDevice`, where `ppDevice` is the `DeviceObject` field of a driver or the
`NextDevice` field of a device. -/
def deviceAt (driver : ObjId) (ppDevice : Option ObjId) : ObM (Option ObjId) := do
  match ppDevice with
  | none =>
    match (← getObject driver).body with
    | .driver d => pure d.deviceObject
    | _ => throw .ddkfail
  | some dev =>
    match (← getObject dev).body with
    | .device _ nextDevice => pure nextDevice
    | _ => throw .ddkfail

/-- `*ppDevice = value`. -/
def setDeviceAt (driver : ObjId) (ppDevice : Option ObjId) (value : Option ObjId) : ObM Unit := do
  match ppDevice with
  | none =>
    let ob ← getObject driver
    match ob.body with
    | .driver d => setObject driver { ob with body := .driver { d with deviceObject := value } }
    | _ => throw .ddkfail
  | some dev =>
    let ob ← getObject dev
    match ob.body with
    | .device driverObject _ => setObject dev { ob with body := .device driverObject value }
    | _ => throw .ddkfail

/-- `GetDriver(FromPointer(DriverObject))`. -/
def getDriver (o : ObjId) : ObM Driver := do
  match (← fromPointer o).body with
  | .driver d => pure d
  | _ => throw .ddkfail

/-- The loop of `DdkRemoveDevice`. -/
def removeDeviceLoop (deref : ObjId → ObM Unit) (driver device : ObjId) :
    ℕ → Option ObjId → ObM Unit
  | 0, _ => throw .outOfLevels
  | turns + 1, ppDevice => do
    match ← deviceAt driver ppDevice with
    | none => pure ()
    | some dev =>
      if dev = device then
        setDeviceAt driver ppDevice (← deviceAt driver (some device))
        deref driver
      else removeDeviceLoop deref driver device turns (some dev)

/-- `DdkRemoveDevice`. A list has no more devices than there are objects. -/
def removeDevice (deref : ObjId → ObM Unit) (driver device : ObjId) : ObM Unit := do
  let _ ← getDriver driver
  removeDeviceLoop deref driver device ((← get).nextObject + 1) none

/-! ## Releasing references -/

/-- `DdkFreeObject`, over the routine that releases a reference. -/
def freeObject (deref : ObjId → ObM Unit) (o : ObjId) : ObM Unit := do
  match (← getObject o).body with
  | .file (some deviceObject) =>
    let _ ← fromPointer deviceObject
    deref deviceObject
  | .device driverObject _ => removeDevice deref driverObject o
  | _ => pure ()
  removeObjectName deref o
  freeMemory o

/-- `DdkDereferenceObject`, with at most `levels` objects being freed inside each
other. -/
def derefLevels : ℕ → ObjId → ObM Unit
  | 0, _ => throw .outOfLevels
  | levels + 1, o => do
    let ob ← getObject o
    setObject o { ob with refcount := ob.refcount - 1 }
    if ob.refcount - 1 = 0 then freeObject (derefLevels levels) o

/-- `DdkDereferenceObject`. An object is freed once, so there is at most one level
for each object and one below them. -/
def ddkDereferenceObject (o : ObjId) : ObM Unit := do
  derefLevels ((← get).nextObject + 2) o

/-- `DdkFreeObject`. -/
def ddkFreeObject (o : ObjId) : ObM Unit := freeObject ddkDereferenceObject o

/-- `DdkRemoveObjectName`. -/
def ddkRemoveObjectName (o : ObjId) : ObM Unit := removeObjectName ddkDereferenceObject o

/-- `ObfReferenceObjectWithTag`. -/
def obfReferenceObject (o : ObjId) : ObM Unit := do
  let _ ← fromPointer o
  ddkReferenceObject o

/-- `ObfDereferenceObjectWithTag`. -/
def obfDereferenceObject (o : ObjId) : ObM Unit := do
  let _ ← fromPointer o
  ddkDereferenceObject o

/-- `ObDereferenceObjectDeferDeleteWithTag`: the last reference leaves the object
to the thread pool. -/
def obDereferenceObjectDeferDelete (o : ObjId) : ObM Unit := do
  let ob ← fromPointer o
  setObject o { ob with refcount := ob.refcount - 1 }
  if ob.refcount - 1 = 0 then modify fun s => { s with work := o :: s.work }

/-- `isHandleObject`. The types that `other` stands for have no handles here. -/
def isHandleObject (ob : Object) : Bool :=
  decide (0 < ob.refcount) && match ob.body with
    | .event _ => true
    | .file _ => true
    | .key => true
    | _ => false

/-- `ZwClose`; the result tells `STATUS_SUCCESS` from `STATUS_INVALID_HANDLE`. -/
def zwClose (o : ObjId) : ObM Bool := do
  if isHandleObject (← getObject o) then
    obfDereferenceObject o
    pure true
  else pure false

/-- `DdkObjectCallback`, when the thread pool runs a submitted deletion. -/
def ddkObjectCallback (o : ObjId) : ObM Unit := do
  modify fun s => { s with work := s.work.erase o }
  ddkFreeObject o

/-! ## Names -/

/-- The backslash. -/
def backslash : Wchar := 0x5C

/-- The characters of a NUL-terminated string. -/
def wcs (s : List Wchar) : List Wchar := s.takeWhile (· != 0)

/-- `RtlInitUnicodeString` on a NUL-terminated string. -/
def rtlInitUnicodeString (s : List Wchar) : ObM UnicodeString := do
  ddkAssert (decide (((wcs s).length + 1) * 2 ≤ 0xFFFF - 1))
  pure (wcs s)

/-- The text that `DdkCreatePath` builds. `Dir` and `Prefix` are empty when they
are `NULL`; the buffer of an empty name holds a terminator. -/
def pathText (name : UnicodeString) (dir pre : List Wchar) : List Wchar :=
  let relative := name.headD 0 != backslash
  let dir := wcs dir
  let d := if dir != [] && relative then
    dir ++ (if dir.getLastD 0 != backslash then [backslash] else []) else []
  let p := if relative then wcs pre else []
  d ++ p ++ wcs name

/-- `DdkCreatePath`. -/
def ddkCreatePath (name : UnicodeString) (dir pre : List Wchar) : ObM UnicodeString :=
  rtlInitUnicodeString (pathText name dir pre)

/-- The loop of `DdkFindName`. -/
def findName (path : UnicodeString) : List Name → ObM (Option ObjId)
  | [] => pure none
  | pEntry :: rest => do
    if rtlCompareUnicodeString path pEntry.name true = 0 then
      if (← getObject pEntry.object).refcount ≠ 0 then pure (some pEntry.object)
      else findName path rest
    else findName path rest

/-- `DdkFindName`. -/
def ddkFindName (path : UnicodeString) : ObM (Option ObjId) := do
  findName path (← get).ddkNameList

/-- Put a new entry at the head of the list. -/
def linkName (o : ObjId) (path : UnicodeString) : ObM Unit :=
  modify fun s => { s with
    ddkNameList := ⟨s.nextName, o, path⟩ :: s.ddkNameList
    nextName := s.nextName + 1 }

/-- `DdkCreateName`. The caller's reference on the object goes when the name is
taken. -/
def ddkCreateName (name : UnicodeString) (o : ObjId) (dir : List Wchar) : ObM ObjId := do
  ddkAssert (decide (1 ≤ name.length))
  let path ← ddkCreatePath name dir []
  match ← ddkFindName path with
  | some lookup =>
    ddkReferenceObject lookup
    ddkDereferenceObject o
    pure lookup
  | none =>
    linkName o path
    ddkReferenceObject o
    pure o

/-- `DdkInsertName`. -/
def ddkInsertName (name : UnicodeString) (o : ObjId) (dir : List Wchar) : ObM Bool := do
  let result ← ddkCreateName name o dir
  if result ≠ o then
    ddkDereferenceObject result
    pure false
  else pure true

/-- `DdkRemoveName`. -/
def ddkRemoveName (name : UnicodeString) : ObM Unit := do
  removeNames ddkDereferenceObject (fun e => rtlCompareUnicodeString name e.name true == 0)
    ((← get).ddkNameList.length + 1) none

/-- `DdkLookupName`. -/
def ddkLookupName (name : UnicodeString) (dir : List Wchar) : ObM (Option ObjId) := do
  let path ← ddkCreatePath name dir []
  match ← ddkFindName path with
  | some o =>
    ddkReferenceObject o
    pure (some o)
  | none => pure none

end Wdutf.Ob
