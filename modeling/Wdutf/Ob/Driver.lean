import Mathlib.Data.List.Basic
import Wdutf.Ob.Model

/-!
# Wdutf.Ob.Driver — drivers and devices, `src/driver.cpp` and `src/device.cpp`

Loading, unloading and the device list of a driver. What a driver does in its
own routines is a list of `DeviceAction`s: the devices it creates, and those of
its list that it deletes, in `DriverEntry`, when the plug and play manager
starts or removes its devices, and in `DriverUnload`.

`DdkLoadDriver` and `DdkInitDriver` differ in where the driver comes from: the
first loads an image. The file and registry work around the loading, the
delay-load calls and the waiting in `DdkWaitLastReference` leave no trace in
this state; a wait that would time out is a fault.

The name of a driver is given in characters, and made of wide characters in three ways: a
`char` is signed, and the name that `DdkGetDriverName` leaves for the lookup gets it with its
sign; `DdkCreateDriver` casts it to `unsigned char`; `%S` in `DdkLookupName` converts it as the
C locale does, in which bytes are characters.
-/

namespace Wdutf.Ob

open Wdutf.Rtl

/-! ## Devices -/

/-- `L"\\Device"`. -/
def deviceDir : List Wchar := [0x5C, 0x44, 0x65, 0x76, 0x69, 0x63, 0x65]

/-- `L"\\Driver"`. -/
def driverDir : List Wchar := [0x5C, 0x44, 0x72, 0x69, 0x76, 0x65, 0x72]

/-- A digit of `%x`. -/
def hexDigit (n : UInt32) : Wchar := if n < 10 then 0x30 + n.toUInt16 else 0x57 + n.toUInt16

/-- `%08x`. -/
def hex8 (n : UInt32) : List Wchar :=
  ([28, 24, 20, 16, 12, 8, 4, 0] : List UInt32).map fun k => hexDigit ((n >>> k) &&& 0xF)

/-- The loop of `DdkAddDevice`. -/
def addDeviceLoop (driver device : ObjId) : ℕ → Option ObjId → ObM Unit
  | 0, _ => throw .outOfLevels
  | turns + 1, ppDevice => do
    match ← deviceAt driver ppDevice with
    | some dev => addDeviceLoop driver device turns (some dev)
    | none => setDeviceAt driver ppDevice (some device)

/-- `DdkAddDevice`. -/
def ddkAddDevice (driver device : ObjId) : ObM Unit := do
  let _ ← getDriver driver
  addDeviceLoop driver device ((← get).nextObject + 1) none
  ddkReferenceObject driver
  note (.deviceCreated driver device)

/-- `DdkRemoveDevice`. -/
def ddkRemoveDevice (driver device : ObjId) : ObM Unit :=
  removeDevice ddkDereferenceObject driver device

/-- The outcomes of `IoCreateDevice`. -/
inductive CreateStatus where
  | insufficientResources
  | objectNameExists
  | created (device : ObjId)
deriving DecidableEq, Repr

/-- The name of a new device, given or generated. -/
def insertDeviceName (device : ObjId) (deviceName : Option UnicodeString) (autogenerated : Bool) :
    ObM Bool := do
  match deviceName with
  | some name => ddkInsertName name device deviceDir
  | none =>
    if autogenerated then
      modify fun s => { s with uniqueId := s.uniqueId + 1 }
      ddkInsertName (deviceDir ++ backslash :: hex8 (← get).uniqueId) device deviceDir
    else pure true

/-- `IoCreateDevice`; `memory` tells whether the allocation succeeds, and
`autogenerated` is the flag `FILE_AUTOGENERATED_DEVICE_NAME`. -/
def ioCreateDevice (memory : Bool) (driver : ObjId) (deviceName : Option UnicodeString)
    (autogenerated : Bool) : ObM CreateStatus := do
  if memory then
    let device ← ddkAllocObject (.device driver none)
    if ← insertDeviceName device deviceName autogenerated then
      ddkAddDevice driver device
      pure (.created device)
    else pure .objectNameExists
  else pure .insufficientResources

/-- `IoDeleteDevice`. -/
def ioDeleteDevice (device : ObjId) : ObM Unit := do
  match (← fromPointer device).body with
  | .device _ _ =>
    ddkRemoveObjectName device
    ddkDereferenceObject device
  | _ => throw .ddkfail

/-! ## Drivers -/

/-- A call that a routine of a driver makes: `IoCreateDevice` for itself, or
`IoDeleteDevice` for the device at a position of its list. -/
inductive DeviceAction where
  | create (memory : Bool) (deviceName : Option UnicodeString) (autogenerated : Bool)
  | delete (position : ℕ)

/-- The device at a position of the list, from a link on. -/
def deviceFrom (driver : ObjId) : ℕ → Option ObjId → ObM (Option ObjId)
  | 0, ppDevice => deviceAt driver ppDevice
  | position + 1, ppDevice => do
    match ← deviceAt driver ppDevice with
    | none => pure none
    | some dev => deviceFrom driver position (some dev)

/-- The calls of a routine of the driver, in order. -/
def runActions (driver : ObjId) : List DeviceAction → ObM Unit
  | [] => pure ()
  | .create memory deviceName autogenerated :: rest => do
    let _ ← ioCreateDevice memory driver deviceName autogenerated
    runActions driver rest
  | .delete position :: rest => do
    match ← deviceFrom driver position none with
    | none => pure ()
    | some device => ioDeleteDevice device
    runActions driver rest

/-- `GetDriver`. -/
def driverBody (o : ObjId) : ObM Driver := do
  match (← getObject o).body with
  | .driver d => pure d
  | _ => throw .ddkfail

/-- Write to the members of a `DRIVER`. -/
def setDriverBody (o : ObjId) (d : Driver) : ObM Unit := do
  let ob ← getObject o
  setObject o { ob with body := .driver d }

/-- What a driver does while it is loaded: its `DriverEntry`, whether that returns
`STATUS_SUCCESS` and sets `DriverUnload`, and its part in the start of its
devices when it has an `AddDevice` routine. -/
structure DriverInit where
  entry : List DeviceAction
  succeeds : Bool
  driverUnload : Bool
  addDevice : List DeviceAction

/-- The outcomes of a load. -/
inductive LoadStatus where
  | success
  | objectNameExists
deriving DecidableEq, Repr

/-- `DdkDriverEntry`. -/
def ddkDriverEntry (driver : ObjId) (init : DriverInit) : ObM Unit := do
  runActions driver init.entry
  if init.succeeds then
    setDriverBody driver { (← driverBody driver) with driverUnload := init.driverUnload }
  else throw .ddkfail

/-- `pDriver->loadcount++` in `DdkCreateDriver`. -/
def firstLoad (driver : ObjId) : ObM Unit := do
  let d ← driverBody driver
  setDriverBody driver { d with loadcount := d.loadcount + 1 }
  note (.driverCreated driver d.driverUnload)

/-- `DdkCreateDriver`. -/
def ddkCreateDriver (name : UnicodeString) (init : DriverInit) (image : Bool) : ObM LoadStatus := do
  let driver ← ddkAllocObject (.driver ⟨none, 0, image, false⟩)
  if ← ddkInsertName name driver driverDir then
    ddkDriverEntry driver init
    firstLoad driver
    runActions driver init.addDevice
    pure .success
  else
    ddkDereferenceObject driver
    pure .objectNameExists

/-- `DdkReferenceDriver`. -/
def ddkReferenceDriver (o : ObjId) (loaded : Bool) : ObM LoadStatus := do
  let d ← driverBody o
  if d.image != loaded then throw .ddkfail
  else
    setDriverBody o { d with loadcount := d.loadcount + 1 }
    pure .success

/-- `MAX_PATH`. -/
def maxPath : ℕ := 260

/-- The conversion of a `char` to a `wchar_t`. -/
def charToWchar (c : UInt8) : Wchar := c.toInt8.toInt16.toUInt16

/-- The conversion of an `unsigned char` to a `WCHAR`. -/
def wide (s : List UInt8) : List Wchar := s.map UInt8.toUInt16

/-- What `swprintf` leaves of `%S` in a buffer of 256 characters. -/
def formatName (name : List UInt8) : List Wchar := (wide name).take 255

/-- The body of `DdkLoadDriver` and `DdkInitDriver`, which look for `wname`, and create `name`. -/
def loadDriver (image : Bool) (wname name : UnicodeString) (init : DriverInit) :
    ObM LoadStatus := do
  match ← ddkLookupName wname driverDir with
  | some o => ddkReferenceDriver o image
  | none => ddkCreateDriver name init image

/-- `DdkLoadDriver` of a bare name, which `DdkGetDriverName` copies to `name[MAX_PATH+1]` as it
is. -/
def ddkLoadDriver (name : List UInt8) (init : DriverInit) : ObM LoadStatus :=
  if name.length ≤ maxPath then loadDriver true (name.map charToWchar) (wide name) init
  else throw .overrun

/-- `DdkInitDriver`. -/
def ddkInitDriver (pName : List UInt8) (init : DriverInit) : ObM LoadStatus :=
  loadDriver false (formatName pName) (wide pName) init

/-- `DdkWaitLastReference`, when it is not to time out. -/
def ddkWaitLastReference (o : ObjId) (count : ℤ) : ObM Unit := do
  if (← getObject o).refcount > count then throw .ddkfail else pure ()

/-- What a driver does while it is unloaded: when its devices are removed by the
plug and play manager, and in its `DriverUnload` routine. -/
structure DriverExit where
  pnpUnload : List DeviceAction
  driverUnload : List DeviceAction

/-- `pDriver->loadcount && !--(pDriver->loadcount)`. -/
def lastLoad (o : ObjId) : ObM Bool := do
  let d ← driverBody o
  if d.loadcount = 0 then pure false
  else
    setDriverBody o { d with loadcount := d.loadcount - 1 }
    pure (decide (d.loadcount - 1 = 0))

/-- What the driver does when it is unloaded for the last time. -/
def exitRoutines (o : ObjId) (exit : DriverExit) : ObM Unit := do
  runActions o exit.pnpUnload
  if (← driverBody o).driverUnload then
    note (.driverUnload o)
    runActions o exit.driverUnload

/-- The body of `DdkUnloadDriver`. Besides the reference of the lookup, the reference of the
load is dropped. -/
def unloadDriver (name : UnicodeString) (exit : DriverExit) : ObM Unit := do
  match ← ddkLookupName name driverDir with
  | none => pure ()
  | some o =>
    if ← lastLoad o then
      exitRoutines o exit
      ddkRemoveObjectName o
      ddkWaitLastReference o 2
    ddkDereferenceObject o
    ddkDereferenceObject o

/-- `DdkUnloadDriver`. -/
def ddkUnloadDriver (pName : List UInt8) (exit : DriverExit) : ObM Unit :=
  unloadDriver (formatName pName) exit

end Wdutf.Ob
