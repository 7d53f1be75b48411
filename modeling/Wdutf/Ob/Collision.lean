import Mathlib.Data.List.Basic
import Mathlib.Tactic.Common
import Wdutf.Ob.NamedEvent
import Wdutf.Ob.Loaded

/-!
# Wdutf.Ob.Collision — names that are taken

A creator allocates its object before it names it. When a live object has the
path, `DdkCreateName` releases the new object, so the caller is left with
nothing to return and nothing to release. Every creator then reports
`STATUS_OBJECT_NAME_EXISTS`, an informational status that passes `NT_SUCCESS`.

* `ioCreateDevice_taken`, `ioCreateDevice_created` — `IoCreateDevice`;
* `created_iff` — when a status that passes `NT_SUCCESS` means that there is a
  new object, for `IoCreateDevice`, `IoCreateSymbolicLink` and
  `DdkPnpCreateDevice`;
* `disciplined_iff` — which creators destroy the new object once and leave it
  alone from then on.
-/

namespace Wdutf.Ob

open Wdutf.Action Wdutf.Rtl
open Wdutf.Io (NtStatus ntSuccess)

/-! ## Statuses -/

/-- The `NTSTATUS` of `IoCreateDevice`. -/
def CreateStatus.ntstatus : CreateStatus → NtStatus
  | .insufficientResources => statusInsufficientResources
  | .objectNameExists => statusObjectNameExists
  | .created _ => statusSuccess

/-- What `IoCreateDevice` has stored in `*DeviceObject`. -/
def CreateStatus.deviceObject : CreateStatus → Option ObjId
  | .created device => some device
  | _ => none

/-! ## Plug and play -/

/-- `DdkPnpCreateDevice` up to the call of `AddDevice`: the status it returns instead, or the
`DeviceObject` that it passes on. The device has a generated name. -/
def pnpDeviceObject (memory : Bool) (ddkPnpManager : ObjId) :
    ObM (Except NtStatus (Option ObjId)) := do
  let status ← ioCreateDevice memory ddkPnpManager none true
  if !ntSuccess status.ntstatus then pure (.error status.ntstatus)
  else pure (.ok status.deviceObject)

/-- `DdkPnpCreateDevice`. The `AddDevice` routine of the driver, if it has one, and
`DdkPnpStartDevice(IoGetAttachedDevice(DeviceObject))` are parameters. -/
def ddkPnpCreateDevice (memory : Bool) (ddkPnpManager : ObjId)
    (addDevice : Option (Option ObjId → ObM NtStatus)) (startDevice : Option ObjId → ObM NtStatus) :
    ObM NtStatus := do
  match addDevice with
  | none => pure statusSuccess
  | some addDevice =>
    match ← pnpDeviceObject memory ddkPnpManager with
    | .error status => pure status
    | .ok deviceObject =>
      let status ← addDevice deviceObject
      if !ntSuccess status then
        match deviceObject with
        | some device => ioDeleteDevice device
        | none => throw .ddkfail
        pure status
      else startDevice deviceObject

/-! ## Devices -/

section Devices

variable {s t : State} {drv : ObjId} {deviceName : Option UnicodeString} {autogenerated : Bool}
  {path : UnicodeString} {y : ObjId}

/-- A driver that devices can be created for: it has references, and its list of devices
ends. -/
def ValidDriver (s : State) (drv : ObjId) : Prop :=
  ∃ rc d ds, DevList s drv rc d ds ∧ 1 ≤ rc ∧ ds.Nodup

theorem Table.devList_lt (h : Table s) {rc : ℤ} {d : Driver} {ds : List ObjId}
    (hlist : DevList s drv rc d ds) : drv < s.nextObject ∧ ∀ x ∈ ds, x < s.nextObject := by
  constructor
  · rcases hlist with ⟨head, hdrv, -⟩
    exact h.heap drv (by rw [hdrv]; simp)
  · intro x hx
    rcases devList_mem hlist hx with ⟨rcx, next, hob⟩
    exact h.heap x (by rw [hob]; simp)

/-- A new device is on no list yet, so its destruction touches nothing else. -/
theorem destroyable_device (h : Table s) (hdrv : ValidDriver s drv) :
    Destroyable s (.device drv none) := by
  intro y oby hoby _
  rcases hdrv with ⟨rc, d, ds, hlist, hrc, hnodup⟩
  rcases h.devList_lt hlist with ⟨hdlt, hlt⟩
  have hnew : ((s.allocated (.device drv none)).addRefs (refOn (some y))).objects s.nextObject =
      some ⟨1, .device drv none⟩ := by
    rw [addRefs_of_zero (refOn_of_ne (h.ne_fresh hoby).symm), allocated_self]
  have hold : ∀ x, x = drv ∨ x ∈ ds →
      ((s.allocated (.device drv none)).addRefs (refOn (some y))).objects x =
        (s.objects x).map fun ob => { ob with refcount := ob.refcount + refOn (some y) x } := by
    intro x hx
    have hxne : x ≠ s.nextObject := by
      rcases hx with rfl | hx
      · exact Nat.ne_of_lt hdlt
      · exact Nat.ne_of_lt (hlt x hx)
    show ((s.allocated (.device drv none)).objects x).map _ = _
    rw [allocated_of_ne s _ hxne]
  rcases id hlist with ⟨head, hob, -⟩
  have hdob := hold drv (Or.inl rfl)
  rw [hob] at hdob
  have hrefs := refOn_nonneg (some y) drv
  refine dereferenceDevice_unlisted hlist hnodup (fun x hx => ?_) hdob
    (by show 1 ≤ rc + refOn (some y) drv; omega) (fun x hx => Nat.lt_succ_of_lt (hlt x hx))
    (fun hmem => Nat.lt_irrefl _ (hlt _ hmem)) hnew h.addrs h.unnamed_fresh
  -- the reference on the holder leaves the bodies as they are
  rw [hold x hx]
  cases s.objects x <;> rfl

/-- The path that a new device is to have, if any. -/
def requestedPath (s : State) (deviceName : Option UnicodeString) (autogenerated : Bool) :
    Option UnicodeString :=
  match deviceName with
  | some name => some (canonicalPath name deviceDir)
  | none =>
    if autogenerated then
      some (canonicalPath (deviceDir ++ backslash :: hex8 (s.uniqueId + 1)) deviceDir)
    else none

/-- `UniqueId` has moved on when a name was generated. -/
def State.numbered (s : State) (deviceName : Option UnicodeString) (autogenerated : Bool) : State :=
  match deviceName, autogenerated with
  | none, true => { s with uniqueId := s.uniqueId + 1 }
  | _, _ => s

section Numbered

variable (s : State) (deviceName : Option UnicodeString) (autogenerated : Bool)

@[simp] theorem numbered_objects : (s.numbered deviceName autogenerated).objects = s.objects := by
  rcases deviceName with _ | _ <;> cases autogenerated <;> rfl

@[simp] theorem numbered_nextObject :
    (s.numbered deviceName autogenerated).nextObject = s.nextObject := by
  rcases deviceName with _ | _ <;> cases autogenerated <;> rfl

@[simp] theorem numbered_ddkNameList :
    (s.numbered deviceName autogenerated).ddkNameList = s.ddkNameList := by
  rcases deviceName with _ | _ <;> cases autogenerated <;> rfl

@[simp] theorem numbered_notes : (s.numbered deviceName autogenerated).notes = s.notes := by
  rcases deviceName with _ | _ <;> cases autogenerated <;> rfl

end Numbered

theorem Table.uniqueId (h : Table s) (id : UInt32) : Table { s with uniqueId := id } :=
  ⟨h.addrs, h.addr_lt, h.objects, h.nulFree, h.heap, h.listed, h.destination⟩

theorem ValidDriver.uniqueId (h : ValidDriver s drv) (id : UInt32) :
    ValidDriver { s with uniqueId := id } drv := by
  rcases h with ⟨rc, d, ds, hlist, hrc, hnodup⟩
  exact ⟨rc, d, ds, devList_frame hlist rfl (fun _ _ => rfl), hrc, hnodup⟩

theorem Table.allocatedDevice (h : Table s) (drv : ObjId) :
    Table (s.allocated (.device drv none)) := h.allocated (by simp)

/-- The path is taken: the new device is gone. -/
theorem insertDeviceName_taken (h : Table s) (hdrv : ValidDriver s drv)
    (hname : DeviceNameOk deviceName) (hpath : requestedPath s deviceName autogenerated = some path)
    (hfind : s.findLive path = some y) :
    insertDeviceName s.nextObject deviceName autogenerated (s.allocated (.device drv none)) =
      .ok false (s.numbered deviceName autogenerated).collided := by
  cases deviceName with
  | some name =>
    rcases Option.some.inj hpath with rfl
    have hok := hname name rfl
    exact h.insertName_taken (h.allocatedDevice drv) (destroyable_device h hdrv) hok.1 hok.2 hfind
  | none =>
    cases autogenerated with
    | false => cases hpath
    | true =>
      rcases Option.some.inj hpath with rfl
      have hok := generated_ok (s.uniqueId + 1)
      have hid := h.uniqueId (s.uniqueId + 1)
      exact hid.insertName_taken (hid.allocatedDevice drv)
        (destroyable_device hid (hdrv.uniqueId _)) hok.1 hok.2 hfind

/-- The path is free: the new device has it. -/
theorem insertDeviceName_free (h : Table s) (drv : ObjId) (hname : DeviceNameOk deviceName)
    (hpath : requestedPath s deviceName autogenerated = some path)
    (hfind : s.findLive path = none) :
    insertDeviceName s.nextObject deviceName autogenerated (s.allocated (.device drv none)) =
      .ok true (((s.numbered deviceName autogenerated).allocated (.device drv none)).named
        s.nextObject ⟨1, .device drv none⟩ path) := by
  cases deviceName with
  | some name =>
    rcases Option.some.inj hpath with rfl
    have hok := hname name rfl
    exact h.insertName_free (h.allocatedDevice drv) hok.1 hok.2 hfind
  | none =>
    cases autogenerated with
    | false => cases hpath
    | true =>
      rcases Option.some.inj hpath with rfl
      have hok := generated_ok (s.uniqueId + 1)
      have hid := h.uniqueId (s.uniqueId + 1)
      exact hid.insertName_free (hid.allocatedDevice drv) hok.1 hok.2 hfind

theorem insertDeviceName_unnamed (hpath : requestedPath s deviceName autogenerated = none) :
    insertDeviceName s.nextObject deviceName autogenerated (s.allocated (.device drv none)) =
      .ok true (s.allocated (.device drv none)) := by
  cases deviceName with
  | some name => cases hpath
  | none =>
    cases autogenerated with
    | false => rfl
    | true => cases hpath

/-- `dev` is a new device of the driver, on its list, and under its path. -/
structure DeviceCreated (s : State) (drv : ObjId) (requested : Option UnicodeString) (dev : ObjId)
    (t : State) : Prop where
  fresh : s.objects dev = none
  device : ∃ rc next, 1 ≤ rc ∧ t.objects dev = some ⟨rc, .device drv next⟩
  listed : ∃ rc d ds, DevList t drv rc d ds ∧ dev ∈ ds
  named : ∀ path ∈ requested, t.findLive path = some dev

/-- **`IoCreateDevice`, when the path is taken.** -/
theorem ioCreateDevice_taken (h : Table s) (hdrv : ValidDriver s drv)
    (hname : DeviceNameOk deviceName) (hpath : requestedPath s deviceName autogenerated = some path)
    (hfind : s.findLive path = some y) :
    ioCreateDevice true drv deviceName autogenerated s =
      .ok .objectNameExists (s.numbered deviceName autogenerated).collided := by
  rw [ioCreateDevice, if_pos rfl, bind_ok (ddkAllocObject_run _ s),
    bind_ok (insertDeviceName_taken h hdrv hname hpath hfind)]
  rfl

/-- The new device comes to the end of the list of its driver. -/
theorem addDevice_created (h : Table s) (hdrv : ValidDriver s drv)
    (requested : Option UnicodeString) {u : State} {rcd : ℤ}
    (hdev : u.objects s.nextObject = some ⟨rcd, .device drv none⟩) (hrcd : 1 ≤ rcd)
    (hold : ∀ x, x ≠ s.nextObject → u.objects x = s.objects x)
    (hnext : s.nextObject ≤ u.nextObject) (hnames : ∀ path ∈ requested,
      ∃ e : Name, u.ddkNameList = e :: s.ddkNameList ∧ e.object = s.nextObject ∧
        folded path = folded e.name) :
    ∃ t, ddkAddDevice drv s.nextObject u = .ok () t ∧
      DeviceCreated s drv requested s.nextObject t := by
  rcases hdrv with ⟨rc, d, ds, hlist, hrc, hnodup⟩
  rcases h.devList_lt hlist with ⟨hdlt, hlt⟩
  have hulist : DevList u drv rc d ds := devList_frame hlist (hold drv (Nat.ne_of_lt hdlt))
    fun x hx => hold x (Nat.ne_of_lt (hlt x hx))
  obtain ⟨t, hadd, htlist, hshape, htnames, -, -⟩ := addDevice_devList hulist hrc hnodup
    (fun x hx => Nat.lt_of_lt_of_le (hlt x hx) hnext) (fun hmem => Nat.lt_irrefl _ (hlt _ hmem))
    hdev
  have hdevShape : t.shape s.nextObject = some (rcd, some drv) := by
    rw [hshape _ (Nat.ne_of_lt hdlt).symm, shape_of hdev]
    rfl
  rcases device_of_shape hdevShape with ⟨next, hob⟩
  refine ⟨t, hadd, h.fresh, ⟨rcd, next, hrcd, hob⟩, ⟨_, _, _, htlist, by simp⟩, ?_⟩
  intro path hpath
  rcases hnames path hpath with ⟨e, hcons, heo, hfold⟩
  rw [← heo]
  refine findLive_cons (s := s) hfold (htnames.trans hcons) ⟨_, heo ▸ hob, ?_⟩
  show rcd ≠ 0
  omega

/-- **`IoCreateDevice`, when the path is free** or the device has none. -/
theorem ioCreateDevice_created (h : Table s) (hdrv : ValidDriver s drv)
    (hname : DeviceNameOk deviceName)
    (hfree : ∀ path ∈ requestedPath s deviceName autogenerated, s.findLive path = none) :
    ∃ t, ioCreateDevice true drv deviceName autogenerated s = .ok (.created s.nextObject) t ∧
      DeviceCreated s drv (requestedPath s deviceName autogenerated) s.nextObject t := by
  have hrun : ∀ {u t : State},
      insertDeviceName s.nextObject deviceName autogenerated (s.allocated (.device drv none)) =
        .ok true u → ddkAddDevice drv s.nextObject u = .ok () t →
      ioCreateDevice true drv deviceName autogenerated s = .ok (.created s.nextObject) t := by
    intro u t hins hadd
    rw [ioCreateDevice, if_pos rfl, bind_ok (ddkAllocObject_run _ s), bind_ok hins, if_pos rfl,
      bind_ok hadd]
    rfl
  cases hpath : requestedPath s deviceName autogenerated with
  | none =>
    rcases addDevice_created h hdrv none (allocated_self s _) (le_refl 1)
      (fun x hx => allocated_of_ne s _ hx) (Nat.le_succ _) (by simp) with ⟨t, hadd, hcreated⟩
    exact ⟨t, hrun (insertDeviceName_unnamed hpath) hadd, hcreated⟩
  | some path =>
    have hins := insertDeviceName_free h drv hname hpath (hfree path hpath)
    generalize hu : ((s.numbered deviceName autogenerated).allocated (.device drv none)).named
      s.nextObject ⟨1, .device drv none⟩ path = u at hins
    have hdev : u.objects s.nextObject = some ⟨2, .device drv none⟩ := by
      rw [← hu]
      exact named_self ..
    have hold : ∀ x, x ≠ s.nextObject → u.objects x = s.objects x := by
      intro x hx
      rw [← hu, named_of_ne _ _ _ hx, allocated_of_ne _ _ (by simpa using hx), numbered_objects]
    have hnext : s.nextObject ≤ u.nextObject := by
      rw [← hu]
      show s.nextObject ≤ (s.numbered deviceName autogenerated).nextObject + 1
      rw [numbered_nextObject]
      exact Nat.le_succ _
    have hnames : ∀ path' ∈ some path, ∃ e : Name, u.ddkNameList = e :: s.ddkNameList ∧
        e.object = s.nextObject ∧ folded path' = folded e.name := by
      intro path' hpath'
      rcases Option.some.inj hpath' with rfl
      rw [← hu]
      exact ⟨_, congrArg _ (numbered_ddkNameList ..), rfl, rfl⟩
    rcases addDevice_created h hdrv (some path) hdev (by decide) hold hnext hnames with
      ⟨t, hadd, hcreated⟩
    exact ⟨t, hrun hins hadd, hcreated⟩

end Devices

/-! ## Success means created -/

namespace Collision

/-- The calls whose callers go by `NT_SUCCESS`. -/
inductive Request where
  | createDevice (memory : Bool) (driver : ObjId) (deviceName : Option UnicodeString)
      (autogenerated : Bool)
  | createSymbolicLink (memory : Bool) (symbolicLinkName deviceName : UnicodeString)
  | pnpCreateDevice (memory : Bool) (ddkPnpManager : ObjId)

/-- The assertions let the arguments pass, and the driver is one. -/
def Request.Accepted (s : State) : Request → Prop
  | .createDevice _ driver deviceName _ => ValidDriver s driver ∧ DeviceNameOk deviceName
  | .createSymbolicLink _ symbolicLinkName deviceName =>
    symbolicLinkName ≠ [] ∧ deviceName ≠ [] ∧ PathFits symbolicLinkName [] ∧
      PathFits deviceName []
  | .pnpCreateDevice _ ddkPnpManager => ValidDriver s ddkPnpManager

/-- The name denotes a new link with the destination. -/
def LinkCreated (s : State) (symbolicLinkName deviceName : UnicodeString) (t : State) : Prop :=
  ∃ o rc, s.objects o = none ∧ 1 ≤ rc ∧ t.findLive (canonicalPath symbolicLinkName []) = some o ∧
    t.objects o = some ⟨rc, .symlink deviceName true⟩

/-- The call returns, and a status that passes `NT_SUCCESS` means that there is a new object.
The `AddDevice` routine of a driver gets a device: what it would do with `NULL` is of no
consequence. -/
def SuccessMeansCreated (s : State) : Request → Prop
  | .createDevice memory driver deviceName autogenerated => ∃ status t,
    ioCreateDevice memory driver deviceName autogenerated s = .ok status t ∧
      (ntSuccess status.ntstatus = true → ∃ dev, status.deviceObject = some dev ∧
        DeviceCreated s driver (requestedPath s deviceName autogenerated) dev t)
  | .createSymbolicLink memory symbolicLinkName deviceName => ∃ status t,
    ioCreateSymbolicLink memory symbolicLinkName deviceName s = .ok status t ∧
      (ntSuccess status = true → LinkCreated s symbolicLinkName deviceName t)
  | .pnpCreateDevice memory ddkPnpManager => ∃ called t,
    pnpDeviceObject memory ddkPnpManager s = .ok called t ∧ called ≠ .ok none ∧
      ∀ addDevice addDevice' startDevice,
        (∀ device, addDevice (some device) = addDevice' (some device)) →
        ddkPnpCreateDevice memory ddkPnpManager (some addDevice) startDevice s =
          ddkPnpCreateDevice memory ddkPnpManager (some addDevice') startDevice s

/-- No live object is under the path of the new object, if it is to have one; a link
keeps all of its destination. -/
def Request.Free (s : State) : Request → Prop
  | .createDevice memory _ deviceName autogenerated => memory = true →
    ∀ path ∈ requestedPath s deviceName autogenerated, s.findLive path = none
  | .createSymbolicLink memory symbolicLinkName deviceName => memory = true →
    s.findLive (canonicalPath symbolicLinkName []) = none ∧ ∀ c ∈ deviceName, c ≠ 0
  | .pnpCreateDevice memory _ => memory = true →
    ∀ path ∈ requestedPath s none true, s.findLive path = none

section Created

variable {s : State} {memory autogenerated : Bool} {drv : ObjId}
  {deviceName : Option UnicodeString} {link destination : UnicodeString}

theorem createDevice_iff (h : Table s) (hdrv : ValidDriver s drv)
    (hname : DeviceNameOk deviceName) :
    SuccessMeansCreated s (.createDevice memory drv deviceName autogenerated) ↔
      Request.Free s (.createDevice memory drv deviceName autogenerated) := by
  cases memory with
  | false =>
    refine iff_of_true ⟨_, _, rfl, fun hsuccess => ?_⟩ fun hmemory => by cases hmemory
    exact absurd hsuccess (by decide)
  | true =>
    constructor
    · rintro ⟨status, t, hrun, hcreated⟩ - path hpath
      by_contra htaken
      rcases Option.ne_none_iff_exists'.1 htaken with ⟨y, hfind⟩
      -- the status is informational, and no device is stored
      rcases result_eq (ioCreateDevice_taken h hdrv hname hpath hfind) hrun with ⟨rfl, -⟩
      rcases hcreated (by decide) with ⟨dev, hdev, -⟩
      cases hdev
    · intro hfree
      rcases ioCreateDevice_created h hdrv hname (hfree rfl) with ⟨t, hrun, hcreated⟩
      exact ⟨_, t, hrun, fun _ => ⟨_, rfl, hcreated⟩⟩

/-- `DdkPnpCreateDevice` behind the creation of a device. -/
theorem ddkPnpCreateDevice_congr {called : Except NtStatus (Option ObjId)} {t : State}
    (hrun : pnpDeviceObject memory drv s = .ok called t) (hcalled : called ≠ .ok none)
    {addDevice addDevice' : Option ObjId → ObM NtStatus} (startDevice : Option ObjId → ObM NtStatus)
    (hsame : ∀ device, addDevice (some device) = addDevice' (some device)) :
    ddkPnpCreateDevice memory drv (some addDevice) startDevice s =
      ddkPnpCreateDevice memory drv (some addDevice') startDevice s := by
  simp only [ddkPnpCreateDevice, bind_ok hrun]
  rcases called with status | _ | device
  · rfl
  · exact absurd rfl hcalled
  · simp only [hsame device]

theorem pnpCreateDevice_iff (h : Table s) (hdrv : ValidDriver s drv) :
    SuccessMeansCreated s (.pnpCreateDevice memory drv) ↔
      Request.Free s (.pnpCreateDevice memory drv) := by
  have hname : DeviceNameOk none := fun name hmem => by cases hmem
  cases memory with
  | false =>
    have hrun : pnpDeviceObject false drv s = .ok (.error statusInsufficientResources) s := rfl
    refine iff_of_true ⟨_, s, hrun, by simp, fun _ _ => ?_⟩ fun hmemory => by cases hmemory
    exact ddkPnpCreateDevice_congr hrun (by simp)
  | true =>
    constructor
    · rintro ⟨called, t, hrun, hcalled, -⟩ - path hpath
      by_contra htaken
      rcases Option.ne_none_iff_exists'.1 htaken with ⟨y, hfind⟩
      have hnull : pnpDeviceObject true drv s = .ok (.ok none) (s.numbered none true).collided := by
        rw [pnpDeviceObject, bind_ok (ioCreateDevice_taken h hdrv hname hpath hfind)]
        rfl
      exact hcalled (result_eq hrun hnull).1
    · intro hfree
      rcases ioCreateDevice_created h hdrv hname (hfree rfl) with ⟨t, hrun, -⟩
      have hdevice : pnpDeviceObject true drv s = .ok (.ok (some s.nextObject)) t := by
        rw [pnpDeviceObject, bind_ok hrun]
        rfl
      exact ⟨_, t, hdevice, by simp, fun _ _ => ddkPnpCreateDevice_congr hdevice (by simp)⟩

theorem wcs_eq_self_iff : wcs destination = destination ↔ ∀ c ∈ destination, c ≠ 0 := by
  rw [wcs, List.takeWhile_eq_self_iff]
  simp

theorem createSymbolicLink_iff (h : Table s)
    (hok : Request.Accepted s (.createSymbolicLink memory link destination)) :
    SuccessMeansCreated s (.createSymbolicLink memory link destination) ↔
      Request.Free s (.createSymbolicLink memory link destination) := by
  rcases hok with ⟨hlink, hdevice, hfits, hdestination⟩
  cases memory with
  | false =>
    refine iff_of_true ⟨_, _, ioCreateSymbolicLink_noMemory hdevice hlink, fun hsuccess => ?_⟩
      fun hmemory => by cases hmemory
    exact absurd hsuccess (by decide)
  | true =>
    cases hfind : s.findLive (canonicalPath link []) with
    | some y =>
      have hrun := ioCreateSymbolicLink_taken h hdevice hlink hdestination hfits hfind
      refine iff_of_false ?_ fun hfree => by rw [(hfree rfl).1] at hfind; cases hfind
      rintro ⟨status, t, hrun', hcreated⟩
      rcases result_eq hrun hrun' with ⟨rfl, rfl⟩
      rcases hcreated (by decide) with ⟨o, rc, hnone, hrc, hfound, hob⟩
      -- the name denotes what it denoted before
      have hbefore : s.objects o = some ⟨rc, .symlink destination true⟩ := hob
      rw [hnone] at hbefore
      cases hbefore
    | none =>
      have hrun := ioCreateSymbolicLink_free h hdevice hlink hdestination hfits hfind
      have hself : (s.linked link destination).objects s.nextObject =
          some ⟨2, .symlink (wcs destination) true⟩ := named_self ..
      have hfound : (s.linked link destination).findLive (canonicalPath link []) =
          some s.nextObject :=
        findLive_cons (s := s) (e := ⟨s.nextName, s.nextObject, canonicalPath link []⟩) rfl rfl
          ⟨_, hself, by simp⟩
      constructor
      · rintro ⟨status, t, hrun', hcreated⟩ -
        rcases result_eq hrun hrun' with ⟨rfl, rfl⟩
        rcases hcreated (by decide) with ⟨o, rc, -, -, hfound', hob⟩
        rcases Option.some.inj (hfound.symm.trans hfound') with rfl
        rw [hself] at hob
        injection Option.some.inj hob with _ hbody
        injection hbody with hbody
        exact ⟨hfind, wcs_eq_self_iff.1 hbody⟩
      · intro hfree
        rw [wcs_eq_self_iff.2 (hfree rfl).2] at hself
        exact ⟨_, _, hrun, fun _ => ⟨_, 2, h.fresh, by decide, hfound, hself⟩⟩

end Created

/-- **Success means created**, exactly when no live object is under the path. -/
theorem created_iff (s : State) (h : Table s) (request : Request) (hok : request.Accepted s) :
    SuccessMeansCreated s request ↔ request.Free s := by
  cases request with
  | createDevice memory driver deviceName autogenerated => exact createDevice_iff h hok.1 hok.2
  | createSymbolicLink memory symbolicLinkName deviceName => exact createSymbolicLink_iff h hok
  | pnpCreateDevice memory ddkPnpManager => exact pnpCreateDevice_iff h hok

/-- A driver with one device, whose creator has called it `\Device\00000001`. -/
def handNamed : State where
  objects := Function.update (Function.update (fun _ => none) 0
    (some ⟨2, .driver ⟨some 1, 0, false, false⟩⟩)) 1 (some ⟨2, .device 0 none⟩)
  nextObject := 2
  ddkNameList := [⟨0, 1, deviceDir ++ backslash :: hex8 1⟩]
  nextName := 1
  work := []
  uniqueId := 0
  notes := []

theorem table_handNamed : Table handNamed := by
  constructor
  case addrs => decide
  case addr_lt => decide
  case objects => decide
  case nulFree =>
    intro e he
    rcases List.mem_singleton.1 he with rfl
    show ∀ c ∈ canonicalPath (deviceDir ++ backslash :: hex8 1) deviceDir, c ≠ 0
    exact fun c hc => canonicalPath_ne_zero hc
  case heap =>
    intro o ho
    by_contra hlt
    refine ho ?_
    have h1 : o ≠ 1 := fun heq => hlt (heq ▸ by decide)
    have h0 : o ≠ 0 := fun heq => hlt (heq ▸ by decide)
    simp [handNamed, h0, h1]
  case listed =>
    intro e he
    rcases List.mem_singleton.1 he with rfl
    exact ⟨_, rfl, by decide⟩
  case destination =>
    intro o rc destination enabled hob
    by_cases h1 : o = 1
    · rw [h1] at hob
      cases hob
    · by_cases h0 : o = 0
      · rw [h0] at hob
        cases hob
      · simp [handNamed, h0, h1] at hob

theorem validDriver_handNamed : ValidDriver handNamed 0 :=
  ⟨2, ⟨none, 0, false, false⟩, [1], ⟨some 1, rfl, rfl, 2, none, rfl, rfl⟩, by decide, by decide⟩

/-- A second device with a name of its own. -/
theorem created_iff_named :
    SuccessMeansCreated handNamed (.createDevice true 0 (some [0x44]) false) := by
  have hok : Request.Accepted handNamed (.createDevice true 0 (some [0x44]) false) := by
    refine ⟨validDriver_handNamed, fun name hname => ?_⟩
    rcases Option.some.inj hname with rfl
    exact ⟨by decide, by decide⟩
  refine (created_iff handNamed table_handNamed _ hok).2 ?_
  intro _ path hpath
  rcases Option.some.inj hpath with rfl
  decide

/-- The generated name is the one that was given by hand: `AddDevice` gets `NULL`. -/
theorem addDevice_null : ¬ ∀ s, Table s → ∀ request : Request, request.Accepted s →
    SuccessMeansCreated s request := by
  intro hall
  rcases hall handNamed table_handNamed (.pnpCreateDevice true 0) validDriver_handNamed with
    ⟨called, t, hrun, hcalled, -⟩
  have heval : pnpDeviceObject true 0 handNamed = .ok (.ok none) _ := rfl
  exact hcalled (result_eq hrun heval).1

/-! ## The new object when its name is taken -/

/-- The routines that allocate an object and name it. -/
inductive Creator where
  | ioCreateDevice (driver : ObjId) (deviceName : Option UnicodeString) (autogenerated : Bool)
  | ioCreateSymbolicLink (symbolicLinkName deviceName : UnicodeString)
  | ddkCreateDriver (name : UnicodeString) (init : DriverInit) (image : Bool)
  | ddkCreateEvent (eventName : UnicodeString) (notify : Bool)

/-- The path of the new object. -/
def Creator.path (s : State) : Creator → Option UnicodeString
  | .ioCreateDevice _ deviceName autogenerated => requestedPath s deviceName autogenerated
  | .ioCreateSymbolicLink symbolicLinkName _ => some (canonicalPath symbolicLinkName [])
  | .ddkCreateDriver name _ _ => some (canonicalPath name driverDir)
  | .ddkCreateEvent eventName _ => some (eventPath eventName)

/-- The assertions let the arguments pass, and the driver of a device is one. -/
def Creator.Accepted (s : State) : Creator → Prop
  | .ioCreateDevice driver deviceName _ => ValidDriver s driver ∧ DeviceNameOk deviceName
  | .ioCreateSymbolicLink symbolicLinkName deviceName =>
    symbolicLinkName ≠ [] ∧ deviceName ≠ [] ∧ PathFits symbolicLinkName [] ∧
      PathFits deviceName []
  | .ddkCreateDriver name _ _ => NameOk name driverDir
  | .ddkCreateEvent eventName _ => EventNameOk eventName

/-- The call, when the allocation succeeds. The result tells `STATUS_SUCCESS`, or a pointer
that is not `NULL`, from what reports a failure. -/
def Creator.run : Creator → ObM Bool
  | .ioCreateDevice driver deviceName autogenerated => do
    let status ← Ob.ioCreateDevice true driver deviceName autogenerated
    pure (status.ntstatus == statusSuccess)
  | .ioCreateSymbolicLink symbolicLinkName deviceName => do
    let status ← Ob.ioCreateSymbolicLink true symbolicLinkName deviceName
    pure (status == statusSuccess)
  | .ddkCreateDriver name init image => do
    let status ← Ob.ddkCreateDriver name init image
    pure (status == .success)
  | .ddkCreateEvent eventName notify => do
    let pEvent ← Ob.ddkCreateEvent true eventName notify
    pure pEvent.isSome

/-- The call returns, so nothing that is freed was touched; it has freed the new object and
no other, and a failure has left the references on the holder of the path. -/
def Disciplined (s : State) (creator : Creator) (holder : ObjId) : Prop :=
  ∃ success t, creator.run s = .ok success t ∧ t.objects s.nextObject = none ∧
    t.notes = .freed s.nextObject :: s.notes ∧
    (success = false → t.refcount holder = s.refcount holder)

/-- The creator is not `DdkCreateDriver`. -/
def Creator.ReleasesOnce : Creator → Prop
  | .ddkCreateDriver _ _ _ => False
  | _ => True

section Taken

variable {s : State} {holder : ObjId}

/-- A run that ends in the state in which the new object has come and gone. -/
theorem disciplined_collided (h : Table s) {creator : Creator} {success : Bool} {n : State}
    (hrun : creator.run s = .ok success n.collided) (hobjects : n.objects = s.objects)
    (hnext : n.nextObject = s.nextObject) (hnotes : n.notes = s.notes) :
    Disciplined s creator holder := by
  refine ⟨success, _, hrun, ?_, ?_, fun _ => ?_⟩
  · show n.objects s.nextObject = none
    rw [hobjects, h.fresh]
  · show Note.freed n.nextObject :: n.notes = _
    rw [hnext, hnotes]
  · show (n.objects holder).map _ = (s.objects holder).map _
    rw [hobjects]

/-- `DdkCreateDriver` releases the driver that `DdkInsertName` has freed. -/
theorem ddkCreateDriver_taken (h : Table s) {name : UnicodeString} (hname : NameOk name driverDir)
    (hfind : s.findLive (canonicalPath name driverDir) = some holder) (init : DriverInit)
    (image : Bool) : ddkCreateDriver name init image s = .error .useAfterFree s.collided := by
  have htable : Table (s.allocated (.driver ⟨none, 0, image, false⟩)) := h.allocated (by simp)
  have hins := h.insertName_taken htable (h.destroyable trivial) hname.1 hname.2 hfind
  have hderef : ddkDereferenceObject s.nextObject s.collided = .error .useAfterFree s.collided := by
    have hget : getObject s.nextObject s.collided = .error .useAfterFree s.collided := by
      rw [getObject, show s.collided.objects s.nextObject = none from h.fresh]
    rw [ddkDereferenceObject, get_bind, derefLevels, bind_error hget]
  rw [ddkCreateDriver, bind_ok (ddkAllocObject_run _ s), bind_ok hins]
  exact bind_error hderef

/-- `DdkCreateEvent` keeps a reference on the holder when it returns it. -/
theorem ddkCreateEvent_disciplined (h : Table s) {eventName : UnicodeString} (notify : Bool)
    (hname : EventNameOk eventName) (hfind : s.findLive (eventPath eventName) = some holder) :
    Disciplined s (.ddkCreateEvent eventName notify) holder := by
  rcases h.findLive_held hfind with ⟨ob, hob, -⟩
  by_cases hbody : ob.body = .event notify
  · have hrun := ddkCreateEvent_opened h hname hfind hob hbody
    refine ⟨true, _, (bind_ok hrun).trans rfl, ?_, rfl, fun hfailed => by cases hfailed⟩
    exact addRefs_eq_none.2 h.fresh
  · have hrun := ddkCreateEvent_mismatch h hname hfind hob hbody
    exact disciplined_collided h ((bind_ok hrun).trans rfl) rfl rfl rfl

end Taken

/-- **Reference discipline on a name that is taken.** Every creator but `DdkCreateDriver`
destroys the new object once, and does not touch it any more. -/
theorem disciplined_iff (s : State) (h : Table s) (creator : Creator)
    (hok : creator.Accepted s) (path : UnicodeString) (hpath : creator.path s = some path)
    (holder : ObjId) (hfind : s.findLive path = some holder) :
    Disciplined s creator holder ↔ creator.ReleasesOnce := by
  cases creator with
  | ioCreateDevice driver deviceName autogenerated =>
    have hrun := ioCreateDevice_taken h hok.1 hok.2 hpath hfind
    refine iff_of_true ?_ trivial
    exact disciplined_collided h ((bind_ok hrun).trans rfl) (numbered_objects ..)
      (numbered_nextObject ..) (numbered_notes ..)
  | ioCreateSymbolicLink symbolicLinkName deviceName =>
    rcases Option.some.inj hpath with rfl
    rcases hok with ⟨hlink, hdevice, hfits, hdestination⟩
    have hrun := ioCreateSymbolicLink_taken h hdevice hlink hdestination hfits hfind
    exact iff_of_true (disciplined_collided h ((bind_ok hrun).trans rfl) rfl rfl rfl) trivial
  | ddkCreateDriver name init image =>
    rcases Option.some.inj hpath with rfl
    refine iff_of_false ?_ id
    rintro ⟨success, t, hrun, -⟩
    have hfault := bind_error (k := fun status => pure (status == .success))
      (ddkCreateDriver_taken h hok hfind init image)
    rw [show Creator.run (.ddkCreateDriver name init image) s = _ from hfault] at hrun
    cases hrun
  | ddkCreateEvent eventName notify =>
    rcases Option.some.inj hpath with rfl
    exact iff_of_true (ddkCreateEvent_disciplined h notify hok hfind) trivial

/-- The name of the device, asked for once more. -/
theorem disciplined_iff_device : Disciplined handNamed
    (.ioCreateDevice 0 (some (deviceDir ++ backslash :: hex8 1)) false) 1 := by
  have hok : Creator.Accepted handNamed
      (.ioCreateDevice 0 (some (deviceDir ++ backslash :: hex8 1)) false) := by
    refine ⟨validDriver_handNamed, fun name hname => ?_⟩
    rcases Option.some.inj hname with rfl
    exact generated_ok 1
  exact (disciplined_iff handNamed table_handNamed _ hok _ rfl 1 (by decide)).2 trivial

/-- The driver `P`, when a link is called `\Driver\P`. -/
theorem driver_not_disciplined : ¬ ∀ s, Table s → ∀ creator : Creator, creator.Accepted s →
    ∀ path, creator.path s = some path → ∀ holder, s.findLive path = some holder →
    Disciplined s creator holder := by
  intro hall
  have htable : Table (Symlink.oneNamed (.symlink [0x5C, 0x44] true)
      (driverDir ++ [backslash, 0x50])) := by
    refine Symlink.table_oneNamed (fun destination enabled heq => ?_)
      (by simp [driverDir, backslash])
    rcases Body.symlink.inj heq with ⟨rfl, -⟩
    decide
  rcases hall _ htable (.ddkCreateDriver [0x50] ⟨[], true, false, []⟩ false)
    ⟨by decide, by decide⟩ _ rfl 0 (by decide) with ⟨success, t, hrun, -⟩
  have hfault : Creator.run (.ddkCreateDriver [0x50] ⟨[], true, false, []⟩ false)
      (Symlink.oneNamed (.symlink [0x5C, 0x44] true) (driverDir ++ [backslash, 0x50])) =
      .error .useAfterFree _ := rfl
  rw [hfault] at hrun
  cases hrun

end Collision

end Wdutf.Ob
