import Mathlib.Data.List.Basic
import Mathlib.Data.List.Nodup
import Mathlib.Data.List.Perm.Subperm
import Mathlib.Tactic.Common
import Wdutf.Ob.Release
import Wdutf.Ob.Driver

/-!
# Wdutf.Ob.DeviceList — the device list of a driver

The devices of a driver are linked through their `NextDevice` fields. `DevList`
says that the links, followed from the driver, visit exactly the given devices
and end.

* `devList_set` — what a write to one link does to the list;
* `addDevice_devList`, `freeDevice_listed`, `freeDevice_unlisted` — a device is
  put at the end of the list, and the destruction of a device takes it off the
  list and releases its driver, or leaves the list alone when it is not on it.
-/

namespace Wdutf.Ob

open Wdutf.Action

/-- What is left of an object when the links and the members of a driver are left
out: its reference count and, for a device, its driver. -/
def Object.shape (ob : Object) : ℤ × Option ObjId :=
  (ob.refcount, match ob.body with
    | .device driverObject _ => some driverObject
    | _ => none)

/-- The shapes of the objects. -/
def State.shape (s : State) (x : ObjId) : Option (ℤ × Option ObjId) :=
  (s.objects x).map Object.shape

/-- The links from `p` on visit the devices `ds` of the driver, and end. -/
def Chain (s : State) (drv : ObjId) : Option ObjId → List ObjId → Prop
  | p, [] => p = none
  | p, d :: ds => p = some d ∧
      ∃ rc next, s.objects d = some ⟨rc, .device drv next⟩ ∧ Chain s drv next ds

/-- The driver has `rc` references and the device list `ds`; `d` gives its other
members. -/
def DevList (s : State) (drv : ObjId) (rc : ℤ) (d : Driver) (ds : List ObjId) : Prop :=
  ∃ head, s.objects drv = some ⟨rc, .driver { d with deviceObject := head }⟩ ∧
    Chain s drv head ds

/-! ## Shapes -/

theorem shape_of {s : State} {x : ObjId} {ob : Object} (h : s.objects x = some ob) :
    s.shape x = some ob.shape := by
  rw [State.shape, h]
  rfl

theorem shape_congr {s t : State} {x : ObjId} (h : t.objects x = s.objects x) :
    t.shape x = s.shape x := by
  rw [State.shape, State.shape, h]

theorem shape_eq_none {s : State} {x : ObjId} : s.shape x = none ↔ s.objects x = none :=
  Option.map_eq_none_iff

/-- An object with a given driver is a device of it. -/
theorem device_of_shape {s : State} {x drv : ObjId} {rc : ℤ} (h : s.shape x = some (rc, some drv)) :
    ∃ next, s.objects x = some ⟨rc, .device drv next⟩ := by
  rcases Option.map_eq_some_iff.1 h with ⟨⟨rc', body⟩, hob, hshape⟩
  cases body with
  | device driverObject next =>
    rcases Prod.mk.inj hshape with ⟨rfl, heq⟩
    rcases Option.some.inj heq with rfl
    exact ⟨next, hob⟩
  | driver d => cases hshape
  | file deviceObject => cases hshape
  | key => cases hshape
  | event notify => cases hshape
  | symlink destination enabled => cases hshape
  | other => cases hshape

theorem shape_put_of_ne (s : State) {o x : ObjId} (ob : Option Object) (h : x ≠ o) :
    (s.put o ob).shape x = s.shape x := shape_congr (put_of_ne s ob h)

/-! ## The links -/

section Chain

variable {s t : State} {drv : ObjId} {rc : ℤ} {d : Driver} {p q : Option ObjId}
variable {ds before tail rest : List ObjId}

/-- A chain needs only the bodies of the objects on it. -/
theorem chain_bodies (h : Chain s drv p ds)
    (hsame : ∀ x ∈ ds, (t.objects x).map (·.body) = (s.objects x).map (·.body)) :
    Chain t drv p ds := by
  induction ds generalizing p with
  | nil => exact h
  | cons x ds ih =>
    rcases h with ⟨hp, rc, next, hx, hrest⟩
    have hbody := hsame x (by simp)
    rw [hx, Option.map_some] at hbody
    rcases Option.map_eq_some_iff.1 hbody with ⟨⟨rc', body⟩, hx', rfl⟩
    exact ⟨hp, rc', next, hx', ih hrest fun y hy => hsame y (List.mem_cons_of_mem x hy)⟩

theorem chain_frame (h : Chain s drv p ds) (hsame : ∀ x ∈ ds, t.objects x = s.objects x) :
    Chain t drv p ds :=
  chain_bodies h fun x hx => by rw [hsame x hx]

theorem chain_mem (h : Chain s drv p ds) {x : ObjId} (hx : x ∈ ds) :
    ∃ rc next, s.objects x = some ⟨rc, .device drv next⟩ := by
  induction ds generalizing p with
  | nil => simp at hx
  | cons y ds ih =>
    rcases h with ⟨-, rc, next, hy, hrest⟩
    rcases List.mem_cons.1 hx with rfl | hx
    · exact ⟨rc, next, hy⟩
    · exact ih hrest hx

theorem chain_head (h : Chain s drv p ds) : p = ds.head? := by
  cases ds with
  | nil => exact h
  | cons x ds => exact h.1

theorem devList_mem (h : DevList s drv rc d ds) {x : ObjId} (hx : x ∈ ds) :
    ∃ rc next, s.objects x = some ⟨rc, .device drv next⟩ := by
  rcases h with ⟨head, -, hchain⟩
  exact chain_mem hchain hx

/-- The driver itself is not on its list. -/
theorem devList_not_mem (h : DevList s drv rc d ds) : drv ∉ ds := by
  intro hmem
  rcases devList_mem h hmem with ⟨rc', next, hdev⟩
  rcases h with ⟨head, hdrv, -⟩
  rw [hdrv] at hdev
  cases hdev

theorem devList_frame (h : DevList s drv rc d ds) (hdrv : t.objects drv = s.objects drv)
    (hsame : ∀ x ∈ ds, t.objects x = s.objects x) : DevList t drv rc d ds := by
  rcases h with ⟨head, hob, hchain⟩
  exact ⟨head, by rw [hdrv, hob], chain_frame hchain hsame⟩

/-- The list needs only the bodies of the driver and its devices. -/
theorem devList_bodies (h : DevList s drv rc d ds)
    (hbody : ∀ x, x = drv ∨ x ∈ ds → (t.objects x).map (·.body) = (s.objects x).map (·.body))
    {rc' : ℤ} {ob : Object} (hob : t.objects drv = some ob) (hrc : ob.refcount = rc') :
    DevList t drv rc' d ds := by
  rcases h with ⟨head, hdrv, hchain⟩
  refine ⟨head, ?_, chain_bodies hchain fun x hx => hbody x (Or.inr hx)⟩
  have hsame := hbody drv (Or.inl rfl)
  rw [hob, hdrv, Option.map_some, Option.map_some] at hsame
  have hbodies : ob.body = .driver { d with deviceObject := head } := Option.some.inj hsame
  rw [hob, ← hrc, ← hbodies]

/-- The chain behind the last of the given devices. -/
theorem chain_drop (h : Chain s drv p (before ++ tail)) :
    ∃ q, Chain s drv q tail ∧
      (before = [] ∧ q = p ∨ ∃ b prev rc, before = b ++ [prev] ∧
        s.objects prev = some ⟨rc, .device drv q⟩) := by
  induction before generalizing p with
  | nil => exact ⟨p, h, Or.inl ⟨rfl, rfl⟩⟩
  | cons x before ih =>
    rcases h with ⟨-, rc, next, hx, hrest⟩
    rcases ih hrest with ⟨q, hq, hwhere⟩
    refine ⟨q, hq, Or.inr ?_⟩
    rcases hwhere with ⟨rfl, rfl⟩ | ⟨b, prev, rcp, rfl, hprev⟩
    · exact ⟨[], x, rc, rfl, hx⟩
    · exact ⟨x :: b, prev, rcp, rfl, hprev⟩

theorem chain_unique {ds' : List ObjId} (h : Chain s drv p ds) (h' : Chain s drv p ds') :
    ds = ds' := by
  induction ds generalizing p ds' with
  | nil =>
    obtain rfl : p = none := h
    rw [eq_comm, ← List.head?_eq_none_iff, ← chain_head h']
  | cons x ds ih =>
    rcases h with ⟨rfl, rc, next, hx, hrest⟩
    cases ds' with
    | nil => cases h'
    | cons y ds' =>
      rcases h' with ⟨hxy, rc', next', hy, hrest'⟩
      rcases Option.some.inj hxy with rfl
      rw [hx] at hy
      cases hy
      rw [ih hrest hrest']

/-- A list that ends comes to no device twice. -/
theorem chain_nodup (h : Chain s drv p ds) : ds.Nodup := by
  induction ds generalizing p with
  | nil => exact List.nodup_nil
  | cons x ds ih =>
    rcases id h with ⟨hp, rc, next, hx, hrest⟩
    refine List.nodup_cons.2 ⟨fun hmem => ?_, ih hrest⟩
    -- from its second visit on the list would be shorter
    rcases List.append_of_mem hmem with ⟨before, after, rfl⟩
    rcases chain_drop hrest with ⟨q, hq, -⟩
    obtain rfl : q = some x := hq.1
    rw [hp] at h
    have hlength := congrArg List.length (chain_unique h hq)
    simp only [List.length_cons, List.length_append] at hlength
    omega

/-- `*ppDevice`, after the loop has passed the given devices. -/
theorem deviceAt_ok (h : DevList s drv rc d (before ++ tail)) :
    deviceAt drv before.getLast? s = .ok tail.head? s := by
  rcases h with ⟨head, hdrv, hchain⟩
  rcases chain_drop hchain with ⟨q, hq, hwhere⟩
  rw [← chain_head hq]
  rcases hwhere with ⟨rfl, rfl⟩ | ⟨b, prev, rcp, rfl, hprev⟩
  · simp only [List.getLast?_nil, deviceAt]
    rw [bind_ok (getObject_ok hdrv)]
    rfl
  · simp only [List.getLast?_concat, deviceAt]
    rw [bind_ok (getObject_ok hprev)]
    rfl

/-- A write to the link behind `before` replaces the rest of the chain. -/
theorem chain_set {b : List ObjId} {prev : ObjId} {rcp : ℤ}
    (h : Chain s drv p (b ++ prev :: tail)) (hprev : t.objects prev = some ⟨rcp, .device drv q⟩)
    (hother : ∀ x, x ≠ prev → t.objects x = s.objects x) (hb : prev ∉ b)
    (hrest : Chain t drv q rest) : Chain t drv p (b ++ prev :: rest) := by
  induction b generalizing p with
  | nil =>
    rcases h with ⟨hp, -⟩
    exact ⟨hp, rcp, q, hprev, hrest⟩
  | cons x b ih =>
    rcases h with ⟨hp, rc, next, hx, hchain⟩
    refine ⟨hp, rc, next, ?_, ih hchain (fun hmem => hb (List.mem_cons_of_mem x hmem))⟩
    rw [hother x (by rintro rfl; exact hb (by simp)), hx]

/-- The result of a write to the link behind `before`: the list goes on with
`rest`, and nothing but the link has changed. -/
theorem devList_set (h : DevList s drv rc d (before ++ tail)) (hnodup : (before ++ rest).Nodup)
    (hrest : Chain s drv q rest) :
    ∃ t, setDeviceAt drv before.getLast? q s = .ok () t ∧ DevList t drv rc d (before ++ rest) ∧
      (∀ x, t.shape x = s.shape x) ∧
      t.ddkNameList = s.ddkNameList ∧ SameRest s t ∧ t.notes = s.notes := by
  rcases h with ⟨head, hdrv, hchain⟩
  have hdrv' : ∀ ds p, Chain s drv p ds → drv ∉ ds := by
    intro ds p hds hmem
    rcases chain_mem hds hmem with ⟨rc', next, hdev⟩
    rw [hdrv] at hdev
    cases hdev
  rcases List.eq_nil_or_concat before with rfl | ⟨b, prev, rfl⟩
  · -- the link is the head of the list
    refine ⟨s.put drv (some ⟨rc, .driver { d with deviceObject := q }⟩), ?_, ?_, ?_, rfl,
      ⟨rfl, rfl, rfl, rfl⟩, rfl⟩
    · simp only [List.getLast?_nil, setDeviceAt]
      rw [bind_ok (getObject_ok hdrv)]
      rfl
    · refine ⟨q, put_self .., chain_frame hrest ?_⟩
      intro x hx
      exact put_of_ne s _ (fun heq => hdrv' _ _ hrest (heq ▸ hx))
    · intro x
      by_cases hx : x = drv
      · rw [hx, shape_of (put_self ..), shape_of hdrv]
        rfl
      · exact shape_put_of_ne s _ hx
  · -- the link is the `NextDevice` field of a device
    rw [List.concat_eq_append] at *
    rw [List.append_assoc, List.singleton_append] at hnodup hchain
    rcases chain_mem hchain (x := prev) (by simp) with ⟨rcp, next, hprev⟩
    have hne : drv ≠ prev := fun heq => hdrv' _ _ hchain (by simp [heq])
    have hother : ∀ x, x ≠ prev →
        (s.put prev (some ⟨rcp, .device drv q⟩)).objects x = s.objects x :=
      fun x hx => put_of_ne s _ hx
    rw [List.nodup_middle, List.nodup_cons, List.mem_append, not_or] at hnodup
    refine ⟨s.put prev (some ⟨rcp, .device drv q⟩), ?_, ?_, ?_, rfl, ⟨rfl, rfl, rfl, rfl⟩, rfl⟩
    · simp only [List.getLast?_concat, setDeviceAt]
      rw [bind_ok (getObject_ok hprev)]
      rfl
    · refine ⟨head, by rw [hother drv hne, hdrv], ?_⟩
      rw [List.append_assoc, List.singleton_append]
      refine chain_set hchain (put_self ..) hother hnodup.1.1 (chain_frame hrest ?_)
      intro x hx
      exact hother x (fun heq => hnodup.1.2 (heq ▸ hx))
    · intro x
      by_cases hx : x = prev
      · rw [hx, shape_of (put_self ..), shape_of hprev]
        rfl
      · exact shape_put_of_ne s _ hx

/-- A change of the reference count of the driver. -/
theorem devList_put (h : DevList s drv rc d ds) {ob : Object} (hob : s.objects drv = some ob)
    (rc' : ℤ) : DevList (s.put drv (some { ob with refcount := rc' })) drv rc' d ds := by
  have hmiss := devList_not_mem h
  rcases h with ⟨head, hdrv, hchain⟩
  rw [hdrv] at hob
  rcases Option.some.inj hob with rfl
  exact ⟨head, put_self .., chain_frame hchain fun x hx =>
    put_of_ne s _ (fun heq => hmiss (heq ▸ hx))⟩

theorem getDriver_ok (h : DevList s drv rc d ds) (hpos : 1 ≤ rc) :
    ∃ d', getDriver drv s = .ok d' s := by
  rcases h with ⟨head, hdrv, -⟩
  refine ⟨{ d with deviceObject := head }, ?_⟩
  rw [getDriver, bind_ok (fromPointer_ok hdrv hpos)]
  rfl

/-! ## The loops -/

variable {dev : ObjId}

theorem addDeviceLoop_eq (h : DevList s drv rc d (before ++ tail)) {turns : ℕ}
    (hturns : tail.length < turns) :
    addDeviceLoop drv dev turns before.getLast? s =
      setDeviceAt drv (before ++ tail).getLast? (some dev) s := by
  induction tail generalizing before turns with
  | nil =>
    rcases Nat.exists_eq_add_one_of_ne_zero (by omega : turns ≠ 0) with ⟨turns, rfl⟩
    rw [addDeviceLoop, bind_ok (deviceAt_ok h), List.append_nil]
    rfl
  | cons x tail ih =>
    rcases Nat.exists_eq_add_one_of_ne_zero (by omega : turns ≠ 0) with ⟨turns, rfl⟩
    have h' : DevList s drv rc d ((before ++ [x]) ++ tail) := by simpa using h
    have hnext := ih h' (by simpa using hturns)
    rw [addDeviceLoop, bind_ok (deviceAt_ok h)]
    simpa using hnext

/-- A device that is not on the list is not found. -/
theorem removeDeviceLoop_miss (deref : ObjId → ObM Unit) (h : DevList s drv rc d (before ++ tail))
    (hmiss : dev ∉ tail) {turns : ℕ} (hturns : tail.length < turns) :
    removeDeviceLoop deref drv dev turns before.getLast? s = .ok () s := by
  induction tail generalizing before turns with
  | nil =>
    rcases Nat.exists_eq_add_one_of_ne_zero (by omega : turns ≠ 0) with ⟨turns, rfl⟩
    rw [removeDeviceLoop, bind_ok (deviceAt_ok h)]
    rfl
  | cons x tail ih =>
    rcases Nat.exists_eq_add_one_of_ne_zero (by omega : turns ≠ 0) with ⟨turns, rfl⟩
    have h' : DevList s drv rc d ((before ++ [x]) ++ tail) := by simpa using h
    have hnext := ih h' (fun hmem => hmiss (List.mem_cons_of_mem x hmem))
      (by simpa using hturns)
    have hne : x ≠ dev := fun heq => hmiss (by simp [heq])
    rw [removeDeviceLoop, bind_ok (deviceAt_ok h)]
    simp only [List.head?_cons, if_neg hne]
    simpa using hnext

/-- A device on the list is taken off, and the driver is released. -/
theorem removeDeviceLoop_hit (deref : ObjId → ObM Unit) {mid : List ObjId}
    (h : DevList s drv rc d (before ++ (mid ++ dev :: rest))) (hmid : dev ∉ mid) {turns : ℕ}
    (hturns : mid.length < turns) :
    removeDeviceLoop deref drv dev turns before.getLast? s =
      (do setDeviceAt drv (before ++ mid).getLast? rest.head?; deref drv : ObM Unit) s := by
  induction mid generalizing before turns with
  | nil =>
    rcases Nat.exists_eq_add_one_of_ne_zero (by omega : turns ≠ 0) with ⟨turns, rfl⟩
    have h' : DevList s drv rc d ((before ++ [dev]) ++ rest) := by simpa using h
    have hnext := deviceAt_ok h'
    rw [List.getLast?_concat] at hnext
    rw [removeDeviceLoop, bind_ok (deviceAt_ok h)]
    simp only [List.nil_append, List.head?_cons, if_true, bind_ok hnext, List.append_nil]
  | cons x mid ih =>
    rcases Nat.exists_eq_add_one_of_ne_zero (by omega : turns ≠ 0) with ⟨turns, rfl⟩
    have h' : DevList s drv rc d ((before ++ [x]) ++ (mid ++ dev :: rest)) := by simpa using h
    have hnext := ih h' (fun hmem => hmid (List.mem_cons_of_mem x hmem))
      (by simpa using hturns)
    have hne : x ≠ dev := fun heq => hmid (by simp [heq])
    rw [removeDeviceLoop, bind_ok (deviceAt_ok h)]
    simp only [List.cons_append, List.head?_cons, if_neg hne]
    simpa using hnext

/-! ## Adding a device -/

/-- Distinct addresses below a bound are no more than the bound. -/
theorem length_le_of_nodup {n : ℕ} (hnodup : ds.Nodup) (hlt : ∀ x ∈ ds, x < n) : ds.length ≤ n := by
  have hsub : ds ⊆ List.range n := fun x hx => List.mem_range.2 (hlt x hx)
  simpa using (hnodup.subperm hsub).length_le

/-- `DdkAddDevice` puts a new device at the end of the list. -/
theorem addDevice_devList (h : DevList s drv rc d ds) (hpos : 1 ≤ rc) (hnodup : ds.Nodup)
    (hlt : ∀ x ∈ ds, x < s.nextObject) (hnew : dev ∉ ds) {rcd : ℤ}
    (hdev : s.objects dev = some ⟨rcd, .device drv none⟩) :
    ∃ t, ddkAddDevice drv dev s = .ok () t ∧ DevList t drv (rc + 1) d (ds ++ [dev]) ∧
      (∀ x, x ≠ drv → t.shape x = s.shape x) ∧
      t.ddkNameList = s.ddkNameList ∧ SameRest s t ∧
      t.notes = .deviceCreated drv dev :: s.notes := by
  rcases getDriver_ok h hpos with ⟨d', hgetd⟩
  have hlen := length_le_of_nodup hnodup hlt
  have hnodup' : (ds ++ [dev]).Nodup := by
    rw [List.nodup_append_comm]
    exact List.nodup_cons.2 ⟨hnew, hnodup⟩
  have hloop : addDeviceLoop drv dev (s.nextObject + 1) ([] : List ObjId).getLast? s =
      setDeviceAt drv ([] ++ ds).getLast? (some dev) s := addDeviceLoop_eq h (by omega)
  obtain ⟨t, hset, hlist, hshape, hnames, hsame, hnotes⟩ :=
    devList_set ((List.append_nil ds).symm ▸ h) hnodup'
      (q := some dev) ⟨rfl, rcd, none, hdev, rfl⟩
  rcases id hlist with ⟨head, hdrv, -⟩
  have hput := devList_put hlist hdrv (rc + 1)
  refine ⟨{ t.put drv (some ⟨rc + 1, .driver { d with deviceObject := head }⟩) with
    notes := .deviceCreated drv dev :: t.notes }, ?_, ?_, ?_, hnames,
    ⟨hsame.nextObject, hsame.nextName, hsame.work, hsame.uniqueId⟩, by rw [← hnotes]⟩
  · rw [ddkAddDevice, bind_ok hgetd, get_bind]
    rw [List.getLast?_nil, List.nil_append, hset] at hloop
    rw [bind_ok hloop, bind_ok (ddkReferenceObject_ok hdrv)]
    rfl
  · exact devList_frame hput rfl fun _ _ => rfl
  · intro x hx
    exact (shape_put_of_ne t _ hx).trans (hshape x)

/-! ## Destroying a device -/

/-- The destruction of a device that is on no list and has no name. -/
theorem freeDevice_unlisted (deref : ObjId → ObM Unit) (h : DevList s drv rc d ds) (hpos : 1 ≤ rc)
    (hnodup : ds.Nodup) (hlt : ∀ x ∈ ds, x < s.nextObject) (hmiss : dev ∉ ds) {rcd : ℤ}
    {next : Option ObjId} (hdev : s.objects dev = some ⟨rcd, .device drv next⟩)
    (haddrs : (s.ddkNameList.map (·.addr)).Nodup) (hunnamed : ∀ e ∈ s.ddkNameList, e.object ≠ dev) :
    freeObject deref dev s = .ok () (s.freed dev) := by
  rcases getDriver_ok h hpos with ⟨d', hgetd⟩
  have hlen := length_le_of_nodup hnodup hlt
  have hloop : removeDeviceLoop deref drv dev (s.nextObject + 1) ([] : List ObjId).getLast? s =
      .ok () s :=
    removeDeviceLoop_miss deref h hmiss (by omega)
  have hremove : removeDevice deref drv dev s = .ok () s := by
    rw [removeDevice, bind_ok hgetd, get_bind]
    exact hloop
  rw [freeObject, bind_ok (getObject_ok hdev)]
  show (removeDevice deref drv dev >>= fun _ => _) s = _
  rw [bind_ok hremove, bind_ok (removeObjectName_none haddrs hunnamed)]
  rfl

/-- The last reference on such a device is released. The references on the driver and on the
devices of its list do not matter. -/
theorem dereferenceDevice_unlisted {u : State} (h : DevList s drv rc d ds) (hnodup : ds.Nodup)
    (hbody : ∀ x, x = drv ∨ x ∈ ds → (u.objects x).map (·.body) = (s.objects x).map (·.body))
    {ob : Object} (hdrv : u.objects drv = some ob) (hpos : 1 ≤ ob.refcount)
    (hlt : ∀ x ∈ ds, x < u.nextObject) (hmiss : dev ∉ ds) {next : Option ObjId}
    (hdev : u.objects dev = some ⟨1, .device drv next⟩)
    (haddrs : (u.ddkNameList.map (·.addr)).Nodup) (hunnamed : ∀ e ∈ u.ddkNameList, e.object ≠ dev) :
    ddkDereferenceObject dev u = .ok () (u.freed dev) := by
  have hlist : DevList u drv ob.refcount d ds := devList_bodies h hbody hdrv rfl
  have hne : drv ≠ dev := by
    rintro rfl
    rcases hlist with ⟨head, hdriver, -⟩
    rw [hdev] at hdriver
    injection Option.some.inj hdriver with _ hdriver
    cases hdriver
  -- its own count is 0 by then
  have hput : DevList (u.put dev (some ⟨0, .device drv next⟩)) drv ob.refcount d ds :=
    devList_frame hlist (put_of_ne u _ hne) fun x hx =>
      put_of_ne u _ (fun heq => hmiss (heq ▸ hx))
  have hfree := freeDevice_unlisted (derefLevels (u.nextObject + 1)) hput hpos hnodup hlt hmiss
    (put_self ..) haddrs hunnamed
  rw [put_freed] at hfree
  rw [ddkDereferenceObject, get_bind, derefLevels_one hdev rfl]
  exact hfree

/-- The destruction of a device without a name takes it off the list and releases
its driver. -/
theorem freeDevice_listed (levels : ℕ) (h : DevList s drv rc d (before ++ dev :: rest))
    (hpos : 2 ≤ rc) (hnodup : (before ++ dev :: rest).Nodup)
    (hlt : ∀ x ∈ before ++ dev :: rest, x < s.nextObject)
    (haddrs : (s.ddkNameList.map (·.addr)).Nodup) (hunnamed : ∀ e ∈ s.ddkNameList, e.object ≠ dev) :
    ∃ t, freeObject (derefLevels (levels + 1)) dev s = .ok () t ∧
      DevList t drv (rc - 1) d (before ++ rest) ∧ t.objects dev = none ∧
      (∀ x, x ≠ drv → x ≠ dev → t.shape x = s.shape x) ∧
      t.ddkNameList = s.ddkNameList ∧ SameRest s t ∧ t.notes = .freed dev :: s.notes := by
  rcases getDriver_ok h (by omega) with ⟨d', hgetd⟩
  have hlen := length_le_of_nodup hnodup hlt
  rw [List.length_append, List.length_cons] at hlen
  rcases List.nodup_cons.1 (List.nodup_middle.1 hnodup) with ⟨hdevNot, hnodup'⟩
  rw [List.mem_append, not_or] at hdevNot
  rcases devList_mem h (x := dev) (by simp) with ⟨rcd, next, hdev⟩
  have hne : dev ≠ drv := fun heq => devList_not_mem h (by simp [heq])
  -- the loop writes the link behind `before`, and releases the driver
  have hloop : removeDeviceLoop (derefLevels (levels + 1)) drv dev (s.nextObject + 1)
      ([] : List ObjId).getLast? s =
      (do
        setDeviceAt drv ([] ++ before).getLast? rest.head?
        derefLevels (levels + 1) drv : ObM Unit) s :=
    removeDeviceLoop_hit (derefLevels (levels + 1)) h hdevNot.1 (by omega)
  have hrest : Chain s drv rest.head? rest := by
    rcases id h with ⟨head, -, hchain⟩
    rw [List.append_cons] at hchain
    rcases chain_drop hchain with ⟨q, hq, -⟩
    rwa [chain_head hq] at hq
  rcases devList_set h hnodup' hrest with ⟨t, hset, hlist, hshape, hnames, hsame, hnotes⟩
  rcases id hlist with ⟨head, hdrv, -⟩
  have hderef := derefLevels_ne hdrv (by show rc ≠ 1; omega) levels
  have hput := devList_put hlist hdrv (rc - 1)
  generalize hu : t.put drv _ = u at hderef hput
  have hudrv : ∀ x, x ≠ drv → u.shape x = s.shape x := by
    intro x hx
    rw [← hu, shape_put_of_ne t _ hx, hshape x]
  have hunames : u.ddkNameList = s.ddkNameList := by rw [← hu]; exact hnames
  have hremove : removeDevice (derefLevels (levels + 1)) drv dev s = .ok () u := by
    rw [removeDevice, bind_ok hgetd, get_bind]
    refine hloop.trans ?_
    rw [List.nil_append, bind_ok hset]
    exact hderef
  have hkeep : ∀ x, x ∈ before ++ rest → x ≠ dev := by
    rintro x hx rfl
    exact (List.mem_append.1 hx).elim hdevNot.1 hdevNot.2
  have hfreed : ∀ x, x ≠ dev → (u.freed dev).objects x = u.objects x :=
    fun x hx => Function.update_of_ne hx ..
  refine ⟨u.freed dev, ?_, ?_, Function.update_self .., ?_, hunames, ?_, ?_⟩
  · rw [freeObject, bind_ok (getObject_ok hdev)]
    show (removeDevice _ drv dev >>= fun _ => _) s = _
    rw [bind_ok hremove, bind_ok (removeObjectName_none (by rwa [hunames]) (by rwa [hunames]))]
    rfl
  · exact devList_frame hput (hfreed drv hne.symm) fun x hx => hfreed x (hkeep x hx)
  · intro x hxdrv hxdev
    rw [shape_congr (hfreed x hxdev), hudrv x hxdrv]
  · rw [← hu]
    exact ⟨hsame.nextObject, hsame.nextName, hsame.work, hsame.uniqueId⟩
  · rw [← hnotes, ← hu]
    rfl

end Chain

end Wdutf.Ob
