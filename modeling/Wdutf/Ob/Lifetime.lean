import Mathlib.Data.List.Basic
import Mathlib.Data.List.Count
import Mathlib.Tactic.Common
import Wdutf.Lib.Transition
import Wdutf.Ob.Loaded
import Wdutf.Ob.DriverName

/-!
# Wdutf.Ob.Lifetime — loading and unloading a driver

Any sequence of loads and unloads of the driver of one name, mixed with calls
that create and delete its devices.

* `Between` — what holds between two calls: no driver is loaded under the name,
  or one is, with one reference for its name, one for each load and one for
  each device, and every driver of an earlier cycle was freed once;
* `CallEffect` — what a call does to the driver;
* `Lifetime` — every permitted call returns, has its effect, and leads to such a
  state again;
* `driver_lifetime_iff` — so it is for the names whose wide forms agree;
* `lifetime_signed` — a name for which they do not.
-/

namespace Wdutf.Ob

open Wdutf.Action Wdutf.Rtl Wdutf.Transition

/-! ## Calls -/

/-- The calls that concern the driver of one name. -/
inductive Call where
  | load (init : DriverInit)
  | unload (exit : DriverExit)
  | createDevice (driver : ObjId) (memory : Bool) (deviceName : Option UnicodeString)
      (autogenerated : Bool)
  | deleteDevice (device : ObjId)

/-- What a call returns. -/
inductive Outcome where
  | loaded (status : LoadStatus)
  | created (status : CreateStatus)
  | done
deriving DecidableEq, Repr

section Calls

variable (b : List UInt8) (name : UnicodeString) (image : Bool)

/-- The action of a call; `image` tells whether the driver is loaded from an image. -/
def runCall : Call → ObM Outcome
  | .load init => do
    pure (.loaded (← if image then ddkLoadDriver b init else ddkInitDriver b init))
  | .unload exit => do ddkUnloadDriver b exit; pure .done
  | .createDevice driver memory deviceName autogenerated => do
    pure (.created (← ioCreateDevice memory driver deviceName autogenerated))
  | .deleteDevice device => do ioDeleteDevice device; pure .done

/-- `DdkUnloadDriver` up to the removal of the name, with the driver when it gets
there. -/
def beforeRemoval (exit : DriverExit) : ObM (Option ObjId) := do
  match ← ddkLookupName name driverDir with
  | none => pure none
  | some o =>
    if ← lastLoad o then
      exitRoutines o exit
      pure (some o)
    else pure none

/-- The driver is the one that is found under the name. -/
def IsLoaded (s : State) (driver : ObjId) : Prop :=
  ddkFindName (driverPath name) s = .ok (some driver) s

/-- The condition on a call: `DriverEntry` succeeds, an unload that gets to the
removal of the name finds all devices deleted, devices are created for the
loaded driver, and only its devices are deleted. The names of devices are
accepted by the assertions. -/
def CallPermitted (s : State) : Call → Prop
  | .load init => init.succeeds = true ∧ ∀ a ∈ init.entry ++ init.addDevice, ActionOk a
  | .unload exit => (∀ a ∈ exit.pnpUnload ++ exit.driverUnload, ActionOk a) ∧
      ∀ o t, beforeRemoval (formatName b) exit s = .ok (some o) t →
        ∀ x rc next, t.objects x ≠ some ⟨rc, .device o next⟩
  | .createDevice driver _ deviceName _ => IsLoaded (wide b) s driver ∧ DeviceNameOk deviceName
  | .deleteDevice device => ∃ driver rc next, IsLoaded (wide b) s driver ∧
      s.objects device = some ⟨rc, .device driver next⟩

/-- No driver is loaded under the name: no entry of its path holds a live object. -/
def NotLoaded (s : State) : Prop :=
  ∀ e ∈ s.ddkNameList, folded e.name = folded (driverPath name) → ¬ Live s e.object

/-- Any state in which no driver is loaded under the name and nothing was noted. -/
def CallInit (s : State) : Prop := Wf s ∧ NotLoaded name s ∧ s.notes = []

/-- A permitted call. -/
def CallStep (s : State) (c : Call × Outcome) (s' : State) : Prop :=
  CallPermitted b s c.1 ∧ runCall b image c.1 s = .ok c.2 s'

/-! ## The invariant -/

/-- The driver was created once, with or without `DriverUnload`, is gone, was freed
once, and `DriverUnload` was called once if it was set. -/
structure Ended (o : ObjId) (driverUnload : Bool) (s : State) : Prop where
  gone : s.shape o = none
  freed : s.notes.count (.freed o) = 1
  unloaded : s.notes.count (.driverUnload o) = if driverUnload then 1 else 0

/-- The driver was created with or without `DriverUnload`, which has not been
called, and was not freed. -/
structure Running (o : ObjId) (driverUnload : Bool) (s : State) : Prop where
  created : ∀ b, s.notes.count (.driverCreated o b) = if b = driverUnload then 1 else 0
  freed : s.notes.count (.freed o) = 0
  unloaded : s.notes.count (.driverUnload o) = 0

/-- All drivers but the current one have come to their end. -/
def OthersEnded (current : Option ObjId) (s : State) : Prop :=
  ∀ o b, .driverCreated o b ∈ s.notes → some o ≠ current → Ended o b s

/-- The driver is loaded between two calls. -/
structure InCycle (drv : ObjId) (d : Driver) (s : State) : Prop where
  loaded : Loaded (driverPath name) drv (1 + d.loadcount) d s
  loadcount : 1 ≤ d.loadcount
  isImage : d.image = image
  running : Running drv d.driverUnload s
  others : OthersEnded (some drv) s

/-- No driver is loaded between two calls. -/
structure OutOfCycle (s : State) : Prop where
  wf : Wf s
  notLoaded : NotLoaded name s
  others : OthersEnded none s

/-- What holds between two calls. -/
def Between (s : State) : Prop := OutOfCycle name s ∨ ∃ drv d, InCycle name image drv d s

end Calls

/-! ## Notes -/

section Notes

variable {drv o : ObjId} {b : Bool} {current : Option ObjId} {s t u : State}

/-- The calls of a driver make no other notes than those about its devices. -/
theorem Acted.count (h : Acted drv s t) {n : Note} (hn : ¬ DeviceNote drv s n) :
    t.notes.count n = s.notes.count n := by
  rcases h.notes with ⟨added, hnotes, hadded⟩
  have hzero : added.count n = 0 := List.count_eq_zero.2 fun hmem => hn (hadded n hmem)
  rw [hnotes, List.count_append, hzero, Nat.zero_add]

theorem Acted.mem_created (h : Acted drv s t) :
    .driverCreated o b ∈ t.notes ↔ .driverCreated o b ∈ s.notes := by
  rw [← List.count_pos_iff, ← List.count_pos_iff, h.count (by exact id)]

theorem Ended.acted (hended : Ended o b s) (hlt : o < s.nextObject) (h : Acted drv s t) :
    Ended o b t where
  gone := h.gone o hlt hended.gone
  freed := by
    rw [h.count (n := .freed o) fun hnote => hnote.2 hlt hended.gone]
    exact hended.freed
  unloaded := by
    rw [h.count (by exact id)]
    exact hended.unloaded

theorem Running.acted (hrunning : Running drv b s) (h : Acted drv s t) : Running drv b t where
  created := by
    intro b'
    rw [h.count (by exact id)]
    exact hrunning.created b'
  freed := by
    rw [h.count (n := .freed drv) fun hnote => hnote.1 rfl]
    exact hrunning.freed
  unloaded := by
    rw [h.count (by exact id)]
    exact hrunning.unloaded

theorem OthersEnded.acted (hwf : Wf s) (hothers : OthersEnded current s) (h : Acted drv s t) :
    OthersEnded current t := by
  intro o b hmem hne
  rw [h.mem_created] at hmem
  exact (hothers o b hmem hne).acted (hwf.subject _ hmem) h

/-- A change of the driver itself makes no notes. -/
theorem acted_put (hdrv : s.shape drv ≠ none) (ob : Object) :
    Acted drv s (s.put drv (some ob)) := by
  refine ⟨Nat.le_refl _, ?_, [], rfl, by simp⟩
  intro x _ hnone
  rw [shape_put_of_ne s _ (by rintro rfl; exact hdrv hnone), hnone]

end Notes

/-! ## The driver under its name -/

section Routines

variable {name : UnicodeString} {path : UnicodeString} {drv : ObjId} {refs : ℤ} {d : Driver}
variable {s t : State}

theorem Wf.findName (h : Wf s) (path : UnicodeString) :
    (∃ e ∈ s.ddkNameList, folded path = folded e.name ∧ Live s e.object ∧
      ddkFindName path s = .ok (some e.object) s) ∨
    ((∀ e ∈ s.ddkNameList, folded path = folded e.name → ¬ Live s e.object) ∧
      ddkFindName path s = .ok none s) := by
  rw [ddkFindName, get_bind]
  exact findName_spec h.nulFree fun e he hnone => h.listed e he (shape_eq_none.2 hnone)

/-- A loaded driver is found under its path. -/
theorem Loaded.find (h : Loaded path drv refs d s) (hrefs : 1 ≤ refs) :
    ddkFindName path s = .ok (some drv) s := by
  rcases h.wf.findName path with ⟨e, he, hfold, hlive, hfind⟩ | ⟨hnone, -⟩
  · rwa [h.unique e he hfold.symm hlive] at hfind
  · rcases h.named with ⟨e, he, rfl, hfold⟩
    exact absurd (h.live hrefs) (hnone e he hfold.symm)

theorem NotLoaded.find (h : NotLoaded name s) (hwf : Wf s) :
    ddkFindName (driverPath name) s = .ok none s := by
  rcases hwf.findName (driverPath name) with ⟨e, he, hfold, hlive, -⟩ | ⟨-, hfind⟩
  · exact absurd hlive (h e he hfold.symm)
  · exact hfind

theorem NotLoaded.lookup (h : NotLoaded name s) (hwf : Wf s) (hname : NameOk name driverDir) :
    ddkLookupName name driverDir s = .ok none s := by
  have hfind : ddkFindName (canonicalPath name driverDir) s = .ok none s := h.find hwf
  rw [ddkLookupName, bind_ok (ddkCreatePath_ok hname.2 s), bind_ok hfind]
  rfl

/-- References on a loaded driver are taken and released. -/
theorem Loaded.adjust (h : Loaded path drv refs d s) (k : ℤ) {ob : Object}
    (hob : s.objects drv = some ob) :
    Loaded path drv (refs + k) d (s.put drv (some { ob with refcount := ob.refcount + k })) := by
  rcases h.driver with ⟨head, hdrv⟩
  rw [hdrv] at hob
  rcases Option.some.inj hob with rfl
  show Loaded path drv (refs + k) d (s.put drv (some
    ⟨refs + (createdDevices drv s.notes).length + k, .driver { d with deviceObject := head }⟩))
  rw [Int.add_right_comm]
  exact h.put hdrv

theorem Loaded.shape_ne (h : Loaded path drv refs d s) : s.shape drv ≠ none := by
  rcases h.driver with ⟨head, hdrv⟩
  rw [shape_of hdrv]
  simp

/-- `DdkLookupName` finds a loaded driver and references it. -/
theorem Loaded.lookup (h : Loaded (driverPath name) drv refs d s) (hrefs : 1 ≤ refs)
    (hname : NameOk name driverDir) :
    ∃ t, ddkLookupName name driverDir s = .ok (some drv) t ∧
      Loaded (driverPath name) drv (refs + 1) d t ∧ Acted drv s t ∧ t.notes = s.notes := by
  rcases h.driver with ⟨head, hdrv⟩
  have hfind : ddkFindName (canonicalPath name driverDir) s = .ok (some drv) s := h.find hrefs
  refine ⟨_, ?_, h.adjust 1 hdrv, acted_put h.shape_ne _, rfl⟩
  rw [ddkLookupName, bind_ok (ddkCreatePath_ok hname.2 s), bind_ok hfind]
  simp only [bind_ok (ddkReferenceObject_ok hdrv)]
  rfl

/-- The release of a reference on a loaded driver. -/
theorem Loaded.deref (h : Loaded path drv refs d s) (hrefs : 2 ≤ refs) :
    ∃ t, ddkDereferenceObject drv s = .ok () t ∧ Loaded path drv (refs - 1) d t ∧ Acted drv s t ∧
      t.notes = s.notes := by
  rcases h.driver with ⟨head, hdrv⟩
  refine ⟨_, ?_, h.adjust (-1) hdrv, acted_put h.shape_ne _, rfl⟩
  rw [ddkDereferenceObject, get_bind]
  exact derefLevels_ne hdrv (by show refs + _ ≠ 1; omega) _

/-- A read of the members of a loaded driver. -/
theorem Loaded.driverBody (h : Loaded path drv refs d s) :
    ∃ head, driverBody drv s = .ok { d with deviceObject := head } s ∧
      s.objects drv = some ⟨refs + (createdDevices drv s.notes).length,
        .driver { d with deviceObject := head }⟩ := by
  rcases h.driver with ⟨head, hdrv⟩
  refine ⟨head, ?_, hdrv⟩
  rw [Ob.driverBody, bind_ok (getObject_ok hdrv)]
  rfl

/-- A write to the members of a loaded driver other than its list. -/
theorem Loaded.setDriverBody (h : Loaded path drv refs d s) (d' : Driver) {head : Option ObjId}
    (hdrv : s.objects drv = some ⟨refs + (createdDevices drv s.notes).length,
      .driver { d with deviceObject := head }⟩) :
    ∃ t, setDriverBody drv { d' with deviceObject := head } s = .ok () t ∧
      Loaded path drv refs d' t ∧ Acted drv s t ∧ t.notes = s.notes := by
  refine ⟨_, ?_, h.put hdrv, acted_put h.shape_ne _, rfl⟩
  rw [Ob.setDriverBody, bind_ok (getObject_ok hdrv)]
  rfl

/-- A note about the driver itself. -/
theorem Loaded.note (h : Loaded path drv refs d s) {n : Note} (hn : n.subject = drv)
    (hcreated : ∀ notes, createdDevices drv (n :: notes) = createdDevices drv notes) :
    Loaded path drv refs d { s with notes := n :: s.notes } := by
  constructor
  case wf =>
    refine h.wf.sublist (List.Sublist.refl _) rfl h.wf.heap h.wf.listed h.wf.owner ?_
    intro n' hn'
    rcases List.mem_cons.1 hn' with rfl | hn'
    · rw [hn]
      exact h.drv_lt
    · exact h.wf.subject n' hn'
  case list =>
    show DevList _ _ (refs + (createdDevices drv (n :: s.notes)).length) _
      (createdDevices drv (n :: s.notes))
    rw [hcreated]
    exact devList_frame h.list rfl fun _ _ => rfl
  case nodup =>
    show (createdDevices drv (n :: s.notes)).Nodup
    rw [hcreated]
    exact h.nodup
  case device =>
    intro x hx
    exact h.device x (hcreated s.notes ▸ hx)
  case complete =>
    intro x rc hx
    show x ∈ createdDevices drv (n :: s.notes)
    rw [hcreated]
    exact h.complete x rc hx
  case named => exact h.named
  case unique => exact h.unique

/-! ## Loading -/

variable {image : Bool}

/-- The current driver and the ended ones stay what they are while the driver acts. -/
theorem InCycle.acted {d' : Driver} (h : InCycle name image drv d s) (hacted : Acted drv s t)
    (hloaded : Loaded (driverPath name) drv (1 + d'.loadcount) d' t) (hcount : 1 ≤ d'.loadcount)
    (himage : d'.image = d.image) (hunload : d'.driverUnload = d.driverUnload) :
    InCycle name image drv d' t where
  loaded := hloaded
  loadcount := hcount
  isImage := himage.trans h.isImage
  running := by
    rw [hunload]
    exact h.running.acted hacted
  others := h.others.acted h.loaded.wf hacted

/-- A load of a driver that is loaded already. -/
theorem load_again (hname : NameOk name driverDir) (h : InCycle name image drv d s)
    (init : DriverInit) :
    ∃ t, loadDriver image name name init s = .ok .success t ∧
      InCycle name image drv { d with loadcount := d.loadcount + 1 } t ∧ t.notes = s.notes := by
  have hcount := h.loadcount
  rcases h.loaded.lookup (by omega) hname with ⟨t, hlookup, ht, hacted, hnotes⟩
  rcases ht.driverBody with ⟨head, hbody, hdrv⟩
  obtain ⟨u, hset, hu, hacted', hnotes'⟩ :=
    ht.setDriverBody { d with loadcount := d.loadcount + 1 } hdrv
  rw [Int.add_assoc] at hu
  refine ⟨u, ?_, h.acted (hacted.trans hacted') hu (by show 1 ≤ d.loadcount + 1; omega) rfl rfl,
    hnotes'.trans hnotes⟩
  have href : ddkReferenceDriver drv image t = .ok .success u := by
    rw [ddkReferenceDriver, bind_ok hbody, if_neg (by simp [h.isImage]), bind_ok hset]
    rfl
  rw [loadDriver, bind_ok hlookup]
  exact href

theorem createdDevices_eq_nil {notes : List Note} (h : ∀ n ∈ notes, n.subject ≠ drv) :
    createdDevices drv notes = [] := by
  induction notes with
  | nil => rfl
  | cons n notes ih =>
    have hrest := ih fun m hm => h m (List.mem_cons_of_mem n hm)
    have hn : n.subject ≠ drv := h n (by simp)
    cases n with
    | deviceCreated driver device =>
      have hne : driver ≠ drv := hn
      rw [createdDevices, if_neg hne, hrest]
    | freed o => rw [createdDevices, hrest, List.erase_nil]
    | driverCreated driver b => exact hrest
    | driverUnload driver => exact hrest

theorem Wf.notes_fresh (h : Wf s) : ∀ n ∈ s.notes, n.subject ≠ s.nextObject :=
  fun n hn => ne_of_lt (h.subject n hn)

theorem Wf.count_fresh (h : Wf s) {n : Note} (hn : n.subject = s.nextObject) :
    s.notes.count n = 0 :=
  List.count_eq_zero.2 fun hmem => h.notes_fresh n hmem hn

/-- The new driver has its name, and no device. -/
theorem newDriver_loaded (hwf : Wf s) (hnot : NotLoaded name s) (d : Driver)
    (hnone : d.deviceObject = none) :
    Loaded (driverPath name) s.nextObject 2 d
      ((s.allocated (.driver d)).named s.nextObject ⟨1, .driver d⟩ (driverPath name)) ∧
    Acted s.nextObject s
      ((s.allocated (.driver d)).named s.nextObject ⟨1, .driver d⟩ (driverPath name)) := by
  have hcreated : createdDevices s.nextObject s.notes = [] := createdDevices_eq_nil hwf.notes_fresh
  have hself : ((s.allocated (.driver d)).named s.nextObject ⟨1, .driver d⟩
      (driverPath name)).objects
      s.nextObject = some ⟨2, .driver d⟩ := named_self ..
  have hother : ∀ x, x ≠ s.nextObject →
      ((s.allocated (.driver d)).named s.nextObject ⟨1, .driver d⟩ (driverPath name)).shape x =
        s.shape x := by
    intro x hx
    rw [shape_congr (named_of_ne _ _ _ hx), shape_allocated_of_ne s _ hx]
  have halloc : Wf (s.allocated (.driver d)) := by
    refine hwf.allocated _ ?_
    intro drv heq
    cases heq
  constructor
  · constructor
    case wf =>
      have hunnamed : Unnamed (s.allocated (.driver d)) s.nextObject := hwf.unnamed_fresh
      exact halloc.named (allocated_self s _) hunnamed fun c hc => canonicalPath_ne_zero hc
    case list =>
      show DevList _ _ (2 + (createdDevices s.nextObject s.notes).length) _
        (createdDevices s.nextObject s.notes)
      rw [hcreated]
      refine ⟨none, ?_, rfl⟩
      rw [hself, ← hnone]
      rfl
    case nodup =>
      show (createdDevices s.nextObject s.notes).Nodup
      rw [hcreated]
      exact List.nodup_nil
    case device =>
      intro x hx
      have hx' : x ∈ createdDevices s.nextObject s.notes := hx
      rw [hcreated] at hx'
      cases hx'
    case complete =>
      -- no device has an owner that did not exist
      intro x rc hx
      by_cases hxn : x = s.nextObject
      · rw [hxn, shape_of hself] at hx
        cases hx
      · rw [hother x hxn] at hx
        exact absurd (hwf.owner x rc _ hx) (lt_irrefl _)
    case named => exact ⟨_, List.mem_cons_self .., rfl, rfl⟩
    case unique =>
      intro e he hfold hlive
      rcases List.mem_cons.1 he with rfl | he
      · rfl
      · have hne := hwf.ne_fresh (hwf.listed e he)
        exact absurd ((live_congr (hother _ hne)).1 hlive) (hnot e he hfold)
  · refine ⟨Nat.le_succ _, ?_, [], rfl, by simp⟩
    intro x hx hnone'
    rw [hother x (ne_of_lt hx), hnone']

/-- `DdkDriverEntry` sets the members of the driver. -/
theorem driverEntry_spec (h : Loaded path drv refs d s) (hrefs : 1 ≤ refs) {init : DriverInit}
    (hsucceeds : init.succeeds = true) (hok : ∀ a ∈ init.entry, ActionOk a) :
    ∃ t, ddkDriverEntry drv init s = .ok () t ∧
      Loaded path drv refs { d with driverUnload := init.driverUnload } t ∧ Acted drv s t := by
  rcases runActions_spec hrefs hok h with ⟨t, hrun, ht, hacted⟩
  rcases ht.driverBody with ⟨head, hbody, hdrv⟩
  obtain ⟨u, hset, hu, hacted', -⟩ :=
    ht.setDriverBody { d with driverUnload := init.driverUnload } hdrv
  refine ⟨u, ?_, hu, hacted.trans hacted'⟩
  rw [ddkDriverEntry, bind_ok hrun, if_pos hsucceeds, bind_ok hbody]
  exact hset

/-- The load count of a new driver, and the note of its creation. -/
theorem firstLoad_spec (h : Loaded path drv refs d s) :
    ∃ t, firstLoad drv s = .ok () { t with notes := .driverCreated drv d.driverUnload :: t.notes } ∧
      Loaded path drv refs { d with loadcount := d.loadcount + 1 } t ∧ Acted drv s t := by
  rcases h.driverBody with ⟨head, hbody, hdrv⟩
  obtain ⟨t, hset, ht, hacted, -⟩ := h.setDriverBody { d with loadcount := d.loadcount + 1 } hdrv
  refine ⟨t, ?_, ht, hacted⟩
  rw [firstLoad, bind_ok hbody, bind_ok hset]
  rfl

/-- A load when no driver is loaded creates one. -/
theorem load_fresh (hname : NameOk name driverDir) (h : OutOfCycle name s) {init : DriverInit}
    (hsucceeds : init.succeeds = true) (hok : ∀ a ∈ init.entry ++ init.addDevice, ActionOk a) :
    ∃ t d, loadDriver image name name init s = .ok .success t ∧
      InCycle name image s.nextObject d t ∧ d.loadcount = 1 ∧
      d.driverUnload = init.driverUnload := by
  have hwf := h.wf
  rcases newDriver_loaded hwf h.notLoaded ⟨none, 0, image, false⟩ rfl with ⟨hnew, hacted⟩
  have hfind : ddkFindName (canonicalPath name driverDir)
      (s.allocated (.driver ⟨none, 0, image, false⟩)) =
        .ok none (s.allocated (.driver ⟨none, 0, image, false⟩)) := by
    rcases findName_allocated hwf (.driver ⟨none, 0, image, false⟩) (driverPath name) with
      ⟨e, he, hfold, hlive, -⟩ | ⟨-, hfind⟩
    · exact absurd hlive (h.notLoaded e he hfold.symm)
    · exact hfind
  have hinsert : ddkInsertName name s.nextObject driverDir
      (s.allocated (.driver ⟨none, 0, image, false⟩)) = .ok true
        ((s.allocated (.driver ⟨none, 0, image, false⟩)).named s.nextObject
          ⟨1, .driver ⟨none, 0, image, false⟩⟩ (driverPath name)) :=
    insertName_allocated hname hfind
  -- `DriverEntry`, the load count, and the start of the devices
  obtain ⟨t, hentry, ht, hacted₁⟩ := driverEntry_spec hnew (by omega) hsucceeds
    fun a ha => hok a (List.mem_append_left _ ha)
  rcases firstLoad_spec ht with ⟨u, hfirst, hu, hacted₂⟩
  have hloaded := hu.note (n := .driverCreated s.nextObject init.driverUnload) rfl fun _ => rfl
  obtain ⟨v, hadd, hv, hacted₃⟩ := runActions_spec (by omega)
    (fun a ha => hok a (List.mem_append_right _ ha)) hloaded
  have hbefore : Acted s.nextObject s u := (hacted.trans hacted₁).trans hacted₂
  have hrunning : Running s.nextObject init.driverUnload
      { u with notes := .driverCreated s.nextObject init.driverUnload :: u.notes } := by
    constructor
    · intro b
      show List.count _ (_ :: u.notes) = _
      rw [List.count_cons, hbefore.count (by exact id), hwf.count_fresh rfl]
      by_cases hb : b = init.driverUnload
      · simp [hb]
      · simp [hb, Ne.symm hb]
    · show List.count _ (_ :: u.notes) = _
      rw [List.count_cons_of_ne (by simp),
        hbefore.count (n := .freed s.nextObject) fun hn => hn.1 rfl]
      exact hwf.count_fresh rfl
    · show List.count _ (_ :: u.notes) = _
      rw [List.count_cons_of_ne (by simp), hbefore.count (by exact id)]
      exact hwf.count_fresh rfl
  have hothers : OthersEnded (some s.nextObject)
      { u with notes := .driverCreated s.nextObject init.driverUnload :: u.notes } := by
    intro o b hmem hne
    rcases List.mem_cons.1 hmem with heq | hmem
    · injection heq with ho
      exact absurd (congrArg some ho) hne
    · rw [hbefore.mem_created] at hmem
      have hended := (h.others o b hmem (by simp)).acted (hwf.subject _ hmem) hbefore
      exact ⟨hended.gone, by rw [← hended.freed]; exact List.count_cons_of_ne (by simp),
        by rw [← hended.unloaded]; exact List.count_cons_of_ne (by simp)⟩
  refine ⟨v, ⟨none, 1, image, init.driverUnload⟩, ?_,
    ⟨hv, Int.le_refl 1, rfl, hrunning.acted hacted₃,
    hothers.acted hloaded.wf hacted₃⟩, rfl, rfl⟩
  have hcreate : ddkCreateDriver name init image s = .ok .success v := by
    rw [ddkCreateDriver, bind_ok (ddkAllocObject_run _ s), bind_ok hinsert, if_pos rfl]
    rw [bind_ok hentry, bind_ok hfirst, bind_ok hadd]
    rfl
  rw [loadDriver, bind_ok (h.notLoaded.lookup hwf hname)]
  exact hcreate

/-! ## Unloading -/

/-- `pDriver->loadcount && !--(pDriver->loadcount)` on a loaded driver. -/
theorem lastLoad_spec (h : Loaded path drv refs d s) (hcount : 1 ≤ d.loadcount) :
    ∃ t, lastLoad drv s = .ok (decide (d.loadcount - 1 = 0)) t ∧
      Loaded path drv refs { d with loadcount := d.loadcount - 1 } t ∧ Acted drv s t ∧
      t.notes = s.notes := by
  rcases h.driverBody with ⟨head, hbody, hdrv⟩
  obtain ⟨t, hset, ht, hacted, hnotes⟩ :=
    h.setDriverBody { d with loadcount := d.loadcount - 1 } hdrv
  refine ⟨t, ?_, ht, hacted, hnotes⟩
  rw [lastLoad, bind_ok hbody, if_neg (by show ¬ d.loadcount = 0; omega), bind_ok hset]
  rfl

/-- An unload that is not the last one. -/
theorem unload_again (hname : NameOk name driverDir) (h : InCycle name image drv d s)
    (hcount : d.loadcount ≠ 1) (exit : DriverExit) :
    ∃ t, unloadDriver name exit s = .ok () t ∧
      InCycle name image drv { d with loadcount := d.loadcount - 1 } t ∧ t.notes = s.notes := by
  have hpos := h.loadcount
  rcases h.loaded.lookup (by omega) hname with ⟨t, hlookup, ht, hacted, hnotes⟩
  rcases lastLoad_spec ht hpos with ⟨u, hlast, hu, hacted', hnotes'⟩
  rcases hu.deref (by omega) with ⟨v, hderef, hv, hacted₁, hnotes₁⟩
  rcases hv.deref (by omega) with ⟨w, hderef', hw, hacted₂, hnotes₂⟩
  have hrefs : 1 + d.loadcount + 1 - 1 - 1 = 1 + (d.loadcount - 1) := by omega
  rw [hrefs] at hw
  refine ⟨w, ?_, h.acted ((hacted.trans hacted').trans (hacted₁.trans hacted₂)) hw
    (by show 1 ≤ d.loadcount - 1; omega) rfl rfl,
    (hnotes₂.trans hnotes₁).trans (hnotes'.trans hnotes)⟩
  rw [decide_eq_false (by omega)] at hlast
  rw [unloadDriver, bind_ok hlookup]
  simp only [bind_ok hlast, if_neg Bool.false_ne_true]
  show (ddkDereferenceObject drv >>= fun _ => ddkDereferenceObject drv) u = _
  rw [bind_ok hderef]
  exact hderef'

/-- What the driver's own routines do at the last unload: `DriverUnload` is called
once if it is set. -/
theorem exitRoutines_spec (h : Loaded path drv refs d s) (hrefs : 1 ≤ refs) {exit : DriverExit}
    (hok : ∀ a ∈ exit.pnpUnload ++ exit.driverUnload, ActionOk a) :
    ∃ t, exitRoutines drv exit s = .ok () t ∧ Loaded path drv refs d t ∧
      s.nextObject ≤ t.nextObject ∧ (∀ x, x < s.nextObject → s.shape x = none → t.shape x = none) ∧
      ∀ n, ¬ DeviceNote drv s n → t.notes.count n =
        s.notes.count n + if n = .driverUnload drv ∧ d.driverUnload = true then 1 else 0 := by
  obtain ⟨t, hpnp, ht, hacted⟩ := runActions_spec hrefs
    (fun a ha => hok a (List.mem_append_left _ ha)) h
  rcases ht.driverBody with ⟨head, hbody, -⟩
  cases hflag : d.driverUnload with
  | false =>
    refine ⟨t, ?_, ht, hacted.nextObject, hacted.gone, fun n hn => ?_⟩
    · rw [exitRoutines, bind_ok hpnp, bind_ok hbody]
      simp only [hflag, if_neg Bool.false_ne_true, pure_run]
    · rw [if_neg (by simp), Nat.add_zero, hacted.count hn]
  | true =>
    -- the note stands before the notes of what `DriverUnload` does
    have hnoted := ht.note (n := .driverUnload drv) rfl fun _ => rfl
    obtain ⟨u, hunload, hu, hacted'⟩ := runActions_spec hrefs
      (fun a ha => hok a (List.mem_append_right _ ha)) hnoted
    refine ⟨u, ?_, hu, hacted.nextObject.trans hacted'.nextObject, ?_, ?_⟩
    · rw [exitRoutines, bind_ok hpnp, bind_ok hbody]
      simp only [hflag, if_true]
      have hnote : Ob.note (.driverUnload drv) t =
          .ok () { t with notes := .driverUnload drv :: t.notes } := rfl
      rw [bind_ok hnote]
      exact hunload
    · intro x hx hnone
      exact hacted'.gone x (lt_of_lt_of_le hx hacted.nextObject) (hacted.gone x hx hnone)
    · intro n hn
      have hn' : ¬ DeviceNote drv { t with notes := .driverUnload drv :: t.notes } n := by
        intro hnote
        apply hn
        cases n with
        | deviceCreated driver device => exact hnote
        | freed x =>
          refine ⟨hnote.1, fun hx hnone => ?_⟩
          exact hnote.2 (lt_of_lt_of_le hx hacted.nextObject) (hacted.gone x hx hnone)
        | driverCreated driver b => exact hnote.elim
        | driverUnload driver => exact hnote.elim
      rw [hacted'.count hn']
      show List.count n (_ :: t.notes) = _
      rw [List.count_cons, hacted.count hn]
      by_cases hnd : n = .driverUnload drv
      · simp [hnd]
      · simp [hnd, Ne.symm hnd]

/-- The name of a driver without devices is removed, and the last two references
go: the driver is freed. -/
theorem removeDriver_spec (h : Loaded path drv 3 d s) (hempty : createdDevices drv s.notes = []) :
    ∃ t, (do ddkRemoveObjectName drv
             ddkWaitLastReference drv 2
             ddkDereferenceObject drv
             ddkDereferenceObject drv : ObM Unit) s = .ok () t ∧
      t.shape drv = none ∧ (∀ x, x ≠ drv → t.shape x = s.shape x) ∧ SameRest s t ∧
      t.ddkNameList = s.ddkNameList.filter (fun e => e.object != drv) ∧
      t.notes = .freed drv :: s.notes := by
  rcases h.driver with ⟨head, hdrv⟩
  rw [hempty] at hdrv
  obtain ⟨t, hremove, hnames, hsame, hother, hself, hnotes⟩ :=
    removeObjectName_drops ddkDereferenceObject_releases h.wf.addrs h.wf.objects hdrv
      (fun hone => absurd hone (by simp))
  have hnamed : ∃ e ∈ s.ddkNameList, e.object = drv := by
    rcases h.named with ⟨e, he, heq, -⟩
    exact ⟨e, he, heq⟩
  rw [if_pos hnamed] at hself
  have hself' : t.objects drv = some ⟨2, .driver { d with deviceObject := head }⟩ := hself
  obtain ⟨hgone, haddrs⟩ := names_dropped h.wf.addrs hnames
  have hwait : ddkWaitLastReference drv 2 t = .ok () t := by
    rw [ddkWaitLastReference, bind_ok (getObject_ok hself'), if_neg (by simp)]
    rfl
  have hderef : ddkDereferenceObject drv t =
      .ok () (t.put drv (some ⟨1, .driver { d with deviceObject := head }⟩)) :=
    ddkDereferenceObject_releases t drv _ hself' (fun _ => trivial) haddrs hgone
  have hderef' := ddkDereferenceObject_releases _ drv _
    (put_self t drv (some ⟨1, .driver { d with deviceObject := head }⟩)) (fun _ => trivial)
    haddrs hgone
  rw [State.released, if_pos rfl, put_freed] at hderef'
  refine ⟨t.freed drv, ?_, shape_eq_none.2 (Function.update_self ..), ?_,
    ⟨hsame.nextObject, hsame.nextName, hsame.work, hsame.uniqueId⟩, hnames, ?_⟩
  · rw [ddkRemoveObjectName, bind_ok hremove, bind_ok hwait, bind_ok hderef]
    exact hderef'
  · intro x hx
    have hx' : (t.freed drv).objects x = t.objects x := Function.update_of_ne hx ..
    rw [shape_congr hx', shape_congr (hother x hx)]
  · rw [← hnotes (by simp)]
    rfl

/-- Without the driver and its name, the state is well formed, and nothing is
loaded under the path. -/
theorem outOfCycle_removed (h : Loaded (driverPath name) drv refs d s) (hgone : t.shape drv = none)
    (hother : ∀ x, x ≠ drv → t.shape x = s.shape x) (hsame : SameRest s t)
    (hnames : t.ddkNameList = s.ddkNameList.filter (fun e => e.object != drv))
    (hnotes : t.notes = .freed drv :: s.notes) : Wf t ∧ NotLoaded name t := by
  have hmem : ∀ e, e ∈ t.ddkNameList ↔ e ∈ s.ddkNameList ∧ e.object ≠ drv := by
    intro e
    rw [hnames, List.mem_filter]
    simp
  have hne : ∀ x, t.shape x ≠ none → x ≠ drv := by
    rintro x hx rfl
    exact hx hgone
  constructor
  · refine h.wf.sublist (hnames ▸ List.filter_sublist) hsame.nextName ?_ ?_ ?_ ?_
    · intro x hx
      rw [hsame.nextObject]
      rw [hother x (hne x hx)] at hx
      exact h.wf.heap x hx
    · intro e he
      rcases (hmem e).1 he with ⟨he, hed⟩
      rw [hother _ hed]
      exact h.wf.listed e he
    · intro x rc owner hx
      rw [hsame.nextObject]
      rw [hother x (hne x (by simp [hx]))] at hx
      exact h.wf.owner x rc owner hx
    · intro n hn
      rw [hnotes] at hn
      rw [hsame.nextObject]
      rcases List.mem_cons.1 hn with rfl | hn
      · exact h.drv_lt
      · exact h.wf.subject n hn
  · intro e he hfold hlive
    rcases (hmem e).1 he with ⟨he, hed⟩
    exact hed (h.unique e he hfold ((live_congr (hother _ hed)).1 hlive))

/-- The last unload ends the cycle. -/
theorem unload_last (hname : NameOk name driverDir) (h : InCycle name image drv d s)
    (hcount : d.loadcount = 1) {exit : DriverExit}
    (hok : ∀ a ∈ exit.pnpUnload ++ exit.driverUnload, ActionOk a)
    (hdeleted : ∀ o t, beforeRemoval name exit s = .ok (some o) t →
      ∀ x rc next, t.objects x ≠ some ⟨rc, .device o next⟩) :
    ∃ t, unloadDriver name exit s = .ok () t ∧ OutOfCycle name t ∧
      Ended drv d.driverUnload t := by
  rcases h.loaded.lookup (by omega) hname with ⟨s₀, hlookup, h₀, hacted₀, hnotes₀⟩
  rcases lastLoad_spec h₀ h.loadcount with ⟨s₁, hlast, h₁, hacted₁, hnotes₁⟩
  have hacted := hacted₀.trans hacted₁
  have hnotes : s₁.notes = s.notes := hnotes₁.trans hnotes₀
  rw [decide_eq_true (by omega)] at hlast
  rw [show 1 + d.loadcount + 1 = 3 by omega] at h₁
  rcases exitRoutines_spec h₁ (by omega) hok with ⟨s₂, hexit, h₂, hnext, hgone, hcounts⟩
  -- the routines have left no device
  have hbefore : beforeRemoval name exit s = .ok (some drv) s₂ := by
    rw [beforeRemoval, bind_ok hlookup]
    simp only [bind_ok hlast, if_true, bind_ok hexit]
    rfl
  have hempty : createdDevices drv s₂.notes = [] := by
    refine List.eq_nil_iff_forall_not_mem.2 fun x hx => ?_
    rcases devList_mem h₂.list hx with ⟨rc, next, hob⟩
    exact hdeleted drv s₂ hbefore x rc next hob
  rcases removeDriver_spec h₂ hempty with ⟨t, hremove, htgone, htother, htsame, htnames, htnotes⟩
  rcases outOfCycle_removed h₂ htgone htother htsame htnames htnotes with ⟨hwf, hnot⟩
  have hended : Ended drv d.driverUnload t := by
    refine ⟨htgone, ?_, ?_⟩
    · rw [htnotes, List.count_cons_self, hcounts (.freed drv) fun hn => hn.1 rfl, if_neg (by simp),
        hnotes, h.running.freed]
    · rw [htnotes, List.count_cons_of_ne (by simp), hcounts _ id, hnotes, h.running.unloaded]
      simp
  have hcreated : ∀ o b, .driverCreated o b ∈ t.notes → .driverCreated o b ∈ s.notes := by
    intro o b hmem
    rw [← List.count_pos_iff, htnotes, List.count_cons_of_ne (by simp), hcounts _ id,
      if_neg (by simp), hnotes] at hmem
    exact List.count_pos_iff.1 hmem
  refine ⟨t, ?_, ⟨hwf, hnot, ?_⟩, hended⟩
  · rw [unloadDriver, bind_ok hlookup]
    simp only [bind_ok hlast, if_true, bind_ok hexit]
    exact hremove
  · intro o b hmem _
    have hmem' := hcreated o b hmem
    by_cases ho : o = drv
    · -- the driver of this cycle was created once
      subst ho
      have hpos := List.count_pos_iff.2 hmem'
      rw [h.running.created b] at hpos
      by_cases hb : b = d.driverUnload
      · rwa [hb]
      · rw [if_neg hb] at hpos
        cases hpos
    · have hlt := h.loaded.wf.subject _ hmem'
      have hend := (h.others o b hmem' (fun heq => ho (Option.some.inj heq))).acted hlt hacted
      have hlt' : o < s₁.nextObject := lt_of_lt_of_le hlt hacted.nextObject
      have hno : ¬ DeviceNote drv s₁ (.freed o) := fun hn => hn.2 hlt' hend.gone
      refine ⟨?_, ?_, ?_⟩
      · rw [htother o ho]
        exact hgone o hlt' hend.gone
      · rw [htnotes, List.count_cons_of_ne (by simpa using Ne.symm ho), hcounts _ hno,
          if_neg (by simp), hend.freed]
      · rw [htnotes, List.count_cons_of_ne (by simp), hcounts _ id,
          if_neg (by simp [ho]), hend.unloaded, Nat.add_zero]

/-- An unload without a driver does nothing. -/
theorem unload_none (hname : NameOk name driverDir) (h : OutOfCycle name s) (exit : DriverExit) :
    unloadDriver name exit s = .ok () s := by
  rw [unloadDriver, bind_ok (h.notLoaded.lookup h.wf hname)]
  rfl

end Routines

/-! ## Runs -/

section Runs

variable (name : UnicodeString) (image : Bool)

/-- What a call does to the driver of the name. -/
def CallEffect (s : State) (c : Call) (r : Outcome) (s' : State) : Prop :=
  match c with
  | .load init => r = .loaded .success ∧
      (OutOfCycle name s → ∃ d, InCycle name image s.nextObject d s' ∧ d.loadcount = 1 ∧
        d.driverUnload = init.driverUnload) ∧
      ∀ drv d, InCycle name image drv d s →
        InCycle name image drv { d with loadcount := d.loadcount + 1 } s'
  | .unload _ =>
      (OutOfCycle name s → s' = s) ∧
      (∀ drv d, InCycle name image drv d s → d.loadcount ≠ 1 →
        InCycle name image drv { d with loadcount := d.loadcount - 1 } s') ∧
      ∀ drv d, InCycle name image drv d s → d.loadcount = 1 →
        OutOfCycle name s' ∧ Ended drv d.driverUnload s'
  | .createDevice _ _ _ _ => ∀ drv d, InCycle name image drv d s → InCycle name image drv d s'
  | .deleteDevice _ => ∀ drv d, InCycle name image drv d s → InCycle name image drv d s'

variable {name image} {b : List UInt8} {s : State}

/-- At most one driver is loaded, and then the name is not free. -/
theorem InCycle.find {drv : ObjId} {d : Driver} (h : InCycle name image drv d s) :
    ddkFindName (driverPath name) s = .ok (some drv) s := by
  have := h.loadcount
  exact h.loaded.find (by omega)

theorem InCycle.not_outOfCycle {drv : ObjId} {d : Driver} (h : InCycle name image drv d s) :
    ¬ OutOfCycle name s := by
  intro hout
  rcases result_eq h.find (hout.notLoaded.find hout.wf) with ⟨heq, -⟩
  cases heq

theorem OutOfCycle.not_isLoaded (h : OutOfCycle name s) (driver : ObjId) :
    ¬ IsLoaded name s driver := by
  intro hloaded
  rcases result_eq hloaded (h.notLoaded.find h.wf) with ⟨heq, -⟩
  cases heq

theorem InCycle.isLoaded {drv driver : ObjId} {d : Driver} (h : InCycle name image drv d s)
    (hloaded : IsLoaded name s driver) : driver = drv := by
  rcases result_eq hloaded h.find with ⟨heq, -⟩
  exact Option.some.inj heq

/-- The forms of the name agree. -/
structure SameName (b : List UInt8) (image : Bool) : Prop where
  short : b.length ≤ 255
  ascii : image = true → ∀ c ∈ b, c < 0x80

theorem nameOk_wide (hb : BaseName b) (hlen : b.length ≤ 32758) : NameOk (wide b) driverDir := by
  have hpath : canonicalPath (wide b) driverDir = _ := driverPath_wide hb
  have hdir : driverDir.length = 7 := rfl
  constructor
  · rw [length_wide]
    exact List.length_pos_of_ne_nil hb.ne_nil
  · rw [PathFits, hpath, List.length_append, List.length_cons, length_wide]
    omega

theorem SameName.nameOk (hsame : SameName b image) (hb : BaseName b) :
    NameOk (wide b) driverDir :=
  nameOk_wide hb (hsame.short.trans (by decide))

theorem load_run (hsame : SameName b image) (init : DriverInit) {status : LoadStatus} {t : State}
    (h : loadDriver image (wide b) (wide b) init s = .ok status t) :
    runCall b image (.load init) s = .ok (.loaded status) t := by
  have hshort := hsame.short
  cases image with
  | false =>
    rw [← formatName_eq hshort] at h
    refine bind_ok (?_ : ddkInitDriver b init s = _)
    rw [ddkInitDriver]
    rw [formatName_eq hshort] at h ⊢
    exact h
  | true =>
    have hmax : b.length ≤ maxPath := hshort.trans (by decide)
    refine bind_ok (?_ : ddkLoadDriver b init s = _)
    rw [ddkLoadDriver, if_pos hmax, map_charToWchar.2 (hsame.ascii rfl)]
    exact h

theorem unload_run (hsame : SameName b image) (exit : DriverExit) {t : State}
    (h : unloadDriver (wide b) exit s = .ok () t) :
    runCall b image (.unload exit) s = .ok .done t := by
  have hrun : ddkUnloadDriver b exit s = .ok () t := by
    rw [ddkUnloadDriver, formatName_eq hsame.short]
    exact h
  exact bind_ok hrun

/-- A device is created for the loaded driver, or not. -/
theorem InCycle.create {drv : ObjId} {d : Driver} (h : InCycle name image drv d s) (memory : Bool)
    {deviceName : Option UnicodeString} (hok : DeviceNameOk deviceName) (autogenerated : Bool) :
    ∃ r t, runCall b image (.createDevice drv memory deviceName autogenerated) s = .ok r t ∧
      InCycle name image drv d t := by
  have hcount := h.loadcount
  rcases createDevice_spec h.loaded (by omega) memory hok autogenerated with
    ⟨r, t, hrun, ht, hacted⟩
  exact ⟨.created r, t, bind_ok hrun, h.acted hacted ht hcount rfl rfl⟩

/-- A device of the loaded driver is deleted. -/
theorem InCycle.delete {drv device : ObjId} {d : Driver} (h : InCycle name image drv d s) {rc : ℤ}
    {next : Option ObjId} (hdevice : s.objects device = some ⟨rc, .device drv next⟩) :
    ∃ r t, runCall b image (.deleteDevice device) s = .ok r t ∧ InCycle name image drv d t := by
  have hcount := h.loadcount
  have hmem := h.loaded.complete device rc (shape_of hdevice)
  rcases deleteDevice_spec h.loaded (by omega) hmem with ⟨t, hrun, ht, hacted⟩
  exact ⟨.done, t, bind_ok hrun, h.acted hacted ht hcount rfl rfl⟩

/-- A permitted call without a driver: only a load changes anything. -/
theorem call_outOfCycle (hb : BaseName b) (hsame : SameName b image)
    (h : OutOfCycle (wide b) s) {c : Call} (hperm : CallPermitted b s c) :
    ∃ r t, runCall b image c s = .ok r t ∧ Between (wide b) image t ∧
      CallEffect (wide b) image s c r t := by
  have hno : ∀ drv d, ¬ InCycle (wide b) image drv d s := fun drv d hin => hin.not_outOfCycle h
  cases c with
  | load init =>
    rcases load_fresh (hsame.nameOk hb) h hperm.1 hperm.2 with ⟨t, d, hrun, hin, hcount, hunload⟩
    exact ⟨_, t, load_run hsame init hrun, Or.inr ⟨_, d, hin⟩, rfl,
      fun _ => ⟨d, hin, hcount, hunload⟩,
      fun drv d' hin' => absurd hin' (hno drv d')⟩
  | unload exit =>
    exact ⟨_, s, unload_run hsame exit (unload_none (hsame.nameOk hb) h exit), Or.inl h,
      fun _ => rfl,
      fun drv d hin => absurd hin (hno drv d), fun drv d hin => absurd hin (hno drv d)⟩
  | createDevice driver memory deviceName autogenerated =>
    exact absurd hperm.1 (h.not_isLoaded driver)
  | deleteDevice device =>
    rcases hperm with ⟨driver, -, -, hloaded, -⟩
    exact absurd hloaded (h.not_isLoaded driver)

/-- A permitted call with a loaded driver. -/
theorem call_inCycle (hb : BaseName b) (hsame : SameName b image) {drv : ObjId} {d : Driver}
    (h : InCycle (wide b) image drv d s) {c : Call} (hperm : CallPermitted b s c) :
    ∃ r t, runCall b image c s = .ok r t ∧ Between (wide b) image t ∧
      CallEffect (wide b) image s c r t := by
  cases c with
  | load init =>
    rcases load_again (hsame.nameOk hb) h init with ⟨t, hrun, hin, -⟩
    refine ⟨_, t, load_run hsame init hrun, Or.inr ⟨_, _, hin⟩, rfl,
      fun hout => absurd hout h.not_outOfCycle, ?_⟩
    intro drv' d' h'
    rcases load_again (hsame.nameOk hb) h' init with ⟨t', hrun', hin', -⟩
    rcases result_eq hrun hrun' with ⟨-, rfl⟩
    exact hin'
  | unload exit =>
    have hdeleted := hperm.2
    rw [formatName_eq hsame.short] at hdeleted
    by_cases hcount : d.loadcount = 1
    · -- the call that drops the load count to 0
      rcases unload_last (hsame.nameOk hb) h hcount hperm.1 hdeleted with ⟨t, hrun, hout, -⟩
      refine ⟨_, t, unload_run hsame exit hrun, Or.inl hout,
        fun hout' => absurd hout' h.not_outOfCycle, ?_, ?_⟩
      · intro drv' d' h' hcount'
        rcases unload_again (hsame.nameOk hb) h' hcount' exit with ⟨t', hrun', hin', -⟩
        rcases result_eq hrun hrun' with ⟨-, rfl⟩
        exact absurd hout hin'.not_outOfCycle
      · intro drv' d' h' hcount'
        rcases unload_last (hsame.nameOk hb) h' hcount' hperm.1 hdeleted with
          ⟨t', hrun', hout', hended'⟩
        rcases result_eq hrun hrun' with ⟨-, rfl⟩
        exact ⟨hout', hended'⟩
    · rcases unload_again (hsame.nameOk hb) h hcount exit with ⟨t, hrun, hin, -⟩
      refine ⟨_, t, unload_run hsame exit hrun, Or.inr ⟨_, _, hin⟩,
        fun hout' => absurd hout' h.not_outOfCycle, ?_, ?_⟩
      · intro drv' d' h' hcount'
        rcases unload_again (hsame.nameOk hb) h' hcount' exit with ⟨t', hrun', hin', -⟩
        rcases result_eq hrun hrun' with ⟨-, rfl⟩
        exact hin'
      · intro drv' d' h' hcount'
        rcases unload_last (hsame.nameOk hb) h' hcount' hperm.1 hdeleted with ⟨t', hrun', hout', -⟩
        rcases result_eq hrun hrun' with ⟨-, rfl⟩
        exact absurd hout' hin.not_outOfCycle
  | createDevice driver memory deviceName autogenerated =>
    rcases h.isLoaded hperm.1 with rfl
    rcases h.create memory hperm.2 autogenerated with ⟨r, t, hrun, hin⟩
    refine ⟨r, t, hrun, Or.inr ⟨_, _, hin⟩, ?_⟩
    intro drv' d' h'
    rcases h'.isLoaded hperm.1 with rfl
    rcases h'.create memory hperm.2 autogenerated with ⟨r', t', hrun', hin'⟩
    rcases result_eq hrun hrun' with ⟨-, rfl⟩
    exact hin'
  | deleteDevice device =>
    rcases hperm with ⟨driver, rc, next, hloaded, hdevice⟩
    rcases h.isLoaded hloaded with rfl
    rcases h.delete hdevice with ⟨r, t, hrun, hin⟩
    refine ⟨r, t, hrun, Or.inr ⟨_, _, hin⟩, ?_⟩
    intro drv' d' h'
    rcases h'.isLoaded hloaded with rfl
    rcases h'.delete hdevice with ⟨r', t', hrun', hin'⟩
    rcases result_eq hrun hrun' with ⟨-, rfl⟩
    exact hin'

theorem call_spec (hb : BaseName b) (hsame : SameName b image) (h : Between (wide b) image s)
    {c : Call} (hperm : CallPermitted b s c) :
    ∃ r t, runCall b image c s = .ok r t ∧ Between (wide b) image t ∧
      CallEffect (wide b) image s c r t := by
  rcases h with hout | ⟨drv, d, hin⟩
  · exact call_outOfCycle hb hsame hout hperm
  · exact call_inCycle hb hsame hin hperm

theorem outOfCycle_init (h : CallInit name s) : OutOfCycle name s := by
  rcases h with ⟨hwf, hnot, hnotes⟩
  refine ⟨hwf, hnot, ?_⟩
  intro o b hmem
  rw [hnotes] at hmem
  cases hmem

end Runs

/-- After every run of permitted calls the state is as it has to be between calls, and every
permitted call returns and has its effect. -/
def Lifetime (b : List UInt8) (image : Bool) : Prop :=
  ∀ cs s, Trace (CallInit (wide b)) (CallStep b image) cs s →
    Between (wide b) image s ∧ ∀ c, CallPermitted b s c →
      ∃ r s', runCall b image c s = .ok r s' ∧ Between (wide b) image s' ∧
        CallEffect (wide b) image s c r s'

theorem lifetime_of_sameName {b : List UInt8} {image : Bool} (hb : BaseName b)
    (hsame : SameName b image) : Lifetime b image := by
  intro cs s h
  have hbetween : Between (wide b) image s := by
    have hinit : ∀ s, CallInit (wide b) s → Between (wide b) image s :=
      fun _ hinit => Or.inl (outOfCycle_init hinit)
    refine h.invariant hinit ?_
    rintro s ⟨c, r⟩ s' hbetween ⟨hperm, hrun⟩
    rcases call_spec hb hsame hbetween hperm with ⟨r', t, hrun', ht, -⟩
    rcases result_eq hrun hrun' with ⟨-, rfl⟩
    exact ht
  exact ⟨hbetween, fun c hperm => call_spec hb hsame hbetween hperm⟩

theorem callInit_emptyState (name : UnicodeString) : CallInit name emptyState := by
  refine ⟨⟨?_, ?_, ?_, ?_, ?_, ?_, ?_, ?_⟩, ?_, rfl⟩
  all_goals simp [emptyState, State.shape, NotLoaded]

theorem callStep_snoc {b : List UInt8} {image : Bool} {cs : List (Call × Outcome)}
    {s s' : State}
    (h : Trace (CallInit (wide b)) (CallStep b image) cs s) (c : Call) (r : Outcome)
    (hperm : CallPermitted b s c) (hrun : runCall b image c s = .ok r s') :
    Trace (CallInit (wide b)) (CallStep b image) (cs ++ [(c, r)]) s' := h.snoc ⟨hperm, hrun⟩

/-! ## Names whose forms differ -/

section Differ

variable (b : List UInt8) (image : Bool) {w : List Wchar} {path : UnicodeString}

/-- A driver that does nothing. -/
def quiet : DriverInit := ⟨[], true, false, []⟩

/-- The driver is loaded, and nothing else is there. -/
def oneDriver (image : Bool) (path : UnicodeString) : State where
  objects := Function.update (fun _ => none) 0 (some ⟨2, .driver ⟨none, 1, image, false⟩⟩)
  nextObject := 1
  ddkNameList := [⟨0, 0, path⟩]
  nextName := 1
  work := []
  uniqueId := 0
  notes := [.driverCreated 0 false]

/-- The first load. -/
theorem load_first (hw : PathFits w driverDir) (hname : NameOk (wide b) driverDir) :
    loadDriver image w (wide b) quiet emptyState =
      .ok .success (oneDriver image (driverPath (wide b))) := by
  have hlookup : ddkLookupName w driverDir emptyState = .ok none emptyState := by
    rw [ddkLookupName, bind_ok (ddkCreatePath_ok hw _)]
    rfl
  have hinsert : ddkInsertName (wide b) emptyState.nextObject driverDir
      (emptyState.allocated (.driver ⟨none, 0, image, false⟩)) = .ok true _ :=
    insertName_allocated hname rfl
  have hcreate : ddkCreateDriver (wide b) quiet image emptyState =
      .ok .success { oneDriver image (driverPath (wide b)) with
        objects := Function.update (Function.update (Function.update (Function.update
          (fun _ => none) 0 (some ⟨1, .driver ⟨none, 0, image, false⟩⟩))
          0 (some ⟨2, .driver ⟨none, 0, image, false⟩⟩))
          0 (some ⟨2, .driver ⟨none, 0, image, false⟩⟩))
          0 (some ⟨2, .driver ⟨none, 1, image, false⟩⟩) } := by
    rw [ddkCreateDriver, bind_ok (ddkAllocObject_run _ _), bind_ok hinsert]
    rfl
  rw [loadDriver, bind_ok hlookup]
  refine hcreate.trans ?_
  rw [Function.update_idem, Function.update_idem, Function.update_idem]
  rfl

/-- A name with another path is not found. -/
theorem lookup_other (hw : PathFits w driverDir) (hpath : ∀ c ∈ path, c ≠ 0)
    (hne : folded (driverPath w) ≠ folded path) :
    ddkLookupName w driverDir (oneDriver image path) = .ok none (oneDriver image path) := by
  have hfind : ddkFindName (canonicalPath w driverDir) (oneDriver image path) =
      .ok none (oneDriver image path) := by
    rcases @findName_spec (oneDriver image path) (canonicalPath w driverDir) [⟨0, 0, path⟩]
      (by simpa using hpath) (by simp [oneDriver]) with
      ⟨e, he, hfold, -⟩ | ⟨-, hrun⟩
    · rw [List.mem_singleton.1 he] at hfold
      exact absurd hfold hne
    · exact hrun
  rw [ddkLookupName, bind_ok (ddkCreatePath_ok hw _), bind_ok hfind]
  rfl

variable {b}

theorem path_ne_zero : ∀ c ∈ driverPath w, c ≠ 0 := fun _ => canonicalPath_ne_zero

/-- A second driver of the name: `DdkInsertName` gives up the reference that
`DdkCreateDriver` gives up after it. -/
theorem createDriver_again (hname : NameOk (wide b) driverDir) (init : DriverInit) :
    ∃ t, ddkCreateDriver (wide b) init image (oneDriver image (driverPath (wide b))) =
      .error .useAfterFree t := by
  have hfind : ddkFindName (canonicalPath (wide b) driverDir)
      ((oneDriver image (driverPath (wide b))).allocated (.driver ⟨none, 0, image, false⟩)) =
        .ok (some 0)
          ((oneDriver image (driverPath (wide b))).allocated
            (.driver ⟨none, 0, image, false⟩)) := by
    rcases @findName_spec
      ((oneDriver image (driverPath (wide b))).allocated (.driver ⟨none, 0, image, false⟩))
      (canonicalPath (wide b) driverDir) [⟨0, 0, driverPath (wide b)⟩]
      (by simpa using path_ne_zero) (by simp [oneDriver, State.allocated]) with
      ⟨e, he, -, -, hrun⟩ | ⟨hnone, -⟩
    · rw [List.mem_singleton.1 he] at hrun
      exact hrun
    · exact absurd ⟨_, rfl, by simp⟩ (hnone _ (List.mem_singleton.2 rfl) rfl)
  generalize hs : (oneDriver image (driverPath (wide b))).allocated
    (.driver ⟨none, 0, image, false⟩) = s at hfind
  have hzero : s.objects 0 = some ⟨2, .driver ⟨none, 1, image, false⟩⟩ := by
    rw [← hs]
    rfl
  have hone : (s.put 0 (some ⟨3, .driver ⟨none, 1, image, false⟩⟩)).objects 1 =
      some ⟨1, .driver ⟨none, 0, image, false⟩⟩ := by
    rw [← hs]
    rfl
  have hnames : s.ddkNameList = [⟨0, 0, driverPath (wide b)⟩] := by
    rw [← hs]
    rfl
  -- the new object loses its only reference, and is freed
  have hfree := ddkDereferenceObject_releases _ 1 _ hone (fun _ => trivial)
    (by rw [State.put, hnames]; simp) (by rw [State.put, hnames]; simp)
  rw [State.released, if_pos rfl] at hfree
  have hcreate : ddkCreateName (wide b) 1 driverDir s = .ok 0
      ((s.put 0 (some ⟨3, .driver ⟨none, 1, image, false⟩⟩)).freed 1) := by
    rw [ddkCreateName, bind_ok (ddkAssert_ok (by simpa using hname.1) _),
      bind_ok (ddkCreatePath_ok hname.2 _), bind_ok hfind]
    simp only [bind_ok (ddkReferenceObject_ok hzero)]
    exact bind_ok hfree
  generalize ht : (s.put 0 (some ⟨3, .driver ⟨none, 1, image, false⟩⟩)).freed 1 = t at hcreate
  have hkept : t.objects 0 = some ⟨3, .driver ⟨none, 1, image, false⟩⟩ := by
    rw [← ht]
    rfl
  have hdrop := derefLevels_ne hkept (by simp) (t.nextObject + 1)
  have hinsert : ddkInsertName (wide b) 1 driverDir s =
      .ok false (t.put 0 (some ⟨2, .driver ⟨none, 1, image, false⟩⟩)) := by
    rw [ddkInsertName, bind_ok hcreate, if_pos (by decide)]
    exact bind_ok hdrop
  have hgone : getObject 1 (t.put 0 (some ⟨2, .driver ⟨none, 1, image, false⟩⟩)) =
      .error .useAfterFree (t.put 0 (some ⟨2, .driver ⟨none, 1, image, false⟩⟩)) := by
    rw [← ht]
    rfl
  refine ⟨t.put 0 (some ⟨2, .driver ⟨none, 1, image, false⟩⟩), ?_⟩
  have halloc : ddkAllocObject (.driver ⟨none, 0, image, false⟩)
      (oneDriver image (driverPath (wide b))) = .ok 1 s := by
    rw [← hs]
    rfl
  rw [ddkCreateDriver, bind_ok halloc, bind_ok hinsert, if_neg (by decide)]
  refine bind_error (?_ : ddkDereferenceObject 1 _ = _)
  rw [ddkDereferenceObject, get_bind, derefLevels]
  exact bind_error hgone

/-! ### Runs that fail -/

variable {image}

/-- A state from which a permitted call does not return. -/
theorem not_lifetime_of_error {cs : List (Call × Outcome)} {s t : State}
    (h : Trace (CallInit (wide b)) (CallStep b image) cs s) {c : Call}
    (hperm : CallPermitted b s c) {e : Fault} (herror : runCall b image c s = .error e t) :
    ¬ Lifetime b image := by
  intro hlife
  rcases (hlife cs s h).2 c hperm with ⟨r, s', hrun, -⟩
  rw [herror] at hrun
  cases hrun

theorem permitted_quiet (s : State) : CallPermitted b s (.load quiet) :=
  ⟨rfl, fun _ ha => absurd ha List.not_mem_nil⟩

theorem run_start (b : List UInt8) (image : Bool) :
    Trace (CallInit (wide b)) (CallStep b image) [] emptyState :=
  Trace.start (callInit_emptyState _)

theorem pathFits_formatName (hb : BaseName b) : PathFits (formatName b) driverDir := by
  have hpath : canonicalPath (wide (b.take 255)) driverDir = _ :=
    driverPath_wide (hb.take (by decide))
  have hdir : driverDir.length = 7 := rfl
  rw [PathFits, formatName, wide_take, hpath, List.length_append, List.length_cons, length_wide,
    List.length_take]
  omega

theorem pathFits_signed (hb : BaseName b) (hlen : b.length ≤ maxPath) :
    PathFits (b.map charToWchar) driverDir := by
  have hpath : canonicalPath (b.map charToWchar) driverDir = _ := driverPath_signed hb
  have hdir : driverDir.length = 7 := rfl
  unfold maxPath at hlen
  rw [PathFits, hpath, List.length_append, List.length_cons, List.length_map]
  omega

/-- A name that overruns the buffer of `DdkLoadDriver`. -/
theorem not_lifetime_overrun (h : maxPath < b.length) : ¬ Lifetime b true := by
  refine not_lifetime_of_error (run_start _ _) (permitted_quiet _)
    (?_ : _ = EStateM.Result.error .overrun emptyState)
  refine bind_error (?_ : ddkLoadDriver b quiet emptyState = _)
  rw [ddkLoadDriver, if_neg (Nat.not_le.2 h)]
  rfl

/-- A run of one load. -/
theorem run_load (image : Bool) (hb : BaseName b) (hlen : image = true → b.length ≤ maxPath)
    (hname : NameOk (wide b) driverDir) :
    Trace (CallInit (wide b)) (CallStep b image) [(.load quiet, .loaded .success)]
      (oneDriver image (driverPath (wide b))) := by
  refine callStep_snoc (run_start b image) _ _ (permitted_quiet _) ?_
  cases image with
  | false => exact bind_ok (load_first _ _ (pathFits_formatName hb) hname)
  | true =>
    refine bind_ok (?_ : ddkLoadDriver b quiet emptyState = _)
    rw [ddkLoadDriver, if_pos (hlen rfl)]
    exact load_first _ _ (pathFits_signed hb (hlen rfl)) hname

/-- A driver that is loaded is looked for under another path. -/
theorem not_lifetime_signed (hb : BaseName b) (h : ¬ ∀ c ∈ b, c < 0x80) :
    ¬ Lifetime b true := by
  by_cases hlen : b.length ≤ maxPath
  · have hname := nameOk_wide hb (hlen.trans (by decide))
    have hrun := run_load true hb (fun _ => hlen) hname
    rcases createDriver_again true hname quiet with ⟨t, herror⟩
    refine not_lifetime_of_error hrun (permitted_quiet _)
      (?_ : _ = EStateM.Result.error .useAfterFree t)
    refine bind_error (?_ : ddkLoadDriver b quiet _ = _)
    rw [ddkLoadDriver, if_pos hlen, loadDriver,
      bind_ok (lookup_other true (pathFits_signed hb hlen) path_ne_zero (folded_signed hb h))]
    exact herror
  · exact not_lifetime_overrun (Nat.not_le.1 hlen)

/-- A driver with a long name is not found when it is unloaded. -/
theorem not_lifetime_long (hb : BaseName b) (h : 255 < b.length) : ¬ Lifetime b image := by
  by_cases hlen : image = true → b.length ≤ maxPath
  · by_cases hname : NameOk (wide b) driverDir
    · -- the load succeeds, and the unload leaves the driver
      have hrun := run_load image hb hlen hname
      have hlookup := lookup_other image (pathFits_formatName hb) path_ne_zero
        (folded_cut hb h)
      have hunload : runCall b image (.unload ⟨[], []⟩) (oneDriver image (driverPath (wide b))) =
          .ok .done (oneDriver image (driverPath (wide b))) := by
        have hnone : ddkUnloadDriver b ⟨[], []⟩ (oneDriver image (driverPath (wide b))) =
            .ok () (oneDriver image (driverPath (wide b))) := by
          rw [ddkUnloadDriver, unloadDriver, bind_ok hlookup]
          rfl
        exact bind_ok hnone
      have hperm : CallPermitted b (oneDriver image (driverPath (wide b))) (.unload ⟨[], []⟩) := by
        refine ⟨fun _ ha => absurd ha List.not_mem_nil, ?_⟩
        intro o t hbefore
        rw [beforeRemoval, bind_ok hlookup] at hbefore
        cases hbefore
      have hcycle : ∃ d, InCycle (wide b) image 0 d (oneDriver image (driverPath (wide b))) ∧
          d.loadcount = 1 := by
        obtain ⟨t, d, hload, hin, hcount, -⟩ :
            ∃ t d, loadDriver image (wide b) (wide b) quiet emptyState = .ok .success t ∧
              InCycle (wide b) image 0 d t ∧ d.loadcount = 1 ∧ d.driverUnload = false :=
          load_fresh hname (outOfCycle_init (callInit_emptyState _)) rfl
            (fun _ ha => absurd ha List.not_mem_nil)
        rcases result_eq hload (load_first b image hname.2 hname) with ⟨-, rfl⟩
        exact ⟨d, hin, hcount⟩
      intro hlife
      rcases hcycle with ⟨d, hin, hcount⟩
      rcases (hlife _ _ hrun).2 _ hperm with ⟨r, s', hrun', -, heffect⟩
      rcases result_eq hunload hrun' with ⟨-, rfl⟩
      exact hin.not_outOfCycle (heffect.2.2 0 d hin hcount).1
    · -- the path of the name is too long for `RtlInitUnicodeString`
      have himage : image = false := by
        cases image with
        | false => rfl
        | true => exact absurd (nameOk_wide hb ((hlen rfl).trans (by decide))) hname
      subst himage
      have hpos : 1 ≤ (wide b).length := by
        rw [length_wide]
        exact List.length_pos_of_ne_nil hb.ne_nil
      have hlookup : ddkLookupName (formatName b) driverDir emptyState = .ok none emptyState := by
        rw [ddkLookupName, bind_ok (ddkCreatePath_ok (pathFits_formatName hb) _)]
        rfl
      refine not_lifetime_of_error (run_start _ _) (permitted_quiet _)
        (?_ : _ = EStateM.Result.error .assertion
          (emptyState.allocated (.driver ⟨none, 0, false, false⟩)))
      refine bind_error (?_ : ddkInitDriver b quiet emptyState = _)
      rw [ddkInitDriver, loadDriver, bind_ok hlookup]
      refine (bind_ok (ddkAllocObject_run _ _)).trans (bind_error (bind_error ?_))
      exact createName_fails (fun h => hname ⟨hpos, h.2⟩) _
  · rw [Classical.not_imp, Nat.not_le] at hlen
    rcases hlen with ⟨rfl, hlen⟩
    exact not_lifetime_overrun hlen

end Differ

end Wdutf.Ob
