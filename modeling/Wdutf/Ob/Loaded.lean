import Mathlib.Data.List.Basic
import Mathlib.Data.List.Nodup
import Mathlib.Tactic.Common
import Wdutf.Ob.Names
import Wdutf.Ob.DeviceList

/-!
# Wdutf.Ob.Loaded — a loaded driver and its devices

The calls that a driver makes for itself, from a state in which it is loaded.

* `Loaded` — the driver is the live object under its path, its references are
  those given plus one for each device, and its list holds its devices in the
  order of their creation;
* `createDevice_spec`, `deleteDevice_spec` — both calls keep this, also when a
  creation fails;
* `runActions_spec` — and so does every routine of the driver.
-/

namespace Wdutf.Ob

open Wdutf.Action Wdutf.Rtl

/-! ## States -/

/-- The object that a note is about. -/
def Note.subject : Note → ObjId
  | .driverCreated driver _ => driver
  | .deviceCreated driver _ => driver
  | .driverUnload driver => driver
  | .freed o => o

/-- What holds of the heap, the names and the notes between any two calls. -/
structure Wf (s : State) : Prop where
  addrs : (s.ddkNameList.map (·.addr)).Nodup
  addr_lt : ∀ e ∈ s.ddkNameList, e.addr < s.nextName
  objects : (s.ddkNameList.map (·.object)).Nodup
  nulFree : ∀ e ∈ s.ddkNameList, ∀ c ∈ e.name, c ≠ 0
  heap : ∀ x, s.shape x ≠ none → x < s.nextObject
  listed : ∀ e ∈ s.ddkNameList, s.shape e.object ≠ none
  owner : ∀ x rc drv, s.shape x = some (rc, some drv) → drv < s.nextObject
  subject : ∀ n ∈ s.notes, n.subject < s.nextObject

/-- The devices of a driver that were created and not freed, in the order of their
creation. -/
def createdDevices (drv : ObjId) : List Note → List ObjId
  | [] => []
  | .deviceCreated driver device :: notes =>
    if driver = drv then createdDevices drv notes ++ [device] else createdDevices drv notes
  | .freed o :: notes => (createdDevices drv notes).erase o
  | _ :: notes => createdDevices drv notes

/-- The driver is loaded under the path. Its references are `refs` and one for
each device; `d` gives the members other than its list. -/
structure Loaded (path : UnicodeString) (drv : ObjId) (refs : ℤ) (d : Driver) (s : State) :
    Prop where
  wf : Wf s
  list : DevList s drv (refs + (createdDevices drv s.notes).length) d (createdDevices drv s.notes)
  nodup : (createdDevices drv s.notes).Nodup
  device : ∀ x ∈ createdDevices drv s.notes,
    s.shape x = some (1, some drv) ∧ Unnamed s x ∨ s.shape x = some (2, some drv) ∧ ¬ Unnamed s x
  complete : ∀ x rc, s.shape x = some (rc, some drv) → x ∈ createdDevices drv s.notes
  named : ∃ e ∈ s.ddkNameList, e.object = drv ∧ folded e.name = folded path
  unique : ∀ e ∈ s.ddkNameList, folded e.name = folded path → Live s e.object → e.object = drv

theorem live_iff_shape {s : State} {x : ObjId} :
    Live s x ↔ ∃ rc owner, s.shape x = some (rc, owner) ∧ rc ≠ 0 := by
  constructor
  · rintro ⟨ob, hob, hne⟩
    exact ⟨ob.refcount, ob.shape.2, shape_of hob, hne⟩
  · rintro ⟨rc, owner, hshape, hne⟩
    rcases Option.map_eq_some_iff.1 hshape with ⟨ob, hob, heq⟩
    refine ⟨ob, hob, ?_⟩
    rw [show ob.refcount = rc from congrArg Prod.fst heq]
    exact hne

theorem live_congr {s t : State} {x : ObjId} (h : t.shape x = s.shape x) : Live t x ↔ Live s x := by
  rw [live_iff_shape, live_iff_shape, h]

/-- A state with no other names is well formed when its objects and notes are. -/
theorem Wf.sublist {s t : State} (h : Wf s) (hnames : t.ddkNameList.Sublist s.ddkNameList)
    (hnextName : t.nextName = s.nextName) (hheap : ∀ x, t.shape x ≠ none → x < t.nextObject)
    (hlisted : ∀ e ∈ t.ddkNameList, t.shape e.object ≠ none)
    (howner : ∀ x rc drv, t.shape x = some (rc, some drv) → drv < t.nextObject)
    (hsubject : ∀ n ∈ t.notes, n.subject < t.nextObject) : Wf t where
  addrs := h.addrs.sublist (hnames.map _)
  addr_lt := fun e he => hnextName ▸ h.addr_lt e (hnames.subset he)
  objects := h.objects.sublist (hnames.map _)
  nulFree := fun e he => h.nulFree e (hnames.subset he)
  heap := hheap
  listed := hlisted
  owner := howner
  subject := hsubject

/-- A driver changes, and the notes. -/
theorem Wf.driver {s t : State} {drv : ObjId} {rc : ℤ} (h : Wf s)
    (hnames : t.ddkNameList = s.ddkNameList) (hsame : SameRest s t)
    (hother : ∀ x, x ≠ drv → t.shape x = s.shape x) (hself : t.shape drv = some (rc, none))
    (hlt : drv < s.nextObject) (hnotes : ∀ n ∈ t.notes, n.subject < s.nextObject) : Wf t := by
  refine h.sublist (by rw [hnames]) hsame.nextName ?_ ?_ ?_ ?_
  · intro x hx
    rw [hsame.nextObject]
    by_cases hxd : x = drv
    · rw [hxd]
      exact hlt
    · rw [hother x hxd] at hx
      exact h.heap x hx
  · intro e he
    rw [hnames] at he
    by_cases hxd : e.object = drv
    · rw [hxd, hself]
      simp
    · rw [hother _ hxd]
      exact h.listed e he
  · intro x rcx owner hx
    rw [hsame.nextObject]
    by_cases hxd : x = drv
    · rw [hxd, hself] at hx
      cases hx
    · rw [hother x hxd] at hx
      exact h.owner x rcx owner hx
  · rw [hsame.nextObject]
    exact hnotes

section Loaded

variable {path : UnicodeString} {drv : ObjId} {refs : ℤ} {d : Driver} {s t : State}

theorem Loaded.driver (h : Loaded path drv refs d s) :
    ∃ head, s.objects drv = some
      ⟨refs + (createdDevices drv s.notes).length, .driver { d with deviceObject := head }⟩ := by
  rcases h.list with ⟨head, hdrv, -⟩
  exact ⟨head, hdrv⟩

/-- What is no object is not the driver. -/
theorem Loaded.ne_driver (h : Loaded path drv refs d s) {x : ObjId} (hnone : s.shape x = none) :
    x ≠ drv := by
  rintro rfl
  rcases h.driver with ⟨head, hdrv⟩
  rw [shape_of hdrv] at hnone
  cases hnone

theorem Loaded.drv_lt (h : Loaded path drv refs d s) : drv < s.nextObject := by
  rcases h.driver with ⟨head, hdrv⟩
  apply h.wf.heap
  rw [shape_of hdrv]
  simp

theorem Loaded.live (h : Loaded path drv refs d s) (hrefs : 1 ≤ refs) : Live s drv := by
  rcases h.driver with ⟨head, hdrv⟩
  exact ⟨_, hdrv, by show refs + _ ≠ 0; omega⟩

theorem Loaded.lt (h : Loaded path drv refs d s) :
    ∀ x ∈ createdDevices drv s.notes, x < s.nextObject := by
  intro x hx
  apply h.wf.heap
  rcases h.device x hx with ⟨hshape, -⟩ | ⟨hshape, -⟩
  · simp [hshape]
  · simp [hshape]

theorem Loaded.ne_drv (h : Loaded path drv refs d s) {x : ObjId}
    (hx : x ∈ createdDevices drv s.notes) : x ≠ drv := by
  rintro rfl
  exact devList_not_mem h.list hx

/-- The members and references of the driver change. -/
theorem Loaded.put (h : Loaded path drv refs d s) {refs' : ℤ} {d' : Driver} {head : Option ObjId}
    {rc : ℤ} {e : Driver}
    (hdrv : s.objects drv = some ⟨rc, .driver { e with deviceObject := head }⟩) :
    Loaded path drv refs' d' (s.put drv (some
      ⟨refs' + (createdDevices drv s.notes).length,
        .driver { d' with deviceObject := head }⟩)) := by
  rcases h.list with ⟨head', hdrv', hchain⟩
  rw [hdrv'] at hdrv
  injection hdrv with hob
  injection hob with _ hbody
  injection hbody with hmembers
  have hhead : head' = head := congrArg Driver.deviceObject hmembers
  subst hhead
  have hother : ∀ x, x ≠ drv → (s.put drv (some ⟨refs' + (createdDevices drv s.notes).length,
      .driver { d' with deviceObject := head' }⟩)).shape x = s.shape x :=
    fun x hx => shape_put_of_ne s _ hx
  have hself : (s.put drv (some ⟨refs' + (createdDevices drv s.notes).length,
      .driver { d' with deviceObject := head' }⟩)).shape drv =
        some (refs' + (createdDevices drv s.notes).length, none) := shape_of (put_self ..)
  generalize ht : s.put drv _ = t at hother hself ⊢
  have hnotes : t.notes = s.notes := by rw [← ht]; rfl
  have hnames : t.ddkNameList = s.ddkNameList := by rw [← ht]; rfl
  have hsame : SameRest s t := by rw [← ht]; exact ⟨rfl, rfl, rfl, rfl⟩
  constructor
  case wf =>
    exact h.wf.driver hnames hsame hother hself h.drv_lt (by rw [hnotes]; exact h.wf.subject)
  case list =>
    rw [hnotes]
    refine ⟨head', ?_, ?_⟩
    · rw [← ht, put_self]
    · refine chain_frame hchain fun x hx => ?_
      rw [← ht, put_of_ne s _ (h.ne_drv hx)]
  case nodup => rw [hnotes]; exact h.nodup
  case device =>
    intro x hx
    rw [hnotes] at hx
    rw [hother x (h.ne_drv hx), Unnamed, hnames]
    exact h.device x hx
  case complete =>
    intro x rcx hx
    rw [hnotes]
    by_cases hxd : x = drv
    · rw [hxd, hself] at hx
      cases hx
    · rw [hother x hxd] at hx
      exact h.complete x rcx hx
  case named => rw [hnames]; exact h.named
  case unique =>
    intro e he hfold hlive
    rw [hnames] at he
    by_cases hxd : e.object = drv
    · exact hxd
    · exact h.unique e he hfold ((live_congr (hother _ hxd)).1 hlive)

/-! ## What the calls of a driver leave alone -/

/-- The notes that the calls of a driver make: a device of it was put on the list,
or another object was freed, which was allocated when they began or has been
since. -/
def DeviceNote (drv : ObjId) (s : State) : Note → Prop
  | .deviceCreated driver _ => driver = drv
  | .freed x => x ≠ drv ∧ (x < s.nextObject → s.shape x ≠ none)
  | _ => False

/-- From `s` to `t` the driver has made calls for itself. -/
structure Acted (drv : ObjId) (s t : State) : Prop where
  nextObject : s.nextObject ≤ t.nextObject
  gone : ∀ x, x < s.nextObject → s.shape x = none → t.shape x = none
  notes : ∃ added, t.notes = added ++ s.notes ∧ ∀ n ∈ added, DeviceNote drv s n

theorem Acted.refl (drv : ObjId) (s : State) : Acted drv s s :=
  ⟨Nat.le_refl _, fun _ _ h => h, [], rfl, by simp⟩

theorem Acted.trans {u : State} (h : Acted drv s t) (h' : Acted drv t u) : Acted drv s u := by
  rcases h.notes with ⟨added, hnotes, hadded⟩
  rcases h'.notes with ⟨added', hnotes', hadded'⟩
  refine ⟨h.nextObject.trans h'.nextObject, ?_, added' ++ added, ?_, ?_⟩
  · intro x hx hnone
    exact h'.gone x (lt_of_lt_of_le hx h.nextObject) (h.gone x hx hnone)
  · rw [hnotes', hnotes, List.append_assoc]
  · intro n hn
    rcases List.mem_append.1 hn with hn | hn
    · have hnote := hadded' n hn
      cases n with
      | deviceCreated driver device => exact hnote
      | freed x =>
        refine ⟨hnote.1, fun hx hnone => ?_⟩
        exact hnote.2 (lt_of_lt_of_le hx h.nextObject) (h.gone x hx hnone)
      | driverCreated driver b => exact hnote.elim
      | driverUnload driver => exact hnote.elim
    · exact hadded n hn

/-! ## Names of new objects -/

/-- The name is accepted by the assertions of `DdkCreateName`. -/
def NameOk (name : UnicodeString) (dir : List Wchar) : Prop := 1 ≤ name.length ∧ PathFits name dir

variable {name : UnicodeString} {dir : List Wchar}

theorem Wf.fresh (h : Wf s) : s.objects s.nextObject = none := by
  by_contra hne
  exact lt_irrefl _ (h.heap s.nextObject (fun hnone => hne (shape_eq_none.1 hnone)))

theorem Wf.ne_fresh (h : Wf s) {x : ObjId} (hx : s.shape x ≠ none) : x ≠ s.nextObject :=
  ne_of_lt (h.heap x hx)

theorem Wf.unnamed_fresh (h : Wf s) : Unnamed s s.nextObject :=
  fun e he => h.ne_fresh (h.listed e he)

theorem shape_allocated_of_ne (s : State) (body : Body) {x : ObjId} (h : x ≠ s.nextObject) :
    (s.allocated body).shape x = s.shape x := shape_congr (allocated_of_ne s body h)

/-- The search for a path, right after an allocation. -/
theorem findName_allocated (h : Wf s) (body : Body) (path : UnicodeString) :
    (∃ e ∈ s.ddkNameList, folded path = folded e.name ∧ Live s e.object ∧
      ddkFindName path (s.allocated body) = .ok (some e.object) (s.allocated body)) ∨
    ((∀ e ∈ s.ddkNameList, folded path = folded e.name → ¬ Live s e.object) ∧
      ddkFindName path (s.allocated body) = .ok none (s.allocated body)) := by
  have hlive : ∀ e ∈ s.ddkNameList, Live (s.allocated body) e.object ↔ Live s e.object := by
    intro e he
    exact live_congr (shape_allocated_of_ne s body (h.ne_fresh (h.listed e he)))
  have hheap : ∀ e ∈ s.ddkNameList, (s.allocated body).objects e.object ≠ none := by
    intro e he
    rw [allocated_of_ne s body (h.ne_fresh (h.listed e he))]
    exact fun hnone => h.listed e he (shape_eq_none.2 hnone)
  rcases findName_spec (s := s.allocated body) h.nulFree hheap with
    ⟨e, he, hfold, hl, hrun⟩ | ⟨hnone, hrun⟩
  · exact Or.inl ⟨e, he, hfold, (hlive e he).1 hl, hrun⟩
  · exact Or.inr ⟨fun e he hfold hl => hnone e he hfold ((hlive e he).2 hl), hrun⟩

/-- A new object gets a name on a free path. -/
theorem insertName_allocated (hname : NameOk name dir) {body : Body}
    (hfind : ddkFindName (canonicalPath name dir) (s.allocated body) =
      .ok none (s.allocated body)) :
    ddkInsertName name s.nextObject dir (s.allocated body) =
      .ok true ((s.allocated body).named s.nextObject ⟨1, body⟩ (canonicalPath name dir)) := by
  rw [ddkInsertName, bind_ok (createName_free hname.1 hname.2 (allocated_self s body) hfind),
    if_neg (by simp)]
  rfl

/-- The state in which `DdkCreateName` has found the path of a new device taken: the
device is allocated, and the holder `y` of the path is referenced. -/
def State.held (s : State) (drv y : ObjId) (oby : Object) : State :=
  (s.allocated (.device drv none)).put y (some { oby with refcount := oby.refcount + 1 })

theorem held_device {y : ObjId} {oby : Object} (hy : y ≠ s.nextObject) :
    (s.held drv y oby).objects s.nextObject = some ⟨1, .device drv none⟩ := by
  rw [State.held, put_of_ne _ _ hy.symm, allocated_self]

theorem held_of_ne {x y : ObjId} {oby : Object} (hx : x ≠ s.nextObject) (hxy : x ≠ y) :
    (s.held drv y oby).objects x = s.objects x := by
  rw [State.held, put_of_ne _ _ hxy, allocated_of_ne s _ hx]

/-- The new device loses its only reference; its destruction does not find it on the list. -/
theorem held_dereference (h : Loaded path drv refs d s) (hrefs : 1 ≤ refs) {y : ObjId}
    {oby : Object} (hoby : s.objects y = some oby) (hy : y ≠ s.nextObject) :
    ddkDereferenceObject s.nextObject (s.held drv y oby) =
      .ok () ((s.held drv y oby).freed s.nextObject) := by
  rcases h.driver with ⟨head, hdrv⟩
  have hdne : drv ≠ s.nextObject := ne_of_lt h.drv_lt
  have hbody : ∀ x, x = drv ∨ x ∈ createdDevices drv s.notes →
      ((s.held drv y oby).objects x).map (·.body) = (s.objects x).map (·.body) := by
    intro x hx
    have hxne : x ≠ s.nextObject := by
      rcases hx with rfl | hx
      · exact hdne
      · exact ne_of_lt (h.lt x hx)
    by_cases hxy : x = y
    · rw [hxy, State.held, put_self, hoby]
      rfl
    · rw [held_of_ne hxne hxy]
  -- the holder may be the driver itself, which then counts one reference more
  have hdriver : ∃ ob, (s.held drv y oby).objects drv = some ob ∧ 1 ≤ ob.refcount := by
    by_cases hdy : drv = y
    · refine ⟨{ oby with refcount := oby.refcount + 1 }, by rw [hdy, State.held, put_self], ?_⟩
      rw [← hdy, hdrv] at hoby
      rcases Option.some.inj hoby with rfl
      show 1 ≤ refs + (createdDevices drv s.notes).length + 1
      omega
    · refine ⟨_, (held_of_ne hdne hdy).trans hdrv, ?_⟩
      show 1 ≤ refs + ((createdDevices drv s.notes).length : ℤ)
      omega
  rcases hdriver with ⟨ob, hob, hpos⟩
  exact dereferenceDevice_unlisted h.list h.nodup hbody hob hpos
    (fun x hx => Nat.lt_succ_of_lt (h.lt x hx)) (fun hmem => lt_irrefl _ (h.lt _ hmem))
    (held_device hy) h.wf.addrs h.wf.unnamed_fresh

/-- Without the reference on the holder, only the number and the note of the freed device remain. -/
theorem held_restored (h : Wf s) {y : ObjId} {oby : Object} (hoby : s.objects y = some oby) :
    ((s.held drv y oby).freed s.nextObject).put y
        (some { oby with refcount := oby.refcount + 1 - 1 }) =
      { s with nextObject := s.nextObject + 1, notes := .freed s.nextObject :: s.notes } := by
  have hobjects : (((s.held drv y oby).freed s.nextObject).put y
      (some { oby with refcount := oby.refcount + 1 - 1 })).objects = s.objects := by
    funext x
    by_cases hxy : x = y
    · rw [hxy, put_self, hoby, Int.add_sub_cancel]
    · rw [put_of_ne _ _ hxy]
      by_cases hx : x = s.nextObject
      · rw [hx, h.fresh]
        exact Function.update_self ..
      · exact (Function.update_of_ne hx ..).trans (held_of_ne hx hxy)
  exact State.ext hobjects rfl rfl rfl rfl rfl rfl

/-- A new device whose path is taken is destroyed again. -/
theorem insertName_taken_device (h : Loaded path drv refs d s) (hrefs : 1 ≤ refs)
    (hname : NameOk name dir) {y : ObjId} (hlive : Live s y)
    (hfind : ddkFindName (canonicalPath name dir) (s.allocated (.device drv none)) =
      .ok (some y) (s.allocated (.device drv none))) :
    ddkInsertName name s.nextObject dir (s.allocated (.device drv none)) =
      .ok false
        { s with nextObject := s.nextObject + 1, notes := .freed s.nextObject :: s.notes } := by
  rcases hlive with ⟨oby, hoby, hne⟩
  have hyne : y ≠ s.nextObject := h.wf.ne_fresh (by rw [shape_of hoby]; simp)
  have hy : (s.allocated (.device drv none)).objects y = some oby := by
    rw [allocated_of_ne s _ hyne, hoby]
  -- `DdkCreateName` references the holder and dereferences the device
  have hcreate : ddkCreateName name s.nextObject dir (s.allocated (.device drv none)) =
      .ok y ((s.held drv y oby).freed s.nextObject) := by
    rw [ddkCreateName, bind_ok (ddkAssert_ok (by simpa using hname.1) _),
      bind_ok (ddkCreatePath_ok hname.2 _), bind_ok hfind]
    simp only [bind_ok (ddkReferenceObject_ok hy)]
    exact bind_ok (held_dereference h hrefs hoby hyne)
  -- `DdkInsertName` then dereferences the holder
  have hholder : ((s.held drv y oby).freed s.nextObject).objects y =
      some { oby with refcount := oby.refcount + 1 } :=
    (Function.update_of_ne hyne ..).trans (put_self ..)
  have hderef : ddkDereferenceObject y ((s.held drv y oby).freed s.nextObject) =
      .ok () (((s.held drv y oby).freed s.nextObject).put y
        (some { oby with refcount := oby.refcount + 1 - 1 })) := by
    rw [ddkDereferenceObject, get_bind]
    exact derefLevels_ne hholder (by show oby.refcount + 1 ≠ 1; omega) _
  rw [ddkInsertName, bind_ok hcreate, if_pos hyne, bind_ok hderef, pure_run,
    held_restored h.wf hoby]

/-! ## Creating a device -/

theorem Wf.allocated (h : Wf s) (body : Body)
    (howner : ∀ drv, (⟨1, body⟩ : Object).shape.2 = some drv → drv ≤ s.nextObject) :
    Wf (s.allocated body) := by
  have hself : (s.allocated body).shape s.nextObject = some (Object.shape ⟨1, body⟩) :=
    shape_of (allocated_self s body)
  refine h.sublist (List.Sublist.refl _) rfl ?_ ?_ ?_ ?_
  · intro x hx
    by_cases hxn : x = s.nextObject
    · rw [hxn]
      exact Nat.lt_succ_self _
    · rw [shape_allocated_of_ne s body hxn] at hx
      exact Nat.lt_succ_of_lt (h.heap x hx)
  · intro e he
    have hne := h.listed e he
    rwa [shape_allocated_of_ne s body (h.ne_fresh hne)]
  · intro x rc drv hx
    by_cases hxn : x = s.nextObject
    · rw [hxn, hself] at hx
      exact Nat.lt_succ_of_le (howner drv (congrArg Prod.snd (Option.some.inj hx)))
    · rw [shape_allocated_of_ne s body hxn] at hx
      exact Nat.lt_succ_of_lt (h.owner x rc drv hx)
  · intro n hn
    exact Nat.lt_succ_of_lt (h.subject n hn)

theorem Wf.named (h : Wf s) {o : ObjId} {ob : Object} (hob : s.objects o = some ob)
    (hunnamed : Unnamed s o) {path : UnicodeString} (hnul : ∀ c ∈ path, c ≠ 0) :
    Wf (s.named o ob path) := by
  have hshape : ∀ x, (s.named o ob path).shape x ≠ none ↔ s.shape x ≠ none := by
    intro x
    by_cases hx : x = o
    · rw [hx, shape_of (named_self ..), shape_of hob]
      simp
    · rw [shape_congr (named_of_ne s ob path hx)]
  constructor
  case addrs =>
    refine List.nodup_cons.2 ⟨fun hmem => ?_, h.addrs⟩
    rcases List.mem_map.1 hmem with ⟨e, he, heq⟩
    exact absurd heq (ne_of_lt (h.addr_lt e he))
  case addr_lt =>
    intro e he
    rcases List.mem_cons.1 he with rfl | he
    · exact Nat.lt_succ_self _
    · exact Nat.lt_succ_of_lt (h.addr_lt e he)
  case objects =>
    refine List.nodup_cons.2 ⟨fun hmem => ?_, h.objects⟩
    rcases List.mem_map.1 hmem with ⟨e, he, heq⟩
    exact hunnamed e he heq
  case nulFree =>
    intro e he
    rcases List.mem_cons.1 he with rfl | he
    · exact hnul
    · exact h.nulFree e he
  case heap => exact fun x hx => h.heap x ((hshape x).1 hx)
  case listed =>
    intro e he
    rw [hshape]
    rcases List.mem_cons.1 he with rfl | he
    · rw [shape_of hob]
      simp
    · exact h.listed e he
  case owner =>
    intro x rc drv hx
    by_cases hxo : x = o
    · rw [hxo, shape_of (named_self ..)] at hx
      have hx' : s.shape o = some (ob.refcount, some drv) := by
        have hsnd : ob.shape.2 = some drv := congrArg Prod.snd (Option.some.inj hx)
        rw [shape_of hob, ← hsnd]
        rfl
      exact h.owner o _ drv hx'
    · rw [shape_congr (named_of_ne s ob path hxo)] at hx
      exact h.owner x rc drv hx
  case subject => exact h.subject

/-- A new device, named or not, is put on the list. `t` is the state in which it
is allocated and has its name. -/
theorem addDevice_loaded (h : Loaded path drv refs d s) (hrefs : 1 ≤ refs) (hwf : Wf t) {rcd : ℤ}
    (hdev : t.objects s.nextObject = some ⟨rcd, .device drv none⟩)
    (hother : ∀ x, x ≠ s.nextObject → t.objects x = s.objects x)
    (hnext : t.nextObject = s.nextObject + 1) (hnotes : t.notes = s.notes)
    (hrcd : rcd = 1 ∧ Unnamed t s.nextObject ∨ rcd = 2 ∧ ¬ Unnamed t s.nextObject)
    (hnamed : ∀ x, x ≠ s.nextObject → (Unnamed t x ↔ Unnamed s x))
    (hsub : ∀ e ∈ s.ddkNameList, e ∈ t.ddkNameList)
    (hunique : ∀ e ∈ t.ddkNameList, folded e.name = folded path → Live t e.object →
      e.object = drv) :
    ∃ u, ddkAddDevice drv s.nextObject t = .ok () u ∧ Loaded path drv refs d u ∧ Acted drv s u := by
  have hlt := h.lt
  have hnew : s.nextObject ∉ createdDevices drv s.notes := fun hmem => lt_irrefl _ (hlt _ hmem)
  have hlist : DevList t drv (refs + (createdDevices drv s.notes).length) d
      (createdDevices drv s.notes) :=
    devList_frame h.list (hother drv (ne_of_lt h.drv_lt)) fun x hx => hother x (ne_of_lt (hlt x hx))
  obtain ⟨u, hrun, hlist', hshape, hnames, hsame, hnotes'⟩ :=
    addDevice_devList hlist (by omega) h.nodup
    (fun x hx => by rw [hnext]; exact Nat.lt_succ_of_lt (hlt x hx)) hnew hdev
  have hcreated : createdDevices drv u.notes = createdDevices drv s.notes ++ [s.nextObject] := by
    rw [hnotes', hnotes, createdDevices, if_pos rfl]
  have hself : u.shape drv = some (refs + (createdDevices drv s.notes).length + 1, none) := by
    rcases hlist' with ⟨head, hdrv, -⟩
    exact shape_of hdrv
  have hlive : ∀ x, x ≠ drv → (Live u x ↔ Live t x) := fun x hx => live_congr (hshape x hx)
  have hunnamed : ∀ x, Unnamed u x ↔ Unnamed t x := by
    intro x
    rw [Unnamed, Unnamed, hnames]
  have hshape' : ∀ x, x ≠ drv → x ≠ s.nextObject → u.shape x = s.shape x :=
    fun x hx hx' => (hshape x hx).trans (shape_congr (hother x hx'))
  refine ⟨u, hrun, ?_, ?_⟩
  · constructor
    case wf =>
      refine hwf.driver hnames hsame hshape hself ?_ ?_
      · rw [hnext]
        exact Nat.lt_succ_of_lt h.drv_lt
      · intro n hn
        rw [hnotes', hnotes] at hn
        rw [hnext]
        rcases List.mem_cons.1 hn with rfl | hn
        · exact Nat.lt_succ_of_lt h.drv_lt
        · exact Nat.lt_succ_of_lt (h.wf.subject n hn)
    case list =>
      rw [hcreated, List.length_append, List.length_singleton, Int.natCast_add, Int.natCast_one,
        ← Int.add_assoc]
      exact hlist'
    case nodup =>
      rw [hcreated, List.nodup_append_comm]
      exact List.nodup_cons.2 ⟨hnew, h.nodup⟩
    case device =>
      intro x hx
      rw [hcreated] at hx
      rw [hunnamed]
      rcases List.mem_append.1 hx with hx | hx
      · have hxne := ne_of_lt (hlt x hx)
        rw [hshape' x (h.ne_drv hx) hxne, hnamed x hxne]
        exact h.device x hx
      · rcases List.mem_singleton.1 hx with rfl
        rw [hshape _ (ne_of_lt h.drv_lt).symm, shape_of hdev]
        rcases hrcd with ⟨rfl, hun⟩ | ⟨rfl, hun⟩
        · exact Or.inl ⟨rfl, hun⟩
        · exact Or.inr ⟨rfl, hun⟩
    case complete =>
      intro x rc hx
      rw [hcreated, List.mem_append, List.mem_singleton]
      by_cases hxn : x = s.nextObject
      · exact Or.inr hxn
      · left
        by_cases hxd : x = drv
        · rw [hxd, hself] at hx
          cases hx
        · rw [hshape' x hxd hxn] at hx
          exact h.complete x rc hx
    case named =>
      rcases h.named with ⟨e, he, heq⟩
      exact ⟨e, by rw [hnames]; exact hsub e he, heq⟩
    case unique =>
      intro e he hfold hl
      rw [hnames] at he
      by_cases hxd : e.object = drv
      · exact hxd
      · exact hunique e he hfold ((hlive _ hxd).1 hl)
  · refine ⟨?_, ?_, [.deviceCreated drv s.nextObject], by rw [hnotes', hnotes]; rfl, ?_⟩
    · rw [hsame.nextObject, hnext]
      exact Nat.le_succ _
    · intro x hx hnone
      have hxd : x ≠ drv := h.ne_driver hnone
      rw [hshape' x hxd (ne_of_lt hx), hnone]
    · intro n hn
      rcases List.mem_singleton.1 hn with rfl
      rfl

/-- A creation that fails for its name leaves only the note of the freed device. -/
theorem Loaded.collided (h : Loaded path drv refs d s) :
    Loaded path drv refs d
      { s with nextObject := s.nextObject + 1, notes := .freed s.nextObject :: s.notes } ∧
    Acted drv s
      { s with nextObject := s.nextObject + 1, notes := .freed s.nextObject :: s.notes } := by
  have hcreated : createdDevices drv (.freed s.nextObject :: s.notes) =
      createdDevices drv s.notes :=
    List.erase_of_not_mem fun hmem => lt_irrefl _ (h.lt _ hmem)
  constructor
  · constructor
    case wf =>
      refine h.wf.sublist (List.Sublist.refl _) rfl ?_ h.wf.listed ?_ ?_
      · exact fun x hx => Nat.lt_succ_of_lt (h.wf.heap x hx)
      · exact fun x rc owner hx => Nat.lt_succ_of_lt (h.wf.owner x rc owner hx)
      · intro n hn
        rcases List.mem_cons.1 hn with rfl | hn
        · exact Nat.lt_succ_self _
        · exact Nat.lt_succ_of_lt (h.wf.subject n hn)
    case list =>
      show DevList _ _ (refs + (createdDevices drv (.freed s.nextObject :: s.notes)).length) _
        (createdDevices drv (.freed s.nextObject :: s.notes))
      rw [hcreated]
      exact devList_frame h.list rfl fun _ _ => rfl
    case nodup =>
      show (createdDevices drv (.freed s.nextObject :: s.notes)).Nodup
      rw [hcreated]
      exact h.nodup
    case device =>
      intro x hx
      exact h.device x (hcreated ▸ hx)
    case complete =>
      intro x rc hx
      show x ∈ createdDevices drv (.freed s.nextObject :: s.notes)
      rw [hcreated]
      exact h.complete x rc hx
    case named => exact h.named
    case unique => exact h.unique
  · refine ⟨Nat.le_succ _, fun _ _ hnone => hnone, [.freed s.nextObject], rfl, ?_⟩
    intro n hn
    rcases List.mem_singleton.1 hn with rfl
    exact ⟨(ne_of_lt h.drv_lt).symm, fun hlt => absurd hlt (lt_irrefl _)⟩

/-- Nothing about a loaded driver depends on `UniqueId`. -/
theorem Loaded.uniqueId (h : Loaded path drv refs d s) (id : UInt32) :
    Loaded path drv refs d { s with uniqueId := id } ∧ Acted drv s { s with uniqueId := id } :=
  ⟨⟨⟨h.wf.addrs, h.wf.addr_lt, h.wf.objects, h.wf.nulFree, h.wf.heap, h.wf.listed, h.wf.owner,
      h.wf.subject⟩, devList_frame h.list rfl fun _ _ => rfl, h.nodup, h.device, h.complete,
      h.named,
      h.unique⟩,
    ⟨Nat.le_refl _, fun _ _ hnone => hnone, [], rfl, by simp⟩⟩

/-- A device without a name. -/
theorem createUnnamed_spec (h : Loaded path drv refs d s) (hrefs : 1 ≤ refs) :
    ∃ u, ddkAddDevice drv s.nextObject (s.allocated (.device drv none)) = .ok () u ∧
      Loaded path drv refs d u ∧ Acted drv s u := by
  have hlt := h.drv_lt
  refine addDevice_loaded h hrefs (h.wf.allocated _ ?_) (allocated_self s _)
    (fun x hx => allocated_of_ne s _ hx) rfl rfl (Or.inl ⟨rfl, h.wf.unnamed_fresh⟩)
    (fun _ _ => Iff.rfl) (fun _ he => he) ?_
  · intro drv' heq
    rcases Option.some.inj heq with rfl
    exact le_of_lt hlt
  · intro e he hfold hlive
    refine h.unique e he hfold ((live_congr ?_).1 hlive)
    exact shape_allocated_of_ne s _ (h.wf.ne_fresh (h.wf.listed e he))

/-- A device with a name: it is created, or its name is taken. -/
theorem createNamed_spec (h : Loaded path drv refs d s) (hrefs : 1 ≤ refs)
    (hname : NameOk name dir) :
    (∃ t u, ddkInsertName name s.nextObject dir (s.allocated (.device drv none)) = .ok true t ∧
      ddkAddDevice drv s.nextObject t = .ok () u ∧ Loaded path drv refs d u ∧ Acted drv s u) ∨
    (∃ t, ddkInsertName name s.nextObject dir (s.allocated (.device drv none)) = .ok false t ∧
      Loaded path drv refs d t ∧ Acted drv s t) := by
  rcases findName_allocated h.wf (.device drv none) (canonicalPath name dir) with
    ⟨e, he, hfold, hlive, hfind⟩ | ⟨hfree, hfind⟩
  · exact Or.inr ⟨_, insertName_taken_device h hrefs hname hlive hfind, h.collided⟩
  · left
    have hwf : Wf (s.allocated (.device drv none)) := by
      refine h.wf.allocated _ ?_
      intro drv' heq
      rcases Option.some.inj heq with rfl
      exact le_of_lt h.drv_lt
    have hunnamed : Unnamed (s.allocated (.device drv none)) s.nextObject := h.wf.unnamed_fresh
    have hnul : ∀ c ∈ canonicalPath name dir, c ≠ 0 := fun c hc => canonicalPath_ne_zero hc
    obtain ⟨u, hrun, hu⟩ := addDevice_loaded h hrefs
      (hwf.named (allocated_self s _) hunnamed hnul)
      (named_self ..)
      (fun x hx => (named_of_ne _ _ _ hx).trans (allocated_of_ne s _ hx)) rfl rfl
      (Or.inr ⟨rfl, fun hun => hun _ (List.mem_cons_self ..) rfl⟩)
      (by
        intro x hx
        refine ⟨fun hun e he => hun e (List.mem_cons_of_mem _ he), fun hun e he => ?_⟩
        rcases List.mem_cons.1 he with rfl | he
        · exact hx.symm
        · exact hun e he)
      (fun e he => List.mem_cons_of_mem _ he)
      (by
        intro e he hfold hlive
        rcases List.mem_cons.1 he with rfl | he
        · -- the path of the driver is taken
          rcases h.named with ⟨e', he', rfl, hfold'⟩
          exact absurd (h.live hrefs) (hfree e' he' (hfold.trans hfold'.symm))
        · have hne := h.wf.ne_fresh (h.wf.listed e he)
          refine h.unique e he hfold ((live_congr ?_).1 hlive)
          rw [shape_congr (named_of_ne _ _ _ hne), shape_allocated_of_ne s _ hne])
    exact ⟨_, u, insertName_allocated hname hfind, hrun, hu⟩

/-- The condition on the name of a device: the assertions accept it. -/
def DeviceNameOk (deviceName : Option UnicodeString) : Prop :=
  ∀ name ∈ deviceName, NameOk name deviceDir

theorem generated_ok (id : UInt32) : NameOk (deviceDir ++ backslash :: hex8 id) deviceDir := by
  have hlen : (deviceDir ++ backslash :: hex8 id).length = 16 := rfl
  refine ⟨by omega, ?_⟩
  -- the name is absolute, so the path has nothing else in it
  have htext : pathText (deviceDir ++ backslash :: hex8 id) deviceDir [] =
      wcs (deviceDir ++ backslash :: hex8 id) := rfl
  have hle : (canonicalPath (deviceDir ++ backslash :: hex8 id) deviceDir).length ≤
      (deviceDir ++ backslash :: hex8 id).length := by
    rw [canonicalPath, htext]
    exact (List.takeWhile_sublist _).length_le.trans (List.takeWhile_sublist _).length_le
  unfold PathFits
  omega

/-- `IoCreateDevice` keeps the driver loaded, whatever comes of it. -/
theorem createDevice_spec (h : Loaded path drv refs d s) (hrefs : 1 ≤ refs) (memory : Bool)
    {deviceName : Option UnicodeString} (hname : DeviceNameOk deviceName) (autogenerated : Bool) :
    ∃ r t, ioCreateDevice memory drv deviceName autogenerated s = .ok r t ∧
      Loaded path drv refs d t ∧ Acted drv s t := by
  cases memory with
  | false => exact ⟨.insufficientResources, s, rfl, h, Acted.refl drv s⟩
  | true =>
    rw [ioCreateDevice, if_pos rfl]
    cases deviceName with
    | some name =>
      rcases createNamed_spec h hrefs (hname name rfl) with
        ⟨t, u, hins, hadd, hu, hacted⟩ | ⟨t, hins, ht, hacted⟩
      · refine ⟨.created s.nextObject, u, ?_, hu, hacted⟩
        rw [bind_ok (ddkAllocObject_run _ s)]
        show (ddkInsertName name s.nextObject deviceDir >>= _) _ = _
        rw [bind_ok hins, if_pos rfl, bind_ok hadd]
        rfl
      · refine ⟨.objectNameExists, t, ?_, ht, hacted⟩
        rw [bind_ok (ddkAllocObject_run _ s)]
        show (ddkInsertName name s.nextObject deviceDir >>= _) _ = _
        rw [bind_ok hins]
        rfl
    | none =>
      cases autogenerated with
      | false =>
        rcases createUnnamed_spec h hrefs with ⟨u, hadd, hu, hacted⟩
        refine ⟨.created s.nextObject, u, ?_, hu, hacted⟩
        rw [bind_ok (ddkAllocObject_run _ s)]
        show (ddkAddDevice drv s.nextObject >>= _) _ = _
        rw [bind_ok hadd]
        rfl
      | true =>
        -- the counter moves on first
        rcases h.uniqueId (s.uniqueId + 1) with ⟨hid, hactid⟩
        rcases createNamed_spec hid hrefs (generated_ok (s.uniqueId + 1)) with
          ⟨t, u, hins, hadd, hu, hacted⟩ | ⟨t, hins, ht, hacted⟩
        · refine ⟨.created s.nextObject, u, ?_, hu, hactid.trans hacted⟩
          rw [bind_ok (ddkAllocObject_run _ s)]
          have hrun : insertDeviceName s.nextObject none true (s.allocated (.device drv none)) =
              .ok true t := hins
          rw [bind_ok hrun, if_pos rfl, bind_ok hadd]
          rfl
        · refine ⟨.objectNameExists, t, ?_, ht, hactid.trans hacted⟩
          rw [bind_ok (ddkAllocObject_run _ s)]
          have hrun : insertDeviceName s.nextObject none true (s.allocated (.device drv none)) =
              .ok false t := hins
          rw [bind_ok hrun]
          rfl

/-! ## Deleting a device -/

/-- A device loses its name, and has one reference left. -/
theorem removeName_device (h : Loaded path drv refs d s) {dev : ObjId}
    (hdev : dev ∈ createdDevices drv s.notes) :
    ∃ t ob next, s.objects dev = some ob ∧ 1 ≤ ob.refcount ∧ ob.body = .device drv next ∧
      ddkRemoveObjectName dev s = .ok () t ∧
      t.ddkNameList = s.ddkNameList.filter (fun e => e.object != dev) ∧ SameRest s t ∧
      (∀ x, x ≠ dev → t.objects x = s.objects x) ∧
      t.objects dev = some ⟨1, .device drv next⟩ ∧ t.notes = s.notes := by
  rcases h.device dev hdev with ⟨hshape, hun⟩ | ⟨hshape, hun⟩
  · -- without a name nothing happens
    rcases device_of_shape hshape with ⟨next, hob⟩
    refine ⟨s, _, next, hob, by simp, rfl, removeObjectName_none h.wf.addrs hun, ?_,
      SameRest.refl s,
      fun _ _ => rfl, hob, rfl⟩
    exact (List.filter_eq_self.2 fun e he => by simpa using hun e he).symm
  · rcases device_of_shape hshape with ⟨next, hob⟩
    obtain ⟨t, hrun, hnames, hsame, hother, hself, hnotes⟩ :=
      removeObjectName_drops ddkDereferenceObject_releases h.wf.addrs h.wf.objects hob
        (fun hone => absurd hone (by simp))
    have hnamed : ∃ e ∈ s.ddkNameList, e.object = dev := by simpa [Unnamed] using hun
    rw [if_pos hnamed] at hself
    exact ⟨t, _, next, hob, by simp, rfl, hrun, hnames, hsame, hother, hself, hnotes (by simp)⟩

/-- The state after the deletion of a device of the driver. -/
structure Deleted (drv : ObjId) (refs : ℤ) (d : Driver) (dev : ObjId) (s u : State) : Prop where
  list : DevList u drv (refs + (createdDevices drv s.notes).length - 1) d
    ((createdDevices drv s.notes).erase dev)
  gone : u.shape dev = none
  shape : ∀ x, x ≠ drv → x ≠ dev → u.shape x = s.shape x
  names : u.ddkNameList = s.ddkNameList.filter (fun e => e.object != dev)
  same : SameRest s u
  notes : u.notes = .freed dev :: s.notes

theorem deleteDevice_run (h : Loaded path drv refs d s) (hrefs : 1 ≤ refs) {dev : ObjId}
    (hdev : dev ∈ createdDevices drv s.notes) :
    ∃ u, ioDeleteDevice dev s = .ok () u ∧ Deleted drv refs d dev s u := by
  have hne := h.ne_drv hdev
  obtain ⟨t, ob, next, hob, hpos, hbody, hremove, hnames, hsame, hother, hself, hnotes⟩ :=
    removeName_device h hdev
  rcases List.append_of_mem hdev with ⟨before, rest, hsplit⟩
  have hnodup := h.nodup
  have hlt := h.lt
  have hlist := h.list
  rw [hsplit] at hnodup hlt hlist
  have hmiss : dev ∉ before := fun hmem =>
    (List.nodup_cons.1 (List.nodup_middle.1 hnodup)).1 (List.mem_append_left _ hmem)
  -- the list is the same while the device is dying
  have hlist' : DevList (t.put dev (some ⟨0, .device drv next⟩)) drv
      (refs + (before ++ dev :: rest).length) d (before ++ dev :: rest) := by
    rcases id hlist with ⟨head, hdrv, -⟩
    refine devList_bodies hlist ?_
      ((put_of_ne _ _ hne.symm).trans ((hother drv hne.symm).trans hdrv)) rfl
    intro x _
    by_cases hx : x = dev
    · rw [hx, put_self, hob, Option.map_some, Option.map_some, hbody]
    · rw [put_of_ne _ _ hx, hother x hx]
  obtain ⟨hgone, haddrs⟩ := names_dropped h.wf.addrs hnames
  obtain ⟨u, hfree, hlistu, hnone, hshape, hnamesu, hsameu, hnotesu⟩ :=
    freeDevice_listed t.nextObject hlist'
      (by rw [List.length_append, List.length_cons]; omega) hnodup
      (by
        intro x hx
        show x < t.nextObject
        rw [hsame.nextObject]
        exact hlt x hx)
      haddrs hgone
  have hderef : ddkDereferenceObject dev t = .ok () u := by
    rw [ddkDereferenceObject, get_bind, derefLevels_one hself rfl]
    exact hfree
  refine ⟨u, ?_, ?_, shape_eq_none.2 hnone, ?_, hnamesu.trans hnames,
    hsame.trans ⟨hsameu.nextObject, hsameu.nextName, hsameu.work, hsameu.uniqueId⟩, ?_⟩
  · rw [ioDeleteDevice, bind_ok (fromPointer_ok hob hpos)]
    simp only [hbody, bind_ok hremove]
    exact hderef
  · rw [hsplit, List.erase_append_right _ hmiss, List.erase_cons_head]
    exact hlistu
  · intro x hxd hx
    rw [hshape x hxd hx, shape_put_of_ne _ _ hx, shape_congr (hother x hx)]
  · rw [hnotesu, ← hnotes]
    rfl

section Deleted

variable {dev : ObjId} {u : State}

theorem Deleted.driver (hdel : Deleted drv refs d dev s u) :
    u.shape drv = some (refs + (createdDevices drv s.notes).length - 1, none) := by
  rcases hdel.list with ⟨head, hdrv, -⟩
  exact shape_of hdrv

theorem Deleted.mem_names (hdel : Deleted drv refs d dev s u) {e : Name} :
    e ∈ u.ddkNameList ↔ e ∈ s.ddkNameList ∧ e.object ≠ dev := by
  rw [hdel.names, List.mem_filter]
  simp

theorem Deleted.unnamed (hdel : Deleted drv refs d dev s u) {x : ObjId} (hx : x ≠ dev) :
    Unnamed u x ↔ Unnamed s x := by
  constructor
  · intro hun e he heq
    exact hun e (hdel.mem_names.2 ⟨he, heq ▸ hx⟩) heq
  · intro hun e he
    exact hun e (hdel.mem_names.1 he).1

theorem Deleted.wf (h : Loaded path drv refs d s) (hdev : dev ∈ createdDevices drv s.notes)
    (hdel : Deleted drv refs d dev s u) : Wf u := by
  refine h.wf.sublist (hdel.names ▸ List.filter_sublist) hdel.same.nextName ?_ ?_ ?_ ?_
  · intro x hx
    rw [hdel.same.nextObject]
    by_cases hxd : x = drv
    · rw [hxd]
      exact h.drv_lt
    · by_cases hxe : x = dev
      · rw [hxe]
        exact h.lt dev hdev
      · rw [hdel.shape x hxd hxe] at hx
        exact h.wf.heap x hx
  · intro e he
    rcases hdel.mem_names.1 he with ⟨he, hxe⟩
    by_cases hxd : e.object = drv
    · rw [hxd, hdel.driver]
      simp
    · rw [hdel.shape _ hxd hxe]
      exact h.wf.listed e he
  · intro x rc owner hx
    rw [hdel.same.nextObject]
    by_cases hxd : x = drv
    · rw [hxd, hdel.driver] at hx
      cases hx
    · by_cases hxe : x = dev
      · rw [hxe, hdel.gone] at hx
        cases hx
      · rw [hdel.shape x hxd hxe] at hx
        exact h.wf.owner x rc owner hx
  · intro n hn
    rw [hdel.notes] at hn
    rw [hdel.same.nextObject]
    rcases List.mem_cons.1 hn with rfl | hn
    · exact h.lt dev hdev
    · exact h.wf.subject n hn

theorem Deleted.loaded (h : Loaded path drv refs d s) (hdev : dev ∈ createdDevices drv s.notes)
    (hdel : Deleted drv refs d dev s u) : Loaded path drv refs d u := by
  have hcreated : createdDevices drv u.notes = (createdDevices drv s.notes).erase dev := by
    rw [hdel.notes, createdDevices]
  have hmem : ∀ x, x ∈ createdDevices drv u.notes ↔ x ≠ dev ∧ x ∈ createdDevices drv s.notes := by
    intro x
    rw [hcreated, h.nodup.mem_erase_iff]
  constructor
  case wf => exact hdel.wf h hdev
  case list =>
    have hlen : refs + ((createdDevices drv s.notes).length : ℤ) - 1 =
        refs + ((createdDevices drv s.notes).erase dev).length := by
      have := List.length_erase_of_mem hdev
      have := List.length_pos_of_mem hdev
      omega
    rw [hcreated, ← hlen]
    exact hdel.list
  case nodup =>
    rw [hcreated]
    exact h.nodup.erase dev
  case device =>
    intro x hx
    rcases (hmem x).1 hx with ⟨hxe, hx⟩
    rw [hdel.shape x (h.ne_drv hx) hxe, hdel.unnamed hxe]
    exact h.device x hx
  case complete =>
    intro x rc hx
    have hxd : x ≠ drv := by
      rintro rfl
      rw [hdel.driver] at hx
      cases hx
    have hxe : x ≠ dev := by
      rintro rfl
      rw [hdel.gone] at hx
      cases hx
    rw [hdel.shape x hxd hxe] at hx
    exact (hmem x).2 ⟨hxe, h.complete x rc hx⟩
  case named =>
    rcases h.named with ⟨e, he, rfl, hfold⟩
    exact ⟨e, hdel.mem_names.2 ⟨he, (h.ne_drv hdev).symm⟩, rfl, hfold⟩
  case unique =>
    intro e he hfold hlive
    rcases hdel.mem_names.1 he with ⟨he, hxe⟩
    by_cases hxd : e.object = drv
    · exact hxd
    · exact h.unique e he hfold ((live_congr (hdel.shape _ hxd hxe)).1 hlive)

theorem Deleted.acted (h : Loaded path drv refs d s) (hdev : dev ∈ createdDevices drv s.notes)
    (hdel : Deleted drv refs d dev s u) : Acted drv s u := by
  have hold : s.shape dev ≠ none := by
    rcases h.device dev hdev with ⟨hshape, -⟩ | ⟨hshape, -⟩
    · simp [hshape]
    · simp [hshape]
  refine ⟨le_of_eq hdel.same.nextObject.symm, ?_, [.freed dev], hdel.notes, ?_⟩
  · intro x hx hnone
    have hxd : x ≠ drv := h.ne_driver hnone
    by_cases hxe : x = dev
    · rw [hxe]
      exact hdel.gone
    · rw [hdel.shape x hxd hxe, hnone]
  · intro n hn
    rcases List.mem_singleton.1 hn with rfl
    exact ⟨h.ne_drv hdev, fun _ => hold⟩

end Deleted

/-- `IoDeleteDevice` takes a device of the driver off the list and frees it. -/
theorem deleteDevice_spec (h : Loaded path drv refs d s) (hrefs : 1 ≤ refs) {dev : ObjId}
    (hdev : dev ∈ createdDevices drv s.notes) :
    ∃ t, ioDeleteDevice dev s = .ok () t ∧ Loaded path drv refs d t ∧ Acted drv s t := by
  rcases deleteDevice_run h hrefs hdev with ⟨t, hrun, hdel⟩
  exact ⟨t, hrun, hdel.loaded h hdev, hdel.acted h hdev⟩

/-! ## The routines of the driver -/

/-- The names that a routine of the driver uses are accepted by the assertions. -/
def ActionOk : DeviceAction → Prop
  | .create _ deviceName _ => DeviceNameOk deviceName
  | .delete _ => True

theorem deviceFrom_ok {ds before tail : List ObjId} {rc : ℤ} (h : DevList s drv rc d ds)
    (hsplit : ds = before ++ tail) (position : ℕ) :
    deviceFrom drv position before.getLast? s = .ok tail[position]? s := by
  subst hsplit
  induction position generalizing before tail with
  | zero =>
    rw [deviceFrom, deviceAt_ok h, List.head?_eq_getElem?]
  | succ position ih =>
    rw [deviceFrom, bind_ok (deviceAt_ok h)]
    cases tail with
    | nil => rfl
    | cons x tail =>
      have h' : DevList s drv rc d ((before ++ [x]) ++ tail) := by simpa using h
      have hnext := ih h'
      rw [List.getLast?_concat] at hnext
      simpa using hnext

/-- The calls of a routine keep the driver loaded. -/
theorem runActions_spec (hrefs : 1 ≤ refs) {actions : List DeviceAction}
    (hok : ∀ a ∈ actions, ActionOk a) (h : Loaded path drv refs d s) :
    ∃ t, runActions drv actions s = .ok () t ∧ Loaded path drv refs d t ∧ Acted drv s t := by
  induction actions generalizing s with
  | nil => exact ⟨s, rfl, h, Acted.refl drv s⟩
  | cons a actions ih =>
    have hrest : ∀ b ∈ actions, ActionOk b := fun b hb => hok b (List.mem_cons_of_mem a hb)
    have ha := hok a (by simp)
    cases a with
    | create memory deviceName autogenerated =>
      rcases createDevice_spec h hrefs memory ha autogenerated with ⟨r, t, hrun, ht, hacted⟩
      rcases ih hrest ht with ⟨u, hrun', hu, hacted'⟩
      refine ⟨u, ?_, hu, hacted.trans hacted'⟩
      rw [runActions, bind_ok hrun]
      exact hrun'
    | delete position =>
      have hfrom : deviceFrom drv position ([] : List ObjId).getLast? s =
          .ok (createdDevices drv s.notes)[position]? s := deviceFrom_ok h.list rfl position
      rw [List.getLast?_nil] at hfrom
      rw [runActions, bind_ok hfrom]
      cases hpos : (createdDevices drv s.notes)[position]? with
      | none =>
        -- there is no such device, and no call
        rcases ih hrest h with ⟨u, hrun', hu, hacted'⟩
        exact ⟨u, hrun', hu, hacted'⟩
      | some dev =>
        rcases deleteDevice_spec h hrefs (List.mem_of_getElem? hpos) with ⟨t, hrun, ht, hacted⟩
        rcases ih hrest ht with ⟨u, hrun', hu, hacted'⟩
        refine ⟨u, ?_, hu, hacted.trans hacted'⟩
        show (ioDeleteDevice dev >>= fun _ => runActions drv actions) s = _
        rw [bind_ok hrun]
        exact hrun'

end Loaded

end Wdutf.Ob
