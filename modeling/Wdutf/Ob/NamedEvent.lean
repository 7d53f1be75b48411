import Mathlib.Data.List.Basic
import Mathlib.Data.List.Count
import Mathlib.Tactic.Common
import Wdutf.Lib.Transition
import Wdutf.Ob.Symlink

/-!
# Wdutf.Ob.NamedEvent — named events, `src/event.cpp`

`DdkCreateEvent` allocates an event before it knows whether the name is free. The
reference that the name of a new event stands for is given up at once, so the
table holds a pointer that counts for nothing, and the first handle has the
reference of the allocation.

* `ddkCreateEvent_free`, `ddkCreateEvent_opened`, `ddkCreateEvent_mismatch` — the name is
  free, or denotes an event of the kind, or something else;
* `zwClose_some`, `zwClose_last` — a handle is closed, and the last one;
* `Refs` — the references on an object are those it had before the run and one for
  each open handle;
* `namedEvent_lifetime` — what follows for the events of a run.
-/

namespace Wdutf.Ob

open Wdutf.Action Wdutf.Rtl Wdutf.Transition

/-! ## The routines -/

/-- `L"\\BaseNamedObjects"`. -/
def baseNamedObjects : List Wchar :=
  [0x5C, 0x42, 0x61, 0x73, 0x65, 0x4E, 0x61, 0x6D, 0x65, 0x64, 0x4F, 0x62, 0x6A, 0x65, 0x63, 0x74,
    0x73]

/-- `DdkCreateEvent`; `memory` tells whether the allocation succeeds, and `notify` whether
`Type` is `NotificationEvent`. The object stands for the pointer and for the handle. -/
def ddkCreateEvent (memory : Bool) (eventName : UnicodeString) (notify : Bool) :
    ObM (Option ObjId) := do
  ddkAssert (decide (eventName ≠ []))
  if memory then
    let pObj ← ddkAllocObject (.event notify)
    let pEvent ← ddkCreateName eventName pObj baseNamedObjects
    if pEvent = pObj then ddkDereferenceObject pEvent
    if (← getObject pEvent).body = .event notify then pure (some pEvent)
    else
      ddkDereferenceObject pEvent
      pure none
  else pure none

/-- `IoCreateNotificationEvent`. -/
def ioCreateNotificationEvent (memory : Bool) (eventName : UnicodeString) : ObM (Option ObjId) :=
  ddkCreateEvent memory eventName true

/-- `IoCreateSynchronizationEvent`. -/
def ioCreateSynchronizationEvent (memory : Bool) (eventName : UnicodeString) :
    ObM (Option ObjId) :=
  ddkCreateEvent memory eventName false

/-! ## One call -/

/-- The state after a new event got its name, and gave up the reference for it. -/
def State.eventCreated (s : State) (notify : Bool) (path : UnicodeString) : State :=
  { s with
    objects := Function.update s.objects s.nextObject (some ⟨1, .event notify⟩)
    nextObject := s.nextObject + 1
    ddkNameList := ⟨s.nextName, s.nextObject, path⟩ :: s.ddkNameList
    nextName := s.nextName + 1 }

/-- The state after the last handle of an event was closed. -/
def State.eventClosed (s : State) (o : ObjId) : State :=
  { s with
    objects := Function.update s.objects o none
    ddkNameList := s.ddkNameList.filter fun e => e.object != o
    notes := .freed o :: s.notes }

section Calls

variable {s t : State} {name : UnicodeString} {notify : Bool} {o x : ObjId} {ob : Object}

theorem eventCreated_self (s : State) (notify : Bool) (path : UnicodeString) :
    (s.eventCreated notify path).objects s.nextObject = some ⟨1, .event notify⟩ :=
  Function.update_self ..

theorem eventCreated_of_ne (s : State) (notify : Bool) (path : UnicodeString)
    (h : x ≠ s.nextObject) : (s.eventCreated notify path).objects x = s.objects x :=
  Function.update_of_ne h ..

theorem eventClosed_self (s : State) (o : ObjId) : (s.eventClosed o).objects o = none :=
  Function.update_self ..

theorem eventClosed_of_ne (s : State) (h : x ≠ o) :
    (s.eventClosed o).objects x = s.objects x := Function.update_of_ne h ..

/-- The path of an event. -/
def eventPath (name : UnicodeString) : UnicodeString := canonicalPath name baseNamedObjects

/-- The assertions let the name pass. -/
def EventNameOk (name : UnicodeString) : Prop := name ≠ [] ∧ PathFits name baseNamedObjects

theorem Table.allocatedEvent (h : Table s) (notify : Bool) : Table (s.allocated (.event notify)) :=
  h.allocated (by simp)

/-- The new event is named, and gives up a reference. -/
theorem eventCreated_eq (s : State) (notify : Bool) (path : UnicodeString) :
    s.eventCreated notify path =
      ((s.allocated (.event notify)).named s.nextObject ⟨1, .event notify⟩ path).addRefs
        (Pi.single s.nextObject (-1)) := by
  have hnamed : ((s.allocated (.event notify)).named s.nextObject ⟨1, .event notify⟩ path).objects
      s.nextObject = some ⟨2, .event notify⟩ := named_self ..
  have hobjects : (s.eventCreated notify path).objects =
      (((s.allocated (.event notify)).named s.nextObject ⟨1, .event notify⟩ path).addRefs
        (Pi.single s.nextObject (-1))).objects := by
    rw [← put_eq_addRefs hnamed]
    simp [State.put, State.named, State.allocated, State.eventCreated]
  exact State.ext hobjects rfl rfl rfl rfl rfl rfl

theorem Table.eventCreated (h : Table s) (notify : Bool) {path : UnicodeString}
    (hnul : ∀ c ∈ path, c ≠ 0) : Table (s.eventCreated notify path) := by
  have hnamed := (h.allocatedEvent notify).named (allocated_self s _) (by simp) h.unnamed_fresh hnul
  rw [eventCreated_eq]
  exact hnamed.addRef (named_self ..) (by simp)

theorem Table.eventClosed (h : Table s) (o : ObjId) : Table (s.eventClosed o) := by
  refine h.sublist List.filter_sublist rfl (Nat.le_refl _) ?_ ?_
  · intro x ob hob
    by_cases hx : x = o
    · rw [hx, eventClosed_self] at hob
      cases hob
    · rw [eventClosed_of_ne s hx] at hob
      exact ⟨ob, hob, rfl⟩
  · intro e he
    have hkeep : e ∈ s.ddkNameList ∧ e.object ≠ o := by
      simpa [State.eventClosed, List.mem_filter] using he
    rw [eventClosed_of_ne s hkeep.2]
    exact h.listed e hkeep.1

/-- `DdkCreateEvent` behind its allocation. -/
theorem ddkCreateEvent_eq (hname : name ≠ []) (s : State) :
    ddkCreateEvent true name notify s =
      (do
        let pEvent ← ddkCreateName name s.nextObject baseNamedObjects
        if pEvent = s.nextObject then ddkDereferenceObject pEvent
        if (← getObject pEvent).body = .event notify then pure (some pEvent)
        else
          ddkDereferenceObject pEvent
          pure none : ObM (Option ObjId)) (s.allocated (.event notify)) := by
  rw [ddkCreateEvent, bind_ok (ddkAssert_name hname s), if_pos rfl,
    bind_ok (ddkAllocObject_run _ s)]

theorem ddkCreateEvent_noMemory (hname : name ≠ []) (s : State) :
    ddkCreateEvent false name notify s = .ok none s := by
  rw [ddkCreateEvent, bind_ok (ddkAssert_name hname s)]
  rfl

/-- The name is free. -/
theorem ddkCreateEvent_free (h : Table s) (hname : EventNameOk name)
    (hfind : s.findLive (eventPath name) = none) :
    ddkCreateEvent true name notify s =
      .ok (some s.nextObject) (s.eventCreated notify (eventPath name)) := by
  have hcreate : ddkCreateName name s.nextObject baseNamedObjects (s.allocated (.event notify)) =
      .ok s.nextObject ((s.allocated (.event notify)).named s.nextObject ⟨1, .event notify⟩
        (eventPath name)) :=
    h.createName_free (h.allocatedEvent notify) (List.length_pos_of_ne_nil hname.1) hname.2 hfind
  have hnamed : ((s.allocated (.event notify)).named s.nextObject ⟨1, .event notify⟩
      (eventPath name)).objects s.nextObject = some ⟨2, .event notify⟩ := named_self ..
  -- the reference of the name is given up
  have hderef := ddkDereferenceObject_addRefs hnamed (by simp)
  rw [← eventCreated_eq] at hderef
  rw [ddkCreateEvent_eq hname.1, bind_ok hcreate]
  simp only [if_true, bind_ok hderef, bind_ok (getObject_ok (eventCreated_self ..))]
  rfl

/-- The name denotes an event of the kind. -/
theorem ddkCreateEvent_opened (h : Table s) (hname : EventNameOk name)
    (hfind : s.findLive (eventPath name) = some o) (hob : s.objects o = some ob)
    (hbody : ob.body = .event notify) :
    ddkCreateEvent true name notify s = .ok (some o) (s.collided.addRefs (refOn (some o))) := by
  have hcreate := h.createName_taken (h.allocatedEvent notify) (h.destroyable trivial)
    (List.length_pos_of_ne_nil hname.1) hname.2 hfind
  have hget := addRefs_some (s := s.collided) (f := refOn (some o)) hob
  rw [ddkCreateEvent_eq hname.1, bind_ok hcreate, if_neg (h.ne_fresh hob)]
  show (getObject o >>= _) _ = _
  rw [bind_ok (getObject_ok hget), if_pos hbody]
  rfl

/-- The name denotes something else: the new event is gone, and nothing has changed. -/
theorem ddkCreateEvent_mismatch (h : Table s) (hname : EventNameOk name)
    (hfind : s.findLive (eventPath name) = some o) (hob : s.objects o = some ob)
    (hbody : ob.body ≠ .event notify) :
    ddkCreateEvent true name notify s = .ok none s.collided := by
  have hcreate := h.createName_taken (h.allocatedEvent notify) (h.destroyable trivial)
    (List.length_pos_of_ne_nil hname.1) hname.2 hfind
  have hget := addRefs_some (s := s.collided) (f := refOn (some o)) hob
  have hpos := h.findLive_pos hfind hob
  have hderef := ddkDereferenceObject_addRefs hget (by simp only [refOn_self]; omega)
  rw [addRefs_addRefs, refOn_add_neg, addRefs_zero] at hderef
  rw [ddkCreateEvent_eq hname.1, bind_ok hcreate, if_neg (h.ne_fresh hob)]
  show (getObject o >>= _) _ = _
  rw [bind_ok (getObject_ok hget), if_neg hbody, bind_ok hderef]
  rfl

/-- What an open that returns can have done. -/
theorem ddkCreateEvent_cases (h : Table s) {memory : Bool} {r : Option ObjId}
    (hrun : ddkCreateEvent memory name notify s = .ok r t) :
    (r = none ∧ (t = s ∨ t = s.collided)) ∨
    (s.findLive (eventPath name) = none ∧ r = some s.nextObject ∧
      t = s.eventCreated notify (eventPath name)) ∨
    ∃ o ob, s.findLive (eventPath name) = some o ∧ s.objects o = some ob ∧
      ob.body = .event notify ∧ r = some o ∧ t = s.collided.addRefs (refOn (some o)) := by
  have hnonempty : name ≠ [] := by simpa using (ddkAssert_inv hrun).1
  cases memory with
  | false =>
    rcases result_eq (ddkCreateEvent_noMemory hnonempty s) hrun with ⟨rfl, rfl⟩
    exact Or.inl ⟨rfl, Or.inl rfl⟩
  | true =>
    have hname : EventNameOk name := by
      refine ⟨hnonempty, ?_⟩
      by_contra hno
      rw [ddkCreateEvent_eq hnonempty,
        bind_error (createName_fails (fun hok => hno hok.2) _)] at hrun
      cases hrun
    cases hfind : s.findLive (eventPath name) with
    | none =>
      rcases result_eq (ddkCreateEvent_free h hname hfind) hrun with ⟨rfl, rfl⟩
      exact Or.inr (Or.inl ⟨rfl, rfl, rfl⟩)
    | some o =>
      rcases h.findLive_held hfind with ⟨ob, hob, -⟩
      by_cases hbody : ob.body = .event notify
      · rcases result_eq (ddkCreateEvent_opened h hname hfind hob hbody) hrun with ⟨rfl, rfl⟩
        exact Or.inr (Or.inr ⟨o, ob, rfl, hob, hbody, rfl, rfl⟩)
      · rcases result_eq (ddkCreateEvent_mismatch h hname hfind hob hbody) hrun with ⟨rfl, rfl⟩
        exact Or.inl ⟨rfl, Or.inr rfl⟩

/-- The close of a handle that is not the last one. -/
theorem zwClose_some {rc : ℤ} (hob : s.objects o = some ⟨rc, .event notify⟩) (hpos : 2 ≤ rc) :
    zwClose o s = .ok true (s.addRefs (Pi.single o (-1))) := by
  have hhandle : isHandleObject ⟨rc, .event notify⟩ = true := by
    simp [isHandleObject]
    omega
  have hderef : obfDereferenceObject o s = .ok () (s.addRefs (Pi.single o (-1))) := by
    rw [obfDereferenceObject, bind_ok (fromPointer_ok hob (by show 1 ≤ rc; omega)),
      ddkDereferenceObject_addRefs hob (by show rc ≠ 1; omega)]
  rw [zwClose, bind_ok (getObject_ok hob), if_pos hhandle, bind_ok hderef]
  rfl

/-- The close of the last handle: the name goes, and the event is freed. -/
theorem zwClose_last (h : Table s) (hob : s.objects o = some ⟨1, .event notify⟩) :
    zwClose o s = .ok true (s.eventClosed o) := by
  have hob' : (s.put o (some ⟨0, .event notify⟩)).objects o = some ⟨0, .event notify⟩ := put_self ..
  -- the entry of the table takes the count of the dying event below 0
  obtain ⟨t, hfree, hnames, hsame, hobjects, hnotes⟩ :=
    freeObject_drops (s := s.put o (some ⟨0, .event notify⟩)) (derefLevels_releases s.nextObject)
      h.addrs h.objects hob' trivial (by simp)
  have ht : t = s.eventClosed o := by
    refine State.ext ?_ hsame.nextObject hnames hsame.nextName hsame.work hsame.uniqueId hnotes
    funext x
    rw [hobjects x]
    by_cases hx : x = o
    · rw [if_pos hx, hx, eventClosed_self]
    · rw [if_neg hx, put_of_ne _ _ hx, eventClosed_of_ne s hx]
  have hderef : obfDereferenceObject o s = .ok () (s.eventClosed o) := by
    rw [obfDereferenceObject, bind_ok (fromPointer_ok hob (by simp)), ddkDereferenceObject,
      get_bind, derefLevels_one hob rfl, ← ht]
    exact hfree
  rw [zwClose, bind_ok (getObject_ok hob),
    if_pos (show isHandleObject ⟨1, .event notify⟩ = true from rfl), bind_ok hderef]
  rfl

end Calls

/-! ## Runs -/

namespace NamedEvent

/-- The calls of a run: an open of either kind, and a close. -/
inductive Event where
  | create (memory : Bool) (eventName : UnicodeString) (notify : Bool)
  | close (handle : ObjId)

/-- The action of an open. -/
def create (memory : Bool) (eventName : UnicodeString) (notify : Bool) : ObM (Option ObjId) :=
  if notify then ioCreateNotificationEvent memory eventName
  else ioCreateSynchronizationEvent memory eventName

/-- The state, and the handles that are open. -/
structure World where
  state : State
  handles : List ObjId

/-- A call that returns; the label has the event that an open has returned. A handle is
closed only while it is open. -/
inductive Step : World → Event × Option ObjId → World → Prop
  | created {s t : State} {handles : List ObjId} {memory : Bool} {eventName : UnicodeString}
      {notify : Bool} {r : Option ObjId} : create memory eventName notify s = .ok r t →
      Step ⟨s, handles⟩ (.create memory eventName notify, r) ⟨t, r.toList ++ handles⟩
  | closed {s t : State} {handles : List ObjId} {handle : ObjId} {valid : Bool} :
      handle ∈ handles → zwClose handle s = .ok valid t →
      Step ⟨s, handles⟩ (.close handle, none) ⟨t, handles.erase handle⟩

/-- No handle is open yet. What `s₀` holds may be of any type. -/
def Init (s₀ : State) (w : World) : Prop := w = ⟨s₀, []⟩

/-- Objects that were allocated since `s₀` and are gone. -/
def Gone (s₀ s : State) (o : ObjId) : Prop :=
  s₀.nextObject ≤ o ∧ o < s.nextObject ∧ s.objects o = none

instance (s₀ s : State) (o : ObjId) : Decidable (Gone s₀ s o) := inferInstanceAs (Decidable (_ ∧ _))

/-- Since `s₀`, each object that is gone was freed once, and no other was freed. -/
def FreedOnce (s₀ s : State) : Prop :=
  ∃ added, s.notes = added ++ s₀.notes ∧
    ∀ o, added.count (.freed o) = if Gone s₀ s o then 1 else 0

/-- The references and names of a run that has started in `s₀`. -/
structure Refs (s₀ : State) (w : World) : Prop where
  table : Table w.state
  next : s₀.nextObject ≤ w.state.nextObject
  /-- Objects from before the run have one more reference for each handle. -/
  old : ∀ o, o < s₀.nextObject → w.state.objects o =
    (s₀.objects o).map fun ob => { ob with refcount := ob.refcount + w.handles.count o }
  oldHeld : ∀ o ∈ w.handles, o < s₀.nextObject → ∃ rc notify,
    s₀.objects o = some ⟨rc, .event notify⟩ ∧ 1 ≤ rc
  /-- Objects of the run are named events, and have only the references of their handles. -/
  new : ∀ o ob, s₀.nextObject ≤ o → w.state.objects o = some ob →
    ob.refcount = w.handles.count o ∧ 1 ≤ ob.refcount ∧ (∃ notify, ob.body = .event notify) ∧
      ∃ e ∈ w.state.ddkNameList, e.object = o
  handles : ∀ o ∈ w.handles, w.state.objects o ≠ none
  /-- No other live object is under the path of an event of the run. -/
  sole : ∀ e ∈ w.state.ddkNameList, s₀.nextObject ≤ e.object → ∀ e' ∈ w.state.ddkNameList,
    folded e'.name = folded e.name → Live w.state e'.object → e'.object = e.object
  notes : FreedOnce s₀ w.state

/-- What an open has returned is what its path denotes, as long as it is live. -/
structure Opened (ls : List (Event × Option ObjId)) (s : State) : Prop where
  found : ∀ memory name notify o, (.create memory name notify, some o) ∈ ls → Live s o →
    s.findLive (eventPath name) = some o ∧ ∃ rc, s.objects o = some ⟨rc, .event notify⟩
  past : ∀ memory name notify o, (.create memory name notify, some o) ∈ ls → o < s.nextObject

theorem create_eq (memory : Bool) (eventName : UnicodeString) (notify : Bool) :
    create memory eventName notify = ddkCreateEvent memory eventName notify := by
  cases notify <;> rfl

theorem init_refs {s₀ : State} (h : Table s₀) {w : World} (hinit : Init s₀ w) : Refs s₀ w := by
  rcases hinit with rfl
  constructor
  case table => exact h
  case next => exact Nat.le_refl _
  case old =>
    intro o _
    cases s₀.objects o <;> simp
  case oldHeld => simp
  case new =>
    intro o ob ho hob
    exact absurd (h.heap o (by rw [hob]; simp)) (Nat.not_lt.2 ho)
  case handles => simp
  case sole =>
    intro e he ho
    rcases h.listed e he with ⟨ob, hob, -⟩
    exact absurd (h.heap e.object (by rw [hob]; simp)) (Nat.not_lt.2 ho)
  case notes =>
    refine ⟨[], rfl, fun o => ?_⟩
    rw [if_neg (fun hgone => absurd hgone.2.1 (Nat.not_lt.2 hgone.1))]
    rfl

section Steps

variable {s₀ s t : State} {handles : List ObjId} {o : ObjId} {ob : Object} {path : UnicodeString}

theorem FreedOnce.same (h : FreedOnce s₀ s) (hnotes : t.notes = s.notes)
    (hgone : ∀ x, Gone s₀ t x ↔ Gone s₀ s x) : FreedOnce s₀ t := by
  rcases h with ⟨added, hadded, hcount⟩
  refine ⟨added, hnotes.trans hadded, fun x => ?_⟩
  rw [hcount x]
  simp only [hgone x]

theorem FreedOnce.freed (h : FreedOnce s₀ s) (hnotes : t.notes = .freed o :: s.notes)
    (hbefore : ¬Gone s₀ s o) (hafter : Gone s₀ t o)
    (hgone : ∀ x, x ≠ o → (Gone s₀ t x ↔ Gone s₀ s x)) : FreedOnce s₀ t := by
  rcases h with ⟨added, hadded, hcount⟩
  refine ⟨.freed o :: added, by rw [hnotes, hadded]; rfl, fun x => ?_⟩
  by_cases hx : x = o
  · rw [hx, List.count_cons_self, hcount o, if_neg hbefore, if_pos hafter]
  · rw [List.count_cons_of_ne (fun heq => hx (Note.freed.inj heq).symm), hcount x]
    simp only [hgone x hx]

theorem lt_succ_iff_of_ne {x n : ObjId} (hx : x ≠ n) : x < n + 1 ↔ x < n :=
  ⟨fun hlt => Nat.lt_of_le_of_ne (Nat.le_of_lt_succ hlt) hx, Nat.lt_succ_of_lt⟩

/-- An event that was allocated and destroyed again. -/
theorem Refs.collided (h : Refs s₀ ⟨s, handles⟩) : Refs s₀ ⟨s.collided, handles⟩ := by
  refine { h with table := h.table.collided, next := Nat.le_succ_of_le h.next, notes := ?_ }
  refine h.notes.freed (o := s.nextObject) rfl (fun hgone => absurd hgone.2.1 (Nat.lt_irrefl _))
    ⟨h.next, Nat.lt_succ_self _, h.table.fresh⟩ fun x hx => ?_
  exact and_congr_right fun _ => and_congr_left fun _ => lt_succ_iff_of_ne hx

/-- A reference for a handle, taken or given back. The object stays live. -/
theorem Refs.addRefs (h : Refs s₀ ⟨s, handles⟩) {handles' : List ObjId} {k : ℤ}
    (hob : s.objects o = some ob) (hpos : 1 ≤ ob.refcount) (hpos' : 1 ≤ ob.refcount + k)
    (hself : (handles'.count o : ℤ) = handles.count o + k)
    (hother : ∀ x, x ≠ o → handles'.count x = handles.count x)
    (hheld : o < s₀.nextObject → ∃ rc notify, s₀.objects o = some ⟨rc, .event notify⟩ ∧ 1 ≤ rc) :
    Refs s₀ ⟨s.addRefs (Pi.single o k), handles'⟩ := by
  have hcount : ∀ x, (handles'.count x : ℤ) = handles.count x + (Pi.single o k : ObjId → ℤ) x := by
    intro x
    by_cases hx : x = o
    · rw [hx, Pi.single_eq_same, hself]
    · rw [Pi.single_eq_of_ne hx, hother x hx, Int.add_zero]
  have hmem : ∀ x ∈ handles', x = o ∨ x ∈ handles := by
    intro x hx
    by_cases hxo : x = o
    · exact Or.inl hxo
    · right
      rw [← List.count_pos_iff, ← hother x hxo, List.count_pos_iff]
      exact hx
  have hlive : ∀ x, Live (s.addRefs (Pi.single o k)) x ↔ Live s x := by
    refine live_addRefs ⟨ob, hob, by omega⟩ ⟨_, addRefs_some hob, ?_⟩
    show ob.refcount + (Pi.single o k : ObjId → ℤ) o ≠ 0
    rw [Pi.single_eq_same]
    omega
  constructor
  case table => exact h.table.addRef hob (by omega)
  case next => exact h.next
  case old =>
    intro x hx
    show (s.objects x).map _ = _
    rw [show s.objects x = _ from h.old x hx, Option.map_map]
    simp only [Function.comp_def, hcount x, Int.add_assoc]
  case oldHeld =>
    intro x hx hlt
    rcases hmem x hx with rfl | hx
    · exact hheld hlt
    · exact h.oldHeld x hx hlt
  case new =>
    intro x obx' hx hobx'
    rcases Option.map_eq_some_iff.1 hobx' with ⟨obx, hobx, rfl⟩
    rcases h.new x obx hx hobx with ⟨hrc, hone, hbody, hnamed⟩
    refine ⟨?_, ?_, hbody, hnamed⟩
    · show obx.refcount + (Pi.single o k : ObjId → ℤ) x = handles'.count x
      rw [hcount x, hrc]
    · by_cases hxo : x = o
      · rw [hxo, hob] at hobx
        rcases Option.some.inj hobx with rfl
        rw [hxo, Pi.single_eq_same]
        exact hpos'
      · rw [Pi.single_eq_of_ne hxo]
        exact (Int.add_zero _).symm ▸ hone
  case handles =>
    intro x hx
    rw [ne_eq, addRefs_eq_none]
    rcases hmem x hx with rfl | hx
    · rw [hob]
      simp
    · exact h.handles x hx
  case sole =>
    intro e he hge e' he' hfold hl
    exact h.sole e he hge e' he' hfold ((hlive _).1 hl)
  case notes =>
    refine h.notes.same rfl fun x => ?_
    rw [Gone, Gone, addRefs_eq_none]
    rfl

/-- A new event on a free path. -/
theorem Refs.created (h : Refs s₀ ⟨s, handles⟩) (notify : Bool) (hnul : ∀ c ∈ path, c ≠ 0)
    (hfind : s.findLive path = none) :
    Refs s₀ ⟨s.eventCreated notify path, s.nextObject :: handles⟩ := by
  have hnext : s₀.nextObject ≤ s.nextObject := h.next
  have hfresh : s.objects s.nextObject = none := h.table.fresh
  have hself := eventCreated_self s notify path
  have hold : ∀ {x}, x ≠ s.nextObject → (s.eventCreated notify path).objects x = s.objects x :=
    fun hx => eventCreated_of_ne s notify path hx
  have hnone : handles.count s.nextObject = 0 :=
    List.count_eq_zero_of_not_mem fun hmem => h.handles _ hmem hfresh
  have hcount : ∀ {x}, x ≠ s.nextObject → (s.nextObject :: handles).count x = handles.count x :=
    fun hx => List.count_cons_of_ne hx.symm
  have hlive : ∀ e ∈ s.ddkNameList, Live (s.eventCreated notify path) e.object ↔
      Live s e.object := by
    intro e he
    exact live_of_eq (hold (h.table.listed_ne he))
  have hfree := findLive_eq_none.1 hfind
  constructor
  case table => exact h.table.eventCreated notify hnul
  case next => exact Nat.le_succ_of_le h.next
  case old =>
    intro x hx
    have hxn : x ≠ s.nextObject := Nat.ne_of_lt (Nat.lt_of_lt_of_le hx hnext)
    show (s.eventCreated notify path).objects x = _
    rw [hold hxn, hcount hxn]
    exact h.old x hx
  case oldHeld =>
    intro x hx hlt
    rcases List.mem_cons.1 hx with rfl | hx
    · exact absurd hlt (Nat.not_lt.2 hnext)
    · exact h.oldHeld x hx hlt
  case new =>
    intro x obx hx hobx
    by_cases hxn : x = s.nextObject
    · subst hxn
      rw [show (s.eventCreated notify path).objects _ = _ from hself] at hobx
      rcases Option.some.inj hobx with rfl
      refine ⟨?_, by simp, ⟨notify, rfl⟩, _, List.mem_cons_self .., rfl⟩
      rw [List.count_cons_self, hnone]
      rfl
    · rw [show (s.eventCreated notify path).objects x = _ from hold hxn] at hobx
      rcases h.new x obx hx hobx with ⟨hrc, hone, hbody, e, he, heo⟩
      rw [hcount hxn]
      exact ⟨hrc, hone, hbody, e, List.mem_cons_of_mem _ he, heo⟩
  case handles =>
    intro x hx
    show (s.eventCreated notify path).objects x ≠ none
    rcases List.mem_cons.1 hx with rfl | hx
    · rw [hself]
      simp
    · have hne : x ≠ s.nextObject := fun heq => h.handles x hx (heq ▸ hfresh)
      rw [hold hne]
      exact h.handles x hx
  case sole =>
    -- before the call no live object was under the path
    intro e he hge e' he' hfold hl
    rcases List.mem_cons.1 he with rfl | he
    · rcases List.mem_cons.1 he' with rfl | he'
      · rfl
      · exact absurd ((hlive e' he').1 hl) (hfree e' he' hfold.symm)
    · rcases List.mem_cons.1 he' with rfl | he'
      · rcases h.table.listed e he with ⟨obe, hobe, -⟩
        have hpos := (h.new e.object obe hge hobe).2.1
        exact absurd ⟨obe, hobe, by omega⟩ (hfree e he hfold)
      · exact h.sole e he hge e' he' hfold ((hlive e' he').1 hl)
  case notes =>
    refine h.notes.same rfl fun x => ?_
    by_cases hxn : x = s.nextObject
    · rw [hxn]
      refine iff_of_false (fun hgone => ?_) fun hgone => absurd hgone.2.1 (Nat.lt_irrefl _)
      rw [Gone, hself] at hgone
      cases hgone.2.2
    · rw [Gone, Gone, hold hxn]
      exact and_congr_right fun _ => and_congr_left fun _ => lt_succ_iff_of_ne hxn

/-- An event of the run loses its last handle. -/
theorem Refs.closed (h : Refs s₀ ⟨s, handles⟩) (hge : s₀.nextObject ≤ o)
    (hob : s.objects o = some ob) (hone : handles.count o = 1) :
    Refs s₀ ⟨s.eventClosed o, handles.erase o⟩ := by
  have hold : ∀ {x}, x ≠ o → (s.eventClosed o).objects x = s.objects x :=
    fun hx => eventClosed_of_ne s hx
  have hgone : o ∉ handles.erase o := by
    rw [← List.count_pos_iff, List.count_erase_self, hone]
    decide
  have hcount : ∀ {x}, x ≠ o → (handles.erase o).count x = handles.count x :=
    fun hx => List.count_erase_of_ne hx
  have hmem : ∀ {e : Name}, e ∈ (s.eventClosed o).ddkNameList ↔
      e ∈ s.ddkNameList ∧ e.object ≠ o := by
    intro e
    simp [State.eventClosed, List.mem_filter]
  constructor
  case table => exact h.table.eventClosed o
  case next => exact h.next
  case old =>
    intro x hx
    have hxo : x ≠ o := Nat.ne_of_lt (Nat.lt_of_lt_of_le hx hge)
    show (s.eventClosed o).objects x = _
    rw [hold hxo, hcount hxo]
    exact h.old x hx
  case oldHeld => exact fun x hx => h.oldHeld x (List.mem_of_mem_erase hx)
  case new =>
    intro x obx hx hobx
    have hxo : x ≠ o := by
      rintro rfl
      rw [show (s.eventClosed x).objects x = none from eventClosed_self s x] at hobx
      cases hobx
    rw [show (s.eventClosed o).objects x = _ from hold hxo] at hobx
    rcases h.new x obx hx hobx with ⟨hrc, hpos, hbody, e, he, rfl⟩
    rw [hcount hxo]
    exact ⟨hrc, hpos, hbody, e, hmem.2 ⟨he, hxo⟩, rfl⟩
  case handles =>
    intro x hx
    have hxo : x ≠ o := fun heq => hgone (heq ▸ hx)
    show (s.eventClosed o).objects x ≠ none
    rw [hold hxo]
    exact h.handles x (List.mem_of_mem_erase hx)
  case sole =>
    intro e he hgee e' he' hfold hl
    rcases hmem.1 he with ⟨he, -⟩
    rcases hmem.1 he' with ⟨he', hne'⟩
    exact h.sole e he hgee e' he' hfold ((live_of_eq (hold hne')).1 hl)
  case notes =>
    have hlt : o < s.nextObject := h.table.heap o (by show s.objects o ≠ none; rw [hob]; simp)
    refine h.notes.freed (o := o) rfl ?_ ⟨hge, hlt, eventClosed_self s o⟩ fun x hx => ?_
    · rw [Gone, hob]
      rintro ⟨-, -, hnone⟩
      cases hnone
    · rw [Gone, Gone, hold hx]
      rfl

/-- What an open handle refers to. Only an event of the run can have its last handle. -/
theorem Refs.handle (h : Refs s₀ ⟨s, handles⟩) (hmem : o ∈ handles) :
    ∃ rc notify, s.objects o = some ⟨rc, .event notify⟩ ∧
      (rc = 1 ∧ s₀.nextObject ≤ o ∧ handles.count o = 1 ∨ 2 ≤ rc) := by
  have hcount : 1 ≤ handles.count o := List.count_pos_iff.2 hmem
  by_cases ho : o < s₀.nextObject
  · rcases h.oldHeld o hmem ho with ⟨rc, notify, hob, hpos⟩
    have hnow : s.objects o = _ := h.old o ho
    rw [hob] at hnow
    exact ⟨_, notify, hnow, Or.inr (by show 2 ≤ rc + (handles.count o : ℤ); omega)⟩
  · have hge := Nat.le_of_not_lt ho
    rcases Option.ne_none_iff_exists'.1 (h.handles o hmem) with ⟨⟨rc, body⟩, hob⟩
    rcases h.new o _ hge hob with ⟨hrc, hpos, ⟨notify, rfl⟩, -⟩
    replace hrc : rc = handles.count o := hrc
    refine ⟨rc, notify, hob, ?_⟩
    rcases Nat.lt_or_ge 1 (handles.count o) with hmany | hlast
    · exact Or.inr (by omega)
    · exact Or.inl ⟨by omega, hge, by omega⟩

/-- An open that finds an event. -/
theorem Refs.opened (h : Refs s₀ ⟨s, handles⟩) {notify : Bool} (hfind : s.findLive path = some o)
    (hob : s.objects o = some ob) (hbody : ob.body = .event notify) :
    Refs s₀ ⟨s.collided.addRefs (refOn (some o)), o :: handles⟩ := by
  have hpos : 1 ≤ ob.refcount := h.table.findLive_pos hfind hob
  apply h.collided.addRefs hob hpos
  case hpos' => omega
  case hself => rw [List.count_cons_self]; omega
  case hother => exact fun x hx => List.count_cons_of_ne hx.symm
  case hheld =>
    intro ho
    have hnow : s.objects o = _ := h.old o ho
    rw [hob] at hnow
    rcases Option.map_eq_some_iff.1 hnow.symm with ⟨⟨rc, body⟩, hold, rfl⟩
    replace hbody : body = .event notify := hbody
    subst hbody
    by_cases hmem : o ∈ handles
    · exact h.oldHeld o hmem ho
    · -- without a handle the event has the references it had
      refine ⟨rc, notify, hold, ?_⟩
      replace hpos : 1 ≤ rc + (handles.count o : ℤ) := hpos
      rw [List.count_eq_zero_of_not_mem hmem] at hpos
      omega

/-- A close of a handle that is open. -/
theorem Refs.close (h : Refs s₀ ⟨s, handles⟩) (hmem : o ∈ handles) :
    ∃ t, zwClose o s = .ok true t ∧ Refs s₀ ⟨t, handles.erase o⟩ ∧
      (t = s.eventClosed o ∨ t = s.addRefs (Pi.single o (-1)) ∧ Live s o ∧ Live t o) := by
  rcases h.handle hmem with ⟨rc, notify, hob, ⟨rfl, hge, hone⟩ | hrc⟩
  · exact ⟨_, zwClose_last h.table hob, h.closed hge hob hone, Or.inl rfl⟩
  · have hleft := addRefs_some (f := Pi.single o (-1)) hob
    rw [Pi.single_eq_same] at hleft
    refine ⟨_, zwClose_some hob hrc, ?_, Or.inr ⟨rfl, ⟨_, hob, ?_⟩, _, hleft, ?_⟩⟩
    · have hcount : 1 ≤ handles.count o := List.count_pos_iff.2 hmem
      apply h.addRefs hob (by show 1 ≤ rc; omega)
      case hpos' => show 1 ≤ rc + -1; omega
      case hself => rw [List.count_erase_self]; omega
      case hother => exact fun x hx => List.count_erase_of_ne hx
      case hheld =>
        intro ho
        exact h.oldHeld o hmem ho
    · show rc ≠ 0
      omega
    · show rc + -1 ≠ 0
      omega

theorem step_refs {w w' : World} {l : Event × Option ObjId} (h : Refs s₀ w) (hstep : Step w l w') :
    Refs s₀ w' := by
  cases hstep with
  | created hrun =>
    rw [create_eq] at hrun
    rcases ddkCreateEvent_cases h.table hrun with
      ⟨rfl, rfl | rfl⟩ | ⟨hfind, rfl, rfl⟩ | ⟨o, ob, hfind, hob, hbody, rfl, rfl⟩
    · exact h
    · exact h.collided
    · exact h.created _ (fun c hc => canonicalPath_ne_zero hc) hfind
    · exact h.opened hfind hob hbody
  | closed hmem hrun =>
    rcases h.close hmem with ⟨t, hclose, hrefs, -⟩
    rcases result_eq hclose hrun with ⟨-, rfl⟩
    exact hrefs

/-! ### What a path denotes -/

/-- The objects that are still live in `t` have their paths and bodies. -/
structure Kept (s t : State) : Prop where
  next : s.nextObject ≤ t.nextObject
  live : ∀ x, x < s.nextObject → Live t x → Live s x
  found : ∀ path x, x < s.nextObject → Live t x → s.findLive path = some x →
    t.findLive path = some x
  body : ∀ x rc body, x < s.nextObject → Live t x → s.objects x = some ⟨rc, body⟩ →
    ∃ rc', t.objects x = some ⟨rc', body⟩

theorem kept_collided (s : State) : Kept s s.collided where
  next := Nat.le_succ _
  live _ _ hl := hl
  found _ _ _ _ hfind := hfind
  body _ rc _ _ _ hobx := ⟨rc, hobx⟩

/-- A reference on an object that is live before and after. -/
theorem kept_addRefs {k : ℤ} (hbefore : Live s o) (hafter : Live (s.addRefs (Pi.single o k)) o) :
    Kept s (s.addRefs (Pi.single o k)) := by
  have hsame := live_addRefs hbefore hafter
  constructor
  case next => exact Nat.le_refl _
  case live => exact fun x _ => (hsame x).1
  case found =>
    intro path x _ _ hfind
    have hsamePath := findLive_congr (s := s) (t := s.addRefs (Pi.single o k)) rfl
      (fun e _ => hsame e.object) path
    exact hsamePath.trans hfind
  case body => exact fun x rc body _ _ hobx => ⟨_, addRefs_some hobx⟩

theorem kept_eventCreated (h : Table s) (notify : Bool) (hfind : s.findLive path = none) :
    Kept s (s.eventCreated notify path) := by
  have hold : ∀ {x}, x < s.nextObject → (s.eventCreated notify path).objects x = s.objects x :=
    fun hx => eventCreated_of_ne s notify path (Nat.ne_of_lt hx)
  constructor
  case next => exact Nat.le_succ _
  case live =>
    intro x hx hl
    exact (live_of_eq (hold hx)).1 hl
  case found =>
    intro path' x hx hl hfind'
    -- the new entry is under another path, or this one would have been free
    have hfold : folded path' ≠ folded path := by
      intro heq
      rw [findLive_folded heq, hfind] at hfind'
      cases hfind'
    rw [← hfind']
    apply findLive_cons_of_ne hfold rfl
    intro e he
    exact live_of_eq (eventCreated_of_ne s notify path (h.listed_ne he))
  case body =>
    intro x rc body hx _ hobx
    exact ⟨rc, (hold hx).trans hobx⟩

theorem kept_eventClosed (s : State) (o : ObjId) : Kept s (s.eventClosed o) := by
  have hne : ∀ {x}, Live (s.eventClosed o) x → x ≠ o := by
    rintro x ⟨ob, hob, -⟩ rfl
    rw [eventClosed_self] at hob
    cases hob
  constructor
  case next => exact Nat.le_refl _
  case live =>
    intro x _ hl
    exact (live_of_eq (eventClosed_of_ne s (hne hl))).1 hl
  case found =>
    intro path x _ hl hfind
    refine findLive_filter rfl ?_ hfind (hne hl)
    intro e _ heo
    exact live_of_eq (eventClosed_of_ne s heo)
  case body =>
    intro x rc body _ hl hobx
    exact ⟨rc, (eventClosed_of_ne s (hne hl)).trans hobx⟩

variable {ls : List (Event × Option ObjId)} {l : Event × Option ObjId}

theorem Opened.kept (h : Opened ls s) (hkept : Kept s t) : Opened ls t where
  found := by
    intro memory name notify o hl hlive
    have hlt := h.past memory name notify o hl
    rcases h.found memory name notify o hl (hkept.live o hlt hlive) with ⟨hfind, rc, hob⟩
    exact ⟨hkept.found _ o hlt hlive hfind, hkept.body o rc _ hlt hlive hob⟩
  past memory name notify o hl := Nat.lt_of_lt_of_le (h.past memory name notify o hl) hkept.next

theorem Opened.snoc_none (h : Opened ls s) (hnone : l.2 = none) : Opened (ls ++ [l]) s := by
  have hold : ∀ {event : Event} {o : ObjId}, (event, some o) ∈ ls ++ [l] →
      (event, some o) ∈ ls := by
    intro event o hmem
    rcases List.mem_append.1 hmem with hmem | hmem
    · exact hmem
    · rw [← List.mem_singleton.1 hmem] at hnone
      cases hnone
  exact ⟨fun memory name notify o hmem => h.found memory name notify o (hold hmem),
    fun memory name notify o hmem => h.past memory name notify o (hold hmem)⟩

theorem Opened.snoc_some (h : Opened ls s) {memory notify : Bool} {name : UnicodeString} {rc : ℤ}
    (hfind : s.findLive (eventPath name) = some o) (hob : s.objects o = some ⟨rc, .event notify⟩)
    (hlt : o < s.nextObject) : Opened (ls ++ [(.create memory name notify, some o)]) s where
  found := by
    intro memory' name' notify' o' hmem hlive
    rcases List.mem_append.1 hmem with hmem | hmem
    · exact h.found memory' name' notify' o' hmem hlive
    · cases List.mem_singleton.1 hmem
      exact ⟨hfind, rc, hob⟩
  past := by
    intro memory' name' notify' o' hmem
    rcases List.mem_append.1 hmem with hmem | hmem
    · exact h.past memory' name' notify' o' hmem
    · cases List.mem_singleton.1 hmem
      exact hlt

theorem Opened.created (h : Opened ls s) (htable : Table s) {memory notify : Bool}
    {name : UnicodeString} (hfind : s.findLive (eventPath name) = none) :
    Opened (ls ++ [(.create memory name notify, some s.nextObject)])
      (s.eventCreated notify (eventPath name)) := by
  have hself := eventCreated_self s notify (eventPath name)
  refine (h.kept (kept_eventCreated htable notify hfind)).snoc_some ?_ hself (Nat.lt_succ_self _)
  exact findLive_cons (s := s) (e := ⟨s.nextName, s.nextObject, eventPath name⟩) rfl rfl
    ⟨_, hself, by simp⟩

theorem Opened.opened (h : Opened ls s) (htable : Table s) {memory notify : Bool}
    {name : UnicodeString} (hfind : s.findLive (eventPath name) = some o)
    (hob : s.objects o = some ob) (hbody : ob.body = .event notify) :
    Opened (ls ++ [(.create memory name notify, some o)])
      (s.collided.addRefs (refOn (some o))) := by
  have hlt : o < s.collided.nextObject := Nat.lt_succ_of_lt (htable.heap o (by rw [hob]; simp))
  have hpos := htable.findLive_pos hfind hob
  have hopened := addRefs_some (s := s.collided) (f := refOn (some o)) hob
  rw [hbody] at hopened
  have hlive : Live (s.collided.addRefs (refOn (some o))) o :=
    ⟨_, hopened, by simp only [refOn_self]; omega⟩
  have hkept : Kept s.collided (s.collided.addRefs (refOn (some o))) :=
    kept_addRefs ⟨ob, hob, by omega⟩ hlive
  exact ((h.kept (kept_collided s)).kept hkept).snoc_some
    (hkept.found _ o hlt hlive hfind) hopened hlt

theorem step_opened {w w' : World} (hrefs : Refs s₀ w) (h : Opened ls w.state)
    (hstep : Step w l w') : Opened (ls ++ [l]) w'.state := by
  cases hstep with
  | created hrun =>
    rw [create_eq] at hrun
    rcases ddkCreateEvent_cases hrefs.table hrun with
      ⟨rfl, rfl | rfl⟩ | ⟨hfind, rfl, rfl⟩ | ⟨o, ob, hfind, hob, hbody, rfl, rfl⟩
    · exact h.snoc_none rfl
    · exact (h.kept (kept_collided _)).snoc_none rfl
    · exact h.created hrefs.table hfind
    · exact h.opened hrefs.table hfind hob hbody
  | closed hmem hrun =>
    rcases hrefs.close hmem with ⟨t, hclose, -, rfl | ⟨rfl, hbefore, hafter⟩⟩
    · rcases result_eq hclose hrun with ⟨-, rfl⟩
      exact (h.kept (kept_eventClosed _ _)).snoc_none rfl
    · rcases result_eq hclose hrun with ⟨-, rfl⟩
      exact (h.kept (kept_addRefs hbefore hafter)).snoc_none rfl

end Steps

theorem run_inv {s₀ : State} (hs₀ : Table s₀) {ls : List (Event × Option ObjId)} {w : World}
    (h : Trace (Init s₀) Step ls w) : Refs s₀ w ∧ Opened ls w.state := by
  induction h with
  | start hinit => exact ⟨init_refs hs₀ hinit, by simp, by simp⟩
  | snoc _ hstep ih => exact ⟨step_refs ih.1 hstep, step_opened ih.1 ih.2 hstep⟩

/-- What the named events of a run are like, and what the next call does. -/
structure Lifetime (s₀ : State) (ls : List (Event × Option ObjId)) (w : World) : Prop where
  /-- An event of the run has as many references as open handles. -/
  refcount : ∀ o ob, s₀.nextObject ≤ o → w.state.objects o = some ob →
    (∃ notify, ob.body = .event notify) ∧ ob.refcount = w.handles.count o
  /-- An open of the path and the kind of an earlier one whose event is live finds this event. -/
  same : ∀ memory name notify o, (.create memory name notify, some o) ∈ ls → Live w.state o →
    ∀ memory' name', folded (eventPath name') = folded (eventPath name) → EventNameOk name' →
      ∃ t, create memory' name' notify w.state = .ok (if memory' then some o else none) t
  /-- An open of another kind or of another type changes neither references nor names. -/
  mismatch : ∀ memory name notify o ob, EventNameOk name →
    w.state.findLive (eventPath name) = some o → w.state.objects o = some ob →
    ob.body ≠ .event notify → ∃ t, create memory name notify w.state = .ok none t ∧
      t.objects = w.state.objects ∧ t.ddkNameList = w.state.ddkNameList
  /-- A close of the last handle frees the event, and the path denotes nothing then. -/
  last : ∀ o, s₀.nextObject ≤ o → w.handles.count o = 1 → ∃ t, zwClose o w.state = .ok true t ∧
    t.objects o = none ∧ t.notes = .freed o :: w.state.notes ∧ Unnamed t o ∧
    ∀ memory name notify, (.create memory name notify, some o) ∈ ls →
      t.findLive (eventPath name) = none
  /-- No other close frees anything. -/
  close : ∀ o ∈ w.handles, ¬(s₀.nextObject ≤ o ∧ w.handles.count o = 1) →
    ∃ t, zwClose o w.state = .ok true t ∧ t.notes = w.state.notes ∧
      t.ddkNameList = w.state.ddkNameList ∧ Live t o
  freedOnce : FreedOnce s₀ w.state
  /-- An open of a path that denotes nothing creates an event that no open has returned. -/
  fresh : ∀ name notify, EventNameOk name → w.state.findLive (eventPath name) = none →
    ∃ o t, create true name notify w.state = .ok (some o) t ∧
      t.objects o = some ⟨1, .event notify⟩ ∧ t.findLive (eventPath name) = some o ∧
      w.state.objects o = none ∧
      ∀ memory' name' notify', (.create memory' name' notify', some o) ∉ ls

section Lifetime

variable {s₀ : State} {ls : List (Event × Option ObjId)} {w : World}

/-- The close of the last handle leaves nothing live under the path of the event. -/
theorem Refs.path_free (h : Refs s₀ w) {o : ObjId} (hge : s₀.nextObject ≤ o) {path : UnicodeString}
    (hfind : w.state.findLive path = some o) : (w.state.eventClosed o).findLive path = none := by
  rcases findLive_some hfind with ⟨e, he, rfl, hfold, -⟩
  rw [findLive_eq_none]
  intro e' he' hfold' hlive
  rcases List.mem_filter.1 he' with ⟨he', hne⟩
  replace hne : e'.object ≠ e.object := by simpa using hne
  have hbefore := (live_of_eq (eventClosed_of_ne w.state hne)).1 hlive
  exact hne (h.sole e he hge e' he' (hfold'.symm.trans hfold) hbefore)

theorem Refs.lifetime (h : Refs s₀ w) (hopened : Opened ls w.state) : Lifetime s₀ ls w := by
  constructor
  case refcount =>
    intro o ob hge hob
    rcases h.new o ob hge hob with ⟨hrc, -, hbody, -⟩
    exact ⟨hbody, hrc⟩
  case same =>
    intro memory name notify o hl hlive memory' name' hfold hname
    rcases hopened.found memory name notify o hl hlive with ⟨hfind, rc, hob⟩
    rw [create_eq]
    cases memory' with
    | false => exact ⟨_, ddkCreateEvent_noMemory hname.1 w.state⟩
    | true =>
      rw [← findLive_folded hfold] at hfind
      exact ⟨_, ddkCreateEvent_opened h.table hname hfind hob rfl⟩
  case mismatch =>
    intro memory name notify o ob hname hfind hob hbody
    rw [create_eq]
    cases memory with
    | false => exact ⟨_, ddkCreateEvent_noMemory hname.1 w.state, rfl, rfl⟩
    | true => exact ⟨_, ddkCreateEvent_mismatch h.table hname hfind hob hbody, rfl, rfl⟩
  case last =>
    intro o hge hone
    have hmem : o ∈ w.handles := List.count_pos_iff.1 (by omega)
    rcases Option.ne_none_iff_exists'.1 (h.handles o hmem) with ⟨⟨rc, body⟩, hob⟩
    rcases h.new o _ hge hob with ⟨hrc, -, ⟨notify, rfl⟩, -⟩
    replace hrc : rc = 1 := hrc.trans (by omega)
    subst hrc
    refine ⟨_, zwClose_last h.table hob, eventClosed_self .., rfl, ?_, ?_⟩
    · intro e he
      simpa using (List.mem_filter.1 he).2
    · intro memory name notify' hl
      exact h.path_free hge (hopened.found memory name notify' o hl ⟨_, hob, by simp⟩).1
  case close =>
    intro o hmem hnot
    rcases h.handle hmem with ⟨rc, notify, hob, ⟨-, hge, hone⟩ | hrc⟩
    · exact absurd ⟨hge, hone⟩ hnot
    · refine ⟨_, zwClose_some hob hrc, rfl, rfl, _, addRefs_some hob, ?_⟩
      rw [Pi.single_eq_same]
      show rc + -1 ≠ 0
      omega
  case freedOnce => exact h.notes
  case fresh =>
    intro name notify hname hfind
    have hself := eventCreated_self w.state notify (eventPath name)
    rw [create_eq]
    refine ⟨_, _, ddkCreateEvent_free h.table hname hfind, hself, ?_, h.table.fresh, ?_⟩
    · exact findLive_cons (s := w.state) (e := ⟨w.state.nextName, w.state.nextObject,
        eventPath name⟩) rfl rfl ⟨_, hself, by simp⟩
    · intro memory' name' notify' hl
      exact Nat.lt_irrefl _ (hopened.past memory' name' notify' _ hl)

end Lifetime

end NamedEvent

end Wdutf.Ob
