import Mathlib.Data.List.Basic
import Mathlib.Data.List.Nodup
import Mathlib.Tactic.Common
import Wdutf.Lib.Action
import Wdutf.Lib.Keyed
import Wdutf.Ob.Model

/-!
# Wdutf.Ob.Release — releasing references and removing names

What the routines of `Wdutf.Ob.Model` do to a state in which every object has at
most one name.

* `removeNames_spec` — the rule for the loop over the name list: an invariant
  over the entries still ahead is carried to the end, whatever the release of
  an object does to the rest of the state;
* `derefLevels_releases` — the release of a reference on an object that refers to no
  other one;
* `removeNames_drops` — the loop takes the matching entries off the list and
  releases one reference on each of their objects.
-/

namespace Wdutf.Ob

open Wdutf.Action Wdutf.Keyed Wdutf.Rtl

/-! ## Primitive steps -/

/-- The state with an object replaced. -/
def State.put (s : State) (o : ObjId) (ob : Option Object) : State :=
  { s with objects := Function.update s.objects o ob }

@[simp] theorem put_self (s : State) (o : ObjId) (ob : Option Object) :
    (s.put o ob).objects o = ob := Function.update_self ..

theorem put_of_ne (s : State) {o x : ObjId} (ob : Option Object) (h : x ≠ o) :
    (s.put o ob).objects x = s.objects x := Function.update_of_ne h ..

/-- Two objects of which only one is there. -/
theorem ne_of_none {s : State} {o x : ObjId} {ob : Object} (hob : s.objects o = some ob)
    (hx : s.objects x = none) : x ≠ o := by
  rintro rfl
  rw [hob] at hx
  cases hx

theorem ne_of_refcount {s : State} {o x : ObjId} {ob obx : Object}
    (hob : s.objects o = some ob) (hobx : s.objects x = some obx)
    (h : obx.refcount ≠ ob.refcount) : x ≠ o := by
  rintro rfl
  rw [hob] at hobx
  exact h (by rw [Option.some.inj hobx])

/-- The state with another name list. -/
def State.withNames (s : State) (names : List Name) : State := { s with ddkNameList := names }

/-- The state after an allocation. -/
def State.allocated (s : State) (body : Body) : State :=
  { s with
    objects := Function.update s.objects s.nextObject (some ⟨1, body⟩)
    nextObject := s.nextObject + 1 }

theorem allocated_self (s : State) (body : Body) :
    (s.allocated body).objects s.nextObject = some ⟨1, body⟩ := Function.update_self ..

theorem allocated_of_ne (s : State) (body : Body) {x : ObjId} (h : x ≠ s.nextObject) :
    (s.allocated body).objects x = s.objects x := Function.update_of_ne h ..

theorem ddkAllocObject_run (body : Body) (s : State) :
    ddkAllocObject body s = .ok s.nextObject (s.allocated body) := rfl

theorem getObject_ok {s : State} {o : ObjId} {ob : Object} (h : s.objects o = some ob) :
    getObject o s = .ok ob s := by
  rw [getObject, h]

@[simp] theorem setObject_run (o : ObjId) (ob : Object) (s : State) :
    setObject o ob s = .ok () (s.put o (some ob)) := rfl

theorem ddkReferenceObject_ok {s : State} {o : ObjId} {ob : Object} (h : s.objects o = some ob) :
    ddkReferenceObject o s = .ok () (s.put o (some { ob with refcount := ob.refcount + 1 })) := by
  rw [ddkReferenceObject, bind_ok (getObject_ok h), setObject_run]

theorem fromPointer_ok {s : State} {o : ObjId} {ob : Object} (h : s.objects o = some ob)
    (hpos : 1 ≤ ob.refcount) : fromPointer o s = .ok ob s := by
  rw [fromPointer, bind_ok (getObject_ok h), if_neg (by omega), pure_run]

/-- The release of a reference that is not the last one. -/
theorem derefLevels_ne {s : State} {o : ObjId} {ob : Object} (h : s.objects o = some ob)
    (hne : ob.refcount ≠ 1) (levels : ℕ) :
    derefLevels (levels + 1) o s =
      .ok () (s.put o (some { ob with refcount := ob.refcount - 1 })) := by
  rw [derefLevels, bind_ok (getObject_ok h), bind_ok (setObject_run _ _ _), if_neg (by omega),
    pure_run]

/-- The release of the last reference. -/
theorem derefLevels_one {s : State} {o : ObjId} {ob : Object} (h : s.objects o = some ob)
    (hone : ob.refcount = 1) (levels : ℕ) :
    derefLevels (levels + 1) o s =
      freeObject (derefLevels levels) o (s.put o (some { ob with refcount := 0 })) := by
  rw [derefLevels, bind_ok (getObject_ok h), bind_ok (setObject_run _ _ _), if_pos (by omega), hone]
  rfl

/-! ## The loop over the name list -/

/-- The address of the entry whose `Next` field the loop points into, after it has
kept the given entries. -/
def lastAddr (kept : List Name) : Option ℕ := kept.getLast?.map (·.addr)

theorem dropWhile_addr {kept rest : List Name} {e : Name}
    (h : ((kept ++ e :: rest).map (·.addr)).Nodup) :
    (kept ++ e :: rest).dropWhile (fun x => x.addr != e.addr) = e :: rest := by
  have hkept := before_ne h
  rw [List.dropWhile_append_of_pos (by simpa using hkept), List.dropWhile_cons_of_neg (by simp)]

/-- The loop reads the first entry that is still ahead of it. -/
theorem entryAt_lastAddr {s : State} {kept rest : List Name} (hnames : s.ddkNameList = kept ++ rest)
    (hnodup : (s.ddkNameList.map (·.addr)).Nodup) :
    entryAt (lastAddr kept) s = .ok rest.head? s := by
  rw [hnames] at hnodup
  rcases List.eq_nil_or_concat kept with rfl | ⟨kept', e, rfl⟩
  · rw [lastAddr, List.getLast?_nil, Option.map_none, entryAt, hnames, List.nil_append]
  · rw [List.concat_eq_append, List.append_assoc, List.singleton_append] at hnames hnodup
    rw [lastAddr, List.concat_eq_append, List.getLast?_concat, Option.map_some, entryAt, hnames,
      dropWhile_addr hnodup]

theorem filter_addr {kept rest : List Name} {e : Name}
    (h : ((kept ++ e :: rest).map (·.addr)).Nodup) :
    (kept ++ e :: rest).filter (fun x => x.addr != e.addr) = kept ++ rest := by
  have hkept := before_ne h
  have hrest := after_ne h
  rw [List.filter_append, List.filter_cons_of_neg (by simp),
    List.filter_eq_self.2 (by simpa using hkept), List.filter_eq_self.2 (by simpa using hrest)]

theorem unlinkName_ok {s : State} {kept rest : List Name} {e : Name}
    (hnames : s.ddkNameList = kept ++ e :: rest) (hnodup : (s.ddkNameList.map (·.addr)).Nodup) :
    unlinkName e.addr s = .ok () (s.withNames (kept ++ rest)) := by
  rw [hnames] at hnodup
  rw [unlinkName, modify_run, hnames, filter_addr hnodup]
  rfl

section Loop

variable {R : List Name → State → Prop}

/-- The rule for the loop. `R` speaks about the entries still ahead and the
state; the entries behind have been kept. -/
theorem removeNames_spec (deref : ObjId → ObM Unit) (hit : Name → Bool)
    (hskip : ∀ e rest t, hit e = false → R (e :: rest) t → R rest t)
    (hdrop : ∀ e kept rest t, hit e = true → t.ddkNameList = kept ++ e :: rest → R (e :: rest) t →
      ∃ t', deref e.object (t.withNames (kept ++ rest)) = .ok () t' ∧
        t'.ddkNameList = kept ++ rest ∧ R rest t')
    {rest kept : List Name} {turns : ℕ} {t : State} (hnames : t.ddkNameList = kept ++ rest)
    (hnodup : (t.ddkNameList.map (·.addr)).Nodup) (hturns : rest.length < turns) (hR : R rest t) :
    ∃ t', removeNames deref hit turns (lastAddr kept) t = .ok () t' ∧
      t'.ddkNameList = kept ++ rest.filter (fun e => !hit e) ∧ R [] t' := by
  induction rest generalizing kept turns t with
  | nil =>
    rcases Nat.exists_eq_add_one_of_ne_zero (by omega : turns ≠ 0) with ⟨turns, rfl⟩
    refine ⟨t, ?_, by simpa using hnames, hR⟩
    rw [removeNames, bind_ok (entryAt_lastAddr hnames hnodup)]
    rfl
  | cons e rest ih =>
    rcases Nat.exists_eq_add_one_of_ne_zero (by omega : turns ≠ 0) with ⟨turns, rfl⟩
    rw [List.length_cons] at hturns
    rw [removeNames, bind_ok (entryAt_lastAddr hnames hnodup)]
    simp only [List.head?_cons]
    cases hhit : hit e with
    | true =>
      -- the entry goes, and the loop stays where it points
      rcases hdrop e kept rest t hhit hnames hR with ⟨t', hderef, hnames', hR'⟩
      have hsub : (t'.ddkNameList.map (·.addr)).Nodup := by
        rw [hnames'] at *
        rw [hnames] at hnodup
        exact hnodup.sublist (((List.Sublist.refl kept).append
          (List.sublist_cons_self e rest)).map _)
      rcases ih hnames' hsub (by omega : rest.length < turns) hR' with ⟨t'', hrun, hnames'', hR''⟩
      refine ⟨t'', ?_, ?_, hR''⟩
      · rw [if_pos rfl, bind_ok (unlinkName_ok hnames hnodup), bind_ok hderef]
        exact hrun
      · rw [hnames'', List.filter_cons_of_neg (by simp [hhit])]
    | false =>
      -- the entry stays, and the loop points into it
      have hnames' : t.ddkNameList = (kept ++ [e]) ++ rest := by
        rw [hnames, List.append_assoc, List.singleton_append]
      obtain ⟨t', hrun, hnames'', hR'⟩ :=
        ih hnames' hnodup (by omega : rest.length < turns) (hskip e rest t hhit hR)
      refine ⟨t', ?_, ?_, hR'⟩
      · rw [if_neg (by simp)]
        rw [lastAddr, List.getLast?_concat, Option.map_some] at hrun
        exact hrun
      · rw [hnames'', List.filter_cons_of_pos (by simp [hhit]), List.append_assoc,
          List.singleton_append]

end Loop

/-! ## Objects that refer to no other one -/

/-- The destruction of an object with this body releases no other object. -/
def Body.Local : Body → Prop
  | .device _ _ => False
  | .file (some _) => False
  | _ => True

/-- The state after the memory of an object was freed. -/
def State.freed (s : State) (o : ObjId) : State :=
  { s with objects := Function.update s.objects o none, notes := .freed o :: s.notes }

/-- What is left of an object when one reference is released. -/
def dropRef (ob : Object) : Option Object :=
  if ob.refcount = 1 then none else some { ob with refcount := ob.refcount - 1 }

/-- The state after one reference on an object without names was released. -/
def State.released (s : State) (o : ObjId) (ob : Object) : State :=
  if ob.refcount = 1 then s.freed o else s.put o (some { ob with refcount := ob.refcount - 1 })

theorem released_objects (s : State) (o : ObjId) (ob : Object) :
    (s.released o ob).objects = Function.update s.objects o (dropRef ob) := by
  unfold State.released dropRef
  split <;> rfl

theorem released_ddkNameList (s : State) (o : ObjId) (ob : Object) :
    (s.released o ob).ddkNameList = s.ddkNameList := by
  unfold State.released
  split <;> rfl

section Local

variable {deref : ObjId → ObM Unit} {hit : Name → Bool} {s : State} {o : ObjId} {ob : Object}

/-- A loop without a match changes nothing. -/
theorem removeNames_none (hnodup : (s.ddkNameList.map (·.addr)).Nodup)
    (h : ∀ e ∈ s.ddkNameList, hit e = false) :
    removeNames deref hit (s.ddkNameList.length + 1) none s = .ok () s := by
  have hloop := removeNames_spec deref hit
    (R := fun rest t => t = s ∧ ∀ e ∈ rest, hit e = false)
    (fun e rest t _ hR => ⟨hR.1, fun x hx => hR.2 x (List.mem_cons_of_mem e hx)⟩)
    (fun e kept rest t hhit _ hR => by
      have hno := hR.2 e (by simp)
      rw [hhit] at hno
      cases hno)
    (List.nil_append _).symm hnodup (Nat.lt_succ_self _) ⟨rfl, h⟩
  rcases hloop with ⟨t, hrun, -, rfl, -⟩
  exact hrun

theorem removeObjectName_none (hnodup : (s.ddkNameList.map (·.addr)).Nodup)
    (h : ∀ e ∈ s.ddkNameList, e.object ≠ o) : removeObjectName deref o s = .ok () s := by
  rw [removeObjectName, get_bind]
  exact removeNames_none hnodup fun e he => by simpa using h e he

theorem freeObject_local (hob : s.objects o = some ob) (hlocal : ob.body.Local)
    (hnodup : (s.ddkNameList.map (·.addr)).Nodup) (h : ∀ e ∈ s.ddkNameList, e.object ≠ o) :
    freeObject deref o s = .ok () (s.freed o) := by
  have hnames : removeObjectName deref o s = .ok () s := removeObjectName_none hnodup h
  rcases ob with ⟨refcount, body⟩
  rw [freeObject, bind_ok (getObject_ok hob)]
  cases body with
  | driver d => exact bind_ok hnames
  | device driverObject nextDevice => exact hlocal.elim
  | file deviceObject =>
    cases deviceObject with
    | none => exact bind_ok hnames
    | some d => exact hlocal.elim
  | key => exact bind_ok hnames
  | event notify => exact bind_ok hnames
  | symlink destination enabled => exact bind_ok hnames
  | other => exact bind_ok hnames

/-- A routine that releases one reference on an object without names. -/
def Releases (deref : ObjId → ObM Unit) : Prop :=
  ∀ (s : State) (o : ObjId) (ob : Object), s.objects o = some ob →
    (ob.refcount = 1 → ob.body.Local) → (s.ddkNameList.map (·.addr)).Nodup →
    (∀ e ∈ s.ddkNameList, e.object ≠ o) → deref o s = .ok () (s.released o ob)

theorem put_freed (s : State) (o : ObjId) (ob : Option Object) :
    (s.put o ob).freed o = s.freed o := by
  simp [State.put, State.freed]

theorem derefLevels_releases (levels : ℕ) : Releases (derefLevels (levels + 1)) := by
  intro s o ob hob hlocal hnodup hnone
  by_cases hone : ob.refcount = 1
  · rw [derefLevels_one hob hone, State.released, if_pos hone]
    have hob' : (s.put o (some { ob with refcount := 0 })).objects o =
        some { ob with refcount := 0 } := by
      simp [State.put]
    have hfree : freeObject (derefLevels levels) o (s.put o (some { ob with refcount := 0 })) = _ :=
      freeObject_local hob' (hlocal hone) hnodup hnone
    rw [hfree, put_freed]
  · rw [derefLevels_ne hob hone, State.released, if_neg hone]

theorem ddkDereferenceObject_releases : Releases ddkDereferenceObject := by
  intro s o ob hob hlocal hnodup hnone
  rw [ddkDereferenceObject, get_bind]
  exact derefLevels_releases _ s o ob hob hlocal hnodup hnone

end Local

/-! ## Removing names -/

/-- Two states agree on all but the objects, the names and the notes. -/
structure SameRest (s t : State) : Prop where
  nextObject : t.nextObject = s.nextObject
  nextName : t.nextName = s.nextName
  work : t.work = s.work
  uniqueId : t.uniqueId = s.uniqueId

theorem SameRest.refl (s : State) : SameRest s s := ⟨rfl, rfl, rfl, rfl⟩

theorem SameRest.trans {s t u : State} (h : SameRest s t) (h' : SameRest t u) : SameRest s u :=
  ⟨h'.nextObject.trans h.nextObject, h'.nextName.trans h.nextName, h'.work.trans h.work,
    h'.uniqueId.trans h.uniqueId⟩

theorem sameRest_released (s : State) (o : ObjId) (ob : Object) : SameRest s (s.released o ob) := by
  unfold State.released
  split <;> exact ⟨rfl, rfl, rfl, rfl⟩

theorem sameRest_withNames (s : State) (names : List Name) : SameRest s (s.withNames names) :=
  ⟨rfl, rfl, rfl, rfl⟩

section Remove

variable {deref : ObjId → ObM Unit} {hit : Name → Bool} {s : State}

/-- The objects that lose a name to the loop. -/
def hitObjects (hit : Name → Bool) (s : State) : List ObjId :=
  (s.ddkNameList.filter hit).map (·.object)

theorem mem_hitObjects (hobjects : (s.ddkNameList.map (·.object)).Nodup) {e : Name}
    (he : e ∈ s.ddkNameList) : e.object ∈ hitObjects hit s ↔ hit e = true := by
  constructor
  · intro h
    rcases List.mem_map.1 h with ⟨e', he', heq⟩
    rw [List.mem_filter] at he'
    rw [← List.inj_on_of_nodup_map hobjects he'.1 he heq]
    exact he'.2
  · intro h
    exact List.mem_map.2 ⟨e, List.mem_filter.2 ⟨he, h⟩, rfl⟩

/-- The state of the loop: the objects of the matching entries behind it have
lost a reference. -/
structure Dropping (hit : Name → Bool) (s : State) (rest : List Name) (t : State) : Prop where
  suffix : rest <:+ s.ddkNameList
  names : t.ddkNameList.Sublist s.ddkNameList
  same : SameRest s t
  objects : ∀ o, t.objects o =
    if o ∈ hitObjects hit s ∧ o ∉ rest.map (·.object) then (s.objects o).bind dropRef
    else s.objects o
  notes : (∀ e ∈ s.ddkNameList, hit e = true → ∀ ob, s.objects e.object = some ob →
    ob.refcount ≠ 1) → t.notes = s.notes

/-- Before the loop, every object of a matching entry is ahead. -/
theorem dropping_start (hit : Name → Bool) (s : State) : Dropping hit s s.ddkNameList s := by
  refine ⟨List.suffix_refl _, List.Sublist.refl _, SameRest.refl s, fun o => ?_, fun _ => rfl⟩
  rw [if_neg]
  rintro ⟨h, hno⟩
  rcases List.mem_map.1 h with ⟨e, he, rfl⟩
  exact hno (List.mem_map_of_mem (List.mem_of_mem_filter he))

/-- An entry that does not match is the only one of its object. -/
theorem Dropping.skip (hobjects : (s.ddkNameList.map (·.object)).Nodup) {e : Name}
    {rest : List Name} {t : State} (hhit : hit e = false) (h : Dropping hit s (e :: rest) t) :
    Dropping hit s rest t := by
  have he : e ∈ s.ddkNameList := h.suffix.subset (by simp)
  refine { h with suffix := (List.suffix_cons e rest).trans h.suffix, objects := fun o => ?_ }
  rw [h.objects o]
  by_cases ho : o = e.object
  · have hno : o ∉ hitObjects hit s := by
      rw [ho, mem_hitObjects hobjects he, hhit]
      simp
    rw [if_neg (fun h => hno h.1), if_neg (fun h => hno h.1)]
  · simp [ho]

/-- The object of an entry that matches loses a reference. -/
theorem Dropping.drop (hderef : Releases deref)
    (haddrs : (s.ddkNameList.map (·.addr)).Nodup) (hobjects : (s.ddkNameList.map (·.object)).Nodup)
    {e : Name} {kept rest : List Name} {t : State} {ob : Object}
    (hob : s.objects e.object = some ob) (hlocal : ob.refcount = 1 → ob.body.Local)
    (hhit : hit e = true) (hnames : t.ddkNameList = kept ++ e :: rest)
    (h : Dropping hit s (e :: rest) t) :
    ∃ t', deref e.object (t.withNames (kept ++ rest)) = .ok () t' ∧
      t'.ddkNameList = kept ++ rest ∧ Dropping hit s rest t' := by
  have he : e ∈ s.ddkNameList := h.suffix.subset (by simp)
  have hsub : (kept ++ rest).Sublist t.ddkNameList := by
    rw [hnames]
    exact (List.Sublist.refl kept).append (List.sublist_cons_self e rest)
  have hobt : t.objects e.object = some ob := by
    rw [h.objects, if_neg (by simp), hob]
  -- no other entry is one of the object
  have hnodup := hobjects.sublist (h.names.map (·.object))
  rw [hnames] at hnodup
  have hnone : ∀ x ∈ kept ++ rest, x.object ≠ e.object := by
    intro x hx
    rcases List.mem_append.1 hx with hx | hx
    · exact before_ne hnodup x hx
    · exact after_ne hnodup x hx
  have hrun := hderef (t.withNames (kept ++ rest)) e.object ob hobt hlocal
    (haddrs.sublist ((hsub.trans h.names).map _)) hnone
  refine ⟨_, hrun, released_ddkNameList _ _ _, ?_⟩
  constructor
  case suffix => exact (List.suffix_cons e rest).trans h.suffix
  case names =>
    rw [released_ddkNameList]
    exact hsub.trans h.names
  case same => exact (h.same.trans (sameRest_withNames _ _)).trans (sameRest_released _ _ _)
  case objects =>
    intro o
    rw [released_objects]
    by_cases ho : o = e.object
    · have hahead : e.object ∉ rest.map (·.object) := by
        intro hmem
        rcases List.mem_map.1 hmem with ⟨x, hx, heq⟩
        exact hnone x (List.mem_append_right kept hx) heq
      rw [ho, Function.update_self, if_pos ⟨(mem_hitObjects hobjects he).2 hhit, hahead⟩, hob]
      rfl
    · rw [Function.update_of_ne ho]
      show t.objects o = _
      rw [h.objects o]
      simp [ho]
  case notes =>
    intro hall
    rw [State.released, if_neg (hall e he hhit ob hob)]
    exact h.notes hall

/-- **Removing names.** In a state where every object has at most one name, the
loop takes the matching entries off the list and releases one reference on
each of their objects. -/
theorem removeNames_drops (hderef : Releases deref)
    (haddrs : (s.ddkNameList.map (·.addr)).Nodup) (hobjects : (s.ddkNameList.map (·.object)).Nodup)
    (hlive : ∀ e ∈ s.ddkNameList, hit e = true →
      ∃ ob, s.objects e.object = some ob ∧ (ob.refcount = 1 → ob.body.Local)) :
    ∃ t, removeNames deref hit (s.ddkNameList.length + 1) none s = .ok () t ∧
      t.ddkNameList = s.ddkNameList.filter (fun e => !hit e) ∧ SameRest s t ∧
      (∀ o, t.objects o =
        if o ∈ hitObjects hit s then (s.objects o).bind dropRef else s.objects o) ∧
      ((∀ e ∈ s.ddkNameList, hit e = true → ∀ ob, s.objects e.object = some ob →
        ob.refcount ≠ 1) → t.notes = s.notes) := by
  have hdrop : ∀ e kept rest t, hit e = true → t.ddkNameList = kept ++ e :: rest →
      Dropping hit s (e :: rest) t →
      ∃ t', deref e.object (t.withNames (kept ++ rest)) = .ok () t' ∧
        t'.ddkNameList = kept ++ rest ∧ Dropping hit s rest t' := by
    intro e kept rest t hhit hnames h
    rcases hlive e (h.suffix.subset (by simp)) hhit with ⟨ob, hob, hlocal⟩
    exact h.drop hderef haddrs hobjects hob hlocal hhit hnames
  obtain ⟨t, hrun, hnames, h⟩ := removeNames_spec (R := Dropping hit s) deref hit
    (fun _ _ _ hhit h => Dropping.skip hobjects hhit h) hdrop (List.nil_append _).symm haddrs
    (Nat.lt_succ_self _) (dropping_start hit s)
  refine ⟨t, hrun, by simpa using hnames, h.same, fun o => ?_, h.notes⟩
  rw [h.objects o]
  simp

variable {o : ObjId} {ob : Object}

theorem mem_hitObjects_object :
    o ∈ hitObjects (fun e => e.object == o) s ↔ ∃ e ∈ s.ddkNameList, e.object = o := by
  simp [hitObjects]

/-- What the names are like once those of an object are gone. -/
theorem names_dropped {s t : State} {o : ObjId} (haddrs : (s.ddkNameList.map (·.addr)).Nodup)
    (hnames : t.ddkNameList = s.ddkNameList.filter (fun e => e.object != o)) :
    (∀ e ∈ t.ddkNameList, e.object ≠ o) ∧ (t.ddkNameList.map (·.addr)).Nodup := by
  rw [hnames]
  constructor
  · intro e he
    rw [List.mem_filter] at he
    simpa using he.2
  · exact haddrs.sublist (List.filter_sublist.map _)

/-- `DdkRemoveObjectName` in a state where every object has at most one name. -/
theorem removeObjectName_drops (hderef : Releases deref)
    (haddrs : (s.ddkNameList.map (·.addr)).Nodup) (hobjects : (s.ddkNameList.map (·.object)).Nodup)
    (hob : s.objects o = some ob) (hlocal : ob.refcount = 1 → ob.body.Local) :
    ∃ t, removeObjectName deref o s = .ok () t ∧
      t.ddkNameList = s.ddkNameList.filter (fun e => e.object != o) ∧ SameRest s t ∧
      (∀ o', o' ≠ o → t.objects o' = s.objects o') ∧
      (t.objects o = if ∃ e ∈ s.ddkNameList, e.object = o then dropRef ob else some ob) ∧
      (ob.refcount ≠ 1 → t.notes = s.notes) := by
  have hlive : ∀ e ∈ s.ddkNameList, (e.object == o) = true →
      ∃ ob, s.objects e.object = some ob ∧ (ob.refcount = 1 → ob.body.Local) := by
    intro e he hhit
    obtain rfl : e.object = o := by simpa using hhit
    exact ⟨ob, hob, hlocal⟩
  rcases removeNames_drops hderef haddrs hobjects hlive with ⟨t, hrun, hnames, hsame, hobjs, hnotes⟩
  refine ⟨t, ?_, by simpa [bne] using hnames, hsame, ?_, ?_, ?_⟩
  · rw [removeObjectName, get_bind]
    exact hrun
  · intro o' hne
    rw [hobjs, if_neg]
    intro hmem
    rcases List.mem_map.1 hmem with ⟨e, he, rfl⟩
    exact hne (by simpa using (List.mem_filter.1 he).2)
  · rw [hobjs]
    simp only [mem_hitObjects_object, hob]
    rfl
  · intro hne
    apply hnotes
    intro e he hhit ob' hob'
    obtain rfl : e.object = o := by simpa using hhit
    rw [hob] at hob'
    rcases Option.some.inj hob' with rfl
    exact hne

/-- The destruction of an object that refers to no other one, with its name. -/
theorem freeObject_drops (hderef : Releases deref)
    (haddrs : (s.ddkNameList.map (·.addr)).Nodup) (hobjects : (s.ddkNameList.map (·.object)).Nodup)
    (hob : s.objects o = some ob) (hlocal : ob.body.Local) (hne : ob.refcount ≠ 1) :
    ∃ t, freeObject deref o s = .ok () t ∧
      t.ddkNameList = s.ddkNameList.filter (fun e => e.object != o) ∧ SameRest s t ∧
      (∀ o', t.objects o' = if o' = o then none else s.objects o') ∧
      t.notes = .freed o :: s.notes := by
  obtain ⟨t, hrun, hnames, hsame, hother, -, hnotes⟩ :=
    removeObjectName_drops hderef haddrs hobjects hob (fun hone => absurd hone hne)
  refine ⟨t.freed o, ?_, hnames, ⟨hsame.nextObject, hsame.nextName, hsame.work, hsame.uniqueId⟩,
    ?_, by rw [← hnotes hne]; rfl⟩
  · rcases ob with ⟨refcount, body⟩
    rw [freeObject, bind_ok (getObject_ok hob)]
    cases body with
    | driver d => exact bind_ok hrun
    | device driverObject nextDevice => exact hlocal.elim
    | file deviceObject =>
      cases deviceObject with
      | none => exact bind_ok hrun
      | some d => exact hlocal.elim
    | key => exact bind_ok hrun
    | event notify => exact bind_ok hrun
    | symlink destination enabled => exact bind_ok hrun
    | other => exact bind_ok hrun
  · intro o'
    show Function.update t.objects o none o' = _
    by_cases ho : o' = o
    · rw [ho, Function.update_self, if_pos rfl]
    · rw [Function.update_of_ne ho, if_neg ho, hother o' ho]

end Remove

end Wdutf.Ob
