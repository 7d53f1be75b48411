import Mathlib.Data.Finset.Card
import Mathlib.Data.Finset.Range
import Mathlib.Data.List.Basic
import Mathlib.Data.List.Nodup
import Mathlib.Data.List.TakeWhile
import Mathlib.Tactic.Common
import Wdutf.Ob.Release

/-!
# Wdutf.Ob.Cascade — releases inside releases

What a release of a reference does to a state when it returns, whatever is destroyed
on the way: the last reference on a file object releases its device, the last
one on a device takes it off the list of its driver and releases the driver, and
every object that goes takes its names with it.

* `removeNames_ok` — the rule for the loop over the name list, when the releases
  may take names off the list themselves;
* `Drops` — names go only with their objects, an object without references is not
  touched, and no count falls by more than one;
* `derefLevels_cascades` — every release is of this kind;
* `ddkDereferenceObject_levels` — the levels that the model gives a release suffice.
-/

namespace Wdutf.Ob

open Wdutf.Action Wdutf.Keyed

/-- Somebody holds a reference on the object. -/
def Held (s : State) (o : ObjId) : Prop := ∃ ob, s.objects o = some ob ∧ 1 ≤ ob.refcount

/-- The object of the entry is allocated. -/
def alive (s : State) (e : Name) : Bool := (s.objects e.object).isSome

/-- The entries are at different addresses, and their objects are allocated. -/
structure Good (s : State) : Prop where
  addrs : (s.ddkNameList.map (·.addr)).Nodup
  listed : ∀ e ∈ s.ddkNameList, alive s e = true

/-! ## The loop over the name list -/

/-- When names go under the loop, the entry that it points into is kept, or nothing
is left at its address. -/
theorem lastAddr_filter (kept rest : List Name) (p : Name → Bool)
    (hnodup : ((kept ++ rest).map (·.addr)).Nodup) :
    lastAddr (kept.filter p) = lastAddr kept ∨
      ∃ a, lastAddr kept = some a ∧ ∀ x ∈ (kept ++ rest).filter p, x.addr ≠ a := by
  rcases List.eq_nil_or_concat kept with rfl | ⟨kept', k, rfl⟩
  · exact Or.inl rfl
  · rw [List.concat_eq_append] at *
    cases hp : p k with
    | true =>
      left
      rw [List.filter_append, List.filter_cons_of_pos hp, List.filter_nil, lastAddr, lastAddr,
        List.getLast?_concat, List.getLast?_concat]
    | false =>
      refine Or.inr ⟨k.addr, by rw [lastAddr, List.getLast?_concat, Option.map_some], ?_⟩
      rintro x hx
      rw [List.mem_filter] at hx
      rw [List.append_assoc, List.singleton_append] at hx hnodup
      rcases List.mem_append.1 hx.1 with hmem | hmem
      · exact before_ne hnodup x hmem
      · rcases List.mem_cons.1 hmem with rfl | hmem
        · rw [hp] at hx
          cases hx.2
        · exact after_ne hnodup x hmem

/-- The `Next` field of an entry that is gone cannot be read. -/
theorem entryAt_gone {s t : State} {a : ℕ} {e : Option Name}
    (hgone : ∀ x ∈ s.ddkNameList, x.addr ≠ a) : entryAt (some a) s ≠ .ok e t := by
  have hnil : s.ddkNameList.dropWhile (fun x => x.addr != a) = [] := by
    rw [List.dropWhile_eq_nil_iff]
    intro x hx
    simpa using hgone x hx
  rw [entryAt, hnil]
  intro h
  cases h

/-- The rule for the loop that returns. `I` is kept by the release of the object of
an entry that matches, which takes names off the list at most; no entry that matches
is left. -/
theorem removeNames_ok {I : State → Prop} (deref : ObjId → ObM Unit) (hit : Name → Bool)
    (hdrop : ∀ e t t', hit e = true → e ∈ t.ddkNameList → (t.ddkNameList.map (·.addr)).Nodup →
      I t → deref e.object (t.withNames (t.ddkNameList.filter fun x => x.addr != e.addr)) =
        .ok () t' →
      I t' ∧ ∃ p, t'.ddkNameList = (t.ddkNameList.filter fun x => x.addr != e.addr).filter p)
    {turns : ℕ} {kept rest : List Name} {t t' : State} (hnames : t.ddkNameList = kept ++ rest)
    (hkept : ∀ e ∈ kept, hit e = false) (hnodup : (t.ddkNameList.map (·.addr)).Nodup) (hI : I t)
    (hrun : removeNames deref hit turns (lastAddr kept) t = .ok () t') :
    I t' ∧ ∀ e ∈ t'.ddkNameList, hit e = false := by
  induction turns generalizing kept rest t with
  | zero => cases hrun
  | succ turns ih =>
    rw [removeNames, bind_ok (entryAt_lastAddr hnames hnodup)] at hrun
    cases rest with
    | nil =>
      -- the end of the list
      obtain ⟨-, rfl⟩ := result_eq (pure_run () t) hrun
      rw [hnames, List.append_nil]
      exact ⟨hI, hkept⟩
    | cons e rest =>
      simp only [List.head?_cons] at hrun
      cases hhit : hit e with
      | true =>
        -- the entry goes, and the loop stays where it points
        rw [if_pos hhit] at hrun
        rcases bind_inv hrun with ⟨⟨⟩, u, hunlink, htail⟩
        rcases bind_inv htail with ⟨⟨⟩, v, hderef, hloop⟩
        obtain ⟨-, rfl⟩ := result_eq (unlinkName_ok hnames hnodup) hunlink
        have hrest : (t.ddkNameList.filter fun x => x.addr != e.addr) = kept ++ rest := by
          rw [hnames]
          exact filter_addr (by rw [← hnames]; exact hnodup)
        obtain ⟨hI', p, hnames'⟩ := hdrop e t v hhit (by rw [hnames]; simp) hnodup hI
          (by rw [hrest]; exact hderef)
        rw [hrest] at hnames'
        have hnodup' : ((kept ++ rest).map (·.addr)).Nodup := by
          rw [← hrest]
          exact hnodup.sublist (List.filter_sublist.map _)
        rcases lastAddr_filter kept rest p hnodup' with hlast | ⟨a, hlast, hgone⟩
        · rw [← hlast] at hloop
          refine ih (hnames'.trans (List.filter_append ..)) ?_ ?_ hI' hloop
          · intro x hx
            exact hkept x (List.mem_of_mem_filter hx)
          · rw [hnames']
            exact hnodup'.sublist (List.filter_sublist.map _)
        · -- the release has freed the entry that the loop points into
          rw [hlast] at hloop
          rw [← hnames'] at hgone
          cases turns with
          | zero => cases hloop
          | succ turns =>
            rw [removeNames] at hloop
            rcases bind_inv hloop with ⟨x, w, hentry, -⟩
            exact absurd hentry (entryAt_gone hgone)
      | false =>
        -- the entry stays, and the loop points into it
        rw [if_neg (by simp [hhit])] at hrun
        have hlast : some e.addr = lastAddr (kept ++ [e]) := by
          rw [lastAddr, List.getLast?_concat, Option.map_some]
        rw [hlast] at hrun
        refine ih (by rw [hnames, List.append_assoc, List.singleton_append]) ?_ hnodup hI hrun
        intro x hx
        rcases List.mem_append.1 hx with hx | hx
        · exact hkept x hx
        · rw [List.mem_singleton.1 hx]
          exact hhit

/-! ## What a release changes -/

/-- From `s` to `t` at most one reference was released, with all that this took along;
`dying` is an object without references that was destroyed. -/
structure Drops (dying : Option ObjId) (s t : State) : Prop where
  gone : ∀ o ∈ dying, t.objects o = none
  names : t.ddkNameList = s.ddkNameList.filter (alive t)
  same : SameRest s t
  heap : ∀ x, s.objects x = none → t.objects x = none
  dead : ∀ x ob, x ∉ dying → s.objects x = some ob → ob.refcount ≤ 0 →
    ∃ ob', t.objects x = some ob' ∧ ob'.refcount = ob.refcount
  live : ∀ x ob, s.objects x = some ob → 1 ≤ ob.refcount →
    (ob.refcount = 1 ∧ t.objects x = none) ∨ ∃ ob', t.objects x = some ob' ∧
      1 ≤ ob'.refcount ∧ (ob'.refcount = ob.refcount ∨ ob'.refcount = ob.refcount - 1)

/-- From `s` to `t` the bodies of objects were written. -/
structure Rewrites (s t : State) : Prop where
  names : t.ddkNameList = s.ddkNameList
  same : SameRest s t
  counts : ∀ x, (t.objects x).map (·.refcount) = (s.objects x).map (·.refcount)

/-- A routine that releases one reference on an object that has some. -/
def Cascades (deref : ObjId → ObM Unit) : Prop :=
  ∀ s t o, Good s → Held s o → deref o s = .ok () t → Drops none s t

/-- A routine that only counts on an object that has no references. -/
def CountsDead (deref : ObjId → ObM Unit) : Prop :=
  ∀ s t o ob, s.objects o = some ob → ob.refcount ≤ 0 → deref o s = .ok () t →
    t = s.put o (some { ob with refcount := ob.refcount - 1 })

section Changes

variable {s t u : State} {o : ObjId} {ob : Object}

theorem sameRest_put (s : State) (o : ObjId) (ob : Option Object) : SameRest s (s.put o ob) :=
  ⟨rfl, rfl, rfl, rfl⟩

theorem Good.put (hgood : Good s) (ob' : Object) : Good (s.put o (some ob')) := by
  refine ⟨hgood.addrs, fun e he => ?_⟩
  unfold alive
  by_cases heo : e.object = o
  · rw [heo, put_self]
    rfl
  · rw [put_of_ne s _ heo]
    exact hgood.listed e he

theorem Rewrites.refl (s : State) : Rewrites s s := ⟨rfl, SameRest.refl s, fun _ => rfl⟩

theorem rewrites_put (hob : s.objects o = some ob) (body : Body) :
    Rewrites s (s.put o (some { ob with body := body })) := by
  refine ⟨rfl, sameRest_put s o _, fun x => ?_⟩
  by_cases hx : x = o
  · rw [hx, put_self, hob]
    rfl
  · rw [put_of_ne s _ hx]

theorem Rewrites.of_some (h : Rewrites s t) {x : ObjId} {ob : Object}
    (hob : s.objects x = some ob) :
    ∃ ob', t.objects x = some ob' ∧ ob'.refcount = ob.refcount := by
  have hcount := h.counts x
  rw [hob, Option.map_some, Option.map_eq_some_iff] at hcount
  exact hcount

theorem Rewrites.of_none (h : Rewrites s t) {x : ObjId} (hx : s.objects x = none) :
    t.objects x = none := by
  have hcount := h.counts x
  rwa [hx, Option.map_none, Option.map_eq_none_iff] at hcount

theorem Rewrites.alive (h : Rewrites s t) (e : Name) : alive t e = alive s e := by
  unfold Ob.alive
  cases hs : s.objects e.object with
  | none => rw [h.of_none hs]
  | some ob =>
    rcases h.of_some hs with ⟨ob', hob', -⟩
    rw [hob']
    rfl

theorem Rewrites.good (h : Rewrites s t) (hgood : Good s) : Good t := by
  constructor
  · rw [h.names]
    exact hgood.addrs
  · intro e he
    rw [h.names] at he
    rw [h.alive, hgood.listed e he]

theorem Rewrites.held (h : Rewrites s t) (hheld : Held s o) : Held t o := by
  rcases hheld with ⟨ob, hob, hpos⟩
  rcases h.of_some hob with ⟨ob', hob', hcount⟩
  exact ⟨ob', hob', by omega⟩

theorem Rewrites.drops (h : Rewrites s t) (hgood : Good s) : Drops none s t := by
  constructor
  case gone => simp
  case names =>
    rw [h.names, List.filter_eq_self.2]
    intro e he
    rw [h.alive, hgood.listed e he]
  case same => exact h.same
  case heap => exact fun _ => h.of_none
  case dead => exact fun _ _ _ hob _ => h.of_some hob
  case live =>
    intro x ob hob hpos
    rcases h.of_some hob with ⟨ob', hob', hcount⟩
    exact Or.inr ⟨ob', hob', by omega, Or.inl hcount⟩

/-- A release after the bodies were written. -/
theorem Rewrites.trans_drops (h : Rewrites s u) (h' : Drops none u t) : Drops none s t := by
  constructor
  case gone => exact h'.gone
  case names => rw [h'.names, h.names]
  case same => exact h.same.trans h'.same
  case heap => exact fun x hx => h'.heap x (h.of_none hx)
  case dead =>
    intro x ob hx hob hle
    rcases h.of_some hob with ⟨ob', hob', hcount⟩
    rcases h'.dead x ob' hx hob' (by omega) with ⟨ob'', hob'', hcount'⟩
    exact ⟨ob'', hob'', hcount'.trans hcount⟩
  case live =>
    intro x ob hob hpos
    rcases h.of_some hob with ⟨ob', hob', hcount⟩
    rw [← hcount]
    exact h'.live x ob' hob' (by omega)

/-- The destruction of an object whose last reference was released. -/
theorem Drops.last (hob : s.objects o = some ob) (hone : ob.refcount = 1) {ob' : Object}
    (h : Drops (some o) (s.put o (some ob')) t) : Drops none s t := by
  have hother : ∀ x, x ≠ o → (s.put o (some ob')).objects x = s.objects x :=
    fun x hx => put_of_ne s _ hx
  constructor
  case gone => simp
  case names => exact h.names
  case same => exact (sameRest_put s o _).trans h.same
  case heap =>
    intro x hx
    have hxo : x ≠ o := ne_of_none hob hx
    exact h.heap x (by rw [hother x hxo, hx])
  case dead =>
    intro x obx _ hobx hle
    have hxo : x ≠ o := ne_of_refcount hob hobx (by omega)
    exact h.dead x obx (by simpa using hxo.symm) (by rw [hother x hxo, hobx]) hle
  case live =>
    intro x obx hobx hpos
    by_cases hxo : x = o
    · subst hxo
      rw [hob] at hobx
      rcases Option.some.inj hobx with rfl
      exact Or.inl ⟨hone, h.gone x rfl⟩
    · exact h.live x obx (by rw [hother x hxo, hobx]) hpos

/-- One reference less, when others are left. -/
theorem drops_put (hgood : Good s) (hob : s.objects o = some ob) (htwo : 2 ≤ ob.refcount) :
    Drops none s (s.put o (some { ob with refcount := ob.refcount - 1 })) := by
  have hother : ∀ x, x ≠ o →
      (s.put o (some { ob with refcount := ob.refcount - 1 })).objects x = s.objects x :=
    fun x hx => put_of_ne s _ hx
  constructor
  case gone => simp
  case names => exact (List.filter_eq_self.2 (hgood.put _).listed).symm
  case same => exact sameRest_put s o _
  case heap =>
    intro x hx
    have hxo : x ≠ o := ne_of_none hob hx
    rw [hother x hxo, hx]
  case dead =>
    intro x obx _ hobx hle
    have hxo : x ≠ o := ne_of_refcount hob hobx (by omega)
    exact ⟨obx, by rw [hother x hxo, hobx], rfl⟩
  case live =>
    intro x obx hobx hpos
    right
    by_cases hxo : x = o
    · subst hxo
      rw [hob] at hobx
      rcases Option.some.inj hobx with rfl
      refine ⟨_, put_self .., ?_, Or.inr rfl⟩
      show 1 ≤ ob.refcount - 1
      omega
    · exact ⟨obx, by rw [hother x hxo, hobx], hpos, Or.inl rfl⟩

end Changes

/-! ## Destroying an object -/

section Destroy

variable {deref : ObjId → ObM Unit} {s t : State} {o : ObjId} {ob : Object}

theorem getObject_inv (h : getObject o s = .ok ob t) : s.objects o = some ob ∧ t = s := by
  unfold getObject at h
  split at h
  · injection h with hob hst
    subst hob hst
    exact ⟨‹_›, rfl⟩
  · cases h

theorem fromPointer_inv (h : fromPointer o s = .ok ob t) :
    s.objects o = some ob ∧ 1 ≤ ob.refcount ∧ t = s := by
  unfold fromPointer at h
  rcases bind_inv h with ⟨ob', u, hget, hrun⟩
  rcases getObject_inv hget with ⟨hob, rfl⟩
  split at hrun
  · cases hrun
  · obtain ⟨rfl, rfl⟩ := result_eq (pure_run ob' u) hrun
    exact ⟨hob, by omega, rfl⟩

theorem deviceAt_inv {driver : ObjId} {ppDevice dev : Option ObjId}
    (h : deviceAt driver ppDevice s = .ok dev t) : t = s := by
  unfold deviceAt at h
  cases ppDevice with
  | none =>
    rcases bind_inv h with ⟨⟨refcount, body⟩, u, hget, hrun⟩
    rcases getObject_inv hget with ⟨-, rfl⟩
    cases body with
    | driver d => exact (result_eq (pure_run _ _) hrun).2.symm
    | _ => cases hrun
  | some d =>
    rcases bind_inv h with ⟨⟨refcount, body⟩, u, hget, hrun⟩
    rcases getObject_inv hget with ⟨-, rfl⟩
    cases body with
    | device driverObject nextDevice => exact (result_eq (pure_run _ _) hrun).2.symm
    | _ => cases hrun

theorem setDeviceAt_inv {driver : ObjId} {ppDevice value : Option ObjId}
    (h : setDeviceAt driver ppDevice value s = .ok () t) : Rewrites s t := by
  unfold setDeviceAt at h
  cases ppDevice with
  | none =>
    rcases bind_inv h with ⟨⟨refcount, body⟩, u, hget, hrun⟩
    rcases getObject_inv hget with ⟨hob, rfl⟩
    cases body with
    | driver d =>
      obtain ⟨-, rfl⟩ := result_eq (setObject_run _ _ _) hrun
      exact rewrites_put hob _
    | _ => cases hrun
  | some d =>
    rcases bind_inv h with ⟨⟨refcount, body⟩, u, hget, hrun⟩
    rcases getObject_inv hget with ⟨hob, rfl⟩
    cases body with
    | device driverObject nextDevice =>
      obtain ⟨-, rfl⟩ := result_eq (setObject_run _ _ _) hrun
      exact rewrites_put hob _
    | _ => cases hrun

theorem getDriver_inv {d : Driver} (h : getDriver o s = .ok d t) : Held s o ∧ t = s := by
  unfold getDriver at h
  rcases bind_inv h with ⟨⟨refcount, body⟩, u, hfrom, hrun⟩
  rcases fromPointer_inv hfrom with ⟨hob, hpos, rfl⟩
  cases body with
  | driver d => exact ⟨⟨_, hob, hpos⟩, (result_eq (pure_run _ _) hrun).2.symm⟩
  | _ => cases hrun

/-- The loop of `DdkRemoveDevice` writes the list and releases the driver. -/
theorem removeDeviceLoop_drops (hderef : Cascades deref) {driver device : ObjId} {turns : ℕ}
    {ppDevice : Option ObjId} (hgood : Good s) (hheld : Held s driver)
    (h : removeDeviceLoop deref driver device turns ppDevice s = .ok () t) : Drops none s t := by
  induction turns generalizing ppDevice with
  | zero => cases h
  | succ turns ih =>
    rw [removeDeviceLoop] at h
    rcases bind_inv h with ⟨dev, u, hdev, hrun⟩
    obtain rfl := deviceAt_inv hdev
    cases dev with
    | none =>
      obtain ⟨-, rfl⟩ := result_eq (pure_run () u) hrun
      exact (Rewrites.refl u).drops hgood
    | some dev =>
      simp only at hrun
      split at hrun
      · -- the device is taken off the list
        rcases bind_inv hrun with ⟨next, v, hnext, hset⟩
        obtain rfl := deviceAt_inv hnext
        rcases bind_inv hset with ⟨⟨⟩, w, hset, hrun⟩
        have hwrites := setDeviceAt_inv hset
        exact hwrites.trans_drops
          (hderef w t driver (hwrites.good hgood) (hwrites.held hheld) hrun)
      · exact ih hrun

theorem removeDevice_drops (hderef : Cascades deref) {driver device : ObjId} (hgood : Good s)
    (h : removeDevice deref driver device s = .ok () t) : Drops none s t := by
  unfold removeDevice at h
  rcases bind_inv h with ⟨d, u, hdriver, hrun⟩
  rcases getDriver_inv hdriver with ⟨hheld, rfl⟩
  rw [get_bind] at hrun
  exact removeDeviceLoop_drops hderef hgood hheld hrun

/-- What an object refers to is released before its names go. -/
theorem freeObject_inv (hderef : Cascades deref) (hgood : Good s)
    (h : freeObject deref o s = .ok () t) :
    ∃ u v, Drops none s u ∧ removeObjectName deref o u = .ok () v ∧ t = v.freed o := by
  unfold freeObject at h
  rcases bind_inv h with ⟨ob, u, hget, hrun⟩
  rcases getObject_inv hget with ⟨-, rfl⟩
  have hnothing : ∀ {w}, (do removeObjectName deref o; freeMemory o : ObM Unit) w = .ok () t →
      ∃ v, removeObjectName deref o w = .ok () v ∧ t = v.freed o := by
    intro w hrun
    rcases bind_inv hrun with ⟨⟨⟩, v, hremove, hfree⟩
    exact ⟨v, hremove, (result_eq rfl hfree).2.symm⟩
  rcases ob with ⟨refcount, body⟩
  cases body with
  | file deviceObject =>
    cases deviceObject with
    | none =>
      rcases hnothing hrun with ⟨v, hremove, rfl⟩
      exact ⟨u, v, (Rewrites.refl u).drops hgood, hremove, rfl⟩
    | some d =>
      rcases bind_inv hrun with ⟨obd, x, hfrom, hdevice⟩
      rcases fromPointer_inv hfrom with ⟨hobd, hpos, rfl⟩
      rcases bind_inv hdevice with ⟨⟨⟩, w, hrelease, hnames⟩
      rcases hnothing hnames with ⟨v, hremove, rfl⟩
      exact ⟨w, v, hderef x w d hgood ⟨obd, hobd, hpos⟩ hrelease, hremove, rfl⟩
  | device driverObject nextDevice =>
    rcases bind_inv hrun with ⟨⟨⟩, w, hdevice, hnames⟩
    rcases hnothing hnames with ⟨v, hremove, rfl⟩
    exact ⟨w, v, removeDevice_drops hderef hgood hdevice, hremove, rfl⟩
  | driver d =>
    rcases hnothing hrun with ⟨v, hremove, rfl⟩
    exact ⟨u, v, (Rewrites.refl u).drops hgood, hremove, rfl⟩
  | key =>
    rcases hnothing hrun with ⟨v, hremove, rfl⟩
    exact ⟨u, v, (Rewrites.refl u).drops hgood, hremove, rfl⟩
  | event notify =>
    rcases hnothing hrun with ⟨v, hremove, rfl⟩
    exact ⟨u, v, (Rewrites.refl u).drops hgood, hremove, rfl⟩
  | symlink destination enabled =>
    rcases hnothing hrun with ⟨v, hremove, rfl⟩
    exact ⟨u, v, (Rewrites.refl u).drops hgood, hremove, rfl⟩
  | other =>
    rcases hnothing hrun with ⟨v, hremove, rfl⟩
    exact ⟨u, v, (Rewrites.refl u).drops hgood, hremove, rfl⟩

/-- The names of an object without references are removed. -/
theorem removeObjectName_dead (hdead : CountsDead deref)
    (haddrs : (s.ddkNameList.map (·.addr)).Nodup) (hob : s.objects o = some ob)
    (hle : ob.refcount ≤ 0) (h : removeObjectName deref o s = .ok () t) :
    t.ddkNameList = s.ddkNameList.filter (fun e => e.object != o) ∧ SameRest s t ∧
      ∀ x, x ≠ o → t.objects x = s.objects x := by
  rw [removeObjectName, get_bind] at h
  have hloop := removeNames_ok deref (fun e => e.object == o)
    (I := fun u => SameRest s u ∧ (∀ x, x ≠ o → u.objects x = s.objects x) ∧
      (∃ ob, u.objects o = some ob ∧ ob.refcount ≤ 0) ∧
      u.ddkNameList.filter (fun e => e.object != o) =
        s.ddkNameList.filter (fun e => e.object != o))
    (t := s) ?_ (List.nil_append _).symm (by simp) haddrs
    ⟨SameRest.refl s, fun _ _ => rfl, ⟨ob, hob, hle⟩, rfl⟩ h
  · rcases hloop with ⟨⟨hsame, hother, -, hnames⟩, hnone⟩
    refine ⟨?_, hsame, hother⟩
    rw [← hnames, List.filter_eq_self.2]
    intro e he
    simpa using hnone e he
  · rintro e u v hhit he hnodup ⟨hsame, hother, ⟨obu, hobu, hleu⟩, hnames⟩ hrun
    obtain heo : e.object = o := by simpa using hhit
    rw [heo] at hrun
    obtain rfl := hdead (u.withNames (u.ddkNameList.filter fun x => x.addr != e.addr)) v o
      obu hobu hleu hrun
    refine ⟨⟨(hsame.trans (sameRest_withNames _ _)).trans (sameRest_put _ _ _), ?_, ?_, ?_⟩,
      fun _ => true, (List.filter_eq_self.2 fun _ _ => rfl).symm⟩
    · intro x hx
      rw [put_of_ne _ _ hx]
      exact hother x hx
    · refine ⟨_, put_self .., ?_⟩
      show obu.refcount - 1 ≤ 0
      omega
    · -- the entry that goes is one of the object
      rw [← hnames]
      show (u.ddkNameList.filter _).filter _ = _
      rw [List.filter_filter]
      refine List.filter_congr fun x hx => ?_
      by_cases hxo : x.object = o
      · simp [hxo]
      · have hne : x.addr ≠ e.addr := by
          intro heq
          rw [List.inj_on_of_nodup_map hnodup hx he heq] at hxo
          exact hxo heo
        simp [hxo, hne]

/-- The destruction of an object without references. -/
theorem freeObject_drops_dying (hderef : Cascades deref) (hdead : CountsDead deref) (hgood : Good s)
    (hob : s.objects o = some ob) (hle : ob.refcount ≤ 0) (h : freeObject deref o s = .ok () t) :
    Drops (some o) s t := by
  rcases freeObject_inv hderef hgood h with ⟨u, v, hdrops, hremove, rfl⟩
  rcases hdrops.dead o ob (by simp) hob hle with ⟨obu, hobu, hcount⟩
  have haddrs : (u.ddkNameList.map (·.addr)).Nodup := by
    rw [hdrops.names]
    exact hgood.addrs.sublist (List.filter_sublist.map _)
  obtain ⟨hnames, hsame, hother⟩ := removeObjectName_dead hdead haddrs hobu (by omega) hremove
  have hgone : (v.freed o).objects o = none := Function.update_self ..
  have hobjects : ∀ x, x ≠ o → (v.freed o).objects x = u.objects x := by
    intro x hx
    rw [← hother x hx]
    exact Function.update_of_ne hx ..
  constructor
  case gone =>
    rintro _ ⟨⟩
    exact hgone
  case names =>
    show v.ddkNameList = _
    rw [hnames, hdrops.names, List.filter_filter]
    refine List.filter_congr fun e _ => ?_
    unfold alive
    by_cases heo : e.object = o
    · rw [heo, hgone]
      simp
    · rw [hobjects _ heo]
      simp [heo]
  case same => exact (hdrops.same.trans hsame).trans ⟨rfl, rfl, rfl, rfl⟩
  case heap =>
    intro x hx
    by_cases hxo : x = o
    · rw [hxo, hgone]
    · rw [hobjects x hxo, hdrops.heap x hx]
  case dead =>
    intro x obx hx hobx hlex
    rw [hobjects x (by rintro rfl; exact hx rfl)]
    exact hdrops.dead x obx (by simp) hobx hlex
  case live =>
    intro x obx hobx hpos
    have hxo : x ≠ o := ne_of_refcount hob hobx (by omega)
    rw [hobjects x hxo]
    exact hdrops.live x obx hobx hpos

end Destroy

/-! ## Releases -/

theorem derefLevels_countsDead (levels : ℕ) : CountsDead (derefLevels levels) := by
  intro s t o ob hob hle h
  cases levels with
  | zero => cases h
  | succ levels => exact (result_eq (derefLevels_ne hob (by omega) levels) h).2.symm

/-- **Releases.** Whatever a release destroys, it drops one reference: by induction on
the levels, since what an object releases on its way out is released one
level below. -/
theorem derefLevels_cascades (levels : ℕ) : Cascades (derefLevels levels) := by
  induction levels with
  | zero =>
    intro s t o hgood hheld h
    cases h
  | succ levels ih =>
    rintro s t o hgood ⟨ob, hob, hpos⟩ h
    by_cases hone : ob.refcount = 1
    · rw [derefLevels_one hob hone] at h
      exact (freeObject_drops_dying ih (derefLevels_countsDead levels) (hgood.put _)
        (put_self ..) (Int.le_refl 0) h).last hob hone
    · obtain ⟨-, rfl⟩ := result_eq (derefLevels_ne hob hone levels) h
      exact drops_put hgood hob (by omega)

theorem ddkDereferenceObject_countsDead : CountsDead ddkDereferenceObject := by
  intro s t o ob hob hle h
  rw [ddkDereferenceObject, get_bind] at h
  exact derefLevels_countsDead _ s t o ob hob hle h

theorem ddkDereferenceObject_cascades : Cascades ddkDereferenceObject := by
  intro s t o hgood hheld h
  rw [ddkDereferenceObject, get_bind] at h
  exact derefLevels_cascades _ s t o hgood hheld h

/-! ## The levels suffice -/

/-- The object has references. -/
def hasRefs (s : State) (x : ObjId) : Bool :=
  match s.objects x with
  | some ob => decide (1 ≤ ob.refcount)
  | none => false

/-- How many objects have references. -/
def liveObjects (s : State) : ℕ := ((Finset.range s.nextObject).filter (hasRefs s ·)).card

theorem hasRefs_iff {s : State} {x : ObjId} : hasRefs s x = true ↔ Held s x := by
  unfold hasRefs Held
  cases s.objects x <;> simp

theorem liveObjects_mono {s t : State} (hnext : t.nextObject = s.nextObject)
    (hheld : ∀ x, Held t x → Held s x) : liveObjects t ≤ liveObjects s := by
  unfold liveObjects
  rw [hnext]
  refine Finset.card_le_card fun x hx => ?_
  rw [Finset.mem_filter, hasRefs_iff] at *
  exact ⟨hx.1, hheld x hx.2⟩

/-- An object whose last reference goes is one less. -/
theorem liveObjects_dying {s : State} {o : ObjId} (hlt : o < s.nextObject) (hheld : Held s o)
    {ob : Object} (hle : ob.refcount ≤ 0) : liveObjects (s.put o (some ob)) < liveObjects s := by
  refine Finset.card_lt_card ((Finset.ssubset_iff_of_subset fun x hx => ?_).2 ⟨o, ?_, ?_⟩)
  · rw [Finset.mem_filter, hasRefs_iff] at *
    rcases hx with ⟨hx, obx, hobx, hpos⟩
    by_cases hxo : x = o
    · rw [hxo, put_self] at hobx
      rcases Option.some.inj hobx with rfl
      omega
    · rw [put_of_ne s _ hxo] at hobx
      exact ⟨hx, obx, hobx, hpos⟩
  · rw [Finset.mem_filter, hasRefs_iff]
    exact ⟨Finset.mem_range.2 hlt, hheld⟩
  · rw [Finset.mem_filter, hasRefs_iff]
    rintro ⟨-, obx, hobx, hpos⟩
    rw [put_self] at hobx
    rcases Option.some.inj hobx with rfl
    omega

section Levels

variable {s : State} {o : ObjId} {k : ℕ} {deref deref' : ObjId → ObM Unit}

/-- Every object has an address below the unused ones. -/
def Bounded (s : State) : Prop := ∀ x, Held s x → x < s.nextObject

/-- Two routines release alike what has references, in states with at most `k` objects that
have some, and what has none. -/
structure SameReleases (k : ℕ) (deref deref' : ObjId → ObM Unit) : Prop where
  held : ∀ s o, Good s → Bounded s → liveObjects s ≤ k → Held s o → deref o s = deref' o s
  dead : ∀ s o ob, s.objects o = some ob → ob.refcount ≤ 0 → deref o s = deref' o s

/-- Two sequences do the same when their first actions do, and the rest of them does
whenever the first action returns. -/
theorem bind_congr_run {α β : Type} {m m' : ObM α} {f f' : α → ObM β} (hm : m s = m' s)
    (hf : ∀ a t, m s = .ok a t → f a t = f' a t) : (m >>= f) s = (m' >>= f') s := by
  cases h : m s with
  | ok a t => rw [bind_ok h, bind_ok (hm ▸ h), hf a t h]
  | error e t => rw [bind_error h, bind_error (hm ▸ h)]

theorem Rewrites.symm {t : State} (h : Rewrites s t) : Rewrites t s :=
  ⟨h.names.symm, ⟨h.same.nextObject.symm, h.same.nextName.symm, h.same.work.symm,
    h.same.uniqueId.symm⟩, fun x => (h.counts x).symm⟩

theorem Rewrites.bounded {t : State} (h : Rewrites s t) (hbounded : Bounded s) : Bounded t := by
  intro x hx
  rw [h.same.nextObject]
  exact hbounded x (h.symm.held hx)

theorem removeDeviceLoop_same (hsame : SameReleases k deref deref') (hcount : liveObjects s ≤ k)
    (hgood : Good s) (hbounded : Bounded s) {driver device : ObjId} (hheld : Held s driver)
    {turns : ℕ} {ppDevice : Option ObjId} :
    removeDeviceLoop deref driver device turns ppDevice s =
      removeDeviceLoop deref' driver device turns ppDevice s := by
  induction turns generalizing ppDevice with
  | zero => rfl
  | succ turns ih =>
    rw [removeDeviceLoop, removeDeviceLoop]
    refine bind_congr_run rfl fun dev t hdev => ?_
    obtain rfl := deviceAt_inv hdev
    cases dev with
    | none => rfl
    | some dev =>
      dsimp only
      split
      · refine bind_congr_run rfl fun next u hnext => ?_
        obtain rfl := deviceAt_inv hnext
        refine bind_congr_run rfl fun _ v hset => ?_
        have hwrites := setDeviceAt_inv hset
        have hcount' := liveObjects_mono hwrites.same.nextObject fun x hx => hwrites.symm.held hx
        exact hsame.held v driver (hwrites.good hgood) (hwrites.bounded hbounded)
          (hcount'.trans hcount) (hwrites.held hheld)
      · exact ih

/-- The loop over the names of an object without references. -/
theorem removeNames_same (hsame : SameReleases k deref deref') (hdead : CountsDead deref)
    {ob : Object} (hob : s.objects o = some ob) (hle : ob.refcount ≤ 0) {turns : ℕ}
    {ppEntry : Option ℕ} :
    removeNames deref (fun e => e.object == o) turns ppEntry s =
      removeNames deref' (fun e => e.object == o) turns ppEntry s := by
  induction turns generalizing s ob ppEntry with
  | zero => rfl
  | succ turns ih =>
    rw [removeNames, removeNames]
    refine bind_congr_run rfl fun e t hentry => ?_
    have hst : t = s := by
      unfold entryAt at hentry
      split at hentry
      · injection hentry with _ hst
        exact hst.symm
      · split at hentry
        · cases hentry
        · injection hentry with _ hst
          exact hst.symm
    subst hst
    cases e with
    | none => rfl
    | some e =>
      dsimp only
      split
      · refine bind_congr_run rfl fun _ u hunlink => ?_
        obtain ⟨-, rfl⟩ := result_eq (modify_run _ _) hunlink
        have heo : e.object = o := by simpa using ‹(e.object == o) = true›
        rw [heo]
        refine bind_congr_run (hsame.dead _ o ob hob hle) fun _ v hderef => ?_
        obtain rfl := hdead (t.withNames (t.ddkNameList.filter fun x => x.addr != e.addr)) v o ob
          hob hle hderef
        exact ih (put_self ..) (by show ob.refcount - 1 ≤ 0; omega)
      · exact ih hob hle

theorem freeObject_same (hsame : SameReleases k deref deref') (hcascades : Cascades deref)
    (hdead : CountsDead deref) (hcount : liveObjects s ≤ k) (hgood : Good s)
    (hbounded : Bounded s) {ob : Object} (hob : s.objects o = some ob) (hle : ob.refcount ≤ 0) :
    freeObject deref o s = freeObject deref' o s := by
  have hnames : ∀ {t}, Drops none s t →
      (do removeObjectName deref o; freeMemory o : ObM Unit) t =
        (do removeObjectName deref' o; freeMemory o : ObM Unit) t := by
    intro t hdrops
    rcases hdrops.dead o ob (by simp) hob hle with ⟨ob', hob', hcount'⟩
    refine bind_congr_run ?_ fun _ _ _ => rfl
    rw [removeObjectName, removeObjectName, get_bind, get_bind]
    exact removeNames_same hsame hdead hob' (by omega)
  have hrefl : Drops none s s := (Rewrites.refl s).drops hgood
  rcases ob with ⟨refcount, body⟩
  rw [freeObject, freeObject, bind_ok (getObject_ok hob), bind_ok (getObject_ok hob)]
  cases body with
  | file deviceObject =>
    cases deviceObject with
    | none => exact hnames hrefl
    | some d =>
      refine bind_congr_run rfl fun obd t hfrom => ?_
      rcases fromPointer_inv hfrom with ⟨hobd, hpos, rfl⟩
      have hrelease := hsame.held t d hgood hbounded hcount ⟨obd, hobd, hpos⟩
      refine bind_congr_run hrelease fun _ u hrun => ?_
      exact hnames (hcascades t u d hgood ⟨obd, hobd, hpos⟩ hrun)
  | device driverObject nextDevice =>
    refine bind_congr_run ?_ fun _ u hrun => hnames (removeDevice_drops hcascades hgood hrun)
    refine bind_congr_run rfl fun d t hdriver => ?_
    rcases getDriver_inv hdriver with ⟨hheld, rfl⟩
    rw [get_bind, get_bind]
    exact removeDeviceLoop_same hsame hcount hgood hbounded hheld
  | driver d => exact hnames hrefl
  | key => exact hnames hrefl
  | event notify => exact hnames hrefl
  | symlink destination enabled => exact hnames hrefl
  | other => exact hnames hrefl

theorem sameReleases_succ {n m : ℕ}
    (hlast : ∀ s o ob, Good s → Bounded s → liveObjects s ≤ k → s.objects o = some ob →
      ob.refcount = 1 → freeObject (derefLevels n) o (s.put o (some { ob with refcount := 0 })) =
        freeObject (derefLevels m) o (s.put o (some { ob with refcount := 0 }))) :
    SameReleases k (derefLevels (n + 1)) (derefLevels (m + 1)) := by
  constructor
  case held =>
    rintro s o hgood hbounded hcount ⟨ob, hob, -⟩
    by_cases hone : ob.refcount = 1
    · rw [derefLevels_one hob hone, derefLevels_one hob hone]
      exact hlast s o ob hgood hbounded hcount hob hone
    · rw [derefLevels_ne hob hone, derefLevels_ne hob hone]
  case dead =>
    intro s o ob hob hle
    rw [derefLevels_ne hob (by omega), derefLevels_ne hob (by omega)]

/-- From one more level than there are objects with references on, the number of
levels does not matter: with each object that is destroyed there is one less. -/
theorem derefLevels_same {n m : ℕ} (hn : k + 1 ≤ n) (hm : k + 1 ≤ m) :
    SameReleases k (derefLevels n) (derefLevels m) := by
  induction k generalizing n m with
  | zero =>
    rcases Nat.exists_eq_add_one_of_ne_zero (by omega : n ≠ 0) with ⟨n, rfl⟩
    rcases Nat.exists_eq_add_one_of_ne_zero (by omega : m ≠ 0) with ⟨m, rfl⟩
    refine sameReleases_succ fun s o ob _ hbounded hcount hob hone => ?_
    -- the object itself has a reference
    have hheld : Held s o := ⟨ob, hob, by omega⟩
    have hless : liveObjects (s.put o (some { ob with refcount := 0 })) < liveObjects s :=
      liveObjects_dying (hbounded o hheld) hheld (Int.le_refl 0)
    omega
  | succ k ih =>
    rcases Nat.exists_eq_add_one_of_ne_zero (by omega : n ≠ 0) with ⟨n, rfl⟩
    rcases Nat.exists_eq_add_one_of_ne_zero (by omega : m ≠ 0) with ⟨m, rfl⟩
    refine sameReleases_succ fun s o ob hgood hbounded hcount hob hone => ?_
    have hheld : Held s o := ⟨ob, hob, by omega⟩
    have hless : liveObjects (s.put o (some { ob with refcount := 0 })) < liveObjects s :=
      liveObjects_dying (hbounded o hheld) hheld (Int.le_refl 0)
    refine freeObject_same (ih (by omega) (by omega)) (derefLevels_cascades n)
      (derefLevels_countsDead n) (by omega) (hgood.put _) ?_ (put_self ..) (Int.le_refl 0)
    rintro x ⟨obx, hobx, hpos⟩
    by_cases hxo : x = o
    · rw [hxo]
      exact hbounded o hheld
    · rw [put_of_ne s _ hxo] at hobx
      exact hbounded x ⟨obx, hobx, hpos⟩

/-- **The levels suffice.** -/
theorem ddkDereferenceObject_levels (hgood : Good s) (hbounded : Bounded s) (hheld : Held s o)
    {levels : ℕ} (hlevels : s.nextObject + 1 ≤ levels) :
    derefLevels levels o s = ddkDereferenceObject o s := by
  have hcount : liveObjects s ≤ s.nextObject := by
    refine (Finset.card_filter_le _ _).trans ?_
    rw [Finset.card_range]
  rw [ddkDereferenceObject, get_bind]
  exact (derefLevels_same hlevels (by omega)).held s o hgood hbounded hcount hheld

end Levels

end Wdutf.Ob
