import Mathlib.Data.Finset.Card
import Mathlib.Data.List.Basic
import Mathlib.Tactic.Common
import Wdutf.Lib.Long
import Wdutf.Ob.Lifetime
import Wdutf.Ob.NameTable

/-!
# Wdutf.Ob.Counts — the reference counts do not wrap, `src/object.cpp`

A reference count is an integer in the model and a `LONG` in the source. The two agree as
long as the counts stay small, and how far a call moves them does not depend on how much it
destroys: a reference that is released along the way was held by a name that goes, or by an
object that is destroyed, and both are there only once.

* `potential`, `Budget` — the names and the objects that can still release something, and a
  bound of all counts together with them;
* `Costs` — what an action adds to the budget, with a rule for each way to compose actions;
* `nameTable_noWrap`, `lifetime_noWrap` — in a run that is not too long no count wraps.
-/

namespace Wdutf.Ob

open Wdutf.Action Wdutf.Long Wdutf.Rtl Wdutf.Transition

/-! ## The budget -/

/-- What is there to be released along the way: the reference of each name, and what each
object with references refers to. -/
def potential (s : State) : ℤ := s.ddkNameList.length + liveObjects s

/-- The counts, and what the releases still to come may take off them, are within `n`. -/
structure Budget (n : ℤ) (s : State) : Prop where
  allocated : ∀ o, s.objects o ≠ none → o < s.nextObject
  room : potential s ≤ n
  refcount : ∀ o ob, s.objects o = some ob → Within (n - potential s) ob.refcount

/-- The counts of `t` are zero or at most `k` away from those of `s`. -/
def Near (k : ℤ) (s t : State) : Prop :=
  ∀ o ob', t.objects o = some ob' → ∃ ob, s.objects o = some ob ∧
    (ob'.refcount = 0 ∨ Within k (ob'.refcount - ob.refcount))

section Budget

variable {s t : State} {n m p k : ℤ} {o : ObjId} {ob : Object}

theorem Budget.mono (h : Budget n s) (hle : n ≤ m) : Budget m s := by
  refine ⟨h.allocated, le_trans h.room hle, fun o ob hob => ?_⟩
  rcases h.refcount o ob hob with ⟨hlow, hhigh⟩
  exact ⟨by omega, by omega⟩

/-- A step that moves counts by `k` and the potential by `p` adds `p + k`. -/
theorem Budget.step (h : Budget n s) (hk : 0 ≤ k) (hnear : Near k s t)
    (hnext : t.nextObject = s.nextObject) (hp : potential t ≤ potential s + p) :
    Budget (n + (p + k)) t := by
  have hpot := h.room
  refine ⟨fun o ho => ?_, by omega, fun o ob' hob' => ?_⟩
  · rcases Option.ne_none_iff_exists'.1 ho with ⟨ob', hob'⟩
    rcases hnear o ob' hob' with ⟨ob, hob, -⟩
    rw [hnext]
    exact h.allocated o (by rw [hob]; exact Option.some_ne_none ob)
  · rcases hnear o ob' hob' with ⟨ob, hob, hzero | ⟨hlow', hhigh'⟩⟩
    · rw [hzero]
      exact ⟨by omega, by omega⟩
    · rcases h.refcount o ob hob with ⟨hlow, hhigh⟩
      exact ⟨by omega, by omega⟩

theorem potential_le (hnames : t.ddkNameList = s.ddkNameList)
    (hlive : (liveObjects t : ℤ) ≤ liveObjects s + p) : potential t ≤ potential s + p := by
  unfold potential
  rw [hnames]
  omega

theorem Budget.held_lt (h : Budget n s) (hheld : Held s o) : o < s.nextObject := by
  rcases hheld with ⟨ob, hob, -⟩
  exact h.allocated o (by rw [hob]; exact Option.some_ne_none ob)

/-- When other objects have no more references, there is at most one object more that has
some. -/
theorem Budget.liveObjects_le (h : Budget n s) (hothers : ∀ x, x ≠ o → Held t x → Held s x) :
    liveObjects t ≤ liveObjects s + 1 := by
  refine le_trans (Finset.card_le_card fun x hx => ?_) (Finset.card_insert_le o _)
  rw [Finset.mem_filter, hasRefs_iff] at hx
  by_cases hxo : x = o
  · rw [hxo]
    exact Finset.mem_insert_self o _
  · have hheld := hothers x hxo hx.2
    refine Finset.mem_insert_of_mem (Finset.mem_filter.2 ⟨?_, hasRefs_iff.2 hheld⟩)
    exact Finset.mem_range.2 (h.held_lt hheld)

theorem near_put (hob : s.objects o = some ob) {ob' : Object} (hk : 0 ≤ k)
    (hmoved : ob'.refcount = 0 ∨ Within k (ob'.refcount - ob.refcount)) :
    Near k s (s.put o (some ob')) := by
  intro x obx hobx
  by_cases hx : x = o
  · rw [hx, put_self] at hobx
    cases hobx
    exact ⟨ob, hx ▸ hob, hmoved⟩
  · rw [put_of_ne s _ hx] at hobx
    exact ⟨obx, hobx, Or.inr ⟨by omega, by omega⟩⟩

theorem held_of_put_ne {v : Option Object} {x : ObjId} (hx : x ≠ o) (hheld : Held (s.put o v) x) :
    Held s x := by
  rcases hheld with ⟨obx, hobx, hpos⟩
  rw [put_of_ne s _ hx] at hobx
  exact ⟨obx, hobx, hpos⟩

/-- An object that is written has references only if it had some. -/
theorem held_of_put (hob : s.objects o = some ob) {ob' : Object}
    (hle : ob'.refcount ≤ ob.refcount) {x : ObjId} (hheld : Held (s.put o (some ob')) x) :
    Held s x := by
  by_cases hx : x = o
  · rcases hheld with ⟨obx, hobx, hpos⟩
    rw [hx, put_self] at hobx
    cases hobx
    exact ⟨ob, hx ▸ hob, by omega⟩
  · exact held_of_put_ne hx hheld

/-- A count goes up. -/
theorem Budget.put_up (h : Budget n s) (hob : s.objects o = some ob) {ob' : Object}
    (hmoved : Within 1 (ob'.refcount - ob.refcount)) : Budget (n + 2) (s.put o (some ob')) := by
  have hlive : liveObjects (s.put o (some ob')) ≤ liveObjects s + 1 :=
    h.liveObjects_le fun x hx => held_of_put_ne hx
  exact h.step (p := 1) (k := 1) (by omega) (near_put hob (by omega) (Or.inr hmoved)) rfl
    (potential_le rfl (by omega))

/-- A count goes down by at most `k`. -/
theorem Budget.put_down (h : Budget n s) (hob : s.objects o = some ob) {ob' : Object}
    (hk : 0 ≤ k) (hle : ob'.refcount ≤ ob.refcount)
    (hmoved : Within k (ob'.refcount - ob.refcount)) : Budget (n + k) (s.put o (some ob')) := by
  have hlive : liveObjects (s.put o (some ob')) ≤ liveObjects s :=
    liveObjects_mono rfl fun x => held_of_put hob hle
  have hstep := h.step (p := 0) hk (near_put hob hk (Or.inr hmoved)) rfl
    (potential_le rfl (by omega))
  exact hstep.mono (by omega)

/-- The last reference goes: there is one object less to be destroyed. -/
theorem Budget.put_last (h : Budget n s) (hob : s.objects o = some ob) (hone : ob.refcount = 1)
    {ob' : Object} (hzero : ob'.refcount = 0) : Budget (n - 1) (s.put o (some ob')) := by
  have hheld : Held s o := ⟨ob, hob, by omega⟩
  have hlive : liveObjects (s.put o (some ob')) < liveObjects s :=
    liveObjects_dying (h.held_lt hheld) hheld (by omega)
  have hstep := h.step (p := -1) (le_refl 0) (near_put hob (le_refl 0) (Or.inl hzero)) rfl
    (potential_le rfl (by omega))
  exact hstep.mono (by omega)

/-- A new object has one reference. -/
theorem Budget.allocate (h : Budget n s) (body : Body) : Budget (n + 2) (s.allocated body) := by
  have hlive : liveObjects (s.allocated body) ≤ liveObjects s + 1 := by
    refine h.liveObjects_le (o := s.nextObject) ?_
    rintro x hx ⟨obx, hobx, hpos⟩
    rw [allocated_of_ne s body hx] at hobx
    exact ⟨obx, hobx, hpos⟩
  have hpot : potential (s.allocated body) ≤ potential s + 1 := potential_le rfl (by omega)
  have hroom := h.room
  refine ⟨fun o ho => ?_, by omega, fun o ob hob => ?_⟩
  · show o < s.nextObject + 1
    by_cases hx : o = s.nextObject
    · rw [hx]
      exact Nat.lt_succ_self _
    · rw [allocated_of_ne s body hx] at ho
      exact Nat.lt_succ_of_lt (h.allocated o ho)
  · by_cases hx : o = s.nextObject
    · rw [hx, allocated_self] at hob
      cases hob
      exact ⟨by simp only; omega, by simp only; omega⟩
    · rw [allocated_of_ne s body hx] at hob
      rcases h.refcount o ob hob with ⟨hlow, hhigh⟩
      exact ⟨by omega, by omega⟩

/-- An object is freed. -/
theorem Budget.free (h : Budget n s) (o : ObjId) : Budget n (s.put o none) := by
  have hof : ∀ x obx, (s.put o none).objects x = some obx → s.objects x = some obx := by
    intro x obx hobx
    by_cases hx : x = o
    · rw [hx, put_self] at hobx
      cases hobx
    · rwa [put_of_ne s _ hx] at hobx
  have hlive : liveObjects (s.put o none) ≤ liveObjects s := by
    refine liveObjects_mono rfl ?_
    rintro x ⟨obx, hobx, hpos⟩
    exact ⟨obx, hof x obx hobx, hpos⟩
  have hnear : Near 0 s (s.put o none) :=
    fun x obx hobx => ⟨obx, hof x obx hobx, Or.inr ⟨by omega, by omega⟩⟩
  exact (h.step (p := 0) (le_refl 0) hnear rfl (potential_le rfl (by omega))).mono (by omega)

/-- The list of names changes. -/
theorem Budget.names (h : Budget n s) {names : List Name}
    (hlen : (names.length : ℤ) ≤ s.ddkNameList.length + p) :
    Budget (n + p) (s.withNames names) := by
  have hroom := h.room
  have hpot : potential (s.withNames names) ≤ potential s + p := by
    show (names.length : ℤ) + liveObjects s ≤ s.ddkNameList.length + liveObjects s + p
    omega
  refine ⟨h.allocated, by omega, fun o ob hob => ?_⟩
  rcases h.refcount o ob hob with ⟨hlow, hhigh⟩
  exact ⟨by omega, by omega⟩

/-- Other members of objects are written. -/
theorem Rewrites.budget (h : Rewrites s t) (hbudget : Budget n s) : Budget n t := by
  have hnear : Near 0 s t := by
    intro o ob' hob'
    rcases h.symm.of_some hob' with ⟨ob, hob, hcount⟩
    exact ⟨ob, hob, Or.inr ⟨by omega, by omega⟩⟩
  have hlive : liveObjects t ≤ liveObjects s :=
    liveObjects_mono h.same.nextObject fun x => h.symm.held
  exact (hbudget.step (p := 0) (le_refl 0) hnear h.same.nextObject
    (potential_le h.names (by omega))).mono (by omega)

end Budget

/-! ## What an action adds -/

/-- The action adds at most `k` to the budget, if it returns. -/
def Costs (k : ℤ) {α : Type} (m : ObM α) : Prop :=
  ∀ n s a t, Budget n s → m s = .ok a t → Budget (n + k) t

section Rules

variable {α β : Type} {m m' : ObM α} {k l : ℤ}

theorem Costs.mono (h : Costs k m) (hle : k ≤ l) : Costs l m := by
  intro n s a t hbudget hrun
  exact (h n s a t hbudget hrun).mono (by omega)

theorem Costs.bind {f : α → ObM β} (h : Costs k m) (hf : ∀ a, Costs l (f a)) :
    Costs (k + l) (m >>= f) := by
  intro n s b t hbudget hrun
  rcases bind_inv hrun with ⟨a, u, hm, hfa⟩
  rw [← Int.add_assoc]
  exact hf a _ u b t (h n s a u hbudget hm) hfa

/-- An action that only reads. -/
theorem costs_read (hread : ∀ s a t, m s = .ok a t → t = s) : Costs 0 m := by
  intro n s a t hbudget hrun
  rw [hread s a t hrun, Int.add_zero]
  exact hbudget

theorem costs_pure (a : α) : Costs 0 (pure a : ObM α) :=
  costs_read fun s _ _ hrun => (result_eq (pure_run a s) hrun).2.symm

theorem costs_throw (f : Fault) : Costs 0 (throw f : ObM α) :=
  costs_read fun s a t hrun => by cases hrun

theorem costs_get : Costs 0 (get : ObM State) :=
  costs_read fun s a t hrun => by cases hrun; rfl

theorem Costs.ite {p : Prop} [Decidable p] (h : Costs k m) (h' : Costs k m') :
    Costs k (if p then m else m') := by
  split
  · exact h
  · exact h'

/-- A change of other parts of the state. -/
theorem costs_modify {f : State → State}
    (hsame : ∀ n s, Budget n s → Budget n (f s)) : Costs 0 (modify f : ObM Unit) := by
  intro n s a t hbudget hrun
  obtain ⟨-, rfl⟩ := result_eq (modify_run f s) hrun
  rw [Int.add_zero]
  exact hsame n s hbudget

end Rules

/-! ## Objects -/

section Objects

theorem getObject_costs (o : ObjId) : Costs 0 (getObject o) :=
  costs_read fun _ _ _ hrun => (getObject_inv hrun).2

theorem fromPointer_costs (o : ObjId) : Costs 0 (fromPointer o) :=
  costs_read fun _ _ _ hrun => (fromPointer_inv hrun).2.2

theorem getDriver_costs (o : ObjId) : Costs 0 (getDriver o) :=
  costs_read fun _ _ _ hrun => (getDriver_inv hrun).2

theorem deviceAt_costs (driver : ObjId) (ppDevice : Option ObjId) :
    Costs 0 (deviceAt driver ppDevice) :=
  costs_read fun _ _ _ hrun => deviceAt_inv hrun

theorem note_costs (n : Note) : Costs 0 (note n) :=
  costs_modify fun _ _ h => ⟨h.allocated, h.room, h.refcount⟩

theorem ddkAllocObject_costs (body : Body) : Costs 2 (ddkAllocObject body) := by
  intro n s o t hbudget hrun
  obtain ⟨-, rfl⟩ := result_eq (ddkAllocObject_run body s) hrun
  exact hbudget.allocate body

theorem freeMemory_costs (o : ObjId) : Costs 0 (freeMemory o) :=
  (costs_modify fun _ _ h => h.free o).bind fun _ => note_costs _

theorem ddkReferenceObject_costs (o : ObjId) : Costs 2 (ddkReferenceObject o) := by
  intro n s a t hbudget hrun
  rcases bind_inv hrun with ⟨ob, u, hget, hset⟩
  rcases getObject_inv hget with ⟨hob, rfl⟩
  obtain ⟨-, rfl⟩ := result_eq (setObject_run _ _ _) hset
  exact hbudget.put_up hob ⟨by simp only; omega, by simp only; omega⟩

theorem setDeviceAt_costs (driver : ObjId) (ppDevice value : Option ObjId) :
    Costs 0 (setDeviceAt driver ppDevice value) := by
  intro n s a t hbudget hrun
  rw [Int.add_zero]
  exact (setDeviceAt_inv hrun).budget hbudget

end Objects

/-! ## Releases -/

section Releases

variable {deref : ObjId → ObM Unit}

theorem entryAt_inv {ppEntry : Option ℕ} {s t : State} {e : Option Name}
    (h : entryAt ppEntry s = .ok e t) : t = s ∧ ∀ x, e = some x → x ∈ s.ddkNameList := by
  unfold entryAt at h
  cases ppEntry with
  | none =>
    injection h with he ht
    subst he ht
    exact ⟨rfl, fun x hx => List.mem_of_mem_head? hx⟩
  | some addr =>
    simp only at h
    split at h
    · cases h
    · rename_i d rest hdrop
      injection h with he ht
      subst he ht
      refine ⟨rfl, fun x hx => ?_⟩
      have hmem : x ∈ s.ddkNameList.dropWhile (fun e => e.addr != addr) := by
        rw [hdrop]
        exact List.mem_cons_of_mem _ (List.mem_of_mem_head? hx)
      exact (List.dropWhile_sublist _).subset hmem

/-- The reference of an entry pays for its release. -/
theorem removeNames_costs (hderef : ∀ o, Costs 1 (deref o)) (hit : Name → Bool) (turns : ℕ)
    (ppEntry : Option ℕ) : Costs 0 (removeNames deref hit turns ppEntry) := by
  induction turns generalizing ppEntry with
  | zero => exact costs_throw _
  | succ turns ih =>
    intro n s a t hbudget hrun
    rw [removeNames] at hrun
    rcases bind_inv hrun with ⟨e, u, hentry, hrun⟩
    rcases entryAt_inv hentry with ⟨rfl, hmem⟩
    cases e with
    | none => exact costs_pure () n u a t hbudget hrun
    | some e =>
      simp only at hrun
      split at hrun
      · rcases bind_inv hrun with ⟨_, v, hunlink, hrun⟩
        obtain ⟨-, rfl⟩ := result_eq (modify_run _ u) hunlink
        have hless : Budget (n + -1)
            (u.withNames (u.ddkNameList.filter fun x => x.addr != e.addr)) := by
          refine hbudget.names ?_
          have hlt : (u.ddkNameList.filter fun x => x.addr != e.addr).length <
              u.ddkNameList.length :=
            List.length_filter_lt_length_iff_exists.2 ⟨e, hmem e rfl, by simp⟩
          omega
        have hrest := (hderef e.object).bind (fun _ => ih ppEntry) _ _ a t hless hrun
        exact hrest.mono (by omega)
      · exact ih (some e.addr) n u a t hbudget hrun

theorem removeObjectName_costs (hderef : ∀ o, Costs 1 (deref o)) (o : ObjId) :
    Costs 0 (removeObjectName deref o) :=
  costs_get.bind fun _ => removeNames_costs hderef _ _ none

theorem removeDeviceLoop_costs (hderef : ∀ o, Costs 1 (deref o)) (driver device : ObjId)
    (turns : ℕ) (ppDevice : Option ObjId) :
    Costs 1 (removeDeviceLoop deref driver device turns ppDevice) := by
  induction turns generalizing ppDevice with
  | zero => exact (costs_throw _).mono (by omega)
  | succ turns ih =>
    rw [removeDeviceLoop]
    refine (deviceAt_costs driver ppDevice).bind (l := 1) fun dev => ?_
    cases dev with
    | none => exact (costs_pure ()).mono (by omega)
    | some dev =>
      refine Costs.ite ?_ (ih (some dev))
      exact (deviceAt_costs _ _).bind (l := 1) fun next =>
        (setDeviceAt_costs _ _ _).bind (l := 1) fun _ => hderef driver

theorem removeDevice_costs (hderef : ∀ o, Costs 1 (deref o)) (driver device : ObjId) :
    Costs 1 (removeDevice deref driver device) :=
  (getDriver_costs driver).bind (l := 1) fun _ =>
    costs_get.bind (l := 1) fun _ => removeDeviceLoop_costs hderef _ _ _ none

/-- An object refers to at most one other. -/
theorem freeObject_costs (hderef : ∀ o, Costs 1 (deref o)) (o : ObjId) :
    Costs 1 (freeObject deref o) := by
  have hrest : Costs 0 (do removeObjectName deref o; freeMemory o) :=
    (removeObjectName_costs hderef o).bind fun _ => freeMemory_costs o
  refine (getObject_costs o).bind (l := 1) fun ob => ?_
  rcases ob with ⟨refcount, body⟩
  cases body with
  | file device =>
    cases device with
    | none => exact hrest.mono (by omega)
    | some device =>
      exact (fromPointer_costs device).bind (l := 1) fun _ =>
        (hderef device).bind (l := 0) fun _ => hrest
  | device driver next => exact (removeDevice_costs hderef driver o).bind (l := 0) fun _ => hrest
  | _ => exact hrest.mono (by omega)

/-- A release adds one, whatever it destroys: the last reference takes an object off those
that can be destroyed, which pays for the reference this one has. -/
theorem derefLevels_costs (levels : ℕ) (o : ObjId) : Costs 1 (derefLevels levels o) := by
  induction levels generalizing o with
  | zero => exact (costs_throw _).mono (by omega)
  | succ levels ih =>
    intro n s a t hbudget hrun
    rw [derefLevels] at hrun
    rcases bind_inv hrun with ⟨ob, u, hget, hcount⟩
    rcases getObject_inv hget with ⟨hob, rfl⟩
    rcases bind_inv hcount with ⟨_, v, hset, hrest⟩
    obtain ⟨-, rfl⟩ := result_eq (setObject_run _ _ _) hset
    split at hrest
    · have hlast : Budget (n - 1) (u.put o (some { ob with refcount := ob.refcount - 1 })) :=
        hbudget.put_last hob (by omega) (by simp only; omega)
      exact (freeObject_costs ih o _ _ a t hlast hrest).mono (by omega)
    · obtain ⟨-, rfl⟩ := result_eq (pure_run _ _) hrest
      exact hbudget.put_down hob (by omega) (by simp only; omega)
        ⟨by simp only; omega, by simp only; omega⟩

theorem ddkDereferenceObject_costs (o : ObjId) : Costs 1 (ddkDereferenceObject o) :=
  costs_get.bind (l := 1) fun _ => derefLevels_costs _ o

theorem ddkRemoveObjectName_costs (o : ObjId) : Costs 0 (ddkRemoveObjectName o) :=
  removeObjectName_costs ddkDereferenceObject_costs o

end Releases

/-! ## Names -/

theorem ddkAssert_costs (condition : Bool) : Costs 0 (ddkAssert condition) :=
  Costs.ite (costs_pure ()) (costs_throw _)

theorem ddkCreatePath_costs (name : UnicodeString) (dir pre : List Wchar) :
    Costs 0 (ddkCreatePath name dir pre) :=
  (ddkAssert_costs _).bind fun _ => costs_pure _

theorem findName_costs (path : UnicodeString) (names : List Name) :
    Costs 0 (findName path names) := by
  induction names with
  | nil => exact costs_pure none
  | cons e rest ih =>
    rw [findName]
    refine Costs.ite ((getObject_costs _).bind (l := 0) fun ob => ?_) ih
    exact Costs.ite (costs_pure _) ih

theorem ddkFindName_costs (path : UnicodeString) : Costs 0 (ddkFindName path) :=
  costs_get.bind fun _ => findName_costs path _

theorem linkName_costs (o : ObjId) (path : UnicodeString) : Costs 1 (linkName o path) := by
  intro n s a t hbudget hrun
  obtain ⟨-, rfl⟩ := result_eq (modify_run _ s) hrun
  have hnames : Budget (n + 1) (s.withNames (⟨s.nextName, o, path⟩ :: s.ddkNameList)) :=
    hbudget.names (by rw [List.length_cons]; omega)
  exact ⟨hnames.allocated, hnames.room, hnames.refcount⟩

theorem ddkCreateName_costs (name : UnicodeString) (o : ObjId) (dir : List Wchar) :
    Costs 3 (ddkCreateName name o dir) := by
  refine (ddkAssert_costs _).bind (l := 3) fun _ => (ddkCreatePath_costs _ _ _).bind (l := 3)
    fun path => (ddkFindName_costs path).bind (l := 3) fun found => ?_
  cases found with
  | some lookup =>
    exact (ddkReferenceObject_costs lookup).bind (l := 1) fun _ =>
      (ddkDereferenceObject_costs o).bind fun _ => costs_pure lookup
  | none =>
    exact (linkName_costs o path).bind (l := 2) fun _ =>
      (ddkReferenceObject_costs o).bind fun _ => costs_pure o

theorem ddkInsertName_costs (name : UnicodeString) (o : ObjId) (dir : List Wchar) :
    Costs 4 (ddkInsertName name o dir) :=
  (ddkCreateName_costs name o dir).bind (l := 1) fun result =>
    Costs.ite ((ddkDereferenceObject_costs result).bind fun _ => costs_pure false)
      ((costs_pure true).mono (by omega))

theorem ddkRemoveName_costs (name : UnicodeString) : Costs 0 (ddkRemoveName name) :=
  costs_get.bind fun _ => removeNames_costs ddkDereferenceObject_costs _ _ none

theorem ddkLookupName_costs (name : UnicodeString) (dir : List Wchar) :
    Costs 2 (ddkLookupName name dir) := by
  refine (ddkCreatePath_costs _ _ _).bind (l := 2) fun path =>
    (ddkFindName_costs path).bind (l := 2) fun found => ?_
  cases found with
  | some o => exact (ddkReferenceObject_costs o).bind fun _ => costs_pure (some o)
  | none => exact (costs_pure none).mono (by omega)

/-! ## Drivers and devices -/

theorem addDeviceLoop_costs (driver device : ObjId) (turns : ℕ) (ppDevice : Option ObjId) :
    Costs 0 (addDeviceLoop driver device turns ppDevice) := by
  induction turns generalizing ppDevice with
  | zero => exact costs_throw _
  | succ turns ih =>
    rw [addDeviceLoop]
    refine (deviceAt_costs driver ppDevice).bind (l := 0) fun dev => ?_
    cases dev with
    | some dev => exact ih (some dev)
    | none => exact setDeviceAt_costs driver ppDevice (some device)

theorem ddkAddDevice_costs (driver device : ObjId) : Costs 2 (ddkAddDevice driver device) :=
  (getDriver_costs driver).bind (l := 2) fun _ => costs_get.bind (l := 2) fun _ =>
    (addDeviceLoop_costs _ _ _ none).bind (l := 2) fun _ =>
      (ddkReferenceObject_costs driver).bind fun _ => note_costs _

theorem insertDeviceName_costs (device : ObjId) (deviceName : Option UnicodeString)
    (autogenerated : Bool) : Costs 4 (insertDeviceName device deviceName autogenerated) := by
  unfold insertDeviceName
  cases deviceName with
  | some name => exact ddkInsertName_costs name device deviceDir
  | none =>
    refine Costs.ite ?_ ((costs_pure true).mono (by omega))
    have hcount : Costs 0 (modify fun s => { s with uniqueId := s.uniqueId + 1 } : ObM Unit) :=
      costs_modify fun _ _ h => ⟨h.allocated, h.room, h.refcount⟩
    exact hcount.bind (l := 4) fun _ =>
      costs_get.bind (l := 4) fun _ => ddkInsertName_costs _ device deviceDir

theorem ioCreateDevice_costs (memory : Bool) (driver : ObjId) (deviceName : Option UnicodeString)
    (autogenerated : Bool) : Costs 8 (ioCreateDevice memory driver deviceName autogenerated) := by
  refine Costs.ite ?_ ((costs_pure _).mono (by omega))
  refine (ddkAllocObject_costs _).bind (l := 6) fun device => ?_
  refine (insertDeviceName_costs device deviceName autogenerated).bind (l := 2) fun inserted => ?_
  refine Costs.ite ?_ ((costs_pure _).mono (by omega))
  exact (ddkAddDevice_costs driver device).bind fun _ => costs_pure _

theorem ioDeleteDevice_costs (device : ObjId) : Costs 1 (ioDeleteDevice device) := by
  refine (fromPointer_costs device).bind (l := 1) fun ob => ?_
  rcases ob with ⟨refcount, body⟩
  cases body with
  | device driver next =>
    exact (ddkRemoveObjectName_costs device).bind (l := 1) fun _ =>
      ddkDereferenceObject_costs device
  | _ => exact (costs_throw _).mono (by omega)

theorem deviceFrom_costs (driver : ObjId) (position : ℕ) (ppDevice : Option ObjId) :
    Costs 0 (deviceFrom driver position ppDevice) := by
  induction position generalizing ppDevice with
  | zero => exact deviceAt_costs driver ppDevice
  | succ position ih =>
    rw [deviceFrom]
    refine (deviceAt_costs driver ppDevice).bind (l := 0) fun dev => ?_
    cases dev with
    | none => exact costs_pure none
    | some dev => exact ih (some dev)

/-- A routine of a driver adds eight for each call that it makes. -/
theorem runActions_costs (driver : ObjId) (actions : List DeviceAction) :
    Costs (8 * actions.length) (runActions driver actions) := by
  induction actions with
  | nil => exact costs_pure ()
  | cons action rest ih =>
    cases action with
    | create memory deviceName autogenerated =>
      refine ((ioCreateDevice_costs memory driver deviceName autogenerated).bind fun _ =>
        ih).mono ?_
      rw [List.length_cons]
      push_cast
      omega
    | delete position =>
      refine ((deviceFrom_costs driver position none).bind (l := 1 + 8 * rest.length)
        fun dev => ?_).mono ?_
      · cases dev with
        | none => exact (costs_pure ()).bind (l := 8 * rest.length) (fun _ => ih) |>.mono (by omega)
        | some device => exact (ioDeleteDevice_costs device).bind fun _ => ih
      · rw [List.length_cons]
        push_cast
        omega

theorem driverBody_costs (o : ObjId) : Costs 0 (driverBody o) := by
  refine (getObject_costs o).bind (l := 0) fun ob => ?_
  rcases ob with ⟨refcount, body⟩
  cases body with
  | driver d => exact costs_pure d
  | _ => exact costs_throw _

theorem setDriverBody_costs (o : ObjId) (d : Driver) : Costs 0 (setDriverBody o d) := by
  intro n s a t hbudget hrun
  rcases bind_inv hrun with ⟨ob, u, hget, hset⟩
  rcases getObject_inv hget with ⟨hob, rfl⟩
  obtain ⟨-, rfl⟩ := result_eq (setObject_run _ _ _) hset
  rw [Int.add_zero]
  exact (rewrites_put hob _).budget hbudget

theorem ddkDriverEntry_costs (driver : ObjId) (init : DriverInit) :
    Costs (8 * init.entry.length) (ddkDriverEntry driver init) := by
  refine ((runActions_costs driver init.entry).bind (l := 0) fun _ => ?_).mono (by omega)
  exact Costs.ite ((driverBody_costs driver).bind fun _ => setDriverBody_costs driver _)
    (costs_throw _)

theorem ddkCreateDriver_costs (name : UnicodeString) (init : DriverInit) (image : Bool) :
    Costs (7 + 8 * (init.entry.length + init.addDevice.length))
      (ddkCreateDriver name init image) := by
  have hfirst (driver : ObjId) : Costs 0 (firstLoad driver) :=
    (driverBody_costs driver).bind (l := 0) fun _ =>
      (setDriverBody_costs driver _).bind fun _ => note_costs _
  refine ((ddkAllocObject_costs _).bind (l := 5 + 8 * (init.entry.length + init.addDevice.length))
    fun driver => ?_).mono (by omega)
  refine ((ddkInsertName_costs name driver driverDir).bind
    (l := 1 + 8 * (init.entry.length + init.addDevice.length)) fun inserted => ?_).mono (by omega)
  refine Costs.ite ?_ ?_
  · refine Costs.mono (k := 8 * init.entry.length + (0 + (8 * init.addDevice.length + 0))) ?_
      (by omega)
    exact (ddkDriverEntry_costs driver init).bind fun _ => (hfirst driver).bind fun _ =>
      (runActions_costs driver init.addDevice).bind fun _ => costs_pure _
  · exact ((ddkDereferenceObject_costs driver).bind fun _ => costs_pure _).mono (by omega)

theorem ddkReferenceDriver_costs (o : ObjId) (loaded : Bool) :
    Costs 0 (ddkReferenceDriver o loaded) := by
  refine (driverBody_costs o).bind (l := 0) fun d => ?_
  exact Costs.ite (costs_throw _) ((setDriverBody_costs o _).bind fun _ => costs_pure _)

theorem loadDriver_costs (image : Bool) (wname name : UnicodeString) (init : DriverInit) :
    Costs (9 + 8 * (init.entry.length + init.addDevice.length))
      (loadDriver image wname name init) := by
  refine ((ddkLookupName_costs wname driverDir).bind
    (l := 7 + 8 * (init.entry.length + init.addDevice.length)) fun found => ?_).mono (by omega)
  cases found with
  | some o => exact (ddkReferenceDriver_costs o image).mono (by omega)
  | none => exact ddkCreateDriver_costs name init image

theorem unloadDriver_costs (name : UnicodeString) (exit : DriverExit) :
    Costs (4 + 8 * (exit.pnpUnload.length + exit.driverUnload.length))
      (unloadDriver name exit) := by
  have hlast (o : ObjId) : Costs 0 (lastLoad o) := by
    refine (driverBody_costs o).bind (l := 0) fun d => ?_
    exact Costs.ite (costs_pure false) ((setDriverBody_costs o _).bind fun _ => costs_pure _)
  have hexit (o : ObjId) : Costs (8 * (exit.pnpUnload.length + exit.driverUnload.length))
      (exitRoutines o exit) := by
    refine ((runActions_costs o exit.pnpUnload).bind (l := 8 * exit.driverUnload.length)
      fun _ => ?_).mono (by omega)
    refine ((driverBody_costs o).bind (l := 8 * exit.driverUnload.length) fun d => ?_).mono
      (by omega)
    refine Costs.ite ?_ ((costs_pure ()).mono (by omega))
    exact ((note_costs _).bind fun _ => runActions_costs o exit.driverUnload).mono (by omega)
  have hwait (o : ObjId) : Costs 0 (ddkWaitLastReference o 2) :=
    (getObject_costs o).bind (l := 0) fun _ => Costs.ite (costs_throw _) (costs_pure ())
  have hreleases (o : ObjId) : Costs 2 (do ddkDereferenceObject o; ddkDereferenceObject o) :=
    (ddkDereferenceObject_costs o).bind fun _ => ddkDereferenceObject_costs o
  refine ((ddkLookupName_costs name driverDir).bind
    (l := 2 + 8 * (exit.pnpUnload.length + exit.driverUnload.length)) fun found => ?_).mono
    (by omega)
  cases found with
  | none => exact (costs_pure ()).mono (by omega)
  | some o =>
    refine ((hlast o).bind (l := 2 + 8 * (exit.pnpUnload.length + exit.driverUnload.length))
      fun last => ?_).mono (by omega)
    cases last with
    | false => exact (hreleases o).mono (by omega)
    | true =>
      exact ((hexit o).bind (l := 2) fun _ => (ddkRemoveObjectName_costs o).bind (l := 2) fun _ =>
        (hwait o).bind (l := 2) fun _ => hreleases o).mono (by omega)

/-! ## Runs -/

section Runs

variable {s : State} {n : ℤ}

theorem potential_nonneg (s : State) : 0 ≤ potential s := by
  unfold potential
  omega

theorem Budget.noWrap (h : Budget n s) (hn : n + 1 < 2 ^ 31) {o : ObjId} {ob : Object}
    (hob : s.objects o = some ob) : NoWrap ob.refcount := by
  have hpot := potential_nonneg s
  rcases h.refcount o ob hob with ⟨hlow, hhigh⟩
  have hwithin : Within n ob.refcount := ⟨by omega, by omega⟩
  exact hwithin.noWrap hn

theorem init_budget (h : Init s) : Budget 0 s := by
  rcases h with ⟨hobjects, hnames, -⟩
  have hlive : liveObjects s = 0 := by
    refine Finset.card_eq_zero.2 (Finset.filter_eq_empty_iff.2 fun x _ hx => ?_)
    rcases hasRefs_iff.1 hx with ⟨ob, hob, -⟩
    rw [hobjects x] at hob
    cases hob
  refine ⟨fun o ho => absurd (hobjects o) ho, ?_, fun o ob hob => ?_⟩
  · rw [potential, hnames, hlive]
    rfl
  · rw [hobjects o] at hob
    cases hob

/-- A step of the name table adds at most four. -/
theorem perform_costs (e : Event) : Costs 4 (perform e) := by
  cases e with
  | alloc body => exact ((ddkAllocObject_costs body).bind fun _ => costs_pure _).mono (by omega)
  | write o body =>
    have hwrite : Costs 0 (writeBody o body) := by
      intro n s a t hbudget hrun
      rcases bind_inv hrun with ⟨ob, u, hget, hset⟩
      rcases getObject_inv hget with ⟨hob, rfl⟩
      obtain ⟨-, rfl⟩ := result_eq (setObject_run _ _ _) hset
      rw [Int.add_zero]
      exact (rewrites_put hob body).budget hbudget
    exact (hwrite.bind fun _ => costs_pure _).mono (by omega)
  | reference o =>
    exact (((fromPointer_costs o).bind fun _ => ddkReferenceObject_costs o).bind fun _ =>
      costs_pure _).mono (by omega)
  | dereference o =>
    exact (((fromPointer_costs o).bind fun _ => ddkDereferenceObject_costs o).bind fun _ =>
      costs_pure _).mono (by omega)
  | deferDelete o =>
    have hdefer : Costs 1 (obDereferenceObjectDeferDelete o) := by
      intro n s a t hbudget hrun
      rcases bind_inv hrun with ⟨ob, u, hfrom, hcount⟩
      rcases fromPointer_inv hfrom with ⟨hob, -, rfl⟩
      rcases bind_inv hcount with ⟨_, v, hset, hrest⟩
      obtain ⟨-, rfl⟩ := result_eq (setObject_run _ _ _) hset
      have hdown : Budget (n + 1) (u.put o (some { ob with refcount := ob.refcount - 1 })) :=
        hbudget.put_down hob (by omega) (by simp only; omega)
          ⟨by simp only; omega, by simp only; omega⟩
      have hsubmit : Costs 0 (if ob.refcount - 1 = 0 then
          modify fun s => { s with work := o :: s.work } else pure () : ObM Unit) :=
        Costs.ite (costs_modify fun _ _ h => ⟨h.allocated, h.room, h.refcount⟩) (costs_pure ())
      exact (hsubmit _ _ a t hdown hrest).mono (by omega)
    exact (hdefer.bind fun _ => costs_pure _).mono (by omega)
  | callback o =>
    have herase : Costs 0 (modify fun s => { s with work := s.work.erase o } : ObM Unit) :=
      costs_modify fun _ _ h => ⟨h.allocated, h.room, h.refcount⟩
    exact ((herase.bind fun _ => freeObject_costs ddkDereferenceObject_costs o).bind fun _ =>
      costs_pure _).mono (by omega)
  | createName name o dir =>
    exact ((ddkCreateName_costs name o dir).bind fun _ => costs_pure _).mono (by omega)
  | insertName name o dir =>
    exact ((ddkInsertName_costs name o dir).bind fun _ => costs_pure _).mono (by omega)
  | removeName name => exact ((ddkRemoveName_costs name).bind fun _ => costs_pure _).mono (by omega)
  | removeObjectName o =>
    exact ((ddkRemoveObjectName_costs o).bind fun _ => costs_pure _).mono (by omega)
  | lookupName name dir =>
    exact ((ddkLookupName_costs name dir).bind fun _ => costs_pure _).mono (by omega)

/-- **No wrap in the name table.** In a run that is not too long the `LONG` in every object
holds its reference count. -/
theorem nameTable_noWrap {ls : List (Event × Reply)} (h : Trace Init AnyStep ls s)
    (hlen : 4 * ls.length + 1 < 2 ^ 31) {o : ObjId} {ob : Object} (hob : s.objects o = some ob) :
    NoWrap ob.refcount := by
  have hbudget : Budget (4 * ls.length) s := by
    clear hlen hob
    induction h with
    | start hinit => exact init_budget hinit
    | snoc _ hnext ih =>
      refine (perform_costs _ _ _ _ _ ih hnext.2).mono ?_
      rw [List.length_append, List.length_singleton]
      push_cast
      omega
  exact hbudget.noWrap (by omega) hob

/-- The most that a call of a driver's load or unload adds. -/
def Call.cost : Call → ℤ
  | .load init => 9 + 8 * (init.entry.length + init.addDevice.length)
  | .unload exit => 4 + 8 * (exit.pnpUnload.length + exit.driverUnload.length)
  | .createDevice .. => 8
  | .deleteDevice _ => 1

theorem runCall_costs (b : List UInt8) (image : Bool) (c : Call) :
    Costs c.cost (runCall b image c) := by
  cases c with
  | load init =>
    have hload : Costs (Call.load init).cost (ddkLoadDriver b init) :=
      Costs.ite (loadDriver_costs _ _ _ init)
        ((costs_throw _).mono (by simp only [Call.cost]; omega))
    have hinit : Costs (Call.load init).cost (ddkInitDriver b init) := loadDriver_costs _ _ _ init
    refine Costs.mono (k := (Call.load init).cost + 0) ?_ (by omega)
    cases image with
    | true => exact hload.bind fun _ => costs_pure _
    | false => exact hinit.bind fun _ => costs_pure _
  | unload exit =>
    exact ((unloadDriver_costs _ exit).bind fun _ => costs_pure _).mono
      (by simp only [Call.cost]; omega)
  | createDevice driver memory deviceName autogenerated =>
    exact (ioCreateDevice_costs memory driver deviceName autogenerated).bind fun _ => costs_pure _
  | deleteDevice device => exact (ioDeleteDevice_costs device).bind fun _ => costs_pure _

/-- **No wrap while a driver is loaded and unloaded.** From a state with small counts, in a run
that is not too long, the `LONG`s in the objects hold their reference counts, and the one in
the driver its load count. -/
theorem lifetime_noWrap {b : List UInt8} {image : Bool} {cs : List (Call × Outcome)}
    (h : Trace (fun s => CallInit (wide b) s ∧ Budget n s) (CallStep b image) cs s)
    (hlen : n + (cs.map fun c => c.1.cost).sum + 1 < 2 ^ 31) :
    (∀ o ob, s.objects o = some ob → NoWrap ob.refcount) ∧
    ∀ drv d, InCycle (wide b) image drv d s → NoWrap d.loadcount := by
  have hbudget : Budget (n + (cs.map fun c => c.1.cost).sum) s := by
    clear hlen
    induction h with
    | start hinit => simpa using hinit.2
    | snoc _ hnext ih =>
      refine (runCall_costs b image _ _ _ _ _ ih hnext.2).mono ?_
      rw [List.map_append, List.sum_append]
      simp only [List.map_cons, List.map_nil, List.sum_cons, List.sum_nil]
      omega
  refine ⟨fun o ob hob => hbudget.noWrap hlen hob, fun drv d hin => ?_⟩
  -- the references of the loads are counted with those of the driver
  rcases hin.loaded.list with ⟨head, hdrv, -⟩
  have hpot := potential_nonneg s
  have hpos := hin.loadcount
  rcases hbudget.refcount drv _ hdrv with ⟨-, hhigh⟩
  simp only at hhigh
  have hwithin : Within (n + (cs.map fun c => c.1.cost).sum) d.loadcount :=
    ⟨by omega, by omega⟩
  exact hwithin.noWrap hlen

end Runs

end Wdutf.Ob
