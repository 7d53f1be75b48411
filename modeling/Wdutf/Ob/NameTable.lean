import Mathlib.Data.List.Basic
import Mathlib.Data.List.Nodup
import Mathlib.Tactic.Common
import Wdutf.Lib.Transition
import Wdutf.Ob.Cascade
import Wdutf.Ob.DeviceList
import Wdutf.Ob.Names

/-!
# Wdutf.Ob.NameTable — the name table over whole runs

Any sequence of the name routines, mixed with references, releases and
deferred deletions of objects of every type, while other routines write what the
objects refer to.

* `perform` — the steps, as actions of `Wdutf.Ob.Model`;
* `Shrinks` — what a step does to the table that adds no name to it, whatever it
  destroys;
* `Inv` — every object has at most one name, a listed object is allocated and
  has no negative reference count, and the table agrees with the history;
* `nameTable_partial_function` — at most one live object under each path, a
  lookup finds exactly the live object created there and not removed since,
  and a creation on a taken path returns its holder.

The results are about runs in which only objects without a name are named, as
all callers in the source do; `nameTable_fails` shows why.
-/

namespace Wdutf.Ob

open Wdutf.Action Wdutf.Rtl Wdutf.Transition

/-! ## Steps -/

/-- The steps of a run. -/
inductive Event where
  | alloc (body : Body)
  /-- Another routine writes the members of an object. -/
  | write (o : ObjId) (body : Body)
  | reference (o : ObjId)
  | dereference (o : ObjId)
  | deferDelete (o : ObjId)
  | callback (o : ObjId)
  | createName (name : UnicodeString) (o : ObjId) (dir : List Wchar)
  | insertName (name : UnicodeString) (o : ObjId) (dir : List Wchar)
  | removeName (name : UnicodeString)
  | removeObjectName (o : ObjId)
  | lookupName (name : UnicodeString) (dir : List Wchar)

/-- What a step returns. -/
inductive Reply where
  | done
  | object (o : Option ObjId)
  | inserted (b : Bool)
deriving DecidableEq, Repr

/-- The members of an object, but for its references, are written. -/
def writeBody (o : ObjId) (body : Body) : ObM Unit := do
  setObject o { (← getObject o) with body := body }

/-- The action of a step. -/
def perform : Event → ObM Reply
  | .alloc body => do pure (.object (some (← ddkAllocObject body)))
  | .write o body => do writeBody o body; pure .done
  | .reference o => do obfReferenceObject o; pure .done
  | .dereference o => do obfDereferenceObject o; pure .done
  | .deferDelete o => do obDereferenceObjectDeferDelete o; pure .done
  | .callback o => do ddkObjectCallback o; pure .done
  | .createName name o dir => do pure (.object (some (← ddkCreateName name o dir)))
  | .insertName name o dir => do pure (.inserted (← ddkInsertName name o dir))
  | .removeName name => do ddkRemoveName name; pure .done
  | .removeObjectName o => do ddkRemoveObjectName o; pure .done
  | .lookupName name dir => do pure (.object (← ddkLookupName name dir))

/-- The condition on a step: its caller holds a reference on the object it passes,
and a callback runs for a submitted deletion. -/
def Permitted (s : State) : Event → Prop
  | .alloc _ => True
  | .write _ _ => True
  | .reference o => Held s o
  | .dereference o => Held s o
  | .deferDelete o => Held s o
  | .callback o => o ∈ s.work
  | .createName _ o _ => Held s o
  | .insertName _ o _ => Held s o
  | .removeObjectName o => Held s o
  | .removeName _ => True
  | .lookupName _ _ => True

/-- A name is given only to an object that has none. -/
def NamesOnce (s : State) : Event → Prop
  | .createName _ o _ => Unnamed s o
  | .insertName _ o _ => Unnamed s o
  | _ => True

/-- Nothing has been allocated yet. -/
def Init (s : State) : Prop :=
  (∀ o, s.objects o = none) ∧ s.ddkNameList = [] ∧ s.work = []

/-- Any permitted step, with its reply. -/
def AnyStep (s : State) (l : Event × Reply) (s' : State) : Prop :=
  Permitted s l.1 ∧ perform l.1 s = .ok l.2 s'

/-- A permitted step that names only objects without a name. -/
def Step (s : State) (l : Event × Reply) (s' : State) : Prop :=
  NamesOnce s l.1 ∧ AnyStep s l s'

/-! ## What a run has named -/

/-- The step gave the object a name with this path. -/
def Names (l : Event × Reply) (o : ObjId) (path : UnicodeString) : Prop :=
  match l with
  | (.createName name o' dir, .object (some r)) =>
    o' = o ∧ r = o ∧ folded (canonicalPath name dir) = folded path
  | (.insertName name o' dir, .inserted true) =>
    o' = o ∧ folded (canonicalPath name dir) = folded path
  | _ => False

/-- The step removed the name of the object with this path. -/
def Unnames (l : Event × Reply) (o : ObjId) (path : UnicodeString) : Prop :=
  match l.1 with
  | .removeName name => folded name = folded path
  | .removeObjectName o' => o' = o
  | _ => False

/-- The object was named in the run, and the name has not been removed since. -/
def NamedSince (ls : List (Event × Reply)) (o : ObjId) (path : UnicodeString) : Prop :=
  ∃ before l after, ls = before ++ l :: after ∧ Names l o path ∧ ∀ l' ∈ after, ¬ Unnames l' o path

theorem namedSince_nil (o : ObjId) (path : UnicodeString) : ¬ NamedSince [] o path := by
  rintro ⟨before, l, after, h, -⟩
  simp at h

theorem namedSince_snoc (ls : List (Event × Reply)) (l : Event × Reply) (o : ObjId)
    (path : UnicodeString) :
    NamedSince (ls ++ [l]) o path ↔ Names l o path ∨
      (NamedSince ls o path ∧ ¬ Unnames l o path) := by
  constructor
  · rintro ⟨before, l', after, heq, hnames, hkept⟩
    rcases List.eq_nil_or_concat after with rfl | ⟨after', x, rfl⟩
    · left
      rcases List.append_inj' heq rfl with ⟨-, hl⟩
      obtain rfl : l = l' := by simpa using hl
      exact hnames
    · right
      rw [List.concat_eq_append] at heq hkept
      have heq' : ls ++ [l] = (before ++ l' :: after') ++ [x] := by simpa using heq
      rcases List.append_inj' heq' rfl with ⟨hls, hl⟩
      obtain rfl : l = x := by simpa using hl
      refine ⟨⟨before, l', after', hls, hnames, ?_⟩, hkept l (by simp)⟩
      intro y hy
      exact hkept y (by simp [hy])
  · rintro (hnames | ⟨⟨before, l', after, rfl, hnames, hkept⟩, hno⟩)
    · exact ⟨ls, l, [], by simp, hnames, by simp⟩
    · refine ⟨before, l', after ++ [l], by simp, hnames, ?_⟩
      intro y hy
      rcases List.mem_append.1 hy with hy | hy
      · exact hkept y hy
      · rw [List.mem_singleton.1 hy]
        exact hno

/-! ## The invariant -/

/-- At most one entry under each path holds a live object. -/
def UniqueLive (s : State) : Prop :=
  ∀ e ∈ s.ddkNameList, ∀ e' ∈ s.ddkNameList, folded e.name = folded e'.name →
    Live s e.object → Live s e'.object → e = e'

structure Inv (ls : List (Event × Reply)) (s : State) : Prop where
  addrs : (s.ddkNameList.map (·.addr)).Nodup
  addr_lt : ∀ e ∈ s.ddkNameList, e.addr < s.nextName
  objects : (s.ddkNameList.map (·.object)).Nodup
  nulFree : ∀ e ∈ s.ddkNameList, ∀ c ∈ e.name, c ≠ 0
  heap : ∀ o ob, s.objects o = some ob → o < s.nextObject
  listed : ∀ e ∈ s.ddkNameList, ∃ ob, s.objects e.object = some ob ∧ 0 ≤ ob.refcount
  unique : UniqueLive s
  work : ∀ o ∈ s.work, ∃ ob, s.objects o = some ob ∧ ob.refcount ≤ 0
  work_nodup : s.work.Nodup
  history : ∀ o path, s.objects o ≠ none →
    ((∃ e ∈ s.ddkNameList, e.object = o ∧ folded e.name = folded path) ↔ NamedSince ls o path)
  past : ∀ o path, NamedSince ls o path → o < s.nextObject

theorem init_inv {s : State} (h : Init s) : Inv [] s := by
  rcases h with ⟨hobjects, hnames, hwork⟩
  constructor
  case heap =>
    intro o ob hob
    rw [hobjects] at hob
    cases hob
  case history =>
    intro o path hne
    exact absurd (hobjects o) hne
  case past =>
    intro o path hnamed
    exact absurd hnamed (namedSince_nil o path)
  case work => simp [hwork]
  case work_nodup => simp [hwork]
  case unique =>
    intro e he
    simp [hnames] at he
  all_goals simp [hnames]

/-! ## Steps that name nothing -/

theorem unnames_congr {l : Event × Reply} {o : ObjId} {path path' : UnicodeString}
    (h : folded path = folded path') : Unnames l o path ↔ Unnames l o path' := by
  rcases l with ⟨e, r⟩
  cases e <;> simp [Unnames, h]

/-- From `s` to `t` names were at most removed, and the objects that kept theirs
have not come to life. -/
structure Shrinks (s : State) (keep : Name → Bool) (t : State) : Prop where
  names : t.ddkNameList = s.ddkNameList.filter keep
  nextObject : t.nextObject = s.nextObject
  nextName : t.nextName = s.nextName
  heap : ∀ o, s.objects o = none → t.objects o = none
  listed : ∀ e ∈ s.ddkNameList, keep e = true → ∃ ob ob', s.objects e.object = some ob ∧
    t.objects e.object = some ob' ∧ 0 ≤ ob'.refcount ∧ (ob'.refcount ≠ 0 → ob.refcount ≠ 0)
  work : ∀ o ∈ t.work, ∃ ob, t.objects o = some ob ∧ ob.refcount ≤ 0
  work_nodup : t.work.Nodup

section Shrink

variable {ls : List (Event × Reply)} {l : Event × Reply} {s t : State} {keep : Name → Bool}

theorem Shrinks.allocated (h : Shrinks s keep t) {o : ObjId} (hne : t.objects o ≠ none) :
    ∃ ob, s.objects o = some ob := Option.ne_none_iff_exists'.1 fun hnone => hne (h.heap o hnone)

theorem Shrinks.live (h : Shrinks s keep t) {e : Name} (he : e ∈ s.ddkNameList)
    (hkeep : keep e = true) (hlive : Live t e.object) : Live s e.object := by
  rcases h.listed e he hkeep with ⟨ob, ob', hob, hob', -, himp⟩
  rcases hlive with ⟨ob'', hob'', hne⟩
  rw [hob'] at hob''
  rcases Option.some.inj hob'' with rfl
  exact ⟨ob, hob, himp hne⟩

/-- A step that only shrinks the table keeps the invariant, when the names it
removes are those that the history says it removes. -/
theorem inv_shrinks (hinv : Inv ls s) (h : Shrinks s keep t) (hno : ∀ o path, ¬ Names l o path)
    (hun : ∀ e ∈ s.ddkNameList, t.objects e.object ≠ none →
      (keep e = false ↔ Unnames l e.object e.name)) : Inv (ls ++ [l]) t := by
  have hmem : ∀ e, e ∈ t.ddkNameList ↔ e ∈ s.ddkNameList ∧ keep e = true := by
    intro e
    rw [h.names, List.mem_filter]
  have hsub : t.ddkNameList.Sublist s.ddkNameList := by
    rw [h.names]
    exact List.filter_sublist
  constructor
  case addrs => exact hinv.addrs.sublist (hsub.map _)
  case addr_lt =>
    intro e he
    rw [h.nextName]
    exact hinv.addr_lt e (hsub.subset he)
  case objects => exact hinv.objects.sublist (hsub.map _)
  case nulFree =>
    intro e he
    exact hinv.nulFree e (hsub.subset he)
  case heap =>
    intro o ob' hob'
    rcases h.allocated (o := o) (by rw [hob']; simp) with ⟨ob, hob⟩
    rw [h.nextObject]
    exact hinv.heap o ob hob
  case listed =>
    intro e he
    rcases h.listed e ((hmem e).1 he).1 ((hmem e).1 he).2 with ⟨ob, ob', -, hob', hnonneg, -⟩
    exact ⟨ob', hob', hnonneg⟩
  case unique =>
    intro e he e' he' hfold hlive hlive'
    rw [hmem] at he he'
    exact hinv.unique e he.1 e' he'.1 hfold (h.live he.1 he.2 hlive) (h.live he'.1 he'.2 hlive')
  case work => exact h.work
  case work_nodup => exact h.work_nodup
  case history =>
    intro o path hne
    rcases h.allocated hne with ⟨ob, hob⟩
    have hold := hinv.history o path (by rw [hob]; simp)
    rw [namedSince_snoc, ← hold]
    constructor
    · rintro ⟨e, he, rfl, hfold⟩
      rw [hmem] at he
      refine Or.inr ⟨⟨e, he.1, rfl, hfold⟩, ?_⟩
      intro hgone
      have hkeep := (hun e he.1 hne).2 ((unnames_congr hfold).2 hgone)
      rw [he.2] at hkeep
      cases hkeep
    -- an entry that was dropped is one whose name the history takes away
    · rintro (hname | ⟨⟨e, he, rfl, hfold⟩, hkept⟩)
      · exact absurd hname (hno o path)
      · refine ⟨e, (hmem e).2 ⟨he, ?_⟩, rfl, hfold⟩
        by_contra hdrop
        have hgone := (hun e he hne).1 (by simpa using hdrop)
        exact hkept ((unnames_congr hfold).1 hgone)
  case past =>
    intro o path hnamed
    rw [namedSince_snoc] at hnamed
    rw [h.nextObject]
    rcases hnamed with hname | ⟨hold, -⟩
    · exact absurd hname (hno o path)
    · exact hinv.past o path hold

theorem Shrinks.congr {keep' : Name → Bool} (h : Shrinks s keep t)
    (heq : ∀ e ∈ s.ddkNameList, keep e = keep' e) : Shrinks s keep' t :=
  { h with
    names := by rw [h.names, List.filter_congr heq]
    listed := fun e he hkeep => h.listed e he (by rw [heq e he]; exact hkeep) }

/-- From `s` to `t` names went only with their objects. -/
abbrev Quiet (s t : State) : Prop := Shrinks s (alive t) t

/-- A step whose label removes no names keeps the invariant, when the objects
that lost theirs are gone. -/
theorem inv_quiet (hinv : Inv ls s) (h : Quiet s t) (hno : ∀ o path, ¬ Names l o path)
    (hun : ∀ o path, ¬ Unnames l o path) : Inv (ls ++ [l]) t := by
  refine inv_shrinks hinv h hno ?_
  intro e he hne
  have halive : alive t e = true := Option.isSome_iff_ne_none.2 hne
  rw [halive]
  simp [hun]

/-- What the steps need of a state. -/
structure Sound (s : State) : Prop where
  listed : ∀ e ∈ s.ddkNameList, ∃ ob, s.objects e.object = some ob ∧ 0 ≤ ob.refcount
  work : ∀ o ∈ s.work, ∃ ob, s.objects o = some ob ∧ ob.refcount ≤ 0
  work_nodup : s.work.Nodup

theorem Inv.sound (h : Inv ls s) : Sound s := ⟨h.listed, h.work, h.work_nodup⟩

theorem Shrinks.sound (h : Shrinks s keep t) : Sound t := by
  refine ⟨?_, h.work, h.work_nodup⟩
  intro e he
  rw [h.names, List.mem_filter] at he
  rcases h.listed e he.1 he.2 with ⟨ob, ob', -, hob', hnonneg, -⟩
  exact ⟨ob', hob', hnonneg⟩

theorem Shrinks.trans {keep' : Name → Bool} {u : State} (h : Shrinks s keep t)
    (h' : Shrinks t keep' u) : Shrinks s (fun e => keep' e && keep e) u := by
  constructor
  case names => rw [h'.names, h.names, List.filter_filter]
  case nextObject => rw [h'.nextObject, h.nextObject]
  case nextName => rw [h'.nextName, h.nextName]
  case heap => exact fun o ho => h'.heap o (h.heap o ho)
  case listed =>
    intro e he hkeep
    rw [Bool.and_eq_true] at hkeep
    rcases h.listed e he hkeep.2 with ⟨ob, ob', hob, hob', -, himp⟩
    obtain ⟨ob₁, ob'', hob₁, hob'', hnonneg, himp'⟩ :=
      h'.listed e (by rw [h.names, List.mem_filter]; exact ⟨he, hkeep.2⟩) hkeep.1
    rw [hob'] at hob₁
    rcases Option.some.inj hob₁ with rfl
    exact ⟨ob, ob'', hob, hob'', hnonneg, fun hne => himp (himp' hne)⟩
  case work => exact h'.work
  case work_nodup => exact h'.work_nodup

theorem Quiet.trans {u : State} (h : Quiet s t) (h' : Quiet t u) : Quiet s u := by
  refine (Shrinks.trans h h').congr fun e _ => ?_
  unfold alive
  cases ht : t.objects e.object with
  | none =>
    rw [h'.heap _ ht]
    rfl
  | some ob => simp

theorem Sound.good (hsound : Sound s) (haddrs : (s.ddkNameList.map (·.addr)).Nodup) : Good s := by
  refine ⟨haddrs, fun e he => ?_⟩
  rcases hsound.listed e he with ⟨ob, hob, -⟩
  rw [alive, hob]
  rfl

theorem quiet_refl (hsound : Sound s) : Quiet s s := by
  constructor
  case names =>
    refine (List.filter_eq_self.2 fun e he => ?_).symm
    rcases hsound.listed e he with ⟨ob, hob, -⟩
    rw [alive, hob]
    rfl
  case nextObject => rfl
  case nextName => rfl
  case heap => exact fun _ => id
  case listed =>
    intro e he _
    rcases hsound.listed e he with ⟨ob, hob, hnonneg⟩
    exact ⟨ob, ob, hob, hob, hnonneg, id⟩
  case work => exact hsound.work
  case work_nodup => exact hsound.work_nodup

theorem not_mem_work (hsound : Sound s) {o : ObjId} {ob : Object} (hob : s.objects o = some ob)
    (hpos : 1 ≤ ob.refcount) : o ∉ s.work := by
  intro hmem
  rcases hsound.work o hmem with ⟨ob', hob', hle⟩
  rw [hob] at hob'
  rcases Option.some.inj hob' with rfl
  omega

/-- What a release destroys leaves the list, and nothing on the list comes to life.
The deletion of an object that is destroyed is no longer submitted. -/
theorem Drops.quiet (hsound : Sound s) {dying : Option ObjId} {work : List ObjId}
    (hwork : work.Sublist s.work) (hgone : ∀ o ∈ dying, o ∉ work)
    (h : Drops dying { s with work := work } t) : Quiet s t := by
  constructor
  case names => exact h.names
  case nextObject => exact h.same.nextObject
  case nextName => exact h.same.nextName
  case heap => exact h.heap
  case listed =>
    intro e he halive
    rcases hsound.listed e he with ⟨ob, hob, hnonneg⟩
    rw [alive, Option.isSome_iff_ne_none] at halive
    by_cases hpos : 1 ≤ ob.refcount
    · rcases h.live e.object ob hob hpos with ⟨-, hnone⟩ | ⟨ob', hob', hpos', -⟩
      · exact absurd hnone halive
      · exact ⟨ob, ob', hob, hob', by omega, fun _ => by omega⟩
    · have hkept : e.object ∉ dying := fun hmem => halive (h.gone e.object hmem)
      rcases h.dead e.object ob hkept hob (by omega) with ⟨ob', hob', hcount⟩
      exact ⟨ob, ob', hob, hob', by omega, fun _ => by omega⟩
  case work =>
    intro x hx
    rw [h.same.work] at hx
    rcases hsound.work x (hwork.subset hx) with ⟨ob, hob, hle⟩
    rcases h.dead x ob (fun hmem => hgone x hmem hx) hob hle with ⟨ob', hob', hcount⟩
    exact ⟨ob', hob', by omega⟩
  case work_nodup =>
    rw [h.same.work]
    exact hsound.work_nodup.sublist hwork

theorem Drops.quiet_none (hsound : Sound s) (h : Drops none s t) : Quiet s t :=
  Drops.quiet hsound (List.Sublist.refl s.work) (by simp) h

/-- A change of one reference count, which brings nothing on the list to life and no
submitted deletion back. -/
theorem quiet_put (hsound : Sound s) {o : ObjId} {ob ob' : Object} (hob : s.objects o = some ob)
    (hlisted : ∀ e ∈ s.ddkNameList, e.object = o →
      0 ≤ ob'.refcount ∧ (ob'.refcount ≠ 0 → ob.refcount ≠ 0))
    (hwork : o ∈ s.work → ob'.refcount ≤ 0) : Quiet s (s.put o (some ob')) := by
  have hother : ∀ x, x ≠ o → (s.put o (some ob')).objects x = s.objects x :=
    fun x hx => put_of_ne s _ hx
  constructor
  case names =>
    refine (List.filter_eq_self.2 fun e he => ?_).symm
    rcases hsound.listed e he with ⟨obe, hobe, -⟩
    rw [alive, Option.isSome_iff_ne_none]
    by_cases heo : e.object = o
    · simp [heo]
    · simp [hother _ heo, hobe]
  case nextObject => rfl
  case nextName => rfl
  case heap =>
    intro x hx
    have hxo : x ≠ o := ne_of_none hob hx
    rw [hother x hxo, hx]
  case listed =>
    intro e he _
    by_cases heo : e.object = o
    · rcases hlisted e he heo with ⟨hnonneg, hlive⟩
      rw [heo]
      exact ⟨ob, ob', hob, put_self .., hnonneg, hlive⟩
    · rcases hsound.listed e he with ⟨obe, hobe, hnonneg⟩
      exact ⟨obe, obe, hobe, by rw [hother _ heo, hobe], hnonneg, id⟩
  case work =>
    intro x hx
    by_cases hxo : x = o
    · subst hxo
      exact ⟨ob', put_self .., hwork hx⟩
    · rcases hsound.work x hx with ⟨obx, hobx, hle⟩
      exact ⟨obx, by rw [hother x hxo, hobx], hle⟩
  case work_nodup => exact hsound.work_nodup

/-- The same for an object with references that is left without a negative count. -/
theorem quiet_put_held (hsound : Sound s) {o : ObjId} {ob : Object} (hob : s.objects o = some ob)
    (hpos : 1 ≤ ob.refcount) (ob' : Object) (hnonneg : 0 ≤ ob'.refcount) :
    Quiet s (s.put o (some ob')) :=
  quiet_put hsound hob (fun _ _ _ => ⟨hnonneg, fun _ => by omega⟩)
    fun hmem => absurd hmem (not_mem_work hsound hob hpos)

/-! ## The loop that removes names -/

/-- An entry is taken off the list, and its object loses a reference. -/
theorem shrinks_unlink (hsound : Sound s) (haddrs : (s.ddkNameList.map (·.addr)).Nodup)
    (hobjects : (s.ddkNameList.map (·.object)).Nodup) {e : Name} (he : e ∈ s.ddkNameList)
    (hrun : ddkDereferenceObject e.object
      (s.withNames (s.ddkNameList.filter fun x => x.addr != e.addr)) = .ok () t) :
    Shrinks s (fun x => alive t x && x.addr != e.addr) t := by
  have hunlinked : Shrinks s (fun x => x.addr != e.addr)
      (s.withNames (s.ddkNameList.filter fun x => x.addr != e.addr)) := by
    constructor
    case names => rfl
    case nextObject => rfl
    case nextName => rfl
    case heap => exact fun _ => id
    case listed =>
      intro x hx _
      rcases hsound.listed x hx with ⟨ob, hob, hnonneg⟩
      exact ⟨ob, ob, hob, hob, hnonneg, id⟩
    case work => exact hsound.work
    case work_nodup => exact hsound.work_nodup
  refine hunlinked.trans ?_
  have hgood := hunlinked.sound.good (haddrs.sublist (List.filter_sublist.map _))
  rcases hsound.listed e he with ⟨ob, hob, hnonneg⟩
  by_cases hpos : 1 ≤ ob.refcount
  · exact (ddkDereferenceObject_cascades _ t e.object hgood ⟨ob, hob, hpos⟩ hrun).quiet_none
      hunlinked.sound
  · -- the deletion of the object is submitted; it goes below 0, and has no entry left
    obtain rfl := ddkDereferenceObject_countsDead
      (s.withNames (s.ddkNameList.filter fun x => x.addr != e.addr)) t e.object ob hob (by omega)
      hrun
    refine quiet_put hunlinked.sound hob ?_ fun _ => by show ob.refcount - 1 ≤ 0; omega
    intro x hx heq
    rcases List.mem_filter.1 hx with ⟨hmem, hne⟩
    rw [List.inj_on_of_nodup_map hobjects hmem he heq] at hne
    simp at hne

/-- The loop takes the entries that match off the list, and those of the objects that
its releases destroy. -/
theorem removeNames_shrinks (hsound : Sound s) (haddrs : (s.ddkNameList.map (·.addr)).Nodup)
    (hobjects : (s.ddkNameList.map (·.object)).Nodup) {hit : Name → Bool} {turns : ℕ}
    (hrun : removeNames ddkDereferenceObject hit turns none s = .ok () t) :
    ∃ keep, Shrinks s keep t ∧
      ∀ e ∈ s.ddkNameList, t.objects e.object ≠ none → (keep e = false ↔ hit e = true) := by
  have hloop := removeNames_ok ddkDereferenceObject hit
    (I := fun u => ∃ keep, Shrinks s keep u ∧
      ∀ e ∈ s.ddkNameList, keep e = false → hit e = true ∨ u.objects e.object = none)
    (t := s) ?_ (List.nil_append _).symm (by simp) haddrs
    ⟨_, quiet_refl hsound, fun e he hkeep => Or.inr (by simpa [alive] using hkeep)⟩ hrun
  · rcases hloop with ⟨⟨keep, hshrinks, hgone⟩, hnone⟩
    refine ⟨keep, hshrinks, fun e he hne => ⟨fun hkeep => (hgone e he hkeep).resolve_right hne, ?_⟩⟩
    intro hhit
    by_contra hkeep
    have hmem : e ∈ t.ddkNameList := by
      rw [hshrinks.names, List.mem_filter]
      exact ⟨he, by simpa using hkeep⟩
    rw [hnone e hmem] at hhit
    cases hhit
  · rintro e u v hhit he hnodup ⟨keep, hshrinks, hgone⟩ hderef
    have hobjects' : (u.ddkNameList.map (·.object)).Nodup := by
      rw [hshrinks.names]
      exact hobjects.sublist (List.filter_sublist.map _)
    have hunlink := shrinks_unlink hshrinks.sound hnodup hobjects' he hderef
    refine ⟨⟨_, hshrinks.trans hunlink, ?_⟩, alive v, ?_⟩
    · intro x hx hkeep
      by_cases hold : keep x = true
      · have hxu : x ∈ u.ddkNameList := by
          rw [hshrinks.names, List.mem_filter]
          exact ⟨hx, hold⟩
        rw [hold, Bool.and_true, Bool.and_eq_false_iff] at hkeep
        rcases hkeep with hdead | haddr
        · exact Or.inr (by simpa [alive] using hdead)
        · left
          rw [List.inj_on_of_nodup_map hnodup hxu he (by simpa using haddr)]
          exact hhit
      · rcases hgone x hx (by simpa using hold) with hx | hx
        · exact Or.inl hx
        · exact Or.inr (hunlink.heap _ hx)
    · rw [hunlink.names, List.filter_filter]

end Shrink

/-! ## Searching the table -/

/-- `DdkFindName` returns the live object under a path, if there is one. -/
theorem ddkFindName_spec {ls : List (Event × Reply)} {s : State} (hinv : Inv ls s)
    (path : UnicodeString) :
    (∃ e ∈ s.ddkNameList, folded path = folded e.name ∧ Live s e.object ∧
      ddkFindName path s = .ok (some e.object) s) ∨
    ((∀ e ∈ s.ddkNameList, folded path = folded e.name → ¬ Live s e.object) ∧
      ddkFindName path s = .ok none s) := by
  rw [ddkFindName, get_bind]
  refine findName_spec hinv.nulFree ?_
  intro e he
  rcases hinv.listed e he with ⟨ob, hob, -⟩
  rw [hob]
  simp

/-! ## The routines -/

section Routines

variable {ls : List (Event × Reply)} {s t : State} {o : ObjId}

theorem Inv.good (hinv : Inv ls s) : Good s := hinv.sound.good hinv.addrs

/-- A live object on the list has a reference. -/
theorem Inv.pos_of_live (hinv : Inv ls s) {e : Name} (he : e ∈ s.ddkNameList) {ob : Object}
    (hob : s.objects e.object = some ob) (hne : ob.refcount ≠ 0) : 1 ≤ ob.refcount := by
  rcases hinv.listed e he with ⟨ob', hob', hnonneg⟩
  rw [hob] at hob'
  rcases Option.some.inj hob' with rfl
  omega

theorem writeBody_quiet (hinv : Inv ls s) {body : Body} (h : writeBody o body s = .ok () t) :
    Quiet s t := by
  rcases bind_inv h with ⟨ob, u, hget, hset⟩
  rcases getObject_inv hget with ⟨hob, rfl⟩
  obtain ⟨-, rfl⟩ := result_eq (setObject_run _ _ _) hset
  exact ((rewrites_put hob body).drops hinv.good).quiet_none hinv.sound

theorem reference_quiet (hinv : Inv ls s) (h : obfReferenceObject o s = .ok () t) : Quiet s t := by
  rcases bind_inv h with ⟨ob, u, hfrom, hrun⟩
  rcases fromPointer_inv hfrom with ⟨hob, hpos, rfl⟩
  obtain ⟨-, rfl⟩ := result_eq (ddkReferenceObject_ok hob) hrun
  exact quiet_put_held hinv.sound hob hpos _ (by show 0 ≤ ob.refcount + 1; omega)

theorem dereference_quiet (hinv : Inv ls s) (h : obfDereferenceObject o s = .ok () t) :
    Quiet s t := by
  rcases bind_inv h with ⟨ob, u, hfrom, hrun⟩
  rcases fromPointer_inv hfrom with ⟨hob, hpos, rfl⟩
  exact (ddkDereferenceObject_cascades u t o hinv.good ⟨ob, hob, hpos⟩ hrun).quiet_none hinv.sound

theorem deferDelete_quiet (hinv : Inv ls s) (h : obDereferenceObjectDeferDelete o s = .ok () t) :
    Quiet s t := by
  rcases bind_inv h with ⟨ob, u, hfrom, hrun⟩
  rcases fromPointer_inv hfrom with ⟨hob, hpos, rfl⟩
  rw [bind_ok (setObject_run _ _ _)] at hrun
  have hput := quiet_put_held hinv.sound hob hpos { ob with refcount := ob.refcount - 1 }
    (by show 0 ≤ ob.refcount - 1; omega)
  by_cases hone : ob.refcount = 1
  · -- the deletion is submitted; the object stays listed without references
    rw [if_pos (by omega)] at hrun
    obtain ⟨-, rfl⟩ := result_eq (modify_run _ _) hrun
    refine { hput with work := ?_, work_nodup := ?_ }
    · intro x hx
      rcases List.mem_cons.1 hx with rfl | hx
      · refine ⟨_, put_self .., ?_⟩
        show ob.refcount - 1 ≤ 0
        omega
      · exact hput.work x hx
    · exact List.nodup_cons.2 ⟨not_mem_work hinv.sound hob hpos, hinv.work_nodup⟩
  · rw [if_neg (by omega)] at hrun
    obtain ⟨-, rfl⟩ := result_eq (pure_run _ _) hrun
    exact hput

theorem callback_quiet (hinv : Inv ls s) (hmem : o ∈ s.work)
    (h : ddkObjectCallback o s = .ok () t) : Quiet s t := by
  rcases hinv.work o hmem with ⟨ob, hob, hle⟩
  rw [ddkObjectCallback, bind_ok (modify_run _ _)] at h
  have hdrops := freeObject_drops_dying ddkDereferenceObject_cascades
    ddkDereferenceObject_countsDead (s := { s with work := s.work.erase o })
    ⟨hinv.addrs, hinv.good.listed⟩ hob hle h
  refine hdrops.quiet hinv.sound List.erase_sublist ?_
  rintro _ ⟨⟩
  exact List.Nodup.not_mem_erase hinv.work_nodup

section Create

variable {name : UnicodeString} {dir : List Wchar}

/-- `DdkCreateName` on a taken path: the holder gains a reference, and the
caller's object is released. -/
theorem createName_taken (hname : 1 ≤ name.length) (hfits : PathFits name dir) {x : ObjId}
    {obx : Object} (hobx : s.objects x = some obx)
    (hfind : ddkFindName (canonicalPath name dir) s = .ok (some x) s) :
    ddkCreateName name o dir s = (do ddkDereferenceObject o; pure x : ObM ObjId)
      (s.put x (some { obx with refcount := obx.refcount + 1 })) := by
  rw [ddkCreateName, bind_ok (ddkAssert_ok (by simpa using hname) s),
    bind_ok (ddkCreatePath_ok hfits s), bind_ok hfind]
  simp only [bind_ok (ddkReferenceObject_ok hobx)]

/-- What is left when it returns: names of destroyed objects are gone, and the holder
has its references, the new one included unless the caller's object gave up one. -/
theorem createName_returns (hinv : Inv ls s) (hheld : Held s o) (hunnamed : Unnamed s o)
    (hname : 1 ≤ name.length) (hfits : PathFits name dir) {e : Name} (he : e ∈ s.ddkNameList)
    {obx : Object} (hobx : s.objects e.object = some obx) (hposx : 1 ≤ obx.refcount)
    (hfind : ddkFindName (canonicalPath name dir) s = .ok (some e.object) s) {r : ObjId}
    (h : ddkCreateName name o dir s = .ok r t) :
    r = e.object ∧ Quiet s t ∧ ∃ ob', t.objects e.object = some ob' ∧
      (ob'.refcount = obx.refcount + 1 ∨ ob'.refcount = obx.refcount) := by
  rcases hheld with ⟨ob, hob, hpos⟩
  have hxo : e.object ≠ o := hunnamed e he
  have hput := quiet_put_held hinv.sound hobx hposx { obx with refcount := obx.refcount + 1 }
    (by show 0 ≤ obx.refcount + 1; omega)
  rw [createName_taken hname hfits hobx hfind] at h
  rcases bind_inv h with ⟨⟨⟩, u, hderef, hpure⟩
  obtain ⟨rfl, rfl⟩ := result_eq (pure_run _ _) hpure
  have hdrops := ddkDereferenceObject_cascades _ u o (hput.sound.good hinv.addrs)
    ⟨ob, by rw [put_of_ne s _ hxo.symm, hob], hpos⟩ hderef
  refine ⟨rfl, hput.trans (hdrops.quiet_none hput.sound), ?_⟩
  -- the holder had a reference before, so the release does not destroy it
  rcases hdrops.live e.object _ (put_self ..) (by show 1 ≤ obx.refcount + 1; omega) with
    ⟨hone, -⟩ | ⟨ob', hob', -, hcount⟩
  · exact absurd hone (by show obx.refcount + 1 ≠ 1; omega)
  · refine ⟨ob', hob', ?_⟩
    rcases hcount with hcount | hcount
    · exact Or.inl hcount
    · right
      rw [hcount]
      show obx.refcount + 1 - 1 = _
      omega

/-- The release of a reference on the object destroys no other one: it is not the last
one, or the object refers to no other one, or it is a device that is not on the
list of its driver. -/
def ReleasedAlone (s : State) (o : ObjId) : Prop :=
  ∃ ob, s.objects o = some ob ∧ (ob.refcount ≠ 1 ∨ ob.body.Local ∨
    ∃ drv next rc d ds, ob.body = .device drv next ∧ 1 ≤ rc ∧ DevList s drv rc d ds ∧ o ∉ ds)

theorem releasedAlone_run (hinv : Inv ls s) (hunnamed : Unnamed s o) (halone : ReleasedAlone s o)
    {x : ObjId} {obx : Object} (hobx : s.objects x = some obx) (hposx : 1 ≤ obx.refcount)
    (hxo : x ≠ o) :
    ∃ u, ddkDereferenceObject o (s.put x (some { obx with refcount := obx.refcount + 1 })) =
      .ok () u ∧ u.ddkNameList = s.ddkNameList ∧
      u.objects x = some { obx with refcount := obx.refcount + 1 } := by
  rcases halone with ⟨ob, hob, hcase⟩
  have hob' : (s.put x (some { obx with refcount := obx.refcount + 1 })).objects o = some ob := by
    rw [put_of_ne s _ hxo.symm, hob]
  refine ⟨(s.put x (some { obx with refcount := obx.refcount + 1 })).released o ob, ?_, ?_, ?_⟩
  · by_cases hlocal : ob.refcount = 1 → ob.body.Local
    · exact ddkDereferenceObject_releases _ o ob hob' hlocal hinv.addrs hunnamed
    · -- the last reference on a device that is on no list
      push Not at hlocal
      rcases hcase with hne | hbody | ⟨drv, next, rc, d, ds, hbody, hpos, hlist, hmiss⟩
      · exact absurd hlocal.1 hne
      · exact absurd hbody hlocal.2
      · rcases ob with ⟨refcount, body⟩
        obtain rfl : body = .device drv next := hbody
        obtain rfl : refcount = 1 := hlocal.1
        have hbodies : ∀ y, ((s.put x (some { obx with refcount := obx.refcount + 1 })).objects
            y).map (·.body) = (s.objects y).map (·.body) := by
          intro y
          by_cases hy : y = x
          · rw [hy, put_self, hobx]
            rfl
          · rw [put_of_ne s _ hy]
        rcases id hlist with ⟨head, hdrv, hchain⟩
        have hdriver : ∃ obd, (s.put x (some { obx with refcount := obx.refcount + 1 })).objects
            drv = some obd ∧ 1 ≤ obd.refcount := by
          by_cases hd : drv = x
          · exact ⟨_, by rw [hd, put_self], by show 1 ≤ obx.refcount + 1; omega⟩
          · exact ⟨_, by rw [put_of_ne s _ hd, hdrv], hpos⟩
        rcases hdriver with ⟨obd, hobd, hposd⟩
        have hlt : ∀ y ∈ ds, y < s.nextObject := by
          intro y hy
          rcases chain_mem hchain hy with ⟨rcy, nexty, hoby⟩
          exact hinv.heap y _ hoby
        rw [State.released, if_pos rfl]
        exact dereferenceDevice_unlisted hlist (chain_nodup hchain) (fun y _ => hbodies y) hobd
          hposd hlt hmiss hob' hinv.addrs hunnamed
  · rw [released_ddkNameList]
    rfl
  · rw [released_objects, Function.update_of_ne hxo, put_self]

/-- `DdkInsertName` on a taken path gives the reference on the holder back. -/
theorem insertName_taken (hinv : Inv ls s) (hheld : Held s o) (hunnamed : Unnamed s o)
    (hname : 1 ≤ name.length) (hfits : PathFits name dir) {e : Name} (he : e ∈ s.ddkNameList)
    {obx : Object} (hobx : s.objects e.object = some obx) (hposx : 1 ≤ obx.refcount)
    (hfind : ddkFindName (canonicalPath name dir) s = .ok (some e.object) s) {b : Bool}
    (h : ddkInsertName name o dir s = .ok b t) : b = false ∧ Quiet s t := by
  rcases bind_inv h with ⟨r, u, hcreate, hrun⟩
  obtain ⟨rfl, hquiet, ob', hob', hcount⟩ :=
    createName_returns hinv hheld hunnamed hname hfits he hobx hposx hfind hcreate
  rw [if_pos (hunnamed e he)] at hrun
  rcases bind_inv hrun with ⟨⟨⟩, v, hderef, hpure⟩
  obtain ⟨rfl, rfl⟩ := result_eq (pure_run _ _) hpure
  have haddrs : (u.ddkNameList.map (·.addr)).Nodup := by
    rw [hquiet.names]
    exact hinv.addrs.sublist (List.filter_sublist.map _)
  have hdrops := ddkDereferenceObject_cascades u v e.object (hquiet.sound.good haddrs)
    ⟨ob', hob', by omega⟩ hderef
  exact ⟨rfl, hquiet.trans (hdrops.quiet_none hquiet.sound)⟩

/-- A fresh name on a free path keeps the invariant. -/
theorem inv_named (hinv : Inv ls s) {ob : Object} (hob : s.objects o = some ob)
    (hpos : 1 ≤ ob.refcount) (hunnamed : Unnamed s o) {path : UnicodeString}
    (hnul : ∀ c ∈ path, c ≠ 0)
    (hfree : ∀ e ∈ s.ddkNameList, folded path = folded e.name → ¬ Live s e.object)
    {l : Event × Reply}
    (hnames : ∀ o' path', Names l o' path' ↔ o' = o ∧ folded path = folded path')
    (hun : ∀ o path, ¬ Unnames l o path) : Inv (ls ++ [l]) (s.named o ob path) := by
  have hself : (s.named o ob path).objects o = some { ob with refcount := ob.refcount + 1 } :=
    Function.update_self ..
  have hother : ∀ x, x ≠ o → (s.named o ob path).objects x = s.objects x :=
    fun x hx => Function.update_of_ne hx ..
  have hmem : ∀ e, e ∈ (s.named o ob path).ddkNameList ↔
      e = ⟨s.nextName, o, path⟩ ∨ e ∈ s.ddkNameList := fun e => List.mem_cons
  have hlive : ∀ e ∈ s.ddkNameList, Live (s.named o ob path) e.object → Live s e.object := by
    rintro e he ⟨obe, hobe, hne⟩
    rw [hother e.object (hunnamed e he)] at hobe
    exact ⟨obe, hobe, hne⟩
  constructor
  case addrs =>
    refine List.nodup_cons.2 ⟨?_, hinv.addrs⟩
    intro hdup
    rcases List.mem_map.1 hdup with ⟨e, he, heq⟩
    have := hinv.addr_lt e he
    simp only at heq
    omega
  case addr_lt =>
    intro e he
    show e.addr < s.nextName + 1
    rcases (hmem e).1 he with rfl | he
    · exact Nat.lt_succ_self _
    · have := hinv.addr_lt e he
      omega
  case objects =>
    refine List.nodup_cons.2 ⟨?_, hinv.objects⟩
    intro hdup
    rcases List.mem_map.1 hdup with ⟨e, he, heq⟩
    exact hunnamed e he heq
  case nulFree =>
    intro e he
    rcases (hmem e).1 he with rfl | he
    · exact hnul
    · exact hinv.nulFree e he
  case heap =>
    intro x obx hobx
    by_cases hx : x = o
    · subst hx
      rw [hself] at hobx
      rcases Option.some.inj hobx with rfl
      exact hinv.heap x ob hob
    · rw [hother x hx] at hobx
      exact hinv.heap x obx hobx
  case listed =>
    intro e he
    rcases (hmem e).1 he with rfl | he
    · refine ⟨_, hself, ?_⟩
      show 0 ≤ ob.refcount + 1
      omega
    · rw [hother e.object (hunnamed e he)]
      exact hinv.listed e he
  case unique =>
    intro e he e' he' hfold hl hl'
    -- the path was free: no older entry under it is live
    rcases (hmem e).1 he with rfl | he <;> rcases (hmem e').1 he' with rfl | he'
    · rfl
    · exact absurd (hlive e' he' hl') (hfree e' he' hfold)
    · exact absurd (hlive e he hl) (hfree e he hfold.symm)
    · exact hinv.unique e he e' he' hfold (hlive e he hl) (hlive e' he' hl')
  case work =>
    intro x hx
    have hxo : x ≠ o := by
      rintro rfl
      exact not_mem_work hinv.sound hob hpos hx
    rw [hother x hxo]
    exact hinv.work x hx
  case work_nodup => exact hinv.work_nodup
  case history =>
    intro x path' hne
    rw [namedSince_snoc, hnames]
    have hold : s.objects x ≠ none := by
      by_cases hx : x = o
      · rw [hx, hob]
        simp
      · rwa [hother x hx] at hne
    rw [← hinv.history x path' hold]
    constructor
    · rintro ⟨e, he, rfl, hfold⟩
      rcases (hmem e).1 he with rfl | he
      · exact Or.inl ⟨rfl, hfold⟩
      · exact Or.inr ⟨⟨e, he, rfl, hfold⟩, hun _ _⟩
    · rintro (⟨rfl, hfold⟩ | ⟨⟨e, he, rfl, hfold⟩, -⟩)
      · exact ⟨_, (hmem _).2 (Or.inl rfl), rfl, hfold⟩
      · exact ⟨e, (hmem e).2 (Or.inr he), rfl, hfold⟩
  case past =>
    intro x path' hnamed
    rw [namedSince_snoc, hnames] at hnamed
    rcases hnamed with ⟨rfl, -⟩ | ⟨hold, -⟩
    · exact hinv.heap x ob hob
    · exact hinv.past x path' hold

end Create

/-- A new object keeps the invariant. -/
theorem inv_alloc (hinv : Inv ls s) {body : Body} {l : Event × Reply}
    (hno : ∀ o path, ¬ Names l o path) (hun : ∀ o path, ¬ Unnames l o path) :
    Inv (ls ++ [l]) (s.allocated body) := by
  have hlisted : ∀ e ∈ s.ddkNameList, e.object ≠ s.nextObject := by
    intro e he
    rcases hinv.listed e he with ⟨ob, hob, -⟩
    exact Nat.ne_of_lt (hinv.heap _ ob hob)
  constructor
  case addrs => exact hinv.addrs
  case addr_lt => exact hinv.addr_lt
  case objects => exact hinv.objects
  case nulFree => exact hinv.nulFree
  case heap =>
    intro x ob hob
    show x < s.nextObject + 1
    by_cases hx : x = s.nextObject
    · rw [hx]
      exact Nat.lt_succ_self _
    · rw [allocated_of_ne s body hx] at hob
      exact Nat.lt_succ_of_lt (hinv.heap x ob hob)
  case listed =>
    intro e he
    rw [allocated_of_ne s body (hlisted e he)]
    exact hinv.listed e he
  case unique =>
    have hback : ∀ e ∈ s.ddkNameList, Live (s.allocated body) e.object → Live s e.object := by
      rintro e he ⟨ob, hob, hne⟩
      rw [allocated_of_ne s body (hlisted e he)] at hob
      exact ⟨ob, hob, hne⟩
    intro e he e' he' hfold hl hl'
    exact hinv.unique e he e' he' hfold (hback e he hl) (hback e' he' hl')
  case work =>
    intro x hx
    rcases hinv.work x hx with ⟨ob, hob, hle⟩
    exact ⟨ob, by rw [allocated_of_ne s body (Nat.ne_of_lt (hinv.heap x ob hob)), hob], hle⟩
  case work_nodup => exact hinv.work_nodup
  case history =>
    intro x path hne
    rw [namedSince_snoc]
    by_cases hx : x = s.nextObject
    · -- the new object appears neither in the table nor in the history
      constructor
      · rintro ⟨e, he, heq, -⟩
        exact absurd (heq.trans hx) (hlisted e he)
      · rintro (hname | ⟨hpast, -⟩)
        · exact absurd hname (hno _ _)
        · exact absurd hx (Nat.ne_of_lt (hinv.past _ _ hpast))
    · rw [allocated_of_ne s body hx] at hne
      rw [← hinv.history x path hne]
      simp [hno, hun, State.allocated]
  case past =>
    intro x path hnamed
    rw [namedSince_snoc] at hnamed
    rcases hnamed with hname | ⟨hpast, -⟩
    · exact absurd hname (hno _ _)
    · exact Nat.lt_succ_of_lt (hinv.past x path hpast)

/-- `DdkLookupName` returns the live object under the path with one more
reference, and changes nothing else. -/
theorem lookupName_spec (hinv : Inv ls s) {name : UnicodeString} {dir : List Wchar}
    (hfits : PathFits name dir) :
    (∃ e ∈ s.ddkNameList, folded (canonicalPath name dir) = folded e.name ∧ Live s e.object ∧
      ∃ ob, s.objects e.object = some ob ∧ 1 ≤ ob.refcount ∧
        ddkLookupName name dir s = .ok (some e.object)
          (s.put e.object (some { ob with refcount := ob.refcount + 1 }))) ∨
    ((∀ e ∈ s.ddkNameList, folded (canonicalPath name dir) = folded e.name → ¬ Live s e.object) ∧
      ddkLookupName name dir s = .ok none s) := by
  rw [ddkLookupName, bind_ok (ddkCreatePath_ok hfits s)]
  rcases ddkFindName_spec hinv (canonicalPath name dir) with
    ⟨e, he, hfold, hlive, hfind⟩ | ⟨hnone, hfind⟩
  · rcases hlive with ⟨ob, hob, hne⟩
    refine Or.inl ⟨e, he, hfold, ⟨ob, hob, hne⟩, ob, hob, hinv.pos_of_live he hob hne, ?_⟩
    rw [bind_ok hfind]
    simp only [bind_ok (ddkReferenceObject_ok hob)]
    rfl
  · refine Or.inr ⟨hnone, ?_⟩
    rw [bind_ok hfind]
    rfl

end Routines

/-! ## Runs -/

section Runs

variable {ls : List (Event × Reply)} {l : Event × Reply} {s s' : State}

theorem reply_inv {α : Type} (reply : α → Reply) {m : ObM α} {r : Reply}
    (h : (do pure (reply (← m)) : ObM Reply) s = .ok r s') : ∃ a, m s = .ok a s' ∧ r = reply a := by
  rcases bind_inv h with ⟨a, u, hm, hpure⟩
  obtain ⟨rfl, rfl⟩ := result_eq (pure_run _ _) hpure
  exact ⟨a, hm, rfl⟩

theorem done_inv {m : ObM Unit} {r : Reply} (h : (do m; pure Reply.done : ObM Reply) s = .ok r s') :
    m s = .ok () s' ∧ r = .done := by
  rcases bind_inv h with ⟨⟨⟩, u, hm, hpure⟩
  obtain ⟨rfl, rfl⟩ := result_eq (pure_run _ _) hpure
  exact ⟨hm, rfl⟩

/-- A creation that returns was asked for a name and a path of proper lengths. -/
theorem createName_fits {name : UnicodeString} {o r : ObjId} {dir : List Wchar}
    (h : ddkCreateName name o dir s = .ok r s') : 1 ≤ name.length ∧ PathFits name dir := by
  by_contra hpre
  rw [createName_fails hpre s] at h
  cases h

/-- Every step keeps the invariant. -/
theorem step_inv (hinv : Inv ls s) (h : Step s l s') : Inv (ls ++ [l]) s' := by
  rcases l with ⟨e, r⟩
  rcases h with ⟨honce, hperm, hrun⟩
  cases e with
  | alloc body =>
    rcases result_eq (m := perform (.alloc body)) rfl hrun with ⟨rfl, rfl⟩
    exact inv_alloc hinv (fun _ _ => id) (fun _ _ => id)
  | write o body =>
    rcases done_inv hrun with ⟨hcall, rfl⟩
    exact inv_quiet hinv (writeBody_quiet hinv hcall) (fun _ _ => id) (fun _ _ => id)
  | reference o =>
    rcases done_inv hrun with ⟨hcall, rfl⟩
    exact inv_quiet hinv (reference_quiet hinv hcall) (fun _ _ => id) (fun _ _ => id)
  | dereference o =>
    rcases done_inv hrun with ⟨hcall, rfl⟩
    exact inv_quiet hinv (dereference_quiet hinv hcall) (fun _ _ => id) (fun _ _ => id)
  | deferDelete o =>
    rcases done_inv hrun with ⟨hcall, rfl⟩
    exact inv_quiet hinv (deferDelete_quiet hinv hcall) (fun _ _ => id) (fun _ _ => id)
  | callback o =>
    rcases done_inv hrun with ⟨hcall, rfl⟩
    exact inv_quiet hinv (callback_quiet hinv hperm hcall) (fun _ _ => id) (fun _ _ => id)
  | createName name o dir =>
    rcases reply_inv (fun o => Reply.object (some o)) hrun with ⟨res, hcall, rfl⟩
    rcases createName_fits hcall with ⟨hname, hfits⟩
    rcases ddkFindName_spec hinv (canonicalPath name dir) with
      ⟨e, he, hfold, ⟨obx, hobx, hne⟩, hfind⟩ | ⟨hnone, hfind⟩
    · -- the path is taken: no name is added
      obtain ⟨rfl, hquiet, -⟩ := createName_returns hinv hperm honce hname hfits he hobx
        (hinv.pos_of_live he hobx hne) hfind hcall
      refine inv_quiet hinv hquiet ?_ (fun _ _ => id)
      rintro o' path ⟨rfl, heq, -⟩
      exact honce e he heq
    · -- the path is free: the object is named
      rcases hperm with ⟨ob, hob, hpos⟩
      obtain ⟨rfl, rfl⟩ := result_eq (createName_free hname hfits hob hfind) hcall
      refine inv_named hinv hob hpos honce (fun c => canonicalPath_ne_zero) hnone ?_
        (fun _ _ => id)
      intro o' path
      constructor
      · rintro ⟨rfl, -, hfold⟩
        exact ⟨rfl, hfold⟩
      · rintro ⟨rfl, hfold⟩
        exact ⟨rfl, rfl, hfold⟩
  | insertName name o dir =>
    rcases reply_inv Reply.inserted hrun with ⟨b, hcall, rfl⟩
    rcases bind_inv hcall with ⟨res, u, hcreate, -⟩
    rcases createName_fits hcreate with ⟨hname, hfits⟩
    rcases ddkFindName_spec hinv (canonicalPath name dir) with
      ⟨e, he, hfold, ⟨obx, hobx, hne⟩, hfind⟩ | ⟨hnone, hfind⟩
    · -- as for `DdkCreateName`, and the reference on the holder is released
      obtain ⟨rfl, hquiet⟩ := insertName_taken hinv hperm honce hname hfits he hobx
        (hinv.pos_of_live he hobx hne) hfind hcall
      exact inv_quiet hinv hquiet (fun _ _ => id) (fun _ _ => id)
    · rcases hperm with ⟨ob, hob, hpos⟩
      have hspec : ddkInsertName name o dir s =
          .ok true (s.named o ob (canonicalPath name dir)) := by
        rw [ddkInsertName, bind_ok (createName_free hname hfits hob hfind), if_neg (by simp)]
        rfl
      obtain ⟨rfl, rfl⟩ := result_eq hspec hcall
      refine inv_named hinv hob hpos honce (fun c => canonicalPath_ne_zero) hnone ?_
        (fun _ _ => id)
      intro o' path
      constructor
      · rintro ⟨rfl, hfold⟩
        exact ⟨rfl, hfold⟩
      · rintro ⟨rfl, hfold⟩
        exact ⟨rfl, hfold⟩
  | removeName name =>
    rcases done_inv hrun with ⟨hcall, rfl⟩
    rw [ddkRemoveName, get_bind] at hcall
    rcases removeNames_shrinks hinv.sound hinv.addrs hinv.objects hcall with ⟨keep, hshrinks, hkeep⟩
    refine inv_shrinks hinv hshrinks (fun _ _ => id) ?_
    intro e he hne
    rw [hkeep e he hne]
    simpa [Unnames] using rtlCompareUnicodeString_eq_zero (hinv.nulFree e he)
  | removeObjectName o =>
    rcases done_inv hrun with ⟨hcall, rfl⟩
    rw [ddkRemoveObjectName, removeObjectName, get_bind] at hcall
    rcases removeNames_shrinks hinv.sound hinv.addrs hinv.objects hcall with ⟨keep, hshrinks, hkeep⟩
    refine inv_shrinks hinv hshrinks (fun _ _ => id) ?_
    intro e he hne
    rw [hkeep e he hne, beq_iff_eq]
    exact eq_comm
  | lookupName name dir =>
    rcases reply_inv Reply.object hrun with ⟨res, hcall, rfl⟩
    by_cases hfits : PathFits name dir
    · rcases lookupName_spec hinv hfits with ⟨e, he, -, -, ob, hob, hpos, hspec⟩ | ⟨-, hspec⟩
      · obtain ⟨rfl, rfl⟩ := result_eq hspec hcall
        exact inv_quiet hinv (quiet_put_held hinv.sound hob hpos _
          (by show 0 ≤ ob.refcount + 1; omega)) (fun _ _ => id) (fun _ _ => id)
      · obtain ⟨rfl, rfl⟩ := result_eq hspec hcall
        exact inv_quiet hinv (quiet_refl hinv.sound) (fun _ _ => id) (fun _ _ => id)
    · -- an assertion stops the call
      rw [ddkLookupName, bind_error (ddkCreatePath_fails hfits s)] at hcall
      cases hcall

/-- The invariant holds after every run. -/
theorem run_inv (h : Trace Init Step ls s) : Inv ls s :=
  h.invariant_with (fun _ hinit => init_inv hinit) (fun _ _ _ _ hinv hstep => step_inv hinv hstep)

end Runs

/-- `DdkCreateName` with the object on a taken path returns the holder with one more
reference and leaves the table alone. -/
def ReturnsHolder (s : State) (o : ObjId) : Prop :=
  ∀ name dir, 1 ≤ name.length → PathFits name dir → ∀ e ∈ s.ddkNameList,
    folded (canonicalPath name dir) = folded e.name → Live s e.object →
    ∃ t ob, ddkCreateName name o dir s = .ok e.object t ∧ t.ddkNameList = s.ddkNameList ∧
      s.objects e.object = some ob ∧
      t.objects e.object = some { ob with refcount := ob.refcount + 1 }

/-- The table is a partial function from paths to live objects, and the history
of the run says which. -/
structure PartialFunction (ls : List (Event × Reply)) (s : State) : Prop where
  /-- At most one live object is listed under a path. -/
  unique : UniqueLive s
  /-- A lookup finds an object exactly if it is live, was named with this path,
  and has not lost the name since. -/
  lookup_iff : ∀ name dir o, PathFits name dir →
    ((∃ t, ddkLookupName name dir s = .ok (some o) t) ↔
      Live s o ∧ NamedSince ls o (canonicalPath name dir))
  /-- A lookup never fails, takes one reference on what it finds, and changes
  nothing else. -/
  lookup_result : ∀ name dir, PathFits name dir →
    ddkLookupName name dir s = .ok none s ∨
    ∃ o ob, s.objects o = some ob ∧ ddkLookupName name dir s =
      .ok (some o) (s.put o (some { ob with refcount := ob.refcount + 1 }))
  /-- A creation on a taken path takes one more reference on the holder, releases
  the object passed, and returns the holder. -/
  create_taken : ∀ name dir o, 1 ≤ name.length → PathFits name dir →
    ∀ e ∈ s.ddkNameList, folded (canonicalPath name dir) = folded e.name → Live s e.object →
    ∃ ob, s.objects e.object = some ob ∧
      ddkCreateName name o dir s = (do ddkDereferenceObject o; pure e.object : ObM ObjId)
        (s.put e.object (some { ob with refcount := ob.refcount + 1 }))
  /-- When it returns, only destroyed objects have lost their names, and the holder
  has no reference less than before. -/
  create_returns : ∀ name dir o, Held s o → Unnamed s o →
    ∀ e ∈ s.ddkNameList, folded (canonicalPath name dir) = folded e.name → Live s e.object →
    ∀ r t, ddkCreateName name o dir s = .ok r t → r = e.object ∧
      t.ddkNameList = s.ddkNameList.filter (alive t) ∧
      ∃ ob ob', s.objects e.object = some ob ∧ t.objects e.object = some ob' ∧
        (ob'.refcount = ob.refcount + 1 ∨ ob'.refcount = ob.refcount)
  /-- The table stays as it is and the holder keeps the reference when nothing else
  goes with the object passed. -/
  create_alone : ∀ o, Held s o → Unnamed s o → ReleasedAlone s o → ReturnsHolder s o

/-- **The name table.** After every run that names only objects without a name,
the table is a partial function on canonical paths. -/
theorem nameTable_partial_function (ls : List (Event × Reply)) (s : State)
    (h : Trace Init Step ls s) : PartialFunction ls s := by
  have hinv := run_inv h
  -- the search on a taken path comes to the holder
  have hholder : ∀ name dir, ∀ e ∈ s.ddkNameList,
      folded (canonicalPath name dir) = folded e.name → Live s e.object →
      ∃ ob, s.objects e.object = some ob ∧ 1 ≤ ob.refcount ∧
        ddkFindName (canonicalPath name dir) s = .ok (some e.object) s := by
    intro name dir e he hfold hlive
    rcases ddkFindName_spec hinv (canonicalPath name dir) with
      ⟨e', he', hfold', hlive', hfind⟩ | ⟨hnone, -⟩
    · rcases hinv.unique e he e' he' (hfold.symm.trans hfold') hlive hlive' with rfl
      rcases hlive with ⟨ob, hob, hne⟩
      exact ⟨ob, hob, hinv.pos_of_live he hob hne, hfind⟩
    · exact absurd hlive (hnone e he hfold)
  constructor
  case unique => exact hinv.unique
  case lookup_iff =>
    intro name dir o hfits
    rcases lookupName_spec hinv hfits with ⟨e, he, hfold, hlive, ob, hob, -, hspec⟩ | ⟨hnone, hspec⟩
    · constructor
      · rintro ⟨t, hrun⟩
        rcases result_eq hspec hrun with ⟨hres, -⟩
        rcases Option.some.inj hres with rfl
        exact ⟨hlive, (hinv.history _ _ (by rw [hob]; simp)).1 ⟨e, he, rfl, hfold.symm⟩⟩
      · rintro ⟨hlive', hnamed⟩
        -- the entry of the object is the live one under the path
        rcases id hlive' with ⟨ob', hob', -⟩
        rcases (hinv.history _ _ (by rw [hob']; simp)).2 hnamed with ⟨e', he', rfl, hfold'⟩
        rcases hinv.unique e he e' he' (hfold.symm.trans hfold'.symm) hlive hlive' with rfl
        exact ⟨_, hspec⟩
    · constructor
      · rintro ⟨t, hrun⟩
        cases (result_eq hspec hrun).1
      · rintro ⟨hlive', hnamed⟩
        rcases id hlive' with ⟨ob', hob', -⟩
        rcases (hinv.history _ _ (by rw [hob']; simp)).2 hnamed with ⟨e', he', rfl, hfold'⟩
        exact absurd hlive' (hnone e' he' hfold'.symm)
  case lookup_result =>
    intro name dir hfits
    rcases lookupName_spec hinv hfits with ⟨e, -, -, -, ob, hob, -, hspec⟩ | ⟨-, hspec⟩
    · exact Or.inr ⟨e.object, ob, hob, hspec⟩
    · exact Or.inl hspec
  case create_taken =>
    intro name dir o hname hfits e he hfold hlive
    rcases hholder name dir e he hfold hlive with ⟨ob, hob, -, hfind⟩
    exact ⟨ob, hob, createName_taken hname hfits hob hfind⟩
  case create_returns =>
    intro name dir o hheld hunnamed e he hfold hlive r t hrun
    rcases hholder name dir e he hfold hlive with ⟨ob, hob, hpos, hfind⟩
    rcases createName_fits hrun with ⟨hname, hfits⟩
    obtain ⟨rfl, hquiet, ob', hob', hcount⟩ :=
      createName_returns hinv hheld hunnamed hname hfits he hob hpos hfind hrun
    exact ⟨rfl, hquiet.names, ob, ob', hob, hob', hcount⟩
  case create_alone =>
    intro o hheld hunnamed halone name dir hname hfits e he hfold hlive
    rcases hholder name dir e he hfold hlive with ⟨ob, hob, hpos, hfind⟩
    obtain ⟨t, hrun, hnames, hob'⟩ :=
      releasedAlone_run hinv hunnamed halone hob hpos (hunnamed e he)
    refine ⟨t, ob, ?_, hnames, hob, hob'⟩
    rw [createName_taken hname hfits hob hfind, bind_ok hrun]
    rfl

theorem init_emptyState : Init emptyState := ⟨fun _ => rfl, rfl, rfl⟩

theorem anyStep_snoc {ls : List (Event × Reply)} {s s' : State} (h : Trace Init AnyStep ls s)
    (e : Event) (r : Reply) (hperm : Permitted s e) (hrun : perform e s = .ok r s') :
    Trace Init AnyStep (ls ++ [(e, r)]) s' := h.snoc ⟨hperm, hrun⟩

theorem step_snoc {ls : List (Event × Reply)} {s s' : State} (h : Trace Init Step ls s)
    (e : Event) (r : Reply) (honce : NamesOnce s e) (hperm : Permitted s e)
    (hrun : perform e s = .ok r s') : Trace Init Step (ls ++ [(e, r)]) s' :=
  h.snoc ⟨honce, hperm, hrun⟩

/-- A device on the list of its driver, with a name that goes with the last reference
on it: the release of the name destroys the device, which leaves the list and releases
its driver, and the driver keeps its own name. -/
theorem nameTable_partial_function_device :
    ∃ ls s, PartialFunction ls s ∧ s.objects 1 = none ∧
      s.ddkNameList.map (·.object) = [0] ∧
      s.objects 0 = some ⟨2, .driver ⟨none, 0, false, false⟩⟩ := by
  have h0 : Trace Init Step [] emptyState := Trace.start init_emptyState
  have h1 := step_snoc h0 (.alloc (.driver ⟨none, 0, false, false⟩)) (.object (some 0)) trivial
    trivial rfl
  have h2 := step_snoc h1 (.createName [0x5C, 0x61] 0 []) (.object (some 0))
    (by intro e he; cases he) ⟨_, rfl, by decide⟩ rfl
  have h3 := step_snoc h2 (.alloc (.device 0 none)) (.object (some 1)) trivial trivial rfl
  have h4 := step_snoc h3 (.createName [0x5C, 0x62] 1 []) (.object (some 1))
    (by unfold NamesOnce Unnamed; decide) ⟨_, rfl, by decide⟩ rfl
  -- the device is put on the list of its driver
  have h5 := step_snoc h4 (.reference 0) .done trivial ⟨_, rfl, by decide⟩ rfl
  have h6 := step_snoc h5 (.write 0 (.driver ⟨some 1, 0, false, false⟩)) .done trivial trivial rfl
  -- its creator gives up the reference of its own, and the name goes
  have h7 := step_snoc h6 (.dereference 1) .done trivial ⟨_, rfl, by decide⟩ rfl
  have h8 := step_snoc h7 (.removeName [0x5C, 0x42]) .done trivial trivial rfl
  exact ⟨_, _, nameTable_partial_function _ _ h8, rfl, rfl, rfl⟩

/-- An object under two paths loses its references while its deletion is deferred,
another object takes the second path, and the removal of the first path brings
the reference count of the dead object to -1: two entries under one path hold
objects with a reference count other than 0. -/
theorem named_twice : ¬ ∀ ls s, Trace Init AnyStep ls s → UniqueLive s := by
  intro hall
  have h0 : Trace Init AnyStep [] emptyState := Trace.start init_emptyState
  have h1 := anyStep_snoc h0 (.alloc .other) (.object (some 0)) trivial rfl
  have h2 := anyStep_snoc h1 (.createName [0x5C, 0x61] 0 []) (.object (some 0))
    ⟨_, rfl, by decide⟩ rfl
  have h3 := anyStep_snoc h2 (.createName [0x5C, 0x62] 0 []) (.object (some 0))
    ⟨_, rfl, by decide⟩ rfl
  have h4 := anyStep_snoc h3 (.deferDelete 0) .done ⟨_, rfl, by decide⟩ rfl
  have h5 := anyStep_snoc h4 (.deferDelete 0) .done ⟨_, rfl, by decide⟩ rfl
  have h6 := anyStep_snoc h5 (.deferDelete 0) .done ⟨_, rfl, by decide⟩ rfl
  have h7 := anyStep_snoc h6 (.alloc .other) (.object (some 1)) trivial rfl
  have h8 := anyStep_snoc h7 (.createName [0x5C, 0x62] 1 []) (.object (some 1))
    ⟨_, rfl, by decide⟩ rfl
  have h9 := anyStep_snoc h8 (.removeName [0x5C, 0x61]) .done trivial rfl
  have heq := hall _ _ h9 ⟨2, 1, [0x5C, 0x62]⟩ (by decide) ⟨1, 0, [0x5C, 0x62]⟩ (by decide) rfl
    ⟨_, rfl, by decide⟩ ⟨_, rfl, by decide⟩
  cases heq

/-- A device is passed with the path of its own driver: its destruction takes back
the reference that the driver has just got. -/
theorem named_driver : ¬ ∀ ls s, Trace Init Step ls s → ∀ o, Held s o → Unnamed s o →
    ReturnsHolder s o := by
  intro hall
  have h0 : Trace Init Step [] emptyState := Trace.start init_emptyState
  have h1 := step_snoc h0 (.alloc (.driver ⟨none, 0, false, false⟩)) (.object (some 0)) trivial
    trivial rfl
  have h2 := step_snoc h1 (.createName [0x5C, 0x61] 0 []) (.object (some 0))
    (by intro e he; cases he) ⟨_, rfl, by decide⟩ rfl
  have h3 := step_snoc h2 (.alloc (.device 0 none)) (.object (some 1)) trivial trivial rfl
  have h4 := step_snoc h3 (.reference 0) .done trivial ⟨_, rfl, by decide⟩ rfl
  have h5 := step_snoc h4 (.write 0 (.driver ⟨some 1, 0, false, false⟩)) .done trivial trivial rfl
  obtain ⟨t, ob, hrun, -, hob, hob'⟩ := hall _ _ h5 1 ⟨_, rfl, by decide⟩
    (by unfold Unnamed; decide) [0x5C, 0x61] [] (by decide) (by decide) ⟨0, 0, [0x5C, 0x61]⟩
    (by decide) rfl ⟨_, rfl, by decide⟩
  obtain ⟨-, rfl⟩ := result_eq (m := ddkCreateName [0x5C, 0x61] 1 []) rfl hrun
  rcases Option.some.inj hob with rfl
  cases hob'

/-- Without the restriction on what is named and on what goes with the object passed,
the table does not do what it is for. -/
theorem nameTable_fails : (¬ ∀ ls s, Trace Init AnyStep ls s → UniqueLive s) ∧
    ¬ ∀ ls s, Trace Init Step ls s → ∀ o, Held s o → Unnamed s o → ReturnsHolder s o :=
  ⟨named_twice, named_driver⟩

end Wdutf.Ob
