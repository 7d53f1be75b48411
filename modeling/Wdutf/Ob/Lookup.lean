import Mathlib.Algebra.Ring.Int.Defs
import Mathlib.Algebra.Notation.Pi.Basic
import Mathlib.Algebra.Group.Pi.Basic
import Mathlib.Data.List.Find
import Mathlib.Data.List.Nodup
import Mathlib.Tactic.Common
import Wdutf.Ob.Names

/-!
# Wdutf.Ob.Lookup — reference counts and lookups as functions of the state

A lookup takes a reference on the object it finds, and the routines that call it
pass this reference on or give it back. Here a change of reference counts is a
function `ObjId → ℤ`, so that what a routine does to the counts is a sum.

* `State.addRefs` — the state with other reference counts;
  `ddkReferenceObject_addRefs` and `ddkDereferenceObject_addRefs` are the two steps;
* `State.findLive` — what a path denotes;
* `Table` — what holds of the heap and the names between any two calls;
* `lookupName_addRefs` — the lookup of a name, as a function of the state;
* `Table.insertName_free`, `Table.insertName_taken` — a new object gets its name, or is destroyed.
-/

namespace Wdutf.Ob

open Wdutf.Action Wdutf.Rtl

/-! ## Reference counts -/

/-- The reference count of an object. -/
def State.refcount (s : State) (o : ObjId) : Option ℤ := (s.objects o).map (·.refcount)

/-- The state in which the reference counts have changed by `f`. -/
def State.addRefs (s : State) (f : ObjId → ℤ) : State :=
  { s with objects := fun o => (s.objects o).map fun ob =>
      { ob with refcount := ob.refcount + f o } }

/-- The references that a pointer stands for: one on the object, and none when it is
`NULL`. -/
def refOn : Option ObjId → ObjId → ℤ
  | none => 0
  | some o => Pi.single o 1

section AddRefs

variable {s : State} {o x : ObjId} {ob : Object} {f g : ObjId → ℤ}

theorem refOn_nonneg (p : Option ObjId) (o : ObjId) : 0 ≤ refOn p o := by
  cases p with
  | none => exact le_refl 0
  | some x =>
    show 0 ≤ (Pi.single x 1 : ObjId → ℤ) o
    rw [Pi.single_apply]
    split <;> omega

@[simp] theorem refOn_self (o : ObjId) : refOn (some o) o = 1 := Pi.single_eq_same ..

theorem refOn_of_ne {x : ObjId} (h : x ≠ o) : refOn (some o) x = 0 := Pi.single_eq_of_ne h ..

theorem refOn_add_neg (o : ObjId) : refOn (some o) + Pi.single o (-1) = 0 := by
  funext x
  by_cases hx : x = o
  · simp [hx]
  · simp [refOn_of_ne hx, Pi.single_eq_of_ne hx]

theorem addRefs_some (h : s.objects o = some ob) :
    (s.addRefs f).objects o = some { ob with refcount := ob.refcount + f o } := by
  simp [State.addRefs, h]

theorem addRefs_of_zero (h : f o = 0) : (s.addRefs f).objects o = s.objects o := by
  simp [State.addRefs, h]

theorem addRefs_eq_none : (s.addRefs f).objects o = none ↔ s.objects o = none := by
  simp [State.addRefs]

theorem refcount_addRefs (s : State) (f : ObjId → ℤ) (o : ObjId) :
    (s.addRefs f).refcount o = (s.refcount o).map (· + f o) := by
  simp [State.addRefs, State.refcount, Function.comp_def]

@[simp] theorem addRefs_zero (s : State) : s.addRefs 0 = s := by
  have hobjects : (s.addRefs 0).objects = s.objects := by
    funext o
    cases h : s.objects o with
    | none => exact addRefs_eq_none.2 h
    | some ob => simp [addRefs_some h]
  exact State.ext hobjects rfl rfl rfl rfl rfl rfl

theorem addRefs_addRefs (s : State) (f g : ObjId → ℤ) :
    (s.addRefs f).addRefs g = s.addRefs (f + g) := by
  have hobjects : ((s.addRefs f).addRefs g).objects = (s.addRefs (f + g)).objects := by
    funext o
    cases h : s.objects o with
    | none => rw [addRefs_eq_none.2 h, addRefs_eq_none.2 (addRefs_eq_none.2 h)]
    | some ob =>
      rw [addRefs_some h, addRefs_some (addRefs_some h)]
      simp [Int.add_assoc]
  exact State.ext hobjects rfl rfl rfl rfl rfl rfl

/-- A change of one reference count. -/
theorem put_eq_addRefs (h : s.objects o = some ob) (k : ℤ) :
    s.put o (some { ob with refcount := ob.refcount + k }) = s.addRefs (Pi.single o k) := by
  have hobjects : (s.put o (some { ob with refcount := ob.refcount + k })).objects =
      (s.addRefs (Pi.single o k)).objects := by
    funext x
    by_cases hx : x = o
    · rw [hx, put_self, addRefs_some h, Pi.single_eq_same]
    · rw [put_of_ne _ _ hx]
      cases hob : s.objects x with
      | none => exact (addRefs_eq_none.2 hob).symm
      | some obx => simp [addRefs_some hob, Pi.single_eq_of_ne hx]
  exact State.ext hobjects rfl rfl rfl rfl rfl rfl

@[simp] theorem freed_self (s : State) (o : ObjId) : (s.freed o).objects o = none :=
  Function.update_self ..

theorem freed_of_ne (s : State) (h : x ≠ o) : (s.freed o).objects x = s.objects x :=
  Function.update_of_ne h ..

theorem ddkReferenceObject_addRefs (h : s.objects o = some ob) :
    ddkReferenceObject o s = .ok () (s.addRefs (Pi.single o 1)) := by
  rw [ddkReferenceObject_ok h, put_eq_addRefs h]

/-- The release of a reference that is not the last one. -/
theorem ddkDereferenceObject_addRefs (h : s.objects o = some ob) (hne : ob.refcount ≠ 1) :
    ddkDereferenceObject o s = .ok () (s.addRefs (Pi.single o (-1))) := by
  rw [ddkDereferenceObject, get_bind, derefLevels_ne h hne, ← put_eq_addRefs h, Int.sub_eq_add_neg]

end AddRefs

/-! ## What a path denotes -/

/-- The object has references. -/
def State.isLive (s : State) (o : ObjId) : Bool := (s.objects o).any fun ob => ob.refcount != 0

/-- The first live object under the path. -/
def State.findLive (s : State) (path : UnicodeString) : Option ObjId :=
  (s.ddkNameList.find? fun e => folded path == folded e.name && s.isLive e.object).map (·.object)

theorem isLive_iff {s : State} {o : ObjId} : s.isLive o = true ↔ Live s o := by
  simp [State.isLive, Live, Option.any_eq_true]

section FindLive

variable {s t : State} {path : UnicodeString} {o : ObjId}

theorem live_of_eq (h : t.objects o = s.objects o) : Live t o ↔ Live s o := by
  rw [Live, Live, h]

/-- References on one object, which is live before and after. -/
theorem live_addRefs {k : ℤ} (hbefore : Live s o) (hafter : Live (s.addRefs (Pi.single o k)) o)
    (x : ObjId) : Live (s.addRefs (Pi.single o k)) x ↔ Live s x := by
  by_cases hx : x = o
  · rw [hx]
    exact iff_of_true hafter hbefore
  · exact live_of_eq (addRefs_of_zero (Pi.single_eq_of_ne hx _))

theorem findLive_some (h : s.findLive path = some o) :
    ∃ e ∈ s.ddkNameList, e.object = o ∧ folded path = folded e.name ∧ Live s o := by
  rcases Option.map_eq_some_iff.1 h with ⟨e, hfind, rfl⟩
  have hhit := List.find?_some hfind
  rw [Bool.and_eq_true, beq_iff_eq, isLive_iff] at hhit
  exact ⟨e, List.mem_of_find?_eq_some hfind, rfl, hhit.1, hhit.2⟩

theorem findLive_eq_none : s.findLive path = none ↔
    ∀ e ∈ s.ddkNameList, folded path = folded e.name → ¬ Live s e.object := by
  rw [State.findLive, Option.map_eq_none_iff, List.find?_eq_none]
  constructor
  · intro h e he hfold hlive
    exact h e he (by simp [hfold, isLive_iff.2 hlive])
  · intro h e he hhit
    rw [Bool.and_eq_true, beq_iff_eq, isLive_iff] at hhit
    exact h e he hhit.1 hhit.2

/-- What a path denotes depends on the names and on which of their objects are live. -/
theorem findLive_congr (hnames : t.ddkNameList = s.ddkNameList)
    (hlive : ∀ e ∈ s.ddkNameList, Live t e.object ↔ Live s e.object) (path : UnicodeString) :
    t.findLive path = s.findLive path := by
  have hfind : t.ddkNameList.find? (fun e => folded path == folded e.name && t.isLive e.object) =
      s.ddkNameList.find? (fun e => folded path == folded e.name && s.isLive e.object) := by
    rw [hnames]
    apply List.find?_congr
    intro e he
    rw [Bool.eq_iff_iff.2 (isLive_iff.trans ((hlive e he).trans isLive_iff.symm))]
  rw [State.findLive, State.findLive, hfind]

/-- A new entry with a live object comes first. -/
theorem findLive_cons {e : Name} (hfold : folded path = folded e.name)
    (hnames : t.ddkNameList = e :: s.ddkNameList) (hlive : Live t e.object) :
    t.findLive path = some e.object := by
  rw [State.findLive, hnames, List.find?_cons_of_pos (by simp [hfold, isLive_iff.2 hlive])]
  rfl

theorem findLive_folded {path' : UnicodeString} (h : folded path = folded path') :
    s.findLive path = s.findLive path' := by
  rw [State.findLive, State.findLive, h]

/-- A new entry under another path. -/
theorem findLive_cons_of_ne {e : Name} (hfold : folded path ≠ folded e.name)
    (hnames : t.ddkNameList = e :: s.ddkNameList)
    (hlive : ∀ x ∈ s.ddkNameList, Live t x.object ↔ Live s x.object) :
    t.findLive path = s.findLive path := by
  have htail := findLive_congr (s := s) (t := { t with ddkNameList := s.ddkNameList }) rfl hlive
    path
  rw [← htail, State.findLive, State.findLive, hnames, List.find?_cons_of_neg (by simp [hfold])]
  rfl

/-- The entries of another object go. -/
theorem findLive_filter {y : ObjId}
    (hnames : t.ddkNameList = s.ddkNameList.filter fun e => e.object != o)
    (hlive : ∀ x ∈ s.ddkNameList, x.object ≠ o → (Live t x.object ↔ Live s x.object))
    (hfind : s.findLive path = some y) (hy : y ≠ o) : t.findLive path = some y := by
  rcases Option.map_eq_some_iff.1 hfind with ⟨e, he, rfl⟩
  obtain ⟨hhit, before, after, hsplit, hbefore⟩ := List.find?_eq_some_iff_append.1 he
  have hsame : ∀ x ∈ s.ddkNameList, x.object ≠ o → t.isLive x.object = s.isLive x.object := by
    intro x hx hxo
    rw [Bool.eq_iff_iff, isLive_iff, isLive_iff]
    exact hlive x hx hxo
  -- what comes before the entry is no hit, whether it stays or goes
  have hnone : (before.filter fun e => e.object != o).find?
      (fun e => folded path == folded e.name && t.isLive e.object) = none := by
    rw [List.find?_eq_none]
    intro x hx
    rw [List.mem_filter] at hx
    rw [hsame x (by rw [hsplit]; simp [hx.1]) (by simpa using hx.2)]
    have hmiss := hbefore x hx.1
    rw [Bool.not_eq_true'] at hmiss
    exact Bool.eq_false_iff.1 hmiss
  have hkeep : t.isLive e.object = s.isLive e.object := hsame e (by rw [hsplit]; simp) hy
  rw [State.findLive, hnames, hsplit, List.filter_append, List.find?_append, hnone,
    List.filter_cons_of_pos (by simpa using hy), List.find?_cons_of_pos (by rw [hkeep]; exact hhit)]
  rfl

end FindLive

/-! ## States between calls -/

/-- What holds of the heap and the names between any two calls. A listed object
without references is one whose deletion is under way. -/
structure Table (s : State) : Prop where
  addrs : (s.ddkNameList.map (·.addr)).Nodup
  addr_lt : ∀ e ∈ s.ddkNameList, e.addr < s.nextName
  objects : (s.ddkNameList.map (·.object)).Nodup
  nulFree : ∀ e ∈ s.ddkNameList, ∀ c ∈ e.name, c ≠ 0
  heap : ∀ o, s.objects o ≠ none → o < s.nextObject
  listed : ∀ e ∈ s.ddkNameList, ∃ ob, s.objects e.object = some ob ∧ 0 ≤ ob.refcount
  destination : ∀ o rc destination enabled, s.objects o = some ⟨rc, .symlink destination enabled⟩ →
    PathFits destination []

section Table

variable {s : State} {o : ObjId} {ob : Object} {path : UnicodeString} {f : ObjId → ℤ}

theorem Table.fresh (h : Table s) : s.objects s.nextObject = none := by
  by_contra hne
  exact Nat.lt_irrefl _ (h.heap s.nextObject hne)

theorem Table.ne_fresh (h : Table s) (hob : s.objects o = some ob) : o ≠ s.nextObject := by
  rintro rfl
  rw [h.fresh] at hob
  cases hob

theorem Table.listed_ne (h : Table s) {e : Name} (he : e ∈ s.ddkNameList) :
    e.object ≠ s.nextObject := by
  rcases h.listed e he with ⟨ob, hob, -⟩
  exact h.ne_fresh hob

theorem Table.unnamed_fresh (h : Table s) : Unnamed s s.nextObject := fun _ he => h.listed_ne he

/-- The search of the table. -/
theorem Table.findName (h : Table s) (path : UnicodeString) :
    ddkFindName path s = .ok (s.findLive path) s := by
  have hfind : ∀ names : List Name, (∀ e ∈ names, e ∈ s.ddkNameList) →
      Ob.findName path names s = .ok ((names.find? fun e =>
        folded path == folded e.name && s.isLive e.object).map (·.object)) s := by
    intro names
    induction names with
    | nil => exact fun _ => rfl
    | cons e names ih =>
      intro hsub
      have he : e ∈ s.ddkNameList := hsub e (by simp)
      have hrest := ih fun x hx => hsub x (List.mem_cons_of_mem e hx)
      have hcmp := rtlCompareUnicodeString_eq_zero (s := path) (h.nulFree e he)
      rcases h.listed e he with ⟨ob, hob, -⟩
      rw [Ob.findName]
      by_cases hmatch : folded path = folded e.name
      · rw [if_pos (hcmp.2 hmatch), bind_ok (getObject_ok hob)]
        by_cases hzero : ob.refcount = 0
        · rw [if_neg (by simpa using hzero), hrest,
            List.find?_cons_of_neg (by simp [State.isLive, hob, hzero])]
        · rw [if_pos hzero, List.find?_cons_of_pos (by simp [State.isLive, hob, hzero, hmatch])]
          rfl
      · rw [if_neg (fun h => hmatch (hcmp.1 h)), hrest, List.find?_cons_of_neg (by simp [hmatch])]
  rw [ddkFindName, get_bind]
  exact hfind s.ddkNameList fun _ he => he

/-- A path denotes an object that somebody holds a reference on. -/
theorem Table.findLive_held (h : Table s) (hfind : s.findLive path = some o) :
    ∃ ob, s.objects o = some ob ∧ 1 ≤ ob.refcount := by
  rcases findLive_some hfind with ⟨e, he, rfl, -, ob, hob, hne⟩
  rcases h.listed e he with ⟨ob', hob', hnonneg⟩
  rw [hob] at hob'
  rcases Option.some.inj hob' with rfl
  exact ⟨ob, hob, by omega⟩

theorem Table.findLive_pos (h : Table s) (hfind : s.findLive path = some o)
    (hob : s.objects o = some ob) : 1 ≤ ob.refcount := by
  rcases h.findLive_held hfind with ⟨ob', hob', hpos⟩
  rw [hob] at hob'
  rcases Option.some.inj hob' with rfl
  exact hpos

/-- A state with no other names and no other bodies. -/
theorem Table.sublist {t : State} (h : Table s) (hnames : t.ddkNameList.Sublist s.ddkNameList)
    (hnextName : t.nextName = s.nextName) (hnextObject : s.nextObject ≤ t.nextObject)
    (hbody : ∀ o ob', t.objects o = some ob' → ∃ ob, s.objects o = some ob ∧ ob.body = ob'.body)
    (hlisted : ∀ e ∈ t.ddkNameList, ∃ ob, t.objects e.object = some ob ∧ 0 ≤ ob.refcount) :
    Table t where
  addrs := h.addrs.sublist (hnames.map _)
  addr_lt := fun e he => hnextName ▸ h.addr_lt e (hnames.subset he)
  objects := h.objects.sublist (hnames.map _)
  nulFree := fun e he => h.nulFree e (hnames.subset he)
  heap := by
    intro o ho
    rcases Option.ne_none_iff_exists'.1 ho with ⟨ob', hob'⟩
    rcases hbody o ob' hob' with ⟨ob, hob, -⟩
    exact Nat.lt_of_lt_of_le (h.heap o (by rw [hob]; simp)) hnextObject
  listed := hlisted
  destination := by
    intro o rc destination enabled hlink
    rcases hbody o _ hlink with ⟨⟨rc', body⟩, hob, rfl⟩
    exact h.destination o rc' destination enabled hob

theorem Table.addRefs (h : Table s) (hf : ∀ o ob, s.objects o = some ob → 0 ≤ ob.refcount →
    0 ≤ ob.refcount + f o) : Table (s.addRefs f) := by
  refine h.sublist (List.Sublist.refl _) rfl (Nat.le_refl _) ?_ ?_
  · intro o ob' hob'
    rcases Option.map_eq_some_iff.1 hob' with ⟨ob, hob, rfl⟩
    exact ⟨ob, hob, rfl⟩
  · intro e he
    rcases h.listed e he with ⟨ob, hob, hnonneg⟩
    exact ⟨_, addRefs_some hob, hf e.object ob hob hnonneg⟩

/-- References on one object. -/
theorem Table.addRef (h : Table s) {k : ℤ} (hob : s.objects o = some ob)
    (hk : 0 ≤ ob.refcount + k) : Table (s.addRefs (Pi.single o k)) := by
  apply h.addRefs
  intro x obx hobx hnonneg
  by_cases hx : x = o
  · rw [hx, hob] at hobx
    rcases Option.some.inj hobx with rfl
    rw [hx, Pi.single_eq_same]
    exact hk
  · rw [Pi.single_eq_of_ne hx]
    omega

/-- An object without a name goes. -/
theorem Table.freed (h : Table s) (hunnamed : Unnamed s o) : Table (s.freed o) := by
  refine h.sublist (List.Sublist.refl _) rfl (Nat.le_refl _) ?_ ?_
  · intro x ob hob
    by_cases hx : x = o
    · rw [hx, freed_self] at hob
      cases hob
    · rw [freed_of_ne s hx] at hob
      exact ⟨ob, hob, rfl⟩
  · intro e he
    rw [freed_of_ne s (hunnamed e he)]
    exact h.listed e he

theorem table_emptyState : Table emptyState := by
  constructor <;> simp [emptyState]

theorem Table.allocated (h : Table s) {body : Body}
    (hdestination : ∀ destination enabled, body = .symlink destination enabled →
      PathFits destination []) : Table (s.allocated body) where
  addrs := h.addrs
  addr_lt := h.addr_lt
  objects := h.objects
  nulFree := h.nulFree
  heap := by
    intro o ho
    by_cases hon : o = s.nextObject
    · rw [hon]
      exact Nat.lt_succ_self _
    · rw [allocated_of_ne s body hon] at ho
      exact Nat.lt_succ_of_lt (h.heap o ho)
  listed := by
    intro e he
    rw [allocated_of_ne s body (h.listed_ne he)]
    exact h.listed e he
  destination := by
    intro o rc destination enabled hlink
    by_cases hon : o = s.nextObject
    · rw [hon, allocated_self] at hlink
      injection Option.some.inj hlink with _ hbody
      exact hdestination destination enabled hbody
    · rw [allocated_of_ne s body hon] at hlink
      exact h.destination o rc destination enabled hlink

/-- An object with references gets its first name. -/
theorem Table.named (h : Table s) (hob : s.objects o = some ob) (hnonneg : 0 ≤ ob.refcount)
    (hunnamed : Unnamed s o) (hnul : ∀ c ∈ path, c ≠ 0) : Table (s.named o ob path) where
  addrs := by
    refine List.nodup_cons.2 ⟨fun hmem => ?_, h.addrs⟩
    rcases List.mem_map.1 hmem with ⟨e, he, heq⟩
    exact absurd heq (Nat.ne_of_lt (h.addr_lt e he))
  addr_lt := by
    intro e he
    rcases List.mem_cons.1 he with rfl | he
    · exact Nat.lt_succ_self _
    · exact Nat.lt_succ_of_lt (h.addr_lt e he)
  objects := by
    refine List.nodup_cons.2 ⟨fun hmem => ?_, h.objects⟩
    rcases List.mem_map.1 hmem with ⟨e, he, heq⟩
    exact hunnamed e he heq
  nulFree := by
    intro e he
    rcases List.mem_cons.1 he with rfl | he
    · exact hnul
    · exact h.nulFree e he
  heap := by
    intro x hx
    by_cases hxo : x = o
    · rw [hxo]
      exact h.heap o (by rw [hob]; simp)
    · rw [named_of_ne s ob path hxo] at hx
      exact h.heap x hx
  listed := by
    intro e he
    rcases List.mem_cons.1 he with rfl | he
    · exact ⟨_, named_self s o ob path, Int.add_nonneg hnonneg (by decide)⟩
    · rw [named_of_ne s ob path (hunnamed e he)]
      exact h.listed e he
  destination := by
    intro x rc destination enabled hlink
    by_cases hxo : x = o
    · rw [hxo, named_self] at hlink
      injection Option.some.inj hlink with _ hbody
      exact h.destination o ob.refcount destination enabled (by rw [hob, ← hbody])
    · rw [named_of_ne s ob path hxo] at hlink
      exact h.destination x rc destination enabled hlink

/-- References on live objects change nothing for the lookups. -/
theorem findLive_addRefs (hf : ∀ o ob, s.objects o = some ob →
    (ob.refcount + f o ≠ 0 ↔ ob.refcount ≠ 0)) (path : UnicodeString) :
    (s.addRefs f).findLive path = s.findLive path := by
  refine findLive_congr (s := s) (t := s.addRefs f) rfl ?_ path
  intro e _
  constructor
  · rintro ⟨ob', hob', hne⟩
    rcases Option.map_eq_some_iff.1 hob' with ⟨ob, hob, rfl⟩
    exact ⟨ob, hob, (hf e.object ob hob).1 hne⟩
  · rintro ⟨ob, hob, hne⟩
    exact ⟨_, addRefs_some hob, (hf e.object ob hob).2 hne⟩

/-- **The lookup of a name.** It takes a reference on what the path denotes. -/
theorem lookupName_addRefs (h : Table s) {name : UnicodeString} {dir : List Wchar}
    (hfits : PathFits name dir) :
    ddkLookupName name dir s = .ok (s.findLive (canonicalPath name dir))
      (s.addRefs (refOn (s.findLive (canonicalPath name dir)))) := by
  rw [ddkLookupName, bind_ok (ddkCreatePath_ok hfits s), bind_ok (h.findName _)]
  cases hfind : s.findLive (canonicalPath name dir) with
  | none => simp [refOn]
  | some o =>
    rcases h.findLive_held hfind with ⟨ob, hob, -⟩
    simp only [bind_ok (ddkReferenceObject_addRefs hob)]
    rfl

/-! ## Naming a new object -/

/-- The state after a creation whose path was taken: the new object has come and gone. -/
def State.collided (s : State) : State :=
  { s with nextObject := s.nextObject + 1, notes := .freed s.nextObject :: s.notes }

theorem Table.collided (h : Table s) : Table s.collided :=
  h.sublist (List.Sublist.refl _) rfl (Nat.le_succ _) (fun _ ob hob => ⟨ob, hob, rfl⟩) h.listed

/-- The last reference on the new object can be released, whoever else is referenced. -/
def Destroyable (s : State) (body : Body) : Prop :=
  ∀ y ob, s.objects y = some ob → 1 ≤ ob.refcount →
    ddkDereferenceObject s.nextObject ((s.allocated body).addRefs (refOn (some y))) =
      .ok () (((s.allocated body).addRefs (refOn (some y))).freed s.nextObject)

variable {body : Body} {name : UnicodeString} {dir : List Wchar} {y : ObjId}

theorem Table.destroyable (h : Table s) (hlocal : body.Local) : Destroyable s body := by
  intro y oby hoby _
  have hnew : ((s.allocated body).addRefs (refOn (some y))).objects s.nextObject =
      some ⟨1, body⟩ := by
    rw [addRefs_of_zero (refOn_of_ne (h.ne_fresh hoby).symm), allocated_self]
  exact ddkDereferenceObject_releases _ _ _ hnew (fun _ => hlocal) h.addrs h.unnamed_fresh

/-- An allocation changes nothing for the lookups. -/
theorem Table.findLive_allocated (h : Table s) (body : Body) (path : UnicodeString) :
    (s.allocated body).findLive path = s.findLive path := by
  refine findLive_congr (s := s) (t := s.allocated body) rfl ?_ path
  intro e he
  exact live_of_eq (allocated_of_ne s body (h.listed_ne he))

/-- What is left of the new object and of the reference on the holder of its path. -/
theorem Table.freed_allocated (h : Table s) (y : ObjId) :
    ((s.allocated body).addRefs (refOn (some y))).freed s.nextObject =
      s.collided.addRefs (refOn (some y)) := by
  have hobjects : (((s.allocated body).addRefs (refOn (some y))).freed s.nextObject).objects =
      (s.collided.addRefs (refOn (some y))).objects := by
    funext x
    by_cases hx : x = s.nextObject
    · rw [hx, freed_self]
      exact (addRefs_eq_none.2 h.fresh).symm
    · rw [freed_of_ne _ hx]
      show ((s.allocated body).objects x).map _ = (s.objects x).map _
      rw [allocated_of_ne s body hx]
  exact State.ext hobjects rfl rfl rfl rfl rfl rfl

/-- `DdkCreateName` for a new object whose path is free. -/
theorem Table.createName_free (h : Table s) (htable : Table (s.allocated body))
    (hname : 1 ≤ name.length) (hfits : PathFits name dir)
    (hfind : s.findLive (canonicalPath name dir) = none) :
    ddkCreateName name s.nextObject dir (s.allocated body) = .ok s.nextObject
      ((s.allocated body).named s.nextObject ⟨1, body⟩ (canonicalPath name dir)) := by
  apply Ob.createName_free hname hfits (allocated_self s body)
  rw [htable.findName, h.findLive_allocated, hfind]

/-- `DdkCreateName` for a new object whose path is taken. -/
theorem Table.createName_taken (h : Table s) (htable : Table (s.allocated body))
    (hdestroy : Destroyable s body) (hname : 1 ≤ name.length) (hfits : PathFits name dir)
    (hfind : s.findLive (canonicalPath name dir) = some y) :
    ddkCreateName name s.nextObject dir (s.allocated body) =
      .ok y (s.collided.addRefs (refOn (some y))) := by
  rcases h.findLive_held hfind with ⟨ob, hob, hpos⟩
  have hy : y ≠ s.nextObject := h.ne_fresh hob
  have hob' : (s.allocated body).objects y = some ob := by rw [allocated_of_ne s body hy, hob]
  have hfind' : ddkFindName (canonicalPath name dir) (s.allocated body) =
      .ok (some y) (s.allocated body) := by
    rw [htable.findName, h.findLive_allocated, hfind]
  rw [ddkCreateName, bind_ok (ddkAssert_ok (by simpa using hname) _),
    bind_ok (ddkCreatePath_ok hfits _), bind_ok hfind']
  simp only [bind_ok (ddkReferenceObject_addRefs hob')]
  have hderef : ddkDereferenceObject s.nextObject ((s.allocated body).addRefs (Pi.single y 1)) =
      .ok () (s.collided.addRefs (refOn (some y))) := by
    rw [← h.freed_allocated y]
    exact hdestroy y ob hob hpos
  exact bind_ok hderef

theorem Table.insertName_free (h : Table s) (htable : Table (s.allocated body))
    (hname : 1 ≤ name.length) (hfits : PathFits name dir)
    (hfind : s.findLive (canonicalPath name dir) = none) :
    ddkInsertName name s.nextObject dir (s.allocated body) = .ok true
      ((s.allocated body).named s.nextObject ⟨1, body⟩ (canonicalPath name dir)) := by
  rw [ddkInsertName, bind_ok (h.createName_free htable hname hfits hfind), if_neg (by simp)]
  rfl

/-- **A name that is taken.** The new object is destroyed, and the reference on the holder
is given back. -/
theorem Table.insertName_taken (h : Table s) (htable : Table (s.allocated body))
    (hdestroy : Destroyable s body) (hname : 1 ≤ name.length) (hfits : PathFits name dir)
    (hfind : s.findLive (canonicalPath name dir) = some y) :
    ddkInsertName name s.nextObject dir (s.allocated body) = .ok false s.collided := by
  rcases h.findLive_held hfind with ⟨ob, hob, hpos⟩
  have hob' : (s.collided.addRefs (refOn (some y))).objects y =
      some { ob with refcount := ob.refcount + 1 } := by
    rw [addRefs_some (s := s.collided) hob, refOn_self]
  have hderef := ddkDereferenceObject_addRefs hob' (by show ob.refcount + 1 ≠ 1; omega)
  rw [addRefs_addRefs, refOn_add_neg, addRefs_zero] at hderef
  rw [ddkInsertName, bind_ok (h.createName_taken htable hdestroy hname hfits hfind),
    if_pos (h.ne_fresh hob), bind_ok hderef]
  rfl

end Table

end Wdutf.Ob
