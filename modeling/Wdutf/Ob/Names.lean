import Mathlib.Data.List.Basic
import Mathlib.Data.List.TakeWhile
import Mathlib.Tactic.Common
import Wdutf.Ob.Release

/-!
# Wdutf.Ob.Names — paths and the search of the name table

What the name routines compute, one call at a time.

* `findName_spec` — the search returns the first live object under a path;
* `createName_free`, `createName_fails` — a name on a free path, and a name that
  an assertion turns down.
-/

namespace Wdutf.Ob

open Wdutf.Action Wdutf.Rtl

/-! ## Paths -/

/-- The canonical path of a name in a directory. -/
def canonicalPath (name : UnicodeString) (dir : List Wchar) : UnicodeString :=
  wcs (pathText name dir [])

theorem wcs_ne_zero {s : List Wchar} {c : Wchar} (h : c ∈ wcs s) : c ≠ 0 := by
  have := List.mem_takeWhile_imp h
  simpa using this

theorem canonicalPath_ne_zero {name : UnicodeString} {dir : List Wchar} {c : Wchar}
    (h : c ∈ canonicalPath name dir) : c ≠ 0 := wcs_ne_zero h

/-- The path is short enough for a `UNICODE_STRING`. -/
def PathFits (name : UnicodeString) (dir : List Wchar) : Prop :=
  (canonicalPath name dir).length ≤ 32766

instance (name : UnicodeString) (dir : List Wchar) : Decidable (PathFits name dir) :=
  inferInstanceAs (Decidable (_ ≤ _))

theorem ddkCreatePath_ok {name : UnicodeString} {dir : List Wchar} (h : PathFits name dir)
    (s : State) : ddkCreatePath name dir [] s = .ok (canonicalPath name dir) s := by
  have hassert : ddkAssert (decide (((wcs (pathText name dir [])).length + 1) * 2 ≤ 0xFFFF - 1)) s =
      .ok () s := by
    rw [ddkAssert, if_pos]
    · rfl
    · unfold PathFits canonicalPath at h
      rw [decide_eq_true_eq]
      omega
  rw [ddkCreatePath, rtlInitUnicodeString, bind_ok hassert]
  rfl

theorem ddkCreatePath_fails {name : UnicodeString} {dir : List Wchar} (h : ¬ PathFits name dir)
    (s : State) : ddkCreatePath name dir [] s = .error .assertion s := by
  rw [ddkCreatePath, rtlInitUnicodeString]
  apply bind_error
  rw [ddkAssert, if_neg]
  · rfl
  · unfold PathFits canonicalPath at h
    rw [decide_eq_true_eq]
    omega

/-! ## The search -/

/-- The object is live: it has references. -/
def Live (s : State) (o : ObjId) : Prop := ∃ ob, s.objects o = some ob ∧ ob.refcount ≠ 0

/-- The object has no entry in the table. -/
def Unnamed (s : State) (o : ObjId) : Prop := ∀ e ∈ s.ddkNameList, e.object ≠ o

/-- The search returns the first live object under the path. -/
theorem findName_spec {s : State} {path : UnicodeString} {names : List Name}
    (hnul : ∀ e ∈ names, ∀ c ∈ e.name, c ≠ 0) (hheap : ∀ e ∈ names, s.objects e.object ≠ none) :
    (∃ e ∈ names, folded path = folded e.name ∧ Live s e.object ∧
      findName path names s = .ok (some e.object) s) ∨
    ((∀ e ∈ names, folded path = folded e.name → ¬ Live s e.object) ∧
      findName path names s = .ok none s) := by
  induction names with
  | nil => exact Or.inr ⟨by simp, rfl⟩
  | cons e names ih =>
    have hrest := ih (fun x hx => hnul x (List.mem_cons_of_mem e hx))
      (fun x hx => hheap x (List.mem_cons_of_mem e hx))
    rcases Option.ne_none_iff_exists'.1 (hheap e (by simp)) with ⟨ob, hob⟩
    have hcmp := rtlCompareUnicodeString_eq_zero (s := path) (hnul e (by simp))
    rw [findName]
    by_cases hmatch : folded path = folded e.name
    · rw [if_pos (hcmp.2 hmatch), bind_ok (getObject_ok hob)]
      by_cases hzero : ob.refcount = 0
      · -- a dead object under the path is skipped
        have hdead : ¬ Live s e.object := by
          rintro ⟨ob', hob', hne⟩
          rw [hob] at hob'
          rcases Option.some.inj hob' with rfl
          exact hne hzero
        rw [if_neg (by simpa using hzero)]
        rcases hrest with ⟨x, hx, hfold, hlive, hrun⟩ | ⟨hnone, hrun⟩
        · exact Or.inl ⟨x, List.mem_cons_of_mem e hx, hfold, hlive, hrun⟩
        · refine Or.inr ⟨?_, hrun⟩
          intro x hx hfold
          rcases List.mem_cons.1 hx with rfl | hx
          · exact hdead
          · exact hnone x hx hfold
      · rw [if_pos hzero]
        exact Or.inl ⟨e, by simp, hmatch, ⟨ob, hob, hzero⟩, rfl⟩
    · rw [if_neg (fun h => hmatch (hcmp.1 h))]
      rcases hrest with ⟨x, hx, hfold, hlive, hrun⟩ | ⟨hnone, hrun⟩
      · exact Or.inl ⟨x, List.mem_cons_of_mem e hx, hfold, hlive, hrun⟩
      · refine Or.inr ⟨?_, hrun⟩
        intro x hx hfold
        rcases List.mem_cons.1 hx with rfl | hx
        · exact absurd hfold hmatch
        · exact hnone x hx hfold

/-! ## Naming an object -/

theorem ddkAssert_ok {c : Bool} (h : c = true) (s : State) : ddkAssert c s = .ok () s := by
  rw [ddkAssert, if_pos h]
  rfl

/-- The state after an object got its name. -/
def State.named (s : State) (o : ObjId) (ob : Object) (path : UnicodeString) : State :=
  { s with
    objects := Function.update s.objects o (some { ob with refcount := ob.refcount + 1 })
    ddkNameList := ⟨s.nextName, o, path⟩ :: s.ddkNameList
    nextName := s.nextName + 1 }

theorem named_self (s : State) (o : ObjId) (ob : Object) (path : UnicodeString) :
    (s.named o ob path).objects o = some { ob with refcount := ob.refcount + 1 } :=
  Function.update_self ..

theorem named_of_ne (s : State) {o x : ObjId} (ob : Object) (path : UnicodeString) (h : x ≠ o) :
    (s.named o ob path).objects x = s.objects x := Function.update_of_ne h ..

/-- `DdkCreateName` on a free path. -/
theorem createName_free {s : State} {o : ObjId} {name : UnicodeString} {dir : List Wchar}
    (hname : 1 ≤ name.length) (hfits : PathFits name dir) {ob : Object}
    (hob : s.objects o = some ob) (hfind : ddkFindName (canonicalPath name dir) s = .ok none s) :
    ddkCreateName name o dir s = .ok o (s.named o ob (canonicalPath name dir)) := by
  rw [ddkCreateName, bind_ok (ddkAssert_ok (by simpa using hname) s),
    bind_ok (ddkCreatePath_ok hfits s), bind_ok hfind]
  have hlink : linkName o (canonicalPath name dir) s = .ok () { s with
      ddkNameList := ⟨s.nextName, o, canonicalPath name dir⟩ :: s.ddkNameList
      nextName := s.nextName + 1 } := rfl
  simp only [bind_ok hlink, bind_ok (ddkReferenceObject_ok (s := { s with
    ddkNameList := ⟨s.nextName, o, canonicalPath name dir⟩ :: s.ddkNameList
    nextName := s.nextName + 1 }) hob)]
  rfl

theorem createName_fails {name : UnicodeString} {dir : List Wchar} {o : ObjId}
    (h : ¬ (1 ≤ name.length ∧ PathFits name dir)) (s : State) :
    ddkCreateName name o dir s = .error .assertion s := by
  rw [ddkCreateName]
  by_cases hname : 1 ≤ name.length
  · rw [bind_ok (ddkAssert_ok (by simpa using hname) s)]
    exact bind_error (ddkCreatePath_fails (fun hfits => h ⟨hname, hfits⟩) s)
  · apply bind_error
    rw [ddkAssert, if_neg (by simpa using hname)]
    rfl

/-- The state before any allocation. -/
def emptyState : State := ⟨fun _ => none, 0, [], 0, [], 0, []⟩

end Wdutf.Ob
