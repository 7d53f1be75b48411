import Mathlib.Data.List.Basic
import Mathlib.Data.List.Nodup
import Mathlib.Logic.Function.Basic
import Mathlib.Tactic.Common
import Wdutf.Lib.Long
import Wdutf.Lib.Threads

/-!
# Wdutf.Ps.ThreadObjects — the objects of the threads, `src/thread.cpp`

Every thread of the operating system gets a `THREAD` object when it comes to the library,
and gives it back when it ends; in between the object is in `threadlist`, under the thread's
identifier, where `DdkInvokeForAllThreads` finds it. A thread that `PsCreateSystemThread`
makes gives back the object that it got first and goes on with the one of its creator, which
it shares with the creator's handle. Identifiers are used again when a thread has ended.

* `Act` — the steps of all threads, with those of clients that have references;
* `ObjectOk`, `AtPoint` — who refers to an object, and what a thread has where it stands;
* `refcount_noWrap` — the `LONG` that counts the references does not wrap;
* `threadObjects_sound` — nothing is used after it has been freed, the list holds exactly
  the objects of the threads between their two calls, and an object is there as long as
  somebody refers to it.
-/

namespace Wdutf.Ps

open Wdutf.Threads Wdutf.Transition Wdutf.Long

/-! ## The model -/

variable {T : Type}

/-- A `THREAD`. -/
structure Thread (T : Type) where
  refcount : ℕ
  /-- `h` is set. -/
  h : Bool
  threadId : Option T
deriving DecidableEq, Repr

inductive Failure where
  /-- An object is used that has been freed. -/
  | accessViolation
  /-- "Thread already in list" -/
  | alreadyInList
deriving DecidableEq, Repr

/-- Where a thread stands. -/
inductive Pc where
  | gone
  -- `DdkThreadInit`, `DdkInsertThread`
  | init
  | insert
  | setId
  | scan
  | inserted
  -- `StartThread`
  | waitHandle
  -- `DdkThreadDeinit`
  | deinit
  | unlink
  | dereference
  | freeing
  | cleared
  | exit
  | running
  -- `PsCreateSystemThread`
  | reference (p : ℕ)
  | createThread (p : ℕ)
  | setHandle (p : ℕ)
  -- `DdkFreeObject` for the last reference of a client
  | free (o : ℕ)
  -- `DdkInvokeForAllThreads`
  | invoke (rest : List ℕ)
  | failed (f : Failure)
deriving DecidableEq, Repr

/-- A thread, with its `DdkCurrentThread` and the argument of `StartThread`. -/
structure Local where
  pc : Pc
  current : Option ℕ
  arg : Option ℕ
deriving DecidableEq, Repr

/-- What the threads share. -/
structure Shared (T : Type) where
  objects : ℕ → Option (Thread T)
  /-- The next object that is allocated. -/
  next : ℕ
  threadlist : List ℕ
  /-- The owner of `Lock`. -/
  lock : Option T
  /-- There is a thread with this identifier. -/
  alive : T → Bool
  /-- The argument of a thread that has been created and does not run yet. -/
  pending : T → Option ℕ
  /-- The references of clients: handles and pointers. -/
  handles : ℕ → ℕ

/-- The next step of a thread reads the object. -/
def Accesses (s : Shared T) (l : Local) (o : ℕ) : Prop :=
  match l.pc with
  | .setId | .dereference | .freeing => l.current = some o
  | .scan | .unlink => l.current = some o ∨ o ∈ s.threadlist
  | .waitHandle => l.arg = some o
  | .reference p | .createThread p | .setHandle p | .free p => o = p
  | .running => 0 < s.handles o ∨ l.current = some o
  | .invoke rest => rest.head? = some o
  | _ => False

/-- The steps of the thread `t`. -/
inductive Act [DecidableEq T] (t : T) : Shared T → Local → Shared T → Local → Prop
  -- a new thread that comes to `DdkThreadInit`
  | attach {s : Shared T} :
      s.alive t = false →
      Act t s ⟨.gone, none, none⟩ { s with alive := Function.update s.alive t true }
        ⟨.init, none, none⟩
  | start {s : Shared T} {p : ℕ} :
      s.pending t = some p →
      Act t s ⟨.gone, none, none⟩ { s with pending := Function.update s.pending t none }
        ⟨.init, none, some p⟩
  | init {s : Shared T} {arg : Option ℕ} :
      Act t s ⟨.init, none, arg⟩
        { s with
          objects := Function.update s.objects s.next (some ⟨1, true, none⟩)
          next := s.next + 1 }
        ⟨.insert, some s.next, arg⟩
  | lockInsert {s : Shared T} {current arg : Option ℕ} :
      s.lock = none →
      Act t s ⟨.insert, current, arg⟩ { s with lock := some t } ⟨.setId, current, arg⟩
  | setId {s : Shared T} {o : ℕ} {x : Thread T} {arg : Option ℕ} :
      s.objects o = some x →
      Act t s ⟨.setId, some o, arg⟩
        { s with objects := Function.update s.objects o (some { x with threadId := some t }) }
        ⟨.scan, some o, arg⟩
  | alreadyInList {s : Shared T} {o p : ℕ} {x : Thread T} {arg : Option ℕ} :
      p ∈ s.threadlist → s.objects p = some x → x.threadId = some t →
      Act t s ⟨.scan, some o, arg⟩ s ⟨.failed .alreadyInList, some o, arg⟩
  | push {s : Shared T} {o : ℕ} {arg : Option ℕ} :
      (∀ p ∈ s.threadlist, ∃ x, s.objects p = some x ∧ x.threadId ≠ some t) →
      Act t s ⟨.scan, some o, arg⟩ { s with threadlist := o :: s.threadlist }
        ⟨.inserted, some o, arg⟩
  | unlockInsert {s : Shared T} {current arg : Option ℕ} :
      Act t s ⟨.inserted, current, arg⟩ { s with lock := none }
        ⟨if arg = none then .running else .waitHandle, current, arg⟩
  -- `StartThread` waits until its creator has set `h`
  | hasHandle {s : Shared T} {p : ℕ} {x : Thread T} {current : Option ℕ} :
      s.objects p = some x → x.h = true →
      Act t s ⟨.waitHandle, current, some p⟩ s ⟨.deinit, current, some p⟩
  | terminate {s : Shared T} {current : Option ℕ} :
      Act t s ⟨.running, current, none⟩ s ⟨.deinit, current, none⟩
  | lockDeinit {s : Shared T} {current arg : Option ℕ} :
      s.lock = none →
      Act t s ⟨.deinit, current, arg⟩ { s with lock := some t } ⟨.unlink, current, arg⟩
  | unlink {s : Shared T} {o : ℕ} {arg : Option ℕ} :
      Act t s ⟨.unlink, some o, arg⟩ { s with threadlist := s.threadlist.erase o }
        ⟨.dereference, some o, arg⟩
  | dereference {s : Shared T} {o : ℕ} {x : Thread T} {arg : Option ℕ} :
      s.objects o = some x →
      Act t s ⟨.dereference, some o, arg⟩
        { s with
          objects := Function.update s.objects o (some { x with refcount := x.refcount - 1 }) }
        ⟨if x.refcount = 1 then .freeing else .cleared, some o, arg⟩
  | freeing {s : Shared T} {o : ℕ} {x : Thread T} {arg : Option ℕ} :
      s.objects o = some x →
      Act t s ⟨.freeing, some o, arg⟩ { s with objects := Function.update s.objects o none }
        ⟨.cleared, some o, arg⟩
  | startThread {s : Shared T} {p : ℕ} {current : Option ℕ} :
      Act t s ⟨.cleared, current, some p⟩ { s with lock := none } ⟨.insert, some p, none⟩
  | endThread {s : Shared T} {current : Option ℕ} :
      Act t s ⟨.cleared, current, none⟩ { s with lock := none } ⟨.exit, none, none⟩
  | exit {s : Shared T} :
      Act t s ⟨.exit, none, none⟩ { s with alive := Function.update s.alive t false }
        ⟨.gone, none, none⟩
  -- `PsCreateSystemThread`
  | create {s : Shared T} {current : Option ℕ} :
      Act t s ⟨.running, current, none⟩
        { s with
          objects := Function.update s.objects s.next (some ⟨1, false, none⟩)
          next := s.next + 1 }
        ⟨.reference s.next, current, none⟩
  | reference {s : Shared T} {p : ℕ} {x : Thread T} {current : Option ℕ} :
      s.objects p = some x →
      Act t s ⟨.reference p, current, none⟩
        { s with
          objects := Function.update s.objects p (some { x with refcount := x.refcount + 1 }) }
        ⟨.createThread p, current, none⟩
  | createThread {s : Shared T} {p : ℕ} {current : Option ℕ} (u : T) :
      s.alive u = false →
      Act t s ⟨.createThread p, current, none⟩
        { s with
          alive := Function.update s.alive u true
          pending := Function.update s.pending u (some p) }
        ⟨.setHandle p, current, none⟩
  | createFails {s : Shared T} {p : ℕ} {x : Thread T} {current : Option ℕ} :
      s.objects p = some x →
      Act t s ⟨.createThread p, current, none⟩
        { s with objects := Function.update s.objects p none } ⟨.running, current, none⟩
  | setHandle {s : Shared T} {p : ℕ} {x : Thread T} {current : Option ℕ} :
      s.objects p = some x →
      Act t s ⟨.setHandle p, current, none⟩
        { s with
          objects := Function.update s.objects p (some { x with h := true })
          handles := Function.update s.handles p (s.handles p + 1) }
        ⟨.running, current, none⟩
  -- `ObReferenceObject` and `ZwClose` or `ObDereferenceObject`, by a client that may
  | refer {s : Shared T} {o : ℕ} {x : Thread T} {current : Option ℕ} :
      0 < s.handles o ∨ current = some o → s.objects o = some x →
      Act t s ⟨.running, current, none⟩
        { s with
          objects := Function.update s.objects o (some { x with refcount := x.refcount + 1 })
          handles := Function.update s.handles o (s.handles o + 1) }
        ⟨.running, current, none⟩
  | close {s : Shared T} {o : ℕ} {x : Thread T} {current : Option ℕ} :
      0 < s.handles o → s.objects o = some x →
      Act t s ⟨.running, current, none⟩
        { s with
          objects := Function.update s.objects o (some { x with refcount := x.refcount - 1 })
          handles := Function.update s.handles o (s.handles o - 1) }
        ⟨if x.refcount = 1 then .free o else .running, current, none⟩
  | free {s : Shared T} {o : ℕ} {x : Thread T} {current : Option ℕ} :
      s.objects o = some x →
      Act t s ⟨.free o, current, none⟩ { s with objects := Function.update s.objects o none }
        ⟨.running, current, none⟩
  -- `DdkInvokeForAllThreads` under `DdkThreadLock`, which may end early
  | lockInvoke {s : Shared T} {current : Option ℕ} :
      s.lock = none →
      Act t s ⟨.running, current, none⟩ { s with lock := some t }
        ⟨.invoke s.threadlist, current, none⟩
  | visit {s : Shared T} {o : ℕ} {x : Thread T} {rest : List ℕ} {current : Option ℕ} :
      s.objects o = some x →
      Act t s ⟨.invoke (o :: rest), current, none⟩ s ⟨.invoke rest, current, none⟩
  | unlockInvoke {s : Shared T} {rest : List ℕ} {current : Option ℕ} :
      Act t s ⟨.invoke rest, current, none⟩ { s with lock := none } ⟨.running, current, none⟩
  | violation {s : Shared T} {l : Local} {o : ℕ} :
      Accesses s l o → s.objects o = none →
      Act t s l s { l with pc := .failed .accessViolation }

/-- There are no threads yet. -/
def Init (c : Conf (Shared T) T Local) : Prop :=
  c.shared = ⟨fun _ => none, 0, [], none, fun _ => false, fun _ => none, fun _ => 0⟩ ∧
    ∀ t, c.pc t = ⟨.gone, none, none⟩

/-! ## The invariant -/

/-- Who refers to the objects: the thread that has it for itself, the thread that creates
another one with it and the references this thread has, and the thread that frees it. -/
structure Refs (T : Type) where
  owner : ℕ → Option T
  creator : ℕ → Option T
  made : ℕ → ℕ
  freer : ℕ → Option T

/-- What is known of an object. -/
def ObjectOk (g : Refs T) (s : Shared T) (o : ℕ) : Prop :=
  match s.objects o with
  | none => g.owner o = none ∧ g.creator o = none ∧ g.made o = 0 ∧ g.freer o = none ∧
      s.handles o = 0
  | some x => o < s.next ∧
      x.refcount = s.handles o + (g.owner o).toList.length + g.made o ∧
      (x.refcount = 0 ↔ g.freer o ≠ none) ∧ (g.made o = 0 ↔ g.creator o = none)

/-- What holds of the shared data after every step. -/
structure SharedOk (g : Refs T) (s : Shared T) : Prop where
  object : ∀ o, ObjectOk g s o
  listed : ∀ o ∈ s.threadlist, ∃ t x, g.owner o = some t ∧ s.objects o = some x ∧
    x.threadId = some t ∧ x.h = true
  nodup : s.threadlist.Nodup

/-- The objects that a thread has for itself. -/
def Local.owns (l : Local) : List ℕ :=
  match l.pc with
  | .freeing | .cleared => l.arg.toList
  | _ => l.current.toList ++ l.arg.toList

/-- The object of a thread in the list. -/
def Local.listed (l : Local) : Option ℕ :=
  match l.pc with
  | .gone | .init | .insert | .setId | .scan => none
  | .dereference | .freeing | .cleared | .exit => none
  | _ => l.current

/-- The object that a thread creates another thread with. -/
def Local.creates (l : Local) : Option ℕ :=
  match l.pc with
  | .reference p | .createThread p | .setHandle p => some p
  | _ => none

/-- The references that it has of this object. -/
def Local.made (l : Local) : ℕ :=
  match l.pc with
  | .createThread _ => 2
  | _ => 1

/-- It is nobody else's yet. -/
def Local.hidden (l : Local) : Option ℕ :=
  match l.pc with
  | .reference p | .createThread p => some p
  | _ => none

/-- The object that a thread frees. -/
def Local.frees (l : Local) : Option ℕ :=
  match l.pc with
  | .freeing => l.current
  | .free o => some o
  | _ => none

/-- The thread has `Lock`. -/
def Local.locks (l : Local) : Bool :=
  match l.pc with
  | .setId | .scan | .inserted | .unlink | .dereference | .freeing | .cleared => true
  | .invoke _ => true
  | _ => false

/-- The objects of a thread whose `h` is known to be set. -/
def Local.ready (l : Local) : List ℕ :=
  match l.pc with
  | .gone | .init => []
  | .insert | .setId | .scan | .inserted | .waitHandle => l.current.toList
  | _ => l.owns

/-- What a thread has at its points. -/
def Local.Shape (l : Local) : Prop :=
  match l.pc with
  | .gone | .exit => l.current = none ∧ l.arg = none
  | .init => l.current = none
  | .insert | .setId | .scan | .inserted => ∃ o, l.current = some o ∧ l.arg ≠ some o
  | .waitHandle => ∃ o p, l.current = some o ∧ l.arg = some p ∧ o ≠ p
  | .deinit | .unlink | .dereference | .freeing | .cleared =>
    ∃ o, l.current = some o ∧ l.arg ≠ some o
  | .failed _ => False
  | _ => ∃ o, l.current = some o ∧ l.arg = none

/-- What a thread knows where it stands. -/
structure AtPoint (t : T) (g : Refs T) (s : Shared T) (l : Local) : Prop where
  shape : l.Shape
  owns : ∀ o, g.owner o = some t ↔ o ∈ l.owns ∨ s.pending t = some o
  creates : ∀ o, g.creator o = some t ↔ l.creates = some o
  made : ∀ o, l.creates = some o → g.made o = l.made
  hidden : ∀ o, l.hidden = some o → g.owner o = none ∧ s.handles o = 0
  frees : ∀ o, g.freer o = some t ↔ l.frees = some o
  listed : ∀ o, l.listed = some o ↔ o ∈ s.threadlist ∧ g.owner o = some t
  locks : l.locks = true → s.lock = some t
  gone : l.pc = .gone → (s.alive t = true ↔ s.pending t ≠ none)
  alive : l.pc ≠ .gone → s.alive t = true ∧ s.pending t = none
  ready : ∀ o ∈ l.ready, ∃ x, s.objects o = some x ∧ x.h = true
  named : l.pc = .scan → ∀ o, l.current = some o →
    ∃ x, s.objects o = some x ∧ x.threadId = some t
  invokes : ∀ rest, l.pc = .invoke rest → rest <:+ s.threadlist

/-- The point of the thread is none of those that have a clause of their own. -/
def Local.plain (l : Local) : Bool :=
  match l.pc with
  | .gone | .scan | .reference _ | .createThread _ | .setHandle _ | .invoke _ => false
  | _ => true

theorem AtPoint.of_plain {t : T} {g : Refs T} {s : Shared T} {l : Local} (hplain : l.plain = true)
    (hshape : l.Shape) (howns : ∀ o, g.owner o = some t ↔ o ∈ l.owns ∨ s.pending t = some o)
    (hcreates : ∀ o, g.creator o = some t ↔ l.creates = some o)
    (hfrees : ∀ o, g.freer o = some t ↔ l.frees = some o)
    (hlisted : ∀ o, l.listed = some o ↔ o ∈ s.threadlist ∧ g.owner o = some t)
    (hlocks : l.locks = true → s.lock = some t) (halive : s.alive t = true ∧ s.pending t = none)
    (hready : ∀ o ∈ l.ready, ∃ x, s.objects o = some x ∧ x.h = true) : AtPoint t g s l := by
  have hno : ∀ {P : Prop}, l.plain = false → P := by
    intro P h
    rw [hplain] at h
    cases h
  refine ⟨hshape, howns, hcreates, ?_, ?_, hfrees, hlisted, hlocks, ?_, fun _ => halive, hready, ?_,
    ?_⟩
  all_goals rcases l with ⟨pc, current, arg⟩
  · intro o ho
    cases pc with
    | reference | createThread | setHandle => exact hno rfl
    | _ => cases ho
  · intro o ho
    cases pc with
    | reference | createThread => exact hno rfl
    | _ => cases ho
  · rintro rfl
    exact hno rfl
  · rintro rfl
    exact hno rfl
  · rintro rest rfl
    exact hno rfl

/-! ## Other threads -/

/-- What is known to be set is the thread's own. -/
theorem Local.ready_owns {l : Local} {o : ℕ} (h : o ∈ l.ready) : o ∈ l.owns := by
  rcases l with ⟨pc, current, arg⟩
  cases pc with
  | gone | init => exact absurd h List.not_mem_nil
  | insert | setId | scan | inserted | waitHandle => exact List.mem_append_left _ h
  | _ => exact h

/-- What a step does at one object to the thread `u`. -/
structure RelyAt (u : T) (o : ℕ) (g g' : Refs T) (s s' : Shared T) : Prop where
  owner : g'.owner o = some u ↔ g.owner o = some u
  creator : g'.creator o = some u ↔ g.creator o = some u
  made : g.creator o = some u → g'.made o = g.made o
  hidden : g.creator o = some u → g.owner o = none → s.handles o = 0 →
    g'.owner o = none ∧ s'.handles o = 0
  freer : g'.freer o = some u ↔ g.freer o = some u
  object : ∀ x, g.owner o = some u → s.objects o = some x →
    ∃ x', s'.objects o = some x' ∧ (x.h = true → x'.h = true) ∧ x'.threadId = x.threadId

/-- What a step of another thread leaves alone. -/
structure Rely (u : T) (g g' : Refs T) (s s' : Shared T) : Prop where
  at_ : ∀ o, RelyAt u o g g' s s'
  list : ∀ o, g.owner o = some u → (o ∈ s'.threadlist ↔ o ∈ s.threadlist)
  lock : s.lock = some u → s'.lock = some u ∧ s'.threadlist = s.threadlist
  alive : s'.alive u = s.alive u
  pending : s'.pending u = s.pending u

theorem atPoint_stable {u : T} {g g' : Refs T} {s s' : Shared T} {l : Local}
    (h : Rely u g g' s s') (hat : AtPoint u g s l) : AtPoint u g' s' l := by
  have hown : ∀ o ∈ l.owns, g.owner o = some u := fun o ho => (hat.owns o).2 (Or.inl ho)
  constructor
  case shape => exact hat.shape
  case owns =>
    intro o
    rw [(h.at_ o).owner, h.pending]
    exact hat.owns o
  case creates =>
    intro o
    rw [(h.at_ o).creator]
    exact hat.creates o
  case made =>
    intro o ho
    rw [(h.at_ o).made ((hat.creates o).2 ho)]
    exact hat.made o ho
  case hidden =>
    intro o ho
    rcases hat.hidden o ho with ⟨howner, hhandles⟩
    refine (h.at_ o).hidden ((hat.creates o).2 ?_) howner hhandles
    rcases l with ⟨pc, current, arg⟩
    cases pc with
    | reference | createThread => exact ho
    | _ => cases ho
  case frees =>
    intro o
    rw [(h.at_ o).freer]
    exact hat.frees o
  case listed =>
    intro o
    rw [hat.listed o, (h.at_ o).owner]
    constructor
    · rintro ⟨hmem, howner⟩
      exact ⟨(h.list o howner).2 hmem, howner⟩
    · rintro ⟨hmem, howner⟩
      exact ⟨(h.list o howner).1 hmem, howner⟩
  case locks => exact fun hl => (h.lock (hat.locks hl)).1
  case gone =>
    intro hl
    rw [h.alive, h.pending]
    exact hat.gone hl
  case alive =>
    intro hl
    rw [h.alive, h.pending]
    exact hat.alive hl
  case ready =>
    intro o ho
    rcases hat.ready o ho with ⟨x, hx, hh⟩
    rcases (h.at_ o).object x (hown o (Local.ready_owns ho)) hx with ⟨x', hx', hh', -⟩
    exact ⟨x', hx', hh' hh⟩
  case named =>
    intro hl o ho
    have howner : g.owner o = some u := by
      refine hown o ?_
      rcases l with ⟨pc, current, arg⟩
      cases hl
      cases ho
      exact List.mem_cons_self
    rcases hat.named hl o ho with ⟨x, hx, hid⟩
    rcases (h.at_ o).object x howner hx with ⟨x', hx', -, hid'⟩
    exact ⟨x', hx', by rw [hid', hid]⟩
  case invokes =>
    intro rest hl
    have hlocks : l.locks = true := by
      rcases l with ⟨pc, current, arg⟩
      cases hl
      rfl
    rw [(h.lock (hat.locks hlocks)).2]
    exact hat.invokes rest hl

/-! ## Steps -/

/-- The conclusion of a step for the rule of `Wdutf.Lib.Threads`. -/
def StepOk (g : Refs T) (c : Conf (Shared T) T Local) (t : T) (s' : Shared T) (l' : Local) :
    Prop :=
  ∃ g', SharedOk g' s' ∧ AtPoint t g' s' l' ∧
    ∀ u, u ≠ t → AtPoint u g c.shared (c.pc u) → AtPoint u g' s' (c.pc u)

variable {g g' : Refs T} {c : Conf (Shared T) T Local} {t : T} {s s' : Shared T} {l l' : Local}

theorem relyAt_same {u : T} {o : ℕ} (hobjects : s'.objects o = s.objects o)
    (hhandles : s'.handles o = s.handles o) : RelyAt u o g g s s' := by
  refine ⟨Iff.rfl, Iff.rfl, fun _ => rfl, fun _ h h' => ⟨h, by rw [hhandles, h']⟩, Iff.rfl,
    fun x _ hx => ⟨x, ?_, id, rfl⟩⟩
  rw [hobjects, hx]

theorem SharedOk.allocated {o : ℕ} {x : Thread T} (hok : SharedOk g s) (hx : s.objects o = some x) :
    o < s.next ∧ x.refcount = s.handles o + (g.owner o).toList.length + g.made o ∧
      (x.refcount = 0 ↔ g.freer o ≠ none) ∧ (g.made o = 0 ↔ g.creator o = none) := by
  have h := hok.object o
  rw [ObjectOk, hx] at h
  exact h

theorem SharedOk.absent {o : ℕ} (hok : SharedOk g s) (hx : s.objects o = none) :
    g.owner o = none ∧ g.creator o = none ∧ g.made o = 0 ∧ g.freer o = none ∧
      s.handles o = 0 := by
  have h := hok.object o
  rw [ObjectOk, hx] at h
  exact h

theorem objectOk_some {o : ℕ} {x : Thread T} (hx : s.objects o = some x)
    (h : o < s.next ∧ x.refcount = s.handles o + (g.owner o).toList.length + g.made o ∧
      (x.refcount = 0 ↔ g.freer o ≠ none) ∧ (g.made o = 0 ↔ g.creator o = none)) :
    ObjectOk g s o := by
  rw [ObjectOk, hx]
  exact h

theorem objectOk_none {o : ℕ} (hx : s.objects o = none)
    (h : g.owner o = none ∧ g.creator o = none ∧ g.made o = 0 ∧ g.freer o = none ∧
      s.handles o = 0) : ObjectOk g s o := by
  rw [ObjectOk, hx]
  exact h

/-- The next object is new. -/
theorem SharedOk.fresh (hok : SharedOk g s) : s.objects s.next = none := by
  cases hx : s.objects s.next with
  | none => rfl
  | some x => exact absurd (hok.allocated hx).1 (Nat.lt_irrefl _)

/-- Nothing new is in the list. -/
theorem SharedOk.not_listed {o : ℕ} (hok : SharedOk g s) (h : g.owner o = none) :
    o ∉ s.threadlist := by
  intro hmem
  rcases hok.listed o hmem with ⟨u, x, howner, -⟩
  rw [h] at howner
  cases howner

/-- Only the objects, the list and the references of clients count. -/
theorem SharedOk.congr (hok : SharedOk g s) (hobjects : s'.objects = s.objects)
    (hnext : s'.next = s.next) (hlist : s'.threadlist = s.threadlist)
    (hhandles : s'.handles = s.handles) : SharedOk g s' := by
  refine ⟨fun o => ?_, ?_, ?_⟩
  · have ho := hok.object o
    rw [ObjectOk, hobjects, hhandles, hnext]
    exact ho
  · rw [hlist, hobjects]
    exact hok.listed
  · rw [hlist]
    exact hok.nodup

/-- A step that changes no object and not the list. -/
theorem stepOk_thread (hok : SharedOk g c.shared) (hobjects : s'.objects = c.shared.objects)
    (hnext : s'.next = c.shared.next) (hlist : s'.threadlist = c.shared.threadlist)
    (hhandles : s'.handles = c.shared.handles)
    (hlock : ∀ u, u ≠ t → c.shared.lock = some u → s'.lock = some u)
    (halive : ∀ u, u ≠ t → s'.alive u = c.shared.alive u)
    (hpending : ∀ u, u ≠ t → s'.pending u = c.shared.pending u) (hat : AtPoint t g s' l') :
    StepOk g c t s' l' := by
  refine ⟨g, hok.congr hobjects hnext hlist hhandles, hat, fun u hu hatu => ?_⟩
  exact atPoint_stable ⟨fun o => relyAt_same (by rw [hobjects]) (by rw [hhandles]),
    fun o _ => by rw [hlist], fun h => ⟨hlock u hu h, hlist⟩, halive u hu, hpending u hu⟩ hatu

/-- Nothing changes at this object. -/
structure Same (g g' : Refs T) (s s' : Shared T) (o : ℕ) : Prop where
  objects : s'.objects o = s.objects o
  handles : s'.handles o = s.handles o
  owner : g'.owner o = g.owner o
  creator : g'.creator o = g.creator o
  made : g'.made o = g.made o
  freer : g'.freer o = g.freer o

theorem Same.objectOk {o : ℕ} (h : Same g g' s s' o) (hnext : s.next ≤ s'.next)
    (hok : ObjectOk g s o) : ObjectOk g' s' o := by
  rw [ObjectOk, h.objects, h.handles, h.owner, h.creator, h.made, h.freer]
  rw [ObjectOk] at hok
  cases hx : s.objects o with
  | none =>
    rw [hx] at hok
    exact hok
  | some x =>
    rw [hx] at hok
    exact ⟨Nat.lt_of_lt_of_le hok.1 hnext, hok.2⟩

theorem Same.relyAt {u : T} {o : ℕ} (h : Same g g' s s' o) : RelyAt u o g g' s s' := by
  refine ⟨by rw [h.owner], by rw [h.creator], fun _ => h.made,
    fun _ ho hh => ⟨by rw [h.owner, ho], by rw [h.handles, hh]⟩, by rw [h.freer], ?_⟩
  intro x _ hx
  exact ⟨x, by rw [h.objects, hx], id, rfl⟩

/-- A step that changes one object. -/
theorem stepOk_at (g' : Refs T) (o : ℕ) (hok : SharedOk g c.shared)
    (hsame : ∀ p, p ≠ o → Same g g' c.shared s' p) (hnext : c.shared.next ≤ s'.next)
    (hobject : ObjectOk g' s' o) (hlist : s'.threadlist = c.shared.threadlist)
    (hlisted : o ∈ c.shared.threadlist → ∃ u x, g'.owner o = some u ∧ s'.objects o = some x ∧
      x.threadId = some u ∧ x.h = true)
    (hlock : s'.lock = c.shared.lock) (halive : s'.alive = c.shared.alive)
    (hpending : s'.pending = c.shared.pending)
    (hrely : ∀ u, u ≠ t → RelyAt u o g g' c.shared s') (hat : AtPoint t g' s' l') :
    StepOk g c t s' l' := by
  refine ⟨g', ⟨fun p => ?_, ?_, ?_⟩, hat, fun u hu hatu => ?_⟩
  · by_cases hp : p = o
    · rw [hp]
      exact hobject
    · exact (hsame p hp).objectOk hnext (hok.object p)
  · rw [hlist]
    intro p hp
    by_cases hpo : p = o
    · rw [hpo] at hp ⊢
      exact hlisted hp
    · rw [(hsame p hpo).owner, (hsame p hpo).objects]
      exact hok.listed p hp
  · rw [hlist]
    exact hok.nodup
  · refine atPoint_stable ⟨fun p => ?_, fun p _ => by rw [hlist],
      fun h => ⟨by rw [hlock, h], hlist⟩, by rw [halive], by rw [hpending]⟩ hatu
    by_cases hp : p = o
    · rw [hp]
      exact hrely u hu
    · exact (hsame p hp).relyAt

theorem not_locked_by_other {lock : Option T} (h : lock = some t) :
    ∀ u, u ≠ t → lock ≠ some u := by
  intro u hu heq
  rw [h] at heq
  exact hu (Option.some.inj heq).symm

/-- The objects that a thread has for itself do not change where it has none. -/
theorem AtPoint.ready_update {o : ℕ} {v : Option (Thread T)} (hat : AtPoint t g s l)
    (howner : g.owner o ≠ some t) :
    ∀ p ∈ l.ready, ∃ x, Function.update s.objects o v p = some x ∧ x.h = true := by
  intro p hp
  have hne : p ≠ o := by
    rintro rfl
    exact howner ((hat.owns p).2 (Or.inl (Local.ready_owns hp)))
  rcases hat.ready p hp with ⟨x, hx, hh⟩
  exact ⟨x, (Function.update_of_ne hne _ _).trans hx, hh⟩

/-! ### `DdkThreadInit` and `DdkInsertThread` -/

/-- Who refers to an object that is not in the list does not matter for the list. -/
theorem listed_update {u : T} {v : Option T} {o p : ℕ} (h : o ∉ s.threadlist) :
    (p ∈ s.threadlist ∧ Function.update g.owner o v p = some u) ↔
      (p ∈ s.threadlist ∧ g.owner p = some u) := by
  by_cases hp : p = o
  · rw [hp]
    simp [h]
  · rw [Function.update_of_ne hp]

/-- A thread gets an object. -/
theorem stepOk_init {arg : Option ℕ} (hok : SharedOk g c.shared)
    (hat : AtPoint t g c.shared ⟨.init, none, arg⟩) :
    StepOk g c t
      { c.shared with
        objects := Function.update c.shared.objects c.shared.next (some ⟨1, true, none⟩)
        next := c.shared.next + 1 }
      ⟨.insert, some c.shared.next, arg⟩ := by
  have hfresh := hok.fresh
  rcases hok.absent hfresh with ⟨howner, hcreator, hmade, hfreer, hhandles⟩
  have harg : arg ≠ some c.shared.next := by
    rintro rfl
    have hown := (hat.owns c.shared.next).2 (Or.inl List.mem_cons_self)
    rw [howner] at hown
    cases hown
  refine stepOk_at { g with owner := Function.update g.owner c.shared.next (some t) }
    c.shared.next hok ?_ (Nat.le_succ _) ?_ rfl ?_ rfl rfl rfl ?_ ?_
  · exact fun p hp => ⟨Function.update_of_ne hp _ _, rfl, Function.update_of_ne hp _ _, rfl, rfl,
      rfl⟩
  · refine objectOk_some (Function.update_self ..) ⟨Nat.lt_succ_self _, ?_, ?_, ?_⟩
    · show 1 = c.shared.handles _ + (Function.update g.owner _ (some t) _).toList.length + g.made _
      rw [Function.update_self, hhandles, hmade]
      rfl
    · show 1 = 0 ↔ g.freer _ ≠ none
      simp [hfreer]
    · simp [hmade, hcreator]
  · exact fun h => absurd h (hok.not_listed howner)
  · intro u hu
    refine ⟨?_, Iff.rfl, fun _ => rfl, ?_, Iff.rfl, ?_⟩
    · show Function.update g.owner _ (some t) _ = some u ↔ _
      rw [Function.update_self, howner]
      simp [hu.symm]
    · intro h
      rw [hcreator] at h
      cases h
    · intro x hown
      rw [howner] at hown
      cases hown
  · refine AtPoint.of_plain rfl ⟨_, rfl, harg⟩ ?_ hat.creates hat.frees ?_ ?_
      (hat.alive (by simp)) ?_
    · intro o
      show Function.update g.owner _ (some t) o = some t ↔ o ∈ c.shared.next :: arg.toList ∨ _
      by_cases ho : o = c.shared.next
      · rw [ho, Function.update_self]
        simp
      · rw [Function.update_of_ne ho, hat.owns o, List.mem_cons]
        simp [ho, Local.owns]
    · intro o
      rw [listed_update (hok.not_listed howner)]
      exact hat.listed o
    · exact fun h => by cases h
    · intro o ho
      rw [List.mem_singleton.1 ho]
      exact ⟨_, Function.update_self .., rfl⟩

/-- A thread enters its identifier. -/
theorem stepOk_setId {o : ℕ} {x : Thread T} {arg : Option ℕ} (hok : SharedOk g c.shared)
    (hat : AtPoint t g c.shared ⟨.setId, some o, arg⟩) (hx : c.shared.objects o = some x) :
    StepOk g c t
      { c.shared with
        objects := Function.update c.shared.objects o (some { x with threadId := some t }) }
      ⟨.scan, some o, arg⟩ := by
  have hown : g.owner o = some t := (hat.owns o).2 (Or.inl List.mem_cons_self)
  have hready : x.h = true := by
    rcases hat.ready o List.mem_cons_self with ⟨x', hx', hh⟩
    rw [hx] at hx'
    cases hx'
    exact hh
  refine stepOk_at g o hok ?_ (Nat.le_refl _) ?_ rfl ?_ rfl rfl rfl ?_ ?_
  · exact fun p hp => ⟨Function.update_of_ne hp _ _, rfl, rfl, rfl, rfl, rfl⟩
  · have h := hok.allocated hx
    exact objectOk_some (x := { x with threadId := some t }) (Function.update_self ..) h
  · exact fun h => absurd ((hat.listed o).2 ⟨h, hown⟩) (by simp [Local.listed])
  · intro u hu
    refine ⟨Iff.rfl, Iff.rfl, fun _ => rfl, fun _ h h' => ⟨h, h'⟩, Iff.rfl, ?_⟩
    intro x' hown'
    rw [hown] at hown'
    exact absurd (Option.some.inj hown').symm hu
  · refine ⟨hat.shape, hat.owns, hat.creates, ?_, ?_, hat.frees, hat.listed, hat.locks, ?_, ?_, ?_,
      ?_, ?_⟩
    · exact fun o h => by cases h
    · exact fun o h => by cases h
    · exact fun h => by cases h
    · exact fun _ => hat.alive (by simp)
    · intro p hp
      rw [List.mem_singleton.1 hp]
      exact ⟨_, Function.update_self .., hready⟩
    · intro _ p hp
      cases hp
      exact ⟨_, Function.update_self .., rfl⟩
    · exact fun _ h => by cases h

/-- No object in the list has the identifier of a thread that is not in it. -/
theorem not_alreadyInList {o p : ℕ} {x : Thread T} {arg : Option ℕ} (hok : SharedOk g s)
    (hat : AtPoint t g s ⟨.scan, some o, arg⟩) (hp : p ∈ s.threadlist)
    (hx : s.objects p = some x) : x.threadId ≠ some t := by
  intro hid
  rcases hok.listed p hp with ⟨u, x', howner, hx', hid', -⟩
  rw [hx] at hx'
  cases hx'
  rw [hid] at hid'
  rw [← hid'] at howner
  have hlisted := (hat.listed p).2 ⟨hp, howner⟩
  cases hlisted

/-- A thread is put in the list. -/
theorem stepOk_push {o : ℕ} {arg : Option ℕ} (hok : SharedOk g c.shared)
    (hat : AtPoint t g c.shared ⟨.scan, some o, arg⟩) :
    StepOk g c t { c.shared with threadlist := o :: c.shared.threadlist }
      ⟨.inserted, some o, arg⟩ := by
  have hown : g.owner o = some t := (hat.owns o).2 (Or.inl List.mem_cons_self)
  have hnot : o ∉ c.shared.threadlist := by
    intro h
    have hlisted := (hat.listed o).2 ⟨h, hown⟩
    cases hlisted
  have hlock := hat.locks rfl
  refine ⟨g, ⟨hok.object, ?_, List.nodup_cons.2 ⟨hnot, hok.nodup⟩⟩, ?_, ?_⟩
  · intro p hp
    rcases List.mem_cons.1 hp with rfl | hp
    · rcases hat.ready p List.mem_cons_self with ⟨x, hx, hh⟩
      rcases hat.named rfl p rfl with ⟨x', hx', hid⟩
      rw [hx] at hx'
      cases hx'
      exact ⟨t, x, hown, hx, hid, hh⟩
    · exact hok.listed p hp
  · refine AtPoint.of_plain rfl hat.shape hat.owns hat.creates hat.frees ?_ hat.locks
      (hat.alive (by simp)) hat.ready
    intro p
    show some o = some p ↔ p ∈ o :: c.shared.threadlist ∧ g.owner p = some t
    rw [List.mem_cons]
    constructor
    · rintro ⟨⟩
      exact ⟨Or.inl rfl, hown⟩
    · rintro ⟨rfl | hp, howner⟩
      · rfl
      · have hlisted := (hat.listed p).2 ⟨hp, howner⟩
        cases hlisted
  · intro u hu hatu
    refine atPoint_stable (s := c.shared) ⟨fun p => relyAt_same rfl rfl, ?_, ?_, rfl, rfl⟩ hatu
    · intro p hp
      have hne : p ≠ o := by
        rintro rfl
        rw [hown] at hp
        exact hu (Option.some.inj hp).symm
      simp [hne]
    · exact fun h => absurd h (not_locked_by_other hlock u hu)

/-! ### `DdkThreadDeinit` -/

/-- A thread is taken out of the list. -/
theorem stepOk_unlink {o : ℕ} {arg : Option ℕ} (hok : SharedOk g c.shared)
    (hat : AtPoint t g c.shared ⟨.unlink, some o, arg⟩) :
    StepOk g c t { c.shared with threadlist := c.shared.threadlist.erase o }
      ⟨.dereference, some o, arg⟩ := by
  have hown : g.owner o = some t := (hat.owns o).2 (Or.inl List.mem_cons_self)
  have hlock := hat.locks rfl
  refine ⟨g, ⟨hok.object, fun p hp => hok.listed p (List.mem_of_mem_erase hp),
    hok.nodup.erase o⟩, ?_, ?_⟩
  · refine AtPoint.of_plain rfl hat.shape hat.owns hat.creates hat.frees ?_ hat.locks
      (hat.alive (by simp)) hat.ready
    intro p
    constructor
    · intro h
      cases h
    · rintro ⟨hp, howner⟩
      rcases hok.nodup.mem_erase_iff.1 hp with ⟨hne, hp⟩
      have hlisted := (hat.listed p).2 ⟨hp, howner⟩
      exact absurd (Option.some.inj hlisted).symm hne
  · intro u hu hatu
    refine atPoint_stable (s := c.shared) ⟨fun p => relyAt_same rfl rfl, ?_, ?_, rfl, rfl⟩ hatu
    · intro p hp
      have hne : p ≠ o := by
        rintro rfl
        rw [hown] at hp
        exact hu (Option.some.inj hp).symm
      exact List.mem_erase_of_ne hne
    · exact fun h => absurd h (not_locked_by_other hlock u hu)

/-- What a thread has for itself is not referred to in any other way by it. -/
theorem owns_removed {o : ℕ} {arg : Option ℕ} (hown : ∀ p, g.owner p = some t ↔
      p ∈ o :: arg.toList ∨ s.pending t = some p) (harg : arg ≠ some o)
    (hpending : s.pending t = none) (p : ℕ) :
    Function.update g.owner o none p = some t ↔ p ∈ arg.toList ∨ s.pending t = some p := by
  by_cases hp : p = o
  · rw [hp, Function.update_self, hpending]
    simp [harg]
  · rw [Function.update_of_ne hp, hown, List.mem_cons]
    simp [hp]

/-- A thread gives its object back, which is freed with the last reference. -/
theorem stepOk_dereference {o : ℕ} {x : Thread T} {arg : Option ℕ} (hok : SharedOk g c.shared)
    (hat : AtPoint t g c.shared ⟨.dereference, some o, arg⟩) (hx : c.shared.objects o = some x) :
    StepOk g c t
      { c.shared with
        objects := Function.update c.shared.objects o
          (some { x with refcount := x.refcount - 1 }) }
      ⟨if x.refcount = 1 then .freeing else .cleared, some o, arg⟩ := by
  have hown : g.owner o = some t := (hat.owns o).2 (Or.inl List.mem_cons_self)
  have hpending := (hat.alive (by simp)).2
  have harg : arg ≠ some o := by
    rcases hat.shape with ⟨o', ho', harg⟩
    cases ho'
    exact harg
  rcases hok.allocated hx with ⟨hlt, hcount, hfree, hmade⟩
  rw [hown] at hcount
  have hcount' : x.refcount = c.shared.handles o + 1 + g.made o := hcount
  have hfreer : g.freer o = none := by
    by_contra h
    have := hfree.2 h
    omega
  refine stepOk_at
    { g with
      owner := Function.update g.owner o none
      freer := Function.update g.freer o (if x.refcount = 1 then some t else none) }
    o hok ?_ (Nat.le_refl _) ?_ rfl ?_ rfl rfl rfl ?_ ?_
  · exact fun p hp => ⟨Function.update_of_ne hp _ _, rfl, Function.update_of_ne hp _ _, rfl, rfl,
      Function.update_of_ne hp _ _⟩
  · refine objectOk_some (Function.update_self ..) ⟨hlt, ?_, ?_, hmade⟩
    · show x.refcount - 1 = c.shared.handles o +
        (Function.update g.owner o none o).toList.length + g.made o
      rw [Function.update_self, hcount']
      simp
    · show x.refcount - 1 = 0 ↔ Function.update g.freer o _ o ≠ none
      rw [Function.update_self]
      split
      · rename_i h1
        simp [h1]
      · simp
        omega
  · exact fun h => absurd ((hat.listed o).2 ⟨h, hown⟩) (by simp [Local.listed])
  · intro u hu
    refine ⟨?_, Iff.rfl, fun _ => rfl, ?_, ?_, ?_⟩
    · show Function.update g.owner o none o = some u ↔ _
      rw [Function.update_self, hown]
      simp [hu.symm]
    · intro _ h
      rw [hown] at h
      cases h
    · show Function.update g.freer o _ o = some u ↔ _
      rw [Function.update_self, hfreer]
      split
      · simp [hu.symm]
      · rfl
    · intro x' hown'
      rw [hown] at hown'
      exact absurd (Option.some.inj hown').symm hu
  · have howns := owns_removed hat.owns harg hpending
    have hlisted : ∀ p, none = some p ↔ p ∈ c.shared.threadlist ∧
        Function.update g.owner o none p = some t := by
      intro p
      rw [listed_update]
      · exact hat.listed p
      · exact fun h => absurd ((hat.listed o).2 ⟨h, hown⟩) (by simp [Local.listed])
    have hready : ∀ p ∈ arg.toList, ∃ x', Function.update c.shared.objects o
        (some { x with refcount := x.refcount - 1 }) p = some x' ∧ x'.h = true := by
      intro p hp
      have hne : p ≠ o := by
        rintro rfl
        exact harg (Option.mem_toList.1 hp)
      rw [Function.update_of_ne hne]
      exact hat.ready p (List.mem_cons_of_mem _ hp)
    by_cases h1 : x.refcount = 1
    · simp only [if_pos h1]
      refine AtPoint.of_plain rfl ⟨o, rfl, harg⟩ howns hat.creates ?_ hlisted hat.locks
        (hat.alive (by simp)) hready
      exact fun p => role_set hat.frees
    · simp only [if_neg h1]
      refine AtPoint.of_plain rfl ⟨o, rfl, harg⟩ howns hat.creates ?_ hlisted hat.locks
        (hat.alive (by simp)) hready
      exact fun p => role_clear hat.frees fun _ h => by cases h

/-- What is known of an object without references. -/
theorem SharedOk.freed {o : ℕ} (hok : SharedOk g s) (h : g.freer o = some t) :
    g.owner o = none ∧ g.creator o = none ∧ g.made o = 0 ∧ s.handles o = 0 := by
  cases hx : s.objects o with
  | none =>
    rw [(hok.absent hx).2.2.2.1] at h
    cases h
  | some x =>
    rcases hok.allocated hx with ⟨-, hcount, hfree, hmade⟩
    have hzero : x.refcount = 0 := hfree.2 (by rw [h]; simp)
    have hmade0 : g.made o = 0 := by omega
    refine ⟨?_, hmade.1 hmade0, hmade0, by omega⟩
    cases howner : g.owner o with
    | none => rfl
    | some u =>
      rw [howner] at hcount
      simp at hcount
      omega

/-- The object is freed. -/
theorem stepOk_free {o : ℕ} {l : Local} (hok : SharedOk g c.shared)
    (hat : AtPoint t g c.shared l) (hfrees : l.frees = some o) (hgone : l.pc ≠ .gone)
    (hplain : l'.plain = true) (hshape : l'.Shape) (howns : l'.owns = l.owns)
    (hcreates : l'.creates = l.creates) (hfrees' : l'.frees = none)
    (hlisted : l'.listed = l.listed) (hlocks : l'.locks = l.locks) (hready : l'.ready = l.ready) :
    StepOk g c t { c.shared with objects := Function.update c.shared.objects o none } l' := by
  have hfreer : g.freer o = some t := (hat.frees o).2 hfrees
  rcases hok.freed hfreer with ⟨howner, hcreator, hmade, hhandles⟩
  refine stepOk_at { g with freer := Function.update g.freer o none } o hok ?_ (Nat.le_refl _) ?_
    rfl ?_ rfl rfl rfl ?_ ?_
  · exact fun p hp => ⟨Function.update_of_ne hp _ _, rfl, rfl, rfl, rfl,
      Function.update_of_ne hp _ _⟩
  · exact objectOk_none (Function.update_self ..)
      ⟨howner, hcreator, hmade, Function.update_self .., hhandles⟩
  · exact fun h => absurd h (hok.not_listed howner)
  · intro u hu
    refine ⟨Iff.rfl, Iff.rfl, fun _ => rfl, fun _ h h' => ⟨h, h'⟩, ?_, ?_⟩
    · show Function.update g.freer o none o = some u ↔ _
      rw [Function.update_self, hfreer]
      simp [hu.symm]
    · intro x' hown'
      rw [howner] at hown'
      cases hown'
  · refine AtPoint.of_plain hplain hshape ?_ ?_ ?_ ?_ ?_ (hat.alive hgone) ?_
    · rw [howns]
      exact hat.owns
    · rw [hcreates]
      exact hat.creates
    · intro p
      show Function.update g.freer o none p = some t ↔ l'.frees = some p
      rw [hfrees']
      refine role_clear hat.frees fun q hq => ?_
      rw [hfrees] at hq
      exact (Option.some.inj hq).symm
    · rw [hlisted]
      exact hat.listed
    · rw [hlocks]
      exact hat.locks
    · rw [hready]
      exact hat.ready_update (by simp [howner])

/-! ### `PsCreateSystemThread` -/

/-- A thread has a new object for another one. -/
theorem stepOk_create {current : Option ℕ} (hok : SharedOk g c.shared)
    (hat : AtPoint t g c.shared ⟨.running, current, none⟩) :
    StepOk g c t
      { c.shared with
        objects := Function.update c.shared.objects c.shared.next (some ⟨1, false, none⟩)
        next := c.shared.next + 1 }
      ⟨.reference c.shared.next, current, none⟩ := by
  have hfresh := hok.fresh
  rcases hok.absent hfresh with ⟨howner, hcreator, hmade, hfreer, hhandles⟩
  refine stepOk_at
    { g with
      creator := Function.update g.creator c.shared.next (some t)
      made := Function.update g.made c.shared.next 1 }
    c.shared.next hok ?_ (Nat.le_succ _) ?_ rfl ?_ rfl rfl rfl ?_ ?_
  · exact fun p hp => ⟨Function.update_of_ne hp _ _, rfl, rfl, Function.update_of_ne hp _ _,
      Function.update_of_ne hp _ _, rfl⟩
  · refine objectOk_some (Function.update_self ..) ⟨Nat.lt_succ_self _, ?_, ?_, ?_⟩
    · show 1 = c.shared.handles _ + (g.owner _).toList.length + Function.update g.made _ 1 _
      rw [Function.update_self, hhandles, howner]
      rfl
    · show 1 = 0 ↔ g.freer _ ≠ none
      simp [hfreer]
    · show Function.update g.made _ 1 _ = 0 ↔ Function.update g.creator _ (some t) _ = none
      rw [Function.update_self, Function.update_self]
      simp
  · exact fun h => absurd h (hok.not_listed howner)
  · intro u hu
    refine ⟨Iff.rfl, ?_, ?_, fun _ h h' => ⟨h, h'⟩, Iff.rfl, ?_⟩
    · show Function.update g.creator _ (some t) _ = some u ↔ _
      rw [Function.update_self, hcreator]
      simp [hu.symm]
    · intro h
      rw [hcreator] at h
      cases h
    · intro x hown
      rw [howner] at hown
      cases hown
  · refine ⟨hat.shape, hat.owns, ?_, ?_, ?_, hat.frees, hat.listed, ?_, ?_, ?_, ?_, ?_, ?_⟩
    · exact fun p => role_set hat.creates
    · intro p hp
      cases hp
      exact Function.update_self ..
    · intro p hp
      cases hp
      exact ⟨howner, hhandles⟩
    · exact fun h => by cases h
    · exact fun h => by cases h
    · exact fun _ => hat.alive (by simp)
    · exact hat.ready_update (by simp [howner])
    · exact fun h => by cases h
    · exact fun _ h => by cases h

/-- The reference of the new thread. -/
theorem stepOk_reference {p : ℕ} {x : Thread T} {current : Option ℕ} (hok : SharedOk g c.shared)
    (hat : AtPoint t g c.shared ⟨.reference p, current, none⟩)
    (hx : c.shared.objects p = some x) :
    StepOk g c t
      { c.shared with
        objects := Function.update c.shared.objects p
          (some { x with refcount := x.refcount + 1 }) }
      ⟨.createThread p, current, none⟩ := by
  have hcreator : g.creator p = some t := (hat.creates p).2 rfl
  have hmade : g.made p = 1 := hat.made p rfl
  rcases hat.hidden p rfl with ⟨howner, hhandles⟩
  rcases hok.allocated hx with ⟨hlt, hcount, hfree, -⟩
  have hfreer : g.freer p = none := by
    by_contra h
    have := hfree.2 h
    omega
  refine stepOk_at { g with made := Function.update g.made p 2 } p hok ?_ (Nat.le_refl _) ?_ rfl ?_
    rfl rfl rfl ?_ ?_
  · exact fun q hq => ⟨Function.update_of_ne hq _ _, rfl, rfl, rfl, Function.update_of_ne hq _ _,
      rfl⟩
  · refine objectOk_some (Function.update_self ..) ⟨hlt, ?_, ?_, ?_⟩
    · show x.refcount + 1 = c.shared.handles p + (g.owner p).toList.length +
        Function.update g.made p 2 p
      rw [Function.update_self, hcount, hmade]
    · show x.refcount + 1 = 0 ↔ g.freer p ≠ none
      simp [hfreer]
    · show Function.update g.made p 2 p = 0 ↔ g.creator p = none
      rw [Function.update_self, hcreator]
      simp
  · exact fun h => absurd h (hok.not_listed howner)
  · intro u hu
    refine ⟨Iff.rfl, Iff.rfl, ?_, fun _ h h' => ⟨h, h'⟩, Iff.rfl, ?_⟩
    · intro h
      rw [hcreator] at h
      exact absurd (Option.some.inj h).symm hu
    · intro x' hown
      rw [howner] at hown
      cases hown
  · refine ⟨hat.shape, hat.owns, hat.creates, ?_, ?_, hat.frees, hat.listed, ?_, ?_, ?_, ?_, ?_, ?_⟩
    · intro q hq
      cases hq
      exact Function.update_self ..
    · intro q hq
      cases hq
      exact ⟨howner, hhandles⟩
    · exact fun h => by cases h
    · exact fun h => by cases h
    · exact fun _ => hat.alive (by simp)
    · exact hat.ready_update (by simp [howner])
    · exact fun h => by cases h
    · exact fun _ h => by cases h

/-- The object of a thread that could not be created. -/
theorem stepOk_createFails {p : ℕ} {x : Thread T} {current : Option ℕ} (hok : SharedOk g c.shared)
    (hat : AtPoint t g c.shared ⟨.createThread p, current, none⟩)
    (hx : c.shared.objects p = some x) :
    StepOk g c t { c.shared with objects := Function.update c.shared.objects p none }
      ⟨.running, current, none⟩ := by
  have hcreator : g.creator p = some t := (hat.creates p).2 rfl
  have hmade : g.made p = 2 := hat.made p rfl
  rcases hat.hidden p rfl with ⟨howner, hhandles⟩
  rcases hok.allocated hx with ⟨hlt, hcount, hfree, -⟩
  have hfreer : g.freer p = none := by
    by_contra h
    have := hfree.2 h
    omega
  refine stepOk_at
    { g with
      creator := Function.update g.creator p none
      made := Function.update g.made p 0 }
    p hok ?_ (Nat.le_refl _) ?_ rfl ?_ rfl rfl rfl ?_ ?_
  · exact fun q hq => ⟨Function.update_of_ne hq _ _, rfl, rfl, Function.update_of_ne hq _ _,
      Function.update_of_ne hq _ _, rfl⟩
  · exact objectOk_none (Function.update_self ..)
      ⟨howner, Function.update_self .., Function.update_self .., hfreer, hhandles⟩
  · exact fun h => absurd h (hok.not_listed howner)
  · intro u hu
    refine ⟨Iff.rfl, ?_, ?_, fun _ h h' => ⟨h, h'⟩, Iff.rfl, ?_⟩
    · show Function.update g.creator p none p = some u ↔ _
      rw [Function.update_self, hcreator]
      simp [hu.symm]
    · intro h
      rw [hcreator] at h
      exact absurd (Option.some.inj h).symm hu
    · intro x' hown
      rw [howner] at hown
      cases hown
  · refine AtPoint.of_plain rfl hat.shape hat.owns ?_ hat.frees hat.listed hat.locks
      (hat.alive (by simp)) (hat.ready_update (by simp [howner]))
    exact fun q => role_clear hat.creates fun _ h => (Option.some.inj h).symm

/-- An object in the list stays in order when only its references change. -/
theorem listed_kept (g : Refs T) {o : ℕ} {x : Thread T} (x' : Thread T) (hok : SharedOk g s)
    (hx : s.objects o = some x) (hh : x.h = true → x'.h = true) (hid : x'.threadId = x.threadId)
    (h : o ∈ s.threadlist) :
    ∃ u y, g.owner o = some u ∧ Function.update s.objects o (some x') o = some y ∧
      y.threadId = some u ∧ y.h = true := by
  rcases hok.listed o h with ⟨u, y, howner, hy, hyid, hyh⟩
  rw [hx] at hy
  cases hy
  exact ⟨u, x', howner, Function.update_self .., by rw [hid, hyid], hh hyh⟩

theorem ready_kept {o : ℕ} {x : Thread T} (x' : Thread T) {ps : List ℕ}
    (hx : s.objects o = some x) (hh : x.h = true → x'.h = true)
    (h : ∀ p ∈ ps, ∃ y, s.objects p = some y ∧ y.h = true) :
    ∀ p ∈ ps, ∃ y, Function.update s.objects o (some x') p = some y ∧ y.h = true := by
  intro p hp
  rcases h p hp with ⟨y, hy, hyh⟩
  by_cases hpo : p = o
  · rw [hpo] at hy ⊢
    rw [hx] at hy
    cases hy
    exact ⟨x', Function.update_self .., hh hyh⟩
  · exact ⟨y, (Function.update_of_ne hpo _ _).trans hy, hyh⟩

/-- The caller gets the handle. -/
theorem stepOk_setHandle {p : ℕ} {x : Thread T} {current : Option ℕ} (hok : SharedOk g c.shared)
    (hat : AtPoint t g c.shared ⟨.setHandle p, current, none⟩)
    (hx : c.shared.objects p = some x) :
    StepOk g c t
      { c.shared with
        objects := Function.update c.shared.objects p (some { x with h := true })
        handles := Function.update c.shared.handles p (c.shared.handles p + 1) }
      ⟨.running, current, none⟩ := by
  have hcreator : g.creator p = some t := (hat.creates p).2 rfl
  have hmade : g.made p = 1 := hat.made p rfl
  rcases hok.allocated hx with ⟨hlt, hcount, hfree, -⟩
  have hfreer : g.freer p = none := by
    by_contra h
    have := hfree.2 h
    omega
  refine stepOk_at
    { g with
      creator := Function.update g.creator p none
      made := Function.update g.made p 0 }
    p hok ?_ (Nat.le_refl _) ?_ rfl ?_ rfl rfl rfl ?_ ?_
  · exact fun q hq => ⟨Function.update_of_ne hq _ _, Function.update_of_ne hq _ _, rfl,
      Function.update_of_ne hq _ _, Function.update_of_ne hq _ _, rfl⟩
  · refine objectOk_some (Function.update_self ..) ⟨hlt, ?_, ?_, ?_⟩
    · show x.refcount = Function.update c.shared.handles p _ p + (g.owner p).toList.length +
        Function.update g.made p 0 p
      rw [Function.update_self, Function.update_self]
      omega
    · show x.refcount = 0 ↔ g.freer p ≠ none
      exact hfree
    · show Function.update g.made p 0 p = 0 ↔ Function.update g.creator p none p = none
      rw [Function.update_self, Function.update_self]
      simp
  · exact listed_kept g { x with h := true } hok hx (fun _ => rfl) rfl
  · intro u hu
    refine ⟨Iff.rfl, ?_, ?_, ?_, Iff.rfl, ?_⟩
    · show Function.update g.creator p none p = some u ↔ _
      rw [Function.update_self, hcreator]
      simp [hu.symm]
    · intro h
      rw [hcreator] at h
      exact absurd (Option.some.inj h).symm hu
    · intro h
      rw [hcreator] at h
      exact absurd (Option.some.inj h).symm hu
    · intro y _ hy
      rw [hx] at hy
      cases hy
      exact ⟨_, Function.update_self .., fun _ => rfl, rfl⟩
  · refine AtPoint.of_plain rfl hat.shape hat.owns ?_ hat.frees hat.listed hat.locks
      (hat.alive (by simp)) (ready_kept { x with h := true } hx (fun _ => rfl) hat.ready)
    exact fun q => role_clear hat.creates fun _ h => (Option.some.inj h).symm

/-- A thread that has been created and does not run yet. -/
theorem atPoint_created [DecidableEq T] {p : ℕ} (hlisted : p ∉ s.threadlist)
    (hdead : s.alive t = false) (hat : AtPoint t g s l) :
    AtPoint t
      { g with
        owner := Function.update g.owner p (some t)
        made := Function.update g.made p 1 }
      { s with
        alive := Function.update s.alive t true
        pending := Function.update s.pending t (some p) } l := by
  rcases l with ⟨pc, current, arg⟩
  have hgone : pc = .gone := by
    by_contra h
    have halive := (hat.alive h).1
    rw [hdead] at halive
    cases halive
  subst hgone
  have hpending : s.pending t = none := by
    by_contra h
    have halive := (hat.gone rfl).2 h
    rw [hdead] at halive
    cases halive
  have howns : ∀ o, o ∉ (⟨.gone, current, arg⟩ : Local).owns := by
    rcases hat.shape with ⟨rfl, rfl⟩
    exact fun o h => List.not_mem_nil h
  refine ⟨hat.shape, ?_, hat.creates, ?_, ?_, hat.frees, ?_, ?_, ?_, ?_, ?_, ?_, ?_⟩
  · intro o
    show Function.update g.owner p (some t) o = some t ↔
      o ∈ _ ∨ Function.update s.pending t (some p) t = some o
    rw [Function.update_self]
    by_cases ho : o = p
    · rw [ho, Function.update_self]
      simp
    · rw [Function.update_of_ne ho, hat.owns o, hpending]
      simp [howns o, Ne.symm ho]
  · exact fun o h => by cases h
  · exact fun o h => by cases h
  · intro o
    rw [listed_update hlisted]
    exact hat.listed o
  · exact fun h => by cases h
  · intro _
    show Function.update s.alive t true t = true ↔ Function.update s.pending t (some p) t ≠ none
    rw [Function.update_self, Function.update_self]
    simp
  · exact fun h => absurd rfl h
  · exact fun o h => absurd h List.not_mem_nil
  · exact fun h => by cases h
  · exact fun _ h => by cases h

/-- The new thread has the object for itself. -/
theorem stepOk_createThread [DecidableEq T] {p : ℕ} {current : Option ℕ} {u : T}
    (hok : SharedOk g c.shared) (hat : AtPoint t g c.shared ⟨.createThread p, current, none⟩)
    (hdead : c.shared.alive u = false) :
    StepOk g c t
      { c.shared with
        alive := Function.update c.shared.alive u true
        pending := Function.update c.shared.pending u (some p) }
      ⟨.setHandle p, current, none⟩ := by
  have hcreator : g.creator p = some t := (hat.creates p).2 rfl
  have hmade : g.made p = 2 := hat.made p rfl
  rcases hat.hidden p rfl with ⟨howner, hhandles⟩
  have htu : t ≠ u := by
    rintro rfl
    have halive := (hat.alive (by simp)).1
    rw [hdead] at halive
    cases halive
  have hsame : ∀ q, q ≠ p → Same g
      { g with owner := Function.update g.owner p (some u), made := Function.update g.made p 1 }
      c.shared
      { c.shared with
        alive := Function.update c.shared.alive u true
        pending := Function.update c.shared.pending u (some p) } q :=
    fun q hq => ⟨rfl, rfl, Function.update_of_ne hq _ _, rfl, Function.update_of_ne hq _ _, rfl⟩
  refine ⟨{ g with
    owner := Function.update g.owner p (some u)
    made := Function.update g.made p 1 }, ⟨?_, ?_, hok.nodup⟩, ?_, ?_⟩
  · intro q
    by_cases hq : q = p
    · subst hq
      cases hx : c.shared.objects q with
      | none =>
        have habsent := (hok.absent hx).2.1
        rw [hcreator] at habsent
        cases habsent
      | some x =>
        rcases hok.allocated hx with ⟨hlt, hcount, hfree, -⟩
        refine objectOk_some hx ⟨hlt, ?_, hfree, ?_⟩
        · show x.refcount = c.shared.handles q +
            (Function.update g.owner q (some u) q).toList.length + Function.update g.made q 1 q
          rw [Function.update_self, Function.update_self, hcount, howner, hmade]
          rfl
        · show Function.update g.made q 1 q = 0 ↔ g.creator q = none
          rw [Function.update_self, hcreator]
          simp
    · exact (hsame q hq).objectOk (Nat.le_refl _) (hok.object q)
  · intro q hq
    have hqp : q ≠ p := by
      rintro rfl
      exact hok.not_listed howner hq
    rw [(hsame q hqp).owner]
    exact hok.listed q hq
  · refine ⟨hat.shape, ?_, hat.creates, ?_, ?_, hat.frees, ?_, ?_, ?_, ?_, hat.ready, ?_, ?_⟩
    · intro q
      show Function.update g.owner p (some u) q = some t ↔
        q ∈ _ ∨ Function.update c.shared.pending u (some p) t = some q
      rw [Function.update_of_ne htu]
      by_cases hq : q = p
      · have hnot := hat.owns p
        rw [howner] at hnot
        rw [hq, Function.update_self]
        constructor
        · intro h
          exact absurd (Option.some.inj h).symm htu
        · intro h
          exact absurd (hnot.2 h) (by simp)
      · rw [Function.update_of_ne hq]
        exact hat.owns q
    · intro q hq
      cases hq
      exact Function.update_self ..
    · exact fun o h => by cases h
    · intro q
      rw [listed_update (hok.not_listed howner)]
      exact hat.listed q
    · exact fun h => by cases h
    · exact fun h => by cases h
    · intro _
      rcases hat.alive (by simp) with ⟨halive, hpending⟩
      exact ⟨(Function.update_of_ne htu _ _).trans halive,
        (Function.update_of_ne htu _ _).trans hpending⟩
    · exact fun h => by cases h
    · exact fun _ h => by cases h
  · intro w hw hatw
    have hrely : ∀ q, w ≠ u → RelyAt w q g
        { g with owner := Function.update g.owner p (some u), made := Function.update g.made p 1 }
        c.shared
        { c.shared with
          alive := Function.update c.shared.alive u true
          pending := Function.update c.shared.pending u (some p) } := by
      intro q hwu
      by_cases hq : q = p
      · subst hq
        refine ⟨?_, Iff.rfl, ?_, ?_, Iff.rfl, fun x _ hx => ⟨x, hx, id, rfl⟩⟩
        · show Function.update g.owner q (some u) q = some w ↔ _
          rw [Function.update_self, howner]
          simp [hwu.symm]
        · intro h
          rw [hcreator] at h
          exact absurd (Option.some.inj h).symm hw
        · intro h
          rw [hcreator] at h
          exact absurd (Option.some.inj h).symm hw
      · exact (hsame q hq).relyAt
    by_cases hwu : w = u
    · subst hwu
      exact atPoint_created (hok.not_listed howner) hdead hatw
    · exact atPoint_stable ⟨fun q => hrely q hwu, fun _ _ => Iff.rfl, fun h => ⟨h, rfl⟩,
        Function.update_of_ne hwu _ _, Function.update_of_ne hwu _ _⟩ hatw

/-! ### References of clients -/

/-- A client takes another reference, or one of the current thread. -/
theorem stepOk_refer {o : ℕ} {x : Thread T} {current : Option ℕ} (hok : SharedOk g c.shared)
    (hat : AtPoint t g c.shared ⟨.running, current, none⟩)
    (hmay : 0 < c.shared.handles o ∨ current = some o) (hx : c.shared.objects o = some x) :
    StepOk g c t
      { c.shared with
        objects := Function.update c.shared.objects o
          (some { x with refcount := x.refcount + 1 })
        handles := Function.update c.shared.handles o (c.shared.handles o + 1) }
      ⟨.running, current, none⟩ := by
  have hown : current = some o → g.owner o = some t := by
    rintro rfl
    exact (hat.owns o).2 (Or.inl List.mem_cons_self)
  rcases hok.allocated hx with ⟨hlt, hcount, hfree, hmade⟩
  have hfreer : g.freer o = none := by
    by_contra h
    have hzero := hfree.2 h
    rcases hmay with hpos | hcurrent
    · omega
    · rw [hown hcurrent] at hcount
      simp at hcount
      omega
  refine stepOk_at g o hok ?_ (Nat.le_refl _) ?_ rfl ?_ rfl rfl rfl ?_ ?_
  · exact fun q hq => ⟨Function.update_of_ne hq _ _, Function.update_of_ne hq _ _, rfl, rfl, rfl,
      rfl⟩
  · refine objectOk_some (Function.update_self ..) ⟨hlt, ?_, ?_, hmade⟩
    · show x.refcount + 1 = Function.update c.shared.handles o _ o + (g.owner o).toList.length +
        g.made o
      rw [Function.update_self]
      omega
    · show x.refcount + 1 = 0 ↔ g.freer o ≠ none
      simp [hfreer]
  · exact listed_kept g { x with refcount := x.refcount + 1 } hok hx id rfl
  · intro u _
    refine ⟨Iff.rfl, Iff.rfl, fun _ => rfl, ?_, Iff.rfl, ?_⟩
    · intro _ howner hhandles
      rcases hmay with hpos | hcurrent
      · omega
      · rw [hown hcurrent] at howner
        cases howner
    · intro y _ hy
      rw [hx] at hy
      cases hy
      exact ⟨_, Function.update_self .., id, rfl⟩
  · exact AtPoint.of_plain rfl hat.shape hat.owns hat.creates hat.frees hat.listed hat.locks
      (hat.alive (by simp))
      (ready_kept { x with refcount := x.refcount + 1 } hx id hat.ready)

/-- A client gives a reference back. -/
theorem stepOk_close {o : ℕ} {x : Thread T} {current : Option ℕ} (hok : SharedOk g c.shared)
    (hat : AtPoint t g c.shared ⟨.running, current, none⟩) (hpos : 0 < c.shared.handles o)
    (hx : c.shared.objects o = some x) :
    StepOk g c t
      { c.shared with
        objects := Function.update c.shared.objects o
          (some { x with refcount := x.refcount - 1 })
        handles := Function.update c.shared.handles o (c.shared.handles o - 1) }
      ⟨if x.refcount = 1 then .free o else .running, current, none⟩ := by
  rcases hok.allocated hx with ⟨hlt, hcount, hfree, hmade⟩
  have hfreer : g.freer o = none := by
    by_contra h
    have hzero := hfree.2 h
    omega
  refine stepOk_at
    { g with freer := Function.update g.freer o (if x.refcount = 1 then some t else none) }
    o hok ?_ (Nat.le_refl _) ?_ rfl ?_ rfl rfl rfl ?_ ?_
  · exact fun q hq => ⟨Function.update_of_ne hq _ _, Function.update_of_ne hq _ _, rfl, rfl, rfl,
      Function.update_of_ne hq _ _⟩
  · refine objectOk_some (Function.update_self ..) ⟨hlt, ?_, ?_, hmade⟩
    · show x.refcount - 1 = Function.update c.shared.handles o _ o + (g.owner o).toList.length +
        g.made o
      rw [Function.update_self]
      omega
    · show x.refcount - 1 = 0 ↔ Function.update g.freer o _ o ≠ none
      rw [Function.update_self]
      split
      · rename_i h1
        simp [h1]
      · simp
        omega
  · exact listed_kept g { x with refcount := x.refcount - 1 } hok hx id rfl
  · intro u hu
    refine ⟨Iff.rfl, Iff.rfl, fun _ => rfl, ?_, ?_, ?_⟩
    · intro _ _ hhandles
      omega
    · show Function.update g.freer o _ o = some u ↔ _
      rw [Function.update_self, hfreer]
      split
      · simp [hu.symm]
      · rfl
    · intro y _ hy
      rw [hx] at hy
      cases hy
      exact ⟨_, Function.update_self .., id, rfl⟩
  · have hready := ready_kept { x with refcount := x.refcount - 1 } hx id hat.ready
    by_cases h1 : x.refcount = 1
    · simp only [if_pos h1]
      refine AtPoint.of_plain rfl hat.shape hat.owns hat.creates ?_ hat.listed hat.locks
        (hat.alive (by simp)) hready
      exact fun p => role_set hat.frees
    · simp only [if_neg h1]
      refine AtPoint.of_plain rfl hat.shape hat.owns hat.creates ?_ hat.listed hat.locks
        (hat.alive (by simp)) hready
      exact fun p => role_clear hat.frees fun _ h => by cases h

/-! ### All steps -/

/-- What a thread reads is there. -/
theorem accesses_allocated {o : ℕ} (hok : SharedOk g s) (hat : AtPoint t g s l)
    (h : Accesses s l o) : s.objects o ≠ none := by
  intro hnone
  rcases hok.absent hnone with ⟨howner, hcreator, -, hfreer, hhandles⟩
  have howns : o ∉ l.owns := by
    intro ho
    have hown := (hat.owns o).2 (Or.inl ho)
    rw [howner] at hown
    cases hown
  have hcreates : l.creates ≠ some o := by
    intro ho
    have hcreate := (hat.creates o).2 ho
    rw [hcreator] at hcreate
    cases hcreate
  have hfrees : l.frees ≠ some o := by
    intro ho
    have hfree := (hat.frees o).2 ho
    rw [hfreer] at hfree
    cases hfree
  have hlist := hok.not_listed howner
  rcases l with ⟨pc, current, arg⟩
  cases pc with
  | setId | dereference => exact howns (List.mem_append_left _ (Option.mem_toList.2 h))
  | freeing => exact hfrees h
  | scan | unlink =>
    rcases h with h | h
    · exact howns (List.mem_append_left _ (Option.mem_toList.2 h))
    · exact hlist h
  | waitHandle => exact howns (List.mem_append_right _ (Option.mem_toList.2 h))
  | reference p | createThread p | setHandle p =>
    rw [show o = p from h] at hcreates
    exact hcreates rfl
  | free p =>
    rw [show o = p from h] at hfrees
    exact hfrees rfl
  | running =>
    rcases h with h | h
    · rw [hhandles] at h
      exact Nat.lt_irrefl 0 h
    · exact howns (List.mem_append_left _ (Option.mem_toList.2 h))
  | invoke rest =>
    exact hlist ((hat.invokes rest rfl).subset (List.mem_of_mem_head? h))
  | _ => exact h

/-- Every step keeps the invariant. -/
theorem act_stepOk [DecidableEq T] (hok : SharedOk g c.shared)
    (hat : AtPoint t g c.shared l) (hact : Act t c.shared l s' l') : StepOk g c t s' l' := by
  generalize hs : c.shared = s at hact
  cases hact with
  | attach hdead =>
    subst hs
    have hpending : c.shared.pending t = none := by
      by_contra h
      have halive := (hat.gone rfl).2 h
      rw [hdead] at halive
      cases halive
    exact stepOk_thread hok rfl rfl rfl rfl (fun _ _ h => h)
      (fun u hu => Function.update_of_ne hu _ _) (fun _ _ => rfl)
      (AtPoint.of_plain rfl rfl hat.owns hat.creates hat.frees hat.listed (fun h => by cases h)
        ⟨Function.update_self .., hpending⟩ (fun o h => absurd h List.not_mem_nil))
  | @start p hpending =>
    subst hs
    have halive : c.shared.alive t = true := (hat.gone rfl).2 (by rw [hpending]; simp)
    refine stepOk_thread hok rfl rfl rfl rfl (fun _ _ h => h) (fun _ _ => rfl)
      (fun u hu => Function.update_of_ne hu _ _)
      (AtPoint.of_plain rfl rfl ?_ hat.creates hat.frees hat.listed (fun h => by cases h)
        ⟨halive, Function.update_self ..⟩ (fun o h => absurd h List.not_mem_nil))
    intro o
    show _ ↔ o ∈ [p] ∨ Function.update c.shared.pending t none t = some o
    rw [hat.owns o, hpending, Function.update_self]
    simp [Local.owns, eq_comm]
  | init =>
    subst hs
    exact stepOk_init hok hat
  | lockInsert hfree =>
    subst hs
    exact stepOk_thread hok rfl rfl rfl rfl (by rw [hfree]; exact fun _ _ h => by cases h)
      (fun _ _ => rfl) (fun _ _ => rfl)
      (AtPoint.of_plain rfl hat.shape hat.owns hat.creates hat.frees hat.listed (fun _ => rfl)
        (hat.alive (by simp)) hat.ready)
  | setId hx =>
    subst hs
    exact stepOk_setId hok hat hx
  | alreadyInList hp hx hid =>
    subst hs
    exact absurd hid (not_alreadyInList hok hat hp hx)
  | push =>
    subst hs
    exact stepOk_push hok hat
  | @unlockInsert current arg =>
    subst hs
    have hother := not_locked_by_other (hat.locks rfl)
    rcases hat.shape with ⟨o, rfl, harg⟩
    refine stepOk_thread hok rfl rfl rfl rfl (fun u hu h => absurd h (hother u hu))
      (fun _ _ => rfl) (fun _ _ => rfl) ?_
    cases arg with
    | none =>
      exact AtPoint.of_plain rfl ⟨o, rfl, rfl⟩ hat.owns hat.creates hat.frees hat.listed
        (fun h => by cases h) (hat.alive (by simp)) hat.ready
    | some p =>
      exact AtPoint.of_plain rfl ⟨o, p, rfl, rfl, fun h => harg (by rw [h])⟩ hat.owns hat.creates
        hat.frees hat.listed (fun h => by cases h) (hat.alive (by simp)) hat.ready
  | @hasHandle p x current hx hh =>
    subst hs
    rcases hat.shape with ⟨o, q, rfl, hq, hne⟩
    refine stepOk_thread hok rfl rfl rfl rfl (fun _ _ h => h) (fun _ _ => rfl) (fun _ _ => rfl)
      (AtPoint.of_plain rfl ⟨o, rfl, ?_⟩ hat.owns hat.creates hat.frees hat.listed
        (fun h => by cases h) (hat.alive (by simp)) ?_)
    · exact fun h => hne (by rw [← Option.some.inj (hq.symm.trans h)])
    · intro o' ho'
      rcases List.mem_append.1 ho' with ho' | ho'
      · exact hat.ready o' ho'
      · rw [List.mem_singleton.1 ho']
        exact ⟨x, hx, hh⟩
  | terminate =>
    subst hs
    rcases hat.shape with ⟨o, rfl, -⟩
    exact stepOk_thread hok rfl rfl rfl rfl (fun _ _ h => h) (fun _ _ => rfl) (fun _ _ => rfl)
      (AtPoint.of_plain rfl ⟨o, rfl, by simp⟩ hat.owns hat.creates hat.frees hat.listed
        (fun h => by cases h) (hat.alive (by simp)) hat.ready)
  | lockDeinit hfree =>
    subst hs
    exact stepOk_thread hok rfl rfl rfl rfl (by rw [hfree]; exact fun _ _ h => by cases h)
      (fun _ _ => rfl) (fun _ _ => rfl)
      (AtPoint.of_plain rfl hat.shape hat.owns hat.creates hat.frees hat.listed (fun _ => rfl)
        (hat.alive (by simp)) hat.ready)
  | unlink =>
    subst hs
    exact stepOk_unlink hok hat
  | dereference hx =>
    subst hs
    exact stepOk_dereference hok hat hx
  | freeing =>
    subst hs
    exact stepOk_free hok hat rfl (by simp) rfl hat.shape rfl rfl rfl rfl rfl rfl
  | @startThread p current =>
    subst hs
    have hother := not_locked_by_other (hat.locks rfl)
    exact stepOk_thread hok rfl rfl rfl rfl (fun u hu h => absurd h (hother u hu))
      (fun _ _ => rfl) (fun _ _ => rfl)
      (AtPoint.of_plain rfl ⟨p, rfl, by simp⟩ hat.owns hat.creates hat.frees hat.listed
        (fun h => by cases h) (hat.alive (by simp)) hat.ready)
  | endThread =>
    subst hs
    have hother := not_locked_by_other (hat.locks rfl)
    exact stepOk_thread hok rfl rfl rfl rfl (fun u hu h => absurd h (hother u hu))
      (fun _ _ => rfl) (fun _ _ => rfl)
      (AtPoint.of_plain rfl ⟨rfl, rfl⟩ hat.owns hat.creates hat.frees hat.listed
        (fun h => by cases h) (hat.alive (by simp)) hat.ready)
  | exit =>
    subst hs
    have hpending := (hat.alive (by simp)).2
    refine stepOk_thread hok rfl rfl rfl rfl (fun _ _ h => h)
      (fun u hu => Function.update_of_ne hu _ _) (fun _ _ => rfl) ⟨⟨rfl, rfl⟩, hat.owns,
      hat.creates, ?_, ?_, hat.frees, hat.listed, ?_, ?_, ?_, ?_, ?_, ?_⟩
    · exact fun o h => by cases h
    · exact fun o h => by cases h
    · exact fun h => by cases h
    · intro _
      show Function.update c.shared.alive t false t = true ↔ c.shared.pending t ≠ none
      rw [Function.update_self, hpending]
      simp
    · exact fun h => absurd rfl h
    · exact fun o h => absurd h List.not_mem_nil
    · exact fun h => by cases h
    · exact fun _ h => by cases h
  | create =>
    subst hs
    exact stepOk_create hok hat
  | reference hx =>
    subst hs
    exact stepOk_reference hok hat hx
  | createThread u hdead =>
    subst hs
    exact stepOk_createThread hok hat hdead
  | createFails hx =>
    subst hs
    exact stepOk_createFails hok hat hx
  | setHandle hx =>
    subst hs
    exact stepOk_setHandle hok hat hx
  | refer hmay hx =>
    subst hs
    exact stepOk_refer hok hat hmay hx
  | close hpos hx =>
    subst hs
    exact stepOk_close hok hat hpos hx
  | free =>
    subst hs
    exact stepOk_free hok hat rfl (by simp) rfl hat.shape rfl rfl rfl rfl rfl rfl
  | lockInvoke hfree =>
    subst hs
    refine stepOk_thread hok rfl rfl rfl rfl (by rw [hfree]; exact fun _ _ h => by cases h)
      (fun _ _ => rfl) (fun _ _ => rfl) ⟨hat.shape, hat.owns, hat.creates, ?_, ?_, hat.frees,
      hat.listed, fun _ => rfl, ?_, ?_, hat.ready, ?_, ?_⟩
    · exact fun o h => by cases h
    · exact fun o h => by cases h
    · exact fun h => by cases h
    · exact fun _ => hat.alive (by simp)
    · exact fun h => by cases h
    · intro rest h
      cases h
      exact List.suffix_refl _
  | @visit o x rest current hx =>
    subst hs
    refine stepOk_thread hok rfl rfl rfl rfl (fun _ _ h => h) (fun _ _ => rfl) (fun _ _ => rfl)
      ⟨hat.shape, hat.owns, hat.creates, ?_, ?_, hat.frees, hat.listed, hat.locks, ?_, ?_,
      hat.ready, ?_, ?_⟩
    · exact fun o h => by cases h
    · exact fun o h => by cases h
    · exact fun h => by cases h
    · exact fun _ => hat.alive (by simp)
    · exact fun h => by cases h
    · intro rest' h
      cases h
      exact (List.suffix_cons o rest).trans (hat.invokes _ rfl)
  | unlockInvoke =>
    subst hs
    have hother := not_locked_by_other (hat.locks rfl)
    exact stepOk_thread hok rfl rfl rfl rfl (fun u hu h => absurd h (hother u hu))
      (fun _ _ => rfl) (fun _ _ => rfl)
      (AtPoint.of_plain rfl hat.shape hat.owns hat.creates hat.frees hat.listed
        (fun h => by cases h) (hat.alive (by simp)) hat.ready)
  | violation haccess hnone =>
    subst hs
    exact absurd hnone (accesses_allocated hok hat haccess)

/-! ## All runs -/

/-- The thread refers to the object: it has it for itself, maybe as the argument that waits
for it, it creates another thread with it, or it frees it. -/
def Refers (c : Conf (Shared T) T Local) (t : T) (o : ℕ) : Prop :=
  o ∈ (c.pc t).owns ∨ c.shared.pending t = some o ∨ (c.pc t).creates = some o ∨
    (c.pc t).frees = some o

/-- What holds after every run. -/
structure Sound (c : Conf (Shared T) T Local) : Prop where
  /-- No freed object is used, and no identifier is in the list twice. -/
  works : ∀ t f, (c.pc t).pc ≠ .failed f
  /-- An object is there as long as a client or a thread refers to it. -/
  there : ∀ o, c.shared.objects o ≠ none ↔ 0 < c.shared.handles o ∨ ∃ t, Refers c t o
  /-- No two threads have one object for themselves. -/
  own : ∀ t u o, o ∈ (c.pc t).owns → o ∈ (c.pc u).owns → t = u
  nodup : c.shared.threadlist.Nodup
  /-- The list has the objects of the threads between their two calls. -/
  listed : ∀ o, o ∈ c.shared.threadlist ↔ ∃ t, (c.pc t).listed = some o
  /-- It has them with a handle, under the identifier of a thread that is there. -/
  named : ∀ t o, (c.pc t).listed = some o → c.shared.alive t = true ∧
    ∃ x, c.shared.objects o = some x ∧ x.threadId = some t ∧ x.h = true
  /-- `DdkInvokeForAllThreads` goes on with objects of the list. -/
  invokes : ∀ t rest, (c.pc t).pc = .invoke rest → rest <:+ c.shared.threadlist

/-- The invariant, after every run. -/
theorem threads_invariant [DecidableEq T] {ts : List T} (h : Trace Init (Step Act) ts c) :
    Holds SharedOk AtPoint c := by
  refine Threads.invariant ?_ ?_ h
  · rintro ⟨s, pc⟩ ⟨rfl, hpc⟩
    refine ⟨⟨fun _ => none, fun _ => none, fun _ => 0, fun _ => none⟩, ⟨?_, ?_, List.nodup_nil⟩, ?_⟩
    · exact fun o => objectOk_none rfl ⟨rfl, rfl, rfl, rfl, rfl⟩
    · exact fun o ho => absurd ho List.not_mem_nil
    · intro t
      show AtPoint t _ _ (pc t)
      rw [show pc t = ⟨.gone, none, none⟩ from hpc t]
      refine ⟨⟨rfl, rfl⟩, ?_, ?_, ?_, ?_, ?_, ?_, ?_, ?_, ?_, ?_, ?_, ?_⟩
      · simp [Local.owns]
      · exact fun o => by simp [Local.creates]
      · exact fun o h => by cases h
      · exact fun o h => by cases h
      · exact fun o => by simp [Local.frees]
      · exact fun o => by simp [Local.listed]
      · exact fun h => by cases h
      · exact fun _ => by simp
      · exact fun h => absurd rfl h
      · exact fun o h => absurd h List.not_mem_nil
      · exact fun h => by cases h
      · exact fun _ h => by cases h
  · intro g c t s l hok hat hact
    exact act_stepOk hok (hat t) hact

/-! ## The reference counts

They are natural numbers here and a `LONG` in the source. -/

/-- No count is decremented below zero. -/
theorem decrement_pos [DecidableEq T] {ts : List T} (h : Trace Init (Step Act) ts c) {o : ℕ}
    {x : Thread T} (hx : c.shared.objects o = some x)
    (hdecrements : 0 < c.shared.handles o ∨ ∃ t arg, c.pc t = ⟨.dereference, some o, arg⟩) :
    1 ≤ x.refcount := by
  rcases threads_invariant h with ⟨g, hok, hat⟩
  have hcount := (hok.allocated hx).2.1
  rcases hdecrements with hhandles | ⟨t, arg, hpc⟩
  · omega
  · have howner : g.owner o = some t := by
      refine ((hat t).owns o).2 (Or.inl ?_)
      rw [hpc]
      exact List.mem_append_left _ (List.mem_singleton.2 rfl)
    rw [howner, Option.toList_some, List.length_singleton] at hcount
    omega

theorem refcount_update {objects : ℕ → Option (Thread T)} {n : ℕ}
    (hle : ∀ o x, objects o = some x → x.refcount ≤ n) {o : ℕ} {v : Option (Thread T)}
    (hv : ∀ x, v = some x → x.refcount ≤ n + 1) :
    ∀ p x, Function.update objects o v p = some x → x.refcount ≤ n + 1 := by
  intro p x hx
  by_cases hp : p = o
  · rw [hp, Function.update_self] at hx
    exact hv x hx
  · rw [Function.update_of_ne hp] at hx
    exact Nat.le_succ_of_le (hle p x hx)

/-- A step moves a count by at most one, and a new object has one reference. -/
theorem Act.refcount_le [DecidableEq T] {n : ℕ} {s s' : Shared T} {l l' : Local}
    (h : Act t s l s' l') (hle : ∀ o x, s.objects o = some x → x.refcount ≤ n) :
    ∀ o x, s'.objects o = some x → x.refcount ≤ n + 1 := by
  cases h with
  | init | create =>
    refine refcount_update hle fun x hx => ?_
    cases hx
    exact Nat.le_add_left 1 n
  | setId hx | setHandle hx | reference hx | refer _ hx | dereference hx | close _ hx =>
    refine refcount_update hle fun x' hx' => ?_
    cases hx'
    have hold := hle _ _ hx
    simp only
    omega
  | freeing | free | createFails => exact refcount_update hle fun x hx => by cases hx
  | _ => exact fun o x hx => Nat.le_succ_of_le (hle o x hx)

/-- **No wrap.** In a run that is not too long the `LONG` in a thread's object holds its
reference count. -/
theorem refcount_noWrap [DecidableEq T] {ts : List T} (h : Trace Init (Step Act) ts c)
    (hlen : ts.length + 1 < 2 ^ 31) {o : ℕ} {x : Thread T} (hx : c.shared.objects o = some x) :
    NoWrap x.refcount := by
  have hbound : ∀ o x, c.shared.objects o = some x → x.refcount ≤ ts.length := by
    clear hlen hx
    induction h with
    | start hc =>
      intro o x hx
      rw [hc.1] at hx
      cases hx
    | snoc _ hnext ih =>
      rcases hnext with ⟨s, l, hact, rfl⟩
      rw [List.length_append]
      exact hact.refcount_le ih
  have hwithin : Within ts.length x.refcount := by
    have hle := hbound o x hx
    exact ⟨by omega, by omega⟩
  exact hwithin.noWrap (by omega)

/-- **The objects of the threads**, after every interleaving of their steps. -/
theorem threadObjects_sound [DecidableEq T] {ts : List T} (h : Trace Init (Step Act) ts c) :
    Sound c := by
  rcases threads_invariant h with ⟨g, hok, hat⟩
  constructor
  case works =>
    intro t f hf
    have hshape := (hat t).shape
    rw [Local.Shape, hf] at hshape
    exact hshape
  case there =>
    intro o
    cases hx : c.shared.objects o with
    | none =>
      rcases hok.absent hx with ⟨howner, hcreator, -, hfreer, hhandles⟩
      simp only [ne_eq, not_true_eq_false, false_iff, not_or, not_exists]
      refine ⟨by omega, fun t ht => ?_⟩
      rcases ht with ht | ht | ht | ht
      · have howns := ((hat t).owns o).2 (Or.inl ht)
        rw [howner] at howns
        cases howns
      · have howns := ((hat t).owns o).2 (Or.inr ht)
        rw [howner] at howns
        cases howns
      · have hcreates := ((hat t).creates o).2 ht
        rw [hcreator] at hcreates
        cases hcreates
      · have hfrees := ((hat t).frees o).2 ht
        rw [hfreer] at hfrees
        cases hfrees
    | some x =>
      rcases hok.allocated hx with ⟨-, hcount, hfree, hmade⟩
      refine ⟨fun _ => ?_, fun _ h => by cases h⟩
      cases howner : g.owner o with
      | some t =>
        rcases ((hat t).owns o).1 howner with ht | ht
        · exact Or.inr ⟨t, Or.inl ht⟩
        · exact Or.inr ⟨t, Or.inr (Or.inl ht)⟩
      | none =>
        cases hcreator : g.creator o with
        | some t => exact Or.inr ⟨t, Or.inr (Or.inr (Or.inl (((hat t).creates o).1 hcreator)))⟩
        | none =>
          cases hfreer : g.freer o with
          | some t => exact Or.inr ⟨t, Or.inr (Or.inr (Or.inr (((hat t).frees o).1 hfreer)))⟩
          | none =>
            -- the references that are counted are those of clients
            have hmade0 := hmade.2 hcreator
            have hpos : x.refcount ≠ 0 := fun h => hfree.1 h hfreer
            rw [howner, hmade0] at hcount
            simp only [Option.toList_none, List.length_nil] at hcount
            exact Or.inl (by omega)
  case own =>
    intro t u o ht hu
    have howner := ((hat t).owns o).2 (Or.inl ht)
    rw [((hat u).owns o).2 (Or.inl hu)] at howner
    exact (Option.some.inj howner).symm
  case nodup => exact hok.nodup
  case listed =>
    intro o
    constructor
    · intro ho
      rcases hok.listed o ho with ⟨t, x, howner, -⟩
      exact ⟨t, ((hat t).listed o).2 ⟨ho, howner⟩⟩
    · rintro ⟨t, ht⟩
      exact (((hat t).listed o).1 ht).1
  case named =>
    intro t o ht
    rcases ((hat t).listed o).1 ht with ⟨hmem, howner⟩
    have hgone : (c.pc t).pc ≠ .gone := by
      intro hgone
      rw [Local.listed, hgone] at ht
      cases ht
    rcases hok.listed o hmem with ⟨u, x, howner', hx, hid, hh⟩
    rw [howner] at howner'
    cases howner'
    exact ⟨((hat t).alive hgone).1, x, hx, hid, hh⟩
  case invokes => exact fun t rest ht => (hat t).invokes rest ht

/-- A thread creates another one and closes its handle while this one runs; it finds both in
the list. -/
theorem threadObjects_sound_created :
    ∃ (ts : List Bool) (c : Conf (Shared Bool) Bool Local), Trace Init (Step Act) ts c ∧
      (c.pc true).pc = .invoke [0] ∧ c.shared.threadlist = [1, 0] ∧ c.shared.handles 1 = 0 ∧
      c.shared.objects 2 = none ∧ Sound c := by
  have h0 : Trace (Init (T := Bool)) (Step Act) []
      ⟨⟨fun _ => none, 0, [], none, fun _ => false, fun _ => none, fun _ => 0⟩,
        fun _ => ⟨.gone, none, none⟩⟩ :=
    Trace.start ⟨rfl, fun _ => rfl⟩
  have h1 := run_step h0 true (Act.attach rfl)
  have h2 := run_step h1 true Act.init
  have h3 := run_step h2 true (Act.lockInsert rfl)
  have h4 := run_step h3 true (Act.setId rfl)
  have h5 := run_step h4 true (Act.push (fun p hp => absurd hp List.not_mem_nil))
  have h6 := run_step h5 true Act.unlockInsert
  have h7 := run_step h6 true Act.create
  have h8 := run_step h7 true (Act.reference rfl)
  have h9 := run_step h8 true (Act.createThread false rfl)
  have h10 := run_step h9 false (Act.start rfl)
  have h11 := run_step h10 false Act.init
  have h12 := run_step h11 false (Act.lockInsert rfl)
  have h13 := run_step h12 false (Act.setId rfl)
  have h14 := run_step h13 false (Act.push (by
    intro p hp
    rw [List.mem_singleton.1 hp]
    exact ⟨_, rfl, by decide⟩))
  have h15 := run_step h14 false Act.unlockInsert
  have h16 := run_step h15 true (Act.setHandle rfl)
  have h17 := run_step h16 false (Act.hasHandle rfl rfl)
  have h18 := run_step h17 false (Act.lockDeinit rfl)
  have h19 := run_step h18 false Act.unlink
  have h20 := run_step h19 false (Act.dereference rfl)
  have h21 := run_step h20 false (Act.freeing rfl)
  have h22 := run_step h21 false Act.startThread
  have h23 := run_step h22 false (Act.lockInsert rfl)
  have h24 := run_step h23 false (Act.setId rfl)
  have h25 := run_step h24 false (Act.push (by
    intro p hp
    rw [List.mem_singleton.1 hp]
    exact ⟨_, rfl, by decide⟩))
  have h26 := run_step h25 false Act.unlockInsert
  have h27 := run_step h26 true (Act.close (o := 1) Nat.zero_lt_one rfl)
  have h28 := run_step h27 true (Act.lockInvoke rfl)
  have h29 := run_step h28 true (Act.visit rfl)
  exact ⟨_, _, h29, rfl, rfl, rfl, rfl, threadObjects_sound h29⟩

end Wdutf.Ps
