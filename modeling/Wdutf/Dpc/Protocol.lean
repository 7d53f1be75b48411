import Mathlib.Data.List.Basic
import Mathlib.Logic.Function.Basic
import Mathlib.Tactic.Common
import Wdutf.Dpc.Model

/-!
# Wdutf.Dpc.Protocol — who may do what with a DPC

A DPC that is queued has one entry in the queue, and somebody has it: the thread
that is inserting it, the thread pool, the callback that has not yet cleared
`queued`, or the thread that is removing it. `cancel` is set as long as a thread
is between setting and clearing it.

* `Point` — what each step of the program relies on;
* `Rely` — what the steps of other threads leave alone; `atPoint_stable` shows that
  `Point` needs no more;
* `protocol` — the assertions hold after every run.
-/

namespace Wdutf.Dpc

open Wdutf.Threads Wdutf.Transition

variable {D T A : Type}

/-- Who has the entry of a DPC in the queue. -/
inductive Entry (T : Type) where
  | nobody
  | thread (t : T)
  | pool

/-- Who has the entry of each DPC, and who has set its `cancel`. -/
structure Ghost (D T : Type) where
  entry : D → Entry T
  remover : D → Option T

/-- The members of a DPC agree with who has its entry and who removes it. -/
structure DpcOk (x : Kdpc T A) (e : Entry T) (r : Option T) : Prop where
  queued : x.queued = true ↔ e ≠ .nobody
  pending : x.pending ≠ [] ↔ e = .pool
  one : x.pending.length ≤ 1
  cancel : x.cancel = true ↔ r ≠ none

/-- A pending submission is the only one. -/
theorem DpcOk.pending_eq {x : Kdpc T A} {e : Entry T} {r : Option T} (h : DpcOk x e r) {k : ℕ}
    (hmem : k ∈ x.pending) : x.pending = [k] := by
  rcases List.length_eq_one_iff.1 (Nat.le_antisymm h.one (List.length_pos_of_mem hmem)) with ⟨j, hj⟩
  rw [hj, List.mem_singleton] at hmem
  rw [hj, hmem]

/-- What a thread may rely on at a point of its program. -/
def Point (t : T) (g : Ghost D T) (dpc : D → Kdpc T A) : Pc D A → Prop
  | .insertTestQueued d _ _ => (dpc d).lock = some t
  | .insertTestCancel d _ _ => (dpc d).lock = some t ∧ (dpc d).queued = false
  | .insertArgument1 d _ _ => (dpc d).lock = some t ∧ (dpc d).queued = false ∧
      (dpc d).cancel = false
  | .insertArgument2 d _ _ => (dpc d).lock = some t ∧ (dpc d).queued = false ∧
      (dpc d).cancel = false
  | .insertQueued d _ _ => (dpc d).lock = some t ∧ (dpc d).queued = false ∧ (dpc d).cancel = false
  | .insertCount d _ _ => (dpc d).lock = some t ∧ (dpc d).cancel = false ∧ g.entry d = .thread t
  | .insertSubmit d _ => (dpc d).lock = some t ∧ (dpc d).cancel = false ∧ g.entry d = .thread t
  | .insertLeave d _ => (dpc d).lock = some t
  | .refuse d => (dpc d).lock = some t
  | .removeTestQueued d => (dpc d).lock = some t
  | .removeTestCancel d => (dpc d).lock = some t
  | .removeSetCancel d => (dpc d).lock = some t ∧ (dpc d).cancel = false
  | .removeLeave d => (dpc d).lock = some t ∧ g.remover d = some t
  | .removeCancelWork d => g.remover d = some t
  | .removeWaitWork d c => g.remover d = some t ∧ g.entry d ≠ .pool ∧
      (c = [] ∧ g.entry d ≠ .thread t ∨ ∃ k, c = [k] ∧ g.entry d = .thread t)
  | .removeExchange d c => g.remover d = some t ∧
      (c = [] ∧ g.entry d = .nobody ∨ ∃ k, c = [k] ∧ g.entry d = .thread t)
  | .removeCount d c => g.remover d = some t ∧ ∃ k, c = [k]
  | .removeClearCancel d rc c => g.remover d = some t ∧
      (rc = true → ∃ k, c = [k]) ∧ (rc = false → c = [])
  | .callbackExchange d _ => g.entry d = .thread t ∧ t ∈ (dpc d).associated
  | .callbackDisassociate d _ => t ∈ (dpc d).associated
  | _ => True

/-- The points at which a thread has the entry of a DPC. -/
def HasEntry (d : D) : Pc D A → Prop
  | .insertCount d' _ _ => d' = d
  | .insertSubmit d' _ => d' = d
  | .removeWaitWork d' c => d' = d ∧ c ≠ []
  | .removeExchange d' c => d' = d ∧ c ≠ []
  | .callbackExchange d' _ => d' = d
  | _ => False

/-- The assertion about a thread: what it relies on, and that it knows of every
entry it has. -/
def AtPoint (t : T) (g : Ghost D T) (s : Shared D T A) (l : Pc D A) : Prop :=
  Point t g s.dpc l ∧ ∀ d, g.entry d = .thread t → HasEntry d l

/-- The assertion about the shared data. -/
def DpcsOk (g : Ghost D T) (s : Shared D T A) : Prop :=
  ∀ d, DpcOk (s.dpc d) (g.entry d) (g.remover d)

/-! ## Interference -/

/-- What the steps of other threads leave alone on a DPC. -/
structure Rely (t : T) (x : Kdpc T A) (e : Entry T) (r : Option T) (x' : Kdpc T A) (e' : Entry T)
    (r' : Option T) : Prop where
  locked : x.lock = some t → x'.lock = some t ∧ (x.queued = false → x'.queued = false) ∧
    (x.cancel = false → x'.cancel = false)
  entry : e' = .thread t ↔ e = .thread t
  removing : r = some t → r' = some t ∧ (e ≠ .pool → e' ≠ .pool) ∧ (e = .nobody → e' = .nobody)
  associated : t ∈ x.associated → t ∈ x'.associated

theorem Rely.refl (t : T) (x : Kdpc T A) (e : Entry T) (r : Option T) : Rely t x e r x e r :=
  ⟨fun h => ⟨h, id, id⟩, Iff.rfl, fun h => ⟨h, id, id⟩, id⟩

/-- The assertion about a thread survives the steps of other threads. -/
theorem atPoint_stable {t : T} {g g' : Ghost D T} {s s' : Shared D T A} {l : Pc D A}
    (hrely : ∀ d, Rely t (s.dpc d) (g.entry d) (g.remover d) (s'.dpc d) (g'.entry d) (g'.remover d))
    (h : AtPoint t g s l) : AtPoint t g' s' l := by
  rcases h with ⟨hpoint, hheld⟩
  refine ⟨?_, fun d hd => hheld d ((hrely d).entry.1 hd)⟩
  cases l with
  | idle => trivial
  | insertEnter d a₁ a₂ => trivial
  | insertTestQueued d a₁ a₂ => exact ((hrely d).locked hpoint).1
  | insertTestCancel d a₁ a₂ =>
    rcases hpoint with ⟨hlock, hqueued⟩
    rcases (hrely d).locked hlock with ⟨hlock', hq, -⟩
    exact ⟨hlock', hq hqueued⟩
  | insertArgument1 d a₁ a₂ =>
    rcases hpoint with ⟨hlock, hqueued, hcancel⟩
    rcases (hrely d).locked hlock with ⟨hlock', hq, hc⟩
    exact ⟨hlock', hq hqueued, hc hcancel⟩
  | insertArgument2 d a₁ a₂ =>
    rcases hpoint with ⟨hlock, hqueued, hcancel⟩
    rcases (hrely d).locked hlock with ⟨hlock', hq, hc⟩
    exact ⟨hlock', hq hqueued, hc hcancel⟩
  | insertQueued d a₁ a₂ =>
    rcases hpoint with ⟨hlock, hqueued, hcancel⟩
    rcases (hrely d).locked hlock with ⟨hlock', hq, hc⟩
    exact ⟨hlock', hq hqueued, hc hcancel⟩
  | insertCount d a₁ a₂ =>
    rcases hpoint with ⟨hlock, hcancel, hentry⟩
    rcases (hrely d).locked hlock with ⟨hlock', -, hc⟩
    exact ⟨hlock', hc hcancel, (hrely d).entry.2 hentry⟩
  | insertSubmit d k =>
    rcases hpoint with ⟨hlock, hcancel, hentry⟩
    rcases (hrely d).locked hlock with ⟨hlock', -, hc⟩
    exact ⟨hlock', hc hcancel, (hrely d).entry.2 hentry⟩
  | insertLeave d k => exact ((hrely d).locked hpoint).1
  | refuse d => exact ((hrely d).locked hpoint).1
  | removeEnter d => trivial
  | removeTestQueued d => exact ((hrely d).locked hpoint).1
  | removeTestCancel d => exact ((hrely d).locked hpoint).1
  | removeSetCancel d =>
    rcases hpoint with ⟨hlock, hcancel⟩
    rcases (hrely d).locked hlock with ⟨hlock', -, hc⟩
    exact ⟨hlock', hc hcancel⟩
  | removeLeave d =>
    rcases hpoint with ⟨hlock, hremover⟩
    exact ⟨((hrely d).locked hlock).1, ((hrely d).removing hremover).1⟩
  | removeCancelWork d => exact ((hrely d).removing hpoint).1
  | removeWaitWork d c =>
    rcases hpoint with ⟨hremover, hpool, hc⟩
    rcases (hrely d).removing hremover with ⟨hremover', hp, -⟩
    refine ⟨hremover', hp hpool, ?_⟩
    rcases hc with ⟨rfl, hne⟩ | ⟨k, rfl, hentry⟩
    · exact Or.inl ⟨rfl, fun h => hne ((hrely d).entry.1 h)⟩
    · exact Or.inr ⟨k, rfl, (hrely d).entry.2 hentry⟩
  | removeExchange d c =>
    rcases hpoint with ⟨hremover, hc⟩
    rcases (hrely d).removing hremover with ⟨hremover', -, hn⟩
    refine ⟨hremover', ?_⟩
    rcases hc with ⟨rfl, hnobody⟩ | ⟨k, rfl, hentry⟩
    · exact Or.inl ⟨rfl, hn hnobody⟩
    · exact Or.inr ⟨k, rfl, (hrely d).entry.2 hentry⟩
  | removeCount d c => exact ⟨((hrely d).removing hpoint.1).1, hpoint.2⟩
  | removeClearCancel d rc c => exact ⟨((hrely d).removing hpoint.1).1, hpoint.2⟩
  | callbackExchange d k => exact ⟨(hrely d).entry.2 hpoint.1, (hrely d).associated hpoint.2⟩
  | callbackDisassociate d k => exact (hrely d).associated hpoint
  | callbackArgument1 d k => trivial
  | callbackArgument2 d k a₁ => trivial
  | callbackRoutine d k => trivial
  | callbackCount d k => trivial
  | flushRead before => trivial
  | flushWait before n => trivial

/-! ## Steps -/

section Steps

variable [DecidableEq D]

/-- The ghost data with the entry and the remover of one DPC changed. -/
def Ghost.set (g : Ghost D T) (d : D) (e : Entry T) (r : Option T) : Ghost D T :=
  ⟨Function.update g.entry d e, Function.update g.remover d r⟩

@[simp] theorem set_entry_self (g : Ghost D T) (d : D) (e : Entry T) (r : Option T) :
    (g.set d e r).entry d = e := Function.update_self ..

@[simp] theorem set_remover_self (g : Ghost D T) (d : D) (e : Entry T) (r : Option T) :
    (g.set d e r).remover d = r := Function.update_self ..

@[simp] theorem set_dpc_self (s : Shared D T A) (d : D) (x : Kdpc T A) : (s.set d x).dpc d = x :=
  Function.update_self ..

@[simp] theorem set_history (s : Shared D T A) (d : D) (x : Kdpc T A) :
    (s.set d x).history = s.history := rfl

theorem set_dpc_of_ne (s : Shared D T A) {d d' : D} (x : Kdpc T A) (h : d' ≠ d) :
    (s.set d x).dpc d' = s.dpc d' := Function.update_of_ne h ..

variable {g : Ghost D T} {c : Conf (Shared D T A) T (Pc D A)} {t : T}
variable {s' : Shared D T A} {l l' : Pc D A}

/-- The conclusion of a step for the rule of `Wdutf.Lib.Threads`. -/
def StepOk (g : Ghost D T) (c : Conf (Shared D T A) T (Pc D A)) (t : T) (s' : Shared D T A)
    (l' : Pc D A) : Prop :=
  ∃ g', DpcsOk g' s' ∧ AtPoint t g' s' l' ∧
    ∀ u, u ≠ t → AtPoint u g c.shared (c.pc u) → AtPoint u g' s' (c.pc u)

omit [DecidableEq D] in
/-- A lock that is held, or a `cancel` that is set, is so by one thread. -/
theorem ne_of_owner {owner : Option T} {u : T} (h : owner = some t) (hu : u ≠ t) :
    owner ≠ some u := by
  rw [h]
  exact fun heq => hu (Option.some.inj heq).symm

omit [DecidableEq D] in
/-- A step that changes no DPC. -/
theorem stepOk_same (hok : DpcsOk g c.shared) (hheld : ∀ d, g.entry d = .thread t → HasEntry d l)
    (hdpc : s'.dpc = c.shared.dpc) (hpoint : Point t g c.shared.dpc l')
    (hkeep : ∀ d, HasEntry d l → HasEntry d l') : StepOk g c t s' l' := by
  refine ⟨g, ?_, ⟨?_, fun d hd => hkeep d (hheld d hd)⟩, ?_⟩
  · intro d
    rw [hdpc]
    exact hok d
  · rw [hdpc]
    exact hpoint
  · intro u _ hu
    refine atPoint_stable (fun d => ?_) hu
    rw [hdpc]
    exact Rely.refl ..

/-- A step that changes one DPC. -/
theorem stepOk_set (hok : DpcsOk g c.shared) (hheld : ∀ d, g.entry d = .thread t → HasEntry d l)
    {d : D} {x : Kdpc T A} {e : Entry T} {r : Option T}
    (hdpc : s'.dpc = Function.update c.shared.dpc d x) (hx : DpcOk x e r)
    (hpoint : Point t (g.set d e r) (Function.update c.shared.dpc d x) l')
    (honly : ∀ d', d' ≠ d → ¬ HasEntry d' l) (hentry : e = .thread t → HasEntry d l')
    (hrely : ∀ u, u ≠ t →
      Rely u (c.shared.dpc d) (g.entry d) (g.remover d) x e r) : StepOk g c t s' l' := by
  refine ⟨g.set d e r, ?_, ⟨?_, ?_⟩, ?_⟩
  · intro d'
    rw [hdpc]
    by_cases hd : d' = d
    · subst hd
      simpa using hx
    · simpa [Ghost.set, hd] using hok d'
  · rw [hdpc]
    exact hpoint
  · intro d' hd'
    by_cases hd : d' = d
    · subst hd
      exact hentry (by simpa using hd')
    · have : g.entry d' = .thread t := by simpa [Ghost.set, hd] using hd'
      exact absurd (hheld d' this) (honly d' hd)
  · intro u hu hat
    refine atPoint_stable (fun d' => ?_) hat
    rw [hdpc]
    by_cases hd : d' = d
    · subst hd
      simpa using hrely u hu
    · simpa [Ghost.set, hd] using Rely.refl u (c.shared.dpc d') (g.entry d') (g.remover d')

/-- A step that leaves the entry of the DPC and its remover where they are. -/
theorem stepOk_touch (hok : DpcsOk g c.shared) (hheld : ∀ d, g.entry d = .thread t → HasEntry d l)
    {d : D} {x : Kdpc T A} (hdpc : s'.dpc = Function.update c.shared.dpc d x)
    (hqueued : x.queued = (c.shared.dpc d).queued) (hcancel : x.cancel = (c.shared.dpc d).cancel)
    (hpending : x.pending = (c.shared.dpc d).pending)
    (hpoint : Point t (g.set d (g.entry d) (g.remover d)) (Function.update c.shared.dpc d x) l')
    (hnone : ∀ d', ¬ HasEntry d' l)
    (hlock : ∀ u, u ≠ t → (c.shared.dpc d).lock = some u → x.lock = some u)
    (hassociated : ∀ u, u ≠ t → u ∈ (c.shared.dpc d).associated → u ∈ x.associated) :
    StepOk g c t s' l' := by
  have hx : DpcOk x (g.entry d) (g.remover d) := by
    refine ⟨?_, ?_, ?_, ?_⟩
    · rw [hqueued]; exact (hok d).queued
    · rw [hpending]; exact (hok d).pending
    · rw [hpending]; exact (hok d).one
    · rw [hcancel]; exact (hok d).cancel
  refine stepOk_set hok hheld hdpc hx hpoint (fun d' _ => hnone d')
    (fun he => (hnone d (hheld d he)).elim) ?_
  intro u hu
  refine ⟨fun h => ⟨hlock u hu h, ?_, ?_⟩, Iff.rfl, fun h => ⟨h, id, id⟩, hassociated u hu⟩
  · rw [hqueued]
    exact id
  · rw [hcancel]
    exact id

/-- A step that clears the `cancel` which its thread has set. -/
theorem stepOk_clearCancel (hok : DpcsOk g c.shared)
    (hheld : ∀ d, g.entry d = .thread t → HasEntry d l) {d : D}
    (hdpc : s'.dpc = Function.update c.shared.dpc d { c.shared.dpc d with cancel := false })
    (hremover : g.remover d = some t) (hnone : ∀ d', ¬ HasEntry d' l) : StepOk g c t s' .idle := by
  have hx : DpcOk { c.shared.dpc d with cancel := false } (g.entry d) none :=
    ⟨(hok d).queued, (hok d).pending, (hok d).one, by simp⟩
  refine stepOk_set hok hheld hdpc hx trivial (fun d' _ => hnone d')
    (fun he => (hnone d (hheld d he)).elim) ?_
  intro u hu
  exact ⟨fun h => ⟨h, id, fun _ => rfl⟩, Iff.rfl, fun h => absurd h (ne_of_owner hremover hu), id⟩

omit [DecidableEq D] in
/-- Who has the entry of a DPC when its `cancel` is set and no callback is
associated: nobody, the pool, or the thread that removes it. -/
theorem entry_of_remover (hok : DpcsOk g c.shared) (hat : ∀ u, AtPoint u g c.shared (c.pc u))
    {d : D} (hremover : g.remover d = some t) (hassociated : (c.shared.dpc d).associated = [])
    {u : T} (hentry : g.entry d = .thread u) : u = t := by
  rcases hat u with ⟨hpoint, hheld⟩
  have hhas := hheld d hentry
  have hcancel : (c.shared.dpc d).cancel = true := (hok d).cancel.2 (by simp [hremover])
  generalize c.pc u = l at hpoint hhas
  cases l with
  -- an insertion does not get this far while `cancel` is set
  | insertCount d' a₁ a₂ =>
    obtain rfl : d' = d := hhas
    rcases hpoint with ⟨-, hclear, -⟩
    rw [hcancel] at hclear
    cases hclear
  | insertSubmit d' k =>
    obtain rfl : d' = d := hhas
    rcases hpoint with ⟨-, hclear, -⟩
    rw [hcancel] at hclear
    cases hclear
  -- there is only one remover
  | removeWaitWork d' c' =>
    obtain ⟨rfl, -⟩ : d' = d ∧ _ := hhas
    rw [hpoint.1] at hremover
    exact Option.some.inj hremover
  | removeExchange d' c' =>
    obtain ⟨rfl, -⟩ : d' = d ∧ _ := hhas
    rw [hpoint.1] at hremover
    exact Option.some.inj hremover
  -- a callback that has yet to clear `queued` is associated
  | callbackExchange d' k =>
    obtain rfl : d' = d := hhas
    have hmem := hpoint.2
    rw [hassociated] at hmem
    cases hmem
  | _ => exact hhas.elim

/-- Every step keeps the assertions. -/
theorem protocol_step [DecidableEq T] (hok : DpcsOk g c.shared)
    (hat : ∀ u, AtPoint u g c.shared (c.pc u)) (hact : Act t c.shared (c.pc t) s' l') :
    StepOk g c t s' l' := by
  rcases hat t with ⟨hpoint, hheld⟩
  generalize hl : c.pc t = l at hact hpoint hheld
  cases hact with
  | insertCall d a₁ a₂ => exact stepOk_same hok hheld rfl trivial fun _ h => h
  | @insertEnter d a₁ a₂ hlock =>
    refine stepOk_touch hok hheld rfl rfl rfl rfl (by simp [Point]) (fun _ => id) ?_ fun _ _ => id
    -- the lock was free
    intro u _ h
    rw [hlock] at h
    cases h
  | insertQueuedSet _ => exact stepOk_same hok hheld rfl hpoint fun _ h => h
  | insertQueuedClear hq => exact stepOk_same hok hheld rfl ⟨hpoint, hq⟩ fun _ h => h
  | insertCancelSet _ => exact stepOk_same hok hheld rfl hpoint.1 fun _ h => h
  | insertCancelClear hc => exact stepOk_same hok hheld rfl ⟨hpoint.1, hpoint.2, hc⟩ fun _ h => h
  | @insertArgument1 d a₁ a₂ =>
    rcases hpoint with ⟨hlock, hq, hc⟩
    exact stepOk_touch hok hheld rfl rfl rfl rfl (by simp [Point, hlock, hq, hc]) (fun _ => id)
      (fun _ _ => id) fun _ _ => id
  | @insertArgument2 d a₁ a₂ =>
    rcases hpoint with ⟨hlock, hq, hc⟩
    exact stepOk_touch hok hheld rfl rfl rfl rfl (by simp [Point, hlock, hq, hc]) (fun _ => id)
      (fun _ _ => id) fun _ _ => id
  | @insertQueued d a₁ a₂ =>
    -- the entry comes into being, in the hands of the inserting thread
    rcases hpoint with ⟨hlock, hq, hc⟩
    have hremover : g.remover d = none := by simpa [hc] using (hok d).cancel
    have hnobody : g.entry d = .nobody := by simpa [hq] using (hok d).queued
    have hpending : (c.shared.dpc d).pending = [] := by simpa [hnobody] using (hok d).pending
    refine stepOk_set (e := .thread t) (r := g.remover d) hok hheld rfl
      ⟨by simp, by simp [hpending], (hok d).one, (hok d).cancel⟩ (by simp [Point, hlock, hc])
      (fun _ _ => id) (fun _ => rfl) ?_
    intro u hu
    refine ⟨fun h => absurd h (ne_of_owner hlock hu), ?_, fun h => ?_, id⟩
    · simpa [hnobody] using Ne.symm hu
    · rw [hremover] at h
      cases h
  | @insertCount d a₁ a₂ =>
    exact stepOk_same hok hheld rfl hpoint fun _ h => h
  | @insertSubmit d k =>
    -- the entry goes to the pool
    rcases hpoint with ⟨hlock, hc, hentry⟩
    have hremover : g.remover d = none := by simpa [hc] using (hok d).cancel
    have hpending : (c.shared.dpc d).pending = [] := by simpa [hentry] using (hok d).pending
    have hq : (c.shared.dpc d).queued = true := (hok d).queued.2 (by simp [hentry])
    refine stepOk_set (e := .pool) (r := g.remover d) hok hheld rfl
      ⟨by simp [hq], by simp, by simp [hpending], (hok d).cancel⟩ (by simp [Point, hlock])
      (fun d' hne h => hne h.symm) (fun h => by cases h) ?_
    intro u hu
    refine ⟨fun h => ⟨h, id, id⟩, ?_, fun h => ?_, id⟩
    · simpa [hentry] using Ne.symm hu
    · rw [hremover] at h
      cases h
  | @insertLeave d k =>
    exact stepOk_touch hok hheld rfl rfl rfl rfl trivial (fun _ => id)
      (fun u hu h => absurd h (ne_of_owner hpoint hu)) fun _ _ => id
  | @refuse d =>
    exact stepOk_touch hok hheld rfl rfl rfl rfl trivial (fun _ => id)
      (fun u hu h => absurd h (ne_of_owner hpoint hu)) fun _ _ => id
  | removeCall d => exact stepOk_same hok hheld rfl trivial fun _ h => h
  | @removeEnter d hlock =>
    refine stepOk_touch hok hheld rfl rfl rfl rfl (by simp [Point]) (fun _ => id) ?_ fun _ _ => id
    -- the lock was free
    intro u _ h
    rw [hlock] at h
    cases h
  | removeQueuedClear _ => exact stepOk_same hok hheld rfl hpoint fun _ h => h
  | removeQueuedSet _ => exact stepOk_same hok hheld rfl hpoint fun _ h => h
  | removeCancelSet _ => exact stepOk_same hok hheld rfl hpoint fun _ h => h
  | removeCancelClear hc => exact stepOk_same hok hheld rfl ⟨hpoint, hc⟩ fun _ h => h
  | @removeSetCancel d =>
    -- the thread becomes the remover
    rcases hpoint with ⟨hlock, hc⟩
    have hremover : g.remover d = none := by simpa [hc] using (hok d).cancel
    refine stepOk_set (e := g.entry d) (r := some t) hok hheld rfl ⟨(hok d).queued,
      (hok d).pending, (hok d).one, by simp⟩ (by simp [Point, hlock]) (fun _ _ => id)
      (fun he => (hheld d he).elim) ?_
    intro u hu
    refine ⟨fun h => absurd h (ne_of_owner hlock hu), Iff.rfl, fun h => ?_, id⟩
    rw [hremover] at h
    cases h
  | @removeLeave d =>
    rcases hpoint with ⟨hlock, hremover⟩
    exact stepOk_touch hok hheld rfl rfl rfl rfl (by simp [Point, hremover]) (fun _ => id)
      (fun u hu h => absurd h (ne_of_owner hlock hu)) fun _ _ => id
  | @removeCancelWork d =>
    have hremover : g.remover d = some t := hpoint
    have hnot : g.entry d ≠ .thread t := fun he => hheld d he
    cases hpending : (c.shared.dpc d).pending with
    | nil =>
      -- nothing is pending
      have hpool : g.entry d ≠ .pool := fun he => (hok d).pending.2 he hpending
      exact stepOk_set (e := g.entry d) (r := g.remover d) hok hheld rfl ⟨(hok d).queued,
        by simp [hpool], by simp, (hok d).cancel⟩ (by simp [Point, hremover, hpool, hnot])
        (fun _ _ => id) (fun he => (hheld d he).elim)
        fun u _ => ⟨fun h => ⟨h, id, id⟩, Iff.rfl, fun h => ⟨h, id, id⟩, id⟩
    | cons k rest =>
      -- the entry comes back from the pool
      have hpool : g.entry d = .pool := (hok d).pending.1 (by simp [hpending])
      have hrest : rest = [] := by
        have hone := (hok d).pending_eq (k := k) (by simp [hpending])
        rw [hpending] at hone
        exact (List.cons.inj hone).2
      refine stepOk_set (e := .thread t) (r := g.remover d) hok hheld rfl
        ⟨by simpa [hpool] using (hok d).queued, by simp, by simp, (hok d).cancel⟩
        (by simp [Point, hremover, hrest]) (fun _ _ => id) (fun _ => ⟨rfl, by simp⟩) ?_
      intro u hu
      refine ⟨fun h => ⟨h, id, id⟩, ?_, fun h => absurd h (ne_of_owner hremover hu), id⟩
      simpa [hpool] using Ne.symm hu
  | @removeWaitWork d cs hassociated =>
    rcases hpoint with ⟨hremover, hpool, hcs⟩
    refine stepOk_same hok hheld rfl ⟨hremover, ?_⟩ fun _ h => h
    rcases hcs with ⟨rfl, hne⟩ | ⟨k, rfl, hentry⟩
    · -- nobody else can have the entry
      refine Or.inl ⟨rfl, ?_⟩
      cases he : g.entry d with
      | nobody => rfl
      | thread u =>
        rcases entry_of_remover hok hat hremover hassociated he with rfl
        exact absurd he hne
      | pool => exact absurd he hpool
    · exact Or.inr ⟨k, rfl, hentry⟩
  | @removeExchangeSet d cs hq =>
    rcases hpoint with ⟨hremover, hcs⟩
    have hsome := (hok d).queued.1 hq
    rcases hcs with ⟨rfl, hnobody⟩ | ⟨k, rfl, hentry⟩
    · exact absurd hnobody hsome
    · -- the entry is gone
      have hpending : (c.shared.dpc d).pending = [] := by simpa [hentry] using (hok d).pending
      refine stepOk_set (e := .nobody) (r := g.remover d) hok hheld rfl
        ⟨by simp, by simp [hpending], (hok d).one, (hok d).cancel⟩ (by simp [Point, hremover])
        (fun d' hne h => hne h.1.symm) (fun h => by cases h) ?_
      intro u hu
      refine ⟨fun h => ⟨h, fun _ => rfl, id⟩, ?_, fun h => absurd h (ne_of_owner hremover hu), id⟩
      simpa [hentry] using Ne.symm hu
  | @removeExchangeClear d cs hq =>
    rcases hpoint with ⟨hremover, hcs⟩
    have hnobody : g.entry d = .nobody := by simpa [hq] using (hok d).queued
    have hnil : cs = [] := by
      rcases hcs with ⟨rfl, -⟩ | ⟨k, -, hentry⟩
      · rfl
      · rw [hnobody] at hentry
        cases hentry
    refine stepOk_set (e := g.entry d) (r := g.remover d) hok hheld rfl
      ⟨by simp [hnobody], (hok d).pending, (hok d).one, (hok d).cancel⟩
      (by simp [Point, hremover, hnil]) (fun d' hne h => hne h.1.symm) (fun h => ?_) ?_
    · rw [hnobody] at h
      cases h
    · intro u _
      exact ⟨fun h => ⟨h, fun _ => rfl, id⟩, Iff.rfl, fun h => ⟨h, id, id⟩, id⟩
  | @removeCount d cs =>
    exact stepOk_same hok hheld rfl ⟨hpoint.1, fun _ => hpoint.2, fun h => by cases h⟩ fun _ h => h
  | @removeReturnTrue d cs => exact stepOk_clearCancel hok hheld rfl hpoint.1 fun _ => id
  | @removeReturnFalse d cs => exact stepOk_clearCancel hok hheld rfl hpoint.1 fun _ => id
  | callbackStart d k hmem =>
    -- the entry goes from the pool to the callback
    have hpool : g.entry d = .pool := (hok d).pending.1 (List.ne_nil_of_mem hmem)
    have herase : (c.shared.dpc d).pending.erase k = [] := by
      rw [(hok d).pending_eq hmem]
      exact List.erase_cons_head ..
    refine stepOk_set (e := .thread t) (r := g.remover d) hok hheld rfl
      ⟨by simpa [hpool] using (hok d).queued, by simp [herase], by simp [herase], (hok d).cancel⟩
      (by simp [Point]) (fun _ _ => id) (fun _ => rfl) ?_
    intro u hu
    refine ⟨fun h => ⟨h, id, id⟩, ?_, fun h => ⟨h, fun hne => absurd hpool hne, fun hn => ?_⟩,
      fun h => List.mem_cons_of_mem t h⟩
    · simpa [hpool] using Ne.symm hu
    · rw [hpool] at hn
      cases hn
  | @callbackExchange d k =>
    -- the callback gives the entry up, and the DPC can be queued again
    rcases hpoint with ⟨hentry, hassociated⟩
    have hpending : (c.shared.dpc d).pending = [] := by simpa [hentry] using (hok d).pending
    refine stepOk_set (e := .nobody) (r := g.remover d) hok hheld rfl
      ⟨by simp, by simp [hpending], (hok d).one, (hok d).cancel⟩ (by simp [Point, hassociated])
      (fun d' hne h => hne h.symm) (fun h => by cases h) ?_
    intro u hu
    refine ⟨fun h => ⟨h, fun _ => rfl, id⟩, ?_, fun h => ⟨h, fun _ => nofun, fun _ => rfl⟩, id⟩
    simpa [hentry] using Ne.symm hu
  | @callbackDisassociate d k =>
    exact stepOk_touch hok hheld rfl rfl rfl rfl trivial (fun _ => id) (fun _ _ => id)
      fun u hu h => (List.mem_erase_of_ne hu).2 h
  | callbackArgument1 => exact stepOk_same hok hheld rfl trivial fun _ h => h
  | callbackArgument2 => exact stepOk_same hok hheld rfl trivial fun _ h => h
  | callbackRoutine => exact stepOk_same hok hheld rfl trivial fun _ h => h
  | callbackCount => exact stepOk_same hok hheld rfl trivial fun _ h => h
  | flushCall => exact stepOk_same hok hheld rfl trivial fun _ h => h
  | flushRead => exact stepOk_same hok hheld rfl trivial fun _ h => h
  | flushWait _ => exact stepOk_same hok hheld rfl trivial fun _ h => h

/-- The assertions of the protocol. -/
def Protocol (c : Conf (Shared D T A) T (Pc D A)) : Prop := Holds DpcsOk AtPoint c

omit [DecidableEq D] in
theorem protocol_init (h : Init c) : Protocol c := by
  rcases h with ⟨hidle, -, -, -, -, -, hdpc⟩
  refine ⟨⟨fun _ => .nobody, fun _ => none⟩, ?_, ?_⟩
  · intro d
    rcases hdpc d with ⟨-, hq, hc, hp, -⟩
    exact ⟨by simp [hq], by simp [hp], by simp [hp], by simp [hc]⟩
  · intro u
    refine ⟨?_, fun d hd => by cases hd⟩
    rw [hidle u]
    trivial

/-- **The protocol.** The assertions hold after every run. -/
theorem protocol [DecidableEq T] {ts : List T} (h : Run ts c) : Protocol c :=
  invariant (fun _ hinit => protocol_init hinit)
    (fun _ _ _ _ _ hok hat hact => protocol_step hok hat hact) h

end Steps

end Wdutf.Dpc
