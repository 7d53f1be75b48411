import Mathlib.Data.List.Basic
import Mathlib.Data.List.Nodup
import Mathlib.Data.List.Perm.Subperm
import Mathlib.Logic.Function.Basic
import Mathlib.Tactic.Common
import Wdutf.Dpc.Protocol

/-!
# Wdutf.Dpc.Ledger — where every insertion is

Every counted insertion is at one place: in the hands of a thread, in the pool,
or at its end, by a run of the routine or by a removal.

* `ledger_quiet`, `ledger_new`, `ledger_move` — the three things a step can do to
  the places;
* `ledger` — the places agree with the totals and with what was observed, after
  every run;
* `dpc_accounting` — nothing is lost and nothing is run twice.
-/

namespace Wdutf.Dpc

open Wdutf.Threads Wdutf.Transition

variable {D T A : Type}

/-- Where an insertion is. A removal holds it until it returns. -/
inductive Place (D T : Type) where
  | hand (t : T)
  | pool (d : D)
  | returning (t : T)
  | ran
  | removed

/-- Its completion has been counted. -/
def Place.Counted : Place D T → Prop
  | .hand _ => False
  | .pool _ => False
  | _ => True

/-- The insertions that a thread holds, until their completion is counted. -/
def Pc.holds : Pc D A → List ℕ
  | .insertSubmit _ k => [k]
  | .removeWaitWork _ c => c
  | .removeExchange _ c => c
  | .removeCount _ c => c
  | .callbackExchange _ k => [k]
  | .callbackDisassociate _ k => [k]
  | .callbackArgument1 _ k => [k]
  | .callbackArgument2 _ k _ => [k]
  | .callbackRoutine _ k => [k]
  | .callbackCount _ k => [k]
  | _ => []

/-- The insertions whose removal is about to return TRUE. -/
def Pc.returning : Pc D A → List ℕ
  | .removeClearCancel _ true c => c
  | _ => []

/-- The routine has been called. -/
def Pc.called : Pc D A → Bool
  | .callbackRoutine _ _ => true
  | .callbackCount _ _ => true
  | _ => false

/-- The insertion is one of the DPC. -/
def Owner (accepted : List (D × A × A)) (d : D) (k : ℕ) : Prop :=
  ∃ a, accepted[k]? = some (d, a)

/-- The insertions at a point of the program are those of its DPC. -/
def Pc.OwnerOk (accepted : List (D × A × A)) : Pc D A → Prop
  | .insertSubmit d k => Owner accepted d k
  | .insertLeave d k => Owner accepted d k
  | .removeWaitWork d c => ∀ k ∈ c, Owner accepted d k
  | .removeExchange d c => ∀ k ∈ c, Owner accepted d k
  | .removeCount d c => ∀ k ∈ c, Owner accepted d k
  | .removeClearCancel d _ c => ∀ k ∈ c, Owner accepted d k
  | .callbackExchange d k => Owner accepted d k
  | .callbackDisassociate d k => Owner accepted d k
  | .callbackArgument1 d k => Owner accepted d k
  | .callbackArgument2 d k _ => Owner accepted d k
  | .callbackRoutine d k => Owner accepted d k
  | .callbackCount d k => Owner accepted d k
  | _ => True

/-- The event is a run of the routine for the insertion. -/
def Event.isRun (k : ℕ) : Event D A → Bool
  | .run _ k' _ _ => k' == k
  | _ => false

/-- The event is the end of a removal of the insertion. -/
def Event.isRemoved (k : ℕ) : Event D A → Bool
  | .removed _ c => c.contains k
  | _ => false

/-- The number of runs of the routine for the insertion. -/
def runs (k : ℕ) (history : List (Event D A)) : ℕ := history.countP (Event.isRun k)

/-- The number of removals of the insertion that have returned TRUE. -/
def removals (k : ℕ) (history : List (Event D A)) : ℕ := history.countP (Event.isRemoved k)

/-- The events are about insertions of the DPC, and a removal is about one. -/
def EventOk (accepted : List (D × A × A)) : Event D A → Prop
  | .inserted d k => Owner accepted d k
  | .run d k _ _ => Owner accepted d k
  | .finished d k => Owner accepted d k
  | .dequeued d c => ∃ k, c = [k] ∧ Owner accepted d k
  | .removed d c => ∃ k, c = [k] ∧ Owner accepted d k

/-- The runs and removals of an insertion at a place other than a thread's hand. -/
def FateOk (history : List (Event D A)) (k : ℕ) : Place D T → Prop
  | .hand _ => True
  | .pool _ => runs k history = 0 ∧ removals k history = 0
  | .returning _ => runs k history = 0 ∧ removals k history = 0
  | .ran => runs k history = 1 ∧ removals k history = 0
  | .removed => runs k history = 0 ∧ removals k history = 1

/-- The places agree with the totals, the pool and the history. -/
structure LedgerOk (place : ℕ → Place D T) (s : Shared D T A) : Prop where
  accepted : s.accepted.length = s.dpcsQueued
  completed : s.done.length = s.dpcsCompleted
  nodup : s.done.Nodup
  pool : ∀ d k, k ∈ (s.dpc d).pending ↔ k < s.dpcsQueued ∧ place k = .pool d
  poolOwner : ∀ d, ∀ k ∈ (s.dpc d).pending, Owner s.accepted d k
  done : ∀ k, k ∈ s.done ↔ k < s.dpcsQueued ∧ (place k).Counted
  future : ∀ k, s.dpcsQueued ≤ k → runs k s.history = 0 ∧ removals k s.history = 0
  fate : ∀ k, k < s.dpcsQueued → FateOk s.history k (place k)
  events : ∀ e ∈ s.history, EventOk s.accepted e

/-- The places agree with a thread. -/
structure LedgerAt (t : T) (place : ℕ → Place D T) (s : Shared D T A) (l : Pc D A) : Prop where
  hand : ∀ k, k ∈ l.holds ↔ k < s.dpcsQueued ∧ place k = .hand t
  returning : ∀ k, k ∈ l.returning ↔ k < s.dpcsQueued ∧ place k = .returning t
  fate : ∀ k ∈ l.holds, runs k s.history = (if l.called then 1 else 0) ∧ removals k s.history = 0
  owner : l.OwnerOk s.accepted

theorem runs_cons (k : ℕ) (e : Event D A) (h : List (Event D A)) :
    runs k (e :: h) = runs k h + if e.isRun k then 1 else 0 := List.countP_cons

theorem removals_cons (k : ℕ) (e : Event D A) (h : List (Event D A)) :
    removals k (e :: h) = removals k h + if e.isRemoved k then 1 else 0 := List.countP_cons

theorem FateOk.congr {h h' : List (Event D A)} {k : ℕ} {p : Place D T} (hfate : FateOk h k p)
    (hruns : runs k h' = runs k h) (hremovals : removals k h' = removals k h) : FateOk h' k p := by
  cases p with
  | hand t => trivial
  | pool d => exact ⟨hruns.trans hfate.1, hremovals.trans hfate.2⟩
  | returning t => exact ⟨hruns.trans hfate.1, hremovals.trans hfate.2⟩
  | ran => exact ⟨hruns.trans hfate.1, hremovals.trans hfate.2⟩
  | removed => exact ⟨hruns.trans hfate.1, hremovals.trans hfate.2⟩

theorem Owner.lt {accepted : List (D × A × A)} {d : D} {k : ℕ} (h : Owner accepted d k) :
    k < accepted.length := by
  rcases h with ⟨a, ha⟩
  exact (List.getElem?_eq_some_iff.1 ha).1

theorem Owner.append {accepted : List (D × A × A)} {d : D} {k : ℕ} (h : Owner accepted d k)
    (more : List (D × A × A)) : Owner (accepted ++ more) d k := by
  rcases h with ⟨a, ha⟩
  exact ⟨a, by rw [List.getElem?_append_left (Owner.lt ⟨a, ha⟩), ha]⟩

theorem Pc.OwnerOk.append {accepted : List (D × A × A)} {l : Pc D A} (h : l.OwnerOk accepted)
    (more : List (D × A × A)) : l.OwnerOk (accepted ++ more) := by
  cases l <;> first
    | exact trivial
    | exact Owner.append h more
    | exact fun k hk => Owner.append (h k hk) more

theorem EventOk.append {accepted : List (D × A × A)} {e : Event D A} (h : EventOk accepted e)
    (more : List (D × A × A)) : EventOk (accepted ++ more) e := by
  cases e with
  | inserted d k => exact Owner.append h more
  | run d k a₁ a₂ => exact Owner.append h more
  | finished d k => exact Owner.append h more
  | dequeued d c =>
    rcases h with ⟨k, hc, hk⟩
    exact ⟨k, hc, hk.append more⟩
  | removed d c =>
    rcases h with ⟨k, hc, hk⟩
    exact ⟨k, hc, hk.append more⟩

/-! ## What a step can do -/

section Kinds

variable {place : ℕ → Place D T} {c : Conf (Shared D T A) T (Pc D A)} {t : T} {s' : Shared D T A}
variable {l l' : Pc D A}

/-- The conclusion of a step for the rule of `Wdutf.Lib.Threads`. -/
def LedgerStep (place : ℕ → Place D T) (c : Conf (Shared D T A) T (Pc D A)) (t : T)
    (s' : Shared D T A) (l' : Pc D A) : Prop :=
  ∃ place', LedgerOk place' s' ∧ LedgerAt t place' s' l' ∧
    ∀ u, u ≠ t → LedgerAt u place c.shared (c.pc u) → LedgerAt u place' s' (c.pc u)

/-- A step that moves no insertion; the history may grow by events that are
neither runs nor removals. -/
theorem ledger_quiet (hok : LedgerOk place c.shared) (hat : LedgerAt t place c.shared l)
    (hqueued : s'.dpcsQueued = c.shared.dpcsQueued)
    (hcompleted : s'.dpcsCompleted = c.shared.dpcsCompleted)
    (haccepted : s'.accepted = c.shared.accepted) (hdone : s'.done = c.shared.done)
    (hpending : ∀ d, (s'.dpc d).pending = (c.shared.dpc d).pending)
    (hruns : ∀ k, runs k s'.history = runs k c.shared.history)
    (hremovals : ∀ k, removals k s'.history = removals k c.shared.history)
    (hevents : ∀ e ∈ s'.history, e ∈ c.shared.history ∨ EventOk c.shared.accepted e)
    (hholds : l'.holds = l.holds) (hreturning : l'.returning = l.returning)
    (hcalled : ∀ k ∈ l.holds, l'.called = l.called) (howner : l'.OwnerOk c.shared.accepted) :
    LedgerStep place c t s' l' := by
  refine ⟨place, ?_, ?_, ?_⟩
  · constructor
    case accepted => rw [haccepted, hqueued]; exact hok.accepted
    case completed => rw [hdone, hcompleted]; exact hok.completed
    case nodup => rw [hdone]; exact hok.nodup
    case pool =>
      intro d k
      rw [hpending, hqueued]
      exact hok.pool d k
    case poolOwner =>
      intro d k hk
      rw [hpending] at hk
      rw [haccepted]
      exact hok.poolOwner d k hk
    case done =>
      intro k
      rw [hdone, hqueued]
      exact hok.done k
    case future =>
      intro k hk
      rw [hqueued] at hk
      rw [hruns, hremovals]
      exact hok.future k hk
    case fate =>
      intro k hk
      rw [hqueued] at hk
      exact (hok.fate k hk).congr (hruns k) (hremovals k)
    case events =>
      intro e he
      rw [haccepted]
      exact (hevents e he).elim (hok.events e) id
  · constructor
    case hand =>
      intro k
      rw [hholds, hqueued]
      exact hat.hand k
    case returning =>
      intro k
      rw [hreturning, hqueued]
      exact hat.returning k
    case fate =>
      intro k hk
      rw [hholds] at hk
      rw [hruns, hremovals, hcalled k hk]
      exact hat.fate k hk
    case owner => rw [haccepted]; exact howner
  · intro u _ hu
    constructor
    case hand => rw [hqueued]; exact hu.hand
    case returning => rw [hqueued]; exact hu.returning
    case fate =>
      intro k hk
      rw [hruns, hremovals]
      exact hu.fate k hk
    case owner => rw [haccepted]; exact hu.owner

/-- A new insertion is counted, and in the hands of its thread. -/
theorem ledger_new (hok : LedgerOk place c.shared) {d : D} {a : A × A}
    (hat : LedgerAt t place c.shared l) (hholds : l.holds = []) (hreturning : l.returning = []) :
    LedgerStep place c t
      { c.shared with
        dpcsQueued := c.shared.dpcsQueued + 1, accepted := c.shared.accepted ++ [(d, a)] }
      (.insertSubmit d c.shared.dpcsQueued) := by
  have hold : ∀ k, k < c.shared.dpcsQueued →
      Function.update place c.shared.dpcsQueued (.hand t) k = place k :=
    fun k hk => Function.update_of_ne (by omega) ..
  have hself : Function.update place c.shared.dpcsQueued (.hand t) c.shared.dpcsQueued = .hand t :=
    Function.update_self ..
  have hlt : ∀ k, k < c.shared.dpcsQueued + 1 ↔ k < c.shared.dpcsQueued ∨ k = c.shared.dpcsQueued :=
    fun k => Nat.lt_succ_iff_lt_or_eq
  -- a place other than the hand of the thread is that of an older insertion
  have hplace : ∀ k p, p ≠ .hand t →
      ((k < c.shared.dpcsQueued + 1 ∧ Function.update place c.shared.dpcsQueued (.hand t) k = p) ↔
        (k < c.shared.dpcsQueued ∧ place k = p)) := by
    intro k p hp
    rw [hlt]
    constructor
    · rintro ⟨hk | rfl, heq⟩
      · rw [hold k hk] at heq
        exact ⟨hk, heq⟩
      · rw [hself] at heq
        exact absurd heq.symm hp
    · rintro ⟨hk, heq⟩
      exact ⟨Or.inl hk, by rw [hold k hk, heq]⟩
  refine ⟨Function.update place c.shared.dpcsQueued (.hand t), ?_, ?_, ?_⟩
  · constructor
    case accepted =>
      show (c.shared.accepted ++ [(d, a)]).length = _
      rw [List.length_append, hok.accepted]
      rfl
    case completed => exact hok.completed
    case nodup => exact hok.nodup
    case pool =>
      intro d' k
      rw [hplace k (.pool d') (by simp)]
      exact hok.pool d' k
    case poolOwner => exact fun d' k hk => (hok.poolOwner d' k hk).append _
    case done =>
      intro k
      show k ∈ c.shared.done ↔ _
      rw [hok.done k, hlt]
      constructor
      · rintro ⟨hk, hcounted⟩
        exact ⟨Or.inl hk, by rwa [hold k hk]⟩
      · rintro ⟨hk | rfl, hcounted⟩
        · rw [hold k hk] at hcounted
          exact ⟨hk, hcounted⟩
        · rw [hself] at hcounted
          exact hcounted.elim
    case future => exact fun k hk => hok.future k (Nat.le_of_succ_le hk)
    case fate =>
      intro k hk
      rcases (hlt k).1 hk with hk | rfl
      · rw [hold k hk]
        exact hok.fate k hk
      · rw [hself]
        trivial
    case events => exact fun e he => (hok.events e he).append _
  · constructor
    case hand =>
      intro k
      show k ∈ [c.shared.dpcsQueued] ↔ k < c.shared.dpcsQueued + 1 ∧ _
      rw [List.mem_singleton, hlt]
      constructor
      · rintro rfl
        exact ⟨Or.inr rfl, hself⟩
      · rintro ⟨hk | rfl, heq⟩
        · rw [hold k hk] at heq
          have hmem := (hat.hand k).2 ⟨hk, heq⟩
          rw [hholds] at hmem
          cases hmem
        · rfl
    case returning =>
      intro k
      rw [hplace k (.returning t) (by simp), ← hat.returning k, hreturning]
      rfl
    case fate =>
      intro k hk
      rcases List.mem_singleton.1 hk with rfl
      exact hok.future _ (Nat.le_refl _)
    case owner =>
      refine ⟨a, ?_⟩
      show (c.shared.accepted ++ [(d, a)])[c.shared.dpcsQueued]? = _
      rw [← hok.accepted, List.getElem?_append_right (Nat.le_refl _), Nat.sub_self]
      rfl
  · intro u hu hother
    constructor
    case hand =>
      intro k
      rw [hplace k (.hand u) (by simpa using hu)]
      exact hother.hand k
    case returning =>
      intro k
      rw [hplace k (.returning u) (by simp)]
      exact hother.returning k
    case fate => exact hother.fate
    case owner => exact hother.owner.append _

/-- A counted insertion moves from one place to another, and nothing changes for
the others. -/
theorem ledger_move (hok : LedgerOk place c.shared) (hat : LedgerAt t place c.shared l) {k : ℕ}
    {p : Place D T} (hk : k < c.shared.dpcsQueued)
    (hqueued : s'.dpcsQueued = c.shared.dpcsQueued) (haccepted : s'.accepted = c.shared.accepted)
    (hfrom : ∀ u, u ≠ t → place k ≠ .hand u ∧ place k ≠ .returning u)
    (hto : ∀ u, u ≠ t → p ≠ .hand u ∧ p ≠ .returning u)
    (hcompleted : s'.done.length = s'.dpcsCompleted) (hnodup : s'.done.Nodup)
    (hpool : ∀ d j, j ∈ (s'.dpc d).pending ↔
      if j = k then p = .pool d else j ∈ (c.shared.dpc d).pending)
    (hpoolOwner : ∀ d, p = .pool d → Owner c.shared.accepted d k)
    (hdone : ∀ j, j ∈ s'.done ↔ if j = k then p.Counted else j ∈ c.shared.done)
    (hhistory : ∀ j, j ≠ k → runs j s'.history = runs j c.shared.history ∧
      removals j s'.history = removals j c.shared.history)
    (hfate : FateOk s'.history k p)
    (hevents : ∀ e ∈ s'.history, e ∈ c.shared.history ∨ EventOk c.shared.accepted e)
    (hholds : ∀ j, j ∈ l'.holds ↔ if j = k then p = .hand t else j ∈ l.holds)
    (hreturning : ∀ j, j ∈ l'.returning ↔ if j = k then p = .returning t else j ∈ l.returning)
    (hcalled : ∀ j ∈ l'.holds, runs j s'.history = (if l'.called then 1 else 0) ∧
      removals j s'.history = 0)
    (howner : l'.OwnerOk c.shared.accepted) : LedgerStep place c t s' l' := by
  have hold : ∀ j, j ≠ k → Function.update place k p j = place j :=
    fun j hj => Function.update_of_ne hj ..
  have hself : Function.update place k p k = p := Function.update_self ..
  refine ⟨Function.update place k p, ?_, ?_, ?_⟩
  · constructor
    case accepted => rw [haccepted, hqueued]; exact hok.accepted
    case completed => exact hcompleted
    case nodup => exact hnodup
    case pool =>
      intro d j
      rw [hpool, hqueued]
      by_cases hj : j = k
      · subst hj
        simp [hk]
      · rw [if_neg hj, hold j hj]
        exact hok.pool d j
    case poolOwner =>
      intro d j hmem
      rw [hpool] at hmem
      rw [haccepted]
      by_cases hj : j = k
      · rw [if_pos hj] at hmem
        rw [hj]
        exact hpoolOwner d hmem
      · rw [if_neg hj] at hmem
        exact hok.poolOwner d j hmem
    case done =>
      intro j
      rw [hdone, hqueued]
      by_cases hj : j = k
      · subst hj
        simp [hk]
      · rw [if_neg hj, hold j hj]
        exact hok.done j
    case future =>
      intro j hj
      rw [hqueued] at hj
      have hne : j ≠ k := by omega
      rw [(hhistory j hne).1, (hhistory j hne).2]
      exact hok.future j hj
    case fate =>
      intro j hj
      rw [hqueued] at hj
      by_cases hjk : j = k
      · rw [hjk, hself]
        exact hfate
      · rw [hold j hjk]
        exact (hok.fate j hj).congr (hhistory j hjk).1 (hhistory j hjk).2
    case events =>
      intro e he
      rw [haccepted]
      exact (hevents e he).elim (hok.events e) id
  · constructor
    case hand =>
      intro j
      rw [hholds, hqueued]
      by_cases hj : j = k
      · subst hj
        simp [hk]
      · rw [if_neg hj, hold j hj]
        exact hat.hand j
    case returning =>
      intro j
      rw [hreturning, hqueued]
      by_cases hj : j = k
      · subst hj
        simp [hk]
      · rw [if_neg hj, hold j hj]
        exact hat.returning j
    case fate => exact hcalled
    case owner => rw [haccepted]; exact howner
  · intro u hu hother
    constructor
    case hand =>
      intro j
      rw [hqueued]
      by_cases hj : j = k
      · subst hj
        rw [hself, hother.hand j]
        simp [(hto u hu).1, (hfrom u hu).1]
      · rw [hold j hj]
        exact hother.hand j
    case returning =>
      intro j
      rw [hqueued]
      by_cases hj : j = k
      · subst hj
        rw [hself, hother.returning j]
        simp [(hto u hu).2, (hfrom u hu).2]
      · rw [hold j hj]
        exact hother.returning j
    case fate =>
      intro j hj
      have hne : j ≠ k := by
        rintro rfl
        exact (hfrom u hu).1 ((hother.hand j).1 hj).2
      rw [(hhistory j hne).1, (hhistory j hne).2]
      exact hother.fate j hj
    case owner => rw [haccepted]; exact hother.owner

/-- A step that changes nothing but where the thread stands. -/
theorem ledger_same (hok : LedgerOk place c.shared) (hat : LedgerAt t place c.shared l)
    (hholds : l'.holds = l.holds) (hreturning : l'.returning = l.returning)
    (hcalled : ∀ k ∈ l.holds, l'.called = l.called) (howner : l'.OwnerOk c.shared.accepted) :
    LedgerStep place c t c.shared l' :=
  ledger_quiet hok hat rfl rfl rfl rfl (fun _ => rfl) (fun _ => rfl) (fun _ => rfl)
    (fun _ he => Or.inl he) hholds hreturning hcalled howner

variable [DecidableEq D]

theorem set_pending {s : Shared D T A} {d : D} {x : Kdpc T A} (hx : x.pending = (s.dpc d).pending)
    (d' : D) : ((s.set d x).dpc d').pending = (s.dpc d').pending := by
  by_cases hd : d' = d
  · rw [hd, set_dpc_self, hx]
  · rw [set_dpc_of_ne s x hd]

/-- A step that changes a DPC, but not what is pending. -/
theorem ledger_set (hok : LedgerOk place c.shared) (hat : LedgerAt t place c.shared l) {d : D}
    {x : Kdpc T A} (hx : x.pending = (c.shared.dpc d).pending) (hholds : l'.holds = l.holds)
    (hreturning : l'.returning = l.returning) (hcalled : ∀ k ∈ l.holds, l'.called = l.called)
    (howner : l'.OwnerOk c.shared.accepted) : LedgerStep place c t (c.shared.set d x) l' :=
  ledger_quiet hok hat rfl rfl rfl rfl (set_pending hx) (fun _ => rfl) (fun _ => rfl)
    (fun _ he => Or.inl he) hholds hreturning hcalled howner

/-- A step that changes a DPC and records an event that is no run and no removal. -/
theorem ledger_record (hok : LedgerOk place c.shared) (hat : LedgerAt t place c.shared l) {d : D}
    {x : Kdpc T A} (hx : x.pending = (c.shared.dpc d).pending) {e : Event D A}
    (hrun : ∀ k, e.isRun k = false) (hremoved : ∀ k, e.isRemoved k = false)
    (he : EventOk c.shared.accepted e) (hholds : l'.holds = l.holds)
    (hreturning : l'.returning = l.returning) (hcalled : ∀ k ∈ l.holds, l'.called = l.called)
    (howner : l'.OwnerOk c.shared.accepted) :
    LedgerStep place c t ((c.shared.set d x).record e) l' := by
  refine ledger_quiet hok hat rfl rfl rfl rfl (set_pending hx) (fun k => ?_) (fun k => ?_) ?_ hholds
    hreturning hcalled howner
  · exact (runs_cons k e _).trans (by rw [hrun k]; rfl)
  · exact (removals_cons k e _).trans (by rw [hremoved k]; rfl)
  · intro e' he'
    rcases List.mem_cons.1 he' with rfl | he'
    · exact Or.inr he
    · exact Or.inl he'

end Kinds

/-! ## Steps -/

section Steps

variable {place : ℕ → Place D T} {c : Conf (Shared D T A) T (Pc D A)} {t : T}
variable {s' : Shared D T A} {l' : Pc D A} {k : ℕ}

/-- The insertion that a thread holds is not at another thread. -/
theorem LedgerAt.elsewhere {l : Pc D A} (hat : LedgerAt t place c.shared l) (hk : k ∈ l.holds) :
    k < c.shared.dpcsQueued ∧ place k = .hand t ∧
      ∀ u, u ≠ t → place k ≠ .hand u ∧ place k ≠ .returning u := by
  rcases (hat.hand k).1 hk with ⟨hlt, hplace⟩
  refine ⟨hlt, hplace, fun u hu => ?_⟩
  rw [hplace]
  exact ⟨by simpa using Ne.symm hu, by simp⟩

theorem LedgerOk.not_pending (hok : LedgerOk place c.shared) (h : ∀ d, place k ≠ .pool d) (d : D) :
    k ∉ (c.shared.dpc d).pending := fun hmem => h d ((hok.pool d k).1 hmem).2

/-- What is done does not change when an uncounted insertion stays uncounted. -/
theorem LedgerOk.done_same (hok : LedgerOk place c.shared) {p : Place D T}
    (h : (place k).Counted ↔ p.Counted) (hk : k < c.shared.dpcsQueued) (j : ℕ) :
    j ∈ c.shared.done ↔ if j = k then p.Counted else j ∈ c.shared.done := by
  by_cases hj : j = k
  · rw [if_pos hj, hj, hok.done, h]
    exact and_iff_right hk
  · rw [if_neg hj]

/-- What is pending does not change when an insertion moves elsewhere. -/
theorem LedgerOk.pool_same (hok : LedgerOk place c.shared) {p : Place D T}
    (h : ∀ d, place k ≠ .pool d) (hp : ∀ d, p ≠ .pool d) (d : D) (j : ℕ) :
    j ∈ (c.shared.dpc d).pending ↔ if j = k then p = .pool d else j ∈ (c.shared.dpc d).pending := by
  by_cases hj : j = k
  · rw [if_pos hj, hj]
    simp [hok.not_pending h d, hp d]
  · rw [if_neg hj]

variable [DecidableEq D]

/-- The insertion comes to the pool. -/
theorem LedgerOk.pool_add (hok : LedgerOk place c.shared) (h : ∀ d, place k ≠ .pool d) {d : D}
    {x : Kdpc T A} (hx : x.pending = (c.shared.dpc d).pending ++ [k]) (d' : D) (j : ℕ) :
    j ∈ ((c.shared.set d x).dpc d').pending ↔
      if j = k then (.pool d : Place D T) = .pool d' else j ∈ (c.shared.dpc d').pending := by
  by_cases hd : d' = d
  · subst hd
    rw [set_dpc_self, hx, List.mem_append, List.mem_singleton]
    by_cases hj : j = k
    · simp [hj]
    · simp [hj]
  · rw [set_dpc_of_ne _ _ hd]
    by_cases hj : j = k
    · rw [if_pos hj, hj]
      simp [hok.not_pending h d', Ne.symm hd]
    · rw [if_neg hj]

/-- The only insertion in the pool is taken out. -/
theorem LedgerOk.pool_take (hok : LedgerOk place c.shared) {d : D}
    (hpending : (c.shared.dpc d).pending = [k]) {x : Kdpc T A} (hx : x.pending = []) {p : Place D T}
    (hp : ∀ d', p ≠ .pool d') (d' : D) (j : ℕ) :
    j ∈ ((c.shared.set d x).dpc d').pending ↔
      if j = k then p = .pool d' else j ∈ (c.shared.dpc d').pending := by
  by_cases hd : d' = d
  · subst hd
    rw [set_dpc_self, hx, hpending, List.mem_singleton]
    by_cases hj : j = k
    · simp [hj, hp d']
    · simp [hj]
  · rw [set_dpc_of_ne _ _ hd]
    by_cases hj : j = k
    · rw [if_pos hj, hj]
      have hplace : place k = .pool d := ((hok.pool d k).1 (by simp [hpending])).2
      have hmiss : k ∉ (c.shared.dpc d').pending := by
        intro hmem
        rw [((hok.pool d' k).1 hmem).2] at hplace
        injection hplace with heq
        exact hd heq
      simp [hmiss, hp d']
    · rw [if_neg hj]

/-- A thread takes the only pending insertion of a DPC. -/
theorem ledger_take (hok : LedgerOk place c.shared) {l : Pc D A} (hat : LedgerAt t place c.shared l)
    {d : D} (hpending : (c.shared.dpc d).pending = [k]) {x : Kdpc T A} (hx : x.pending = [])
    (hbefore : l.holds = []) (hholds : l'.holds = [k]) (hreturning : l'.returning = l.returning)
    (hcalled : l'.called = false) (howner : l'.OwnerOk c.shared.accepted) :
    LedgerStep place c t (c.shared.set d x) l' := by
  rcases (hok.pool d k).1 (by simp [hpending]) with ⟨hlt, hplace⟩
  have hfate := hok.fate k hlt
  rw [hplace] at hfate
  refine ledger_move (p := .hand t) hok hat hlt rfl rfl (fun u _ => by simp [hplace])
    (fun u hu => ⟨by simpa using Ne.symm hu, nofun⟩) hok.completed hok.nodup
    (hok.pool_take hpending hx (by simp)) (fun d' h => by cases h)
    (hok.done_same (by rw [hplace]; exact Iff.rfl) hlt) (fun _ _ => ⟨rfl, rfl⟩) trivial
    (fun _ he => Or.inl he) ?_ ?_ ?_ howner
  · intro j
    by_cases hj : j = k
    · simp [hholds, hj]
    · simp [hholds, hbefore, hj]
  · intro j
    rw [hreturning]
    by_cases hj : j = k
    · rw [if_pos hj, hj, hat.returning k, hplace]
      simp
    · rw [if_neg hj]
  · intro j hj
    rw [hholds, List.mem_singleton] at hj
    rw [hj, hcalled]
    exact hfate

omit [DecidableEq D] in
/-- The completion of an insertion is counted by the thread that has it. -/
theorem ledger_count (hok : LedgerOk place c.shared) {l : Pc D A}
    (hat : LedgerAt t place c.shared l) (hbefore : l.holds = [k]) (hidle : l.returning = [])
    {p : Place D T} (hcounted : p.Counted) (hto : ∀ u, u ≠ t → p ≠ .hand u ∧ p ≠ .returning u)
    (hfate : FateOk c.shared.history k p) (hholds : l'.holds = [])
    (hreturning : ∀ j, j ∈ l'.returning ↔ j = k ∧ p = .returning t)
    (howner : l'.OwnerOk c.shared.accepted) :
    LedgerStep place c t
      { c.shared with
        dpcsCompleted := c.shared.dpcsCompleted + 1, done := k :: c.shared.done } l' := by
  rcases hat.elsewhere (k := k) (by simp [hbefore]) with ⟨hlt, hplace, hfrom⟩
  have hnew : k ∉ c.shared.done := by
    intro hmem
    have hcounted := ((hok.done k).1 hmem).2
    rw [hplace] at hcounted
    exact hcounted
  have hnot : (∀ d, p ≠ .pool d) ∧ p ≠ .hand t := by
    refine ⟨fun d => ?_, ?_⟩ <;> rintro rfl <;> exact hcounted
  refine ledger_move (p := p) hok hat hlt rfl rfl hfrom hto ?_
    (List.nodup_cons.2 ⟨hnew, hok.nodup⟩) (hok.pool_same (by simp [hplace]) hnot.1)
    (fun d hd => absurd hd (hnot.1 d)) ?_ (fun _ _ => ⟨rfl, rfl⟩) hfate (fun _ he => Or.inl he)
    ?_ ?_ (by simp [hholds]) howner
  · show c.shared.done.length + 1 = _
    rw [hok.completed]
  · intro j
    by_cases hj : j = k
    · simp [hj, hcounted]
    · simp [hj]
  · intro j
    by_cases hj : j = k
    · simp [hholds, hj, hnot.2]
    · simp [hholds, hbefore, hj]
  · intro j
    rw [hreturning, hidle]
    by_cases hj : j = k
    · simp [hj]
    · simp [hj]

variable [DecidableEq T]

/-- Every step keeps the ledger. -/
theorem ledger_step (hprotocol : Protocol c) (hok : LedgerOk place c.shared)
    (hall : ∀ u, LedgerAt u place c.shared (c.pc u)) (hact : Act t c.shared (c.pc t) s' l') :
    LedgerStep place c t s' l' := by
  rcases hprotocol with ⟨g, hdpcs, hpoints⟩
  rcases hpoints t with ⟨hpoint, -⟩
  have hat := hall t
  generalize hl : c.pc t = l at hact hpoint hat
  cases hact with
  | insertCall d a₁ a₂ => exact ledger_same hok hat rfl rfl (fun _ _ => rfl) trivial
  | insertEnter _ => exact ledger_set hok hat rfl rfl rfl (fun _ _ => rfl) trivial
  | insertQueuedSet _ => exact ledger_same hok hat rfl rfl (fun _ _ => rfl) trivial
  | insertQueuedClear _ => exact ledger_same hok hat rfl rfl (fun _ _ => rfl) trivial
  | insertCancelSet _ => exact ledger_same hok hat rfl rfl (fun _ _ => rfl) trivial
  | insertCancelClear _ => exact ledger_same hok hat rfl rfl (fun _ _ => rfl) trivial
  | insertArgument1 => exact ledger_set hok hat rfl rfl rfl (fun _ _ => rfl) trivial
  | insertArgument2 => exact ledger_set hok hat rfl rfl rfl (fun _ _ => rfl) trivial
  | insertQueued => exact ledger_set hok hat rfl rfl rfl (fun _ _ => rfl) trivial
  | insertCount => exact ledger_new hok hat rfl rfl
  | @insertSubmit d k =>
    -- from the hand of the thread to the pool
    rcases hat.elsewhere (List.mem_singleton_self k) with ⟨hlt, hplace, hfrom⟩
    have hfate := hat.fate k (List.mem_singleton_self k)
    refine ledger_move (p := .pool d) hok hat hlt rfl rfl hfrom (fun u _ => ⟨nofun, nofun⟩)
      hok.completed hok.nodup (hok.pool_add (by simp [hplace]) rfl) ?_
      (hok.done_same (by rw [hplace]; exact Iff.rfl) hlt) (fun _ _ => ⟨rfl, rfl⟩) hfate
      (fun _ he => Or.inl he) ?_ ?_ (by simp [Pc.holds]) hat.owner
    · rintro d' ⟨⟩
      exact hat.owner
    · intro j
      by_cases hj : j = k
      · simp [Pc.holds, hj]
      · simp [Pc.holds, hj]
    · intro j
      simp [Pc.returning]
  | @insertLeave d k =>
    exact ledger_record (x := { c.shared.dpc d with lock := none }) (e := .inserted d k)
      hok hat rfl (fun _ => rfl) (fun _ => rfl) hat.owner rfl rfl (fun _ _ => rfl) trivial
  | refuse => exact ledger_set hok hat rfl rfl rfl (fun _ _ => rfl) trivial
  | removeCall d => exact ledger_same hok hat rfl rfl (fun _ _ => rfl) trivial
  | removeEnter _ => exact ledger_set hok hat rfl rfl rfl (fun _ _ => rfl) trivial
  | removeQueuedClear _ => exact ledger_same hok hat rfl rfl (fun _ _ => rfl) trivial
  | removeQueuedSet _ => exact ledger_same hok hat rfl rfl (fun _ _ => rfl) trivial
  | removeCancelSet _ => exact ledger_same hok hat rfl rfl (fun _ _ => rfl) trivial
  | removeCancelClear _ => exact ledger_same hok hat rfl rfl (fun _ _ => rfl) trivial
  | removeSetCancel => exact ledger_set hok hat rfl rfl rfl (fun _ _ => rfl) trivial
  | removeLeave => exact ledger_set hok hat rfl rfl rfl (fun _ _ => rfl) trivial
  | @removeCancelWork d =>
    cases hpending : (c.shared.dpc d).pending with
    | nil =>
      exact ledger_set hok hat hpending.symm rfl rfl (fun _ _ => rfl) nofun
    | cons k rest =>
      -- from the pool to the hand of the thread that removes it
      have hone := (hdpcs d).pending_eq (k := k) (by simp [hpending])
      rw [hpending] at hone
      rcases (List.cons.inj hone).2 with rfl
      refine ledger_take hok hat hpending rfl rfl rfl rfl rfl ?_
      intro j hj
      exact hok.poolOwner d j (hpending ▸ hj)
  | removeWaitWork _ => exact ledger_same hok hat rfl rfl (fun _ _ => rfl) hat.owner
  | @removeExchangeSet d cs hq =>
    have hone : ∃ k, cs = [k] := by
      rcases hpoint.2 with ⟨-, hnobody⟩ | ⟨k, hcs, -⟩
      · exact absurd hnobody ((hdpcs d).queued.1 hq)
      · exact ⟨k, hcs⟩
    rcases hone with ⟨k, rfl⟩
    exact ledger_record (x := { c.shared.dpc d with queued := false }) (e := .dequeued d [k])
      hok hat rfl (fun _ => rfl) (fun _ => rfl) ⟨k, rfl, hat.owner k (List.mem_singleton_self k)⟩
      rfl rfl (fun _ _ => rfl) hat.owner
  | @removeExchangeClear d cs hq =>
    have hnil : cs = [] := by
      rcases hpoint.2 with ⟨hcs, -⟩ | ⟨k, -, hentry⟩
      · exact hcs
      · exact absurd ((hdpcs d).queued.2 (by simp [hentry])) (by simp [hq])
    subst hnil
    exact ledger_set hok hat rfl rfl rfl (fun _ _ => rfl) nofun
  | @removeCount d cs =>
    -- the completion of the removed insertion is counted
    rcases hpoint with ⟨-, k, rfl⟩
    exact ledger_count (p := .returning t) hok hat rfl rfl trivial
      (fun u hu => ⟨nofun, by simpa using Ne.symm hu⟩) (hat.fate k (List.mem_singleton_self k))
      rfl (by simp [Pc.returning]) hat.owner
  | @removeReturnTrue d cs =>
    -- the removal has returned TRUE
    rcases hpoint.2.1 rfl with ⟨k, rfl⟩
    rcases (hat.returning k).1 (List.mem_singleton_self k) with ⟨hlt, hplace⟩
    have hfate := hok.fate k hlt
    rw [hplace] at hfate
    refine ledger_move (p := .removed) hok hat hlt rfl rfl ?_ (fun u _ => ⟨nofun, nofun⟩)
      hok.completed hok.nodup ?_ nofun (hok.done_same (by rw [hplace]; exact Iff.rfl) hlt) ?_ ?_ ?_
      ?_ ?_ nofun trivial
    · intro u hu
      rw [hplace]
      exact ⟨nofun, by simpa using Ne.symm hu⟩
    · intro d' j
      have hsame :=
        set_pending (s := c.shared) (x := { c.shared.dpc d with cancel := false }) rfl d'
      show j ∈ ((c.shared.set d _).dpc d').pending ↔ _
      rw [hsame]
      exact hok.pool_same (by simp [hplace]) (by simp) d' j
    · intro j hj
      refine ⟨(runs_cons j _ _).trans (by simp [Event.isRun]), ?_⟩
      refine (removals_cons j _ _).trans ?_
      simp [Event.isRemoved, hj]
    · refine ⟨(runs_cons k _ _).trans (by simpa [Event.isRun] using hfate.1), ?_⟩
      refine (removals_cons k _ _).trans ?_
      simpa [Event.isRemoved] using hfate.2
    · intro e he
      rcases List.mem_cons.1 he with rfl | he
      · exact Or.inr ⟨k, rfl, hat.owner k (List.mem_singleton_self k)⟩
      · exact Or.inl he
    · intro j
      simp [Pc.holds]
    · intro j
      by_cases hj : j = k
      · simp [Pc.returning, hj]
      · simp [Pc.returning, hj]
  | @removeReturnFalse d cs =>
    rcases hpoint.2.2 rfl with rfl
    exact ledger_set hok hat rfl rfl rfl (fun _ _ => rfl) trivial
  | callbackStart d k hmem =>
    -- from the pool to the hand of the callback
    have hpending := (hdpcs d).pending_eq hmem
    exact ledger_take hok hat hpending (by simp [hpending]) rfl rfl rfl rfl (hok.poolOwner d k hmem)
  | callbackExchange => exact ledger_set hok hat rfl rfl rfl (fun _ _ => rfl) hat.owner
  | callbackDisassociate => exact ledger_set hok hat rfl rfl rfl (fun _ _ => rfl) hat.owner
  | callbackArgument1 => exact ledger_same hok hat rfl rfl (fun _ _ => rfl) hat.owner
  | @callbackArgument2 d k a₁ =>
    -- the routine is called
    rcases hat.elsewhere (List.mem_singleton_self k) with ⟨hlt, hplace, hfrom⟩
    have hfate := hat.fate k (List.mem_singleton_self k)
    refine ledger_move (p := .hand t) hok hat hlt rfl rfl hfrom
      (fun u hu => ⟨by simpa using Ne.symm hu, nofun⟩) hok.completed hok.nodup
      (hok.pool_same (by simp [hplace]) (by simp)) nofun
      (hok.done_same (by rw [hplace]) hlt) ?_ trivial ?_ ?_ ?_ ?_ hat.owner
    · intro j hj
      refine ⟨(runs_cons j _ _).trans ?_, (removals_cons j _ _).trans (by simp [Event.isRemoved])⟩
      simp [Event.isRun, Ne.symm hj]
    · intro e he
      rcases List.mem_cons.1 he with rfl | he
      · exact Or.inr hat.owner
      · exact Or.inl he
    · intro j
      by_cases hj : j = k
      · simp [Pc.holds, hj]
      · simp [Pc.holds, hj]
    · intro j
      simp [Pc.returning]
    · intro j hj
      rcases List.mem_singleton.1 hj with rfl
      refine ⟨(runs_cons j _ _).trans ?_, (removals_cons j _ _).trans ?_⟩
      · simpa [Event.isRun, Pc.called] using hfate.1
      · simpa [Event.isRemoved] using hfate.2
  | @callbackRoutine d k =>
    refine ledger_quiet hok hat rfl rfl rfl rfl (fun _ => rfl) (fun j => ?_) (fun j => ?_) ?_
      rfl rfl (fun _ _ => rfl) hat.owner
    · exact (runs_cons j _ _).trans rfl
    · exact (removals_cons j _ _).trans rfl
    · intro e he
      rcases List.mem_cons.1 he with rfl | he
      · exact Or.inr hat.owner
      · exact Or.inl he
  | @callbackCount d k =>
    -- the completion of the run is counted
    exact ledger_count (p := .ran) hok hat rfl rfl trivial (fun u _ => ⟨nofun, nofun⟩)
      (hat.fate k (List.mem_singleton_self k)) rfl (by simp [Pc.returning]) trivial
  | flushCall => exact ledger_same hok hat rfl rfl (fun _ _ => rfl) trivial
  | flushRead => exact ledger_same hok hat rfl rfl (fun _ _ => rfl) trivial
  | flushWait _ => exact ledger_same hok hat rfl rfl (fun _ _ => rfl) trivial

/-- The places agree with everything else. -/
def Ledger (c : Conf (Shared D T A) T (Pc D A)) : Prop := Holds LedgerOk LedgerAt c

omit [DecidableEq D] [DecidableEq T] in
theorem ledger_init (h : Init c) : Ledger c := by
  rcases h with ⟨hidle, hqueued, hcompleted, haccepted, hdone, hhistory, hdpc⟩
  refine ⟨fun _ => .ran, ?_, ?_⟩
  · constructor
    case pool =>
      intro d k
      simp [(hdpc d).2.2.2.1]
    case poolOwner =>
      intro d k hk
      simp [(hdpc d).2.2.2.1] at hk
    all_goals simp [hqueued, hcompleted, haccepted, hdone, hhistory, runs, removals]
  · intro u
    rw [hidle u]
    constructor
    case owner => trivial
    all_goals simp [Pc.holds, Pc.returning]

/-- The ledger is right after every run. -/
theorem ledger {ts : List T} (h : Run ts c) : Ledger c :=
  invariant_of (fun htrace => protocol htrace) (fun _ hinit => ledger_init hinit)
    (fun _ _ _ _ _ hprotocol hok hall hact => ledger_step hprotocol hok hall hact) h

end Steps

/-! ## Returns of `KeInsertQueueDpc` -/

section Returns

/-- The insertion whose call is about to return TRUE. -/
def Pc.inserting : Pc D A → List ℕ
  | .insertSubmit _ k => [k]
  | .insertLeave _ k => [k]
  | _ => []

/-- Every insertion has returned at most once. -/
def ReturnsOk (_ : ℕ → Option T) (s : Shared D T A) : Prop :=
  (returnedTrue s.history).Nodup ∧ ∀ k ∈ returnedTrue s.history, k < s.dpcsQueued

/-- An insertion that has not returned is in the call of one thread. -/
def ReturnsAt (t : T) (inserter : ℕ → Option T) (s : Shared D T A) (l : Pc D A) : Prop :=
  ∀ k ∈ l.inserting, k < s.dpcsQueued ∧ inserter k = some t ∧ k ∉ returnedTrue s.history

variable {inserter : ℕ → Option T} {c : Conf (Shared D T A) T (Pc D A)} {t : T}
variable {s' : Shared D T A} {l l' : Pc D A}

/-- The conclusion of a step for the rule of `Wdutf.Lib.Threads`. -/
def ReturnsStep (inserter : ℕ → Option T) (c : Conf (Shared D T A) T (Pc D A)) (t : T)
    (s' : Shared D T A) (l' : Pc D A) : Prop :=
  ∃ inserter', ReturnsOk inserter' s' ∧ ReturnsAt t inserter' s' l' ∧
    ∀ u, u ≠ t → ReturnsAt u inserter c.shared (c.pc u) → ReturnsAt u inserter' s' (c.pc u)

/-- A step outside the end of `KeInsertQueueDpc`. -/
theorem returns_same (hok : ReturnsOk inserter c.shared) (hat : ReturnsAt t inserter c.shared l)
    (hqueued : s'.dpcsQueued = c.shared.dpcsQueued)
    (hreturned : returnedTrue s'.history = returnedTrue c.shared.history)
    (hinserting : ∀ k ∈ l'.inserting, k ∈ l.inserting) : ReturnsStep inserter c t s' l' := by
  refine ⟨inserter, ?_, ?_, ?_⟩
  · unfold ReturnsOk
    rw [hreturned, hqueued]
    exact hok
  · intro k hk
    rw [hreturned, hqueued]
    exact hat k (hinserting k hk)
  · intro u _ hu k hk
    rw [hreturned, hqueued]
    exact hu k hk

variable [DecidableEq D] [DecidableEq T]

theorem returns_step (hok : ReturnsOk inserter c.shared)
    (hall : ∀ u, ReturnsAt u inserter c.shared (c.pc u)) (hact : Act t c.shared (c.pc t) s' l') :
    ReturnsStep inserter c t s' l' := by
  have hat := hall t
  generalize hl : c.pc t = l at hact hat
  cases hact
  case insertCount d a₁ a₂ =>
    -- the new number is in the call of this thread
    have hfresh : ∀ k, k < c.shared.dpcsQueued →
        Function.update inserter c.shared.dpcsQueued (some t) k = inserter k :=
      fun k hk => Function.update_of_ne (by omega) ..
    refine ⟨Function.update inserter c.shared.dpcsQueued (some t), ?_, ?_, ?_⟩
    · exact ⟨hok.1, fun k hk => Nat.lt_succ_of_lt (hok.2 k hk)⟩
    · intro k hk
      rcases List.mem_singleton.1 hk with rfl
      exact ⟨Nat.lt_succ_self _, Function.update_self .., fun hmem => absurd (hok.2 _ hmem)
        (Nat.lt_irrefl _)⟩
    · intro u _ hu k hk
      rcases hu k hk with ⟨hlt, hby, hnot⟩
      exact ⟨Nat.lt_succ_of_lt hlt, by rw [hfresh k hlt, hby], hnot⟩
  case insertLeave d k =>
    rcases hat k (List.mem_singleton_self k) with ⟨hlt, hby, hnot⟩
    refine ⟨inserter, ⟨List.nodup_cons.2 ⟨hnot, hok.1⟩, ?_⟩, nofun, ?_⟩
    · intro j hj
      rcases List.mem_cons.1 hj with rfl | hj
      · exact hlt
      · exact hok.2 j hj
    · intro u hu hother j hj
      rcases hother j hj with ⟨hlt', hby', hnot'⟩
      refine ⟨hlt', hby', fun hmem => ?_⟩
      rcases List.mem_cons.1 hmem with rfl | hmem
      · rw [hby] at hby'
        exact hu (Option.some.inj hby').symm
      · exact hnot' hmem
  all_goals exact returns_same hok hat rfl rfl (by simp [Pc.inserting])

/-- No insertion returns TRUE twice. -/
theorem returns {ts : List T} (h : Run ts c) : (returnedTrue c.shared.history).Nodup := by
  have hholds : Holds (G := ℕ → Option T) ReturnsOk ReturnsAt c := by
    refine invariant ?_ ?_ h
    swap
    · intro inserter c t s' l' hok hall hact
      exact returns_step hok hall hact
    rintro c ⟨hidle, -, -, -, -, hhistory, -⟩
    refine ⟨fun _ => none, ?_, ?_⟩
    · simp [ReturnsOk, hhistory, returnedTrue]
    · intro u
      rw [hidle u]
      exact nofun
  rcases hholds with ⟨inserter, hok, -⟩
  exact hok.1

end Returns

/-! ## The accounting -/

/-- The insertion has not ended: it is counted, and neither a run of its routine
has begun nor has a removal of it returned TRUE. -/
def Unsettled (s : Shared D T A) (k : ℕ) : Prop :=
  runs k s.history = 0 ∧ removals k s.history = 0

/-- Nothing is pending, no routine is running and no call is in progress. -/
def Quiescent (c : Conf (Shared D T A) T (Pc D A)) : Prop :=
  (∀ t, c.pc t = .idle) ∧ ∀ d, (c.shared.dpc d).pending = []

/-- The books balance. -/
structure Accounting (c : Conf (Shared D T A) T (Pc D A)) : Prop where
  /-- Every insertion is matched by one run or by one removal that returned TRUE,
  and by nothing as long as it has not ended. -/
  matched : ∀ k, k < c.shared.accepted.length →
    Unsettled c.shared k ∨ runs k c.shared.history = 1 ∧ removals k c.shared.history = 0 ∨
      runs k c.shared.history = 0 ∧ removals k c.shared.history = 1
  /-- What returned TRUE, what ran and what was removed was an insertion of the
  same DPC, and a removal is of one insertion. -/
  events : ∀ e ∈ c.shared.history, EventOk c.shared.accepted e
  /-- Every return of TRUE is that of another insertion. -/
  returned : (returnedTrue c.shared.history).Nodup
  /-- At most one submission of a DPC is pending. -/
  pending : ∀ d, (c.shared.dpc d).pending.length ≤ 1
  /-- The totals. -/
  queued : c.shared.accepted.length = c.shared.dpcsQueued
  le : c.shared.dpcsCompleted ≤ c.shared.dpcsQueued
  /-- At rest nothing is outstanding. -/
  settled : Quiescent c → c.shared.dpcsCompleted = c.shared.dpcsQueued ∧
    ∀ k, k < c.shared.accepted.length → ¬ Unsettled c.shared k

section Accounting

variable [DecidableEq D] [DecidableEq T] {place : ℕ → Place D T}
  {c : Conf (Shared D T A) T (Pc D A)}

omit [DecidableEq D] [DecidableEq T] in
theorem LedgerOk.completed_le (hok : LedgerOk place c.shared) :
    c.shared.dpcsCompleted ≤ c.shared.dpcsQueued := by
  have hsub : c.shared.done ⊆ List.range c.shared.dpcsQueued :=
    fun k hk => List.mem_range.2 ((hok.done k).1 hk).1
  have := (hok.nodup.subperm hsub).length_le
  rwa [hok.completed, List.length_range] at this

omit [DecidableEq D] [DecidableEq T] in
/-- At rest every insertion has been counted as completed. -/
theorem LedgerOk.counted (hok : LedgerOk place c.shared)
    (hall : ∀ u, LedgerAt u place c.shared (c.pc u)) (hrest : Quiescent c) {k : ℕ}
    (hk : k < c.shared.dpcsQueued) : place k = .ran ∨ place k = .removed := by
  cases hplace : place k with
  | hand u =>
    have hmem := ((hall u).hand k).2 ⟨hk, hplace⟩
    rw [hrest.1 u] at hmem
    cases hmem
  | pool d =>
    have hmem := (hok.pool d k).2 ⟨hk, hplace⟩
    rw [hrest.2 d] at hmem
    cases hmem
  | returning u =>
    have hmem := ((hall u).returning k).2 ⟨hk, hplace⟩
    rw [hrest.1 u] at hmem
    cases hmem
  | ran => exact Or.inl rfl
  | removed => exact Or.inr rfl

omit [DecidableEq D] [DecidableEq T] in
theorem LedgerOk.matched (hok : LedgerOk place c.shared)
    (hall : ∀ u, LedgerAt u place c.shared (c.pc u)) {k : ℕ} (hk : k < c.shared.dpcsQueued) :
    Unsettled c.shared k ∨ runs k c.shared.history = 1 ∧ removals k c.shared.history = 0 ∨
      runs k c.shared.history = 0 ∧ removals k c.shared.history = 1 := by
  have hfate := hok.fate k hk
  cases hplace : place k with
  | hand u =>
    rcases (hall u).fate k (((hall u).hand k).2 ⟨hk, hplace⟩) with ⟨hruns, hremovals⟩
    by_cases hcalled : (c.pc u).called
    · rw [if_pos hcalled] at hruns
      exact Or.inr (Or.inl ⟨hruns, hremovals⟩)
    · rw [if_neg hcalled] at hruns
      exact Or.inl ⟨hruns, hremovals⟩
  | pool d =>
    rw [hplace] at hfate
    exact Or.inl hfate
  | returning u =>
    rw [hplace] at hfate
    exact Or.inl hfate
  | ran =>
    rw [hplace] at hfate
    exact Or.inr (Or.inl hfate)
  | removed =>
    rw [hplace] at hfate
    exact Or.inr (Or.inr hfate)

end Accounting

/-- **DPC accounting.** After every run nothing was lost and nothing was run twice. -/
theorem dpc_accounting [DecidableEq D] [DecidableEq T] (ts : List T)
    (c : Conf (Shared D T A) T (Pc D A)) (h : Run ts c) : Accounting c := by
  rcases protocol h with ⟨g, hdpcs, -⟩
  rcases ledger h with ⟨place, hok, hall⟩
  constructor
  case matched =>
    intro k hk
    rw [hok.accepted] at hk
    exact hok.matched hall hk
  case events => exact hok.events
  case returned => exact returns h
  case pending => exact fun d => (hdpcs d).one
  case queued => exact hok.accepted
  case le => exact hok.completed_le
  case settled =>
    intro hrest
    constructor
    · -- all of the queued insertions are among those that are done
      have hsub : List.range c.shared.dpcsQueued ⊆ c.shared.done := by
        intro k hk
        have hlt := List.mem_range.1 hk
        rw [hok.done]
        refine ⟨hlt, ?_⟩
        rcases hok.counted hall hrest hlt with hplace | hplace
        · rw [hplace]
          trivial
        · rw [hplace]
          trivial
      have hge := (List.nodup_range.subperm hsub).length_le
      rw [List.length_range, hok.completed] at hge
      exact Nat.le_antisymm hok.completed_le hge
    · intro k hk hunsettled
      rw [hok.accepted] at hk
      have hfate := hok.fate k hk
      rcases hok.counted hall hrest hk with hplace | hplace
      · rw [hplace] at hfate
        exact absurd (hunsettled.1.symm.trans hfate.1) (by decide)
      · rw [hplace] at hfate
        exact absurd (hunsettled.2.symm.trans hfate.2) (by decide)

/-- The shared data after `KeInitializeDpc`. -/
def initial (a : A) : Shared D T A :=
  ⟨fun _ => ⟨none, false, false, a, a, [], []⟩, 0, 0, [], [], []⟩

theorem run_initial [DecidableEq D] [DecidableEq T] (a : A) :
    Run (D := D) [] (⟨initial a, fun _ : T => .idle⟩ : Conf (Shared D T A) T (Pc D A)) :=
  Trace.start ⟨fun _ => rfl, rfl, rfl, rfl, rfl, rfl, fun _ => ⟨rfl, rfl, rfl, rfl, rfl⟩⟩

/-- A DPC is inserted and its routine is run; then it is inserted again and removed. -/
theorem dpc_accounting_rest :
    ∃ c : Conf (Shared Unit Bool Unit) Bool (Pc Unit Unit), Accounting c ∧ Quiescent c ∧
      c.shared.dpcsCompleted = 2 ∧ c.shared.history = [.removed () [1], .dequeued () [1],
        .inserted () 1, .finished () 0, .run () 0 () (), .inserted () 0] := by
  have h0 := run_initial (D := Unit) (T := Bool) ()
  have h1 := run_step h0 true (Act.insertCall () () ())
  have h2 := run_step h1 true (Act.insertEnter rfl)
  have h3 := run_step h2 true (Act.insertQueuedClear rfl)
  have h4 := run_step h3 true (Act.insertCancelClear rfl)
  have h5 := run_step h4 true Act.insertArgument1
  have h6 := run_step h5 true Act.insertArgument2
  have h7 := run_step h6 true Act.insertQueued
  have h8 := run_step h7 true Act.insertCount
  have h9 := run_step h8 true Act.insertSubmit
  have h10 := run_step h9 true Act.insertLeave
  -- the callback, on the other thread
  have h11 := run_step h10 false (Act.callbackStart () 0 (List.mem_singleton.2 rfl))
  have h12 := run_step h11 false Act.callbackExchange
  have h13 := run_step h12 false Act.callbackDisassociate
  have h14 := run_step h13 false Act.callbackArgument1
  have h15 := run_step h14 false Act.callbackArgument2
  have h16 := run_step h15 false Act.callbackRoutine
  have h17 := run_step h16 false Act.callbackCount
  -- the second insertion
  have h18 := run_step h17 true (Act.insertCall () () ())
  have h19 := run_step h18 true (Act.insertEnter rfl)
  have h20 := run_step h19 true (Act.insertQueuedClear rfl)
  have h21 := run_step h20 true (Act.insertCancelClear rfl)
  have h22 := run_step h21 true Act.insertArgument1
  have h23 := run_step h22 true Act.insertArgument2
  have h24 := run_step h23 true Act.insertQueued
  have h25 := run_step h24 true Act.insertCount
  have h26 := run_step h25 true Act.insertSubmit
  have h27 := run_step h26 true Act.insertLeave
  -- the removal
  have h28 := run_step h27 true (Act.removeCall ())
  have h29 := run_step h28 true (Act.removeEnter rfl)
  have h30 := run_step h29 true (Act.removeQueuedSet rfl)
  have h31 := run_step h30 true (Act.removeCancelClear rfl)
  have h32 := run_step h31 true Act.removeSetCancel
  have h33 := run_step h32 true Act.removeLeave
  have h34 := run_step h33 true Act.removeCancelWork
  have h35 := run_step h34 true (Act.removeWaitWork rfl)
  have h36 := run_step h35 true (Act.removeExchangeSet rfl)
  have h37 := run_step h36 true Act.removeCount
  have h38 := run_step h37 true Act.removeReturnTrue
  refine ⟨_, dpc_accounting _ _ h38, ⟨?_, fun _ => rfl⟩, rfl, rfl⟩
  intro t
  cases t <;> rfl

end Wdutf.Dpc
