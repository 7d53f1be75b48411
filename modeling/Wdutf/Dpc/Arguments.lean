import Mathlib.Data.List.Basic
import Mathlib.Logic.Function.Basic
import Mathlib.Tactic.Common
import Wdutf.Dpc.Ledger

/-!
# Wdutf.Dpc.Arguments — the arguments of a deferred routine

`DdkDpcCallback` clears `queued` before it reads the two arguments, so that the
DPC can be inserted again while the arguments of the run are still in it.

* `NoRace` — an argument is not written while a callback has yet to read it;
* `dpc_arguments` — in every run without such a write, each run of the routine
  gets the arguments of its insertion;
* `arguments_overwritten` — a run in which it gets those of the next insertion.
-/

namespace Wdutf.Dpc

open Wdutf.Threads Wdutf.Transition

variable {D T A : Type}

/-- The routine was run with the arguments of the insertion. -/
def ArgumentsKept (s : Shared D T A) : Prop :=
  ∀ d k a₁ a₂, .run d k a₁ a₂ ∈ s.history → s.accepted[k]? = some (d, a₁, a₂)

/-- A callback that has cleared `queued` has yet to read the argument that the thread
writes next. -/
def Overwrites : Pc D A → Pc D A → Prop
  | .insertArgument1 d _ _, .callbackDisassociate d' _ => d' = d
  | .insertArgument1 d _ _, .callbackArgument1 d' _ => d' = d
  | .insertArgument2 d _ _, .callbackDisassociate d' _ => d' = d
  | .insertArgument2 d _ _, .callbackArgument1 d' _ => d' = d
  | .insertArgument2 d _ _, .callbackArgument2 d' _ _ => d' = d
  | _, _ => False

/-- The next step of the thread writes no argument that a callback has yet to read. -/
def NoRace (c : Conf (Shared D T A) T (Pc D A)) (t : T) : Prop :=
  ∀ u, ¬ Overwrites (c.pc t) (c.pc u)

/-- The arguments are those of the insertion, at a point of the program. -/
def ArgumentsAt (_ : T) (_ : Unit) (s : Shared D T A) : Pc D A → Prop
  | .insertArgument2 d a₁ _ => (s.dpc d).systemArgument1 = a₁
  | .insertQueued d a₁ a₂ => (s.dpc d).systemArgument1 = a₁ ∧ (s.dpc d).systemArgument2 = a₂
  | .insertCount d a₁ a₂ => (s.dpc d).systemArgument1 = a₁ ∧ (s.dpc d).systemArgument2 = a₂
  | .insertSubmit d k =>
    s.accepted[k]? = some (d, (s.dpc d).systemArgument1, (s.dpc d).systemArgument2)
  | .callbackExchange d k =>
    s.accepted[k]? = some (d, (s.dpc d).systemArgument1, (s.dpc d).systemArgument2)
  | .callbackDisassociate d k =>
    s.accepted[k]? = some (d, (s.dpc d).systemArgument1, (s.dpc d).systemArgument2)
  | .callbackArgument1 d k =>
    s.accepted[k]? = some (d, (s.dpc d).systemArgument1, (s.dpc d).systemArgument2)
  | .callbackArgument2 d k a₁ => s.accepted[k]? = some (d, a₁, (s.dpc d).systemArgument2)
  | _ => True

/-- The arguments are those of the insertion, in the pool and in what was observed. -/
structure ArgumentsOk (_ : Unit) (s : Shared D T A) : Prop where
  pending : ∀ d, ∀ k ∈ (s.dpc d).pending,
    s.accepted[k]? = some (d, (s.dpc d).systemArgument1, (s.dpc d).systemArgument2)
  kept : ArgumentsKept s

section Steps

variable {c : Conf (Shared D T A) T (Pc D A)} {t : T} {s' : Shared D T A} {l l' : Pc D A}

/-- The conclusion of a step for the rule of `Wdutf.Lib.Threads`. -/
def ArgumentsStep (c : Conf (Shared D T A) T (Pc D A)) (t : T) (s' : Shared D T A) (l' : Pc D A) :
    Prop :=
  ∃ g', ArgumentsOk g' s' ∧ ArgumentsAt t g' s' l' ∧
    ∀ u, u ≠ t → ArgumentsAt u () c.shared (c.pc u) → ArgumentsAt u g' s' (c.pc u)

theorem accepted_append {accepted : List (D × A × A)} {k : ℕ} {x : D × A × A}
    (h : accepted[k]? = some x) (more : List (D × A × A)) : (accepted ++ more)[k]? = some x := by
  rw [List.getElem?_append_left (List.getElem?_eq_some_iff.1 h).1, h]

theorem mem_of_record {s : Shared D T A} {e e' : Event D A}
    (h : e ∈ (s.record e').history) (hne : e ≠ e') : e ∈ s.history := List.mem_of_ne_of_mem hne h

/-- A point keeps its assertion when the arguments of its DPC stay. -/
theorem argumentsAt_stable {u : T}
    (hargs : ∀ d, (s'.dpc d).systemArgument1 = (c.shared.dpc d).systemArgument1 ∧
      (s'.dpc d).systemArgument2 = (c.shared.dpc d).systemArgument2)
    (haccepted : ∃ more, s'.accepted = c.shared.accepted ++ more)
    (h : ArgumentsAt u () c.shared l) : ArgumentsAt u () s' l := by
  rcases haccepted with ⟨more, hmore⟩
  cases l with
  | insertArgument2 d a₁ a₂ => exact (hargs d).1.trans h
  | insertQueued d a₁ a₂ => exact ⟨(hargs d).1.trans h.1, (hargs d).2.trans h.2⟩
  | insertCount d a₁ a₂ => exact ⟨(hargs d).1.trans h.1, (hargs d).2.trans h.2⟩
  | insertSubmit d k =>
    show s'.accepted[k]? = _
    rw [(hargs d).1, (hargs d).2, hmore]
    exact accepted_append h more
  | callbackExchange d k =>
    show s'.accepted[k]? = _
    rw [(hargs d).1, (hargs d).2, hmore]
    exact accepted_append h more
  | callbackDisassociate d k =>
    show s'.accepted[k]? = _
    rw [(hargs d).1, (hargs d).2, hmore]
    exact accepted_append h more
  | callbackArgument1 d k =>
    show s'.accepted[k]? = _
    rw [(hargs d).1, (hargs d).2, hmore]
    exact accepted_append h more
  | callbackArgument2 d k a₁ =>
    show s'.accepted[k]? = _
    rw [(hargs d).2, hmore]
    exact accepted_append h more
  | _ => trivial

/-- A step that writes no argument. -/
theorem arguments_same (hok : ArgumentsOk () c.shared)
    (hargs : ∀ d, (s'.dpc d).systemArgument1 = (c.shared.dpc d).systemArgument1 ∧
      (s'.dpc d).systemArgument2 = (c.shared.dpc d).systemArgument2)
    (haccepted : ∃ more, s'.accepted = c.shared.accepted ++ more)
    (hpending : ∀ d, ∀ k ∈ (s'.dpc d).pending, k ∈ (c.shared.dpc d).pending ∨
      c.shared.accepted[k]? = some (d, (c.shared.dpc d).systemArgument1,
        (c.shared.dpc d).systemArgument2))
    (hhistory : ∀ d k a₁ a₂, .run d k a₁ a₂ ∈ s'.history → .run d k a₁ a₂ ∈ c.shared.history ∨
      c.shared.accepted[k]? = some (d, a₁, a₂))
    (hat : ArgumentsAt t () s' l') : ArgumentsStep c t s' l' := by
  rcases haccepted with ⟨more, hmore⟩
  refine ⟨(), ⟨?_, ?_⟩, hat, fun u _ hu => argumentsAt_stable hargs ⟨more, hmore⟩ hu⟩
  · intro d k hk
    rw [(hargs d).1, (hargs d).2, hmore]
    exact accepted_append ((hpending d k hk).elim (hok.pending d k) id) more
  · intro d k a₁ a₂ hmem
    rw [hmore]
    exact accepted_append ((hhistory d k a₁ a₂ hmem).elim (hok.kept d k a₁ a₂) id) more

variable [DecidableEq D]

/-- A step that changes a DPC, but not its arguments, and adds nothing to what is
pending. -/
theorem arguments_set (hok : ArgumentsOk () c.shared) {d : D} {x : Kdpc T A}
    (hdpc : s'.dpc = Function.update c.shared.dpc d x) (haccepted : s'.accepted = c.shared.accepted)
    (h₁ : x.systemArgument1 = (c.shared.dpc d).systemArgument1)
    (h₂ : x.systemArgument2 = (c.shared.dpc d).systemArgument2)
    (hpending : ∀ k ∈ x.pending, k ∈ (c.shared.dpc d).pending ∨
      c.shared.accepted[k]? = some (d, (c.shared.dpc d).systemArgument1,
        (c.shared.dpc d).systemArgument2))
    (hhistory : ∀ d k a₁ a₂, .run d k a₁ a₂ ∈ s'.history → .run d k a₁ a₂ ∈ c.shared.history)
    (hat : ArgumentsAt t () s' l') : ArgumentsStep c t s' l' := by
  refine arguments_same hok ?_ ⟨[], by rw [haccepted, List.append_nil]⟩ ?_
    (fun d k a₁ a₂ hmem => Or.inl (hhistory d k a₁ a₂ hmem)) hat
  · intro d'
    rw [hdpc]
    by_cases hd : d' = d
    · rw [hd, Function.update_self]
      exact ⟨h₁, h₂⟩
    · rw [Function.update_of_ne hd]
      exact ⟨rfl, rfl⟩
  · intro d' k hk
    rw [hdpc] at hk
    by_cases hd : d' = d
    · rw [hd, Function.update_self] at hk
      rw [hd]
      exact hpending k hk
    · rw [Function.update_of_ne hd] at hk
      exact Or.inl hk

/-- A write of an argument under the lock, with the DPC not queued: only a callback
that has cleared `queued` could be disturbed. -/
theorem arguments_write {g : Ghost D T} (hok : ArgumentsOk () c.shared) (hdpcs : DpcsOk g c.shared)
    (hpoints : ∀ u, AtPoint u g c.shared (c.pc u)) {d : D} {x : Kdpc T A}
    (hlock : (c.shared.dpc d).lock = some t) (hqueued : (c.shared.dpc d).queued = false)
    (hx : x.pending = (c.shared.dpc d).pending)
    (hreader : ∀ u k, c.pc u ≠ .callbackDisassociate d k ∧ c.pc u ≠ .callbackArgument1 d k)
    (hreader₂ : (∀ u k a₁, c.pc u ≠ .callbackArgument2 d k a₁) ∨
      x.systemArgument2 = (c.shared.dpc d).systemArgument2)
    (hat : ArgumentsAt t () (c.shared.set d x) l') : ArgumentsStep c t (c.shared.set d x) l' := by
  have hnobody : g.entry d = .nobody := by simpa [hqueued] using (hdpcs d).queued
  have hpending : (c.shared.dpc d).pending = [] := by simpa [hnobody] using (hdpcs d).pending
  have hother : ∀ d', d' ≠ d → (c.shared.set d x).dpc d' = c.shared.dpc d' :=
    fun d' hd => set_dpc_of_ne c.shared x hd
  refine ⟨(), ⟨?_, hok.kept⟩, hat, ?_⟩
  · intro d' k hk
    by_cases hd : d' = d
    · rw [hd, set_dpc_self, hx, hpending] at hk
      cases hk
    · rw [hother d' hd] at hk ⊢
      exact hok.pending d' k hk
  · intro u hu h
    rcases hpoints u with ⟨hpoint, -⟩
    have hmine : (c.shared.dpc d).lock ≠ some u := by
      rw [hlock]
      exact fun heq => hu (Option.some.inj heq).symm
    generalize hl : c.pc u = m at h hpoint
    cases m with
    | insertArgument2 d' a₁ a₂ =>
      have hd : d' ≠ d := fun heq => hmine (heq ▸ hpoint.1)
      show ((c.shared.set d x).dpc d').systemArgument1 = _
      rw [hother d' hd]
      exact h
    | insertQueued d' a₁ a₂ =>
      have hd : d' ≠ d := fun heq => hmine (heq ▸ hpoint.1)
      show ((c.shared.set d x).dpc d').systemArgument1 = _ ∧
        ((c.shared.set d x).dpc d').systemArgument2 = _
      rw [hother d' hd]
      exact h
    | insertCount d' a₁ a₂ =>
      have hd : d' ≠ d := fun heq => hmine (heq ▸ hpoint.1)
      show ((c.shared.set d x).dpc d').systemArgument1 = _ ∧
        ((c.shared.set d x).dpc d').systemArgument2 = _
      rw [hother d' hd]
      exact h
    | insertSubmit d' k =>
      have hd : d' ≠ d := fun heq => hmine (heq ▸ hpoint.1)
      show c.shared.accepted[k]? = some (d', ((c.shared.set d x).dpc d').systemArgument1, _)
      rw [hother d' hd]
      exact h
    | callbackExchange d' k =>
      -- the callback would have the entry
      have hd : d' ≠ d := by
        rintro rfl
        have hentry := hpoint.1
        rw [hnobody] at hentry
        cases hentry
      show c.shared.accepted[k]? = some (d', ((c.shared.set d x).dpc d').systemArgument1, _)
      rw [hother d' hd]
      exact h
    | callbackDisassociate d' k =>
      have hd : d' ≠ d := by
        rintro rfl
        exact (hreader u k).1 hl
      show c.shared.accepted[k]? = some (d', ((c.shared.set d x).dpc d').systemArgument1, _)
      rw [hother d' hd]
      exact h
    | callbackArgument1 d' k =>
      have hd : d' ≠ d := by
        rintro rfl
        exact (hreader u k).2 hl
      show c.shared.accepted[k]? = some (d', ((c.shared.set d x).dpc d').systemArgument1, _)
      rw [hother d' hd]
      exact h
    | callbackArgument2 d' k a₁ =>
      show c.shared.accepted[k]? = some (d', a₁, ((c.shared.set d x).dpc d').systemArgument2)
      by_cases hd : d' = d
      · rcases hreader₂ with hnone | hsame
        · exact absurd (hd ▸ hl) (hnone u k a₁)
        · rw [hd, set_dpc_self, hsame, ← hd]
          exact h
      · rw [hother d' hd]
        exact h
    | _ => trivial

variable [DecidableEq T]

/-- Every step that overwrites nothing keeps the arguments. -/
theorem arguments_step (hprotocol : Protocol c) (hledger : Ledger c) (hrace : NoRace c t)
    (hok : ArgumentsOk () c.shared) (hall : ∀ u, ArgumentsAt u () c.shared (c.pc u))
    (hact : Act t c.shared (c.pc t) s' l') : ArgumentsStep c t s' l' := by
  rcases hprotocol with ⟨g, hdpcs, hpoints⟩
  rcases hledger with ⟨place, hbooks, -⟩
  rcases hpoints t with ⟨hpoint, -⟩
  have hat := hall t
  unfold NoRace at hrace
  generalize hl : c.pc t = l at hact hpoint hat hrace
  cases hact
  case insertArgument1 d a₁ a₂ =>
    refine arguments_write hok hdpcs hpoints hpoint.1 hpoint.2.1 rfl ?_ (Or.inr rfl) ?_
    · intro u k
      constructor
      · intro hu
        exact hrace u (by rw [hu]; exact rfl)
      · intro hu
        exact hrace u (by rw [hu]; exact rfl)
    · show ((c.shared.set d _).dpc d).systemArgument1 = a₁
      rw [set_dpc_self]
  case insertArgument2 d a₁ a₂ =>
    refine arguments_write hok hdpcs hpoints hpoint.1 hpoint.2.1 rfl ?_ (Or.inl ?_) ?_
    · intro u k
      constructor
      · intro hu
        exact hrace u (by rw [hu]; exact rfl)
      · intro hu
        exact hrace u (by rw [hu]; exact rfl)
    · intro u k a hu
      exact hrace u (by rw [hu]; exact rfl)
    · show ((c.shared.set d _).dpc d).systemArgument1 = a₁ ∧
        ((c.shared.set d _).dpc d).systemArgument2 = a₂
      rw [set_dpc_self]
      exact ⟨hat, rfl⟩
  case insertCount d a₁ a₂ =>
    refine arguments_same hok (fun _ => ⟨rfl, rfl⟩) ⟨[(d, a₁, a₂)], rfl⟩ (fun _ _ hk => Or.inl hk)
      (fun _ _ _ _ hmem => Or.inl hmem) ?_
    show (c.shared.accepted ++ [(d, a₁, a₂)])[c.shared.dpcsQueued]? = _
    rw [← hbooks.accepted, List.getElem?_append_right (Nat.le_refl _), Nat.sub_self, hat.1, hat.2]
    rfl
  case insertSubmit d k =>
    refine arguments_set (d := d) hok rfl rfl rfl rfl ?_ (fun _ _ _ _ hmem => hmem) trivial
    intro j hj
    rcases List.mem_append.1 hj with hj | hj
    · exact Or.inl hj
    · rw [List.mem_singleton.1 hj]
      exact Or.inr hat
  case insertQueued d a₁ a₂ =>
    refine arguments_set (d := d) hok rfl rfl rfl rfl (fun _ hj => Or.inl hj)
      (fun _ _ _ _ hmem => hmem) ?_
    show ((c.shared.set d _).dpc d).systemArgument1 = a₁ ∧
      ((c.shared.set d _).dpc d).systemArgument2 = a₂
    rw [set_dpc_self]
    exact hat
  case removeCancelWork d =>
    exact arguments_set (d := d) hok rfl rfl rfl rfl nofun (fun _ _ _ _ hmem => hmem) trivial
  case callbackStart d k hmem =>
    refine arguments_set (d := d) hok rfl rfl rfl rfl
      (fun _ hj => Or.inl (List.mem_of_mem_erase hj))
      (fun _ _ _ _ hrun => hrun) ?_
    show c.shared.accepted[k]? = some (d, ((c.shared.set d _).dpc d).systemArgument1, _)
    rw [set_dpc_self]
    exact hok.pending d k hmem
  case callbackExchange d k =>
    refine arguments_set (d := d) hok rfl rfl rfl rfl (fun _ hj => Or.inl hj)
      (fun _ _ _ _ hmem => hmem) ?_
    show c.shared.accepted[k]? = some (d, ((c.shared.set d _).dpc d).systemArgument1, _)
    rw [set_dpc_self]
    exact hat
  case callbackDisassociate d k =>
    refine arguments_set (d := d) hok rfl rfl rfl rfl (fun _ hj => Or.inl hj)
      (fun _ _ _ _ hmem => hmem) ?_
    show c.shared.accepted[k]? = some (d, ((c.shared.set d _).dpc d).systemArgument1, _)
    rw [set_dpc_self]
    exact hat
  case callbackArgument1 d k =>
    exact arguments_same hok (fun _ => ⟨rfl, rfl⟩) ⟨[], (List.append_nil _).symm⟩
      (fun _ _ hk => Or.inl hk) (fun _ _ _ _ hmem => Or.inl hmem) hat
  case callbackArgument2 d k a₁ =>
    -- the routine gets what was read
    refine arguments_same hok (fun _ => ⟨rfl, rfl⟩) ⟨[], (List.append_nil _).symm⟩
      (fun _ _ hk => Or.inl hk) ?_ trivial
    intro d' k' b₁ b₂ hmem
    rcases List.mem_cons.1 hmem with heq | hmem
    · injection heq with hd hk h₁ h₂
      rw [hd, hk, h₁, h₂]
      exact Or.inr hat
    · exact Or.inl hmem
  case insertLeave d k =>
    exact arguments_set (d := d) hok rfl rfl rfl rfl (fun _ hj => Or.inl hj)
      (fun _ _ _ _ hmem => mem_of_record hmem nofun) trivial
  case removeExchangeSet d cs _ =>
    exact arguments_set (d := d) hok rfl rfl rfl rfl (fun _ hj => Or.inl hj)
      (fun _ _ _ _ hmem => mem_of_record hmem nofun) trivial
  case removeReturnTrue d cs =>
    exact arguments_set (d := d) hok rfl rfl rfl rfl (fun _ hj => Or.inl hj)
      (fun _ _ _ _ hmem => mem_of_record hmem nofun) trivial
  case callbackRoutine d k =>
    exact arguments_same hok (fun _ => ⟨rfl, rfl⟩) ⟨[], (List.append_nil _).symm⟩
      (fun _ _ hk => Or.inl hk) (fun _ _ _ _ hmem => Or.inl (mem_of_record hmem nofun)) trivial
  -- the other steps change a lock or a flag, or nothing but where the thread stands
  case insertEnter d _ _ _ =>
    exact arguments_set (d := d) hok rfl rfl rfl rfl (fun _ hj => Or.inl hj)
      (fun _ _ _ _ hmem => hmem) trivial
  case refuse d =>
    exact arguments_set (d := d) hok rfl rfl rfl rfl (fun _ hj => Or.inl hj)
      (fun _ _ _ _ hmem => hmem) trivial
  case removeEnter d _ =>
    exact arguments_set (d := d) hok rfl rfl rfl rfl (fun _ hj => Or.inl hj)
      (fun _ _ _ _ hmem => hmem) trivial
  case removeSetCancel d =>
    exact arguments_set (d := d) hok rfl rfl rfl rfl (fun _ hj => Or.inl hj)
      (fun _ _ _ _ hmem => hmem) trivial
  case removeLeave d =>
    exact arguments_set (d := d) hok rfl rfl rfl rfl (fun _ hj => Or.inl hj)
      (fun _ _ _ _ hmem => hmem) trivial
  case removeExchangeClear d _ _ =>
    exact arguments_set (d := d) hok rfl rfl rfl rfl (fun _ hj => Or.inl hj)
      (fun _ _ _ _ hmem => hmem) trivial
  case removeReturnFalse d _ =>
    exact arguments_set (d := d) hok rfl rfl rfl rfl (fun _ hj => Or.inl hj)
      (fun _ _ _ _ hmem => hmem) trivial
  all_goals
    exact arguments_same hok (fun _ => ⟨rfl, rfl⟩) ⟨[], (List.append_nil _).symm⟩
      (fun _ _ hk => Or.inl hk) (fun _ _ _ _ hmem => Or.inl hmem) trivial

end Steps

/-- A run in which no argument is written while a callback has yet to read it. -/
abbrev RaceFreeRun [DecidableEq D] [DecidableEq T] :
    List T → Conf (Shared D T A) T (Pc D A) → Prop :=
  Trace Init fun c t c' => NoRace c t ∧ Step Act c t c'

/-- **DPC arguments.** In every run in which no argument is written while a callback
that has cleared `queued` has yet to read it, each run of the routine gets the
arguments of its insertion. -/
theorem dpc_arguments [DecidableEq D] [DecidableEq T] (ts : List T)
    (c : Conf (Shared D T A) T (Pc D A)) (h : RaceFreeRun ts c) : ArgumentsKept c.shared := by
  have hholds : Holds ArgumentsOk ArgumentsAt c := by
    induction h with
    | start hinit =>
      rcases hinit with ⟨hidle, -, -, -, -, hhistory, hdpc⟩
      refine ⟨(), ⟨?_, ?_⟩, ?_⟩
      · intro d k hk
        rw [(hdpc d).2.2.2.1] at hk
        cases hk
      · intro d k a₁ a₂ hmem
        rw [hhistory] at hmem
        cases hmem
      · intro u
        rw [hidle u]
        trivial
    | snoc htrace hnext ih =>
      have hrun := htrace.mono fun _ _ _ hs => hs.2
      refine holds_step (fun c t => Protocol c ∧ Ledger c ∧ NoRace c t) ?_
        ⟨protocol hrun, ledger hrun, hnext.1⟩ ih hnext.2
      rintro g c t s l ⟨hprotocol, hledger, hrace⟩ hok hall hact
      exact arguments_step hprotocol hledger hrace hok hall hact
  rcases hholds with ⟨g, hok, -⟩
  exact hok.kept

/-- A DPC is inserted with the arguments 1 and 2, and its routine is run with them. -/
theorem dpc_arguments_run :
    ∃ c : Conf (Shared Unit Bool ℕ) Bool (Pc Unit ℕ), ArgumentsKept c.shared ∧
      c.shared.accepted = [((), 1, 2)] ∧
      c.shared.history = [.run () 0 1 2, .inserted () 0] := by
  have snoc : ∀ {ts : List Bool} {c : Conf (Shared Unit Bool ℕ) Bool (Pc Unit ℕ)},
      RaceFreeRun ts c → ∀ (t : Bool) {s' : Shared Unit Bool ℕ} {l' : Pc Unit ℕ},
      Act t c.shared (c.pc t) s' l' → NoRace c t →
      RaceFreeRun (ts ++ [t]) ⟨s', Function.update c.pc t l'⟩ :=
    fun h _ _ _ hact hrace => h.snoc ⟨hrace, _, _, hact, rfl⟩
  have h0 : RaceFreeRun []
      (⟨initial 0, fun _ => .idle⟩ : Conf (Shared Unit Bool ℕ) Bool (Pc Unit ℕ)) :=
    Trace.start ⟨fun _ => rfl, rfl, rfl, rfl, rfl, rfl, fun _ => ⟨rfl, rfl, rfl, rfl, rfl⟩⟩
  have h1 := snoc h0 true (Act.insertCall () 1 2) fun _ => id
  have h2 := snoc h1 true (Act.insertEnter rfl) fun _ => id
  have h3 := snoc h2 true (Act.insertQueuedClear rfl) fun _ => id
  have h4 := snoc h3 true (Act.insertCancelClear rfl) fun _ => id
  have h5 := snoc h4 true Act.insertArgument1 fun u => by cases u <;> exact id
  have h6 := snoc h5 true Act.insertArgument2 fun u => by cases u <;> exact id
  have h7 := snoc h6 true Act.insertQueued fun _ => id
  have h8 := snoc h7 true Act.insertCount fun _ => id
  have h9 := snoc h8 true Act.insertSubmit fun _ => id
  have h10 := snoc h9 true Act.insertLeave fun _ => id
  -- the callback, on the other thread
  have h11 := snoc h10 false (Act.callbackStart () 0 (List.mem_singleton.2 rfl)) fun _ => id
  have h12 := snoc h11 false Act.callbackExchange fun _ => id
  have h13 := snoc h12 false Act.callbackDisassociate fun _ => id
  have h14 := snoc h13 false Act.callbackArgument1 fun _ => id
  have h15 := snoc h14 false Act.callbackArgument2 fun _ => id
  exact ⟨_, dpc_arguments _ _ h15, rfl, rfl⟩

/-- A step of a run in which nobody calls `KeRemoveQueueDpc`. -/
def StepNoRemove [DecidableEq D] [DecidableEq T] (c : Conf (Shared D T A) T (Pc D A)) (t : T)
    (c' : Conf (Shared D T A) T (Pc D A)) : Prop :=
  Step Act c t c' ∧ ∀ u d, c'.pc u ≠ .removeEnter d

/-- A step of the run below. -/
theorem noRemove_snoc {ts : List Bool} {c : Conf (Shared Unit Bool ℕ) Bool (Pc Unit ℕ)}
    (h : Trace Init StepNoRemove ts c) (t : Bool) {s' : Shared Unit Bool ℕ} {l' : Pc Unit ℕ}
    (hact : Act t c.shared (c.pc t) s' l')
    (hcalls : ∀ u d, Function.update c.pc t l' u ≠ .removeEnter d) :
    Trace Init StepNoRemove (ts ++ [t]) ⟨s', Function.update c.pc t l'⟩ :=
  h.snoc ⟨⟨s', l', hact, rfl⟩, hcalls⟩

/-- A DPC is inserted with the arguments 1 and 1. Its callback clears `queued`, and
before it reads the arguments, the DPC is inserted with 2 and 2: the routine is
called with 2 and 2 for the first insertion. -/
theorem arguments_overwritten :
    ¬ ∀ (ts : List Bool) (c : Conf (Shared Unit Bool ℕ) Bool (Pc Unit ℕ)),
      Trace Init StepNoRemove ts c → ArgumentsKept c.shared := by
  intro hall
  have h0 : Trace Init StepNoRemove []
      (⟨initial 0, fun _ => .idle⟩ : Conf (Shared Unit Bool ℕ) Bool (Pc Unit ℕ)) :=
    Trace.start ⟨fun _ => rfl, rfl, rfl, rfl, rfl, rfl, fun _ => ⟨rfl, rfl, rfl, rfl, rfl⟩⟩
  -- the first insertion
  have h1 := noRemove_snoc h0 true (Act.insertCall () 1 1) (by intro u d; cases u <;> nofun)
  have h2 := noRemove_snoc h1 true (Act.insertEnter rfl) (by intro u d; cases u <;> nofun)
  have h3 := noRemove_snoc h2 true (Act.insertQueuedClear rfl) (by intro u d; cases u <;> nofun)
  have h4 := noRemove_snoc h3 true (Act.insertCancelClear rfl) (by intro u d; cases u <;> nofun)
  have h5 := noRemove_snoc h4 true Act.insertArgument1 (by intro u d; cases u <;> nofun)
  have h6 := noRemove_snoc h5 true Act.insertArgument2 (by intro u d; cases u <;> nofun)
  have h7 := noRemove_snoc h6 true Act.insertQueued (by intro u d; cases u <;> nofun)
  have h8 := noRemove_snoc h7 true Act.insertCount (by intro u d; cases u <;> nofun)
  have h9 := noRemove_snoc h8 true Act.insertSubmit (by intro u d; cases u <;> nofun)
  have h10 := noRemove_snoc h9 true Act.insertLeave (by intro u d; cases u <;> nofun)
  -- its callback clears `queued`
  have h11 := noRemove_snoc h10 false (Act.callbackStart () 0 (by decide))
    (by intro u d; cases u <;> nofun)
  have h12 := noRemove_snoc h11 false Act.callbackExchange (by intro u d; cases u <;> nofun)
  have h13 := noRemove_snoc h12 false Act.callbackDisassociate (by intro u d; cases u <;> nofun)
  -- the second insertion
  have h14 := noRemove_snoc h13 true (Act.insertCall () 2 2) (by intro u d; cases u <;> nofun)
  have h15 := noRemove_snoc h14 true (Act.insertEnter rfl) (by intro u d; cases u <;> nofun)
  have h16 := noRemove_snoc h15 true (Act.insertQueuedClear rfl) (by intro u d; cases u <;> nofun)
  have h17 := noRemove_snoc h16 true (Act.insertCancelClear rfl) (by intro u d; cases u <;> nofun)
  have h18 := noRemove_snoc h17 true Act.insertArgument1 (by intro u d; cases u <;> nofun)
  have h19 := noRemove_snoc h18 true Act.insertArgument2 (by intro u d; cases u <;> nofun)
  -- the callback reads them
  have h20 := noRemove_snoc h19 false Act.callbackArgument1 (by intro u d; cases u <;> nofun)
  have h21 := noRemove_snoc h20 false Act.callbackArgument2 (by intro u d; cases u <;> nofun)
  have hkept := hall _ _ h21 () 0 2 2 (List.mem_cons_self ..)
  cases hkept

end Wdutf.Dpc
