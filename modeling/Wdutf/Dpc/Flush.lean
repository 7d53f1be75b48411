import Mathlib.Data.List.Basic
import Mathlib.Data.List.Nodup
import Mathlib.Data.List.Perm.Subperm
import Mathlib.Logic.Function.Basic
import Mathlib.Tactic.Common
import Wdutf.Dpc.Ledger

/-!
# Wdutf.Dpc.Flush — `KeFlushQueuedDpcs` as a barrier

`KeFlushQueuedDpcs` reads the number of insertions and waits until as many have
completed, whichever they are.

* `InOrder` — no insertion from after the flush is counted as completed while one
  from before it has not ended;
* `flush_barrier` — in every run in which this holds, a flush that returns has
  waited for everything that was inserted before it;
* `flush_early` — a run in which a later DPC stands in for an earlier one.
-/

namespace Wdutf.Dpc

open Wdutf.Threads Wdutf.Transition

variable {D T A : Type}

/-- The insertion has ended: its routine has returned, or it was removed. -/
def Ended (s : Shared D T A) (k : ℕ) : Prop :=
  (∃ d, .finished d k ∈ s.history) ∨
    ∃ d cancelled, .dequeued d cancelled ∈ s.history ∧ k ∈ cancelled

/-- The insertions whose completion the next step of the thread counts. -/
def Pc.counting : Pc D A → List ℕ
  | .removeCount _ c => c
  | .callbackCount _ k => [k]
  | _ => []

/-- While a flush that has read `n` waits, the next step of the thread counts no
insertion from `n` on as completed, unless all from before the flush have ended. -/
def InOrder (c : Conf (Shared D T A) T (Pc D A)) (t : T) : Prop :=
  ∀ u before n, c.pc u = .flushWait before n →
    ∀ k ∈ (c.pc t).counting, n ≤ k → ∀ j ∈ before, Ended c.shared j

/-- What is counted as completed has ended. -/
def FlushOk (_ : Unit) (s : Shared D T A) : Prop := ∀ k ∈ s.done, Ended s k

/-- What a flush knows: before it may return, either only insertions that it has
read about are counted as completed, or all that it waits for have ended. -/
def FlushAt (_ : T) (_ : Unit) (s : Shared D T A) : Pc D A → Prop
  | .callbackCount d k => .finished d k ∈ s.history
  | .removeCount d c => .dequeued d c ∈ s.history
  | .flushRead before => ∀ k ∈ before, k < s.dpcsQueued
  | .flushWait before n => (∀ k ∈ before, k < n) ∧
      ((∀ k ∈ s.done, k < n) ∨ ∀ k ∈ before, Ended s k)
  | _ => True

theorem mem_returnedTrue {history : List (Event D A)} {k : ℕ} (h : k ∈ returnedTrue history) :
    ∃ d, .inserted d k ∈ history := by
  induction history with
  | nil => cases h
  | cons e history ih =>
    have htail : k ∈ returnedTrue history → ∃ d, .inserted d k ∈ e :: history := by
      intro hk
      rcases ih hk with ⟨d, hd⟩
      exact ⟨d, List.mem_cons_of_mem e hd⟩
    cases e with
    | inserted d k' =>
      rcases List.mem_cons.1 h with rfl | hk
      · exact ⟨d, List.mem_cons_self ..⟩
      · exact htail hk
    | _ => exact htail h

theorem Ended.mono {s s' : Shared D T A} {k : ℕ} (hhistory : s.history ⊆ s'.history)
    (h : Ended s k) : Ended s' k := by
  rcases h with ⟨d, hd⟩ | ⟨d, cancelled, hd, hk⟩
  · exact Or.inl ⟨d, hhistory hd⟩
  · exact Or.inr ⟨d, cancelled, hhistory hd, hk⟩

section Steps

variable {c : Conf (Shared D T A) T (Pc D A)} {t : T} {s' : Shared D T A} {l l' : Pc D A}

/-- The conclusion of a step for the rule of `Wdutf.Lib.Threads`. -/
def FlushStep (c : Conf (Shared D T A) T (Pc D A)) (t : T) (s' : Shared D T A) (l' : Pc D A) :
    Prop :=
  ∃ g', FlushOk g' s' ∧ FlushAt t g' s' l' ∧
    ∀ u, u ≠ t → FlushAt u () c.shared (c.pc u) → FlushAt u g' s' (c.pc u)

/-- A step that counts only what the thread was about to count, and what has ended. -/
theorem flush_grow (horder : InOrder c t) (hok : FlushOk () c.shared)
    (hhistory : c.shared.history ⊆ s'.history) (hqueued : c.shared.dpcsQueued ≤ s'.dpcsQueued)
    (hdone : ∀ k ∈ s'.done, k ∈ c.shared.done ∨ k ∈ (c.pc t).counting ∧ Ended c.shared k)
    (hat : FlushAt t () s' l') : FlushStep c t s' l' := by
  refine ⟨(), ?_, hat, ?_⟩
  · intro k hk
    rcases hdone k hk with hold | ⟨-, hended⟩
    · exact (hok k hold).mono hhistory
    · exact hended.mono hhistory
  · intro u _ hu
    generalize hl : c.pc u = m at hu
    cases m with
    | callbackCount d k => exact hhistory hu
    | removeCount d cancelled => exact hhistory hu
    | flushRead before => exact fun k hk => Nat.lt_of_lt_of_le (hu k hk) hqueued
    | flushWait before n =>
      rcases hu with ⟨hbefore, hwait⟩
      refine ⟨hbefore, ?_⟩
      by_cases hall : ∀ j ∈ before, Ended c.shared j
      · exact Or.inr fun j hj => (hall j hj).mono hhistory
      · rcases hwait with hlow | hended
        · refine Or.inl fun k hk => ?_
          rcases hdone k hk with hold | ⟨hcount, -⟩
          · exact hlow k hold
          · exact Nat.lt_of_not_le fun hle => hall (horder u before n hl k hcount hle)
        · exact absurd hended hall
    | _ => trivial

/-- A step that counts nothing. -/
theorem flush_same (horder : InOrder c t) (hok : FlushOk () c.shared)
    (hhistory : c.shared.history ⊆ s'.history) (hqueued : c.shared.dpcsQueued ≤ s'.dpcsQueued)
    (hdone : s'.done = c.shared.done) (hat : FlushAt t () s' l') : FlushStep c t s' l' := by
  refine flush_grow horder hok hhistory hqueued (fun k hk => ?_) hat
  rw [hdone] at hk
  exact Or.inl hk

variable [DecidableEq D] [DecidableEq T]

/-- Every step in order keeps what the flushes know. -/
theorem flush_step (hledger : Ledger c) (horder : InOrder c t) (hok : FlushOk () c.shared)
    (hall : ∀ u, FlushAt u () c.shared (c.pc u)) (hact : Act t c.shared (c.pc t) s' l') :
    FlushStep c t s' l' := by
  rcases hledger with ⟨place, hbooks, -⟩
  have hat := hall t
  generalize hl : c.pc t = l at hact hat
  cases hact
  case callbackRoutine d k =>
    exact flush_same horder hok (List.subset_cons_self ..) (Nat.le_refl _) rfl
      (List.mem_cons_self ..)
  case callbackCount d k =>
    refine flush_grow horder hok (List.Subset.refl _) (Nat.le_refl _) (fun j hj => ?_) trivial
    rcases List.mem_cons.1 hj with rfl | hj
    · rw [hl]
      exact Or.inr ⟨List.mem_singleton_self j, Or.inl ⟨d, hat⟩⟩
    · exact Or.inl hj
  case removeExchangeSet d cancelled hq =>
    exact flush_same horder hok (List.subset_cons_self ..) (Nat.le_refl _) rfl
      (List.mem_cons_self ..)
  case removeCount d cancelled =>
    refine flush_grow horder hok (List.Subset.refl _) (Nat.le_refl _) (fun j hj => ?_) trivial
    rcases List.mem_append.1 hj with hj | hj
    · rw [hl]
      exact Or.inr ⟨hj, Or.inr ⟨d, cancelled, hat, hj⟩⟩
    · exact Or.inl hj
  case flushCall =>
    -- what has returned TRUE has been counted as queued
    refine flush_same horder hok (List.Subset.refl _) (Nat.le_refl _) rfl fun k hk => ?_
    rcases mem_returnedTrue hk with ⟨d, hd⟩
    rw [← hbooks.accepted]
    exact Owner.lt (hbooks.events _ hd)
  case flushRead before =>
    -- nothing is completed that has not been queued
    refine flush_same horder hok (List.Subset.refl _) (Nat.le_refl _) rfl
      ⟨hat, Or.inl fun k hk => ?_⟩
    exact ((hbooks.done k).1 hk).1
  case insertCount d a₁ a₂ =>
    exact flush_same horder hok (List.Subset.refl _) (Nat.le_succ _) rfl trivial
  case insertLeave d k =>
    exact flush_same horder hok (List.subset_cons_self ..) (Nat.le_refl _) rfl trivial
  case removeReturnTrue d cancelled =>
    exact flush_same horder hok (List.subset_cons_self ..) (Nat.le_refl _) rfl trivial
  case callbackArgument2 d k a₁ =>
    exact flush_same horder hok (List.subset_cons_self ..) (Nat.le_refl _) rfl trivial
  all_goals exact flush_same horder hok (List.Subset.refl _) (Nat.le_refl _) rfl trivial

end Steps

/-! ## The barrier -/

section Barrier

variable [DecidableEq D] [DecidableEq T]

/-- Whenever a flush returns, everything that had been inserted before it began has
ended. -/
def Barrier (c : Conf (Shared D T A) T (Pc D A)) : Prop :=
  ∀ t before n c', c.pc t = .flushWait before n → Step Act c t c' → ∀ k ∈ before, Ended c'.shared k

/-- A run in which completions are counted in order, as far as a flush waits. -/
abbrev InOrderRun : List T → Conf (Shared D T A) T (Pc D A) → Prop :=
  Trace Init fun c t c' => InOrder c t ∧ Step Act c t c'

theorem flush_holds {ts : List T} {c : Conf (Shared D T A) T (Pc D A)} (h : InOrderRun ts c) :
    Holds FlushOk FlushAt c := by
  induction h with
  | start hinit =>
    rcases hinit with ⟨hidle, -, -, -, hdone, -, -⟩
    refine ⟨(), ?_, ?_⟩
    · intro k hk
      rw [hdone] at hk
      cases hk
    · intro u
      rw [hidle u]
      trivial
  | snoc htrace hnext ih =>
    have hrun := htrace.mono fun _ _ _ hs => hs.2
    refine holds_step (fun c t => Ledger c ∧ InOrder c t) ?_ ⟨ledger hrun, hnext.1⟩ ih hnext.2
    rintro g c t s l ⟨hledger, horder⟩ hok hall hact
    exact flush_step hledger horder hok hall hact

omit [DecidableEq D] [DecidableEq T] in
/-- If `n` insertions have completed and all of them are below `n`, they are the
first `n`. -/
theorem LedgerOk.mem_done {place : ℕ → Place D T} {s : Shared D T A} (hok : LedgerOk place s)
    {n k : ℕ}
    (hn : n ≤ s.dpcsCompleted) (hlow : ∀ j ∈ s.done, j < n) (hk : k < n) : k ∈ s.done := by
  have hsub : s.done.Subperm (List.range n) :=
    hok.nodup.subperm fun j hj => List.mem_range.2 (hlow j hj)
  have hperm : s.done.Perm (List.range n) := by
    refine hsub.perm_of_length_le ?_
    rw [List.length_range, hok.completed]
    exact hn
  exact hperm.mem_iff.2 (List.mem_range.2 hk)

/-- **The flush barrier.** In every run in which, while a flush waits, no insertion
from after its read is counted as completed before all insertions from before the
flush have ended, a flush returns only after these have ended. -/
theorem flush_barrier (ts : List T) (c : Conf (Shared D T A) T (Pc D A)) (h : InOrderRun ts c) :
    Barrier c := by
  intro t before n c' hpc hnext
  rcases flush_holds h with ⟨g, hok, hall⟩
  rcases ledger (h.mono fun _ _ _ hs => hs.2) with ⟨place, hbooks, -⟩
  rcases hnext with ⟨s', l', hact, rfl⟩
  have hat := hall t
  rw [hpc] at hact hat
  rcases hat with ⟨hbefore, hwait⟩
  cases hact with
  | flushWait hn =>
    intro k hk
    rcases hwait with hlow | hended
    · exact hok k (hbooks.mem_done hn hlow (hbefore k hk))
    · exact hended k hk

end Barrier

/-- A flush begins while a DPC is queued. It returns after the routine has. -/
theorem flush_barrier_returns :
    ∃ c c' : Conf (Shared Unit Bool Unit) Bool (Pc Unit Unit),
      c.pc true = .flushWait [0] 1 ∧ Step Act c true c' ∧ c'.pc true = .idle ∧
      Ended c'.shared 0 := by
  have snoc : ∀ {ts : List Bool} {c : Conf (Shared Unit Bool Unit) Bool (Pc Unit Unit)},
      InOrderRun ts c → ∀ (t : Bool) {s' : Shared Unit Bool Unit} {l' : Pc Unit Unit},
      Act t c.shared (c.pc t) s' l' → (c.pc t).counting = [] →
      InOrderRun (ts ++ [t]) ⟨s', Function.update c.pc t l'⟩ := by
    intro ts c h t s' l' hact hcounting
    refine h.snoc ⟨fun u before n _ k hk => ?_, s', l', hact, rfl⟩
    rw [hcounting] at hk
    cases hk
  have h0 : InOrderRun []
      (⟨initial (), fun _ => .idle⟩ : Conf (Shared Unit Bool Unit) Bool (Pc Unit Unit)) :=
    Trace.start ⟨fun _ => rfl, rfl, rfl, rfl, rfl, rfl, fun _ => ⟨rfl, rfl, rfl, rfl, rfl⟩⟩
  have h1 := snoc h0 true (Act.insertCall () () ()) rfl
  have h2 := snoc h1 true (Act.insertEnter rfl) rfl
  have h3 := snoc h2 true (Act.insertQueuedClear rfl) rfl
  have h4 := snoc h3 true (Act.insertCancelClear rfl) rfl
  have h5 := snoc h4 true Act.insertArgument1 rfl
  have h6 := snoc h5 true Act.insertArgument2 rfl
  have h7 := snoc h6 true Act.insertQueued rfl
  have h8 := snoc h7 true Act.insertCount rfl
  have h9 := snoc h8 true Act.insertSubmit rfl
  have h10 := snoc h9 true Act.insertLeave rfl
  have h11 := snoc h10 true Act.flushCall rfl
  have h12 := snoc h11 true Act.flushRead rfl
  -- the callback, on the other thread
  have h13 := snoc h12 false (Act.callbackStart () 0 (List.mem_singleton.2 rfl)) rfl
  have h14 := snoc h13 false Act.callbackExchange rfl
  have h15 := snoc h14 false Act.callbackDisassociate rfl
  have h16 := snoc h15 false Act.callbackArgument1 rfl
  have h17 := snoc h16 false Act.callbackArgument2 rfl
  have h18 := snoc h17 false Act.callbackRoutine rfl
  obtain ⟨ts, c, hrun, htrue, hfalse⟩ : ∃ ts c, InOrderRun ts c ∧
      c.pc true = .flushWait [0] 1 ∧ c.pc false = .callbackCount () 0 := ⟨_, _, h18, rfl, rfl⟩
  -- the insertion that it counts is one that the flush has read about
  have horder : InOrder c false := by
    intro u before n hu k hk hle
    rw [hfalse] at hk
    obtain rfl : k = 0 := List.mem_singleton.1 hk
    cases u with
    | false =>
      rw [hfalse] at hu
      cases hu
    | true =>
      rw [htrue] at hu
      cases hu
      exact absurd hle (by decide)
  have hcount : Act false c.shared (c.pc false) { c.shared with
      dpcsCompleted := c.shared.dpcsCompleted + 1, done := 0 :: c.shared.done } .idle := by
    rw [hfalse]
    exact Act.callbackCount
  have hkept : Function.update c.pc false .idle true = .flushWait [0] 1 := htrue
  obtain ⟨ts', c', hrun', hwait, hdone⟩ : ∃ ts' c', InOrderRun ts' c' ∧
      c'.pc true = .flushWait [0] 1 ∧ 1 ≤ c'.shared.dpcsCompleted :=
    ⟨_, _, hrun.snoc (e := false) ⟨horder, _, _, hcount, rfl⟩, hkept, Nat.le_add_left 1 _⟩
  have hreturn : Step Act c' true ⟨c'.shared, Function.update c'.pc true .idle⟩ :=
    ⟨_, _, by rw [hwait]; exact Act.flushWait hdone, rfl⟩
  exact ⟨c', _, hwait, hreturn, rfl,
    flush_barrier ts' c' hrun' true [0] 1 _ hwait hreturn 0 (List.mem_singleton.2 rfl)⟩

/-- The DPC `true` is inserted, and its routine runs on thread 0 and does not return.
Thread 1 begins a flush, and the DPC `false` is inserted and run by thread 2: the
flush returns. -/
theorem flush_early :
    ¬ ∀ (ts : List (Fin 3)) (c : Conf (Shared Bool (Fin 3) Unit) (Fin 3) (Pc Bool Unit)),
      Run ts c → Barrier c := by
  intro hall
  have h0 := run_initial (D := Bool) (T := Fin 3) ()
  -- the first insertion
  have h1 := run_step h0 2 (Act.insertCall true () ())
  have h2 := run_step h1 2 (Act.insertEnter rfl)
  have h3 := run_step h2 2 (Act.insertQueuedClear rfl)
  have h4 := run_step h3 2 (Act.insertCancelClear rfl)
  have h5 := run_step h4 2 Act.insertArgument1
  have h6 := run_step h5 2 Act.insertArgument2
  have h7 := run_step h6 2 Act.insertQueued
  have h8 := run_step h7 2 Act.insertCount
  have h9 := run_step h8 2 Act.insertSubmit
  have h10 := run_step h9 2 Act.insertLeave
  -- its routine is called
  have h11 := run_step h10 0 (Act.callbackStart true 0 (by decide))
  have h12 := run_step h11 0 Act.callbackExchange
  have h13 := run_step h12 0 Act.callbackDisassociate
  have h14 := run_step h13 0 Act.callbackArgument1
  have h15 := run_step h14 0 Act.callbackArgument2
  -- the flush
  have h16 := run_step h15 1 Act.flushCall
  have h17 := run_step h16 1 Act.flushRead
  -- the second insertion
  have h18 := run_step h17 2 (Act.insertCall false () ())
  have h19 := run_step h18 2 (Act.insertEnter rfl)
  have h20 := run_step h19 2 (Act.insertQueuedClear rfl)
  have h21 := run_step h20 2 (Act.insertCancelClear rfl)
  have h22 := run_step h21 2 Act.insertArgument1
  have h23 := run_step h22 2 Act.insertArgument2
  have h24 := run_step h23 2 Act.insertQueued
  have h25 := run_step h24 2 Act.insertCount
  have h26 := run_step h25 2 Act.insertSubmit
  have h27 := run_step h26 2 Act.insertLeave
  -- it runs to its end
  have h28 := run_step h27 2 (Act.callbackStart false 1 (by decide))
  have h29 := run_step h28 2 Act.callbackExchange
  have h30 := run_step h29 2 Act.callbackDisassociate
  have h31 := run_step h30 2 Act.callbackArgument1
  have h32 := run_step h31 2 Act.callbackArgument2
  have h33 := run_step h32 2 Act.callbackRoutine
  have h34 := run_step h33 2 Act.callbackCount
  have hended := hall _ _ h34 1 [0] 1 _ rfl ⟨_, _, Act.flushWait (Nat.le_refl 1), rfl⟩ 0
    (List.mem_singleton_self 0)
  rcases hended with ⟨d, hd⟩ | ⟨d, cancelled, hd, -⟩
  · simp [Shared.record, Shared.set, initial] at hd
  · simp [Shared.record, Shared.set, initial] at hd

end Wdutf.Dpc
