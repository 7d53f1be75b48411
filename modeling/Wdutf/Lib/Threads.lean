import Mathlib.Data.List.Basic
import Mathlib.Logic.Function.Basic
import Mathlib.Tactic.Common
import Wdutf.Lib.Transition

/-!
# Wdutf.Lib.Threads — threads over shared data

A system of threads, each at a local point of its program, that take atomic
steps on shared data in any order. An invariant is given by an assertion about
the shared data and one for each point of the program; both may speak about
auxiliary data `g` that no step reads.

* `Threads.invariant` — if a step of a thread establishes its own assertion and
  leaves the assertions of all other threads true, the assertions hold after
  every run;
* `Threads.invariant_of` — the same, with an invariant that is known already;
* `role_set`, `role_clear`, `role_other` — auxiliary data that say which thread has a thing.
-/

namespace Wdutf.Threads

open Wdutf.Transition

/-- The shared data, and the point of the program where each thread stands. -/
structure Conf (S T L : Type*) where
  shared : S
  pc : T → L

variable {S T L G : Type*} [DecidableEq T]

/-- A step of a thread. -/
def Step (act : T → S → L → S → L → Prop) (c : Conf S T L) (t : T) (c' : Conf S T L) : Prop :=
  ∃ s l, act t c.shared (c.pc t) s l ∧ c' = ⟨s, Function.update c.pc t l⟩

/-- A step at the end of a run. -/
theorem run_step {act : T → S → L → S → L → Prop} {Init : Conf S T L → Prop} {ts : List T}
    {c : Conf S T L} (h : Trace Init (Step act) ts c) (t : T) {s : S} {l : L}
    (hact : act t c.shared (c.pc t) s l) :
    Trace Init (Step act) (ts ++ [t]) ⟨s, Function.update c.pc t l⟩ :=
  h.snoc ⟨s, l, hact, rfl⟩

/-- A step at the end of a run with a condition on its steps. -/
theorem run_step_with {act : T → S → L → S → L → Prop} {Init : Conf S T L → Prop}
    {Ok : Conf S T L → T → Prop} {ts : List T} {c : Conf S T L}
    (h : Trace Init (fun c t c' => Step act c t c' ∧ Ok c t) ts c) (t : T) {s : S} {l : L}
    (hact : act t c.shared (c.pc t) s l) (hok : Ok c t) :
    Trace Init (fun c t c' => Step act c t c' ∧ Ok c t) (ts ++ [t])
      ⟨s, Function.update c.pc t l⟩ :=
  h.snoc ⟨⟨s, l, hact, rfl⟩, hok⟩

/-- The assertions hold for some auxiliary data. -/
def Holds (shared : G → S → Prop) (atPoint : T → G → S → L → Prop) (c : Conf S T L) : Prop :=
  ∃ g, shared g c.shared ∧ ∀ t, atPoint t g c.shared (c.pc t)

variable {act : T → S → L → S → L → Prop} {Init : Conf S T L → Prop}
variable {shared : G → S → Prop} {atPoint : T → G → S → L → Prop}

/-- One step keeps the assertions; `Known` is what else is known about the step. -/
theorem holds_step (Known : Conf S T L → T → Prop)
    (hstep : ∀ g (c : Conf S T L) t s l, Known c t → shared g c.shared →
      (∀ u, atPoint u g c.shared (c.pc u)) →
      act t c.shared (c.pc t) s l →
      ∃ g', shared g' s ∧ atPoint t g' s l ∧
        ∀ u, u ≠ t → atPoint u g c.shared (c.pc u) → atPoint u g' s (c.pc u))
    {c c' : Conf S T L} {t : T} (hknown : Known c t) (h : Holds shared atPoint c)
    (hnext : Step act c t c') : Holds shared atPoint c' := by
  rcases h with ⟨g, hshared, hlocal⟩
  rcases hnext with ⟨s, l, hact, rfl⟩
  rcases hstep g c t s l hknown hshared hlocal hact with ⟨g', hshared', hself, hothers⟩
  refine ⟨g', hshared', ?_⟩
  intro u
  by_cases hu : u = t
  · subst hu
    show atPoint u g' s (Function.update c.pc u l u)
    rw [Function.update_self]
    exact hself
  · show atPoint u g' s (Function.update c.pc t l u)
    rw [Function.update_of_ne hu]
    exact hothers u hu (hlocal u)

/-- The rule, on top of a known invariant. -/
theorem invariant_of {Inv : Conf S T L → Prop} (hinv : ∀ {ts c}, Trace Init (Step act) ts c → Inv c)
    (hinit : ∀ c, Init c → Holds shared atPoint c)
    (hstep : ∀ g (c : Conf S T L) t s l, Inv c → shared g c.shared →
      (∀ u, atPoint u g c.shared (c.pc u)) → act t c.shared (c.pc t) s l →
      ∃ g', shared g' s ∧ atPoint t g' s l ∧
        ∀ u, u ≠ t → atPoint u g c.shared (c.pc u) → atPoint u g' s (c.pc u))
    {ts : List T} {c : Conf S T L} (h : Trace Init (Step act) ts c) : Holds shared atPoint c := by
  induction h with
  | start hs => exact hinit _ hs
  | snoc htrace hnext ih => exact holds_step (fun c _ => Inv c) hstep (hinv htrace) ih hnext

/-- The rule. -/
theorem invariant (hinit : ∀ c, Init c → Holds shared atPoint c)
    (hstep : ∀ g (c : Conf S T L) t s l, shared g c.shared → (∀ u, atPoint u g c.shared (c.pc u)) →
      act t c.shared (c.pc t) s l →
      ∃ g', shared g' s ∧ atPoint t g' s l ∧
        ∀ u, u ≠ t → atPoint u g c.shared (c.pc u) → atPoint u g' s (c.pc u))
    {ts : List T} {c : Conf S T L} (h : Trace Init (Step act) ts c) : Holds shared atPoint c :=
  invariant_of (fun _ => trivial) hinit
    (fun g c t s l _ hshared hlocal hact => hstep g c t s l hshared hlocal hact) h

/-! ## Roles

Auxiliary data often say which thread has a thing. -/

section Roles

omit [DecidableEq T]

variable {A : Type*} [DecidableEq A] {r : A → Option T} {t u : T} {a b : A} {v : Option T}

theorem some_ne_of_ne (hu : u ≠ t) : some t ≠ some u := fun h => hu (Option.some.inj h).symm

/-- A thread that had nothing gets a thing. -/
theorem role_set (h : ∀ b, r b = some t ↔ none = some b) :
    Function.update r a (some t) b = some t ↔ some a = some b := by
  by_cases hb : b = a
  · rw [hb, Function.update_self]
    simp
  · rw [Function.update_of_ne hb, h b]
    simp [Ne.symm hb]

/-- A thread gives back what it had, at most one thing. -/
theorem role_clear {q : Option A} (h : ∀ b, r b = some t ↔ q = some b)
    (hq : ∀ b, q = some b → b = a) : Function.update r a none b = some t ↔ none = some b := by
  by_cases hb : b = a
  · rw [hb, Function.update_self]
    simp
  · rw [Function.update_of_ne hb, h b]
    constructor
    · exact fun h => absurd (hq b h) hb
    · exact fun h => by cases h

/-- What other threads have is not concerned. -/
theorem role_other (hv : v ≠ some u) (hr : r a ≠ some u) :
    Function.update r a v b = some u ↔ r b = some u := by
  by_cases hb : b = a
  · rw [hb, Function.update_self]
    exact ⟨fun h => absurd h hv, fun h => absurd h hr⟩
  · rw [Function.update_of_ne hb]

end Roles

end Wdutf.Threads
