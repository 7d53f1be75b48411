import Mathlib.Data.List.Basic
import Mathlib.Data.Int.Basic
import Mathlib.Logic.Function.Basic
import Mathlib.Tactic.Common
import Wdutf.Lib.Linear

/-!
# Wdutf.Ke.Event — events under concurrent calls, `src/event.cpp`

The routines work on a Win32 event through single Win32 calls. There is no Win32
call that sets or reads an event and tells its previous state, so `KeSetEvent`,
`KeResetEvent` and `KeReadStateEvent` test the event first, by a wait without
timeout, and act on the answer in a second call. The wait takes the signal of a
synchronization event away, and the second call has to put it back.

* `Clean` — the steps of a run that no other call comes between in a harmful way;
* `linearizable_of_clean` — the calls of such runs are linearizable;
* `readers_not_linearizable` — two readers of a signalled synchronization event.
-/

namespace Wdutf.Ke.Event

open Wdutf.Linear Wdutf.Transition

/-! ## The routines -/

/-- `EVENT_TYPE`. -/
inductive EventType where
  | notificationEvent
  | synchronizationEvent
deriving DecidableEq, Repr

/-- What is left of the code of a routine: its next Win32 call on the handle of the
event, or the value it returns, `none` for a `VOID` routine. A wait goes on with
`object` when it returned `WAIT_OBJECT_0`, else with `timeout`. -/
inductive Code where
  | waitForSingleObject (object timeout : Code)
  | setEvent (next : Code)
  | resetEvent (next : Code)
  | ret (value : Option ℤ)
deriving DecidableEq, Repr

/-- `KeSetEvent`. -/
def keSetEvent (notify : Bool) : Code :=
  .waitForSingleObject
    (if !notify then .setEvent (.ret (some 1)) else .ret (some 1))
    (.setEvent (.ret (some 0)))

/-- `KeResetEvent`. -/
def keResetEvent (notify : Bool) : Code :=
  .waitForSingleObject
    (if notify then .resetEvent (.ret (some 1)) else .ret (some 1))
    (.ret (some 0))

/-- `KeClearEvent`. -/
def keClearEvent : Code := .resetEvent (.ret none)

/-- `KeReadStateEvent`. -/
def keReadStateEvent (notify : Bool) : Code :=
  .waitForSingleObject
    (if !notify then .setEvent (.ret (some 1)) else .ret (some 1))
    (.ret (some 0))

inductive Routine where
  | keSetEvent
  | keResetEvent
  | keClearEvent
  | keReadStateEvent
deriving DecidableEq, Repr

/-- The code of a routine. -/
def Routine.code (notify : Bool) : Routine → Code
  | .keSetEvent => Event.keSetEvent notify
  | .keResetEvent => Event.keResetEvent notify
  | .keClearEvent => Event.keClearEvent
  | .keReadStateEvent => Event.keReadStateEvent notify

/-- The next Win32 call, on an event that is signalled or not. A wait that
succeeds leaves the event signalled only if it was created for manual reset. -/
def win32 (notify signalled : Bool) : Code → Option (Bool × Code)
  | .waitForSingleObject object timeout =>
    some (if signalled then (notify, object) else (signalled, timeout))
  | .setEvent next => some (true, next)
  | .resetEvent next => some (false, next)
  | .ret _ => none

/-- The state of the event after the calls of a routine that no other caller comes
between. -/
def alone (notify : Bool) : Bool → Code → Bool
  | signalled, .waitForSingleObject object timeout =>
    if signalled then alone notify notify object else alone notify signalled timeout
  | _, .setEvent next => alone notify true next
  | _, .resetEvent next => alone notify false next
  | signalled, .ret _ => signalled

/-- The value a routine returns at its end. -/
def Code.value : Code → Option (Option ℤ)
  | .ret value => some value
  | _ => none

/-- The event as an object with four operations. -/
def event (notify : Bool) : Object Bool Routine Code (Option ℤ) :=
  ⟨Routine.code notify, win32 notify, Code.value⟩

abbrev Conf (T : Type) := Linear.Conf Bool T Routine Code (Option ℤ)

/-- `KeInitializeEvent`: `notify`, and whether the event is signalled. -/
def keInitializeEvent (type : EventType) (state : UInt8) : Bool × Bool :=
  (decide (type = .notificationEvent), state != 0)

/-! ## Purpose -/

/-- The state of an event as the routines return it. -/
def long (signalled : Bool) : ℤ := if signalled then 1 else 0

/-- The event used by one caller at a time. -/
def spec (signalled : Bool) : Routine → Bool × Option ℤ
  | .keSetEvent => (true, some (long signalled))
  | .keResetEvent => (false, some (long signalled))
  | .keClearEvent => (false, none)
  | .keReadStateEvent => (signalled, some (long signalled))

/-! ## Clean runs -/

/-- A call has taken the signal of a synchronization event and not yet put it back. -/
def Restoring (p : Code) : Prop := p = .setEvent (.ret (some 1))

instance (p : Code) : Decidable (Restoring p) :=
  inferInstanceAs (Decidable (p = .setEvent (.ret (some 1))))

/-- The steps that do not reach into the gap between the test of a call and what
it does next: nobody touches the event while another call has its signal, and when
`KeSetEvent` or `KeResetEvent` acts on its test, the event is as the test found it. -/
def Clean {T : Type} (c : Conf T) : Linear.Event T Routine → Prop
  | .step t =>
    (∀ u, u ≠ t → ∀ f ∈ c.busy u, ¬ Restoring f.point) ∧
    (∀ f ∈ c.busy t, f.point = .setEvent (.ret (some 0)) → c.shared = false) ∧
    (∀ f ∈ c.busy t, f.point = .resetEvent (.ret (some 1)) → c.shared = true)
  | _ => True

/-- Where a call stands, and the result of the effect it has taken. -/
inductive At (notify : Bool) : Routine → Code → Option (Option ℤ) → Prop
  | start (op : Routine) : At notify op (op.code notify) none
  | restore (op : Routine) : At notify op (.setEvent (.ret (some 1))) (some (some 1))
  | setting : At notify .keSetEvent (.setEvent (.ret (some 0))) none
  | resetting : At notify .keResetEvent (.resetEvent (.ret (some 1))) none
  | returned (op : Routine) (r : Option ℤ) : At notify op (.ret r) (some r)

/-- The event has the state `signalled`: it is in the object, or a call has taken
the signal and holds it. -/
def Has {T : Type} (signalled : Bool) (c : Conf T) : Prop :=
  (∀ t f, c.busy t = some f → ¬ Restoring f.point) ∧ signalled = c.shared ∨
  ∃ t f, c.busy t = some f ∧ Restoring f.point ∧
    (∀ u g, u ≠ t → c.busy u = some g → ¬ Restoring g.point) ∧
    signalled = true ∧ c.shared = false

/-- The abstract state and the effects taken by the calls in progress. -/
def Simulates {T : Type} (notify : Bool) (signalled : Bool) (effect : T → Option (Option ℤ))
    (c : Conf T) : Prop :=
  (∀ t f, c.busy t = some f → At notify f.op f.point (effect t)) ∧ Has signalled c

theorem not_restoring_ret (r : Option ℤ) : ¬ Restoring (.ret r) := by
  intro h
  cases h

theorem not_restoring_code (notify : Bool) (op : Routine) : ¬ Restoring (op.code notify) := by
  intro h
  cases op <;> cases h

/-- How `Has` changes with a step of `t` that no other call disturbs. -/
theorem has_advance {T : Type} [DecidableEq T] {c : Conf T} {t : T} {f : Frame Routine Code}
    {signalled s : Bool} {p : Code}
    (hothers : ∀ u g, u ≠ t → c.busy u = some g → ¬ Restoring g.point)
    (h : ¬ Restoring p ∧ signalled = s ∨ Restoring p ∧ signalled = true ∧ s = false) :
    Has signalled (c.advance t f s p) := by
  have hothers' : ∀ u g, u ≠ t → (c.advance t f s p).busy u = some g → ¬ Restoring g.point := by
    intro u g hu hg
    rw [Conf.advance_busy, Function.update_of_ne hu] at hg
    exact hothers u g hu hg
  have hself : (c.advance t f s p).busy t = some { f with point := p } := by
    rw [Conf.advance_busy, Function.update_self]
  rcases h with ⟨hp, hs⟩ | ⟨hp, hs, hs'⟩
  · refine Or.inl ⟨?_, hs⟩
    intro u g hg
    by_cases hu : u = t
    · subst hu
      rw [hself] at hg
      cases hg
      exact hp
    · exact hothers' u g hu hg
  · exact Or.inr ⟨t, _, hself, hp, hothers', hs, hs'⟩

/-- The state of the event when `t` is about to make a clean step. -/
theorem Has.of_clean {T : Type} {c : Conf T} {t : T} {f : Frame Routine Code} {signalled : Bool}
    (h : Has signalled c) (hothers : ∀ u g, u ≠ t → c.busy u = some g → ¬ Restoring g.point)
    (hbusy : c.busy t = some f) :
    Restoring f.point ∧ signalled = true ∨ ¬ Restoring f.point ∧ signalled = c.shared := by
  rcases h with ⟨hwhole, hs⟩ | ⟨u, g, hg, hrestoring, -, hs, -⟩
  · exact Or.inr ⟨hwhole t f hbusy, hs⟩
  · by_cases hu : u = t
    · subst hu
      rw [hbusy] at hg
      cases hg
      exact Or.inl ⟨hrestoring, hs⟩
    · exact absurd hrestoring (hothers u g hu hg)

/-- The calls in progress after a step of `t`. -/
theorem at_advance {T : Type} [DecidableEq T] {c : Conf T} {notify : Bool}
    {effect effect' : T → Option (Option ℤ)} {t : T} {f : Frame Routine Code} {s : Bool} {p : Code}
    (h : ∀ u g, c.busy u = some g → At notify g.op g.point (effect u))
    (hothers : ∀ u, u ≠ t → effect' u = effect u) (hself : At notify f.op p (effect' t)) :
    ∀ u g, (c.advance t f s p).busy u = some g → At notify g.op g.point (effect' u) := by
  intro u g hg
  rw [Conf.advance_busy] at hg
  by_cases hu : u = t
  · subst hu
    rw [Function.update_self] at hg
    cases hg
    exact hself
  · rw [Function.update_of_ne hu] at hg
    rw [hothers u hu]
    exact h u g hg

/-- What a clean step of a call does: it leaves the abstract state alone, or it takes
the effect of the call. -/
theorem win32_cases {notify signalled shared s : Bool} {op : Routine} {p p' : Code}
    {r : Option (Option ℤ)} (hat : At notify op p r)
    (hhas : Restoring p ∧ signalled = true ∨ ¬ Restoring p ∧ signalled = shared)
    (hset : p = .setEvent (.ret (some 0)) → shared = false)
    (hreset : p = .resetEvent (.ret (some 1)) → shared = true)
    (hact : win32 notify shared p = some (s, p')) :
    At notify op p' r ∧ ¬ Restoring p' ∧ signalled = s ∨
    r = none ∧ At notify op p' (some (spec signalled op).2) ∧
      (¬ Restoring p' ∧ (spec signalled op).1 = s ∨
        Restoring p' ∧ (spec signalled op).1 = true ∧ s = false) := by
  cases hat with
  | start =>
    rcases hhas with ⟨hrestoring, -⟩ | ⟨-, rfl⟩
    · exact absurd hrestoring (not_restoring_code notify op)
    cases op with
    | keSetEvent =>
      cases signalled with
      | true =>
        cases notify with
        | true =>
          cases hact
          exact Or.inr ⟨rfl, At.returned _ _, Or.inl ⟨not_restoring_ret _, rfl⟩⟩
        | false =>
          cases hact
          exact Or.inr ⟨rfl, At.restore _, Or.inr ⟨rfl, rfl, rfl⟩⟩
      | false =>
        -- the test has no effect; the call takes it when it sets the event
        cases hact
        exact Or.inl ⟨At.setting, by simp [Restoring], rfl⟩
    | keResetEvent =>
      cases signalled with
      | true =>
        cases notify with
        | true =>
          cases hact
          exact Or.inl ⟨At.resetting, by simp [Restoring], rfl⟩
        | false =>
          cases hact
          exact Or.inr ⟨rfl, At.returned _ _, Or.inl ⟨not_restoring_ret _, rfl⟩⟩
      | false =>
        cases hact
        exact Or.inr ⟨rfl, At.returned _ _, Or.inl ⟨not_restoring_ret _, rfl⟩⟩
    | keClearEvent =>
      cases hact
      exact Or.inr ⟨rfl, At.returned _ _, Or.inl ⟨not_restoring_ret _, rfl⟩⟩
    | keReadStateEvent =>
      cases signalled with
      | true =>
        cases notify with
        | true =>
          cases hact
          exact Or.inr ⟨rfl, At.returned _ _, Or.inl ⟨not_restoring_ret _, rfl⟩⟩
        | false =>
          cases hact
          exact Or.inr ⟨rfl, At.restore _, Or.inr ⟨rfl, rfl, rfl⟩⟩
      | false =>
        cases hact
        exact Or.inr ⟨rfl, At.returned _ _, Or.inl ⟨not_restoring_ret _, rfl⟩⟩
  | restore =>
    rcases hhas with ⟨-, rfl⟩ | ⟨hwhole, -⟩
    · cases hact
      exact Or.inl ⟨At.returned _ _, not_restoring_ret _, rfl⟩
    · exact absurd rfl hwhole
  | setting =>
    rcases hhas with ⟨hrestoring, -⟩ | ⟨-, rfl⟩
    · cases hrestoring
    rw [hset rfl] at hact ⊢
    cases hact
    exact Or.inr ⟨rfl, At.returned _ _, Or.inl ⟨not_restoring_ret _, rfl⟩⟩
  | resetting =>
    rcases hhas with ⟨hrestoring, -⟩ | ⟨-, rfl⟩
    · cases hrestoring
    rw [hreset rfl] at hact ⊢
    cases hact
    exact Or.inr ⟨rfl, At.returned _ _, Or.inl ⟨not_restoring_ret _, rfl⟩⟩
  | returned r =>
    cases hact

/-! ## Linearizability -/

variable {T : Type} [DecidableEq T]

omit [DecidableEq T] in
theorem simulates_init {notify signalled : Bool} (c : Conf T) (hc : c = idle signalled) :
    ∃ s, c = idle s ∧ Simulates notify signalled (fun _ => none) c := by
  refine ⟨signalled, hc, ?_, Or.inl ⟨?_, ?_⟩⟩
  · intro t f hf
    rw [hc] at hf
    cases hf
  · intro t f hf
    rw [hc] at hf
    cases hf
  · rw [hc]
    rfl

theorem simulates_step (notify signalled : Bool) (effect : T → Option (Option ℤ)) (c : Conf T)
    (t : T) (f : Frame Routine Code) (s : Bool) (p : Code) (h : Simulates notify signalled effect c)
    (hclean : Clean c (.step t)) (hbusy : c.busy t = some f)
    (hact : win32 notify c.shared f.point = some (s, p)) :
    Simulates notify signalled effect (c.advance t f s p) ∨
    effect t = none ∧
      Simulates notify (spec signalled f.op).1
        (Function.update effect t (some (spec signalled f.op).2)) (c.advance t f s p) := by
  rcases h with ⟨hat, hhas⟩
  rcases hclean with ⟨hclean, hset, hreset⟩
  have hothers : ∀ u g, u ≠ t → c.busy u = some g → ¬ Restoring g.point :=
    fun u g hu hg => hclean u hu g hg
  rcases win32_cases (hat t f hbusy) (hhas.of_clean hothers hbusy) (hset f hbusy)
    (hreset f hbusy) hact with ⟨hself, hp⟩ | ⟨hnone, hself, hp⟩
  · exact Or.inl ⟨at_advance hat (fun _ _ => rfl) hself, has_advance hothers (Or.inl hp)⟩
  · refine Or.inr ⟨hnone, at_advance hat ?_ ?_, has_advance hothers hp⟩
    · intro u hu
      exact Function.update_of_ne hu _ _
    · rw [Function.update_self]
      exact hself

theorem simulates_call (notify signalled : Bool) (effect : T → Option (Option ℤ)) (c : Conf T)
    (t : T) (op : Routine) (h : Simulates notify signalled effect c) (hbusy : c.busy t = none) :
    Simulates notify signalled (Function.update effect t none) (c.begin t op (op.code notify)) := by
  rcases h with ⟨hat, hhas⟩
  have hframes : ∀ u f, (c.begin t op (op.code notify)).busy u = some f →
      u = t ∧ f = ⟨op, c.clock, op.code notify⟩ ∨ u ≠ t ∧ c.busy u = some f := by
    intro u f hf
    rw [Conf.begin_busy] at hf
    by_cases hu : u = t
    · subst hu
      rw [Function.update_self] at hf
      cases hf
      exact Or.inl ⟨rfl, rfl⟩
    · rw [Function.update_of_ne hu] at hf
      exact Or.inr ⟨hu, hf⟩
  refine ⟨?_, ?_⟩
  · intro u f hf
    rcases hframes u f hf with ⟨rfl, rfl⟩ | ⟨hu, hf⟩
    · rw [Function.update_self]
      exact At.start op
    · rw [Function.update_of_ne hu]
      exact hat u f hf
  · rcases hhas with ⟨hwhole, hs⟩ | ⟨v, g, hg, hrestoring, hothers, hs⟩
    · refine Or.inl ⟨?_, hs⟩
      intro u f hf
      rcases hframes u f hf with ⟨rfl, rfl⟩ | ⟨hu, hf⟩
      · exact not_restoring_code notify op
      · exact hwhole u f hf
    · have hvt : v ≠ t := by
        rintro rfl
        rw [hbusy] at hg
        cases hg
      refine Or.inr ⟨v, g, ?_, hrestoring, ?_, hs⟩
      · rw [Conf.begin_busy, Function.update_of_ne hvt]
        exact hg
      · intro u f huv hf
        rcases hframes u f hf with ⟨rfl, rfl⟩ | ⟨hu, hf⟩
        · exact not_restoring_code notify op
        · exact hothers u f huv hf

theorem simulates_ret (notify signalled : Bool) (effect : T → Option (Option ℤ)) (c : Conf T)
    (t : T) (f : Frame Routine Code) (r : Option ℤ) (h : Simulates notify signalled effect c)
    (hbusy : c.busy t = some f) (hvalue : f.point.value = some r) :
    effect t = some r ∧ Simulates notify signalled effect (c.finish t f r) := by
  rcases h with ⟨hat, hhas⟩
  -- a call that has a value stands at its end, so it restores nothing
  have hpoint : f.point = .ret r := by
    cases hp : f.point with
    | ret value =>
      rw [hp] at hvalue
      cases hvalue
      rfl
    | waitForSingleObject object timeout =>
      rw [hp] at hvalue
      cases hvalue
    | setEvent next =>
      rw [hp] at hvalue
      cases hvalue
    | resetEvent next =>
      rw [hp] at hvalue
      cases hvalue
  have heffect : effect t = some r := by
    have hself := hat t f hbusy
    rw [hpoint] at hself
    generalize f.op = op at hself
    generalize effect t = e at hself
    cases op <;> cases hself <;> rfl
  have hframes : ∀ u g, (c.finish t f r).busy u = some g → u ≠ t ∧ c.busy u = some g := by
    intro u g hg
    rw [Conf.finish_busy] at hg
    by_cases hu : u = t
    · subst hu
      rw [Function.update_self] at hg
      cases hg
    · rw [Function.update_of_ne hu] at hg
      exact ⟨hu, hg⟩
  refine ⟨heffect, ?_, ?_⟩
  · intro u g hg
    exact hat u g (hframes u g hg).2
  · rcases hhas with ⟨hwhole, hs⟩ | ⟨v, g, hg, hrestoring, hothers, hs⟩
    · exact Or.inl ⟨fun u g hg => hwhole u g (hframes u g hg).2, hs⟩
    · have hvt : v ≠ t := by
        rintro rfl
        rw [hbusy] at hg
        cases hg
        rw [hpoint] at hrestoring
        exact not_restoring_ret r hrestoring
      refine Or.inr ⟨v, g, ?_, hrestoring, ?_, hs⟩
      · rw [Conf.finish_busy, Function.update_of_ne hvt]
        exact hg
      · intro u f' huv hf'
        exact hothers u f' huv (hframes u f' hf').2

/-- The runs of an event of a type from the state that `KeInitializeEvent` gives it,
with calls by any number of threads. -/
def Run (T : Type) [DecidableEq T] (type : EventType) (state : UInt8)
    (Ok : Conf T → Linear.Event T Routine → Prop) : List (Linear.Event T Routine) → Conf T → Prop :=
  Trace (fun c => c = idle (keInitializeEvent type state).2)
    (fun c e c' => (event (keInitializeEvent type state).1).Next c e c' ∧ Ok c e)

theorem Run.snoc {type : EventType} {state : UInt8} {Ok : Conf T → Linear.Event T Routine → Prop}
    {es : List (Linear.Event T Routine)} {c c' : Conf T} (h : Run T type state Ok es c)
    (e : Linear.Event T Routine)
    (hnext : (event (keInitializeEvent type state).1).next c e = some c') (hok : Ok c e) :
    Run T type state Ok (es ++ [e]) c' :=
  Trace.snoc h ⟨hnext, hok⟩

/-- The calls of a clean run, at any time when none is in progress, are linearizable,
and the event is in the state in which their sequential order leaves it. -/
theorem linearizable_of_clean {type : EventType} {state : UInt8}
    {es : List (Linear.Event T Routine)} {c : Conf T} (h : Run T type state Clean es c)
    (hquiet : c.Quiet) :
    Linearizable spec (keInitializeEvent type state).2 c.returned c.shared := by
  rcases linearizable_of_points (Simulates (keInitializeEvent type state).1) simulates_init
    (simulates_call _) (simulates_step _) (simulates_ret _) h
    with ⟨signalled, effect, ⟨-, hhas⟩, order, hord⟩
  rcases hhas with ⟨-, rfl⟩ | ⟨t, f, hf, -⟩
  · exact hord.linearizable hquiet
  · rw [hquiet t] at hf
    cases hf

/-- A thread sets a synchronization event, finds it unsignalled and signals it, and
then reads it, while another one clears it between the test and the `SetEvent`. -/
theorem linearizable_of_clean_set_clear_read : ∃ (es : List (Linear.Event Bool Routine))
    (c : Conf Bool), Run Bool .synchronizationEvent 0 Clean es c ∧ c.Quiet ∧
      c.returned.map (fun x => (x.op, x.result)) = [(.keReadStateEvent, some 1),
        (.keSetEvent, some 0), (.keClearEvent, none)] ∧
      Linearizable spec false c.returned c.shared := by
  have h : Run Bool .synchronizationEvent 0 Clean [] (idle false) := Trace.start rfl
  have h := h.snoc (.call false .keSetEvent) rfl trivial
  have h := h.snoc (.call true .keClearEvent) rfl trivial
  have h := h.snoc (.step false) rfl ⟨by decide, by decide, by decide⟩
  have h := h.snoc (.step true) rfl ⟨by decide, by decide, by decide⟩
  have h := h.snoc (.ret true) rfl trivial
  have h := h.snoc (.step false) rfl ⟨by decide, by decide, by decide⟩
  have h := h.snoc (.ret false) rfl trivial
  have h := h.snoc (.call true .keReadStateEvent) rfl trivial
  have h := h.snoc (.step true) rfl ⟨by decide, by decide, by decide⟩
  have h := h.snoc (.step true) rfl ⟨by decide, by decide, by decide⟩
  have h := h.snoc (.ret true) rfl trivial
  exact ⟨_, _, h, by rintro (_ | _) <;> rfl, rfl,
    linearizable_of_clean h (by rintro (_ | _) <;> rfl)⟩

/-- Reads of a signalled event, one after the other. -/
theorem replays_reads {order : List (Call Routine (Option ℤ))} {b : Bool}
    (hall : ∀ x ∈ order, x.op = .keReadStateEvent)
    (h : Replays spec true (order.map fun c => (c.op, c.result)) b) :
    ∀ x ∈ order, x.result = some 1 := by
  induction order with
  | nil =>
    intro x hx
    cases hx
  | cons x rest ih =>
    have hx := hall x (List.mem_cons_self ..)
    rw [List.map_cons, Replays, hx] at h
    intro y hy
    rcases List.mem_cons.1 hy with rfl | hy
    · exact h.1.symm
    · exact ih (fun z hz => hall z (List.mem_cons_of_mem _ hz)) h.2 y hy

/-- Two threads read a signalled synchronization event: the test of the first takes
the signal away and the second returns `FALSE`. -/
theorem readers_not_linearizable : ∃ (es : List (Linear.Event Bool Routine)) (c : Conf Bool),
    Run Bool .synchronizationEvent 1 (fun _ _ => True) es c ∧ c.Quiet ∧
      ¬ Linearizable spec true c.returned c.shared := by
  have h : Run Bool .synchronizationEvent 1 (fun _ _ => True) [] (idle true) := Trace.start rfl
  have h := h.snoc (.call false .keReadStateEvent) rfl trivial
  have h := h.snoc (.call true .keReadStateEvent) rfl trivial
  have h := h.snoc (.step false) rfl trivial
  have h := h.snoc (.step true) rfl trivial
  have h := h.snoc (.step false) rfl trivial
  have h := h.snoc (.ret false) rfl trivial
  have h := h.snoc (.ret true) rfl trivial
  refine ⟨_, _, h, by rintro (_ | _) <;> rfl, ?_⟩
  rintro ⟨order, hperm, -, hreplays⟩
  -- in any order both calls would have to return `TRUE`
  have hall : ∀ x ∈ order, x.op = .keReadStateEvent := by
    intro x hx
    rcases List.mem_cons.1 (hperm.mem_iff.1 hx) with rfl | hx
    · rfl
    · rw [List.mem_singleton.1 hx]
  have hmem : (⟨.keReadStateEvent, some 0, 1, 6⟩ : Call Routine (Option ℤ)) ∈ order :=
    hperm.mem_iff.2 (List.mem_cons_self ..)
  have hone := replays_reads hall hreplays _ hmem
  cases hone

end Wdutf.Ke.Event
