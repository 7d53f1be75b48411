import Mathlib.Data.List.Basic
import Mathlib.Data.List.Nodup
import Mathlib.Logic.Function.Basic
import Mathlib.Tactic.Common
import Wdutf.Io.Irp
import Wdutf.Lib.Threads

/-!
# Wdutf.Io.Synchronous — requests that are waited for, `src/irp.cpp`

`DdkSynchronousIrp` hands a request to the drivers of a device, with an event on its own stack
for the completion routine, and waits for the event when they return `STATUS_PENDING`.
`DdkIrpCompletion` sets the event, on whatever thread the request is completed, and keeps the
request from the rest of `IofCompleteRequest`. Once the event is set, the request may be freed
and the call may return at any time, and the next call may use the same memory.

* `Act` — the steps of all calls of `DdkSynchronousIrp`, and of `IofCompleteRequest` from the
  place where it finds the routine;
* `Answered` — what the drivers keep to when they return;
* `RequestOk`, `AtPoint` — who has a request, and what a call knows where it stands;
* `synchronousIrp_sound` — no call uses memory that has been given back, and each returns once,
  with the status of the one completion of its request.
-/

namespace Wdutf.Io.Synchronous

open Wdutf.Threads Wdutf.Transition Wdutf.Io

/-! ## The model -/

/-- Who has a request: the drivers, the routine that completes it, or the call that made it. -/
inductive Owner where
  | drivers
  | completion
  | caller
deriving DecidableEq, Repr

def statusPending : NtStatus := 0x103

/-- An `IRP`: the `Context` of the completion routine, the status, and the call it is of. -/
structure Request where
  context : ℕ
  status : NtStatus
  call : ℕ
deriving DecidableEq, Repr

/-- The memory at each address, the objects of the kernel, and what has happened so far. -/
structure Shared where
  irps : ℕ → Option Request
  /-- The handle in each `KEVENT`. -/
  events : ℕ → Option ℕ
  /-- The events behind the handles. -/
  signaled : ℕ → Bool
  nextHandle : ℕ
  owner : ℕ → Owner
  nextCall : ℕ
  completed : List (ℕ × NtStatus)
  returned : List (ℕ × NtStatus)

/-- Where a call stands. -/
inductive Pc where
  | idle
  -- `DdkSynchronousIrp`
  | called (irp event : ℕ)
  | wait (irp event : ℕ)
  | waiting (irp event handle : ℕ)
  | read (irp event : ℕ)
  | free (irp event : ℕ) (status : NtStatus)
  -- `IofCompleteRequest`
  | complete (irp : ℕ)
  -- `KeSetEvent`
  | test (irp event : ℕ)
  | set (irp event : ℕ)
  /-- Memory is used that has been given back. -/
  | failed
deriving DecidableEq, Repr

/-- The next step uses the request. The drivers use what they have. -/
def UsesIrp (s : Shared) (l : Pc) (a : ℕ) : Prop :=
  match l with
  | .idle => s.owner a = .drivers
  | .read irp _ | .free irp _ _ | .complete irp => a = irp
  | _ => False

/-- The next step uses the event. -/
def UsesEvent (l : Pc) (e : ℕ) : Prop :=
  match l with
  | .wait _ event | .test _ event | .set _ event => e = event
  | _ => False

/-- The steps of the call `t`. A call within another one has its own steps. -/
inductive Act {T : Type} (t : T) : Shared → Pc → Shared → Pc → Prop
  | issue {s : Shared} (a e : ℕ) :
      s.irps a = none → s.events e = none →
      Act t s .idle
        { s with
          irps := Function.update s.irps a (some ⟨e, 0, s.nextCall⟩)
          events := Function.update s.events e (some s.nextHandle)
          nextHandle := s.nextHandle + 1
          owner := Function.update s.owner a .drivers
          nextCall := s.nextCall + 1 }
        (.called a e)
  -- a driver sets the status, as often as it likes
  | status {s : Shared} {a : ℕ} {x : Request} (status : NtStatus) :
      s.owner a = .drivers → s.irps a = some x →
      Act t s .idle { s with irps := Function.update s.irps a (some { x with status := status }) }
        .idle
  | pending {s : Shared} {a e : ℕ} : Act t s (.called a e) s (.wait a e)
  -- the drivers return another status
  | returns {s : Shared} {a e : ℕ} (status : NtStatus) :
      status ≠ statusPending → Act t s (.called a e) s (.free a e status)
  | wait {s : Shared} {a e h : ℕ} :
      s.events e = some h → Act t s (.wait a e) s (.waiting a e h)
  | wake {s : Shared} {a e h : ℕ} :
      s.signaled h = true → Act t s (.waiting a e h) s (.read a e)
  | read {s : Shared} {a e : ℕ} {x : Request} :
      s.irps a = some x → Act t s (.read a e) s (.free a e x.status)
  | free {s : Shared} {a e : ℕ} {x : Request} {status : NtStatus} :
      s.irps a = some x →
      Act t s (.free a e status)
        { s with
          irps := Function.update s.irps a none
          events := Function.update s.events e none
          returned := s.returned ++ [(x.call, status)] }
        .idle
  | complete {s : Shared} (a : ℕ) :
      s.owner a = .drivers →
      Act t s .idle { s with owner := Function.update s.owner a .completion } (.complete a)
  | invoke {s : Shared} {a : ℕ} {x : Request} :
      s.irps a = some x → Act t s (.complete a) s (.test a x.context)
  | test {s : Shared} {a e h : ℕ} :
      s.events e = some h → s.signaled h = false → Act t s (.test a e) s (.set a e)
  -- `KeSetEvent` finds the event set and leaves it so
  | tested {s : Shared} {a e h : ℕ} :
      s.events e = some h → s.signaled h = true →
      Act t s (.test a e)
        { s with
          owner := Function.update s.owner a .caller
          completed := s.completed ++ (s.irps a).toList.map fun x => (x.call, x.status) }
        .idle
  | set {s : Shared} {a e h : ℕ} :
      s.events e = some h →
      Act t s (.set a e)
        { s with
          signaled := Function.update s.signaled h true
          owner := Function.update s.owner a .caller
          completed := s.completed ++ (s.irps a).toList.map fun x => (x.call, x.status) }
        .idle
  | violationIrp {s : Shared} {l : Pc} {a : ℕ} :
      UsesIrp s l a → s.irps a = none → Act t s l s .failed
  | violationEvent {s : Shared} {l : Pc} {e : ℕ} :
      UsesEvent l e → s.events e = none → Act t s l s .failed

/-- What is relied on of the drivers, for a step from `l` to `l'`: where they return another
status than `STATUS_PENDING` for a request, it has been completed, and with that status. -/
def Answered (s : Shared) (l l' : Pc) : Prop :=
  ∀ a e status, l = .called a e → l' = .free a e status →
    s.owner a = .caller ∧ ∃ x, s.irps a = some x ∧ x.status = status

/-- The steps with such drivers. -/
def Driven {T : Type} (t : T) (s : Shared) (l : Pc) (s' : Shared) (l' : Pc) : Prop :=
  Act t s l s' l' ∧ Answered s l l'

/-- There are no requests yet. -/
def Init {T : Type} (c : Conf Shared T Pc) : Prop :=
  c.shared = ⟨fun _ => none, fun _ => none, fun _ => false, 0, fun _ => .caller, 0, [], []⟩ ∧
    ∀ t, c.pc t = .idle

/-! ## The invariant -/

variable {T : Type}

/-- The call that has made a request, and the one that completes it. -/
structure Roles (T : Type) where
  caller : ℕ → Option T
  completer : ℕ → Option T

/-- What is known of a request. -/
structure RequestOk (g : Roles T) (s : Shared) (a : ℕ) (x : Request) : Prop where
  caller : g.caller a ≠ none
  completer : g.completer a ≠ none ↔ s.owner a = .completion
  event : ∃ h, s.events x.context = some h ∧ (s.signaled h = true ↔ s.owner a = .caller)
  call : x.call < s.nextCall
  completed : s.owner a = .caller → (x.call, x.status) ∈ s.completed
  incomplete : s.owner a ≠ .caller → x.call ∉ s.completed.map Prod.fst
  outstanding : x.call ∉ s.returned.map Prod.fst

/-- What holds of the shared data after every step. -/
structure SharedOk (g : Roles T) (s : Shared) : Prop where
  request : ∀ a x, s.irps a = some x → RequestOk g s a x
  free : ∀ a, s.irps a = none → g.caller a = none ∧ g.completer a = none ∧ s.owner a = .caller
  context : ∀ a b x y, s.irps a = some x → s.irps b = some y → x.context = y.context → a = b
  one : ∀ a b x y, s.irps a = some x → s.irps b = some y → x.call = y.call → a = b
  event : ∀ e h, s.events e = some h → h < s.nextHandle ∧ ∃ a x, s.irps a = some x ∧ x.context = e
  handle : ∀ e e' h, s.events e = some h → s.events e' = some h → e = e'
  unused : ∀ h, s.nextHandle ≤ h → s.signaled h = false
  numbers : ∀ p ∈ s.completed, p.1 < s.nextCall
  completed : (s.completed.map Prod.fst).Nodup
  returned : (s.returned.map Prod.fst).Nodup
  both : ∀ p ∈ s.returned, p ∈ s.completed

/-- The request that a call has made. -/
def Pc.makes : Pc → Option ℕ
  | .called a _ | .wait a _ | .waiting a _ _ | .read a _ | .free a _ _ => some a
  | _ => none

/-- The request that a call completes. -/
def Pc.completes : Pc → Option ℕ
  | .complete a | .test a _ | .set a _ => some a
  | _ => none

/-- What a call knows of its request. -/
def Pc.Knows (s : Shared) : Pc → Prop
  | .called a e | .wait a e | .test a e | .set a e =>
    ∃ x, s.irps a = some x ∧ x.context = e
  | .waiting a e h => (∃ x, s.irps a = some x ∧ x.context = e) ∧ s.events e = some h
  | .read a e => (∃ x, s.irps a = some x ∧ x.context = e) ∧ s.owner a = .caller
  | .free a e status =>
    ∃ x, s.irps a = some x ∧ x.context = e ∧ x.status = status ∧ s.owner a = .caller
  | .failed => False
  | _ => True

/-- What holds of a call where it stands. -/
structure AtPoint (t : T) (g : Roles T) (s : Shared) (l : Pc) : Prop where
  makes : ∀ a, g.caller a = some t ↔ l.makes = some a
  completes : ∀ a, g.completer a = some t ↔ l.completes = some a
  knows : l.Knows s

/-- What a step of another call leaves alone. -/
structure Rely (u : T) (g g' : Roles T) (s s' : Shared) : Prop where
  caller : ∀ a, g'.caller a = some u ↔ g.caller a = some u
  completer : ∀ a, g'.completer a = some u ↔ g.completer a = some u
  request : ∀ a x, g.caller a = some u ∨ g.completer a = some u → s.irps a = some x →
    s'.events x.context = s.events x.context ∧
      ∃ x', s'.irps a = some x' ∧ x'.context = x.context ∧
        (s.owner a = .caller → s'.owner a = .caller ∧ x'.status = x.status)

theorem atPoint_stable {u : T} {g g' : Roles T} {s s' : Shared} {l : Pc} (h : Rely u g g' s s')
    (hat : AtPoint u g s l) : AtPoint u g' s' l := by
  refine ⟨fun a => (h.caller a).trans (hat.makes a),
    fun a => (h.completer a).trans (hat.completes a), ?_⟩
  have hmakes : ∀ a, l.makes = some a → g.caller a = some u := fun a => (hat.makes a).2
  have hcompletes : ∀ a, l.completes = some a → g.completer a = some u :=
    fun a => (hat.completes a).2
  have hknows := hat.knows
  cases l with
  | idle | complete => trivial
  | failed => exact hknows
  | called a e | wait a e =>
    rcases hknows with ⟨x, hx, rfl⟩
    rcases h.request a x (Or.inl (hmakes a rfl)) hx with ⟨-, x', hx', hcontext, -⟩
    exact ⟨x', hx', hcontext⟩
  | test a e | set a e =>
    rcases hknows with ⟨x, hx, rfl⟩
    rcases h.request a x (Or.inr (hcompletes a rfl)) hx with ⟨-, x', hx', hcontext, -⟩
    exact ⟨x', hx', hcontext⟩
  | waiting a e handle =>
    rcases hknows with ⟨⟨x, hx, rfl⟩, hevent⟩
    rcases h.request a x (Or.inl (hmakes a rfl)) hx with ⟨hevents, x', hx', hcontext, -⟩
    exact ⟨⟨x', hx', hcontext⟩, hevents.trans hevent⟩
  | read a e =>
    rcases hknows with ⟨⟨x, hx, rfl⟩, howner⟩
    rcases h.request a x (Or.inl (hmakes a rfl)) hx with ⟨-, x', hx', hcontext, hkeep⟩
    exact ⟨⟨x', hx', hcontext⟩, (hkeep howner).1⟩
  | free a e status =>
    rcases hknows with ⟨x, hx, rfl, hstatus, howner⟩
    rcases h.request a x (Or.inl (hmakes a rfl)) hx with ⟨-, x', hx', hcontext, hkeep⟩
    exact ⟨x', hx', hcontext, (hkeep howner).2.trans hstatus, (hkeep howner).1⟩

/-! ## Steps -/

/-- The conclusion of a step for the rule of `Wdutf.Lib.Threads`. -/
def StepOk (g : Roles T) (c : Conf Shared T Pc) (t : T) (s' : Shared) (l' : Pc) : Prop :=
  ∃ g', SharedOk g' s' ∧ AtPoint t g' s' l' ∧
    ∀ u, u ≠ t → AtPoint u g c.shared (c.pc u) → AtPoint u g' s' (c.pc u)

variable {g g' : Roles T} {c : Conf Shared T Pc} {t : T} {s s' : Shared} {l l' : Pc} {a e h : ℕ}
  {x : Request}

/-- A step on no shared data. -/
theorem stepOk_local (hok : SharedOk g c.shared) (hat : AtPoint t g c.shared l)
    (hmakes : l'.makes = l.makes) (hcompletes : l'.completes = l.completes)
    (hknows : l'.Knows c.shared) : StepOk g c t c.shared l' := by
  refine ⟨g, hok, ⟨?_, ?_, hknows⟩, fun _ _ hatu => hatu⟩
  · rw [hmakes]
    exact hat.makes
  · rw [hcompletes]
    exact hat.completes

/-- What the drivers have is a request. -/
theorem SharedOk.drivers (hok : SharedOk g s) (h : s.owner a = .drivers) :
    ∃ x, s.irps a = some x ∧ RequestOk g s a x ∧ g.completer a = none := by
  cases hx : s.irps a with
  | none =>
    have howner := (hok.free a hx).2.2
    rw [h] at howner
    cases howner
  | some x =>
    have hreq := hok.request a x hx
    refine ⟨x, rfl, hreq, ?_⟩
    by_contra hne
    have howner := hreq.completer.1 hne
    rw [h] at howner
    cases howner

/-- A request that a step is not about. -/
theorem RequestOk.frame (hreq : RequestOk g s a x) (hcaller : g'.caller a = g.caller a)
    (hcompleter : g'.completer a = g.completer a) (howner : s'.owner a = s.owner a)
    (hevents : s'.events x.context = s.events x.context)
    (hsignaled : ∀ h, s.events x.context = some h → s'.signaled h = s.signaled h)
    (hcall : s.nextCall ≤ s'.nextCall)
    (hcompleted : ∀ p : ℕ × NtStatus, p.1 = x.call → (p ∈ s'.completed ↔ p ∈ s.completed))
    (hreturned : ∀ p : ℕ × NtStatus, p.1 = x.call → (p ∈ s'.returned ↔ p ∈ s.returned)) :
    RequestOk g' s' a x := by
  refine ⟨?_, ?_, ?_, Nat.lt_of_lt_of_le hreq.call hcall, ?_, ?_, ?_⟩
  · rw [hcaller]
    exact hreq.caller
  · rw [hcompleter, howner]
    exact hreq.completer
  · rcases hreq.event with ⟨h, hevent, hiff⟩
    refine ⟨h, hevents.trans hevent, ?_⟩
    rw [hsignaled h hevent, howner]
    exact hiff
  · rw [howner]
    exact fun h => (hcompleted _ rfl).2 (hreq.completed h)
  · rw [howner]
    intro h hmem
    rcases List.mem_map.1 hmem with ⟨p, hp, hpx⟩
    exact hreq.incomplete h (List.mem_map.2 ⟨p, (hcompleted p hpx).1 hp, hpx⟩)
  · intro hmem
    rcases List.mem_map.1 hmem with ⟨p, hp, hpx⟩
    exact hreq.outstanding (List.mem_map.2 ⟨p, (hreturned p hpx).1 hp, hpx⟩)

/-- A driver sets the status of a request it has. -/
theorem stepOk_status (status : NtStatus) (hok : SharedOk g c.shared)
    (hat : AtPoint t g c.shared .idle) (howner : c.shared.owner a = .drivers)
    (hx : c.shared.irps a = some x) :
    StepOk g c t { c.shared with
        irps := Function.update c.shared.irps a (some { x with status := status }) } .idle := by
  -- every request is still there, with its event and its number
  have hback : ∀ b y,
      Function.update c.shared.irps a (some { x with status := status }) b = some y →
      ∃ z, c.shared.irps b = some z ∧ z.context = y.context ∧ z.call = y.call ∧
        (b ≠ a → z = y) := by
    intro b y hy
    by_cases hb : b = a
    · rw [hb, Function.update_self] at hy
      cases hy
      exact ⟨x, by rw [hb, hx], rfl, rfl, fun h => absurd hb h⟩
    · rw [Function.update_of_ne hb] at hy
      exact ⟨y, hy, rfl, rfl, fun _ => rfl⟩
  refine ⟨g, ⟨?_, ?_, ?_, ?_, ?_, hok.handle, hok.unused, hok.numbers, hok.completed, hok.returned,
    hok.both⟩, ⟨hat.makes, hat.completes, trivial⟩, ?_⟩
  · intro b y hy
    rcases hback b y hy with ⟨z, hz, hcontext, hcall, hsame⟩
    have hreq := hok.request b z hz
    refine ⟨hreq.caller, hreq.completer, ?_, ?_, ?_, ?_, ?_⟩
    · rw [← hcontext]
      exact hreq.event
    · rw [← hcall]
      exact hreq.call
    · intro hcaller
      have hb : b ≠ a := by
        rintro rfl
        have hcaller' : c.shared.owner b = .caller := hcaller
        rw [howner] at hcaller'
        cases hcaller'
      rw [← hsame hb]
      exact hreq.completed hcaller
    · rw [← hcall]
      exact hreq.incomplete
    · rw [← hcall]
      exact hreq.outstanding
  · intro b hb
    refine hok.free b ?_
    by_cases hba : b = a
    · have hb' : Function.update c.shared.irps a (some { x with status := status }) b = none := hb
      rw [hba, Function.update_self] at hb'
      cases hb'
    · exact (Function.update_of_ne hba _ _).symm.trans hb
  · intro b b' y y' hy hy' heq
    rcases hback b y hy with ⟨z, hz, hcontext, -⟩
    rcases hback b' y' hy' with ⟨z', hz', hcontext', -⟩
    exact hok.context b b' z z' hz hz' (by rw [hcontext, hcontext', heq])
  · intro b b' y y' hy hy' heq
    rcases hback b y hy with ⟨z, hz, -, hcall, -⟩
    rcases hback b' y' hy' with ⟨z', hz', -, hcall', -⟩
    exact hok.one b b' z z' hz hz' (by rw [hcall, hcall', heq])
  · intro e h he
    rcases hok.event e h he with ⟨hlt, b, y, hy, hcontext⟩
    refine ⟨hlt, b, ?_⟩
    by_cases hb : b = a
    · rw [hb] at hy
      rw [hx] at hy
      cases hy
      exact ⟨{ x with status := status }, by rw [hb]; exact Function.update_self .., hcontext⟩
    · exact ⟨y, (Function.update_of_ne hb _ _).trans hy, hcontext⟩
  · intro u _ hatu
    refine atPoint_stable ⟨fun _ => Iff.rfl, fun _ => Iff.rfl, ?_⟩ hatu
    intro b y _ hy
    refine ⟨rfl, ?_⟩
    by_cases hb : b = a
    · rw [hb] at hy ⊢
      rw [hx] at hy
      cases hy
      refine ⟨_, Function.update_self .., rfl, fun h => ?_⟩
      rw [howner] at h
      cases h
    · exact ⟨y, (Function.update_of_ne hb _ _).trans hy, rfl, fun h => ⟨h, rfl⟩⟩

/-- A request is completed. -/
theorem stepOk_complete (hok : SharedOk g c.shared) (hat : AtPoint t g c.shared .idle)
    (howner : c.shared.owner a = .drivers) :
    StepOk g c t { c.shared with owner := Function.update c.shared.owner a .completion }
      (.complete a) := by
  rcases hok.drivers howner with ⟨x, hx, hreq, hnone⟩
  refine ⟨{ g with completer := Function.update g.completer a (some t) }, ⟨?_, ?_, hok.context,
    hok.one, hok.event, hok.handle, hok.unused, hok.numbers, hok.completed, hok.returned,
    hok.both⟩, ⟨hat.makes, fun b => role_set hat.completes, trivial⟩, ?_⟩
  · intro b y hy
    by_cases hb : b = a
    · subst hb
      have hy' : c.shared.irps b = some y := hy
      rw [hx] at hy'
      cases hy'
      rcases hreq.event with ⟨h, hevent, hsignaled⟩
      refine ⟨hreq.caller, ?_, ⟨h, hevent, ?_⟩, hreq.call, ?_, ?_, hreq.outstanding⟩
      · simp
      · show c.shared.signaled h = true ↔ Function.update c.shared.owner b .completion b = .caller
        rw [hsignaled, howner, Function.update_self]
        simp
      · intro hcaller
        have hcaller' : Function.update c.shared.owner b .completion b = .caller := hcaller
        rw [Function.update_self] at hcaller'
        cases hcaller'
      · intro _
        refine hreq.incomplete ?_
        rw [howner]
        exact fun h => by cases h
    · exact (hok.request b y hy).frame rfl (Function.update_of_ne hb _ _)
        (Function.update_of_ne hb _ _) rfl (fun _ _ => rfl) (Nat.le_refl _) (fun _ _ => Iff.rfl)
        (fun _ _ => Iff.rfl)
  · intro b hb
    have hb' : c.shared.irps b = none := hb
    have hba : b ≠ a := by
      rintro rfl
      rw [hx] at hb'
      cases hb'
    rcases hok.free b hb' with ⟨hcaller, hcompleter, hown⟩
    exact ⟨hcaller, (Function.update_of_ne hba _ _).trans hcompleter,
      (Function.update_of_ne hba _ _).trans hown⟩
  · intro u hu hatu
    refine atPoint_stable (g := g) (s := c.shared) ⟨fun _ => Iff.rfl, ?_, ?_⟩ hatu
    · intro b
      exact role_other (some_ne_of_ne hu) (by rw [hnone]; exact fun h => by cases h)
    · intro b y hroles hy
      refine ⟨rfl, y, hy, rfl, fun h => ⟨?_, rfl⟩⟩
      have hba : b ≠ a := by
        rintro rfl
        rw [howner] at h
        cases h
      exact (Function.update_of_ne hba _ _).trans h

/-- A request is made, where memory is free. -/
theorem stepOk_issue (hok : SharedOk g c.shared) (hat : AtPoint t g c.shared .idle)
    (ha : c.shared.irps a = none) (he : c.shared.events e = none) :
    StepOk g c t
      { c.shared with
        irps := Function.update c.shared.irps a (some ⟨e, 0, c.shared.nextCall⟩)
        events := Function.update c.shared.events e (some c.shared.nextHandle)
        nextHandle := c.shared.nextHandle + 1
        owner := Function.update c.shared.owner a .drivers
        nextCall := c.shared.nextCall + 1 }
      (.called a e) := by
  rcases hok.free a ha with ⟨hcaller, hcompleter, howner⟩
  -- no other request has this event or this number
  have hcontext : ∀ b y, c.shared.irps b = some y → y.context ≠ e := by
    rintro b y hy rfl
    rcases (hok.request b y hy).event with ⟨h, hevent, -⟩
    rw [he] at hevent
    cases hevent
  have hnumber : ∀ b y, c.shared.irps b = some y → y.call ≠ c.shared.nextCall :=
    fun b y hy => Nat.ne_of_lt (hok.request b y hy).call
  have hnew : ∀ p ∈ c.shared.completed, p.1 ≠ c.shared.nextCall :=
    fun p hp => Nat.ne_of_lt (hok.numbers p hp)
  have hold : ∀ {b y}, Function.update c.shared.irps a (some ⟨e, 0, c.shared.nextCall⟩) b = some y →
      b = a ∧ y = ⟨e, 0, c.shared.nextCall⟩ ∨ b ≠ a ∧ c.shared.irps b = some y := by
    intro b y hy
    by_cases hb : b = a
    · rw [hb, Function.update_self] at hy
      exact Or.inl ⟨hb, (Option.some.inj hy).symm⟩
    · rw [Function.update_of_ne hb] at hy
      exact Or.inr ⟨hb, hy⟩
  refine ⟨{ g with caller := Function.update g.caller a (some t) }, ⟨?_, ?_, ?_, ?_, ?_, ?_, ?_, ?_,
    hok.completed, hok.returned, hok.both⟩, ⟨fun b => role_set hat.makes, hat.completes,
    ⟨_, Function.update_self .., rfl⟩⟩, ?_⟩
  · intro b y hy
    rcases hold hy with ⟨rfl, rfl⟩ | ⟨hb, hy⟩
    · refine ⟨?_, ?_, ⟨c.shared.nextHandle, Function.update_self .., ?_⟩, Nat.lt_succ_self _, ?_,
        ?_, ?_⟩
      · show Function.update g.caller b (some t) b ≠ none
        rw [Function.update_self]
        exact Option.some_ne_none t
      · show g.completer b ≠ none ↔ Function.update c.shared.owner b .drivers b = .completion
        rw [Function.update_self, hcompleter]
        simp
      · show c.shared.signaled _ = true ↔ Function.update c.shared.owner b .drivers b = .caller
        rw [Function.update_self, hok.unused _ (Nat.le_refl _)]
        simp
      · intro h
        have h' : Function.update c.shared.owner b .drivers b = .caller := h
        rw [Function.update_self] at h'
        cases h'
      · intro _ hmem
        rcases List.mem_map.1 hmem with ⟨p, hp, hpx⟩
        exact hnew p hp hpx
      · intro hmem
        rcases List.mem_map.1 hmem with ⟨p, hp, hpx⟩
        exact hnew p (hok.both p hp) hpx
    · refine (hok.request b y hy).frame (Function.update_of_ne hb _ _) rfl
        (Function.update_of_ne hb _ _) (Function.update_of_ne (hcontext b y hy) _ _)
        (fun _ _ => rfl) (Nat.le_succ _) (fun _ _ => Iff.rfl) (fun _ _ => Iff.rfl)
  · intro b hb
    have hb' : Function.update c.shared.irps a (some ⟨e, 0, c.shared.nextCall⟩) b = none := hb
    have hba : b ≠ a := by
      rintro rfl
      rw [Function.update_self] at hb'
      cases hb'
    rw [Function.update_of_ne hba] at hb'
    rcases hok.free b hb' with ⟨hcaller', hcompleter', howner'⟩
    exact ⟨(Function.update_of_ne hba _ _).trans hcaller', hcompleter',
      (Function.update_of_ne hba _ _).trans howner'⟩
  · intro b b' y y' h h' heq
    rcases hold h with ⟨hb, hy⟩ | ⟨-, hy⟩
    · rcases hold h' with ⟨hb', -⟩ | ⟨-, hy'⟩
      · rw [hb, hb']
      · rw [hy] at heq
        exact absurd heq.symm (hcontext b' y' hy')
    · rcases hold h' with ⟨-, hy'⟩ | ⟨-, hy'⟩
      · rw [hy'] at heq
        exact absurd heq (hcontext b y hy)
      · exact hok.context b b' y y' hy hy' heq
  · intro b b' y y' h h' heq
    rcases hold h with ⟨hb, hy⟩ | ⟨-, hy⟩
    · rcases hold h' with ⟨hb', -⟩ | ⟨-, hy'⟩
      · rw [hb, hb']
      · rw [hy] at heq
        exact absurd heq.symm (hnumber b' y' hy')
    · rcases hold h' with ⟨-, hy'⟩ | ⟨-, hy'⟩
      · rw [hy'] at heq
        exact absurd heq (hnumber b y hy)
      · exact hok.one b b' y y' hy hy' heq
  · intro e' h' he'
    by_cases hee : e' = e
    · have heq : Function.update c.shared.events e (some c.shared.nextHandle) e' = some h' := he'
      rw [hee, Function.update_self] at heq
      rw [← Option.some.inj heq]
      exact ⟨Nat.lt_succ_self _, a, _, Function.update_self .., hee.symm⟩
    · have heq : Function.update c.shared.events e (some c.shared.nextHandle) e' = some h' := he'
      rw [Function.update_of_ne hee] at heq
      rcases hok.event e' h' heq with ⟨hlt, b, y, hy, hcontext'⟩
      refine ⟨Nat.lt_succ_of_lt hlt, b, y, ?_, hcontext'⟩
      have hba : b ≠ a := by
        rintro rfl
        rw [ha] at hy
        cases hy
      exact (Function.update_of_ne hba _ _).trans hy
  · intro e₁ e₂ h' h₁ h₂
    have h₁' : Function.update c.shared.events e (some c.shared.nextHandle) e₁ = some h' := h₁
    have h₂' : Function.update c.shared.events e (some c.shared.nextHandle) e₂ = some h' := h₂
    by_cases he₁ : e₁ = e
    · by_cases he₂ : e₂ = e
      · rw [he₁, he₂]
      · rw [he₁, Function.update_self] at h₁'
        rw [Function.update_of_ne he₂] at h₂'
        have hlt := (hok.event e₂ h' h₂').1
        rw [← Option.some.inj h₁'] at hlt
        exact absurd hlt (Nat.lt_irrefl _)
    · rw [Function.update_of_ne he₁] at h₁'
      by_cases he₂ : e₂ = e
      · rw [he₂, Function.update_self] at h₂'
        have hlt := (hok.event e₁ h' h₁').1
        rw [← Option.some.inj h₂'] at hlt
        exact absurd hlt (Nat.lt_irrefl _)
      · rw [Function.update_of_ne he₂] at h₂'
        exact hok.handle e₁ e₂ h' h₁' h₂'
  · exact fun h' hh => hok.unused h' (Nat.le_of_succ_le hh)
  · exact fun p hp => Nat.lt_succ_of_lt (hok.numbers p hp)
  · intro u hu hatu
    refine atPoint_stable (g := g) (s := c.shared) ⟨?_, fun _ => Iff.rfl, ?_⟩ hatu
    · intro b
      exact role_other (some_ne_of_ne hu) (by rw [hcaller]; exact fun h => by cases h)
    · intro b y hroles hy
      have hba : b ≠ a := by
        rintro rfl
        rw [ha] at hy
        cases hy
      exact ⟨Function.update_of_ne (hcontext b y hy) _ _, y,
        (Function.update_of_ne hba _ _).trans hy, rfl,
        fun h => ⟨(Function.update_of_ne hba _ _).trans h, rfl⟩⟩

/-- A request is freed, and the call returns. -/
theorem stepOk_free {status : NtStatus} (hok : SharedOk g c.shared)
    (hat : AtPoint t g c.shared (.free a e status)) (hx : c.shared.irps a = some x) :
    StepOk g c t
      { c.shared with
        irps := Function.update c.shared.irps a none
        events := Function.update c.shared.events e none
        returned := c.shared.returned ++ [(x.call, status)] }
      .idle := by
  have hcaller : g.caller a = some t := (hat.makes a).2 rfl
  rcases hat.knows with ⟨x', hx', rfl, rfl, howner⟩
  rw [hx] at hx'
  cases hx'
  have hreq := hok.request a x hx
  have hcompleter : g.completer a = none := by
    by_contra hne
    have hcompletion := hreq.completer.1 hne
    rw [howner] at hcompletion
    cases hcompletion
  have hcompleted := hreq.completed howner
  have hold : ∀ {b y}, Function.update c.shared.irps a none b = some y →
      b ≠ a ∧ c.shared.irps b = some y := by
    intro b y hy
    by_cases hb : b = a
    · rw [hb, Function.update_self] at hy
      cases hy
    · rw [Function.update_of_ne hb] at hy
      exact ⟨hb, hy⟩
  -- the other requests have other events and numbers
  have hcontext : ∀ {b y}, b ≠ a → c.shared.irps b = some y → y.context ≠ x.context :=
    fun hb hy heq => hb (hok.context _ a _ x hy hx heq)
  have hnumber : ∀ {b y}, b ≠ a → c.shared.irps b = some y → y.call ≠ x.call :=
    fun hb hy heq => hb (hok.one _ a _ x hy hx heq)
  have hevents : ∀ {e' h'}, Function.update c.shared.events x.context none e' = some h' →
      e' ≠ x.context ∧ c.shared.events e' = some h' := by
    intro e' h' he'
    by_cases hee : e' = x.context
    · rw [hee, Function.update_self] at he'
      cases he'
    · rw [Function.update_of_ne hee] at he'
      exact ⟨hee, he'⟩
  refine ⟨{ g with caller := Function.update g.caller a none }, ⟨?_, ?_, ?_, ?_, ?_, ?_, hok.unused,
    hok.numbers, hok.completed, ?_, ?_⟩,
    ⟨fun b => role_clear hat.makes fun _ h => (Option.some.inj h).symm, hat.completes, trivial⟩, ?_⟩
  · intro b y hy
    rcases hold hy with ⟨hb, hy'⟩
    refine (hok.request b y hy').frame (Function.update_of_ne hb _ _) rfl rfl
      (Function.update_of_ne (hcontext hb hy') _ _) (fun _ _ => rfl) (Nat.le_refl _)
      (fun _ _ => Iff.rfl) ?_
    intro p hp
    show p ∈ c.shared.returned ++ [(x.call, x.status)] ↔ _
    rw [List.mem_append, List.mem_singleton]
    constructor
    · rintro (hmem | rfl)
      · exact hmem
      · exact absurd hp.symm (hnumber hb hy')
    · exact Or.inl
  · intro b hb
    by_cases hba : b = a
    · rw [hba]
      exact ⟨Function.update_self .., hcompleter, howner⟩
    · rcases hok.free b ((Function.update_of_ne hba _ _).symm.trans hb) with ⟨h₁, h₂, h₃⟩
      exact ⟨(Function.update_of_ne hba _ _).trans h₁, h₂, h₃⟩
  · intro b b' y y' hy hy' heq
    exact hok.context b b' y y' (hold hy).2 (hold hy').2 heq
  · intro b b' y y' hy hy' heq
    exact hok.one b b' y y' (hold hy).2 (hold hy').2 heq
  · intro e' h' he'
    rcases hevents he' with ⟨hne, he''⟩
    rcases hok.event e' h' he'' with ⟨hlt, b, y, hy, hyc⟩
    refine ⟨hlt, b, y, ?_, hyc⟩
    have hba : b ≠ a := by
      rintro rfl
      rw [hx] at hy
      cases hy
      exact hne hyc.symm
    exact (Function.update_of_ne hba _ _).trans hy
  · exact fun e₁ e₂ h' h₁ h₂ => hok.handle e₁ e₂ h' (hevents h₁).2 (hevents h₂).2
  · show ((c.shared.returned ++ [(x.call, x.status)]).map Prod.fst).Nodup
    rw [List.map_append, List.nodup_append]
    refine ⟨hok.returned, List.nodup_singleton _, ?_⟩
    rintro n hn m hm rfl
    rw [List.mem_singleton.1 hm] at hn
    exact hreq.outstanding hn
  · intro p hp
    rcases List.mem_append.1 hp with hp | hp
    · exact hok.both p hp
    · rw [List.mem_singleton.1 hp]
      exact hcompleted
  · intro u hu hatu
    refine atPoint_stable (g := g) (s := c.shared) ⟨?_, fun _ => Iff.rfl, ?_⟩ hatu
    · intro b
      refine role_other (fun h => by cases h) ?_
      rw [hcaller]
      exact some_ne_of_ne hu
    · intro b y hroles hy
      have hba : b ≠ a := by
        rintro rfl
        rw [hcaller, hcompleter] at hroles
        rcases hroles with h | h
        · exact some_ne_of_ne hu h
        · cases h
      exact ⟨Function.update_of_ne (hcontext hba hy) _ _, y,
        (Function.update_of_ne hba _ _).trans hy, rfl, fun h => ⟨h, rfl⟩⟩

/-- The event is set, and the request is the caller's. -/
theorem stepOk_set (hok : SharedOk g c.shared) (hat : AtPoint t g c.shared (.set a e))
    (he : c.shared.events e = some h) :
    StepOk g c t
      { c.shared with
        signaled := Function.update c.shared.signaled h true
        owner := Function.update c.shared.owner a .caller
        completed := c.shared.completed ++
          (c.shared.irps a).toList.map fun x => (x.call, x.status) }
      .idle := by
  have hcompleter : g.completer a = some t := (hat.completes a).2 rfl
  rcases hat.knows with ⟨x, hx, rfl⟩
  have hreq := hok.request a x hx
  have howner : c.shared.owner a = .completion :=
    hreq.completer.1 (by rw [hcompleter]; exact Option.some_ne_none t)
  have hnotcaller : c.shared.owner a ≠ .caller := by
    rw [howner]
    exact fun h => by cases h
  have hincomplete := hreq.incomplete hnotcaller
  have hlist : (c.shared.irps a).toList.map (fun x => (x.call, x.status)) =
      [(x.call, x.status)] := by
    rw [hx]
    rfl
  rw [hlist]
  have hnumber : ∀ {b y}, b ≠ a → c.shared.irps b = some y → y.call ≠ x.call :=
    fun hb hy heq => hb (hok.one _ a _ x hy hx heq)
  refine ⟨{ g with completer := Function.update g.completer a none }, ⟨?_, ?_, hok.context,
    hok.one, hok.event, hok.handle, ?_, ?_, ?_, hok.returned, ?_⟩, ⟨hat.makes,
    fun b => role_clear hat.completes fun _ h => (Option.some.inj h).symm, trivial⟩, ?_⟩
  · intro b y hy
    by_cases hb : b = a
    · subst hb
      have hy' : c.shared.irps b = some y := hy
      rw [hx] at hy'
      cases hy'
      refine ⟨hreq.caller, ?_, ⟨h, he, ?_⟩, hreq.call, ?_, ?_, hreq.outstanding⟩
      · show Function.update g.completer b none b ≠ none ↔
          Function.update c.shared.owner b .caller b = .completion
        rw [Function.update_self, Function.update_self]
        simp
      · show Function.update c.shared.signaled h true h = true ↔
          Function.update c.shared.owner b .caller b = .caller
        rw [Function.update_self, Function.update_self]
        simp
      · exact fun _ => List.mem_append_right _ (List.mem_singleton.2 rfl)
      · exact fun h => absurd (Function.update_self ..) h
    · refine (hok.request b y hy).frame rfl (Function.update_of_ne hb _ _)
        (Function.update_of_ne hb _ _) rfl ?_ (Nat.le_refl _) ?_ (fun _ _ => Iff.rfl)
      · intro h' he'
        refine Function.update_of_ne ?_ _ _
        rintro rfl
        exact hb (hok.context b a y x hy hx (hok.handle _ _ _ he' he))
      · intro p hp
        show p ∈ c.shared.completed ++ [(x.call, x.status)] ↔ _
        rw [List.mem_append, List.mem_singleton]
        constructor
        · rintro (hmem | rfl)
          · exact hmem
          · exact absurd hp.symm (hnumber hb hy)
        · exact Or.inl
  · intro b hb
    have hba : b ≠ a := by
      rintro rfl
      have hb' : c.shared.irps b = none := hb
      rw [hx] at hb'
      cases hb'
    rcases hok.free b hb with ⟨h₁, h₂, h₃⟩
    exact ⟨h₁, (Function.update_of_ne hba _ _).trans h₂, (Function.update_of_ne hba _ _).trans h₃⟩
  · intro h' hh
    have hne : h' ≠ h := by
      rintro rfl
      exact absurd (hok.event _ _ he).1 (Nat.not_lt.2 hh)
    exact (Function.update_of_ne hne _ _).trans (hok.unused h' hh)
  · intro p hp
    rcases List.mem_append.1 hp with hp | hp
    · exact hok.numbers p hp
    · rw [List.mem_singleton.1 hp]
      exact hreq.call
  · show ((c.shared.completed ++ [(x.call, x.status)]).map Prod.fst).Nodup
    rw [List.map_append, List.nodup_append]
    refine ⟨hok.completed, List.nodup_singleton _, ?_⟩
    rintro n hn m hm rfl
    rw [List.mem_singleton.1 hm] at hn
    exact hincomplete hn
  · exact fun p hp => List.mem_append_left _ (hok.both p hp)
  · intro u hu hatu
    refine atPoint_stable (g := g) (s := c.shared) ⟨fun _ => Iff.rfl, ?_, ?_⟩ hatu
    · intro b
      refine role_other (fun h => by cases h) ?_
      rw [hcompleter]
      exact some_ne_of_ne hu
    · intro b y _ hy
      refine ⟨rfl, y, hy, rfl, fun h => ⟨?_, rfl⟩⟩
      have hba : b ≠ a := by
        rintro rfl
        exact hnotcaller h
      exact (Function.update_of_ne hba _ _).trans h

/-! ## All steps -/

/-- A request that is used is there. -/
theorem usesIrp_there (hok : SharedOk g s) (hat : AtPoint t g s l) (huse : UsesIrp s l a) :
    s.irps a ≠ none := by
  intro hnone
  have hcompleter := (hok.free a hnone).2.1
  have hknows := hat.knows
  cases l with
  | idle =>
    rcases hok.drivers huse with ⟨x, hx, -⟩
    rw [hnone] at hx
    cases hx
  | complete b =>
    cases huse
    have hrole := (hat.completes a).2 rfl
    rw [hcompleter] at hrole
    cases hrole
  | read b e =>
    cases huse
    rcases hknows with ⟨⟨x, hx, -⟩, -⟩
    rw [hnone] at hx
    cases hx
  | free b e status =>
    cases huse
    rcases hknows with ⟨x, hx, -⟩
    rw [hnone] at hx
    cases hx
  | _ => exact huse

/-- An event that is used is there. -/
theorem usesEvent_there (hok : SharedOk g s) (hat : AtPoint t g s l) (huse : UsesEvent l e) :
    s.events e ≠ none := by
  have hevent : ∀ b, (∃ x, s.irps b = some x ∧ x.context = e) → s.events e ≠ none := by
    rintro b ⟨x, hx, rfl⟩
    rcases (hok.request b x hx).event with ⟨h, he, -⟩
    rw [he]
    exact Option.some_ne_none h
  have hknows := hat.knows
  cases l with
  | wait b e' | test b e' | set b e' =>
    cases huse
    exact hevent b hknows
  | _ => exact absurd huse id

/-- Every step keeps the invariant. -/
theorem act_stepOk (hok : SharedOk g c.shared) (hat : AtPoint t g c.shared l)
    (hact : Driven t c.shared l s' l') : StepOk g c t s' l' := by
  rcases hact with ⟨hact, hanswered⟩
  generalize hs : c.shared = s at hact
  cases hact with
  | issue a e ha he =>
    subst hs
    exact stepOk_issue hok hat ha he
  | status status howner hx =>
    subst hs
    exact stepOk_status status hok hat howner hx
  | pending =>
    subst hs
    exact stepOk_local hok hat rfl rfl hat.knows
  | @returns a e status =>
    subst hs
    rcases hanswered a e status rfl rfl with ⟨howner, x, hx, hstatus⟩
    rcases hat.knows with ⟨x', hx', hcontext⟩
    rw [hx] at hx'
    cases hx'
    exact stepOk_local hok hat rfl rfl ⟨x, hx, hcontext, hstatus, howner⟩
  | wait he =>
    subst hs
    exact stepOk_local hok hat rfl rfl ⟨hat.knows, he⟩
  | @wake a e h hsignaled =>
    subst hs
    rcases hat.knows with ⟨⟨x, hx, rfl⟩, hevent⟩
    rcases (hok.request a x hx).event with ⟨h', hevent', hiff⟩
    rw [hevent] at hevent'
    cases hevent'
    exact stepOk_local hok hat rfl rfl ⟨⟨x, hx, rfl⟩, hiff.1 hsignaled⟩
  | @read a e x hx =>
    subst hs
    rcases hat.knows with ⟨⟨x', hx', hcontext⟩, howner⟩
    rw [hx] at hx'
    cases hx'
    exact stepOk_local hok hat rfl rfl ⟨x, hx, hcontext, rfl, howner⟩
  | free hx =>
    subst hs
    exact stepOk_free hok hat hx
  | complete a howner =>
    subst hs
    exact stepOk_complete hok hat howner
  | invoke hx =>
    subst hs
    exact stepOk_local hok hat rfl rfl ⟨_, hx, rfl⟩
  | test =>
    subst hs
    exact stepOk_local hok hat rfl rfl hat.knows
  | @tested a e h he hsignaled =>
    subst hs
    -- nobody has set the event of a request that is being completed
    rcases hat.knows with ⟨x, hx, rfl⟩
    have hreq := hok.request a x hx
    have howner : c.shared.owner a = .completion :=
      hreq.completer.1 (by rw [(hat.completes a).2 rfl]; exact Option.some_ne_none t)
    rcases hreq.event with ⟨h', he', hiff⟩
    rw [he] at he'
    cases he'
    have hcaller := hiff.1 hsignaled
    rw [howner] at hcaller
    cases hcaller
  | set he =>
    subst hs
    exact stepOk_set hok hat he
  | violationIrp huse hnone =>
    subst hs
    exact absurd hnone (usesIrp_there hok hat huse)
  | violationEvent huse hnone =>
    subst hs
    exact absurd hnone (usesEvent_there hok hat huse)

/-! ## All runs -/

/-- What holds after every run. -/
structure Sound (c : Conf Shared T Pc) : Prop where
  /-- No memory is used that has been given back. -/
  works : ∀ t, c.pc t ≠ .failed
  /-- A request is there as long as its call has not returned. -/
  there : ∀ a, c.shared.irps a ≠ none ↔ ∃ t, (c.pc t).makes = some a
  /-- No two calls have one request. -/
  own : ∀ t u a, (c.pc t).makes = some a → (c.pc u).makes = some a → t = u
  /-- Each request is completed once at most, and each call returns once at most. -/
  completed : (c.shared.completed.map Prod.fst).Nodup
  returned : (c.shared.returned.map Prod.fst).Nodup
  /-- A call that has returned has the status that its request was completed with. -/
  status : ∀ p ∈ c.shared.returned, p ∈ c.shared.completed
  /-- The call of a request that has been completed does not wait. -/
  wakes : ∀ t a e h x, c.pc t = .waiting a e h → c.shared.irps a = some x →
    (c.shared.signaled h = true ↔ x.call ∈ c.shared.completed.map Prod.fst)

/-- The invariant, after every run. -/
theorem synchronous_invariant [DecidableEq T] {ts : List T} (h : Trace Init (Step Driven) ts c) :
    Holds SharedOk AtPoint c := by
  refine Threads.invariant ?_ ?_ h
  · rintro ⟨s, pc⟩ ⟨rfl, hpc⟩
    refine ⟨⟨fun _ => none, fun _ => none⟩, ⟨?_, fun _ _ => ⟨rfl, rfl, rfl⟩, ?_, ?_, ?_, ?_,
      fun _ _ => rfl, ?_, List.nodup_nil, List.nodup_nil, ?_⟩, ?_⟩
    · exact fun a x h => by cases h
    · exact fun a b x y h => by cases h
    · exact fun a b x y h => by cases h
    · exact fun e h he => by cases he
    · exact fun e e' h he => by cases he
    · exact fun p hp => absurd hp List.not_mem_nil
    · exact fun p hp => absurd hp List.not_mem_nil
    · intro t
      show AtPoint t _ _ (pc t)
      rw [show pc t = .idle from hpc t]
      refine ⟨fun a => ?_, fun a => ?_, trivial⟩
      · exact ⟨fun h => (by cases h), fun h => (by cases h)⟩
      · exact ⟨fun h => (by cases h), fun h => (by cases h)⟩
  · exact fun g c t s l hok hat hact => act_stepOk hok (hat t) hact

/-- **Synchronous requests**, after every interleaving of the calls, with drivers that answer
them as `Answered` says. -/
theorem synchronousIrp_sound [DecidableEq T] {ts : List T} (h : Trace Init (Step Driven) ts c) :
    Sound c := by
  rcases synchronous_invariant h with ⟨g, hok, hat⟩
  constructor
  case works =>
    intro t ht
    have hknows := (hat t).knows
    rw [ht] at hknows
    exact hknows
  case there =>
    intro a
    constructor
    · intro hne
      rcases Option.ne_none_iff_exists'.1 hne with ⟨x, hx⟩
      rcases Option.ne_none_iff_exists'.1 (hok.request a x hx).caller with ⟨t, ht⟩
      exact ⟨t, ((hat t).makes a).1 ht⟩
    · rintro ⟨t, ht⟩ hnone
      have hcaller := ((hat t).makes a).2 ht
      rw [(hok.free a hnone).1] at hcaller
      cases hcaller
  case own =>
    intro t u a ht hu
    have hcaller := ((hat t).makes a).2 ht
    rw [((hat u).makes a).2 hu] at hcaller
    exact (Option.some.inj hcaller).symm
  case completed => exact hok.completed
  case returned => exact hok.returned
  case status => exact hok.both
  case wakes =>
    intro t a e h x ht hx
    have hknows := (hat t).knows
    rw [ht] at hknows
    rcases hknows with ⟨⟨x', hx', rfl⟩, he⟩
    rw [hx] at hx'
    cases hx'
    have hreq := hok.request a x hx
    rcases hreq.event with ⟨h', he', hiff⟩
    rw [he] at he'
    cases he'
    rw [hiff]
    constructor
    · exact fun howner => List.mem_map.2 ⟨_, hreq.completed howner, rfl⟩
    · intro hmem
      by_contra howner
      exact hreq.incomplete howner hmem

/-- A step of a call that does not come back from the drivers. -/
theorem driven_of {s s' : Shared} {l l' : Pc} (hact : Act t s l s' l')
    (h : (∀ a e, l ≠ .called a e) ∨ ∀ a e status, l' ≠ .free a e status) :
    Driven t s l s' l' := by
  refine ⟨hact, fun a e status hl hl' => ?_⟩
  rcases h with h | h
  · exact absurd hl (h a e)
  · exact absurd hl' (h a e status)

/-- A request is completed on another thread while its call waits; the next one, in the same
memory, is completed before the drivers return. -/
theorem synchronousIrp_sound_again :
    ∃ (ts : List Bool) (c : Conf Shared Bool Pc), Trace Init (Step Driven) ts c ∧
      c.shared.returned = [(0, 5), (1, 7)] ∧ c.shared.irps 0 = none ∧ Sound c := by
  have h0 : Trace (Init (T := Bool)) (Step Driven) []
      ⟨⟨fun _ => none, fun _ => none, fun _ => false, 0, fun _ => .caller, 0, [], []⟩,
        fun _ => .idle⟩ :=
    Trace.start ⟨rfl, fun _ => rfl⟩
  have h1 := run_step h0 true (driven_of (Act.issue 0 0 rfl rfl) (by simp))
  have h2 := run_step h1 true (driven_of Act.pending (by simp))
  have h3 := run_step h2 false (driven_of (Act.status (a := 0) 5 rfl rfl) (by simp))
  have h4 := run_step h3 true (driven_of (Act.wait rfl) (by simp))
  have h5 := run_step h4 false (driven_of (Act.complete 0 rfl) (by simp))
  have h6 := run_step h5 false (driven_of (Act.invoke rfl) (by simp))
  have h7 := run_step h6 false (driven_of (Act.test rfl rfl) (by simp))
  have h8 := run_step h7 false (driven_of (Act.set rfl) (by simp))
  have h9 := run_step h8 true (driven_of (Act.wake rfl) (by simp))
  have h10 := run_step h9 true (driven_of (Act.read rfl) (by simp))
  have h11 := run_step h10 true (driven_of (Act.free rfl) (by simp))
  have h12 := run_step h11 true (driven_of (Act.issue 0 0 rfl rfl) (by simp))
  have h13 := run_step h12 false (driven_of (Act.status (a := 0) 7 rfl rfl) (by simp))
  have h14 := run_step h13 false (driven_of (Act.complete 0 rfl) (by simp))
  have h15 := run_step h14 false (driven_of (Act.invoke rfl) (by simp))
  have h16 := run_step h15 false (driven_of (Act.test rfl rfl) (by simp))
  have h17 := run_step h16 false (driven_of (Act.set rfl) (by simp))
  have h18 := run_step h17 true (s := _) (l := .free 0 0 7) ⟨Act.returns 7 (by decide), by
    rintro a e status ⟨⟩ ⟨⟩
    exact ⟨rfl, _, rfl, rfl⟩⟩
  have h19 := run_step h18 true (driven_of (Act.free rfl) (by simp))
  exact ⟨_, _, h19, rfl, rfl, synchronousIrp_sound h19⟩

end Wdutf.Io.Synchronous
