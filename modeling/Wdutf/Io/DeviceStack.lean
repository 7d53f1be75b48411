import Mathlib.Data.List.Basic
import Mathlib.Logic.Relation
import Mathlib.Tactic.Common
import Wdutf.Lib.Pointers
import Wdutf.Lib.Transition
import Wdutf.Io.StackBounds

/-!
# Wdutf.Io.DeviceStack — device stacks, `src/device.cpp`

Devices are attached to the top of the stack of their target, and detached from
below. `AttachedDevice` points up and `AttachedTo` down; `StackSize` is written
when a device is attached, and never again while it is.

The devices are a function of their addresses: a device that is created later
is in the beginning what it will be then. The reference that
`IoGetDeviceAttachmentBaseRef` takes on the base is not part of this state.

* `Inv` — the pointers are inverse to each other, and `StackSize` grows by one
  from a device to the one above it;
* `Inv.attached`, `Inv.detached` — the two routines keep it;
* `deviceStacks_hold` — the loops end at the top and at the base, and a packet
  with `StackSize` locations reaches every device.
-/

namespace Wdutf.Io.DeviceStack

open Relation Wdutf.Pointers Wdutf.Transition

/-! ## The routines -/

/-- `DEVICE_OBJECT`, with the `AttachedTo` of its `DeviceObjectExtension`. A pointer that is
`NULL` is `none`. -/
structure DeviceObject where
  attachedDevice : Option Pvoid
  attachedTo : Option Pvoid
  stackSize : Int8
  alignmentRequirement : UInt32
deriving DecidableEq, Repr

/-- `FILE_BYTE_ALIGNMENT`. -/
def fileByteAlignment : UInt32 := 0

/-- A device as `IoCreateDevice` leaves it. -/
def newDevice : DeviceObject := ⟨none, none, 1, fileByteAlignment⟩

abbrev Devices := Pvoid → DeviceObject

/-- `AttachedDevice`, of every device. -/
def up (s : Devices) (device : Pvoid) : Option Pvoid := (s device).attachedDevice

/-- `AttachedTo`, of every device. -/
def down (s : Devices) (device : Pvoid) : Option Pvoid := (s device).attachedTo

/-- Write to the members of a device. -/
def Devices.write (s : Devices) (device : Pvoid) (f : DeviceObject → DeviceObject) : Devices :=
  Function.update s device (f (s device))

/-- `IoGetAttachedDevice`, for at most `turns` tests of the loop. -/
def ioGetAttachedDevice (turns : ℕ) (deviceObject : Pvoid) (s : Devices) : Option Pvoid :=
  chase (up s) turns deviceObject

/-- `IoGetDeviceAttachmentBaseRef`, for at most `turns` tests of the loop. -/
def ioGetDeviceAttachmentBaseRef (turns : ℕ) (deviceObject : Pvoid) (s : Devices) :
    Option Pvoid :=
  chase (down s) turns deviceObject

/-- The assignments of `IoAttachDeviceToDeviceStackSafe`, once the top of the stack is known. -/
def attached (sourceDevice pDevice : Pvoid) (s : Devices) : Devices :=
  let s := s.write sourceDevice fun d => { d with stackSize := (s pDevice).stackSize + 1 }
  let s := s.write sourceDevice fun d =>
    { d with alignmentRequirement := (s pDevice).alignmentRequirement }
  let s := s.write sourceDevice fun d => { d with attachedTo := some pDevice }
  s.write pDevice fun d => { d with attachedDevice := some sourceDevice }

/-- `IoAttachDeviceToDeviceStackSafe`, with what it stores in `*AttachedToDeviceObject`. -/
def ioAttachDeviceToDeviceStackSafe (turns : ℕ) (sourceDevice targetDevice : Pvoid)
    (s : Devices) : Option (Devices × Pvoid) := do
  let pDevice ← ioGetAttachedDevice turns targetDevice s
  pure (attached sourceDevice pDevice s, pDevice)

/-- The assignments of `IoDetachDevice`, where `upper` is the attached device. -/
def detached (targetDevice upper : Pvoid) (s : Devices) : Devices :=
  let s := s.write upper fun d => { d with attachedTo := none }
  s.write targetDevice fun d => { d with attachedDevice := none }

/-- `IoDetachDevice`. Without an attached device it goes through a `NULL` pointer. -/
def ioDetachDevice (targetDevice : Pvoid) (s : Devices) : Option Devices := do
  let upper ← (s targetDevice).attachedDevice
  pure (detached targetDevice upper s)

/-! ## Runs -/

inductive Event where
  | attach (sourceDevice targetDevice : Pvoid)
  | detach (targetDevice : Pvoid)

def Event.isAttach : Event → Bool
  | .attach _ _ => true
  | .detach _ => false

/-- Two devices of one stack. -/
def SameStack (s : Devices) : Pvoid → Pvoid → Prop := EqvGen (Link (up s))

/-- The source is neither attached nor below another device, and the target is in another
stack; a device that is detached from has a device attached. -/
def Permitted (s : Devices) : Event → Prop
  | .attach sourceDevice targetDevice => (s sourceDevice).attachedTo = none ∧
      (s sourceDevice).attachedDevice = none ∧ ¬ SameStack s sourceDevice targetDevice
  | .detach targetDevice => (s targetDevice).attachedDevice ≠ none

/-- The call returns. -/
def Performs (s : Devices) (s' : Devices) : Event → Prop
  | .attach sourceDevice targetDevice => ∃ turns pDevice,
      ioAttachDeviceToDeviceStackSafe turns sourceDevice targetDevice s = some (s', pDevice)
  | .detach targetDevice => ioDetachDevice targetDevice s = some s'

def Init (s : Devices) : Prop := s = fun _ => newDevice

def Step (s : Devices) (e : Event) (s' : Devices) : Prop := Permitted s e ∧ Performs s s' e

/-! ## The invariant -/

/-- What holds after `n` attaches. -/
structure Inv (n : ℕ) (s : Devices) : Prop where
  inverse : Inverse (up s) (down s)
  /-- `StackSize` grows by one from a device to the one above it. -/
  rises : ∀ a b, up s a = some b → (s b).stackSize.toInt = (s a).stackSize.toInt + 1
  pos : ∀ a, 1 ≤ (s a).stackSize.toInt
  le : ∀ a, (s a).stackSize.toInt ≤ 1 + n

theorem init_inv {s : Devices} (h : Init s) : Inv 0 s := by
  rcases h with rfl
  refine ⟨fun a b => ?_, fun a b hab => ?_, fun a => by decide, fun a => by decide⟩
  · exact iff_of_false (fun h => by cases h) fun h => by cases h
  · cases hab

section Writes

variable {s : Devices} {source top target upper : Pvoid}

theorem attached_up (h : top ≠ source) :
    up (attached source top s) = Function.update (up s) top (some source) := by
  funext d
  by_cases hd : d = top <;> by_cases hs : d = source <;>
    simp_all [up, attached, Devices.write, Function.update_apply]

theorem attached_down (h : top ≠ source) :
    down (attached source top s) = Function.update (down s) source (some top) := by
  funext d
  by_cases hd : d = top <;> by_cases hs : d = source <;>
    simp_all [down, attached, Devices.write, Function.update_apply]

theorem attached_stackSize_source (h : top ≠ source) :
    (attached source top s source).stackSize = (s top).stackSize + 1 := by
  simp [attached, Devices.write, h.symm]

theorem attached_stackSize_of_ne {d : Pvoid} (h : d ≠ source) :
    (attached source top s d).stackSize = (s d).stackSize := by
  by_cases hd : d = top <;> simp_all [attached, Devices.write, Function.update_apply]

theorem detached_up (s : Devices) (target upper : Pvoid) :
    up (detached target upper s) = Function.update (up s) target none := by
  funext d
  by_cases hd : d = target <;> by_cases hu : d = upper <;>
    simp_all [up, detached, Devices.write, Function.update_apply]

theorem detached_down (s : Devices) (target upper : Pvoid) :
    down (detached target upper s) = Function.update (down s) upper none := by
  funext d
  by_cases hd : d = target <;> by_cases hu : d = upper <;>
    simp_all [down, detached, Devices.write, Function.update_apply]

theorem detached_stackSize (s : Devices) (target upper d : Pvoid) :
    (detached target upper s d).stackSize = (s d).stackSize := by
  by_cases hd : d = target <;> by_cases hu : d = upper <;>
    simp_all [detached, Devices.write, Function.update_apply]

end Writes

section Steps

variable {n : ℕ} {s : Devices} {source top target upper : Pvoid}

/-- A device that is in no stack comes to the top of one. -/
theorem Inv.attached (h : Inv n s) (hn : n ≤ 125) (hup : up s source = none)
    (hdown : down s source = none) (htop : up s top = none) (hne : top ≠ source) :
    Inv (n + 1) (attached source top s) := by
  have hle := h.le top
  have hsource : (DeviceStack.attached source top s source).stackSize.toInt =
      (s top).stackSize.toInt + 1 := by
    rw [attached_stackSize_source hne, toInt_add_one (by omega)]
  have hother : ∀ {d}, d ≠ source →
      (DeviceStack.attached source top s d).stackSize = (s d).stackSize :=
    fun hd => attached_stackSize_of_ne hd
  constructor
  case inverse =>
    rw [attached_up hne, attached_down hne]
    exact h.inverse.link htop hdown
  case rises =>
    intro a b hab
    rw [attached_up hne] at hab
    by_cases ha : a = top
    · rw [ha, Function.update_self] at hab
      rcases Option.some.inj hab with rfl
      rw [ha, hsource, hother hne]
    · -- a link from before: the new device is not part of it
      rw [Function.update_of_ne ha] at hab
      have hasource : a ≠ source := by
        rintro rfl
        rw [hup] at hab
        cases hab
      have hbsource : b ≠ source := by
        rintro rfl
        rw [h.inverse, hdown] at hab
        cases hab
      rw [hother hasource, hother hbsource]
      exact h.rises a b hab
  case pos =>
    intro d
    have hpos := h.pos top
    by_cases hd : d = source
    · rw [hd, hsource]
      omega
    · rw [hother hd]
      exact h.pos d
  case le =>
    intro d
    have hled := h.le d
    by_cases hd : d = source
    · rw [hd, hsource]
      omega
    · rw [hother hd]
      omega

theorem Inv.detached (h : Inv n s) (hlink : up s target = some upper) :
    Inv n (detached target upper s) := by
  constructor
  case inverse =>
    rw [detached_up, detached_down]
    exact h.inverse.unlink hlink
  case rises =>
    intro a b hab
    rw [detached_up] at hab
    by_cases ha : a = target
    · rw [ha, Function.update_self] at hab
      cases hab
    · rw [Function.update_of_ne ha] at hab
      rw [detached_stackSize, detached_stackSize]
      exact h.rises a b hab
  case pos =>
    intro d
    rw [detached_stackSize]
    exact h.pos d
  case le =>
    intro d
    rw [detached_stackSize]
    exact h.le d

/-- One attach or detach. -/
theorem step_inv {s' : Devices} {e : Event} (h : Inv n s) (hn : n ≤ 125) (hstep : Step s e s') :
    Inv (n + if e.isAttach then 1 else 0) s' := by
  rcases hstep with ⟨hpermitted, hperforms⟩
  cases e with
  | attach source target =>
    rcases hpermitted with ⟨hdown, hup, hother⟩
    rcases hperforms with ⟨turns, top, hrun⟩
    rcases Option.bind_eq_some_iff.1 hrun with ⟨top', hchase, hpure⟩
    have hends := ends_of_chase hchase
    rcases Prod.mk.inj (Option.some.inj hpure) with ⟨rfl, rfl⟩
    refine h.attached hn hup hdown hends.2 ?_
    -- the top of the other stack is not the source
    rintro rfl
    exact hother (connected_of_ends hends).symm
  | detach target =>
    rcases Option.bind_eq_some_iff.1 hperforms with ⟨upper, hlink, hpure⟩
    rcases Option.some.inj hpure with rfl
    exact h.detached hlink

end Steps

theorem run_inv {es : List Event} {s : Devices} (h : Trace Init Step es s)
    (hcount : es.countP Event.isAttach ≤ 124) : Inv (es.countP Event.isAttach) s := by
  induction h with
  | start hinit => exact init_inv hinit
  | snoc _ hstep ih =>
    rw [List.countP_append, List.countP_singleton] at hcount ⊢
    exact step_inv (ih (by omega)) (by omega) hstep

/-! ## The loops -/

section Loops

variable {n : ℕ} {s : Devices}

/-- From below to above `StackSize` comes closer to its bound. -/
theorem Inv.rank_up (h : Inv n s) (a b : Pvoid) (hab : up s a = some b) :
    (1 + n - (s b).stackSize.toInt).toNat < (1 + n - (s a).stackSize.toInt).toNat := by
  have hrises := h.rises a b hab
  have hle := h.le b
  omega

/-- From above to below it falls. -/
theorem Inv.rank_down (h : Inv n s) (a b : Pvoid) (hab : down s a = some b) :
    (s b).stackSize.toInt.toNat < (s a).stackSize.toInt.toNat := by
  have hrises := h.rises b a ((h.inverse b a).2 hab)
  have hpos := h.pos b
  omega

theorem Inv.top (h : Inv n s) (d : Pvoid) : ∃ top,
    (∀ turns, n < turns → ioGetAttachedDevice turns d s = some top) ∧ Ends (up s) d top := by
  rcases chase_total h.rank_up d with ⟨top, hchase⟩
  have hpos := h.pos d
  have hall : ∀ turns, n < turns → ioGetAttachedDevice turns d s = some top :=
    fun turns hturns => hchase turns (by omega)
  exact ⟨top, hall, ends_of_chase (hall (n + 1) (Nat.lt_succ_self n))⟩

theorem Inv.base (h : Inv n s) (d : Pvoid) : ∃ base,
    (∀ turns, n + 1 < turns → ioGetDeviceAttachmentBaseRef turns d s = some base) ∧
      Ends (down s) d base := by
  rcases chase_total h.rank_down d with ⟨base, hchase⟩
  have hle := h.le d
  have hall : ∀ turns, n + 1 < turns → ioGetDeviceAttachmentBaseRef turns d s = some base :=
    fun turns hturns => hchase turns (by omega)
  exact ⟨base, hall, ends_of_chase (hall (n + 2) (by omega))⟩

/-- `StackSize` is at least the number of devices from `d` down to the base. -/
theorem Inv.depth (h : Inv n s) {d : Pvoid} {below : List Pvoid}
    (hbelow : Visits (down s) d below) :
    (d :: below).length ≤ (s d).stackSize.toInt := by
  induction below generalizing d with
  | nil => exact h.pos d
  | cons e below ih =>
    have hrises := h.rises e d ((h.inverse e d).2 hbelow.1)
    have hle := ih hbelow.2
    rw [List.length_cons]
    omega

end Loops

/-! ## A packet on its way down -/

/-- The device that a step of a packet calls. -/
def calledDevice : Io.Event → Option Pvoid
  | .call _ deviceObject => some deviceObject
  | _ => none

/-- The steps of a packet that is forwarded: calls, and what the drivers write in between. -/
def Forwards : Io.Event → Prop
  | .call irql _ => irql ≤ dispatchLevel
  | .writeLocation _ _ => True
  | .writeStatus _ _ _ => True
  | _ => False

section Forward

variable {n : ℕ} {stackSize : Int8} {m : Machine}

/-- Every call moves the packet down by one location. -/
theorem call_at {c : ℕ} (hat : At n (c + 1) m.irp) (hframes : m.frames.head? ≠ some .walk)
    (hc : 1 ≤ c) (hcn : c ≤ n) {irql : UInt8} (hirql : irql ≤ dispatchLevel) (device : Pvoid) :
    ∃ m', m.step (.call irql device) = .ok m' ∧ At n c m'.irp ∧
      m'.frames.head? ≠ some .walk := by
  rcases iofCallDriver_at hat hc hcn device hirql with ⟨irp', major, hcall, hat', -⟩
  refine ⟨⟨irp', .dispatch :: m.frames⟩, ?_, hat', by simp⟩
  unfold Machine.step
  rw [if_neg hframes]
  simp only [Io.bind_ok hcall]
  rfl

/-- After each of the calls the packet is one location lower. -/
theorem forwarded_at (hsize : stackSize.toInt = n) (hn : n ≤ 126) {es : List Io.Event}
    (h : Trace (Fresh stackSize) AnyStep es m) (hforwards : ∀ e ∈ es, Forwards e)
    (hcalls : (es.filterMap calledDevice).length ≤ n) :
    At n (n + 1 - (es.filterMap calledDevice).length) m.irp ∧ m.frames.head? ≠ some .walk := by
  induction h with
  | start hfresh =>
    rcases hfresh with rfl
    exact ⟨at_ioAllocateIrp hsize hn, by simp⟩
  | @snoc es m m' e _ hstep ih =>
    have hsplit : ((es ++ [e]).filterMap calledDevice).length =
        (es.filterMap calledDevice).length + ([e].filterMap calledDevice).length := by
      rw [List.filterMap_append, List.length_append]
    rcases ih (fun e he => hforwards e (by simp [he])) (by omega) with ⟨hat, hframes⟩
    have he := hforwards e (by simp)
    rw [AnyStep] at hstep
    cases e with
    | call irql device =>
      -- the counter has not reached 1, as there are as many locations as calls
      have hone : ([Io.Event.call irql device].filterMap calledDevice).length = 1 := rfl
      obtain ⟨c, hc⟩ : ∃ c, n + 1 - (es.filterMap calledDevice).length = c + 1 :=
        ⟨n - (es.filterMap calledDevice).length, by omega⟩
      rw [hc] at hat
      rcases call_at hat hframes (by omega) (by omega) he device with ⟨m'', hrun, hat', hframes'⟩
      rw [hrun] at hstep
      rcases Except.ok.inj hstep with rfl
      rw [hsplit, hone, show n + 1 - ((es.filterMap calledDevice).length + 1) = c by omega]
      exact ⟨hat', hframes'⟩
    | writeLocation index location =>
      unfold Machine.step at hstep
      rw [if_neg hframes] at hstep
      rcases Except.ok.inj hstep with rfl
      rw [hsplit]
      refine ⟨⟨hat.stackCount, ?_, hat.counter, hat.pointer⟩, hframes⟩
      simpa using hat.length
    | writeStatus ioStatus cancel mdlAddress =>
      unfold Machine.step at hstep
      rw [if_neg hframes] at hstep
      rcases Except.ok.inj hstep with rfl
      rw [hsplit]
      exact ⟨⟨hat.stackCount, hat.length, hat.counter, hat.pointer⟩, hframes⟩
    | complete => exact absurd he id
    | turn => exact absurd he id
    | ret status => exact absurd he id

/-- The next device of a stack that is no deeper than the packet. -/
theorem forward_next (hsize : stackSize.toInt = n) (hn : n ≤ 126) {es : List Io.Event}
    (h : Trace (Fresh stackSize) AnyStep es m) (hforwards : ∀ e ∈ es, Forwards e)
    (hcalls : (es.filterMap calledDevice).length < n) {irql : UInt8}
    (hirql : irql ≤ dispatchLevel) (device : Pvoid) :
    ∃ m', m.step (.call irql device) = .ok m' ∧ OnStack m'.irp ∧
      m'.irp.currentLocation.toInt = stackSize.toInt - (es.filterMap calledDevice).length := by
  rcases forwarded_at hsize hn h hforwards (Nat.le_of_lt hcalls) with ⟨hat, hframes⟩
  obtain ⟨c, hc⟩ : ∃ c, n + 1 - (es.filterMap calledDevice).length = c + 1 :=
    ⟨n - (es.filterMap calledDevice).length, by omega⟩
  rw [hc] at hat
  rcases call_at hat hframes (by omega) (by omega) hirql device with ⟨m', hrun, hat', -⟩
  refine ⟨m', hrun, onStack_of_at hat' (by omega) (by omega), ?_⟩
  rw [hat'.counter, hsize]
  omega

end Forward

/-! ## Stacks -/

/-- What device stacks are like. -/
structure Stacks (s : Devices) : Prop where
  inverse : ∀ a b, (s a).attachedDevice = some b ↔ (s b).attachedTo = some a
  acyclic : ∀ d, ¬ TransGen (Link (up s)) d d ∧ ¬ TransGen (Link (down s)) d d
  /-- `IoGetAttachedDevice` returns the one device of the stack with nothing above it. -/
  top : ∀ d, ∃ top, (∃ turns₀, ∀ turns, turns₀ ≤ turns →
      ioGetAttachedDevice turns d s = some top) ∧ SameStack s d top ∧
    (s top).attachedDevice = none ∧ ∀ x, SameStack s d x → (s x).attachedDevice = none → x = top
  /-- `IoGetDeviceAttachmentBaseRef` returns the one device with nothing below it. -/
  base : ∀ d, ∃ base, (∃ turns₀, ∀ turns, turns₀ ≤ turns →
      ioGetDeviceAttachmentBaseRef turns d s = some base) ∧ SameStack s d base ∧
    (s base).attachedTo = none ∧ ∀ x, SameStack s d x → (s x).attachedTo = none → x = base
  /-- The devices from `d` down to the base are no more than `StackSize`. -/
  depth : ∀ d, ∃ below, Visits (down s) d below ∧ (d :: below).length ≤ (s d).stackSize.toInt
  /-- A packet with the `StackSize` of the top, forwarded from device to device, has a location
  of its own for the next one. -/
  forward : ∀ top below, (s top).attachedDevice = none → Visits (down s) top below →
    ∀ es m, Trace (Fresh (s top).stackSize) AnyStep es m → (∀ e ∈ es, Forwards e) →
    ∀ device, es.filterMap calledDevice ++ [device] <+: top :: below →
    ∀ irql, irql ≤ dispatchLevel → ∃ m', m.step (.call irql device) = .ok m' ∧ OnStack m'.irp ∧
      m'.irp.currentLocation.toInt =
        (s top).stackSize.toInt - (es.filterMap calledDevice).length
  /-- An attach returns. -/
  attaches : ∀ source target, ∃ turns, ioAttachDeviceToDeviceStackSafe turns source target s ≠ none

theorem Inv.stacks {n : ℕ} {s : Devices} (h : Inv n s) (hn : n ≤ 125) : Stacks s := by
  constructor
  case inverse => exact h.inverse
  case acyclic => exact fun d => ⟨acyclic_of_rank h.rank_up d, acyclic_of_rank h.rank_down d⟩
  case top =>
    intro d
    rcases h.top d with ⟨top, hloop, hends⟩
    refine ⟨top, ⟨n + 1, fun turns hturns => hloop turns hturns⟩, connected_of_ends hends,
      hends.2, fun x hx hend => ?_⟩
    exact ends_unique (ends_self hend) ((ends_connected hx).1 hends)
  case base =>
    intro d
    rcases h.base d with ⟨base, hloop, hends⟩
    refine ⟨base, ⟨n + 2, fun turns hturns => hloop turns hturns⟩,
      h.inverse.connected.1 (connected_of_ends hends), hends.2, fun x hx hend => ?_⟩
    exact ends_unique (ends_self hend) ((ends_connected (h.inverse.connected.2 hx)).1 hends)
  case depth =>
    intro d
    rcases h.base d with ⟨base, -, hends⟩
    rcases visits_of_ends hends with ⟨below, hbelow⟩
    exact ⟨below, hbelow, h.depth hbelow⟩
  case forward =>
    intro top below _ hbelow es m hrun hforwards device hnext irql hirql
    have hdepth := h.depth hbelow
    have hpos := h.pos top
    have hle := h.le top
    have hlength := hnext.length_le
    rw [List.length_append, List.length_singleton] at hlength
    rcases Int.eq_ofNat_of_zero_le (by omega : 0 ≤ (s top).stackSize.toInt) with ⟨k, hk⟩
    exact forward_next hk (by omega) hrun hforwards (by omega) hirql device
  case attaches =>
    intro source target
    rcases h.top target with ⟨top, hloop, -⟩
    refine ⟨n + 1, ?_⟩
    rw [ioAttachDeviceToDeviceStackSafe, hloop (n + 1) (Nat.lt_succ_self n)]
    exact Option.some_ne_none _

/-- **Device stacks and the depth of packets.** After every run of at most 124 attaches. -/
theorem deviceStacks_hold (es : List Event) (s : Devices) (h : Trace Init Step es s)
    (hcount : es.countP Event.isAttach ≤ 124) : Stacks s :=
  (run_inv h hcount).stacks (by omega)

/-- A device with nothing above and nothing below it is alone. -/
theorem Inv.alone {n : ℕ} {s : Devices} (h : Inv n s) {d x : Pvoid} (hup : up s d = none)
    (hdown : down s d = none) (hx : x ≠ d) : ¬ SameStack s d x := by
  intro hsame
  rcases (ends_connected hsame).1 (ends_self hup) with ⟨hreach, -⟩
  rcases ReflTransGen.cases_tail hreach with heq | ⟨b, -, hlink⟩
  · exact hx heq.symm
  · rw [Link, h.inverse, hdown] at hlink
    cases hlink

/-- Two devices that are attached to the same one come to stand on top of each other. -/
theorem deviceStacks_hold_two : ∃ s, Trace Init Step [.attach 2 1, .attach 3 1] s ∧
    (s 3).attachedTo = some 2 ∧ (s 3).stackSize = 3 ∧ Stacks s := by
  have h0 : Trace Init Step [] fun _ => newDevice := Trace.start rfl
  have h1 : Trace Init Step [.attach 2 1] (attached 2 1 fun _ => newDevice) := by
    refine h0.snoc ⟨⟨rfl, rfl, ?_⟩, 1, 1, rfl⟩
    exact (run_inv h0 (by decide)).alone rfl rfl (by decide)
  have h2 : Trace Init Step [.attach 2 1, .attach 3 1]
      (attached 3 2 (attached 2 1 fun _ => newDevice)) := by
    refine h1.snoc ⟨⟨rfl, rfl, ?_⟩, 2, 2, rfl⟩
    exact (run_inv h1 (by decide)).alone rfl rfl (by decide)
  exact ⟨_, h2, rfl, rfl, deviceStacks_hold _ _ h2 (by decide)⟩

end Wdutf.Io.DeviceStack
