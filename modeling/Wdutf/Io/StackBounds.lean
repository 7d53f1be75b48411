import Mathlib.Data.List.Basic
import Mathlib.Tactic.Common
import Wdutf.Lib.Transition
import Wdutf.Io.Complete

/-!
# Wdutf.Io.StackBounds — nested calls and completions of one packet

The machine runs any nesting of `IofCallDriver` and `IofCompleteRequest` on one
packet: driver code is a dispatch routine, a completion routine or the owner
of the packet, and it may call down, complete, write to the packet, or return.
The loop of a completion makes its turns in between.

* `Inv` — the counter and the pointer name the same location;
* `step_inv` — every step whose condition (`Fits`) is met keeps it;
* `calls_on_stack` — in runs of such steps every dispatch routine gets a
  location of the packet, and nothing else is ever accessed.
-/

namespace Wdutf.Io

open Wdutf.Transition

/-- What is running, innermost first: the owner of the packet when nothing else
is, a dispatch routine, a completion routine, or the loop of a completion. -/
inductive Frame where
  | dispatch
  | routine
  | walk
deriving DecidableEq, Repr

/-- The packet and the calls in progress on it. -/
structure Machine where
  irp : Irp
  frames : List Frame
deriving DecidableEq, Repr

/-- The steps. Driver code calls a driver, completes the packet, returns, or
writes to a location or to the status; a loop makes a turn. -/
inductive Event where
  | call (irql : UInt8) (deviceObject : Pvoid)
  | complete
  | turn
  | ret (status : NtStatus)
  | writeLocation (index : ℕ) (location : IoStackLocation)
  | writeStatus (ioStatus : IoStatusBlock) (cancel : Bool) (mdlAddress : List UInt16)

/-- A turn of the innermost loop. -/
def Machine.turn (m : Machine) : Except Fault Machine := do
  match ← walkStep m.irp with
  | .finish irp => pure ⟨irp, m.frames.tail⟩
  | .invoke _ _ _ _ _ irp => pure ⟨irp, .routine :: m.frames⟩
  | .pass _ _ _ irp => pure ⟨irp, m.frames⟩

/-- The return of the innermost routine. The loop behind a completion routine
is left or goes on. -/
def Machine.ret (m : Machine) (status : NtStatus) : Machine :=
  match m.frames with
  | .routine :: frames =>
    if status = statusMoreProcessingRequired then ⟨m.irp, frames.tail⟩ else ⟨m.irp, frames⟩
  | frames => ⟨m.irp, frames.tail⟩

/-- One step. An event that cannot happen now changes nothing. -/
def Machine.step (m : Machine) (e : Event) : Except Fault Machine :=
  if m.frames.head? = some .walk then
    match e with
    | .turn => m.turn
    | _ => pure m
  else
    match e with
    | .call irql deviceObject => do
      let (irp, _) ← iofCallDriver irql deviceObject m.irp
      pure ⟨irp, .dispatch :: m.frames⟩
    | .complete => do
      checkNotCompleted m.irp
      pure ⟨m.irp, .walk :: m.frames⟩
    | .turn => pure m
    | .ret status => pure (m.ret status)
    | .writeLocation index location =>
      pure ⟨{ m.irp with stack := m.irp.stack.set index location }, m.frames⟩
    | .writeStatus ioStatus cancel mdlAddress =>
      pure ⟨{ m.irp with ioStatus := ioStatus, cancel := cancel, mdlAddress := mdlAddress },
        m.frames⟩

/-- The packet is as a dispatch routine should get it: the counter names one of
its locations, and the pointer is the address of that one. -/
def OnStack (irp : Irp) : Prop :=
  1 ≤ irp.currentLocation.toInt ∧ irp.currentLocation.toInt ≤ irp.stackCount.toInt ∧
    irp.currentStackLocation = locationOffset irp.currentLocation.toInt

/-- The next step is safe: it touches no memory but the locations of the packet,
and if it invokes a dispatch routine then with a location of the packet. -/
def StackSafe (m : Machine) (e : Event) : Prop :=
  m.step e ≠ .error .outsideStack ∧
  ∀ irql deviceObject m', e = .call irql deviceObject → m.step e = .ok m' →
    m'.frames = .dispatch :: m.frames → OnStack m'.irp

/-- A packet just allocated, with nothing running on it. -/
def Fresh (stackSize : Int8) (m : Machine) : Prop := m = ⟨ioAllocateIrp stackSize, []⟩

/-- The condition on a step: a call finds a location below the current one in a
packet that is not completed, and a turn of the loop finds a counter that is in
the positive range and stays in it. -/
def Fits (m : Machine) : Event → Prop
  | .call _ _ => m.irp.currentLocation.toInt ≠ 1 ∧
      m.irp.currentLocation.toInt ≤ m.irp.stackCount.toInt + 1
  | .turn => 1 ≤ m.irp.currentLocation.toInt ∧ m.irp.currentLocation.toInt < 127
  | _ => True

/-! ## The invariant -/

/-- The counter and the pointer name the same location, or the counter of a
packet with 127 locations has wrapped at its allocation. -/
def Inv (n : ℕ) (m : Machine) : Prop :=
  (∃ c, 1 ≤ c ∧ At n c m.irp) ∨ m.irp.currentLocation.toInt < 1

theorem init_inv {n : ℕ} {stackSize : Int8} (h : stackSize.toInt = n) {m : Machine}
    (hm : Fresh stackSize m) : Inv n m := by
  have hle := stackSize.toInt_lt
  rw [Fresh] at hm
  subst hm
  by_cases hn : n ≤ 126
  · exact Or.inl ⟨n + 1, by omega, at_ioAllocateIrp h hn⟩
  · -- `StackSize + 1` is 128, which is -128 in a `CCHAR`
    right
    obtain rfl : stackSize = 127 := by
      apply Int8.toInt_inj.1
      rw [h]
      show (n : ℤ) = 127
      omega
    show ((127 : Int8) + 1).toInt < 1
    decide

theorem at_ioSetNextIrpStackLocation {n c : ℕ} {irp : Irp} (h : At n (c + 1) irp) :
    At n c (ioSetNextIrpStackLocation irp) := by
  constructor
  · exact h.stackCount
  · exact h.length
  · show (irp.currentLocation - 1).toInt = _
    rw [toInt_sub_one (by rw [h.counter]; omega), h.counter]
    omega
  · show irp.currentStackLocation - _ = _
    rw [h.pointer, locationOffset, locationOffset, sizeofIoStackLocation]
    push_cast
    omega

/-- An update of a location leaves the packet where it is. -/
theorem at_update {n c k : ℕ} {irp : Irp} (h : At n c irp) (hk : 1 ≤ k) (hkn : k ≤ n)
    (f : IoStackLocation → IoStackLocation) :
    ∃ irp', irp.update (locationOffset k) f = .ok irp' ∧ At n c irp' ∧
      irp'.location k = f (irp.location k) := by
  have hlength : k ≤ irp.stack.length := by
    rw [h.length]
    exact hkn
  refine ⟨_, update_ok f hk hlength, ⟨h.stackCount, ?_, h.counter, h.pointer⟩, ?_⟩
  · simpa using h.length
  · exact getD_modify_self f (by omega)

/-- A call from a location that has one below it. -/
theorem iofCallDriver_at {n c : ℕ} {irp : Irp} (h : At n (c + 1) irp) (hc : 1 ≤ c) (hcn : c ≤ n)
    {irql : UInt8} (deviceObject : Pvoid) (hirql : irql ≤ dispatchLevel) :
    ∃ irp' major, iofCallDriver irql deviceObject irp = .ok (irp', major) ∧ At n c irp' ∧
      irp'.location c = { irp.location c with deviceObject := deviceObject } := by
  have hassert : ddkAssert (decide (irql ≤ dispatchLevel)) = .ok () := by
    simp [ddkAssert, hirql, pure, Except.pure]
  have hpos : ddkAssert (decide (irp.currentLocation.toInt > 0)) = .ok () := by
    rw [h.counter, ddkAssert, if_pos (by simp)]
    rfl
  have hnext := at_ioSetNextIrpStackLocation h
  obtain ⟨irp', hupdate, hat, hlocation⟩ := at_update hnext hc hcn
    (fun location => { location with deviceObject := deviceObject })
  have hload := load_ok hc (by rw [hat.length]; exact hcn : c ≤ irp'.stack.length)
  rw [← hnext.pointer] at hupdate
  rw [← hat.pointer] at hload
  refine ⟨irp', (irp'.location c).majorFunction, ?_, hat, hlocation⟩
  rw [iofCallDriver, bind_ok hassert, bind_ok hpos, bind_ok hupdate, bind_ok hload]
  rfl

/-- A call that is turned down touches nothing. -/
theorem iofCallDriver_rejects {irp : Irp} {irql : UInt8} (deviceObject : Pvoid)
    (h : ¬ irql ≤ dispatchLevel ∨ irp.currentLocation.toInt < 1) :
    iofCallDriver irql deviceObject irp = .error .assertion := by
  rw [iofCallDriver]
  by_cases hirql : irql ≤ dispatchLevel
  · have hpos : ¬ irp.currentLocation.toInt > 0 := by
      rcases h with h | h
      · exact absurd hirql h
      · omega
    simp [ddkAssert, hirql, hpos, bind, Except.bind, pure, Except.pure, throw, throwThe,
      MonadExceptOf.throw]
  · simp [ddkAssert, hirql, bind, Except.bind, throw, throwThe, MonadExceptOf.throw]

/-! ## Steps -/

theorem onStack_of_at {n c : ℕ} {irp : Irp} (h : At n c irp) (hc : 1 ≤ c) (hcn : c ≤ n) :
    OnStack irp := by
  rw [OnStack, h.counter, h.stackCount, h.pointer]
  exact ⟨by omega, by omega, rfl⟩

theorem ret_irp (m : Machine) (status : NtStatus) : (m.ret status).irp = m.irp := by
  unfold Machine.ret
  split
  · split <;> rfl
  · rfl

/-- A turn of the loop moves the packet up by one location. -/
theorem turn_at {n c : ℕ} {m : Machine} (h : At n c m.irp) (hc : 1 ≤ c) (hlast : c < 127) :
    ∃ m', m.turn = .ok m' ∧ At n (c + 1) m'.irp := by
  have hadv := at_advance h hlast
  by_cases hcn : c ≤ n
  · have hvisit := walkStep_visit h hlast hc hcn
    split at hvisit
    · refine ⟨⟨seenAt m.irp c, .routine :: m.frames⟩, ?_, at_seenAt h hlast⟩
      rw [Machine.turn, bind_ok hvisit]
      rfl
    · refine ⟨⟨passAt m.irp c, m.frames⟩, ?_, at_passAt h hlast⟩
      rw [Machine.turn, bind_ok hvisit]
      rfl
  · refine ⟨⟨{ advance m.irp with mdlAddress := m.irp.mdlAddress.map mmUnlockPages },
      m.frames.tail⟩, ?_, ⟨hadv.stackCount, hadv.length, hadv.counter, hadv.pointer⟩⟩
    rw [Machine.turn, bind_ok (walkStep_finish h hlast (by omega))]
    rfl

/-- A call from driver code either enters the dispatch routine on the stack or
is turned down. -/
theorem call_outcome {n : ℕ} {m : Machine} {irql : UInt8} {deviceObject : Pvoid} (hinv : Inv n m)
    (hfit : Fits m (.call irql deviceObject)) :
    (∃ irp' major, iofCallDriver irql deviceObject m.irp = .ok (irp', major) ∧
      Inv n ⟨irp', .dispatch :: m.frames⟩ ∧ OnStack irp') ∨
    iofCallDriver irql deviceObject m.irp = .error .assertion := by
  rcases hinv with ⟨c, hc, hat⟩ | hlow
  · by_cases hirql : irql ≤ dispatchLevel
    · -- the counter is not 1, so there is a location below
      rw [Fits, hat.counter, hat.stackCount] at hfit
      rcases Nat.exists_eq_add_one_of_ne_zero (by omega : c ≠ 0) with ⟨c, rfl⟩
      obtain ⟨irp', major, hcall, hat', -⟩ :=
        iofCallDriver_at hat (by omega) (by omega) deviceObject hirql
      exact Or.inl ⟨irp', major, hcall, Or.inl ⟨c, by omega, hat'⟩,
        onStack_of_at hat' (by omega) (by omega)⟩
    · exact Or.inr (iofCallDriver_rejects deviceObject (Or.inl hirql))
  · exact Or.inr (iofCallDriver_rejects deviceObject (Or.inr hlow))

/-- What a step that meets its condition can do: it goes on with a machine that
keeps the invariant, on the stack after a call, or it is turned down. -/
theorem step_outcome {n : ℕ} {m : Machine} {e : Event} (hinv : Inv n m) (hfit : Fits m e) :
    (∃ m', m.step e = .ok m' ∧ Inv n m' ∧
      ∀ irql deviceObject, e = .call irql deviceObject →
        m'.frames = .dispatch :: m.frames → OnStack m'.irp) ∨
    m.step e = .error .assertion ∨ m.step e = .error .bugCheck := by
  unfold Machine.step
  by_cases htop : m.frames.head? = some .walk
  · -- a loop is running: only its turns do anything
    rw [if_pos htop]
    left
    cases e with
    | turn =>
      rcases hinv with ⟨c, hc, hat⟩ | hlow
      · rw [Fits, hat.counter] at hfit
        rcases turn_at hat hc (by omega) with ⟨m', hturn, hat'⟩
        exact ⟨m', hturn, Or.inl ⟨c + 1, by omega, hat'⟩, by simp⟩
      · rw [Fits] at hfit
        omega
    | call irql deviceObject =>
      refine ⟨m, rfl, hinv, ?_⟩
      intro _ _ _ hframes
      exact absurd hframes.symm (List.cons_ne_self _ _)
    | complete => exact ⟨m, rfl, hinv, by simp⟩
    | ret status => exact ⟨m, rfl, hinv, by simp⟩
    | writeLocation index location => exact ⟨m, rfl, hinv, by simp⟩
    | writeStatus ioStatus cancel mdlAddress => exact ⟨m, rfl, hinv, by simp⟩
  · rw [if_neg htop]
    cases e with
    | call irql deviceObject =>
      rcases call_outcome hinv hfit with ⟨irp', major, hcall, hinv', hon⟩ | hreject
      · refine Or.inl ⟨⟨irp', .dispatch :: m.frames⟩, ?_, hinv', fun _ _ _ _ => hon⟩
        simp only [bind_ok hcall]
        rfl
      · simp [hreject, bind, Except.bind]
    | complete =>
      by_cases hdone : m.irp.currentLocation.toInt > m.irp.stackCount.toInt + 1
      · simp [checkNotCompleted, hdone, bind, Except.bind, throw, throwThe, MonadExceptOf.throw]
      · refine Or.inl ⟨⟨m.irp, .walk :: m.frames⟩, ?_, hinv, by simp⟩
        simp only [checkNotCompleted, if_neg hdone]
        rfl
    | turn => exact Or.inl ⟨m, rfl, hinv, by simp⟩
    | ret status =>
      refine Or.inl ⟨m.ret status, rfl, ?_, by simp⟩
      unfold Inv
      rw [ret_irp]
      exact hinv
    | writeLocation index location =>
      refine Or.inl ⟨_, rfl, ?_, by simp⟩
      rcases hinv with ⟨c, hc, hat⟩ | hlow
      · refine Or.inl ⟨c, hc, ⟨hat.stackCount, ?_, hat.counter, hat.pointer⟩⟩
        simpa using hat.length
      · exact Or.inr hlow
    | writeStatus ioStatus cancel mdlAddress =>
      refine Or.inl ⟨_, rfl, ?_, by simp⟩
      rcases hinv with ⟨c, hc, hat⟩ | hlow
      · exact Or.inl ⟨c, hc, ⟨hat.stackCount, hat.length, hat.counter, hat.pointer⟩⟩
      · exact Or.inr hlow

/-- The steps of the machine that meet their condition. -/
def FittingStep (m : Machine) (e : Event) (m' : Machine) : Prop := Fits m e ∧ m.step e = .ok m'

theorem step_inv {n : ℕ} {m m' : Machine} {e : Event} (hinv : Inv n m) (h : FittingStep m e m') :
    Inv n m' := by
  rcases step_outcome hinv h.1 with ⟨m'', hstep, hinv', -⟩ | hfail | hfail
  · rw [h.2] at hstep
    rcases Except.ok.inj hstep with rfl
    exact hinv'
  · rw [h.2] at hfail
    cases hfail
  · rw [h.2] at hfail
    cases hfail

/-- **Stack bounds.** In a run of a freshly allocated packet whose steps meet
their condition, every further such step is safe. -/
theorem calls_on_stack (stackSize : Int8) (hpos : 1 ≤ stackSize.toInt) (es : List Event)
    (m : Machine) (hrun : Trace (Fresh stackSize) FittingStep es m) (e : Event) (hfit : Fits m e) :
    StackSafe m e := by
  rcases Int.eq_ofNat_of_zero_le (by omega : 0 ≤ stackSize.toInt) with ⟨n, hn⟩
  have hinv : Inv n m :=
    hrun.invariant (fun _ hm => init_inv hn hm) (fun _ _ _ hinv hstep => step_inv hinv hstep)
  rcases step_outcome hinv hfit with ⟨m', hstep, -, hon⟩ | hfail | hfail
  · refine ⟨by rw [hstep]; simp, ?_⟩
    intro irql deviceObject m'' he hstep' hframes
    rw [hstep] at hstep'
    rcases Except.ok.inj hstep' with rfl
    exact hon irql deviceObject he hframes
  · exact ⟨by rw [hfail]; simp, fun _ _ _ _ hok => by rw [hfail] at hok; cases hok⟩
  · exact ⟨by rw [hfail]; simp, fun _ _ _ _ hok => by rw [hfail] at hok; cases hok⟩

/-- All steps of the machine. -/
def AnyStep (m : Machine) (e : Event) (m' : Machine) : Prop := m.step e = .ok m'

/-- A packet of one location after a call. -/
def calledOnce : Machine :=
  ⟨{ ioAllocateIrp 1 with currentLocation := 1, currentStackLocation := locationOffset 1 },
    [.dispatch]⟩

/-- A packet with two locations is forwarded, and completed by the lower driver: the second
dispatch routine is on the stack, and so are the turns of the loop. -/
theorem calls_on_stack_forwarded : ∃ first second completed,
    StackSafe first (.call 0 0) ∧ first.step (.call 0 0) = .ok second ∧ OnStack second.irp ∧
      second.irp.currentLocation = 1 ∧ StackSafe completed .turn ∧
      completed.irp.currentLocation = 3 ∧ completed.frames = [.walk, .dispatch, .dispatch] := by
  have h0 : Trace (Fresh 2) FittingStep [] ⟨ioAllocateIrp 2, []⟩ := Trace.start rfl
  have h1 := h0.snoc (e := .call 0 0) ⟨by constructor <;> decide, rfl⟩
  have h2 := h1.snoc (e := .call 0 0) ⟨by constructor <;> decide, rfl⟩
  have h3 := h2.snoc (e := .complete) ⟨by unfold Fits; trivial, rfl⟩
  have h4 := h3.snoc (e := .turn) ⟨by constructor <;> decide, rfl⟩
  have h5 := h4.snoc (e := .turn) ⟨by constructor <;> decide, rfl⟩
  have hsecond := calls_on_stack 2 (by decide) _ _ h1 (.call 0 0) (by constructor <;> decide)
  have hturn := calls_on_stack 2 (by decide) _ _ h5 .turn (by constructor <;> decide)
  exact ⟨_, _, _, hsecond, rfl, hsecond.2 0 0 _ rfl rfl rfl, rfl, hturn, rfl, rfl⟩

/-- The dispatch routine of the lowest location forwards the packet: the guard
passes, and the header in front of the stack is written to. -/
theorem call_below_stack :
    ¬ ∀ (stackSize : Int8), 1 ≤ stackSize.toInt → ∀ (es : List Event) (m : Machine),
      Trace (Fresh stackSize) AnyStep es m → ∀ e, StackSafe m e := by
  intro hall
  have hfirst : AnyStep ⟨ioAllocateIrp 1, []⟩ (.call 0 0) calledOnce := by
    unfold AnyStep
    rfl
  have hfresh : Fresh 1 ⟨ioAllocateIrp 1, []⟩ := rfl
  have hrun : Trace (Fresh 1) AnyStep [.call 0 0] calledOnce :=
    Trace.snoc (Trace.start hfresh) hfirst
  exact (hall 1 (by decide) _ _ hrun (.call 0 0)).1 rfl

end Wdutf.Io
