import Wdutf.Io.Ioctl

/-!
# Wdutf.Io.Buffers — the buffers of a device control request

* `build_ok`, `builds_of_build` — when `IoBuildDeviceIoControlRequest` returns a packet, and how its
  buffers are set up (`SetUp`);
* `completeLoop_top` — the loop of `IofCompleteRequest` up to the routine at the top location;
* `ioctl_buffers_iff` — the driver finds its input, and the output reaches the caller, exactly when
  no null pointer is copied from or to. That is never so for a direct method with output.
-/

namespace Wdutf.Io

open Wdutf.Memory

/-! ## The fresh packet -/

/-- A packet with `n` locations that has not been sent: the next location is the top one. -/
structure Unsent (stackSize : Int8) (n : ℕ) (irp : Irp) : Prop where
  size : stackSize.toInt = n
  stackCount : irp.stackCount = stackSize
  length : irp.stack.length = n
  counter : irp.currentLocation = stackSize + 1
  pointer : irp.currentStackLocation = locationOffset (n + 1 : ℕ)

section Unsent

variable {stackSize : Int8} {n : ℕ} {irp : Irp}

theorem unsent_ioAllocateIrp (h : stackSize.toInt = n) :
    Unsent stackSize n (ioAllocateIrp stackSize) := by
  have hlt := stackSize.toInt_lt
  have hsize := toNat_ioSizeOfIrp h (by omega)
  refine ⟨h, rfl, ?_, rfl, ?_⟩
  · simp only [ioAllocateIrp, ioInitializeIrp, List.length_replicate, hsize, sizeofIrp,
      sizeofIoStackLocation]
    omega
  · show ((ioSizeOfIrp stackSize).toNat : ℤ) = _
    rw [hsize, locationOffset, sizeofIrp, sizeofIoStackLocation]
    omega

/-- The counter of a packet with at most 126 locations has not wrapped. -/
theorem Unsent.at (h : Unsent stackSize n irp) (hn : n ≤ 126) : At n (n + 1) irp := by
  have hsize := h.size
  refine ⟨?_, h.length, ?_, h.pointer⟩
  · rw [h.stackCount, hsize]
  · rw [h.counter, toInt_add_one (by omega), hsize]
    rfl

/-- A packet with 127 locations is turned down. -/
theorem Unsent.le_of_iofCallDriver (h : Unsent stackSize n irp) {irql : UInt8} {device : Pvoid}
    {irp' : Irp} {major : UInt8} (hcall : iofCallDriver irql device irp = .ok (irp', major)) :
    n ≤ 126 := by
  by_contra hn
  have hlt := stackSize.toInt_lt
  have hsize := h.size
  have hcounter : irp.currentLocation.toInt < 1 := by
    rw [h.counter, show stackSize = 127 from Int8.toInt_inj.1 (by rw [hsize]; show _ = 127; omega)]
    decide
  rw [iofCallDriver_rejects device (Or.inr hcounter)] at hcall
  cases hcall

theorem updateNext_ok (h : Unsent stackSize n irp) (hn : 1 ≤ n)
    (f : IoStackLocation → IoStackLocation) :
    ∃ irp', updateNext irp f = .ok irp' ∧ Unsent stackSize n irp' ∧
      irp'.location n = f (irp.location n) := by
  have hpointer : irp.currentStackLocation - sizeofIoStackLocation = locationOffset n := by
    rw [h.pointer, locationOffset, locationOffset, sizeofIoStackLocation]
    push_cast
    omega
  have hlength : n ≤ irp.stack.length := Nat.le_of_eq h.length.symm
  refine ⟨{ irp with stack := irp.stack.modify (n - 1) f }, ?_, ?_, ?_⟩
  · rw [updateNext, hpointer, update_ok f hn hlength]
    rfl
  · refine ⟨h.size, h.stackCount, ?_, h.counter, h.pointer⟩
    simpa using h.length
  · exact getD_modify_self f (by omega)

theorem indexAt_none {p : ℤ} (h : ∀ i < irp.stack.length, p ≠ locationOffset (i + 1)) :
    irp.indexAt p = none := if_neg fun hat => h _ hat.2 hat.1

/-- A device without a stack size has no location to write to. -/
theorem updateNext_outside (h : stackSize.toInt < 1) (f : IoStackLocation → IoStackLocation) :
    updateNext (ioAllocateIrp stackSize) f = .error (.stack .outsideStack) := by
  have hsize := toNat_ioSizeOfIrp_eq stackSize
  have hlow := stackSize.le_toInt
  have hnone : (ioAllocateIrp stackSize).indexAt
      ((ioAllocateIrp stackSize).currentStackLocation - sizeofIoStackLocation) = none := by
    -- there is no location, or the size is no whole number of them behind the header
    refine indexAt_none fun i hi => ?_
    have hlength : (ioAllocateIrp stackSize).stack.length =
        ((ioSizeOfIrp stackSize).toNat - sizeofIrp) / sizeofIoStackLocation := List.length_replicate
    have hpointer : (ioAllocateIrp stackSize).currentStackLocation =
        ((ioSizeOfIrp stackSize).toNat : ℤ) := rfl
    rw [hlength, hsize] at hi
    rw [hpointer, hsize, locationOffset]
    simp only [sizeofIrp, sizeofIoStackLocation] at hi ⊢
    omega
  rw [updateNext, Irp.update, hnone]
  rfl

end Unsent

/-! ## The packet that is built -/

/-- The pool is not exhausted. -/
structure Supplied (env : Env) (req : Request) : Prop where
  irp : env.irp ≠ 0
  systemBuffer : req.method = .buffered → env.systemBuffer ≠ 0
  mdl : req.method.direct → env.mdl ≠ 0

/-- When `IoBuildDeviceIoControlRequest` returns a packet: the device has a stack size, and no input
is copied from a null pointer. -/
structure Builds (env : Env) (req : Request) : Prop extends Supplied env req where
  stackSize : 1 ≤ req.stackSize.toInt
  input : req.method = .buffered → req.inputBuffer ≠ 0 ∨ req.inputBufferLength = 0

/-- How the buffers are set up: the fields of the packet, its location and the memory. -/
inductive SetUp (env : Env) (req : Request) (heap : Heap) :
    IrpFields → IoStackLocation → Heap → Prop
  | buffered {fields : IrpFields} {location : IoStackLocation} :
      req.method = .buffered → env.systemBuffer ≠ 0 →
      fields.systemBuffer = env.systemBuffer → fields.userBuffer = req.outputBuffer →
      fields.flags &&& irpBufferedIo ≠ 0 →
      SetUp env req heap fields location { heap with
        memory := copy heap.memory env.systemBuffer.toNat req.inputBuffer.toNat
          req.inputBufferLength.toNat }
  | direct {fields : IrpFields} {location : IoStackLocation} :
      req.method.direct → fields.systemBuffer = req.inputBuffer → fields.userBuffer = 0 →
      fields.flags &&& irpBufferedIo ≠ 0 →
      fields.mdl = some (mmInitializeMdl env.mdl req.outputBuffer req.outputBufferLength) →
      SetUp env req heap fields location heap
  | neither {fields : IrpFields} {location : IoStackLocation} :
      req.method = .neither → location.argument4 = req.inputBuffer →
      fields.userBuffer = req.outputBuffer → fields.flags &&& irpBufferedIo = 0 →
      SetUp env req heap fields location heap

/-- The rest of the packet that is built. -/
structure Built (env : Env) (req : Request) (fields : IrpFields) (location : IoStackLocation) :
    Prop where
  routine : location.completionRoutine = env.ddkIoctlCompletion
  control : location.control = slInvokeOnSuccess ||| slInvokeOnError ||| slInvokeOnCancel
  inputLength : location.argument2 = req.inputBufferLength.toUInt64
  userEvent : fields.userEvent = req.event
  userIosb : fields.userIosb = req.ioStatusBlock

/-- A packet with `n` locations is returned, with its buffers set up. -/
def Returns (env : Env) (req : Request) (n : ℕ) (heap : Heap)
    (result : Except Trap (Option (Irp × IrpFields) × Heap)) : Prop :=
  ∃ irp fields heap', result = .ok (some (irp, fields), heap') ∧ Unsent req.stackSize n irp ∧
    Built env req fields (irp.location n) ∧ SetUp env req heap fields (irp.location n) heap'

section Build

variable {env : Env} {req : Request} {heap heap' : Heap} {n : ℕ} {irp irp' : Irp}
  {fields : IrpFields}

theorem copyMemory_ok {destination source : Pvoid} {length : ℕ}
    (h : length = 0 ∨ destination ≠ 0 ∧ source ≠ 0) :
    heap.copyMemory destination source length =
      .ok { heap with memory := copy heap.memory destination.toNat source.toNat length } := by
  unfold Heap.copyMemory
  rw [if_neg]
  · rfl
  · rintro ⟨hlength, hnull⟩
    rcases h with hzero | ⟨hdestination, hsource⟩
    · exact hlength hzero
    · exact hnull.elim hdestination hsource

theorem copyMemory_null {destination source : Pvoid} {length : ℕ} (hlength : length ≠ 0)
    (hnull : destination = 0 ∨ source = 0) :
    heap.copyMemory destination source length = .error .nullPointer :=
  if_pos ⟨hlength, hnull⟩

theorem finishRequest_returns (h : Unsent req.stackSize n irp) (hn : 1 ≤ n)
    (hlength : (irp.location n).argument2 = req.inputBufferLength.toUInt64)
    (hsetUp : ∀ fields' location, fields'.systemBuffer = fields.systemBuffer →
      fields'.userBuffer = fields.userBuffer → fields'.flags = fields.flags →
      fields'.mdl = fields.mdl → location.argument4 = (irp.location n).argument4 →
      SetUp env req heap fields' location heap') :
    Returns env req n heap (finishRequest env req irp fields heap') := by
  rcases updateNext_ok h hn (setCompletionRoutine env.ddkIoctlCompletion 0) with
    ⟨irp', hupdate, hunsent, hset⟩
  refine ⟨irp', { fields with
    userEvent := req.event, userIosb := req.ioStatusBlock, requestorMode := kernelMode },
    heap', ?_, hunsent, ?_, ?_⟩
  · rw [finishRequest, hupdate]
    rfl
  · rw [hset]
    exact ⟨rfl, rfl, hlength, rfl, rfl⟩
  · rw [hset]
    exact hsetUp _ _ rfl rfl rfl rfl rfl

theorem buildBuffered_returns (h : Unsent req.stackSize n irp) (hn : 1 ≤ n)
    (hlength : (irp.location n).argument2 = req.inputBufferLength.toUInt64)
    (hmethod : req.method = .buffered) (hsystem : env.systemBuffer ≠ 0)
    (hinput : req.inputBuffer ≠ 0 ∨ req.inputBufferLength = 0) (address : Pvoid) :
    Returns env req n heap (buildBuffered env req irp (zeroFields address) heap) := by
  have hcopy : req.inputBufferLength.toNat = 0 ∨ env.systemBuffer ≠ 0 ∧ req.inputBuffer ≠ 0 := by
    rcases hinput with hinput | hzero
    · exact Or.inr ⟨hsystem, hinput⟩
    · left
      rw [hzero]
      rfl
  unfold buildBuffered
  simp only [if_neg hsystem]
  rw [copyMemory_ok hcopy]
  apply finishRequest_returns h hn hlength
  intro fields' location hfields huser hflags _ _
  refine .buffered hmethod hsystem hfields huser ?_
  rw [hflags]
  show (0 ||| (irpBufferedIo ||| irpDeallocateBuffer)) &&& irpBufferedIo ≠ 0
  decide

theorem buildDirect_returns (h : Unsent req.stackSize n irp) (hn : 1 ≤ n)
    (hlength : (irp.location n).argument2 = req.inputBufferLength.toUInt64)
    (hmethod : req.method.direct) (hmdl : env.mdl ≠ 0) (address : Pvoid) :
    Returns env req n heap (buildDirect env req irp (zeroFields address) heap) := by
  have hunsent : Unsent req.stackSize n { irp with mdlAddress := [0] } :=
    ⟨h.size, h.stackCount, h.length, h.counter, h.pointer⟩
  unfold buildDirect
  simp only [if_neg hmdl]
  apply finishRequest_returns hunsent hn hlength
  intro fields' location hfields huser hflags hmdl' _
  refine .direct hmethod hfields huser ?_ hmdl'
  rw [hflags]
  show (0 ||| irpBufferedIo) &&& irpBufferedIo ≠ 0
  decide

theorem buildNeither_returns (h : Unsent req.stackSize n irp) (hn : 1 ≤ n)
    (hlength : (irp.location n).argument2 = req.inputBufferLength.toUInt64)
    (hmethod : req.method = .neither) (address : Pvoid) :
    Returns env req n heap (buildNeither env req irp (zeroFields address) heap) := by
  rcases updateNext_ok h hn fun location => { location with argument4 := req.inputBuffer } with
    ⟨irp', hupdate, hunsent, hset⟩
  unfold buildNeither
  rw [hupdate]
  have hlength' : (irp'.location n).argument2 = req.inputBufferLength.toUInt64 := by
    rw [hset]
    exact hlength
  apply finishRequest_returns hunsent hn hlength'
  intro fields' location _ huser hflags _ hinput
  refine .neither hmethod ?_ huser ?_
  · rw [hinput, hset]
  · rw [hflags]
    show 0 &&& irpBufferedIo = 0
    decide

/-- The packet that is built. -/
theorem build_ok (h : Builds env req) :
    ∃ n, 1 ≤ n ∧ Returns env req n heap (ioBuildDeviceIoControlRequest env req heap) := by
  rcases Int.eq_ofNat_of_zero_le (Int.le_trans (by decide) h.stackSize) with ⟨n, hsize⟩
  have hn : 1 ≤ n := by
    have hone := h.stackSize
    omega
  rcases updateNext_ok (unsent_ioAllocateIrp hsize) hn (setParameters req) with
    ⟨irp, hupdate, hunsent, hparameters⟩
  have hlength : (irp.location n).argument2 = req.inputBufferLength.toUInt64 := by
    rw [hparameters]
    rfl
  refine ⟨n, hn, ?_⟩
  unfold ioBuildDeviceIoControlRequest
  rw [if_neg h.irp, hupdate]
  show Returns env req n heap (buildMethod env req irp (zeroFields env.irp) heap)
  unfold buildMethod
  cases hmethod : req.method with
  | buffered =>
    exact buildBuffered_returns hunsent hn hlength hmethod (h.systemBuffer hmethod)
      (h.input hmethod) env.irp
  | inDirect =>
    exact buildDirect_returns hunsent hn hlength (Or.inl hmethod) (h.mdl (Or.inl hmethod)) env.irp
  | outDirect =>
    exact buildDirect_returns hunsent hn hlength (Or.inr hmethod) (h.mdl (Or.inr hmethod)) env.irp
  | neither => exact buildNeither_returns hunsent hn hlength hmethod env.irp

theorem buildBuffered_inv {fields₀ : IrpFields}
    (h : buildBuffered env req irp fields₀ heap = .ok (some (irp', fields), heap')) :
    env.systemBuffer ≠ 0 ∧ (req.inputBuffer ≠ 0 ∨ req.inputBufferLength = 0) := by
  unfold buildBuffered at h
  by_cases hnull : env.systemBuffer = 0
  · simp only [if_pos hnull] at h
    cases h
  refine ⟨hnull, ?_⟩
  simp only [if_neg hnull] at h
  by_contra hinput
  rw [not_or, not_not] at hinput
  have hlength : req.inputBufferLength.toNat ≠ 0 :=
    fun hzero => hinput.2 (UInt32.toNat_inj.1 hzero)
  rw [copyMemory_null hlength (Or.inr hinput.1)] at h
  cases h

theorem buildDirect_inv {fields₀ : IrpFields}
    (h : buildDirect env req irp fields₀ heap = .ok (some (irp', fields), heap')) :
    env.mdl ≠ 0 := by
  intro hnull
  unfold buildDirect at h
  simp only [if_pos hnull] at h
  cases h

/-- A packet is built in no other case. -/
theorem builds_of_build
    (h : ioBuildDeviceIoControlRequest env req heap = .ok (some (irp, fields), heap')) :
    Builds env req := by
  unfold ioBuildDeviceIoControlRequest at h
  have hirp : env.irp ≠ 0 := by
    intro hnull
    rw [if_pos hnull] at h
    cases h
  rw [if_neg hirp] at h
  have hsize : 1 ≤ req.stackSize.toInt := by
    by_contra hsize
    rw [updateNext_outside (by omega)] at h
    cases h
  cases hupdate : updateNext (ioAllocateIrp req.stackSize) (setParameters req) with
  | error trap =>
    rw [hupdate] at h
    cases h
  | ok irp₀ =>
    rw [hupdate] at h
    replace h : buildMethod env req irp₀ (zeroFields env.irp) heap =
        .ok (some (irp, fields), heap') := h
    unfold buildMethod at h
    refine ⟨⟨hirp, ?_, ?_⟩, hsize, ?_⟩
    · intro hmethod
      rw [hmethod] at h
      exact (buildBuffered_inv h).1
    · rintro (hmethod | hmethod)
      · rw [hmethod] at h
        exact buildDirect_inv h
      · rw [hmethod] at h
        exact buildDirect_inv h
    · intro hmethod
      rw [hmethod] at h
      exact (buildBuffered_inv h).2

end Build

/-! ## The routine at the top location -/

/-- The top location has a routine that is called on success and on error. -/
structure TopSet (n : ℕ) (routine : Pvoid) (irp : Irp) : Prop where
  routine : (irp.location n).completionRoutine = routine
  success : (irp.location n).control &&& slInvokeOnSuccess ≠ 0
  error : (irp.location n).control &&& slInvokeOnError ≠ 0

section Top

variable {W : Type} {routines : Routines W} {n c : ℕ} {irp irp' : Irp} {routine : Pvoid} {w : W}
  {v : Visit W}

/-- A pending mark does not change when the routine is called. -/
theorem pending_and (control mask : UInt8) (h : slPendingReturned &&& mask = 0) :
    (control ||| slPendingReturned) &&& mask = control &&& mask := by
  apply UInt8.toBitVec_inj.1
  have hbits := congrArg UInt8.toBitVec h
  simp only [UInt8.toBitVec_and, UInt8.toBitVec_or] at hbits ⊢
  rw [BitVec.and_comm, BitVec.and_or_distrib_left, BitVec.and_comm _ slPendingReturned.toBitVec,
    hbits, BitVec.and_comm]
  simp

theorem foundAt_and (irp : Irp) (k : ℕ) (m : Bool) {mask : UInt8}
    (h : slPendingReturned &&& mask = 0) :
    (foundAt irp k m).control &&& mask = (irp.location k).control &&& mask := by
  cases m with
  | false => rfl
  | true => exact pending_and _ _ h

/-- The loop leaves the locations above as they are, but for a pending mark. -/
theorem TopSet.passed (h : TopSet n routine irp) (hlength : irp.stack.length = n) (hc : c < n)
    (hpassed : Passed irp c v irp') : TopSet n routine irp' := by
  have hfound : ∃ m, irp'.location n = foundAt irp n m := by
    rcases Nat.eq_or_lt_of_le hc with rfl | hlt
    · exact ⟨v.marksNext, hpassed.next (by omega)⟩
    · exact ⟨false, hpassed.above n hlt⟩
  rcases hfound with ⟨m, hfound⟩
  constructor
  · rw [hfound, foundAt_completionRoutine, h.routine]
  · rw [hfound, foundAt_and irp n m (by decide)]
    exact h.success
  · rw [hfound, foundAt_and irp n m (by decide)]
    exact h.error

theorem TopSet.invokes (h : TopSet n routine irp) :
    invokes (irp.location n).control irp = true := by
  rw [invokes_iff]
  cases hstatus : ntSuccess irp.ioStatus.status with
  | true => exact Or.inl ⟨rfl, h.success⟩
  | false => exact Or.inr (Or.inl ⟨rfl, h.error⟩)

theorem locationOffset_inj {k k' : ℕ} (h : locationOffset k = locationOffset k') : k = k' := by
  simp only [locationOffset, sizeofIoStackLocation] at h
  omega

/-- The end of a walk: a routine has stopped it, and if it is the one at the top location, then
what that one leaves is what is left. -/
structure TopWalk (routines : Routines W) (n : ℕ) (routine : Pvoid) (w' : W)
    (visits : List (Visit W)) : Prop where
  stopped : ∃ v ∈ visits, v.Stops
  top : ∀ v ∈ visits, v.pStack = locationOffset n →
    ∃ device context, w' = (routines routine device v.irp context v.world).world

/-- A visit below the top. -/
theorem TopWalk.cons {w' : W} {visits : List (Visit W)} (h : TopWalk routines n routine w' visits)
    (hv : v.pStack = locationOffset c) (hc : c ≠ n) :
    TopWalk routines n routine w' (v :: visits) := by
  constructor
  · rcases h.stopped with ⟨u, hu, hstops⟩
    exact ⟨u, List.mem_cons_of_mem v hu, hstops⟩
  · intro u hu htop
    rcases List.mem_cons.1 hu with rfl | hu
    · rw [hv] at htop
      exact absurd (locationOffset_inj htop) hc
    · exact h.top u hu htop

/-- The loop, up to the top location, where a routine stops it. -/
theorem completeLoop_top (hn : n ≤ 126) (r : ℕ) (hr : c + r = n) (hc : 1 ≤ c) (h : At n c irp)
    (htop : TopSet n routine irp)
    (hstops : ∀ device irp context w,
      (routines routine device irp context w).status = statusMoreProcessingRequired)
    {fuel : ℕ} (hfuel : r < fuel) :
    ∃ irp' w' visits, completeLoop routines fuel irp w = .ok (irp', w', visits) ∧
      TopWalk routines n routine w' visits := by
  induction r generalizing c irp w fuel with
  | zero =>
    rcases Nat.exists_eq_add_one_of_ne_zero (by omega : fuel ≠ 0) with ⟨fuel, rfl⟩
    obtain rfl : c = n := by omega
    have hstep := walkStep_visit h (by omega) hc (Nat.le_refl _)
    rw [htop.invokes, if_pos rfl, htop.routine] at hstep
    refine ⟨_, _, _, completeLoop_stop hstep (hstops _ _ _ _), ?_⟩
    constructor
    · exact ⟨_, List.mem_cons_self, _, rfl, hstops _ _ _ _⟩
    · intro v hv _
      rw [List.mem_singleton] at hv
      subst hv
      exact ⟨_, _, rfl⟩
  | succ r ih =>
    rcases Nat.exists_eq_add_one_of_ne_zero (by omega : fuel ≠ 0) with ⟨fuel, rfl⟩
    have hcn : c ≤ n := by omega
    have hstep := walkStep_visit h (by omega) hc hcn
    have hseen := at_seenAt h (by omega : c < 127)
    cases hinv : invokes (irp.location c).control irp with
    | true =>
      rw [hinv, if_pos rfl] at hstep
      let reply := routines (irp.location c).completionRoutine (deviceAbove irp c) (seenAt irp c)
        (irp.location c).context w
      by_cases hstop : reply.status = statusMoreProcessingRequired
      · -- a driver stops the walk below the top
        refine ⟨_, _, _, completeLoop_stop hstep hstop, ?_⟩
        constructor
        · exact ⟨_, List.mem_cons_self, _, rfl, hstop⟩
        · intro v hv htop'
          rw [List.mem_singleton] at hv
          subst hv
          exact absurd (locationOffset_inj htop') (by omega)
      · have hat : At n (c + 1)
            { seenAt irp c with ioStatus := reply.ioStatus, cancel := reply.cancel } :=
          ⟨hseen.stackCount, hseen.length, hseen.counter, hseen.pointer⟩
        have hset := htop.passed h.length (by omega) (@passed_invoke W irp n c w h hc hcn reply
          (locationOffset c) (irp.location c).control (irp.location c).completionRoutine
          (deviceAbove irp c) (irp.location c).context)
        rcases @ih _ _ reply.world (by omega) (by omega) hat hset fuel (by omega) with
          ⟨irp', w', visits, hrun, hwalk⟩
        exact ⟨irp', w', _, completeLoop_call hstep hstop hrun, hwalk.cons rfl (by omega)⟩
    | false =>
      rw [hinv] at hstep
      have hset := htop.passed h.length (by omega)
        (@passed_pass W irp n c w h hc hcn (locationOffset c) (irp.location c).control)
      rcases @ih _ _ w (by omega) (by omega) (at_passAt h (by omega)) hset fuel (by omega) with
        ⟨irp', w', visits, hrun, hwalk⟩
      exact ⟨irp', w', _, completeLoop_pass hstep hrun, hwalk.cons rfl (by omega)⟩

end Top

/-! ## What is asked of the buffers -/

def InRange (p : Pvoid) (length x : ℕ) : Prop := p.toNat ≤ x ∧ x < p.toNat + length

/-- A new system buffer has no byte in common with the buffers of the caller. -/
structure Apart (env : Env) (req : Request) : Prop where
  input : ∀ x, InRange env.systemBuffer req.systemBufferLength.toNat x →
    ¬ InRange req.inputBuffer req.inputBufferLength.toNat x
  output : ∀ x, InRange env.systemBuffer req.systemBufferLength.toNat x →
    ¬ InRange req.outputBuffer req.outputBufferLength.toNat x

/-- Where the driver finds its input. -/
def inputPlace (req : Request) (fields : IrpFields) (location : IoStackLocation) : Pvoid :=
  match req.method with
  | .neither => location.argument4
  | _ => fields.systemBuffer

/-- Where the driver puts its output. -/
def outputPlace (req : Request) (fields : IrpFields) : Pvoid :=
  match req.method with
  | .buffered => fields.systemBuffer
  | .neither => fields.userBuffer
  | _ => (fields.mdl.map mmGetMdlVirtualAddress).getD 0

/-- The driver is given the input and a place for its output, and no memory of the caller has been
written. -/
structure Prepared (env : Env) (req : Request) (fields : IrpFields) (location : IoStackLocation)
    (heap heap' : Heap) : Prop where
  length : location.argument2 = req.inputBufferLength.toUInt64
  input : cells heap'.memory (inputPlace req fields location).toNat req.inputBufferLength.toNat =
    cells heap.memory req.inputBuffer.toNat req.inputBufferLength.toNat
  inPlace : req.method ≠ .buffered → outputPlace req fields = req.outputBuffer
  memory : ∀ x, ¬ (req.method = .buffered ∧
    InRange env.systemBuffer req.systemBufferLength.toNat x) → heap'.memory x = heap.memory x
  statusBlocks : heap'.statusBlocks = heap.statusBlocks
  events : heap'.events = heap.events

/-- A completion with so many bytes of output: they are in the output buffer, and nothing but this
part of it, the status block and the event has been written. -/
structure Completed (req : Request) (fields : IrpFields) (information : ℕ) (before after : Heap) :
    Prop where
  output : cells after.memory req.outputBuffer.toNat information =
    cells before.memory (outputPlace req fields).toNat information
  memory : ∀ x, ¬ InRange req.outputBuffer information x → after.memory x = before.memory x
  statusBlocks : ∀ p, p ≠ req.ioStatusBlock → after.statusBlocks p = before.statusBlocks p
  events : ∀ p, p ≠ req.event → after.events p = before.events p

/-- No null pointer is copied to: there is no output, or it is copied to a buffer of the caller. A
direct method has none. -/
def Delivers (req : Request) (information : ℕ) : Prop :=
  (req.method = .buffered → req.outputBuffer ≠ 0 ∨ information = 0) ∧
  (req.method.direct → information = 0)

section Meets

variable {env : Env} {req : Request} {heap heap' before : Heap} {irp : Irp} {fields : IrpFields}
  {location : IoStackLocation}

theorem inputBufferLength_le (req : Request) :
    req.inputBufferLength.toNat ≤ req.systemBufferLength.toNat := by
  unfold Request.systemBufferLength
  split
  · exact Nat.le_refl _
  · rename_i hle
    exact UInt32.le_iff_toNat_le.1 (UInt32.not_lt.1 hle)

theorem outputBufferLength_le (req : Request) :
    req.outputBufferLength.toNat ≤ req.systemBufferLength.toNat := by
  unfold Request.systemBufferLength
  split
  · rename_i hlt
    exact Nat.le_of_lt (UInt32.lt_iff_toNat_lt.1 hlt)
  · exact Nat.le_refl _

/-- A copy between ranges without a common byte is exact. -/
theorem cells_copy {m : ℕ → UInt8} {destination source : Pvoid} {length n n' : ℕ}
    (hn : length ≤ n) (hn' : length ≤ n')
    (h : ∀ x, InRange destination n x → ¬ InRange source n' x) :
    cells (copy m destination.toNat source.toNat length) destination.toNat length =
      cells m source.toNat length := by
  rw [copy_eq_iff]
  by_cases hle : destination.toNat ≤ source.toNat
  · exact Or.inl hle
  · right
    intro k hk
    -- the first byte of the destination is not in the source
    have hfirst := h destination.toNat ⟨Nat.le_refl _, by omega⟩
    have hbehind : source.toNat + n' ≤ destination.toNat := by
      by_contra hlt
      exact hfirst ⟨by omega, by omega⟩
    exact periodic_of_le (Nat.le_trans (Nat.add_le_add_left hn' _) hbehind) k hk

theorem SetUp.prepared (h : SetUp env req heap fields location heap')
    (hbuilt : Built env req fields location) (hapart : req.method = .buffered → Apart env req) :
    Prepared env req fields location heap heap' := by
  have hlength := hbuilt.inputLength
  cases h with
  | buffered hmethod hsystem hfields huser hflags =>
    have hinput : inputPlace req fields location = env.systemBuffer := by
      rw [inputPlace, hmethod]
      exact hfields
    refine ⟨hlength, ?_, fun hne => absurd hmethod hne, ?_, rfl, rfl⟩
    · rw [hinput]
      exact cells_copy (inputBufferLength_le req) (Nat.le_refl _) (hapart hmethod).input
    · intro x hx
      apply copy_of_not_mem
      intro hrange
      have hle := inputBufferLength_le req
      exact hx ⟨hmethod, hrange.1, by omega⟩
  | direct hmethod hfields huser hflags hmdl =>
    have hinput : inputPlace req fields location = req.inputBuffer := by
      unfold inputPlace
      rcases hmethod with hmethod | hmethod <;> rw [hmethod] <;> exact hfields
    refine ⟨hlength, by rw [hinput], fun _ => ?_, fun _ _ => rfl, rfl, rfl⟩
    have houtput : outputPlace req fields = (fields.mdl.map mmGetMdlVirtualAddress).getD 0 := by
      unfold outputPlace
      rcases hmethod with hmethod | hmethod <;> rw [hmethod]
    rw [houtput, hmdl]
    exact mmGetMdlVirtualAddress_init ..
  | neither hmethod hinput huser hflags =>
    have hplace : inputPlace req fields location = req.inputBuffer := by
      rw [inputPlace, hmethod]
      exact hinput
    refine ⟨hlength, by rw [hplace], fun _ => ?_, fun _ _ => rfl, rfl, rfl⟩
    rw [outputPlace, hmethod]
    exact huser

/-! ### The completion -/

theorem statusBlocks_setUserIosb {heap : Heap} {userIosb p : Pvoid} (h : p ≠ userIosb)
    (ioStatus : IoStatusBlock) :
    (heap.setUserIosb userIosb ioStatus).statusBlocks p = heap.statusBlocks p := by
  unfold Heap.setUserIosb
  split
  · exact Function.update_of_ne h ioStatus heap.statusBlocks
  · rfl

theorem events_setUserEvent {heap : Heap} {userEvent p : Pvoid} (h : p ≠ userEvent) :
    (heap.setUserEvent userEvent).events p = heap.events p := by
  unfold Heap.setUserEvent
  split
  · exact Function.update_of_ne h _ heap.events
  · rfl

/-- `DdkIoctlCompletion` writes memory only to copy the output. -/
theorem ddkIoctlCompletion_ok {heap : Heap}
    (h : copyOutput fields irp.ioStatus.information before = .ok heap) :
    ∃ after, ddkIoctlCompletion fields irp before = .ok after ∧ after.memory = heap.memory ∧
      (∀ p, p ≠ fields.userIosb → after.statusBlocks p = heap.statusBlocks p) ∧
      ∀ p, p ≠ fields.userEvent → after.events p = heap.events p := by
  have hrun : ddkIoctlCompletion fields irp before = .ok ((((heap.setUserIosb fields.userIosb
      irp.ioStatus).setUserEvent fields.userEvent).freeMdl fields.mdl).free fields.address) := by
    unfold ddkIoctlCompletion
    rw [h]
    rfl
  have hiosb : ∀ ioStatus, (heap.setUserIosb fields.userIosb ioStatus).memory = heap.memory ∧
      (heap.setUserIosb fields.userIosb ioStatus).events = heap.events := by
    intro ioStatus
    unfold Heap.setUserIosb
    split <;> exact ⟨rfl, rfl⟩
  have hevent : ∀ heap : Heap, (heap.setUserEvent fields.userEvent).memory = heap.memory ∧
      (heap.setUserEvent fields.userEvent).statusBlocks = heap.statusBlocks := by
    intro heap
    unfold Heap.setUserEvent
    split <;> exact ⟨rfl, rfl⟩
  have hmdl : ∀ heap : Heap, (heap.freeMdl fields.mdl).memory = heap.memory ∧
      (heap.freeMdl fields.mdl).statusBlocks = heap.statusBlocks ∧
      (heap.freeMdl fields.mdl).events = heap.events := by
    intro heap
    unfold Heap.freeMdl
    split <;> exact ⟨rfl, rfl, rfl⟩
  refine ⟨_, hrun, ?_, fun p hp => ?_, fun p hp => ?_⟩
  · show (Heap.freeMdl _ _).memory = _
    rw [(hmdl _).1, (hevent _).1, (hiosb _).1]
  · show (Heap.freeMdl _ _).statusBlocks p = _
    rw [(hmdl _).2.1, (hevent _).2, statusBlocks_setUserIosb hp]
  · show (Heap.freeMdl _ _).events p = _
    rw [(hmdl _).2.2, events_setUserEvent hp, (hiosb _).2]

theorem ddkIoctlCompletion_error {trap : Trap}
    (h : copyOutput fields irp.ioStatus.information before = .error trap) :
    ddkIoctlCompletion fields irp before = .error trap := by
  unfold ddkIoctlCompletion
  rw [h]
  rfl

/-- A copy that is made leaves the output, and nothing else, in memory. -/
theorem Built.completed {memory : ℕ → UInt8} {information : ℕ} (h : Built env req fields location)
    (hcopy : copyOutput fields irp.ioStatus.information before =
      .ok { before with memory := memory })
    (houtput : cells memory req.outputBuffer.toNat information =
      cells before.memory (outputPlace req fields).toNat information)
    (hmemory : ∀ x, ¬ InRange req.outputBuffer information x → memory x = before.memory x) :
    ∃ after, ddkIoctlCompletion fields irp before = .ok after ∧
      Completed req fields information before after := by
  rcases ddkIoctlCompletion_ok hcopy with ⟨after, hrun, hmem, hiosb, hevent⟩
  rw [h.userIosb] at hiosb
  rw [h.userEvent] at hevent
  refine ⟨after, hrun, ?_, ?_, hiosb, hevent⟩
  · rw [hmem]
    exact houtput
  · rw [hmem]
    exact hmemory

theorem not_completed_of_error {trap : Trap} {information : ℕ}
    (hcopy : copyOutput fields irp.ioStatus.information before = .error trap) :
    ¬ ∃ after, ddkIoctlCompletion fields irp before = .ok after ∧
      Completed req fields information before after := by
  rintro ⟨after, hrun, -⟩
  rw [ddkIoctlCompletion_error hcopy] at hrun
  cases hrun

/-- `DdkIoctlCompletion` on a packet that was set up. -/
theorem SetUp.completed_iff (h : SetUp env req heap fields location heap')
    (hbuilt : Built env req fields location) (hapart : req.method = .buffered → Apart env req)
    (hfits : irp.ioStatus.information.toNat ≤ req.outputBufferLength.toNat) :
    (∃ after, ddkIoctlCompletion fields irp before = .ok after ∧
      Completed req fields irp.ioStatus.information.toNat before after) ↔
      Delivers req irp.ioStatus.information.toNat := by
  generalize hinformation : irp.ioStatus.information.toNat = information at hfits ⊢
  cases h with
  | buffered hmethod hsystem hfields huser hflags =>
    have hcopy : copyOutput fields irp.ioStatus.information before =
        before.copyMemory req.outputBuffer env.systemBuffer information := by
      rw [copyOutput, if_pos hflags, hfields, huser, hinformation]
    have hplace : outputPlace req fields = env.systemBuffer := by
      rw [outputPlace, hmethod]
      exact hfields
    by_cases hnull : req.outputBuffer ≠ 0 ∨ information = 0
    · refine iff_of_true ?_ ⟨fun _ => hnull, ?_⟩
      · have hok : information = 0 ∨ req.outputBuffer ≠ 0 ∧ env.systemBuffer ≠ 0 :=
          hnull.symm.imp id fun hbuffer => ⟨hbuffer, hsystem⟩
        rw [copyMemory_ok hok] at hcopy
        refine hbuilt.completed hcopy ?_ fun x hx => copy_of_not_mem hx
        rw [hplace]
        have hle := outputBufferLength_le req
        exact cells_copy hfits (Nat.le_trans hfits hle)
          fun x hx hx' => (hapart hmethod).output x hx' hx
      · rintro (hdirect | hdirect) <;> rw [hmethod] at hdirect <;> cases hdirect
    · refine iff_of_false ?_ fun hdelivers => hnull (hdelivers.1 hmethod)
      rw [not_or, not_not] at hnull
      rw [copyMemory_null hnull.2 (Or.inl hnull.1)] at hcopy
      exact not_completed_of_error hcopy
  | direct hmethod hfields huser hflags hmdl =>
    have hcopy : copyOutput fields irp.ioStatus.information before =
        before.copyMemory 0 req.inputBuffer information := by
      rw [copyOutput, if_pos hflags, hfields, huser, hinformation]
    by_cases hzero : information = 0
    · subst hzero
      refine iff_of_true ?_ ⟨fun _ => Or.inr rfl, fun _ => rfl⟩
      rw [copyMemory_ok (Or.inl rfl)] at hcopy
      exact hbuilt.completed hcopy rfl fun _ _ => rfl
    · refine iff_of_false ?_ fun hdelivers => hzero (hdelivers.2 hmethod)
      rw [copyMemory_null hzero (Or.inl rfl)] at hcopy
      exact not_completed_of_error hcopy
  | neither hmethod hinput huser hflags =>
    have hcopy : copyOutput fields irp.ioStatus.information before = .ok before := by
      rw [copyOutput, if_neg (not_not_intro hflags)]
      rfl
    have hplace : outputPlace req fields = req.outputBuffer := by
      rw [outputPlace, hmethod]
      exact huser
    refine iff_of_true ?_ ⟨?_, ?_⟩
    · exact hbuilt.completed hcopy (by rw [hplace]) fun _ _ => rfl
    · intro hbuffered
      rw [hmethod] at hbuffered
      cases hbuffered
    · rintro (hdirect | hdirect) <;> rw [hmethod] at hdirect <;> cases hdirect

end Meets

/-! ## Requests on their way -/

/-- The packet as the driver of the device gets it. -/
def Sent (env : Env) (req : Request) (irql : UInt8) (heap : Heap) (irp' : Irp) (fields : IrpFields)
    (heap' : Heap) : Prop :=
  ∃ irp major, ioBuildDeviceIoControlRequest env req heap = .ok (some (irp, fields), heap') ∧
    iofCallDriver irql req.deviceObject irp = .ok (irp', major)

/-- The packet as a driver completes it. It may be at a lower location, the status and the other
locations may have been written, and the top location may be marked pending; its completion routine
is left alone. -/
structure Processed (irp irp' : Irp) : Prop where
  position : ∃ c, 1 ≤ c ∧ c ≤ irp.stack.length ∧ At irp.stack.length c irp'
  routine : (irp'.location irp.stack.length).completionRoutine =
    (irp.location irp.stack.length).completionRoutine
  control : ∀ mask, slPendingReturned &&& mask = 0 →
    (irp'.location irp.stack.length).control &&& mask =
      (irp.location irp.stack.length).control &&& mask

/-- A packet is sent and the driver finds its input. -/
def Presented (env : Env) (req : Request) (irql : UInt8) (heap : Heap) : Prop :=
  ∃ irp fields heap', Sent env req irql heap irp fields heap' ∧
    ∃ location, irp.load irp.currentStackLocation = .ok location ∧
      Prepared env req fields location heap heap'

section Sent

variable {env : Env} {req : Request} {irql : UInt8} {heap heap' : Heap} {irp irp' : Irp}
  {fields : IrpFields}

theorem SetUp.congr {location location' : IoStackLocation}
    (h : SetUp env req heap fields location heap')
    (hinput : location'.argument4 = location.argument4) :
    SetUp env req heap fields location' heap' := by
  cases h with
  | buffered hmethod hsystem hfields huser hflags =>
    exact .buffered hmethod hsystem hfields huser hflags
  | direct hmethod hfields huser hflags hmdl => exact .direct hmethod hfields huser hflags hmdl
  | neither hmethod hplace huser hflags =>
    exact .neither hmethod (hinput.trans hplace) huser hflags

/-- What is sent. -/
theorem Sent.spec (h : Sent env req irql heap irp fields heap') (hirql : irql ≤ dispatchLevel) :
    ∃ n : ℕ, 1 ≤ n ∧ n ≤ 126 ∧ req.stackSize.toInt = n ∧ At n n irp ∧
      Built env req fields (irp.location n) ∧ SetUp env req heap fields (irp.location n) heap' := by
  rcases h with ⟨irp₀, major, hbuild, hcall⟩
  rcases build_ok (builds_of_build hbuild) with
    ⟨n, hn, irp₁, fields₁, heap₁, hbuild', hunsent, hbuilt, hsetUp⟩
  rw [hbuild] at hbuild'
  cases hbuild'
  have hle := hunsent.le_of_iofCallDriver hcall
  rcases iofCallDriver_at (hunsent.at hle) hn (Nat.le_refl n) req.deviceObject hirql with
    ⟨irp₂, major', hcall', hat, hlocation⟩
  rw [hcall] at hcall'
  cases hcall'
  refine ⟨n, hn, hle, hunsent.size, hat, ?_, ?_⟩
  · rw [hlocation]
    exact ⟨hbuilt.routine, hbuilt.control, hbuilt.inputLength, hbuilt.userEvent, hbuilt.userIosb⟩
  · rw [hlocation]
    exact hsetUp.congr rfl

/-- When the driver finds its input. -/
theorem presented_iff (hsupplied : Supplied env req)
    (hapart : req.method = .buffered → Apart env req) (hirql : irql ≤ dispatchLevel) :
    Presented env req irql heap ↔ (1 ≤ req.stackSize.toInt ∧ req.stackSize.toInt ≤ 126) ∧
      (req.method = .buffered → req.inputBuffer ≠ 0 ∨ req.inputBufferLength = 0) := by
  constructor
  · rintro ⟨irp, fields, heap', hsent, -⟩
    rcases hsent.spec hirql with ⟨n, hn, hle, hsize, -⟩
    rcases hsent with ⟨irp₀, major, hbuild, -⟩
    refine ⟨?_, (builds_of_build hbuild).input⟩
    rw [hsize]
    omega
  · rintro ⟨⟨hone, hle⟩, hinput⟩
    have hbuilds : Builds env req := ⟨hsupplied, hone, hinput⟩
    rcases @build_ok env req heap hbuilds with
      ⟨n, hn, irp₀, fields, heap', hbuild, hunsent, hbuilt, hsetUp⟩
    have hsize := hunsent.size
    rcases iofCallDriver_at (hunsent.at (by omega)) hn (Nat.le_refl n) req.deviceObject hirql with
      ⟨irp, major, hcall, -⟩
    have hsent : Sent env req irql heap irp fields heap' := ⟨irp₀, major, hbuild, hcall⟩
    rcases hsent.spec hirql with ⟨n, hn, -, -, hat, hbuilt, hsetUp⟩
    refine ⟨irp, fields, heap', hsent, irp.location n, ?_, hsetUp.prepared hbuilt hapart⟩
    rw [hat.pointer]
    exact load_ok hn (Nat.le_of_eq hat.length.symm)

/-- The completion of a packet that was sent, by the routine at the top location. -/
theorem Sent.complete (h : Sent env req irql heap irp fields heap') (hirql : irql ≤ dispatchLevel)
    {routines : Routines (Except Trap Heap)}
    (hroutine : ∀ device irp context world,
      routines env.ddkIoctlCompletion device irp context world = ioctlReply fields irp world)
    (hprocessed : Processed irp irp') (world : Except Trap Heap) :
    ∃ irp'' world' visits, iofCompleteRequest routines irp' world = .ok (irp'', world', visits) ∧
      (∃ v ∈ visits, v.Stops) ∧
      ∀ v ∈ visits, v.pStack = locationOffset irp.stack.length →
        world' = v.world.bind (ddkIoctlCompletion fields v.irp) := by
  rcases h.spec hirql with ⟨n, hn, hle, -, hat, hbuilt, -⟩
  rcases hprocessed with ⟨⟨c, hc, hcn, hat'⟩, hsame, hcontrol⟩
  rw [hat.length] at hcn hat' hsame hcontrol ⊢
  rw [hbuilt.control] at hcontrol
  have htop : TopSet n env.ddkIoctlCompletion irp' := by
    constructor
    · rw [hsame, hbuilt.routine]
    · rw [hcontrol slInvokeOnSuccess (by decide)]
      decide
    · rw [hcontrol slInvokeOnError (by decide)]
      decide
  have hstops : ∀ device irp context world,
      (routines env.ddkIoctlCompletion device irp context world).status =
        statusMoreProcessingRequired := by
    intro device irp context world
    rw [hroutine]
    rfl
  have hcheck : checkNotCompleted irp' = .ok () := by
    unfold checkNotCompleted
    rw [if_neg (by rw [hat'.counter, hat'.stackCount]; omega)]
    rfl
  rcases Nat.exists_eq_add_of_le hcn with ⟨r, hr⟩
  rcases @completeLoop_top _ routines n c irp' _ world hle r hr.symm hc hat' htop hstops
    (irp'.stack.length + 1) (by rw [hat'.length]; omega) with ⟨irp'', world', visits, hrun, hwalk⟩
  refine ⟨irp'', world', visits, ?_, hwalk.stopped, fun v hv hv' => ?_⟩
  · rw [iofCompleteRequest, bind_ok hcheck]
    exact hrun
  · rcases hwalk.top v hv hv' with ⟨device, context, hworld⟩
    rw [hworld, hroutine]
    rfl

end Sent

/-- **The buffers of a device control request.** The packet is sent and the driver finds its input
exactly when the device has a stack of 1 to 126 locations and no input is copied from a null
pointer. A completion of this packet with success, whatever the drivers have done to it, leaves the
output in the output buffer exactly when `Delivers` holds: never for a direct method with output. -/
theorem ioctl_buffers_iff (env : Env) (req : Request) (hsupplied : Supplied env req)
    (hapart : req.method = .buffered → Apart env req) (irql : UInt8) (hirql : irql ≤ dispatchLevel)
    (heap : Heap) :
    (Presented env req irql heap ↔ (1 ≤ req.stackSize.toInt ∧ req.stackSize.toInt ≤ 126) ∧
      (req.method = .buffered → req.inputBuffer ≠ 0 ∨ req.inputBufferLength = 0)) ∧
    ∀ irp fields heap', Sent env req irql heap irp fields heap' →
      ∀ routines : Routines (Except Trap Heap), (∀ device irp context world,
        routines env.ddkIoctlCompletion device irp context world = ioctlReply fields irp world) →
      ∀ irp', Processed irp irp' → ∀ produced : Heap,
        ∃ irp'' world visits,
          iofCompleteRequest routines irp' (.ok produced) = .ok (irp'', world, visits) ∧
          (∃ v ∈ visits, v.Stops) ∧
          ∀ v ∈ visits, v.pStack = locationOffset irp.stack.length →
            ∀ before, v.world = .ok before → ntSuccess v.irp.ioStatus.status = true →
            v.irp.ioStatus.information.toNat ≤ req.outputBufferLength.toNat →
            ((∃ after, world = .ok after ∧
              Completed req fields v.irp.ioStatus.information.toNat before after) ↔
              Delivers req v.irp.ioStatus.information.toNat) := by
  refine ⟨presented_iff hsupplied hapart hirql, ?_⟩
  intro irp fields heap' hsent routines hroutine irp' hprocessed produced
  rcases hsent.complete hirql hroutine hprocessed (.ok produced) with
    ⟨irp'', world, visits, hrun, hstopped, htop⟩
  refine ⟨irp'', world, visits, hrun, hstopped, ?_⟩
  intro v hv hv' before hbefore _ hfits
  rcases hsent.spec hirql with ⟨n, -, -, -, -, hbuilt, hsetUp⟩
  rw [htop v hv hv', hbefore]
  exact hsetUp.completed_iff hbuilt hapart hfits

/-! ### A request of four bytes -/

/-- A request whose input and output is one variable. -/
def variableRequest (ioControlCode : UInt32) : Request :=
  ⟨ioControlCode, 0x500, 1, 0x1000, 4, 0x1000, 4, false, 0x2000, 0x3000⟩

def variableEnv : Env := ⟨0x8000, 0x9000, 0xA000, 0x10⟩

/-- The variable is 10. -/
def variableHeap : Heap :=
  ⟨store (fun _ => 0) 0x1000 [10, 0, 0, 0], fun _ => ⟨0, 0⟩, fun _ => (true, false), []⟩

/-- The packet as the driver gets it. -/
def variablePacket (ioControlCode : UInt32) (mdlAddress : List UInt16) : Irp :=
  { ioAllocateIrp 1 with
    mdlAddress := mdlAddress
    currentLocation := 1
    currentStackLocation := locationOffset 1
    stack :=
      [⟨irpMjDeviceControl, 0, 0, 0xE0, 4, 4, ioControlCode.toUInt64, 0, 0x500, 0, 0x10, 0⟩] }

/-- The driver has put four bytes of output. -/
def answered (irp : Irp) : Irp := { irp with ioStatus := ⟨0, 4⟩ }

theorem processed_answered (ioControlCode : UInt32) (mdlAddress : List UInt16) :
    Processed (variablePacket ioControlCode mdlAddress)
      (answered (variablePacket ioControlCode mdlAddress)) :=
  ⟨⟨1, by decide, Nat.le_refl _, ⟨rfl, rfl, rfl, rfl⟩⟩, rfl, fun _ _ => rfl⟩

def bufferedFields : IrpFields :=
  ⟨0x8000, 0x30, 0x9000, 0x1000, 0x2000, 0x3000, kernelMode, none⟩

def bufferedHeap : Heap :=
  { variableHeap with memory := copy variableHeap.memory 0x9000 0x1000 4 }

theorem sent_buffered : Sent variableEnv (variableRequest 0) 0 variableHeap (variablePacket 0 [])
    bufferedFields bufferedHeap := ⟨_, _, rfl, rfl⟩

/-- The routines of one driver: there is only `DdkIoctlCompletion`. -/
def oneDriver (fields : IrpFields) : Routines (Except Trap Heap) :=
  fun _ _ irp _ world => ioctlReply fields irp world

/-- The driver answers 14 in the system buffer. -/
def bufferedAnswer : Heap :=
  { bufferedHeap with memory := store bufferedHeap.memory 0x9000 [14, 0, 0, 0] }

theorem ioctl_buffers_buffered : Presented variableEnv (variableRequest 0) 0 variableHeap ∧
    ∃ irp world visits,
      iofCompleteRequest (oneDriver bufferedFields) (answered (variablePacket 0 []))
        (.ok bufferedAnswer) = .ok (irp, world, visits) ∧
      ∃ after, world = .ok after ∧
        Completed (variableRequest 0) bufferedFields 4 bufferedAnswer after := by
  have hsupplied : Supplied variableEnv (variableRequest 0) :=
    ⟨by decide, fun _ => by decide, fun _ => by decide⟩
  have hapart : Apart variableEnv (variableRequest 0) := by
    constructor
    · rintro x ⟨hle, -⟩ ⟨-, hlt⟩
      exact absurd (Nat.lt_of_le_of_lt hle hlt) (by decide)
    · rintro x ⟨hle, -⟩ ⟨-, hlt⟩
      exact absurd (Nat.lt_of_le_of_lt hle hlt) (by decide)
  have hbuffers := ioctl_buffers_iff variableEnv (variableRequest 0) hsupplied (fun _ => hapart) 0
    (by decide) variableHeap
  refine ⟨hbuffers.1.2 ⟨by decide, fun _ => Or.inl (by decide)⟩, ?_⟩
  rcases hbuffers.2 _ _ _ sent_buffered (oneDriver bufferedFields) (fun _ _ _ _ => rfl) _
    (processed_answered 0 []) bufferedAnswer with ⟨irp, world, visits, hrun, -, htop⟩
  refine ⟨irp, world, visits, hrun, ?_⟩
  have hconcrete : iofCompleteRequest (oneDriver bufferedFields) (answered (variablePacket 0 []))
      (.ok bufferedAnswer) = .ok (_, _, _) := rfl
  rw [hconcrete] at hrun
  cases hrun
  exact (htop _ List.mem_cons_self rfl _ rfl rfl (by decide)).2
    ⟨fun _ => Or.inl (by decide), by rintro (h | h) <;> cases h⟩

def outDirectFields : IrpFields :=
  ⟨0x8000, 0x10, 0x1000, 0, 0x2000, 0x3000, kernelMode, some (mmInitializeMdl 0xA000 0x1000 4)⟩

/-- The output of a request with `METHOD_OUT_DIRECT` is in its place, but it is copied once more,
from the input buffer to a null pointer. -/
theorem outDirect_nullPointer :
    Sent variableEnv (variableRequest 2) 0 variableHeap (variablePacket 2 [0]) outDirectFields
      variableHeap ∧
    Processed (variablePacket 2 [0]) (answered (variablePacket 2 [0])) ∧
    ntSuccess (answered (variablePacket 2 [0])).ioStatus.status = true ∧
    (answered (variablePacket 2 [0])).ioStatus.information.toNat ≤
      (variableRequest 2).outputBufferLength.toNat ∧
    ∃ irp visits,
      iofCompleteRequest (oneDriver outDirectFields) (answered (variablePacket 2 [0]))
        (.ok variableHeap) = .ok (irp, .error .nullPointer, visits) :=
  ⟨⟨_, _, rfl, rfl⟩, processed_answered 2 [0], rfl, by decide, _, _, rfl⟩

end Wdutf.Io
