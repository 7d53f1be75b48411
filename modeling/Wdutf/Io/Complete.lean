import Mathlib.Data.List.Basic
import Mathlib.Tactic.Common
import Wdutf.Io.Irp

/-!
# Wdutf.Io.Complete — the completion walk of a request packet

What one call of `IofCompleteRequest` does to a packet whose counter and
pointer name the same stack location (`At`):

* `walkStep_finish`, `walkStep_visit` — one turn of the loop;
* `Walks` — the visits of a walk, from a location upward, each with the packet
  its routine sees and the state the visit below left behind;
* `completion_walk` — a call of `IofCompleteRequest` makes such a walk, and
  stops only behind the top location or at a routine that asks for it, with
  the packet ready to be completed from the next location on.
-/

namespace Wdutf.Io

/-! ## Counters and addresses -/

theorem toInt_add_one {x : Int8} (h : x.toInt < 127) : (x + 1).toInt = x.toInt + 1 := by
  have hle := x.le_toInt
  rw [Int8.toInt_add, Int8.toInt_one]
  exact Int.bmod_eq_of_le (by omega) (by omega)

theorem toInt_sub_one {x : Int8} (h : -128 < x.toInt) : (x - 1).toInt = x.toInt - 1 := by
  have hlt := x.toInt_lt
  rw [Int8.toInt_sub, Int8.toInt_one]
  exact Int.bmod_eq_of_le (by omega) (by omega)

theorem bind_ok {α β : Type} {m : Except Fault α} {k : α → Except Fault β} {a : α}
    (h : m = .ok a) : (m >>= k) = k a := by
  rw [h]
  rfl

/-- Stack location number `k` of a packet. -/
def Irp.location (irp : Irp) (k : ℕ) : IoStackLocation := irp.stack.getD (k - 1) zeroLocation

theorem indexAt_locationOffset {irp : Irp} {k : ℕ} (h1 : 1 ≤ k) (h2 : k ≤ irp.stack.length) :
    irp.indexAt (locationOffset k) = some (k - 1) := by
  have hi : ((locationOffset k - sizeofIrp) / sizeofIoStackLocation).toNat = k - 1 := by
    simp only [locationOffset, sizeofIrp, sizeofIoStackLocation]
    omega
  have hk : (((k - 1 : ℕ) : ℤ) + 1) = k := by omega
  rw [Irp.indexAt, hi, hk, if_pos ⟨rfl, by omega⟩]

theorem load_ok {irp : Irp} {k : ℕ} (h1 : 1 ≤ k) (h2 : k ≤ irp.stack.length) :
    irp.load (locationOffset k) = .ok (irp.location k) := by
  rw [Irp.load, indexAt_locationOffset h1 h2, Irp.location]

theorem update_ok {irp : Irp} {k : ℕ} (f : IoStackLocation → IoStackLocation) (h1 : 1 ≤ k)
    (h2 : k ≤ irp.stack.length) :
    irp.update (locationOffset k) f = .ok { irp with stack := irp.stack.modify (k - 1) f } := by
  rw [Irp.update, indexAt_locationOffset h1 h2]

theorem getD_modify_self {stack : List IoStackLocation} {i : ℕ}
    (f : IoStackLocation → IoStackLocation) (h : i < stack.length) :
    (stack.modify i f).getD i zeroLocation = f (stack.getD i zeroLocation) := by
  rw [List.getD_eq_getElem?_getD, List.getD_eq_getElem?_getD, List.getElem?_modify,
    List.getElem?_eq_getElem h]
  simp

theorem getD_modify_ne {stack : List IoStackLocation} {i j : ℕ}
    (f : IoStackLocation → IoStackLocation) (h : i ≠ j) :
    (stack.modify i f).getD j zeroLocation = stack.getD j zeroLocation := by
  rw [List.getD_eq_getElem?_getD, List.getD_eq_getElem?_getD, List.getElem?_modify]
  simp [h]

/-- The packet has `n` locations, and both its counter and its pointer are at
location `c`. -/
structure At (n c : ℕ) (irp : Irp) : Prop where
  stackCount : irp.stackCount.toInt = n
  length : irp.stack.length = n
  counter : irp.currentLocation.toInt = c
  pointer : irp.currentStackLocation = locationOffset c

theorem toNat_ioSizeOfIrp_eq (stackSize : Int8) : (ioSizeOfIrp stackSize).toNat =
    ((sizeofIrp + stackSize.toInt * sizeofIoStackLocation) % 65536).toNat := by
  rw [ioSizeOfIrp, UInt16.ofInt, UInt16.toNat_ofNat']
  apply Nat.mod_eq_of_lt
  omega

theorem toNat_ioSizeOfIrp {n : ℕ} {stackSize : Int8} (h : stackSize.toInt = n) (hn : n ≤ 127) :
    (ioSizeOfIrp stackSize).toNat = sizeofIrp + n * sizeofIoStackLocation := by
  rw [toNat_ioSizeOfIrp_eq, h, sizeofIrp, sizeofIoStackLocation]
  omega

/-- A fresh packet is at the location behind its top one. -/
theorem at_ioAllocateIrp {n : ℕ} {stackSize : Int8} (h : stackSize.toInt = n) (hn : n ≤ 126) :
    At n (n + 1) (ioAllocateIrp stackSize) := by
  have hsize := toNat_ioSizeOfIrp h (by omega)
  constructor
  · exact h
  · simp only [ioAllocateIrp, ioInitializeIrp, List.length_replicate, hsize, sizeofIrp,
      sizeofIoStackLocation]
    omega
  · show (stackSize + 1).toInt = _
    rw [toInt_add_one (by omega), h]
    omega
  · show ((ioSizeOfIrp stackSize).toNat : ℤ) = _
    rw [hsize, locationOffset, sizeofIrp, sizeofIoStackLocation]
    omega

theorem at_advance {n c : ℕ} {irp : Irp} (h : At n c irp) (hc : c < 127) :
    At n (c + 1) (advance irp) := by
  constructor
  · exact h.stackCount
  · exact h.length
  · show (irp.currentLocation + 1).toInt = _
    rw [toInt_add_one (by rw [h.counter]; omega), h.counter]
    omega
  · show irp.currentStackLocation + _ = _
    rw [h.pointer, locationOffset, locationOffset, sizeofIoStackLocation]
    push_cast
    omega

/-! ## One turn of the loop -/

/-- The packet as the completion routine of location `c` sees it. -/
def seenAt (irp : Irp) (c : ℕ) : Irp :=
  { advance irp with
    pendingReturned := (irp.location c).control &&& slPendingReturned != 0
    stack := irp.stack.modify (c - 1) clearStackLocation }

/-- The device object of the next higher location, `NULL` at the top. -/
def deviceAbove (irp : Irp) (c : ℕ) : Pvoid :=
  if c = irp.stack.length then 0 else (irp.location (c + 1)).deviceObject

/-- The packet after location `c` was passed without a call: a pending mark has
moved up, unless this was the top. -/
def passAt (irp : Irp) (c : ℕ) : Irp :=
  if (seenAt irp c).pendingReturned && decide (c < irp.stack.length) then
    { seenAt irp c with stack := (seenAt irp c).stack.modify c markPending }
  else seenAt irp c

theorem at_seenAt {n c : ℕ} {irp : Irp} (h : At n c irp) (hc : c < 127) :
    At n (c + 1) (seenAt irp c) := by
  have hadv := at_advance h hc
  refine ⟨hadv.stackCount, ?_, hadv.counter, hadv.pointer⟩
  simpa [seenAt] using h.length

theorem at_passAt {n c : ℕ} {irp : Irp} (h : At n c irp) (hc : c < 127) :
    At n (c + 1) (passAt irp c) := by
  have hseen := at_seenAt h hc
  unfold passAt
  split
  · refine ⟨hseen.stackCount, ?_, hseen.counter, hseen.pointer⟩
    simpa using hseen.length
  · exact hseen

theorem seenAt_location_ne {irp : Irp} {c k : ℕ} (hc : 1 ≤ c) (hk : 1 ≤ k) (h : k ≠ c) :
    (seenAt irp c).location k = irp.location k :=
  getD_modify_ne _ (by omega)

theorem seenAt_location_self {irp : Irp} {c : ℕ} (hc : 1 ≤ c) (h : c ≤ irp.stack.length) :
    (seenAt irp c).location c = clearStackLocation (irp.location c) :=
  getD_modify_self _ (by omega)

/-- Behind the top location the loop ends. -/
theorem walkStep_finish {n c : ℕ} {irp : Irp} (h : At n c irp) (hc : c < 127) (hcn : n < c) :
    walkStep irp = .ok (.finish { advance irp with
      mdlAddress := irp.mdlAddress.map mmUnlockPages }) := by
  have hadv := at_advance h hc
  have hstop : ¬ (advance irp).currentLocation.toInt ≤ (advance irp).stackCount.toInt + 1 := by
    rw [hadv.counter, hadv.stackCount]
    omega
  rw [walkStep, if_neg hstop]
  rfl

section Turn

variable {n c : ℕ} {irp : Irp}

/-- At a location of the packet the turn visits it. -/
theorem walkStep_visit (h : At n c irp) (hlast : c < 127) (hc : 1 ≤ c) (hcn : c ≤ n) :
    walkStep irp =
      if invokes (irp.location c).control irp then
        .ok (.invoke (locationOffset c) (irp.location c).control (irp.location c).completionRoutine
          (deviceAbove irp c) (irp.location c).context (seenAt irp c))
      else
        .ok (.pass (locationOffset c) (irp.location c).control (seenAt irp c) (passAt irp c)) := by
  have hadv := at_advance h hlast
  have hseen := at_seenAt h hlast
  have hgo : (advance irp).currentLocation.toInt ≤ (advance irp).stackCount.toInt + 1 := by
    rw [hadv.counter, hadv.stackCount]
    omega
  have hload : (advance irp).load irp.currentStackLocation = .ok (irp.location c) := by
    rw [h.pointer]
    exact load_ok hc (by rw [hadv.length]; exact hcn)
  have hclear : Irp.update
      { advance irp with pendingReturned := (irp.location c).control &&& slPendingReturned != 0 }
      irp.currentStackLocation clearStackLocation = .ok (seenAt irp c) := by
    rw [h.pointer]
    exact update_ok _ hc (by rw [hadv.length]; exact hcn)
  have hinv : invokes (irp.location c).control (seenAt irp c) =
      invokes (irp.location c).control irp := rfl
  have hbelow : (seenAt irp c).currentLocation.toInt ≤ (seenAt irp c).stackCount.toInt ↔ c < n := by
    rw [hseen.counter, hseen.stackCount]
    omega
  rw [walkStep, if_pos hgo, bind_ok hload, bind_ok hclear, hinv]
  split
  · -- the routine is called: the device object comes from the next location, if there is one
    by_cases hlt : c < n
    · have habove : (seenAt irp c).load (seenAt irp c).currentStackLocation =
          .ok (irp.location (c + 1)) := by
        rw [hseen.pointer, ← seenAt_location_ne hc (by omega) (by omega : c + 1 ≠ c)]
        exact load_ok (by omega) (by rw [hseen.length]; omega)
      rw [if_pos (hbelow.2 hlt), bind_ok habove, h.pointer, deviceAbove, h.length,
        if_neg (by omega : c ≠ n)]
      rfl
    · rw [if_neg (fun hle => hlt (hbelow.1 hle)), h.pointer, deviceAbove, h.length,
        if_pos (by omega : c = n)]
      rfl
  · -- the routine is not called: a pending mark moves up
    simp only [hbelow, passAt, h.length]
    by_cases hmark : ((seenAt irp c).pendingReturned && decide (c < n)) = true
    · have hlt : c < n := by
        rw [Bool.and_eq_true] at hmark
        exact of_decide_eq_true hmark.2
      have hpend : ioMarkIrpPending (seenAt irp c) = .ok
          { seenAt irp c with stack := (seenAt irp c).stack.modify c markPending } := by
        rw [ioMarkIrpPending, hseen.pointer]
        exact update_ok _ (by omega) (by rw [hseen.length]; omega)
      rw [if_pos hmark, if_pos hmark, bind_ok hpend, h.pointer]
      rfl
    · rw [if_neg hmark, if_neg hmark, h.pointer]
      rfl

end Turn

/-! ## The walk -/

section Walk

variable {W : Type}

/-- The part of the state that the completion routines can change. -/
structure Shared (W : Type) where
  ioStatus : IoStatusBlock
  cancel : Bool
  world : W

/-- The shared state after a visit. -/
def Visit.after (v : Visit W) : Shared W :=
  match v.call with
  | some call => ⟨call.reply.ioStatus, call.reply.cancel, call.reply.world⟩
  | none => ⟨v.irp.ioStatus, v.irp.cancel, v.world⟩

/-- The visit leaves a pending mark on the next location. -/
def Visit.marksNext (v : Visit W) : Bool := v.call.isNone && v.irp.pendingReturned

/-- The routine called at the visit stopped the walk. -/
def Visit.Stops (v : Visit W) : Prop :=
  ∃ call, v.call = some call ∧ call.reply.status = statusMoreProcessingRequired

/-- Location `k` as the walk finds it, with the mark of the visit below. -/
def foundAt (irp : Irp) (k : ℕ) (marked : Bool) : IoStackLocation :=
  if marked then markPending (irp.location k) else irp.location k

/-- The visit at location `k` of the packet `irp`, where `before` is the state
left behind by the visit below and `marked` tells whether that one propagated
its pending mark. -/
structure VisitAt (routines : Routines W) (irp : Irp) (k : ℕ) (before : Shared W) (marked : Bool)
    (v : Visit W) : Prop where
  pStack : v.pStack = locationOffset k
  control : v.control = (foundAt irp k marked).control
  status : v.irp.ioStatus = before.ioStatus
  cancel : v.irp.cancel = before.cancel
  world : v.world = before.world
  pendingReturned : v.irp.pendingReturned = (v.control &&& slPendingReturned != 0)
  called : v.call.isSome = true ↔
    (ntSuccess before.ioStatus.status = true ∧ v.control &&& slInvokeOnSuccess ≠ 0) ∨
    (ntSuccess before.ioStatus.status = false ∧ v.control &&& slInvokeOnError ≠ 0) ∨
    (before.cancel = true ∧ v.control &&& slInvokeOnCancel ≠ 0)
  call : ∀ call, v.call = some call →
    call.routine = (irp.location k).completionRoutine ∧
    call.context = (irp.location k).context ∧
    call.device = deviceAbove irp k ∧
    call.reply = routines call.routine call.device v.irp call.context v.world

/-- The visits of a walk over the packet `irp` from location `k` upward. Only
the last one may stop the walk. -/
def Walks (routines : Routines W) (irp : Irp) : ℕ → Shared W → Bool → List (Visit W) → Prop
  | _, _, _, [] => True
  | k, before, marked, v :: vs =>
    k ≤ irp.stack.length ∧ VisitAt routines irp k before marked v ∧ (vs ≠ [] → ¬ v.Stops) ∧
      Walks routines irp (k + 1) v.after v.marksNext vs

/-- The last visit stopped the walk. -/
def StoppedBy (visits : List (Visit W)) : Prop := ∃ v, visits.getLast? = some v ∧ v.Stops

/-- The shared state at the end of a walk. -/
def endState (start : Shared W) (visits : List (Visit W)) : Shared W :=
  match visits.getLast? with
  | some v => v.after
  | none => start

/-- A call of `IofCompleteRequest` on a packet at location `c` of `n`: the
visits, and the packet it leaves. -/
structure CompletionWalk (routines : Routines W) (n c : ℕ) (irp : Irp) (w : W) (irp' : Irp) (w' : W)
    (visits : List (Visit W)) : Prop where
  order : visits.map (·.pStack) = (List.range' c visits.length).map (fun k : ℕ => locationOffset k)
  fits : c + visits.length ≤ n + 1
  walks : Walks routines irp c ⟨irp.ioStatus, irp.cancel, w⟩ false visits
  shared : endState ⟨irp.ioStatus, irp.cancel, w⟩ visits = ⟨irp'.ioStatus, irp'.cancel, w'⟩
  /-- A stopped walk leaves the packet at the next location; a walk that is not
  stopped reaches the top and leaves the packet behind the next one. -/
  ends : (StoppedBy visits ∧ At n (c + visits.length) irp' ∧ irp'.mdlAddress = irp.mdlAddress) ∨
    (¬ StoppedBy visits ∧ c + visits.length = n + 1 ∧ At n (n + 2) irp' ∧
      irp'.mdlAddress = irp.mdlAddress.map mmUnlockPages)
  below : ∀ k, 1 ≤ k → k < c → irp'.location k = irp.location k
  visited : ∀ k, c ≤ k → k < c + visits.length →
    irp'.location k = clearStackLocation (irp.location k)
  above : ∀ k, c + visits.length ≤ k → k ≤ n → irp'.location k = irp.location k

variable {routines : Routines W} {irp irp₂ irp' : Irp} {n c : ℕ} {w w₂ w' : W} {v : Visit W}
variable {visits : List (Visit W)}

theorem foundAt_completionRoutine (irp : Irp) (k : ℕ) (m : Bool) :
    (foundAt irp k m).completionRoutine = (irp.location k).completionRoutine := by
  cases m <;> rfl

theorem foundAt_context (irp : Irp) (k : ℕ) (m : Bool) :
    (foundAt irp k m).context = (irp.location k).context := by
  cases m <;> rfl

/-- A walk depends on the packet only through the locations from its start on
as the walk finds them. -/
theorem walks_transfer (hlen : irp₂.stack.length = irp.stack.length) {k : ℕ} {s : Shared W}
    {m₂ m : Bool} (hk : k ≤ irp.stack.length → foundAt irp₂ k m₂ = foundAt irp k m)
    (hup : ∀ j, k < j → irp₂.location j = irp.location j)
    (h : Walks routines irp₂ k s m₂ visits) : Walks routines irp k s m visits := by
  induction visits generalizing k s m₂ m with
  | nil => trivial
  | cons v vs ih =>
    rcases h with ⟨hle, hvisit, hstop, hrest⟩
    rw [hlen] at hle
    have hfound := hk hle
    have hdevice : deviceAbove irp₂ k = deviceAbove irp k := by
      rw [deviceAbove, deviceAbove, hlen, hup (k + 1) (by omega)]
    refine ⟨hle, { hvisit with control := ?_, call := ?_ }, hstop, ih (fun _ => ?_) ?_ hrest⟩
    · rw [hvisit.control, hfound]
    · intro call hcall
      rcases hvisit.call call hcall with ⟨hroutine, hcontext, hdev, hreply⟩
      refine ⟨?_, ?_, ?_, hreply⟩
      · rw [hroutine, ← foundAt_completionRoutine irp₂ k m₂, hfound, foundAt_completionRoutine]
      · rw [hcontext, ← foundAt_context irp₂ k m₂, hfound, foundAt_context]
      · rw [hdev, hdevice]
    · rw [foundAt, foundAt, hup (k + 1) (by omega)]
    · intro j hj
      exact hup j (by omega)

theorem stoppedBy_cons (h : ¬ v.Stops) : StoppedBy (v :: visits) ↔ StoppedBy visits := by
  rw [StoppedBy, StoppedBy, List.getLast?_cons]
  cases hlast : visits.getLast? with
  | none => simpa using h
  | some u => simp

theorem endState_cons (s : Shared W) : endState s (v :: visits) = endState v.after visits := by
  rw [endState, endState, List.getLast?_cons]
  cases hlast : visits.getLast? <;> rfl

/-- The packet after the visit at location `c`: that location is cleared and the
next one carries the propagated mark. -/
structure Passed (irp : Irp) (c : ℕ) (v : Visit W) (irp₂ : Irp) : Prop where
  length : irp₂.stack.length = irp.stack.length
  mdlAddress : irp₂.mdlAddress = irp.mdlAddress
  shared : v.after.ioStatus = irp₂.ioStatus ∧ v.after.cancel = irp₂.cancel
  below : ∀ k, 1 ≤ k → k < c → irp₂.location k = irp.location k
  self : irp₂.location c = clearStackLocation (irp.location c)
  next : c + 1 ≤ irp.stack.length → irp₂.location (c + 1) = foundAt irp (c + 1) v.marksNext
  above : ∀ k, c + 1 < k → irp₂.location k = irp.location k

theorem clearStackLocation_foundAt (irp : Irp) (k : ℕ) (m : Bool) :
    clearStackLocation (foundAt irp k m) = clearStackLocation (irp.location k) := by
  cases m <;> rfl

/-- A walk is extended downward by a visit that does not stop it. -/
theorem CompletionWalk.cons (hlen : irp.stack.length = n) (hc : 1 ≤ c) (hcn : c ≤ n)
    (hvisit : VisitAt routines irp c ⟨irp.ioStatus, irp.cancel, w⟩ false v) (hstop : ¬ v.Stops)
    (hpassed : Passed irp c v irp₂) (hw : v.after.world = w₂)
    (h : CompletionWalk routines n (c + 1) irp₂ w₂ irp' w' visits) :
    CompletionWalk routines n c irp w irp' w' (v :: visits) := by
  have hafter : (⟨irp₂.ioStatus, irp₂.cancel, w₂⟩ : Shared W) = v.after := by
    rw [← hpassed.shared.1, ← hpassed.shared.2, ← hw]
  have hcount : c + (v :: visits).length = c + 1 + visits.length := by
    rw [List.length_cons]
    omega
  constructor
  · rw [List.map_cons, h.order, hvisit.pStack, List.length_cons, List.range'_succ, List.map_cons]
  · rw [hcount]
    exact h.fits
  · refine ⟨by omega, hvisit, fun _ => hstop, ?_⟩
    -- the rest of the walk starts unmarked: the mark is already in the packet
    have hnext : c + 1 ≤ irp.stack.length →
        foundAt irp₂ (c + 1) false = foundAt irp (c + 1) v.marksNext := hpassed.next
    exact walks_transfer hpassed.length hnext hpassed.above (hafter ▸ h.walks)
  · rw [endState_cons, ← hafter]
    exact h.shared
  · rw [stoppedBy_cons hstop, hcount, ← hpassed.mdlAddress]
    exact h.ends
  · intro k hk hkc
    rw [h.below k hk (by omega), hpassed.below k hk hkc]
  · intro k hk hkc
    rw [hcount] at hkc
    have hfits := h.fits
    rcases Nat.eq_or_lt_of_le hk with rfl | hlt
    · rw [h.below c hc (by omega), hpassed.self]
    rcases Nat.eq_or_lt_of_le hlt with rfl | hlt'
    · rw [h.visited (c + 1) (by omega) hkc, hpassed.next (by omega), clearStackLocation_foundAt]
    · rw [h.visited k (by omega) hkc, hpassed.above k hlt']
  · intro k hk hkn
    rw [hcount] at hk
    rw [h.above k hk hkn]
    apply hpassed.above
    -- an unvisited location right above means that the walk stopped there
    rcases h.ends with ⟨⟨u, hlast, -⟩, -⟩ | ⟨-, htop, -⟩
    · have hne : visits ≠ [] := by
        rintro rfl
        simp at hlast
      have := List.length_pos_iff.2 hne
      omega
    · omega

/-- The state of the walk at the location behind the top. -/
theorem completionWalk_finish (h : At n (n + 1) irp) (hn : n ≤ 125) :
    CompletionWalk routines n (n + 1) irp w
      { advance irp with mdlAddress := irp.mdlAddress.map mmUnlockPages } w [] := by
  have hadv := at_advance h (by omega)
  have hnot : ¬ StoppedBy ([] : List (Visit W)) := by
    rintro ⟨u, hlast, -⟩
    simp at hlast
  constructor
  · rfl
  · exact le_refl _
  · trivial
  · rfl
  · exact Or.inr ⟨hnot, rfl, ⟨hadv.stackCount, hadv.length, hadv.counter, hadv.pointer⟩, rfl⟩
  · intro k _ _
    rfl
  · intro k hk hk'
    simp only [List.length_nil] at hk'
    omega
  · intro k _ _
    rfl

theorem invokes_iff (control : UInt8) (irp : Irp) :
    invokes control irp = true ↔
      (ntSuccess irp.ioStatus.status = true ∧ control &&& slInvokeOnSuccess ≠ 0) ∨
      (ntSuccess irp.ioStatus.status = false ∧ control &&& slInvokeOnError ≠ 0) ∨
      (irp.cancel = true ∧ control &&& slInvokeOnCancel ≠ 0) := by
  simp [invokes, or_assoc]

/-- The visit made by a turn of the loop at location `c`. -/
theorem visitAt_seenAt {call : Option (Call W)}
    (hcalled : call.isSome = invokes (irp.location c).control irp)
    (hcall : ∀ k, call = some k → k.routine = (irp.location c).completionRoutine ∧
      k.context = (irp.location c).context ∧ k.device = deviceAbove irp c ∧
      k.reply = routines k.routine k.device (seenAt irp c) k.context w) :
    VisitAt routines irp c ⟨irp.ioStatus, irp.cancel, w⟩ false
      ⟨locationOffset c, (irp.location c).control, seenAt irp c, w, call⟩ := by
  constructor
  case called =>
    rw [hcalled]
    exact invokes_iff _ irp
  case call => exact hcall
  all_goals rfl

/-- After a call that does not stop the walk, the packet has been passed. -/
theorem passed_invoke (h : At n c irp) (hc : 1 ≤ c) (hcn : c ≤ n) {reply : Reply W} {p : ℤ}
    {control : UInt8} {routine device context : Pvoid} :
    Passed irp c ⟨p, control, seenAt irp c, w, some ⟨routine, device, context, reply⟩⟩
      { seenAt irp c with ioStatus := reply.ioStatus, cancel := reply.cancel } := by
  constructor
  · simp [seenAt]
  · rfl
  · exact ⟨rfl, rfl⟩
  · intro k hk hkc
    exact seenAt_location_ne hc hk (by omega)
  · exact seenAt_location_self hc (by rw [h.length]; exact hcn)
  · intro _
    exact seenAt_location_ne hc (by omega) (by omega)
  · intro k hk
    exact seenAt_location_ne hc (by omega) (by omega)

/-- After a location without a call, the next one carries the mark. -/
theorem passed_pass (h : At n c irp) (hc : 1 ≤ c) (hcn : c ≤ n) {p : ℤ} {control : UInt8} :
    Passed irp c ⟨p, control, seenAt irp c, w, none⟩ (passAt irp c) := by
  have hlen := h.length
  obtain ⟨irp₂, hirp₂⟩ : ∃ irp₂, irp₂ = passAt irp c := ⟨_, rfl⟩
  rw [← hirp₂]
  unfold passAt at hirp₂
  have hself : (seenAt irp c).location c = clearStackLocation (irp.location c) :=
    seenAt_location_self hc (by rw [hlen]; exact hcn)
  have hne : ∀ k, 1 ≤ k → k ≠ c → (seenAt irp c).location k = irp.location k :=
    fun k hk hkc => seenAt_location_ne hc hk hkc
  split at hirp₂
  · -- the mark is written to location `c + 1` only
    rename_i hmark
    rw [Bool.and_eq_true] at hmark
    have hkeep : ∀ k, 1 ≤ k → k ≠ c + 1 → irp₂.location k = (seenAt irp c).location k := by
      intro k hk hkc
      rw [hirp₂]
      exact getD_modify_ne _ (by omega)
    constructor
    · rw [hirp₂]
      simp [seenAt]
    · rw [hirp₂]
      rfl
    · rw [hirp₂]
      exact ⟨rfl, rfl⟩
    · intro k hk hkc
      rw [hkeep k hk (by omega), hne k hk (by omega)]
    · rw [hkeep c hc (by omega), hself]
    · intro hle
      have hnext : irp₂.location (c + 1) = markPending ((seenAt irp c).location (c + 1)) := by
        rw [hirp₂]
        exact getD_modify_self _ (by simp [seenAt]; omega)
      rw [hnext, hne (c + 1) (by omega) (by omega), foundAt, Visit.marksNext]
      simp [hmark.1]
    · intro k hk
      rw [hkeep k (by omega) (by omega), hne k (by omega) (by omega)]
  · rename_i hmark
    rw [hirp₂]
    constructor
    · simp [seenAt]
    · rfl
    · exact ⟨rfl, rfl⟩
    · intro k hk hkc
      exact hne k hk (by omega)
    · exact hself
    · intro hle
      have hno : (seenAt irp c).pendingReturned = false := by
        simpa [show c < irp.stack.length by omega] using hmark
      rw [hne (c + 1) (by omega) (by omega), foundAt, Visit.marksNext]
      simp [hno]
    · intro k hk
      exact hne k (by omega) (by omega)

/-- A routine that asks for it stops the walk right behind its location. -/
theorem completionWalk_stop (h : At n c irp) (hcn : c ≤ n)
    (hvisit : VisitAt routines irp c ⟨irp.ioStatus, irp.cancel, w⟩ false v) (hstop : v.Stops)
    (hpassed : Passed irp c v irp') (hat : At n (c + 1) irp') (hmarks : v.marksNext = false)
    (hw : v.after.world = w') : CompletionWalk routines n c irp w irp' w' [v] := by
  constructor
  · rw [List.map_cons, hvisit.pStack]
    rfl
  · simp only [List.length_singleton]
    omega
  · exact ⟨by rw [h.length]; exact hcn, hvisit, fun hne => absurd rfl hne, trivial⟩
  · show v.after = _
    rw [← hpassed.shared.1, ← hpassed.shared.2, ← hw]
  · exact Or.inl ⟨⟨v, rfl, hstop⟩, hat, hpassed.mdlAddress⟩
  · exact hpassed.below
  · intro k hk hkc
    simp only [List.length_singleton] at hkc
    rw [show k = c by omega]
    exact hpassed.self
  · intro k hk hkn
    simp only [List.length_singleton] at hk
    rcases Nat.eq_or_lt_of_le hk with rfl | hlt
    · rw [hpassed.next (by rw [h.length]; exact hkn), hmarks]
      rfl
    · exact hpassed.above k hlt

/-! ### Turns of the loop -/

section Turns

variable {fuel : ℕ} {p : ℤ} {control : UInt8} {routine device context : Pvoid} {seen : Irp}

/-- The visit at which a routine is called. -/
def callVisit (routines : Routines W) (p : ℤ) (control : UInt8) (routine device context : Pvoid)
    (seen : Irp) (w : W) : Visit W :=
  ⟨p, control, seen, w, some ⟨routine, device, context, routines routine device seen context w⟩⟩

theorem completeLoop_stop
    (hstep : walkStep irp = .ok (.invoke p control routine device context seen))
    (hstop : (routines routine device seen context w).status = statusMoreProcessingRequired) :
    completeLoop routines (fuel + 1) irp w =
      .ok ({ seen with
        ioStatus := (routines routine device seen context w).ioStatus
        cancel := (routines routine device seen context w).cancel },
      (routines routine device seen context w).world,
      [callVisit routines p control routine device context seen w]) := by
  rw [completeLoop, bind_ok hstep]
  exact if_pos hstop

theorem completeLoop_call
    (hstep : walkStep irp = .ok (.invoke p control routine device context seen))
    (hstop : (routines routine device seen context w).status ≠ statusMoreProcessingRequired)
    (hrest : completeLoop routines fuel { seen with
        ioStatus := (routines routine device seen context w).ioStatus
        cancel := (routines routine device seen context w).cancel }
      (routines routine device seen context w).world = .ok (irp', w', visits)) :
    completeLoop routines (fuel + 1) irp w =
      .ok (irp', w', callVisit routines p control routine device context seen w :: visits) := by
  rw [completeLoop, bind_ok hstep]
  refine (if_neg hstop).trans ?_
  rw [bind_ok hrest]
  rfl

theorem completeLoop_pass (hstep : walkStep irp = .ok (.pass p control seen irp₂))
    (hrest : completeLoop routines fuel irp₂ w = .ok (irp', w', visits)) :
    completeLoop routines (fuel + 1) irp w =
      .ok (irp', w', ⟨p, control, seen, w, none⟩ :: visits) := by
  rw [completeLoop, bind_ok hstep]
  show (completeLoop routines fuel irp₂ w >>= _) = _
  rw [bind_ok hrest]
  rfl

end Turns

/-- The loop, with `r` locations left above the start of the walk. -/
theorem completeLoop_walk (hn : n ≤ 125) (r : ℕ) (hr : c + r = n + 1) (hc : 1 ≤ c)
    (h : At n c irp) {fuel : ℕ} (hfuel : r < fuel) :
    ∃ irp' w' visits, completeLoop routines fuel irp w = .ok (irp', w', visits) ∧
      CompletionWalk routines n c irp w irp' w' visits := by
  induction r generalizing c irp w fuel with
  | zero =>
    rcases Nat.exists_eq_add_one_of_ne_zero (by omega : fuel ≠ 0) with ⟨fuel, rfl⟩
    obtain rfl : c = n + 1 := by omega
    refine ⟨_, w, [], ?_, completionWalk_finish h hn⟩
    rw [completeLoop, bind_ok (walkStep_finish h (by omega) (by omega))]
    rfl
  | succ r ih =>
    rcases Nat.exists_eq_add_one_of_ne_zero (by omega : fuel ≠ 0) with ⟨fuel, rfl⟩
    have hcn : c ≤ n := by omega
    have hstep := walkStep_visit h (by omega) hc hcn
    have hseen := at_seenAt h (by omega : c < 127)
    cases hinv : invokes (irp.location c).control irp with
    | true =>
      rw [hinv, if_pos rfl] at hstep
      let reply := routines (irp.location c).completionRoutine (deviceAbove irp c) (seenAt irp c)
        (irp.location c).context w
      let call : Call W := ⟨(irp.location c).completionRoutine, deviceAbove irp c,
        (irp.location c).context, reply⟩
      have hvisit : VisitAt routines irp c ⟨irp.ioStatus, irp.cancel, w⟩ false
          ⟨locationOffset c, (irp.location c).control, seenAt irp c, w, some call⟩ :=
        visitAt_seenAt hinv.symm (by
          rintro k ⟨⟩
          exact ⟨rfl, rfl, rfl, rfl⟩)
      have hpassed : Passed irp c
          ⟨locationOffset c, (irp.location c).control, seenAt irp c, w, some call⟩
          { seenAt irp c with ioStatus := reply.ioStatus, cancel := reply.cancel } :=
        passed_invoke h hc hcn
      have hat : At n (c + 1)
          { seenAt irp c with ioStatus := reply.ioStatus, cancel := reply.cancel } :=
        ⟨hseen.stackCount, hseen.length, hseen.counter, hseen.pointer⟩
      by_cases hstop : reply.status = statusMoreProcessingRequired
      · exact ⟨_, reply.world, _, completeLoop_stop hstep hstop,
          completionWalk_stop h hcn hvisit ⟨_, rfl, hstop⟩ hpassed hat rfl rfl⟩
      · obtain ⟨irp', w', visits, hrun, hwalk⟩ := ih (by omega) (by omega) hat
          (by omega : r < fuel) (w := reply.world)
        have hnstop : ¬ Visit.Stops (⟨locationOffset c, (irp.location c).control, seenAt irp c, w,
            some ⟨(irp.location c).completionRoutine, deviceAbove irp c,
              (irp.location c).context, reply⟩⟩ : Visit W) := by
          rintro ⟨call, ⟨⟩, hstatus⟩
          exact hstop hstatus
        exact ⟨irp', w', _, completeLoop_call hstep hstop hrun,
          CompletionWalk.cons h.length hc hcn hvisit hnstop hpassed rfl hwalk⟩
    | false =>
      have hvisit : VisitAt routines irp c ⟨irp.ioStatus, irp.cancel, w⟩ false
          ⟨locationOffset c, (irp.location c).control, seenAt irp c, w, none⟩ :=
        visitAt_seenAt hinv.symm (by simp)
      have hnstop : ¬ Visit.Stops (⟨locationOffset c, (irp.location c).control, seenAt irp c, w,
          none⟩ : Visit W) := by
        rintro ⟨call, ⟨⟩, -⟩
      obtain ⟨irp', w', visits, hrun, hwalk⟩ := ih (by omega) (by omega) (at_passAt h (by omega))
        (by omega : r < fuel) (w := w)
      rw [hinv] at hstep
      exact ⟨irp', w', _, completeLoop_pass hstep hrun,
        CompletionWalk.cons h.length hc hcn hvisit hnstop (passed_pass h hc hcn) rfl hwalk⟩

/-- **The completion walk.** A call of `IofCompleteRequest` on a packet whose
counter and pointer are at location `c` visits the locations from `c` upward. -/
theorem completion_walk (routines : Routines W) (n c : ℕ) (irp : Irp) (w : W) (hn : n ≤ 125)
    (hc : 1 ≤ c) (hcn : c ≤ n + 1) (h : At n c irp) :
    ∃ irp' w' visits, iofCompleteRequest routines irp w = .ok (irp', w', visits) ∧
      CompletionWalk routines n c irp w irp' w' visits := by
  have hcheck : checkNotCompleted irp = .ok () := by
    unfold checkNotCompleted
    rw [if_neg (by rw [h.counter, h.stackCount]; omega)]
    rfl
  rcases Nat.exists_eq_add_of_le hcn with ⟨r, hr⟩
  rw [iofCompleteRequest, bind_ok hcheck]
  exact completeLoop_walk hn r (by omega) hc h (by rw [h.length]; omega)

end Walk

/-- A packet of three locations, forwarded twice, with a completion routine at
the location it is at. -/
def forwardedRequest : Irp :=
  { ioAllocateIrp 3 with
    currentLocation := 2
    currentStackLocation := locationOffset 2
    stack := [zeroLocation, { zeroLocation with control := 0xE1, completionRoutine := 16 },
      { zeroLocation with control := 0xE0, completionRoutine := 16, deviceObject := 8 }] }

/-- A routine that counts its calls and stops the walk at the top location. -/
def countingCompletion : Routines ℕ := fun _ device irp _ calls =>
  ⟨irp.ioStatus, irp.cancel, if device = 0 then statusMoreProcessingRequired else 0, calls + 1⟩

theorem completion_walk_forwardedRequest :
    At 3 2 forwardedRequest ∧
    ∃ irp' w' visits,
      iofCompleteRequest countingCompletion forwardedRequest 0 = .ok (irp', w', visits) ∧
      CompletionWalk countingCompletion 3 2 forwardedRequest 0 irp' w' visits := by
  have hat : At 3 2 forwardedRequest := ⟨rfl, rfl, rfl, rfl⟩
  exact ⟨hat, completion_walk countingCompletion 3 2 forwardedRequest 0 (by decide) (by decide)
    (by decide) hat⟩

end Wdutf.Io
