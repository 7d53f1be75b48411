import Mathlib.Data.List.Basic
import Mathlib.Data.Nat.Find
import Mathlib.Tactic.Common
import Wdutf.Lib.Worklist
import Wdutf.Io.DeviceStack

/-!
# Wdutf.Io.Pnp — the removal of devices, `src/pnp.cpp`

`DdkPnpUnload` goes through the devices of a driver. When it finds one whose stack has a device of
the plug and play manager at its base, it asks for the removal of the device, and starts again
at the head of the list. The requests go to the device at the top of the stack, which may be
another one, and be the same for two devices of the list.

What `DdkSynchronousIrp` does with a request, the dispatch routines of the drivers of the stack
included, is a parameter: any function of the state, which holds the memory of the drivers as
well. The list and the stacks stay lists and stacks. The reference on the base is left out: it
keeps the base until the loop has read the list again.

* `ddkPnpUnload_rounds` — the loop removes the first device that is stacked, until there is none;
* `pnpUnload_iff` — the drivers for which it ends, with no device sent `IRP_MN_REMOVE_DEVICE` twice;
* `pnpUnload_default` — a device that `DdkDefaultDispatch` does not remove.
-/

namespace Wdutf.Io.Pnp

open Wdutf.Io.DeviceStack Wdutf.Pointers Wdutf.Worklist

variable {W : Type}

/-- The minor functions of `IRP_MJ_PNP` that are used here. -/
inductive Minor where
  | queryRemoveDevice
  | removeDevice
  | cancelRemoveDevice
  | surpriseRemoval
deriving DecidableEq

/-- The devices of the driver that is unloaded, from `DriverObject->DeviceObject` on, the stacks
of devices, and everything else. -/
structure State (W : Type) where
  devices : List Pvoid
  driverObject : Pvoid → Pvoid
  stack : Devices
  world : W
  /-- No device is twice on the list. -/
  nodup : devices.Nodup
  /-- Above each device there is a top, below it a base. -/
  top : ∀ d, ∃ turns, (ioGetAttachedDevice turns d stack).isSome
  base : ∀ d, ∃ turns, (ioGetDeviceAttachmentBaseRef turns d stack).isSome

/-- `IoGetAttachedDevice`. -/
def State.attachedDevice (s : State W) (device : Pvoid) : Pvoid :=
  (ioGetAttachedDevice (Nat.find (s.top device)) device s.stack).get (Nat.find_spec (s.top device))

/-- `IoGetDeviceAttachmentBaseRef`. -/
def State.attachmentBase (s : State W) (device : Pvoid) : Pvoid :=
  (ioGetDeviceAttachmentBaseRef (Nat.find (s.base device)) device s.stack).get
    (Nat.find_spec (s.base device))

/-- The base is what the loop finds, however many tests it is given. -/
theorem State.attachmentBase_eq {s : State W} {device b : Pvoid} {turns : ℕ}
    (h : ioGetDeviceAttachmentBaseRef turns device s.stack = some b) :
    s.attachmentBase device = b := by
  have hbase : ioGetDeviceAttachmentBaseRef (Nat.find (s.base device)) device s.stack =
      some (s.attachmentBase device) := (Option.some_get _).symm
  exact ends_unique (ends_of_chase hbase) (ends_of_chase h)

/-- The top, too. -/
theorem State.attachedDevice_eq {s : State W} {device top : Pvoid} {turns : ℕ}
    (h : ioGetAttachedDevice turns device s.stack = some top) : s.attachedDevice device = top := by
  have htop : ioGetAttachedDevice (Nat.find (s.top device)) device s.stack =
      some (s.attachedDevice device) := (Option.some_get _).symm
  exact ends_unique (ends_of_chase htop) (ends_of_chase h)

/-- `DdkSynchronousIrp` for `IRP_MJ_PNP`. -/
abbrev Requests (W : Type) := Pvoid → Minor → State W → NtStatus × State W

/-- What a routine returns and leaves behind, with the requests that it has sent and the devices
that it has sent them to. -/
structure Reply (W : Type) where
  status : NtStatus
  state : State W
  sent : List (Pvoid × Minor)

/-- The devices that were sent `IRP_MN_REMOVE_DEVICE`. -/
def removals (sent : List (Pvoid × Minor)) : List Pvoid :=
  (sent.filter fun request => request.2 = .removeDevice).map (·.1)

/-! ## The routines -/

section Routines

variable (ddkSynchronousIrp : Requests W) (ddkPnpManager : Pvoid)

/-- `DdkPnpIssueRequest`. -/
def ddkPnpIssueRequest (deviceObject : Pvoid) (request : Minor) (s : State W) : Reply W :=
  let pDevice := s.attachedDevice deviceObject
  let answer := ddkSynchronousIrp pDevice request s
  ⟨answer.1, answer.2, [(pDevice, request)]⟩

/-- `DdkPnpRemoveDevice`. -/
def ddkPnpRemoveDevice (deviceObject : Pvoid) (force : Bool) (s : State W) : Reply W :=
  let query := ddkPnpIssueRequest ddkSynchronousIrp deviceObject .queryRemoveDevice s
  if !ntSuccess query.status && !force then
    let cancel := ddkPnpIssueRequest ddkSynchronousIrp deviceObject .cancelRemoveDevice query.state
    ⟨query.status, cancel.state, query.sent ++ cancel.sent⟩
  else
    let surprise := if !ntSuccess query.status then
        ddkPnpIssueRequest ddkSynchronousIrp deviceObject .surpriseRemoval query.state
      else ⟨query.status, query.state, []⟩
    let remove := ddkPnpIssueRequest ddkSynchronousIrp deviceObject .removeDevice surprise.state
    ⟨remove.status, remove.state, query.sent ++ surprise.sent ++ remove.sent⟩

/-- The base of the device belongs to the plug and play manager. -/
def stacked (s : State W) (device : Pvoid) : Bool :=
  s.driverObject (s.attachmentBase device) == ddkPnpManager

/-- The loop of `DdkPnpUnload`, from `DeviceObject` on, with the requests that it sends. -/
def unloadLoop : ℕ → List Pvoid → State W → Option (List (Pvoid × Minor) × State W)
  | 0, _, _ => none
  | _ + 1, [], s => some ([], s)
  | turns + 1, deviceObject :: next, s =>
    if stacked ddkPnpManager s deviceObject then
      let r := ddkPnpRemoveDevice ddkSynchronousIrp deviceObject true s
      (unloadLoop turns r.state.devices r.state).map fun rest => (r.sent ++ rest.1, rest.2)
    else unloadLoop turns next s

/-- `DdkPnpUnload`, for at most `turns` tests of the loop. -/
def ddkPnpUnload (turns : ℕ) (s : State W) : Option (List (Pvoid × Minor) × State W) :=
  unloadLoop ddkSynchronousIrp ddkPnpManager turns s.devices s

/-- The loop ends, and no device was sent `IRP_MN_REMOVE_DEVICE` twice. -/
def Unloads (s : State W) : Prop :=
  ∃ turns sent s', ddkPnpUnload ddkSynchronousIrp ddkPnpManager turns s = some (sent, s') ∧
    (removals sent).Nodup

/-! ## Rounds -/

/-- The devices on the list that are stacked on a device of the plug and play manager. -/
def stackedDevices (s : State W) : List Pvoid := s.devices.filter (stacked ddkPnpManager s)

/-- The first device that is stacked. -/
def firstStacked (s : State W) : Option Pvoid := (stackedDevices ddkPnpManager s).head?

/-- The first of them is removed. -/
def round (s : State W) : State W :=
  match firstStacked ddkPnpManager s with
  | none => s
  | some deviceObject => (ddkPnpRemoveDevice ddkSynchronousIrp deviceObject true s).state

/-- The state in which `IRP_MN_REMOVE_DEVICE` is sent: the query was answered, and the surprise
removal after a query that was turned down. -/
def beforeRemoval (deviceObject : Pvoid) (s : State W) : State W :=
  let query := ddkPnpIssueRequest ddkSynchronousIrp deviceObject .queryRemoveDevice s
  if !ntSuccess query.status then
    (ddkPnpIssueRequest ddkSynchronousIrp deviceObject .surpriseRemoval query.state).state
  else query.state

/-- The device that is sent it: the top of the stack at that time. -/
def receiver (s : State W) (deviceObject : Pvoid) : Pvoid :=
  (beforeRemoval ddkSynchronousIrp deviceObject s).attachedDevice deviceObject

/-- The device that is sent `IRP_MN_REMOVE_DEVICE` for the first device that is stacked. -/
def firstReceiver (s : State W) : Option Pvoid :=
  (firstStacked ddkPnpManager s).map (receiver ddkSynchronousIrp s)

end Routines

section Rounds

variable {ddkSynchronousIrp : Requests W} {ddkPnpManager : Pvoid} {s : State W}

theorem removals_append (sent sent' : List (Pvoid × Minor)) :
    removals (sent ++ sent') = removals sent ++ removals sent' := by
  rw [removals, List.filter_append, List.map_append]
  rfl

/-- A forced removal sends one `IRP_MN_REMOVE_DEVICE`. -/
theorem removals_ddkPnpRemoveDevice (d : Pvoid) (s : State W) :
    removals (ddkPnpRemoveDevice ddkSynchronousIrp d true s).sent =
      [receiver ddkSynchronousIrp s d] := by
  rw [ddkPnpRemoveDevice, receiver, beforeRemoval]
  cases ntSuccess (ddkPnpIssueRequest ddkSynchronousIrp d .queryRemoveDevice s).status <;> rfl

theorem firstReceiver_eq_none :
    firstReceiver ddkSynchronousIrp ddkPnpManager s = none ↔ firstStacked ddkPnpManager s = none :=
  Option.map_eq_none_iff

theorem round_done (h : firstStacked ddkPnpManager s = none) :
    round ddkSynchronousIrp ddkPnpManager s = s := by
  rw [round, h]

theorem round_some {d : Pvoid} (h : firstStacked ddkPnpManager s = some d) :
    round ddkSynchronousIrp ddkPnpManager s =
      (ddkPnpRemoveDevice ddkSynchronousIrp d true s).state := by
  rw [round, h]

/-- The devices before the first one that is stacked are passed over. -/
theorem unloadLoop_pass (pre rest : List Pvoid) (turns : ℕ)
    (hpre : ∀ d ∈ pre, stacked ddkPnpManager s d = false) :
    unloadLoop ddkSynchronousIrp ddkPnpManager (pre.length + turns) (pre ++ rest) s =
      unloadLoop ddkSynchronousIrp ddkPnpManager turns rest s := by
  induction pre with
  | nil => rw [List.length_nil, Nat.zero_add, List.nil_append]
  | cons d pre ih =>
    have hd : stacked ddkPnpManager s d = false := hpre d List.mem_cons_self
    rw [List.length_cons, Nat.succ_add, List.cons_append, unloadLoop, hd]
    exact ih fun x hx => hpre x (List.mem_cons_of_mem d hx)

/-- The list up to the first device that is stacked. -/
theorem devices_split {d : Pvoid} (h : firstStacked ddkPnpManager s = some d) :
    ∃ pre rest, s.devices = pre ++ d :: rest ∧ stacked ddkPnpManager s d = true ∧
      ∀ x ∈ pre, stacked ddkPnpManager s x = false := by
  rw [firstStacked, stackedDevices, List.head?_filter, List.find?_eq_some_iff_append] at h
  rcases h with ⟨hd, pre, rest, hsplit, hpre⟩
  exact ⟨pre, rest, hsplit, hd, fun x hx => by simpa using hpre x hx⟩

theorem not_stacked (h : firstStacked ddkPnpManager s = none) :
    ∀ d ∈ s.devices, stacked ddkPnpManager s d = false := by
  rw [firstStacked, stackedDevices, List.head?_filter, List.find?_eq_none] at h
  exact fun d hd => by simpa using h d hd

/-- A loop that ends has gone through some rounds. -/
theorem rounds_of_unloadLoop {turns : ℕ} (pre : List Pvoid) {cursor : List Pvoid}
    {sent : List (Pvoid × Minor)} {s' : State W}
    (hcursor : s.devices = pre ++ cursor) (hpre : ∀ d ∈ pre, stacked ddkPnpManager s d = false)
    (h : unloadLoop ddkSynchronousIrp ddkPnpManager turns cursor s = some (sent, s')) :
    ∃ n, firstStacked ddkPnpManager ((round ddkSynchronousIrp ddkPnpManager)^[n] s) = none ∧
      removals sent = handled (firstReceiver ddkSynchronousIrp ddkPnpManager)
        (round ddkSynchronousIrp ddkPnpManager) n s ∧
      s' = (round ddkSynchronousIrp ddkPnpManager)^[n] s := by
  induction turns generalizing pre cursor sent s with
  | zero => cases h
  | succ turns ih =>
    cases cursor with
    | nil =>
      -- nothing is stacked
      cases h
      refine ⟨0, ?_, rfl, rfl⟩
      rw [List.append_nil] at hcursor
      rw [Function.iterate_zero, id, firstStacked, stackedDevices, List.head?_filter,
        List.find?_eq_none, hcursor]
      exact fun d hd => by simpa using hpre d hd
    | cons d next =>
      rw [unloadLoop] at h
      by_cases hd : stacked ddkPnpManager s d = true
      · -- a round
        rw [if_pos hd] at h
        rcases Option.map_eq_some_iff.1 h with ⟨⟨sent', t⟩, hrest, heq⟩
        cases heq
        have hfirst : firstStacked ddkPnpManager s = some d := by
          rw [firstStacked, stackedDevices, hcursor, List.filter_append,
            List.filter_eq_nil_iff.2 (fun x hx => by simp [hpre x hx]),
            List.filter_cons_of_pos hd]
          rfl
        rcases ih [] (List.nil_append _).symm (fun x hx => absurd hx List.not_mem_nil) hrest with
          ⟨n, hdone, hremoved, ht⟩
        rw [← round_some hfirst] at hdone hremoved ht
        refine ⟨n + 1, hdone, ?_, ht⟩
        rw [removals_append, removals_ddkPnpRemoveDevice, hremoved, handled, firstReceiver, hfirst]
        rfl
      · -- the next device
        rw [if_neg hd] at h
        refine ih (pre ++ [d]) (by rw [hcursor, List.append_assoc]; rfl) ?_ h
        intro x hx
        rcases List.mem_append.1 hx with hx | hx
        · exact hpre x hx
        · rw [List.mem_singleton.1 hx]
          exact Bool.eq_false_iff.2 hd

/-- With enough turns the loop goes through any number of rounds. -/
theorem unloadLoop_of_rounds {n : ℕ}
    (h : firstStacked ddkPnpManager ((round ddkSynchronousIrp ddkPnpManager)^[n] s) = none) :
    ∃ turns sent, ddkPnpUnload ddkSynchronousIrp ddkPnpManager turns s =
        some (sent, (round ddkSynchronousIrp ddkPnpManager)^[n] s) ∧
      removals sent = handled (firstReceiver ddkSynchronousIrp ddkPnpManager)
        (round ddkSynchronousIrp ddkPnpManager) n s := by
  induction n generalizing s with
  | zero =>
    refine ⟨s.devices.length + 1, [], ?_, rfl⟩
    have hnone : ∀ d ∈ s.devices, stacked ddkPnpManager s d = false := not_stacked h
    have hsplit : s.devices = s.devices ++ [] := (List.append_nil _).symm
    rw [ddkPnpUnload]
    nth_rewrite 2 [hsplit]
    rw [unloadLoop_pass _ _ 1 hnone]
    rfl
  | succ n ih =>
    rcases ih (s := round ddkSynchronousIrp ddkPnpManager s) h with ⟨turns, sent, hrest, hsent⟩
    cases hfirst : firstStacked ddkPnpManager s with
    | none =>
      refine ⟨turns, sent, ?_, ?_⟩
      · rw [round_done hfirst] at hrest
        rw [Function.iterate_succ_apply, round_done hfirst, hrest]
      · rw [hsent, handled, firstReceiver_eq_none.2 hfirst]
        rfl
    | some d =>
      rcases devices_split hfirst with ⟨pre, rest, hsplit, hd, hpre⟩
      have hround : round ddkSynchronousIrp ddkPnpManager s = _ := round_some hfirst
      refine ⟨pre.length + (turns + 1),
        (ddkPnpRemoveDevice ddkSynchronousIrp d true s).sent ++ sent, ?_, ?_⟩
      · rw [ddkPnpUnload, hsplit, unloadLoop_pass _ _ _ hpre, unloadLoop, if_pos hd]
        rw [ddkPnpUnload, hround] at hrest
        simp only [hrest]
        rw [Function.iterate_succ_apply, hround]
        rfl
      · rw [removals_append, removals_ddkPnpRemoveDevice, hsent, handled, firstReceiver, hfirst]
        rfl

/-- **The loop.** It removes the first device that is stacked, until there is none. -/
theorem ddkPnpUnload_rounds {removed : List Pvoid} {s' : State W} :
    (∃ turns sent, ddkPnpUnload ddkSynchronousIrp ddkPnpManager turns s = some (sent, s') ∧
      removals sent = removed) ↔
      ∃ n, firstStacked ddkPnpManager ((round ddkSynchronousIrp ddkPnpManager)^[n] s) = none ∧
        removed = handled (firstReceiver ddkSynchronousIrp ddkPnpManager)
          (round ddkSynchronousIrp ddkPnpManager) n s ∧
        s' = (round ddkSynchronousIrp ddkPnpManager)^[n] s := by
  constructor
  · rintro ⟨turns, sent, h, rfl⟩
    exact rounds_of_unloadLoop [] (List.nil_append _).symm
      (fun d hd => absurd hd List.not_mem_nil) h
  · rintro ⟨n, hdone, rfl, rfl⟩
    exact unloadLoop_of_rounds hdone

end Rounds

/-! ## The drivers for which the loop ends -/

section Drivers

variable (ddkSynchronousIrp : Requests W) (ddkPnpManager : Pvoid)

/-- Only finitely many devices come to be at the top of the stack of a device that is removed, and
none is there in two removals. -/
structure Answers (s : State W) : Prop where
  finite : {r | ∃ i, firstReceiver ddkSynchronousIrp ddkPnpManager
    ((round ddkSynchronousIrp ddkPnpManager)^[i] s) = some r}.Finite
  never : ∀ i j, i < j → ∀ r,
    firstReceiver ddkSynchronousIrp ddkPnpManager
      ((round ddkSynchronousIrp ddkPnpManager)^[i] s) = some r →
    firstReceiver ddkSynchronousIrp ddkPnpManager
      ((round ddkSynchronousIrp ddkPnpManager)^[j] s) ≠ some r

/-- While the removals are handled, devices only leave the list, none is put on a device of the
plug and play manager, and a device that is removed has none above it. -/
structure Orderly (s : State W) : Prop where
  list : ∀ i, ((round ddkSynchronousIrp ddkPnpManager)^[i + 1] s).devices.Sublist
    ((round ddkSynchronousIrp ddkPnpManager)^[i] s).devices
  base : ∀ i, ∀ d ∈ ((round ddkSynchronousIrp ddkPnpManager)^[i + 1] s).devices,
    stacked ddkPnpManager ((round ddkSynchronousIrp ddkPnpManager)^[i + 1] s) d = true →
    stacked ddkPnpManager ((round ddkSynchronousIrp ddkPnpManager)^[i] s) d = true
  top : ∀ i d, firstStacked ddkPnpManager ((round ddkSynchronousIrp ddkPnpManager)^[i] s) =
      some d →
    receiver ddkSynchronousIrp ((round ddkSynchronousIrp ddkPnpManager)^[i] s) d = d

/-- Each removal takes its device off the list or off its base. -/
def Leaves (s : State W) : Prop :=
  ∀ i d, firstStacked ddkPnpManager ((round ddkSynchronousIrp ddkPnpManager)^[i] s) = some d →
    d ∉ stackedDevices ddkPnpManager ((round ddkSynchronousIrp ddkPnpManager)^[i + 1] s)

variable {ddkSynchronousIrp} {ddkPnpManager} {s : State W}

theorem mem_of_firstStacked {d : Pvoid} (h : firstStacked ddkPnpManager s = some d) :
    d ∈ stackedDevices ddkPnpManager s := List.mem_of_head? h

theorem unloads_iff_answers :
    Unloads ddkSynchronousIrp ddkPnpManager s ↔ Answers ddkSynchronousIrp ddkPnpManager s := by
  have hstop : ∀ s, firstReceiver ddkSynchronousIrp ddkPnpManager s = none →
      round ddkSynchronousIrp ddkPnpManager s = s :=
    fun s h => round_done (firstReceiver_eq_none.1 h)
  have hworklist := worklist_iff (s := s) hstop
  have hstart : Unloads ddkSynchronousIrp ddkPnpManager s ↔ ∃ n,
      firstReceiver ddkSynchronousIrp ddkPnpManager
        ((round ddkSynchronousIrp ddkPnpManager)^[n] s) = none ∧
      (handled (firstReceiver ddkSynchronousIrp ddkPnpManager)
        (round ddkSynchronousIrp ddkPnpManager) n s).Nodup := by
    constructor
    · rintro ⟨turns, sent, s', h, hnodup⟩
      rcases ddkPnpUnload_rounds.1 ⟨turns, sent, h, rfl⟩ with ⟨n, hdone, hsent, -⟩
      exact ⟨n, firstReceiver_eq_none.2 hdone, hsent ▸ hnodup⟩
    · rintro ⟨n, hdone, hnodup⟩
      rcases ddkPnpUnload_rounds.2 ⟨n, firstReceiver_eq_none.1 hdone, rfl, rfl⟩ with
        ⟨turns, sent, h, hsent⟩
      exact ⟨turns, sent, _, h, hsent ▸ hnodup⟩
  constructor
  · intro h
    rcases hworklist.1 (hstart.1 h) with ⟨hfinite, hnever⟩
    exact ⟨hfinite, hnever⟩
  · rintro ⟨hfinite, hnever⟩
    exact hstart.2 (hworklist.2 ⟨hfinite, hnever⟩)

/-- In an orderly run the devices that are stacked are a part of those from before. -/
theorem Orderly.sublist (h : Orderly ddkSynchronousIrp ddkPnpManager s) (i : ℕ) :
    (stackedDevices ddkPnpManager ((round ddkSynchronousIrp ddkPnpManager)^[i + 1] s)).Sublist
      (stackedDevices ddkPnpManager ((round ddkSynchronousIrp ddkPnpManager)^[i] s)) := by
  have hdevices := h.list i
  have hstacked := h.base i
  have hfilter : stackedDevices ddkPnpManager
      ((round ddkSynchronousIrp ddkPnpManager)^[i + 1] s) =
      ((round ddkSynchronousIrp ddkPnpManager)^[i + 1] s).devices.filter fun d =>
        stacked ddkPnpManager ((round ddkSynchronousIrp ddkPnpManager)^[i + 1] s) d &&
          stacked ddkPnpManager ((round ddkSynchronousIrp ddkPnpManager)^[i] s) d := by
    apply List.filter_congr
    intro d hd
    cases hd' : stacked ddkPnpManager ((round ddkSynchronousIrp ddkPnpManager)^[i + 1] s) d with
    | false => rfl
    | true => rw [hstacked d hd hd', Bool.true_and]
  rw [hfilter, ← List.filter_filter]
  exact List.filter_sublist.trans (hdevices.filter _)

theorem Orderly.subset (h : Orderly ddkSynchronousIrp ddkPnpManager s) {i j : ℕ} (hij : i ≤ j) :
    stackedDevices ddkPnpManager ((round ddkSynchronousIrp ddkPnpManager)^[j] s) ⊆
      stackedDevices ddkPnpManager ((round ddkSynchronousIrp ddkPnpManager)^[i] s) := by
  induction j, hij using Nat.le_induction with
  | base => exact List.Subset.refl _
  | succ j _ ih => exact List.Subset.trans (h.sublist j).subset ih

/-- In an orderly run the device that is removed is the one that is sent the request. -/
theorem Orderly.firstReceiver_eq (h : Orderly ddkSynchronousIrp ddkPnpManager s) (i : ℕ) :
    firstReceiver ddkSynchronousIrp ddkPnpManager
        ((round ddkSynchronousIrp ddkPnpManager)^[i] s) =
      firstStacked ddkPnpManager ((round ddkSynchronousIrp ddkPnpManager)^[i] s) := by
  rw [firstReceiver]
  cases hfirst : firstStacked ddkPnpManager ((round ddkSynchronousIrp ddkPnpManager)^[i] s) with
  | none => rfl
  | some d => rw [Option.map_some, h.top i d hfirst]

theorem Orderly.answers_iff (h : Orderly ddkSynchronousIrp ddkPnpManager s) :
    Answers ddkSynchronousIrp ddkPnpManager s ↔ Leaves ddkSynchronousIrp ddkPnpManager s := by
  constructor
  · intro hanswers i d hd hmem
    -- a device that stays is the first one again
    refine hanswers.never i (i + 1) (Nat.lt_succ_self i) d
      (by rw [h.firstReceiver_eq, hd]) ?_
    have hsublist := h.sublist i
    have hnodup : (stackedDevices ddkPnpManager
        ((round ddkSynchronousIrp ddkPnpManager)^[i] s)).Nodup :=
      ((round ddkSynchronousIrp ddkPnpManager)^[i] s).nodup.filter _
    rcases List.eq_cons_of_mem_head? hd with hcons
    rw [hcons] at hsublist hnodup
    rcases List.sublist_cons_iff.1 hsublist with hrest | ⟨rest, hrest, -⟩
    · exact absurd (hrest.subset hmem) (List.nodup_cons.1 hnodup).1
    · rw [h.firstReceiver_eq, firstStacked, hrest]
      rfl
  · intro hleaves
    constructor
    case finite =>
      refine (List.finite_toSet (stackedDevices ddkPnpManager s)).subset ?_
      rintro d ⟨i, hd⟩
      rw [h.firstReceiver_eq] at hd
      exact h.subset (Nat.zero_le i) (mem_of_firstStacked hd)
    case never =>
      intro i j hij d hi hj
      rw [h.firstReceiver_eq] at hi hj
      exact hleaves i d hi (h.subset (Nat.succ_le_of_lt hij) (mem_of_firstStacked hj))

end Drivers

/-- `STATUS_INVALID_DEVICE_REQUEST`. -/
def statusInvalidDeviceRequest : NtStatus := (0xC0000010 : UInt32).toInt32

/-- `DdkDefaultDispatch`, as the answer to every request. -/
def ddkDefaultDispatch : Requests W := fun _ _ s => (statusInvalidDeviceRequest, s)

theorem ddkPnpRemoveDevice_default (d : Pvoid) (force : Bool) (s : State W) :
    (ddkPnpRemoveDevice ddkDefaultDispatch d force s).state = s := by
  unfold ddkPnpRemoveDevice ddkPnpIssueRequest ddkDefaultDispatch
  cases force <;> rfl

/-- With `DdkDefaultDispatch` the loop ends only if it finds nothing to remove. -/
theorem unloads_default {ddkPnpManager : Pvoid} {s : State W} :
    Unloads ddkDefaultDispatch ddkPnpManager s ↔ stackedDevices ddkPnpManager s = [] := by
  have hround : round ddkDefaultDispatch ddkPnpManager s = s := by
    cases h : firstStacked ddkPnpManager s with
    | none => exact round_done h
    | some d => rw [round_some h, ddkPnpRemoveDevice_default]
  have hrounds : ∀ i, (round ddkDefaultDispatch ddkPnpManager)^[i] s = s :=
    fun i => Function.iterate_fixed hround i
  rw [unloads_iff_answers]
  constructor
  · intro h
    by_contra hne
    rcases List.exists_cons_of_ne_nil hne with ⟨d, rest, hcons⟩
    have hfirst : firstReceiver ddkDefaultDispatch ddkPnpManager s =
        some (receiver ddkDefaultDispatch s d) := by
      rw [firstReceiver, firstStacked, hcons]
      rfl
    refine h.never 0 1 Nat.zero_lt_one _ hfirst ?_
    rw [hrounds]
    exact hfirst
  · intro hnil
    have hnone : firstReceiver ddkDefaultDispatch ddkPnpManager s = none := by
      rw [firstReceiver, firstStacked, hnil]
      rfl
    constructor
    case finite =>
      refine Set.finite_empty.subset ?_
      rintro d ⟨i, hd⟩
      rw [hrounds, hnone] at hd
      cases hd
    case never =>
      intro i j _ d hi
      rw [hrounds, hnone] at hi
      cases hi

/-- The device 1 of the driver 8, on the device 2 of the plug and play manager 9. -/
def oneStacked : State Unit where
  devices := [1]
  driverObject := fun d => if d = 2 then 9 else 8
  stack := fun d =>
    if d = 1 then ⟨none, some 2, 2, 0⟩ else if d = 2 then ⟨some 1, none, 1, 0⟩ else newDevice
  world := ()
  nodup := List.nodup_singleton 1
  top := by
    intro d
    refine ⟨2, ?_⟩
    by_cases h1 : d = 1
    · rw [h1]
      rfl
    · by_cases h2 : d = 2
      · rw [h2]
        rfl
      · simp [ioGetAttachedDevice, Pointers.chase, up, h1, h2, newDevice]
  base := by
    intro d
    refine ⟨2, ?_⟩
    by_cases h1 : d = 1
    · rw [h1]
      rfl
    · by_cases h2 : d = 2
      · rw [h2]
        rfl
      · simp [ioGetDeviceAttachmentBaseRef, Pointers.chase, down, h1, h2, newDevice]

theorem firstStacked_oneStacked : firstStacked 9 oneStacked = some 1 := by
  have hchase : ioGetDeviceAttachmentBaseRef 2 1 oneStacked.stack = some 2 := rfl
  have hbase := State.attachmentBase_eq hchase
  have hstacked : stacked 9 oneStacked 1 = true := by
    rw [stacked, hbase]
    rfl
  rw [firstStacked, stackedDevices, show oneStacked.devices = [1] from rfl,
    List.filter_cons_of_pos hstacked]
  rfl

/-- A driver that deletes all its devices when one is removed. -/
def deletesDevices : Requests Unit := fun _ request s =>
  (0, if request = .removeDevice then { s with devices := [], nodup := List.nodup_nil } else s)

end Wdutf.Io.Pnp
