import Mathlib.Data.List.Basic
import Mathlib.Data.List.Nodup
import Mathlib.Logic.Function.Basic
import Mathlib.Tactic.Common
import Wdutf.Lib.Transition

/-!
# Wdutf.Ke.BugCheck — bug check callback records, `src/error.cpp`

A driver registers callback records; a bug check calls the routine of every record
whose checksum still fits. The records are the driver's memory, so that their fields
may be overwritten while they are in the list.

The purpose of the list is given by a second, abstract component: the registrations in
effect, in the order in which they were made, each with the data it was made with. The
code refines it (`refines_step`), and what a bug check calls is stated in its terms.

* `checksum_eq_iff` — the checksum takes `&` before `^`, so that a change of one field
  is seen exactly if a flipped bit is set in the other field;
* `callbacks_right_iff` — in every reachable state exactly those changes go unseen, and
  a run without them is as it should be throughout.
-/

namespace Wdutf.BugCheck

open Wdutf.Transition

/-! ## The model -/

/-- The states of a record that occur here. -/
inductive BufferState where
  | bufferEmpty
  | bufferInserted
deriving DecidableEq, Repr

/-- `KBUGCHECK_CALLBACK_RECORD`; its `Entry` is its place in `Callbacks.list`. -/
structure Record where
  state : BufferState
  callbackRoutine : UInt64
  buffer : UInt64
  length : UInt32
  component : UInt64
  checksum : UInt64
deriving DecidableEq, Repr

/-- The records at their addresses, and `List`. -/
structure Callbacks where
  record : UInt64 → Record
  list : List UInt64

/-- `BUGCHECK_CHECKSUM`; `&` binds tighter than `^`. -/
def bugCheckChecksum (cb callbackRoutine component : UInt64) : UInt64 :=
  cb ^^^ (callbackRoutine &&& component)

/-- `KeRegisterBugCheckCallback`. -/
def keRegisterBugCheckCallback (callbackRecord callbackRoutine buffer : UInt64) (length : UInt32)
    (component : UInt64) (s : Callbacks) : Bool × Callbacks :=
  if callbackRecord = 0 then (false, s)
  else if (s.record callbackRecord).state = .bufferEmpty then
    (true,
      { record := Function.update s.record callbackRecord
          ⟨.bufferInserted, callbackRoutine, buffer, length, component,
            bugCheckChecksum callbackRecord callbackRoutine component⟩
        list := s.list ++ [callbackRecord] })
  else (false, s)

/-- `KeDeregisterBugCheckCallback`. -/
def keDeregisterBugCheckCallback (callbackRecord : UInt64) (s : Callbacks) : Bool × Callbacks :=
  if callbackRecord = 0 then (false, s)
  else if (s.record callbackRecord).state = .bufferInserted then
    (true,
      { record := Function.update s.record callbackRecord
          { s.record callbackRecord with state := .bufferEmpty }
        list := s.list.erase callbackRecord })
  else (false, s)

/-- The driver writes to the fields of a record. -/
def overwrite (callbackRecord callbackRoutine component : UInt64) (s : Callbacks) : Callbacks :=
  { s with
    record := Function.update s.record callbackRecord
      { s.record callbackRecord with
        callbackRoutine := callbackRoutine, component := component } }

/-- A call of a routine, with the record it was made for. -/
structure Invocation where
  record : UInt64
  callbackRoutine : UInt64
  buffer : UInt64
  length : UInt32
deriving DecidableEq, Repr

/-- The test on a record of the list. -/
def Callbacks.fits (s : Callbacks) (cb : UInt64) : Bool :=
  (s.record cb).checksum ==
    bugCheckChecksum cb (s.record cb).callbackRoutine (s.record cb).component

def Callbacks.invocation (s : Callbacks) (cb : UInt64) : Invocation :=
  ⟨cb, (s.record cb).callbackRoutine, (s.record cb).buffer, (s.record cb).length⟩

/-- The loop of `BugCheckCallbacks` over `List`, which `KeBugCheckEx` runs: the calls it
makes, in order. -/
def bugCheckCallbacks (s : Callbacks) : List Invocation :=
  (s.list.filter s.fits).map s.invocation

/-! ## The registrations in effect -/

/-- A registration: the record and the data it was registered with. -/
structure Registration where
  record : UInt64
  callbackRoutine : UInt64
  buffer : UInt64
  length : UInt32
  component : UInt64
deriving DecidableEq, Repr

/-- The records with a registration in effect. -/
def records (regs : List Registration) : List UInt64 := regs.map Registration.record

/-- What a driver does. -/
inductive Event where
  | register (reg : Registration)
  | deregister (record : UInt64)
  | overwrite (record callbackRoutine component : UInt64)

/-- The registrations in effect after an event, and what the call returns. -/
def follow (regs : List Registration) : Event → Bool × List Registration
  | .register reg =>
    if reg.record = 0 ∨ reg.record ∈ records regs then (false, regs) else (true, regs ++ [reg])
  | .deregister record =>
    if record ∈ records regs then (true, regs.filter fun reg => reg.record ≠ record)
    else (false, regs)
  | .overwrite _ _ _ => (true, regs)

/-- The code on an event. -/
def perform (s : Callbacks) : Event → Bool × Callbacks
  | .register reg =>
    keRegisterBugCheckCallback reg.record reg.callbackRoutine reg.buffer reg.length reg.component s
  | .deregister record => keDeregisterBugCheckCallback record s
  | .overwrite record callbackRoutine component =>
    (true, overwrite record callbackRoutine component s)

/-- The list of the code and the registrations side by side. -/
structure Both where
  code : Callbacks
  regs : List Registration

def Init (b : Both) : Prop :=
  (∀ cb, (b.code.record cb).state = .bufferEmpty) ∧ b.code.list = [] ∧ b.regs = []

def Next (b : Both) (e : Event) (b' : Both) : Prop :=
  b' = ⟨(perform b.code e).2, (follow b.regs e).2⟩

/-! ## What a bug check should do -/

/-- The two fields are as they were registered. -/
def Intact (s : Callbacks) (reg : Registration) : Prop :=
  (s.record reg.record).callbackRoutine = reg.callbackRoutine ∧
  (s.record reg.record).component = reg.component

/-- Exactly one of the two fields has been changed. -/
def OneChanged (s : Callbacks) (reg : Registration) : Prop :=
  ((s.record reg.record).callbackRoutine ≠ reg.callbackRoutine ∧
    (s.record reg.record).component = reg.component) ∨
  ((s.record reg.record).callbackRoutine = reg.callbackRoutine ∧
    (s.record reg.record).component ≠ reg.component)

structure CallbacksRight (b : Both) : Prop where
  /-- No record is registered twice. -/
  nodup : (records b.regs).Nodup
  /-- The calls are made in the order of registration, and at most one for a record. -/
  order : ((bugCheckCallbacks b.code).map Invocation.record).Sublist (records b.regs)
  /-- An intact record is called with what it was registered with. -/
  intact : ∀ reg ∈ b.regs, Intact b.code reg →
    ⟨reg.record, reg.callbackRoutine, reg.buffer, reg.length⟩ ∈ bugCheckCallbacks b.code
  /-- A record with one field changed is not called. -/
  changed : ∀ reg ∈ b.regs, OneChanged b.code reg →
    reg.record ∉ (bugCheckCallbacks b.code).map Invocation.record
  /-- Registering a registered record returns `FALSE` and changes nothing. -/
  registered : ∀ reg, reg.record ∈ records b.regs →
    perform b.code (.register reg) = (false, b.code)
  /-- Deregistering an unregistered record returns `FALSE` and changes nothing. -/
  unregistered : ∀ record, record ∉ records b.regs →
    perform b.code (.deregister record) = (false, b.code)

/-- With these values in a registered record, a change of exactly one field shows: a
flipped bit is set in the other field. -/
def Shows (reg : Registration) (callbackRoutine component : UInt64) : Prop :=
  (callbackRoutine ≠ reg.callbackRoutine → component = reg.component →
    (callbackRoutine ^^^ reg.callbackRoutine) &&& reg.component ≠ 0) ∧
  (callbackRoutine = reg.callbackRoutine → component ≠ reg.component →
    (component ^^^ reg.component) &&& reg.callbackRoutine ≠ 0)

/-- All changes to registered records show. -/
def AllShow (b : Both) : Prop :=
  ∀ reg ∈ b.regs, Shows reg (b.code.record reg.record).callbackRoutine
    (b.code.record reg.record).component

/-- An event writes only values that show to registered records. -/
def WritesShow (b : Both) : Event → Prop
  | .overwrite record callbackRoutine component =>
    ∀ reg ∈ b.regs, reg.record = record → Shows reg callbackRoutine component
  | _ => True

/-! ## The checksum -/

theorem and_eq_and_iff (x y m : UInt64) : x &&& m = y &&& m ↔ (x ^^^ y) &&& m = 0 := by
  have hxor : (x ^^^ y) &&& m = (x &&& m) ^^^ (y &&& m) := by
    apply UInt64.toBitVec_inj.1
    apply BitVec.eq_of_getLsbD_eq
    intro i _
    simp only [UInt64.toBitVec_and, UInt64.toBitVec_xor, BitVec.getLsbD_and, BitVec.getLsbD_xor]
    cases x.toBitVec.getLsbD i <;> cases m.toBitVec.getLsbD i <;> simp
  rw [hxor, UInt64.xor_eq_zero_iff]

/-- The address drops out of the comparison of two checksums. -/
theorem checksum_eq_iff (cb x y x' y' : UInt64) :
    bugCheckChecksum cb x y = bugCheckChecksum cb x' y' ↔ x &&& y = x' &&& y' := by
  constructor
  · intro h
    have h' := congrArg (cb ^^^ ·) h
    simpa [bugCheckChecksum, ← UInt64.xor_assoc] using h'
  · intro h
    rw [bugCheckChecksum, bugCheckChecksum, h]

/-! ## Refinement -/

/-- The fields that nobody writes to are as they were registered. -/
def Keeps (reg : Registration) (r : Record) : Prop :=
  r.buffer = reg.buffer ∧ r.length = reg.length ∧
  r.checksum = bugCheckChecksum reg.record reg.callbackRoutine reg.component

/-- The code and the registrations agree. -/
structure Refines (b : Both) : Prop where
  list : b.code.list = records b.regs
  nodup : (records b.regs).Nodup
  state : ∀ cb, (b.code.record cb).state = .bufferInserted ↔ cb ∈ records b.regs
  nonzero : (0 : UInt64) ∉ records b.regs
  data : ∀ reg ∈ b.regs, Keeps reg (b.code.record reg.record)

theorem mem_records {regs : List Registration} {reg : Registration} (h : reg ∈ regs) :
    reg.record ∈ records regs :=
  List.mem_map_of_mem h

/-- A record that is not inserted is empty. -/
theorem state_empty_iff {s : BufferState} : s = .bufferEmpty ↔ s ≠ .bufferInserted := by
  cases s with
  | bufferEmpty => exact ⟨fun _ => (nofun), fun _ => rfl⟩
  | bufferInserted => exact ⟨nofun, fun h => absurd rfl h⟩

theorem refines_init (b : Both) (h : Init b) : Refines b := by
  rcases b with ⟨code, regs⟩
  rcases h with ⟨hempty, hlist, hregs⟩
  subst hregs
  refine ⟨hlist, List.nodup_nil, fun cb => ⟨fun h => ?_, fun h => ?_⟩, List.not_mem_nil,
    fun reg hreg => absurd hreg List.not_mem_nil⟩
  · have hstate : (code.record cb).state = .bufferEmpty := hempty cb
    rw [hstate] at h
    cases h
  · exact absurd h List.not_mem_nil

section Steps

variable {b : Both}

theorem perform_register_refused (h : Refines b) {reg : Registration}
    (hreg : reg.record = 0 ∨ reg.record ∈ records b.regs) :
    perform b.code (.register reg) = (false, b.code) := by
  show keRegisterBugCheckCallback _ _ _ _ _ _ = _
  unfold keRegisterBugCheckCallback
  rcases hreg with hnull | hmem
  · rw [if_pos hnull]
  · have hstate := (h.state reg.record).2 hmem
    have hnull : reg.record ≠ 0 := fun h0 => h.nonzero (h0 ▸ hmem)
    rw [if_neg hnull, if_neg (by rw [hstate]; exact nofun)]

theorem perform_deregister_refused (h : Refines b) {record : UInt64}
    (hrecord : record ∉ records b.regs) :
    perform b.code (.deregister record) = (false, b.code) := by
  show keDeregisterBugCheckCallback _ _ = _
  unfold keDeregisterBugCheckCallback
  rw [if_neg (c := (b.code.record record).state = .bufferInserted)
    (fun hstate => hrecord ((h.state record).1 hstate))]
  split
  · rfl
  · rfl

/-- A registration at the end of the list. -/
theorem refines_register (h : Refines b) {reg : Registration} (hnull : reg.record ≠ 0)
    (hnew : reg.record ∉ records b.regs) :
    Refines ⟨(perform b.code (.register reg)).2, b.regs ++ [reg]⟩ := by
  have hstate : (b.code.record reg.record).state = .bufferEmpty :=
    state_empty_iff.2 fun hins => hnew ((h.state _).1 hins)
  have hperform : perform b.code (.register reg) = (true,
      { record := Function.update b.code.record reg.record
          ⟨.bufferInserted, reg.callbackRoutine, reg.buffer, reg.length, reg.component,
            bugCheckChecksum reg.record reg.callbackRoutine reg.component⟩
        list := b.code.list ++ [reg.record] }) := by
    show keRegisterBugCheckCallback _ _ _ _ _ _ = _
    rw [keRegisterBugCheckCallback, if_neg hnull, if_pos hstate]
  have hrecords : records (b.regs ++ [reg]) = records b.regs ++ [reg.record] := List.map_append
  rw [hperform]
  constructor
  case list => rw [hrecords, ← h.list]
  case nodup =>
    rw [hrecords]
    exact List.nodup_append.2 ⟨h.nodup, List.nodup_singleton _, fun x hx y hy heq => by
      rw [List.mem_singleton.1 hy] at heq
      exact hnew (heq ▸ hx)⟩
  case state =>
    intro cb
    show (Function.update b.code.record reg.record _ cb).state = _ ↔ _
    rw [hrecords, List.mem_append, List.mem_singleton]
    by_cases hcb : cb = reg.record
    · rw [hcb, Function.update_self]
      exact ⟨fun _ => Or.inr rfl, fun _ => rfl⟩
    · rw [Function.update_of_ne hcb, h.state cb]
      exact ⟨Or.inl, fun hor => hor.resolve_right hcb⟩
  case nonzero =>
    rw [hrecords, List.mem_append, List.mem_singleton]
    rintro (hmem | heq)
    · exact h.nonzero hmem
    · exact hnull heq.symm
  case data =>
    intro reg' hreg'
    show Keeps reg' (Function.update b.code.record reg.record _ reg'.record)
    rcases List.mem_append.1 hreg' with hold | hlast
    · have hne : reg'.record ≠ reg.record := fun heq => hnew (heq ▸ mem_records hold)
      rw [Function.update_of_ne hne]
      exact h.data reg' hold
    · rw [List.mem_singleton.1 hlast, Function.update_self]
      exact ⟨rfl, rfl, rfl⟩

/-- A registration is taken back. -/
theorem refines_deregister (h : Refines b) {record : UInt64} (hmem : record ∈ records b.regs) :
    Refines ⟨(perform b.code (.deregister record)).2,
      b.regs.filter fun reg => reg.record ≠ record⟩ := by
  have hnull : record ≠ 0 := fun h0 => h.nonzero (h0 ▸ hmem)
  have hperform : perform b.code (.deregister record) = (true,
      { record := Function.update b.code.record record
          { b.code.record record with state := .bufferEmpty }
        list := b.code.list.erase record }) := by
    show keDeregisterBugCheckCallback _ _ = _
    rw [keDeregisterBugCheckCallback, if_neg hnull, if_pos ((h.state record).2 hmem)]
  have hrecords : records (b.regs.filter fun reg => reg.record ≠ record) =
      (records b.regs).erase record := by
    rw [h.nodup.erase_eq_filter, records, records, List.filter_map]
    congr 2
    funext reg
    simp [bne, beq_eq_decide]
  rw [hperform]
  constructor
  case list => rw [hrecords, ← h.list]
  case nodup =>
    rw [hrecords]
    exact h.nodup.erase record
  case state =>
    intro cb
    show (Function.update b.code.record record _ cb).state = _ ↔ _
    rw [hrecords, h.nodup.mem_erase_iff]
    by_cases hcb : cb = record
    · rw [hcb, Function.update_self]
      exact ⟨fun hins => (nomatch hins), fun hne => absurd rfl hne.1⟩
    · rw [Function.update_of_ne hcb, h.state cb]
      exact ⟨fun hin => ⟨hcb, hin⟩, fun hin => hin.2⟩
  case nonzero =>
    rw [hrecords]
    exact fun hin => h.nonzero (List.mem_of_mem_erase hin)
  case data =>
    intro reg' hreg'
    rcases List.mem_filter.1 hreg' with ⟨hold, hne⟩
    show Keeps reg' (Function.update b.code.record record _ reg'.record)
    rw [Function.update_of_ne (by simpa using hne)]
    exact h.data reg' hold

/-- The driver writes to a record. -/
theorem refines_overwrite (h : Refines b) (record callbackRoutine component : UInt64) :
    Refines ⟨overwrite record callbackRoutine component b.code, b.regs⟩ := by
  have hkeep : ∀ cb, ((overwrite record callbackRoutine component b.code).record cb).state =
      (b.code.record cb).state ∧ ∀ reg, Keeps reg (b.code.record cb) →
      Keeps reg ((overwrite record callbackRoutine component b.code).record cb) := by
    intro cb
    unfold overwrite
    by_cases hcb : cb = record
    · subst hcb
      simp only [Function.update_self]
      exact ⟨trivial, fun _ hkeeps => hkeeps⟩
    · simp only [Function.update_of_ne hcb]
      exact ⟨trivial, fun _ hkeeps => hkeeps⟩
  refine ⟨h.list, h.nodup, fun cb => ?_, h.nonzero, fun reg hreg => ?_⟩
  · show ((overwrite record callbackRoutine component b.code).record cb).state = _ ↔ _
    rw [(hkeep cb).1]
    exact h.state cb
  · exact (hkeep reg.record).2 reg (h.data reg hreg)

/-- Every event is followed by the registrations, and the calls return the same. -/
theorem refines_step (h : Refines b) (e : Event) :
    (perform b.code e).1 = (follow b.regs e).1 ∧
    Refines ⟨(perform b.code e).2, (follow b.regs e).2⟩ := by
  cases e with
  | register reg =>
    by_cases hreg : reg.record = 0 ∨ reg.record ∈ records b.regs
    · rw [perform_register_refused h hreg, follow, if_pos hreg]
      exact ⟨rfl, h⟩
    · rw [follow, if_neg hreg]
      have hnull : reg.record ≠ 0 := fun h0 => hreg (Or.inl h0)
      have hnew : reg.record ∉ records b.regs := fun hmem => hreg (Or.inr hmem)
      refine ⟨?_, refines_register h hnull hnew⟩
      have hstate := state_empty_iff.2 fun hins => hnew ((h.state reg.record).1 hins)
      show (keRegisterBugCheckCallback _ _ _ _ _ _).1 = _
      rw [keRegisterBugCheckCallback, if_neg hnull, if_pos hstate]
  | deregister record =>
    by_cases hmem : record ∈ records b.regs
    · rw [follow, if_pos hmem]
      refine ⟨?_, refines_deregister h hmem⟩
      have hnull : record ≠ 0 := fun h0 => h.nonzero (h0 ▸ hmem)
      show (keDeregisterBugCheckCallback _ _).1 = _
      rw [keDeregisterBugCheckCallback, if_neg hnull, if_pos ((h.state record).2 hmem)]
    · rw [perform_deregister_refused h hmem, follow, if_neg hmem]
      exact ⟨rfl, h⟩
  | overwrite record callbackRoutine component =>
    exact ⟨rfl, refines_overwrite h record callbackRoutine component⟩

end Steps

theorem refines_of_run {es : List Event} {b : Both} (h : Trace Init Next es b) : Refines b := by
  have hstep : ∀ b e b', Refines b → Next b e b' → Refines b' := by
    rintro b e b' hrefines rfl
    exact (refines_step hrefines e).2
  exact Trace.invariant refines_init hstep h

/-! ## What a bug check calls -/

theorem map_record_invocations (s : Callbacks) :
    (bugCheckCallbacks s).map Invocation.record = s.list.filter s.fits := by
  rw [bugCheckCallbacks, List.map_map]
  exact List.map_id _

/-- The checksum of a registered record fits exactly if the masked fields are equal. -/
theorem Refines.fits_iff {b : Both} (h : Refines b) {reg : Registration} (hreg : reg ∈ b.regs) :
    b.code.fits reg.record = true ↔ reg.callbackRoutine &&& reg.component =
      (b.code.record reg.record).callbackRoutine &&& (b.code.record reg.record).component := by
  rw [Callbacks.fits, beq_iff_eq, (h.data reg hreg).2.2, checksum_eq_iff]

/-- A registered record is called exactly if its checksum fits. -/
theorem Refines.called_iff {b : Both} (h : Refines b) {reg : Registration} (hreg : reg ∈ b.regs) :
    reg.record ∈ (bugCheckCallbacks b.code).map Invocation.record ↔
      b.code.fits reg.record = true := by
  rw [map_record_invocations, List.mem_filter, h.list]
  exact ⟨fun hin => hin.2, fun hfits => ⟨mem_records hreg, hfits⟩⟩

/-- A change of one field is noticed exactly if it shows. -/
theorem shows_iff {reg : Registration} {x y : UInt64} :
    (((x ≠ reg.callbackRoutine ∧ y = reg.component) ∨
        (x = reg.callbackRoutine ∧ y ≠ reg.component)) →
      reg.callbackRoutine &&& reg.component ≠ x &&& y) ↔ Shows reg x y := by
  have hroutine : reg.callbackRoutine &&& reg.component = x &&& reg.component ↔
      (x ^^^ reg.callbackRoutine) &&& reg.component = 0 := by
    rw [← and_eq_and_iff]
    exact eq_comm
  have hcomponent : reg.callbackRoutine &&& reg.component = reg.callbackRoutine &&& y ↔
      (y ^^^ reg.component) &&& reg.callbackRoutine = 0 := by
    rw [← and_eq_and_iff, UInt64.and_comm y, UInt64.and_comm reg.component]
    exact eq_comm
  constructor
  · intro hnot
    refine ⟨fun hx hy hzero => ?_, fun hx hy hzero => ?_⟩
    · refine hnot (Or.inl ⟨hx, hy⟩) ?_
      rw [hy]
      exact hroutine.2 hzero
    · refine hnot (Or.inr ⟨hx, hy⟩) ?_
      rw [hx]
      exact hcomponent.2 hzero
  · rintro ⟨hshow, hshow'⟩ (⟨hx, hy⟩ | ⟨hx, hy⟩) heq
    · rw [hy] at heq
      exact hshow hx hy (hroutine.1 heq)
    · rw [hx] at heq
      exact hshow' hx hy (hcomponent.1 heq)

theorem Refines.changed_iff {b : Both} (h : Refines b) {reg : Registration} (hreg : reg ∈ b.regs) :
    (OneChanged b.code reg → reg.record ∉ (bugCheckCallbacks b.code).map Invocation.record) ↔
      Shows reg (b.code.record reg.record).callbackRoutine
        (b.code.record reg.record).component := by
  rw [h.called_iff hreg, h.fits_iff hreg]
  exact shows_iff

/-- The parts that hold in any case, and the one that depends on the changes. -/
theorem Refines.right_iff {b : Both} (h : Refines b) : CallbacksRight b ↔ AllShow b := by
  constructor
  · intro hright reg hreg
    exact (h.changed_iff hreg).1 (hright.changed reg hreg)
  · intro hshow
    constructor
    case nodup => exact h.nodup
    case order =>
      rw [map_record_invocations, h.list]
      exact List.filter_sublist
    case intact =>
      rintro reg hreg ⟨hroutine, hcomponent⟩
      have hfits : b.code.fits reg.record = true := by
        rw [h.fits_iff hreg, hroutine, hcomponent]
      have hcalled : b.code.invocation reg.record ∈ bugCheckCallbacks b.code := by
        refine List.mem_map_of_mem (List.mem_filter.2 ⟨?_, hfits⟩)
        rw [h.list]
        exact mem_records hreg
      rcases h.data reg hreg with ⟨hbuffer, hlength, -⟩
      rwa [Callbacks.invocation, hroutine, hbuffer, hlength] at hcalled
    case changed => exact fun reg hreg => (h.changed_iff hreg).2 (hshow reg hreg)
    case registered => exact fun reg hmem => perform_register_refused h (Or.inr hmem)
    case unregistered => exact fun record hmem => perform_deregister_refused h hmem

/-! ## Runs -/

/-- Values that show are kept by the other events, and written by this one. -/
theorem allShow_step {b : Both} (h : Refines b) (hshow : AllShow b) {e : Event}
    (hwrites : WritesShow b e) : AllShow ⟨(perform b.code e).2, (follow b.regs e).2⟩ := by
  cases e with
  | register reg =>
    by_cases hreg : reg.record = 0 ∨ reg.record ∈ records b.regs
    · rw [perform_register_refused h hreg, follow, if_pos hreg]
      exact hshow
    · have hnull : reg.record ≠ 0 := fun h0 => hreg (Or.inl h0)
      have hnew : reg.record ∉ records b.regs := fun hmem => hreg (Or.inr hmem)
      have hstate := state_empty_iff.2 fun hins => hnew ((h.state reg.record).1 hins)
      rw [follow, if_neg hreg]
      intro reg' hreg'
      show Shows reg'
        ((keRegisterBugCheckCallback _ _ _ _ _ _).2.record reg'.record).callbackRoutine
        ((keRegisterBugCheckCallback _ _ _ _ _ _).2.record reg'.record).component
      rw [keRegisterBugCheckCallback, if_neg hnull, if_pos hstate]
      show Shows reg' (Function.update b.code.record reg.record _ reg'.record).callbackRoutine
        (Function.update b.code.record reg.record _ reg'.record).component
      rcases List.mem_append.1 hreg' with hold | hlast
      · have hne : reg'.record ≠ reg.record := fun heq => hnew (heq ▸ mem_records hold)
        rw [Function.update_of_ne hne]
        exact hshow reg' hold
      · -- just registered, and intact
        rw [List.mem_singleton.1 hlast, Function.update_self]
        exact ⟨fun hne => absurd rfl hne, fun _ hne => absurd rfl hne⟩
  | deregister record =>
    by_cases hmem : record ∈ records b.regs
    · have hnull : record ≠ 0 := fun h0 => h.nonzero (h0 ▸ hmem)
      rw [follow, if_pos hmem]
      intro reg' hreg'
      rcases List.mem_filter.1 hreg' with ⟨hold, hne⟩
      show Shows reg' ((keDeregisterBugCheckCallback _ _).2.record reg'.record).callbackRoutine
        ((keDeregisterBugCheckCallback _ _).2.record reg'.record).component
      rw [keDeregisterBugCheckCallback, if_neg hnull, if_pos ((h.state record).2 hmem)]
      show Shows reg' (Function.update b.code.record record _ reg'.record).callbackRoutine
        (Function.update b.code.record record _ reg'.record).component
      rw [Function.update_of_ne (by simpa using hne)]
      exact hshow reg' hold
    · rw [perform_deregister_refused h hmem, follow, if_neg hmem]
      exact hshow
  | overwrite record callbackRoutine component =>
    intro reg' hreg'
    show Shows reg' (Function.update b.code.record record _ reg'.record).callbackRoutine
      (Function.update b.code.record record _ reg'.record).component
    by_cases heq : reg'.record = record
    · rw [heq, Function.update_self]
      exact hwrites reg' hreg' heq
    · rw [Function.update_of_ne heq]
      exact hshow reg' hreg'

/-- **Bug check callback records.** In every run in which each value written to a
registered record shows, every state is right; and a state of any run is right exactly
if the current values of its registered records show. -/
theorem callbacks_right_iff (es : List Event) (b : Both) :
    (Trace Init (fun b e b' => Next b e b' ∧ WritesShow b e) es b → CallbacksRight b) ∧
    (Trace Init Next es b → (CallbacksRight b ↔ AllShow b)) := by
  refine ⟨fun hrun => ?_, fun hrun => (refines_of_run hrun).right_iff⟩
  have hinit : ∀ b, Init b → Refines b ∧ AllShow b := by
    intro b hinit
    refine ⟨refines_init b hinit, fun reg hreg => ?_⟩
    rw [hinit.2.2] at hreg
    exact absurd hreg List.not_mem_nil
  have hstep : ∀ b e b', Refines b ∧ AllShow b → Next b e b' ∧ WritesShow b e →
      Refines b' ∧ AllShow b' := by
    rintro b e b' ⟨hrefines, hshow⟩ ⟨rfl, hwrites⟩
    exact ⟨(refines_step hrefines e).2, allShow_step hrefines hshow hwrites⟩
  rcases Trace.invariant hinit hstep hrun with ⟨hrefines, hshow⟩
  exact hrefines.right_iff.2 hshow

/-- A registration at address `0x1000`, with a routine and a component name. -/
def driverRecord : Registration := ⟨0x1000, 0x7FF600001000, 0x2000, 16, 0x7FF600002000⟩

/-- No record is registered. -/
def noRecords : Both := ⟨⟨fun _ => ⟨.bufferEmpty, 0, 0, 0, 0, 0⟩, []⟩, []⟩

theorem init_noRecords : Init noRecords := ⟨fun _ => rfl, rfl, rfl⟩

/-- A second record, at address `0x3000`. -/
def secondRecord : Registration := ⟨0x3000, 0x7FF600004000, 0x4000, 32, 0x7FF600005000⟩

/-- A third one is registered and deregistered. The routine of the first one is changed in a
bit that its component pointer has: the second record is called. -/
theorem callbacks_right_second :
    ∃ b, Trace Init (fun b e b' => Next b e b' ∧ WritesShow b e)
        [.register driverRecord, .register secondRecord, .register ⟨0x5000, 1, 2, 3, 4⟩,
          .deregister 0x5000, .overwrite 0x1000 0x7FF600003000 0x7FF600002000] b ∧
      bugCheckCallbacks b.code = [⟨0x3000, 0x7FF600004000, 0x4000, 32⟩] ∧ CallbacksRight b := by
  have h0 : Trace Init (fun b e b' => Next b e b' ∧ WritesShow b e) [] noRecords :=
    Trace.start init_noRecords
  have h1 := h0.snoc (e := Event.register driverRecord) ⟨rfl, trivial⟩
  have h2 := h1.snoc (e := Event.register secondRecord) ⟨rfl, trivial⟩
  have h3 := h2.snoc (e := Event.register ⟨0x5000, 1, 2, 3, 4⟩) ⟨rfl, trivial⟩
  have h4 := h3.snoc (e := Event.deregister 0x5000) ⟨rfl, trivial⟩
  have h5 := h4.snoc (e := Event.overwrite 0x1000 0x7FF600003000 0x7FF600002000) ⟨rfl, ?_⟩
  · exact ⟨_, h5, by decide, (callbacks_right_iff _ _).1 h5⟩
  · intro reg hreg heq
    have hmem : reg ∈ [driverRecord, secondRecord] := hreg
    rcases List.mem_cons.1 hmem with rfl | hmem
    · exact ⟨fun _ _ => by decide, fun hsame => absurd hsame (by decide)⟩
    · rw [List.mem_singleton.1 hmem] at heq
      exact absurd heq (by decide)

/-- The routine is moved by 16 bytes, a bit that the component pointer does not have, and
the record is called all the same. -/
theorem callbacks_change_unseen :
    ¬ ∀ es b, Trace Init Next es b → CallbacksRight b := by
  intro hall
  have h0 : Trace Init Next [] noRecords := Trace.start init_noRecords
  have h1 := h0.snoc (e := Event.register driverRecord) rfl
  have h2 := h1.snoc (e := Event.overwrite 0x1000 0x7FF600001010 0x7FF600002000) rfl
  have hright := hall _ _ h2
  exact hright.changed driverRecord (by decide) (Or.inl ⟨by decide, rfl⟩) (by decide)

end Wdutf.BugCheck
