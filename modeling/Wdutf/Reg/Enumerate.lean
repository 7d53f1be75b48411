import Mathlib.Data.List.Nodup
import Mathlib.Tactic.Common
import Wdutf.Lib.Each
import Wdutf.Reg.Table

/-!
# Wdutf.Reg.Enumerate — all values of a key, `src/registry.cpp`

`DdkQueryEnumerateValues` takes the values of a key by their index, and may delete a value
as soon as it has been processed. Then the index is taken back by one, at the first value
from 0 to 2³² - 1.

* `Passed` — the values before the index are the processed ones that are left, and the
  values from there on are those to come;
* `enumerateLoop_eq` — so every value is processed once, in order, up to a failure;
* `enumerate_values` — the result, and the values that are left.
-/

namespace Wdutf.Reg

open Wdutf.Rtl Wdutf.Io Wdutf.Each

/-! ## Model -/

/-- `RegDeleteKeyValueW` when it is successful. -/
def regDeleteKeyValueW (fold : Wchar → Wchar) (values : List Value) (name : List Wchar) :
    List Value :=
  Keyed.unlink (Value.key fold) values (name.map fold)

/-- What the routine meets: how names are compared, the memory, the number of passes for a
value, and the names whose deletion fails. -/
structure Surroundings where
  fold : Wchar → Wchar
  heap : Heap
  passes : ℕ
  undeletable : List Wchar → Bool

/-- `DdkQueryValue` for a value of the enumeration, found under its name. -/
def queryNamed (w : Surroundings) (qp : TableEntry) (caller : Caller) (target : Target)
    (found : Except LStatus Value) (name : List Wchar) (calls : List RoutineCall) :
    Except Stop (NtStatus × List RoutineCall) :=
  (ddkQueryValue w.heap found w.passes { qp with name := some name } caller target calls).map
    fun reply => (reply.status, reply.calls)

/-- What the loop returns: its status, `count`, the values of the key and the calls of the
routine. -/
structure Enumerated where
  status : NtStatus
  count : UInt32
  values : List Value
  calls : List RoutineCall
deriving DecidableEq, Repr

/-- The value has been processed, and it is deleted: `RegDeleteKeyValueW` was called and did not
fail. -/
def deletes (w : Surroundings) (qp : TableEntry) (status : NtStatus) (name : List Wchar) : Bool :=
  ntSuccess status && qp.delete && !w.undeletable name

/-- The loop of `DdkQueryEnumerateValues`, for a number of turns. -/
def enumerateLoop (w : Surroundings) (qp : TableEntry) (caller : Caller) (target : Target) :
    ℕ → UInt32 → UInt32 → List Value → NtStatus → List RoutineCall → Except Stop Enumerated
  | 0, _, _, _, _, _ => .error .running
  | turns + 1, index, count, values, status, calls =>
    match regEnumValueW values index with
    | .error rc =>
      .ok ⟨if rc ≠ errorNoMoreItems then ddkGetRegistryStatus rc else status, count, values, calls⟩
    | .ok v =>
      match queryNamed w qp caller target (regQueryValueExW w.fold values v.name) v.name calls with
      | .error stop => .error stop
      | .ok (status, calls) =>
        let deleted := deletes w qp status v.name
        let values := if deleted = true then regDeleteKeyValueW w.fold values v.name else values
        let index := if deleted = true then index - 1 else index
        if ntSuccess status = true then
          enumerateLoop w qp caller target turns (index + 1) (count + 1) values status calls
        else .ok ⟨status, count + 1, values, calls⟩

/-- `DdkQueryEnumerateValues`, for an entry with a `QueryRoutine`: the status, the values of the
key and the calls. -/
def ddkQueryEnumerateValues (w : Surroundings) (turns : ℕ) (values : List Value) (qp : TableEntry)
    (caller : Caller) (target : Target) (calls : List RoutineCall) :
    Except Stop (NtStatus × List Value × List RoutineCall) :=
  (enumerateLoop w qp caller target turns 0 0 values statusSuccess calls).map fun r =>
    (if qp.required = true ∧ r.count = 0 then statusObjectNameNotFound else r.status,
      r.values, r.calls)

/-! ## What is processed, and what is left -/

section Run

variable (w : Surroundings) (qp : TableEntry) (caller : Caller) (target : Target)

/-- The processing of a value that is found under its name. -/
def processValue (v : Value) (calls : List RoutineCall) :
    Except Stop (NtStatus × List RoutineCall) :=
  queryNamed w qp caller target (.ok v) v.name calls

/-- The values that were processed successfully, when the last status is `status`. -/
def succeeded (processed : List Value) (status : NtStatus) : List Value :=
  if ntSuccess status = true then processed else processed.dropLast

/-- The values that are left: all but those that were processed successfully, to be deleted, and
whose deletion did not fail. -/
def valuesLeft (values done : List Value) : List Value :=
  values.filter fun v => !(qp.delete && !w.undeletable v.name && decide (v ∈ done))

variable {w qp caller target} {kept todo done values : List Value} {v : Value}
  {status : NtStatus} {calls : List RoutineCall}

theorem succeeded_cons (h : ntSuccess status = false → done ≠ []) :
    succeeded (v :: done) status = v :: succeeded done status := by
  unfold succeeded
  cases hstatus : ntSuccess status with
  | true => rfl
  | false => exact List.dropLast_cons_of_ne_nil (h hstatus)

/-- A value that is among the others not again. -/
theorem valuesLeft_cons (h : (v :: todo).Nodup) (done : List Value) :
    valuesLeft w qp (v :: todo) (v :: done) =
      (if (qp.delete && !w.undeletable v.name) = true then [] else [v]) ++
        valuesLeft w qp todo done := by
  have hne : ∀ x ∈ todo, x ≠ v := fun x hx heq => (List.nodup_cons.1 h).1 (heq ▸ hx)
  have htail : valuesLeft w qp todo (v :: done) = valuesLeft w qp todo done := by
    apply List.filter_congr
    intro x hx
    simp [hne x hx]
  show List.filter _ (v :: todo) = _
  rw [List.filter_cons, ← htail]
  cases qp.delete && !w.undeletable v.name <;> simp [valuesLeft]

theorem valuesLeft_nil (values : List Value) : valuesLeft w qp values [] = values := by
  simp [valuesLeft]

/-! ## The loop -/

/-- Where the loop stands: before the index are the processed values that are left, and from it
on those to come. Names are different, and can be enumerated. -/
structure Passed (w : Surroundings) (index : UInt32) (kept todo : List Value) : Prop where
  index : index.toNat = kept.length
  names : ((kept ++ todo).map (Value.key w.fold)).Nodup
  lengths : ∀ v ∈ todo, v.name.length < 1024
  count : (kept ++ todo).length < 2 ^ 32

theorem Passed.finished {index : UInt32} (h : Passed w index kept []) :
    regEnumValueW (kept ++ []) index = .error errorNoMoreItems := by
  rw [regEnumValueW, List.append_nil, List.getElem?_eq_none (Nat.le_of_eq h.index.symm)]

/-- `RegEnumValueW` returns the next value to come. -/
theorem Passed.enumerated {index : UInt32} (h : Passed w index kept (v :: todo)) :
    regEnumValueW (kept ++ v :: todo) index = .ok v := by
  have hnext : (kept ++ v :: todo)[index.toNat]? = some v := by
    rw [h.index, List.getElem?_append_right (Nat.le_refl _), Nat.sub_self]
    rfl
  rw [regEnumValueW, hnext]
  exact if_pos (h.lengths v List.mem_cons_self)

/-- It is found under its name. -/
theorem Passed.found {index : UInt32} (h : Passed w index kept (v :: todo)) :
    regQueryValueExW w.fold (kept ++ v :: todo) v.name = .ok v := by
  have hlookup : Keyed.lookup (Value.key w.fold) (kept ++ v :: todo) (v.name.map w.fold) =
      some v := Keyed.lookup_middle h.names
  rw [regQueryValueExW, hlookup]

/-- It is deleted, and the index stays. -/
theorem Passed.deleted {index : UInt32} (h : Passed w index kept (v :: todo)) :
    regDeleteKeyValueW w.fold (kept ++ v :: todo) v.name = kept ++ todo ∧
      Passed w (index - 1 + 1) kept todo := by
  refine ⟨Keyed.unlink_middle h.names, ?_⟩
  have hsublist : (kept ++ todo).Sublist (kept ++ v :: todo) :=
    (List.sublist_cons_self v todo).append_left kept
  rw [UInt32.sub_add_cancel]
  constructor
  case index => exact h.index
  case names => exact h.names.sublist (hsublist.map _)
  case lengths => exact fun x hx => h.lengths x (List.mem_cons_of_mem _ hx)
  case count => exact Nat.lt_of_le_of_lt hsublist.length_le h.count

/-- It stays, and the index moves on. -/
theorem Passed.skipped {index : UInt32} (h : Passed w index kept (v :: todo)) :
    Passed w (index + 1) (kept ++ [v]) todo := by
  have hcount := h.count
  have hsplit : kept ++ [v] ++ todo = kept ++ v :: todo := List.append_assoc _ _ _
  constructor
  case index =>
    rw [List.length_append, List.length_cons] at hcount
    rw [UInt32.toNat_add, h.index, List.length_append]
    show (kept.length + 1) % 2 ^ 32 = kept.length + 1
    exact Nat.mod_eq_of_lt (by omega)
  case names =>
    rw [hsplit]
    exact h.names
  case lengths => exact fun x hx => h.lengths x (List.mem_cons_of_mem _ hx)
  case count =>
    rw [hsplit]
    exact hcount

/-- The result of the loop, from that of going through the values in order. -/
def enumeratedOf (w : Surroundings) (qp : TableEntry) (kept todo : List Value) (count : UInt32)
    (r : List Value × NtStatus × List RoutineCall) : Enumerated :=
  ⟨r.2.1, count + UInt32.ofNat r.1.length,
    kept ++ valuesLeft w qp todo (succeeded r.1 r.2.1), r.2.2⟩

/-- A turn that processes a value. -/
theorem enumerateLoop_turn {index : UInt32} {status' : NtStatus} {calls' : List RoutineCall}
    (h : Passed w index kept (v :: todo)) (turns : ℕ) (count : UInt32) (status : NtStatus)
    (hprocess : processValue w qp caller target v calls = .ok (status', calls')) :
    ∃ index' kept', Passed w index' kept' todo ∧
      kept' = kept ++ (if deletes w qp status' v.name = true then [] else [v]) ∧
      enumerateLoop w qp caller target (turns + 1) index count (kept ++ v :: todo) status calls =
        if ntSuccess status' = true then
          enumerateLoop w qp caller target turns index' (count + 1) (kept' ++ todo) status' calls'
        else .ok ⟨status', count + 1, kept' ++ todo, calls'⟩ := by
  unfold processValue at hprocess
  rw [enumerateLoop, h.enumerated]
  dsimp only
  rw [h.found, hprocess]
  dsimp only
  cases hdeletes : deletes w qp status' v.name with
  | true =>
    rcases h.deleted with ⟨hvalues, hpassed⟩
    refine ⟨_, _, hpassed, (List.append_nil kept).symm, ?_⟩
    rw [if_pos rfl, if_pos rfl, hvalues]
  | false =>
    have hsplit : kept ++ [v] ++ todo = kept ++ v :: todo := List.append_assoc _ _ _
    refine ⟨_, _, h.skipped, rfl, ?_⟩
    rw [if_neg Bool.false_ne_true, if_neg Bool.false_ne_true, hsplit]

/-- The process ends within a value. -/
theorem enumerateLoop_error {index : UInt32} {stop : Stop} (h : Passed w index kept (v :: todo))
    (turns : ℕ) (count : UInt32) (status : NtStatus)
    (hprocess : processValue w qp caller target v calls = .error stop) :
    enumerateLoop w qp caller target (turns + 1) index count (kept ++ v :: todo) status calls =
      .error stop := by
  unfold processValue at hprocess
  rw [enumerateLoop, h.enumerated]
  dsimp only
  rw [h.found, hprocess]

/-- A value is processed successfully before the others. -/
theorem enumeratedOf_good {status' status'' : NtStatus} {calls'' : List RoutineCall}
    (hnodup : (v :: todo).Nodup) (hgood : ntSuccess status' = true)
    (hdone : ntSuccess status'' = false → done ≠ []) (count : UInt32) :
    enumeratedOf w qp (kept ++ (if deletes w qp status' v.name = true then [] else [v])) todo
        (count + 1) (done, status'', calls'') =
      enumeratedOf w qp kept (v :: todo) count (v :: done, status'', calls'') := by
  have hcount : count + 1 + UInt32.ofNat done.length =
      count + UInt32.ofNat (done.length + 1) := by
    rw [UInt32.ofNat_add, UInt32.add_assoc, UInt32.add_comm 1]
    rfl
  have hdeletes : deletes w qp status' v.name = (qp.delete && !w.undeletable v.name) := by
    rw [deletes, hgood, Bool.true_and]
  unfold enumeratedOf
  dsimp only
  rw [succeeded_cons hdone, valuesLeft_cons hnodup, hcount, hdeletes, List.append_assoc,
    List.length_cons]

/-- The processing of a value fails: it stays, with all others. -/
theorem enumeratedOf_bad {status' : NtStatus} {calls' : List RoutineCall}
    (hbad : ntSuccess status' = false) (count : UInt32) :
    ⟨status', count + 1,
        kept ++ (if deletes w qp status' v.name = true then [] else [v]) ++ todo, calls'⟩ =
      enumeratedOf w qp kept (v :: todo) count ([v], status', calls') := by
  have hdeletes : deletes w qp status' v.name = false := by
    rw [deletes, hbad, Bool.false_and, Bool.false_and]
  have hsucceeded : succeeded [v] status' = [] := by
    rw [succeeded, hbad]
    rfl
  unfold enumeratedOf
  dsimp only
  rw [hsucceeded, valuesLeft_nil, hdeletes, if_neg Bool.false_ne_true, List.append_assoc]
  rfl

/-- The loop goes through the values in order. It ends, whatever is deleted. -/
theorem enumerateLoop_eq {index count : UInt32} {turns : ℕ} (h : Passed w index kept todo)
    (hturns : todo.length < turns) (hstatus : ntSuccess status = true) :
    enumerateLoop w qp caller target turns index count (kept ++ todo) status calls =
      (each ntSuccess (processValue w qp caller target) todo status calls).map
        (enumeratedOf w qp kept todo count) := by
  induction todo generalizing kept index count status calls turns with
  | nil =>
    cases turns with
    | zero => exact absurd hturns (Nat.not_lt_zero _)
    | succ turns =>
      rw [enumerateLoop, h.finished]
      dsimp only
      rw [if_neg (not_not.2 rfl)]
      show _ = Except.ok (enumeratedOf w qp kept [] count ([], status, calls))
      have hcount : count + UInt32.ofNat 0 = count := UInt32.add_zero count
      rw [enumeratedOf]
      dsimp only [List.length_nil]
      rw [hcount]
      rfl
  | cons v todo ih =>
    have hnodup : (v :: todo).Nodup :=
      (List.nodup_append.1 (List.Nodup.of_map _ h.names)).2.1
    cases turns with
    | zero => exact absurd hturns (Nat.not_lt_zero _)
    | succ turns =>
      cases hprocess : processValue w qp caller target v calls with
      | error stop =>
        rw [each_error hprocess, enumerateLoop_error h turns count status hprocess]
        rfl
      | ok r =>
        rcases r with ⟨status', calls'⟩
        rcases enumerateLoop_turn h turns count status hprocess with
          ⟨index', kept', hpassed, rfl, hturn⟩
        rw [hturn]
        cases hstatus' : ntSuccess status' with
        | true =>
          -- the loop goes on with the other values
          rw [if_pos rfl, each_good hprocess hstatus',
            ih hpassed (Nat.lt_of_succ_lt_succ hturns) hstatus']
          cases hrest : each ntSuccess (processValue w qp caller target) todo status' calls' with
          | error stop => rfl
          | ok r =>
            rcases r with ⟨done, status'', calls''⟩
            exact congrArg Except.ok
              (enumeratedOf_good hnodup hstatus' (each_ne_nil hrest hstatus') count)
        | false =>
          rw [if_neg Bool.false_ne_true, each_bad hprocess hstatus']
          exact congrArg Except.ok (enumeratedOf_bad hstatus' count)

end Run

/-- **Enumeration of values.** The values are processed in order, each once, up to the first
failure, which is the result; those that were processed successfully, were to be deleted and
could be are gone, and the others are there. Without a value, the result is
`STATUS_OBJECT_NAME_NOT_FOUND` for a required entry. As many turns as there are values, and one
more, are enough. -/
theorem enumerate_values (w : Surroundings) (values : List Value)
    (hnames : (values.map (Value.key w.fold)).Nodup)
    (hlengths : ∀ v ∈ values, v.name.length ≤ 1023) (hcount : values.length < 2 ^ 32)
    (turns : ℕ) (hturns : values.length < turns) (qp : TableEntry) (caller : Caller)
    (target : Target) (calls : List RoutineCall) :
    ddkQueryEnumerateValues w turns values qp caller target calls =
      (each ntSuccess (processValue w qp caller target) values statusSuccess calls).map fun r =>
        (if qp.required = true ∧ values = [] then statusObjectNameNotFound else r.2.1,
          valuesLeft w qp values (succeeded r.1 r.2.1), r.2.2) := by
  have hpassed : Passed w 0 [] values :=
    ⟨rfl, hnames, fun v hv => Nat.lt_succ_of_le (hlengths v hv), hcount⟩
  unfold ddkQueryEnumerateValues
  have hloop : enumerateLoop w qp caller target turns 0 0 values statusSuccess calls =
      (each ntSuccess (processValue w qp caller target) values statusSuccess calls).map
        (enumeratedOf w qp [] values 0) :=
    enumerateLoop_eq hpassed hturns (by decide)
  rw [hloop]
  cases hrun : each ntSuccess (processValue w qp caller target) values statusSuccess calls with
  | error stop => rfl
  | ok r =>
    rcases r with ⟨done, status, calls'⟩
    have hlength := (prefix_of_each hrun).length_le
    have hnil : 0 + UInt32.ofNat done.length = 0 ↔ values = [] := by
      rw [UInt32.zero_add, ← each_eq_nil_iff hrun, ← List.length_eq_zero_iff,
        ← UInt32.toNat_inj, UInt32.toNat_ofNat', Nat.mod_eq_of_lt (by omega)]
      rfl
    show Except.ok _ = Except.ok _
    unfold enumeratedOf
    dsimp only
    simp only [hnil, List.nil_append]

/-- A key with two values. -/
def twoValues : List Value :=
  [⟨[0x61], regDword, [3, 0, 0, 0], by decide⟩, ⟨[0x62], regDword, [4, 0, 0, 0], by decide⟩]

/-- An entry for all values, with `RTL_QUERY_REGISTRY_DELETE`. -/
def deleteEntry : TableEntry := ⟨⟨true, 0x40, none⟩, 8, 0, [], 0⟩

/-- Memory, and values that can all be deleted. -/
def plainSurroundings : Surroundings := ⟨id, zeroHeap, 1, fun _ => false⟩

theorem enumerate_values_two :
    ddkQueryEnumerateValues plainSurroundings 3 twoValues deleteEntry plainCaller ⟨0, 0, 0⟩ [] =
      (each ntSuccess (processValue plainSurroundings deleteEntry plainCaller ⟨0, 0, 0⟩) twoValues
          statusSuccess []).map fun r =>
        (if deleteEntry.required = true ∧ twoValues = [] then statusObjectNameNotFound else r.2.1,
          valuesLeft plainSurroundings deleteEntry twoValues (succeeded r.1 r.2.1), r.2.2) :=
  enumerate_values plainSurroundings twoValues (by decide) (by decide) (by decide) 3 (by decide)
    deleteEntry plainCaller ⟨0, 0, 0⟩ []

end Wdutf.Reg
