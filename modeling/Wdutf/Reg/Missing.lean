import Mathlib.Tactic.Common
import Wdutf.Reg.Delivery

/-!
# Wdutf.Reg.Missing — values that are not there, `src/registry.cpp`

An entry of a query table whose value is absent and has no default counts as success, or
fails with `STATUS_OBJECT_NAME_NOT_FOUND` if it is required. `DdkQueryValue` looks at all
bytes of `DefaultType` to see that there is no default, though a type check has its type in
the highest one; and it does not look at the flag when there is a `QueryRoutine`.

* `ddkQueryValue_absent` — the query of an absent value;
* `missing_iff` — the entry counts as it should exactly when `DefaultType` is zero, or when
  there is a `QueryRoutine` and the value is required;
* `missing_typecheck` — an absent value with a type check ends the process.
-/

namespace Wdutf.Reg

open Wdutf.Rtl Wdutf.Io Wdutf.Block

section Absent

variable {heap : Heap} {passes : ℕ} {qp : TableEntry} {caller : Caller} {target : Target}
  {calls : List RoutineCall}

/-- `RegQueryValueExW` does not find the value in the first pass. -/
theorem readLoop_absent {block : List UInt8} (hmem : heap.realloc 4096 = some block)
    (passes : ℕ) : readLoop heap (.error errorFileNotFound) (passes + 1) 0 0 =
      .ok (some ⟨errorFileNotFound, regNone, block, 4090⟩) := by
  have hgrow : growLen 0 0 = 4096 := by decide
  have hput : put Stop.outOfBounds block 0 [] = .ok block := by
    rw [put_ok (Nat.zero_le _)]
    rfl
  have hpass : readPass (.error errorFileNotFound) 4096 block =
      .ok ⟨errorFileNotFound, regNone, block, 4090⟩ := by
    show (put Stop.outOfBounds block 0 [] >>= fun buffer => _) = _
    rw [hput]
    rfl
  rw [readLoop, hgrow, hmem]
  show (readPass (.error errorFileNotFound) 4096 block >>= fun r => _) = _
  rw [hpass]
  rfl

/-- The query of an absent value. -/
theorem ddkQueryValue_absent (hmem : heap.realloc 4096 ≠ none)
    (hmode : qp.direct ≠ qp.queryRoutine) :
    ddkQueryValue heap (.error errorFileNotFound) (passes + 1) qp caller target calls =
      if qp.direct = false then .ok ⟨statusObjectNameNotFound, calls, .nothing⟩
      else if qp.defaultType = regNone then
        .ok ⟨if qp.required = true then statusObjectNameNotFound else statusSuccess, calls,
          .nothing⟩
      else replyDefault qp caller target calls := by
  cases hblock : heap.realloc 4096 with
  | none => exact absurd hblock hmem
  | some block =>
    rw [ddkQueryValue, if_neg hmode, readLoop_absent hblock]
    dsimp only
    cases hdirect : qp.direct with
    | false => rfl
    | true =>
      rw [if_neg nofun, if_neg nofun]
      have hrc : errorFileNotFound ≠ errorSuccess := by decide
      unfold valueDirect
      rw [if_neg fun h => hrc h.1, if_pos rfl]

/-- A default of type `REG_NONE` cannot be stored. -/
theorem default_none (hdefault : qp.defaultType &&& 0xff = regNone)
    (hcontext : qp.entryContext ≠ 0) : replyDefault qp caller target calls = .error .fail := by
  have hget : ddkGetDefaultValue qp = .ok (regNone, qp.defaultData, qp.defaultLength) := by
    unfold ddkGetDefaultValue
    rw [hdefault, if_pos (Or.inr (by decide))]
  have hdirect : ddkQueryDirect qp caller target regNone qp.defaultData qp.defaultLength =
      .error .fail := by
    rw [ddkQueryDirect, if_neg hcontext, if_neg (by decide), if_neg (by decide),
      if_neg (by decide)]
  rw [replyDefault, hget]
  show replyDirect qp caller target calls regNone qp.defaultData qp.defaultLength = _
  rw [replyDirect, hdirect]
  rfl

end Absent

/-! ## The loop over the table -/

/-- An entry whose value is missing counts as it should. The loop over the table that comes to
the entry fails there, or goes on behind it; the entry has stored nothing, and no routine was
called for it. -/
def CountsAsMissing (qp : TableEntry) (caller : Caller) (s : Situation) : Prop :=
  ∀ base table status key keys calls,
    deliverLoop base caller ((qp, s) :: table) status key keys calls =
      let keys' := if qp.topkey = true then closeSubkey base key keys else keys
      let key' := if qp.topkey = true then some base else key
      if qp.required = true then
        .ok (.leave statusObjectNameNotFound key' keys', calls, [.nothing])
      else behind .nothing (deliverLoop base caller table statusSuccess key' keys' calls)

section Missing

variable {qp : TableEntry} {caller : Caller} {s : Situation} {status : NtStatus}

/-- The query returns with a status and has done nothing else. -/
theorem countsAsMissing_ok (hname : qp.name ≠ none) (hsub : qp.subkey = false)
    (hstatus : status = statusObjectNameNotFound ∨ status = statusSuccess)
    (hquery : ∀ calls, queryEntryValue qp caller s calls = .ok ⟨status, calls, .nothing⟩) :
    CountsAsMissing qp caller s ↔
      status = if qp.required = true then statusObjectNameNotFound else statusSuccess := by
  constructor
  · intro h
    -- the loop with no entry behind this one
    have hrun := h .hive [] statusSuccess none ⟨0, []⟩ []
    rw [deliverLoop_value hname hsub (hquery [])] at hrun
    dsimp only at hrun
    rcases hstatus with rfl | rfl
    · cases hrequired : qp.required with
      | true => rfl
      | false =>
        rw [hrequired] at hrun
        have hexit := congrArg Prod.fst (Except.ok.inj hrun)
        injection hexit
    · cases hrequired : qp.required with
      | false => rfl
      | true =>
        rw [hrequired] at hrun
        have hexit := congrArg Prod.fst (Except.ok.inj hrun)
        injection hexit
  · intro h base table status' key keys calls
    rw [deliverLoop_value hname hsub (hquery calls)]
    dsimp only
    rw [h]
    cases qp.required with
    | true => rfl
    | false => rfl

/-- The process ends in the query. -/
theorem not_countsAsMissing {stop : Stop} (hname : qp.name ≠ none) (hsub : qp.subkey = false)
    (hquery : queryEntryValue qp caller s [] = .error stop) : ¬ CountsAsMissing qp caller s := by
  intro h
  have hrun := h .hive [] statusSuccess none ⟨0, []⟩ []
  rw [deliverLoop_stop hname hsub hquery] at hrun
  cases hrequired : qp.required with
  | true =>
    rw [hrequired] at hrun
    cases hrun
  | false =>
    rw [hrequired] at hrun
    cases hrun

end Missing

/-- The key has no value with the name of the entry. -/
def Absent (qp : TableEntry) (s : Situation) : Prop :=
  ∀ v ∈ s.values, v.name.map s.surroundings.fold ≠ (qp.name.getD []).map s.surroundings.fold

theorem Absent.found {qp : TableEntry} {s : Situation} (h : Absent qp s) :
    regQueryValueExW s.surroundings.fold s.values (qp.name.getD []) =
      .error errorFileNotFound := by
  have hlookup : Keyed.lookup (Value.key s.surroundings.fold) s.values
      ((qp.name.getD []).map s.surroundings.fold) = none := by
    unfold Keyed.lookup
    rw [List.find?_eq_none]
    intro v hv hkey
    exact h v hv (of_decide_eq_true hkey)
  rw [regQueryValueExW, hlookup]

/-- **Missing values.** An entry for a value that the key does not have and that has no default
counts as it should exactly when, in direct mode, `DefaultType` is zero in all bytes, and, with
a `QueryRoutine`, the value is required. -/
theorem missing_iff (qp : TableEntry) (s : Situation) (habsent : Absent qp s)
    (hname : qp.name ≠ none) (hsub : qp.subkey = false)
    (hdefault : qp.defaultType &&& 0xff = regNone) (hmode : qp.queryRoutine = !qp.direct)
    (hcontext : qp.direct = true → qp.entryContext ≠ 0)
    (hmem : s.surroundings.heap.realloc 4096 ≠ none) (hpasses : s.surroundings.passes ≠ 0)
    (caller : Caller) :
    CountsAsMissing qp caller s ↔
      (qp.direct = true ∧ qp.defaultType = 0) ∨ (qp.direct = false ∧ qp.required = true) := by
  have hmode' : qp.direct ≠ qp.queryRoutine := by
    rw [hmode]
    cases qp.direct <;> decide
  rcases Nat.exists_eq_succ_of_ne_zero hpasses with ⟨passes, hpasses⟩
  have hquery : ∀ calls, queryEntryValue qp caller s calls =
      if qp.direct = false then .ok ⟨statusObjectNameNotFound, calls, .nothing⟩
      else if qp.defaultType = regNone then
        .ok ⟨if qp.required = true then statusObjectNameNotFound else statusSuccess, calls,
          .nothing⟩
      else replyDefault qp caller s.target calls := by
    intro calls
    unfold queryEntryValue
    rw [habsent.found, hpasses]
    exact ddkQueryValue_absent hmem hmode'
  cases hdirect : qp.direct with
  | false =>
    -- `DdkGetRegistryStatus`, whatever the flags are
    have hreturns : ∀ calls, queryEntryValue qp caller s calls =
        .ok ⟨statusObjectNameNotFound, calls, .nothing⟩ :=
      fun calls => (hquery calls).trans (if_pos hdirect)
    rw [countsAsMissing_ok hname hsub (Or.inl rfl) hreturns]
    cases qp.required with
    | true => exact iff_of_true rfl (Or.inr ⟨rfl, rfl⟩)
    | false => exact iff_of_false (by decide) (by simp)
  | true =>
    rw [hdirect] at hquery
    by_cases htype : qp.defaultType = regNone
    · have hreturns : ∀ calls, queryEntryValue qp caller s calls =
          .ok ⟨if qp.required = true then statusObjectNameNotFound else statusSuccess, calls,
            .nothing⟩ :=
        fun calls => (hquery calls).trans (if_pos htype)
      have hstatus : (if qp.required = true then statusObjectNameNotFound else statusSuccess) =
          statusObjectNameNotFound ∨
          (if qp.required = true then statusObjectNameNotFound else statusSuccess) =
            statusSuccess := by
        cases qp.required <;> decide
      rw [countsAsMissing_ok hname hsub hstatus hreturns]
      exact iff_of_true rfl (Or.inl ⟨rfl, htype⟩)
    · -- the default has type `REG_NONE`
      have hstop : queryEntryValue qp caller s [] = .error .fail :=
        ((hquery []).trans (if_neg htype)).trans (default_none hdefault (hcontext hdirect))
      apply iff_of_false (not_countsAsMissing hname hsub hstop)
      rintro (⟨-, hzero⟩ | ⟨hfalse, -⟩)
      · exact htype hzero
      · cases hfalse

/-- A key without values, and memory. -/
def emptySituation : Situation :=
  ⟨errorSuccess, false, [], ⟨id, zeroHeap, 1, fun _ => false⟩, 1, ⟨0, 0, 0⟩⟩

/-- An entry in direct mode. -/
theorem missing_iff_direct :
    CountsAsMissing ⟨⟨false, 0x20, some [0x41]⟩, 8, 0, [], 0⟩ plainCaller emptySituation :=
  (missing_iff ⟨⟨false, 0x20, some [0x41]⟩, 8, 0, [], 0⟩ emptySituation (fun _ => nofun) nofun
    (by decide) (by decide) (by decide) (by decide) zeroHeap_ne_none (by decide) plainCaller).2
    (Or.inl (by decide))

/-- A `REG_DWORD` is expected, is not there and is not required: `ddkfail`. And a value that is
not there and not required, with a `QueryRoutine`, fails. -/
theorem missing_typecheck :
    (queryEntryValue ⟨⟨false, 0x120, some [0x41]⟩, 8, 0x04000000, [], 0⟩ plainCaller
        emptySituation [] = .error .fail ∧
      ¬ CountsAsMissing ⟨⟨false, 0x120, some [0x41]⟩, 8, 0x04000000, [], 0⟩ plainCaller
        emptySituation) ∧
    (queryEntryValue ⟨⟨true, 0, some [0x41]⟩, 8, 0, [], 0⟩ plainCaller emptySituation [] =
        .ok ⟨statusObjectNameNotFound, [], .nothing⟩ ∧
      ¬ CountsAsMissing ⟨⟨true, 0, some [0x41]⟩, 8, 0, [], 0⟩ plainCaller emptySituation) := by
  have hdirect : queryEntryValue ⟨⟨false, 0x120, some [0x41]⟩, 8, 0x04000000, [], 0⟩ plainCaller
      emptySituation [] = .error .fail :=
    (ddkQueryValue_absent zeroHeap_ne_none (by decide)).trans rfl
  have hroutine : ∀ calls, queryEntryValue ⟨⟨true, 0, some [0x41]⟩, 8, 0, [], 0⟩ plainCaller
      emptySituation calls = .ok ⟨statusObjectNameNotFound, calls, .nothing⟩ :=
    fun _ => (ddkQueryValue_absent zeroHeap_ne_none (by decide)).trans rfl
  refine ⟨⟨hdirect, not_countsAsMissing nofun (by decide) hdirect⟩, hroutine [], ?_⟩
  rw [countsAsMissing_ok (Option.some_ne_none _) (by decide) (Or.inl rfl) hroutine]
  decide

end Wdutf.Reg
