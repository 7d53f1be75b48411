import Mathlib.Tactic.Common
import Wdutf.Reg.Enumerate

/-!
# Wdutf.Reg.Delivery — `RtlQueryRegistryValues` with its deliveries, `src/registry.cpp`

The loop over the query table with the calls of the routines and what is stored, over the
loop that opens and closes keys.

* `deliver_refines` — a call with its deliveries is one over the same table, with the
  outcomes of its queries;
* `deliver_congr` — an entry can be replaced by another that has the same key and is
  queried with the same result.
-/

namespace Wdutf.Reg

open Wdutf.Rtl Wdutf.Io Wdutf.Block

/-! ## Model -/

/-- What an entry of the table meets: the status of `RegOpenKeyW` and whether it sets the key to
NULL when it fails, the values of the key that is queried, the memory and the number of passes and
turns, and what `EntryContext` points to. -/
structure Situation where
  rc : LStatus
  nulled : Bool
  values : List Value
  surroundings : Surroundings
  turns : ℕ
  target : Target

/-- An end of an iteration with the calls so far and what it has stored. -/
structure Delivered where
  exit : Exit
  calls : List RoutineCall
  stored : Output

/-- `DdkQueryValue` for an entry with a name. -/
def queryEntryValue (qp : TableEntry) (caller : Caller) (s : Situation)
    (calls : List RoutineCall) : Except Stop QueryReply :=
  ddkQueryValue s.surroundings.heap
    (regQueryValueExW s.surroundings.fold s.values (qp.name.getD [])) s.surroundings.passes qp
    caller s.target calls

/-- The call of the routine for an entry with `RTL_QUERY_REGISTRY_NOVALUE`. -/
def noValueCall (qp : TableEntry) (caller : Caller) : RoutineCall :=
  ⟨qp.name, regNone, [], 0, caller.context, qp.entryContext⟩

/-- The second half of an iteration: the query itself. -/
def deliverEntry (qp : TableEntry) (caller : Caller) (s : Situation) (status : NtStatus)
    (key : Option Hkey) (keys : Keys) (calls : List RoutineCall) : Except Stop Delivered :=
  if qp.name = none ∨ qp.subkey = true then
    if qp.queryRoutine = false then .ok ⟨.leave status key keys, calls, .nothing⟩
    else if qp.direct = true then
      .ok ⟨.returned statusInvalidParameter key keys, calls, .nothing⟩
    else if qp.novalue = true then
      .ok ⟨.next (caller.queryRoutine calls (noValueCall qp caller)) key keys,
        calls ++ [noValueCall qp caller], .nothing⟩
    else
      (ddkQueryEnumerateValues s.surroundings s.turns s.values qp caller s.target calls).map
        fun r => ⟨.next r.1 key keys, r.2.2, .nothing⟩
  else
    (queryEntryValue qp caller s calls).map fun reply =>
      ⟨.next reply.status key keys, reply.calls, reply.stored⟩

/-- An iteration of the loop. -/
def deliverStep (base : Hkey) (qp : TableEntry) (caller : Caller) (s : Situation)
    (status : NtStatus) (key : Option Hkey) (keys : Keys) (calls : List RoutineCall) :
    Except Stop Delivered :=
  let keys := if qp.subkey = true ∨ qp.topkey = true then closeSubkey base key keys else keys
  let key := if qp.subkey = true ∨ qp.topkey = true then some base else key
  if qp.subkey = true then
    match qp.name with
    | none => .ok ⟨.leave statusInvalidParameter key keys, calls, .nothing⟩
    | some name =>
      if s.rc ≠ errorSuccess then
        .ok ⟨.leave (ddkGetRegistryStatus s.rc) (if s.nulled then none else key) keys, calls,
          .nothing⟩
      else
        let opened := regOpenKeyW keys base name
        if qp.queryRoutine = false then
          .ok ⟨.next status (some opened.1) opened.2, calls, .nothing⟩
        else deliverEntry qp caller s status (some opened.1) opened.2 calls
  else deliverEntry qp caller s status key keys calls

/-- The loop over the table: its end, the calls of the routines, and what each entry that was
reached has stored. -/
def deliverLoop (base : Hkey) (caller : Caller) : List (TableEntry × Situation) → NtStatus →
    Option Hkey → Keys → List RoutineCall → Except Stop (Exit × List RoutineCall × List Output)
  | [], status, key, keys, calls => .ok (.leave status key keys, calls, [])
  | (qp, s) :: table, status, key, keys, calls =>
    match deliverStep base qp caller s status key keys calls with
    | .error stop => .error stop
    | .ok ⟨.next status key keys, calls, stored⟩ =>
      if ntSuccess status = true then
        (deliverLoop base caller table status key keys calls).map fun r =>
          (r.1, r.2.1, stored :: r.2.2)
      else .ok (.leave status key keys, calls, [stored])
    | .ok ⟨exit, calls, stored⟩ => .ok (exit, calls, [stored])

/-- The keys that are closed at the end. -/
def closeAll (relativeTo : UInt32) (base : Hkey) : Exit → NtStatus × Keys
  | .returned status _ keys => (status, keys)
  | .next status key keys | .leave status key keys =>
    let keys := closeSubkey base key keys
    (status, if isHandle relativeTo = false ∧ base ≠ .hive then keys.regCloseKey base else keys)

/-- `RtlQueryRegistryValues`: the status and the keys, the calls of the routines and what is
stored. `r.table` is not used. -/
def deliverRegistryValues (r : Request) (table : List (TableEntry × Situation)) (caller : Caller)
    (keys : Keys) : Option (Except Stop ((NtStatus × Keys) × List RoutineCall × List Output)) :=
  match ddkGetRegistryKey r keys with
  | none => none
  | some (status, base, keys) =>
    if ntSuccess status = false then some (.ok ((status, keys), [], []))
    else match base with
      | none => some (.ok ((status, keys), [], []))
      | some base =>
        some ((deliverLoop base caller table status (some base) keys []).map fun result =>
          (closeAll r.relativeTo base result.1, result.2))

/-- What the loop returns when it goes on behind an entry that has stored something. -/
def behind (stored : Output)
    (r : Except Stop (Exit × List RoutineCall × List Output)) :
    Except Stop (Exit × List RoutineCall × List Output) :=
  r.map fun r => (r.1, r.2.1, stored :: r.2.2)

/-- The loop comes to an entry for a value, and its query returns. -/
theorem deliverLoop_value {base : Hkey} {caller : Caller} {qp : TableEntry} {s : Situation}
    {table : List (TableEntry × Situation)} {status : NtStatus} {key : Option Hkey} {keys : Keys}
    {calls : List RoutineCall} {reply : QueryReply} (hname : qp.name ≠ none)
    (hsub : qp.subkey = false) (hreply : queryEntryValue qp caller s calls = .ok reply) :
    deliverLoop base caller ((qp, s) :: table) status key keys calls =
      let keys' := if qp.topkey = true then closeSubkey base key keys else keys
      let key' := if qp.topkey = true then some base else key
      if ntSuccess reply.status = true then
        behind reply.stored
          (deliverLoop base caller table reply.status key' keys' reply.calls)
      else .ok (.leave reply.status key' keys', reply.calls, [reply.stored]) := by
  have hentry : ¬ (qp.name = none ∨ qp.subkey = true) := by simp [hname, hsub]
  rw [deliverLoop, deliverStep]
  simp only [hsub, Bool.false_eq_true, false_or, if_false]
  unfold deliverEntry
  rw [if_neg hentry, hreply]
  rfl

/-- A query that does not return ends the loop. -/
theorem deliverLoop_stop {base : Hkey} {caller : Caller} {qp : TableEntry} {s : Situation}
    {table : List (TableEntry × Situation)} {status : NtStatus} {key : Option Hkey} {keys : Keys}
    {calls : List RoutineCall} {stop : Stop} (hname : qp.name ≠ none)
    (hsub : qp.subkey = false) (hstop : queryEntryValue qp caller s calls = .error stop) :
    deliverLoop base caller ((qp, s) :: table) status key keys calls = .error stop := by
  have hentry : ¬ (qp.name = none ∨ qp.subkey = true) := by simp [hname, hsub]
  rw [deliverLoop, deliverStep]
  simp only [hsub, Bool.false_eq_true, false_or, if_false]
  unfold deliverEntry
  rw [if_neg hentry, hstop]
  rfl

/-! ## Refinement -/

section Refinement

variable {base : Hkey} {qp qp' : TableEntry} {caller : Caller} {s : Situation} {status : NtStatus}
  {key : Option Hkey} {keys : Keys} {calls calls' : List RoutineCall} {d : Delivered}
  {table : List (TableEntry × Situation)} {exit : Exit} {stored : List Output}

/-- The query of an entry has a status. -/
theorem deliverEntry_refines (h : deliverEntry qp caller s status key keys calls = .ok d) :
    ∃ o, ∀ rc nulled, queryEntry qp.toEntry ⟨rc, nulled, o, o, o⟩ status key keys = d.exit := by
  unfold deliverEntry at h
  unfold queryEntry
  by_cases hall : qp.name = none ∨ qp.subkey = true
  · rw [if_pos hall] at h
    by_cases hroutine : qp.queryRoutine = false
    · rw [if_pos hroutine] at h
      cases h
      refine ⟨status, fun rc nulled => ?_⟩
      rw [if_pos hall, if_pos hroutine]
    rw [if_neg hroutine] at h
    by_cases hdirect : qp.direct = true
    · rw [if_pos hdirect] at h
      cases h
      refine ⟨status, fun rc nulled => ?_⟩
      rw [if_pos hall, if_neg hroutine, if_pos hdirect]
    rw [if_neg hdirect] at h
    by_cases hnovalue : qp.novalue = true
    · rw [if_pos hnovalue] at h
      cases h
      refine ⟨caller.queryRoutine calls (noValueCall qp caller), fun rc nulled => ?_⟩
      rw [if_pos hall, if_neg hroutine, if_neg hdirect, if_pos hnovalue]
    · rw [if_neg hnovalue] at h
      rcases map_inv h with ⟨r, -, rfl⟩
      refine ⟨r.1, fun rc nulled => ?_⟩
      rw [if_pos hall, if_neg hroutine, if_neg hdirect, if_neg hnovalue]
  · rw [if_neg hall] at h
    rcases map_inv h with ⟨reply, -, rfl⟩
    refine ⟨reply.status, fun rc nulled => ?_⟩
    rw [if_neg hall]

/-- An iteration that delivers is one with the outcome of its query. -/
theorem deliverStep_refines (h : deliverStep base qp caller s status key keys calls = .ok d) :
    ∃ o, queryStep base qp.toEntry o status key keys = d.exit := by
  unfold deliverStep at h
  unfold queryStep
  dsimp only at h ⊢
  by_cases hsub : qp.subkey = true
  · simp only [if_pos hsub] at h ⊢
    cases hname : qp.name with
    | none =>
      rw [hname] at h
      cases h
      exact ⟨⟨0, false, 0, 0, 0⟩, rfl⟩
    | some name =>
      rw [hname] at h
      dsimp only at h ⊢
      by_cases hrc : s.rc = errorSuccess
      · rw [if_neg (not_not.2 hrc)] at h
        by_cases hroutine : qp.queryRoutine = false
        · rw [if_pos hroutine] at h
          cases h
          refine ⟨⟨s.rc, s.nulled, 0, 0, 0⟩, ?_⟩
          rw [if_neg (not_not.2 hrc), if_pos hroutine]
        · rw [if_neg hroutine] at h
          rcases deliverEntry_refines h with ⟨o, ho⟩
          refine ⟨⟨s.rc, s.nulled, o, o, o⟩, ?_⟩
          rw [if_neg (not_not.2 hrc), if_neg hroutine]
          exact ho _ _
      · rw [if_pos hrc] at h
        cases h
        refine ⟨⟨s.rc, s.nulled, 0, 0, 0⟩, ?_⟩
        rw [if_pos hrc]
  · simp only [if_neg hsub] at h ⊢
    rcases deliverEntry_refines h with ⟨o, ho⟩
    exact ⟨⟨s.rc, s.nulled, o, o, o⟩, ho _ _⟩

/-- The entries of a table, with outcomes. -/
def SameEntries (table' : List (Entry × Outcome)) (table : List (TableEntry × Situation)) : Prop :=
  table'.map Prod.fst = table.map fun p => p.1.toEntry

/-- Entries that are not reached have any outcomes. -/
theorem exists_entries (table : List (TableEntry × Situation)) :
    ∃ table', SameEntries table' table := by
  refine ⟨table.map fun p => (p.1.toEntry, ⟨0, false, 0, 0, 0⟩), ?_⟩
  unfold SameEntries
  rw [List.map_map]
  rfl

/-- **The loop that delivers refines the loop that opens keys.** -/
theorem deliverLoop_refines
    (h : deliverLoop base caller table status key keys calls = .ok (exit, calls', stored)) :
    ∃ table', SameEntries table' table ∧ queryLoop base table' status key keys = exit := by
  induction table generalizing status key keys calls exit calls' stored with
  | nil =>
    cases h
    exact ⟨[], rfl, rfl⟩
  | cons p table ih =>
    rcases p with ⟨qp, s⟩
    rw [deliverLoop] at h
    cases hstep : deliverStep base qp caller s status key keys calls with
    | error stop =>
      rw [hstep] at h
      cases h
    | ok d =>
      rcases deliverStep_refines hstep with ⟨o, ho⟩
      rw [hstep] at h
      rcases d with ⟨exit₁, calls₁, stored₁⟩
      dsimp only at ho
      cases exit₁ with
      | next status₁ key₁ keys₁ =>
        dsimp only at h
        cases hsuccess : ntSuccess status₁ with
        | true =>
          rw [if_pos hsuccess] at h
          rcases map_inv h with ⟨r, hrest, hr⟩
          cases hr
          rcases ih hrest with ⟨table', hentries, hloop⟩
          refine ⟨(qp.toEntry, o) :: table', congrArg (List.cons qp.toEntry) hentries, ?_⟩
          rw [queryLoop, ho]
          dsimp only
          rw [if_pos hsuccess, hloop]
        | false =>
          rw [if_neg (by simp [hsuccess])] at h
          cases h
          rcases exists_entries table with ⟨table', hentries⟩
          refine ⟨(qp.toEntry, o) :: table', congrArg (List.cons qp.toEntry) hentries, ?_⟩
          rw [queryLoop, ho]
          dsimp only
          rw [if_neg (by simp [hsuccess])]
      | leave status₁ key₁ keys₁ =>
        cases h
        rcases exists_entries table with ⟨table', hentries⟩
        refine ⟨(qp.toEntry, o) :: table', congrArg (List.cons qp.toEntry) hentries, ?_⟩
        rw [queryLoop, ho]
      | returned status₁ key₁ keys₁ =>
        cases h
        rcases exists_entries table with ⟨table', hentries⟩
        refine ⟨(qp.toEntry, o) :: table', congrArg (List.cons qp.toEntry) hentries, ?_⟩
        rw [queryLoop, ho]

/-- **`RtlQueryRegistryValues` with its deliveries refines the call that opens and closes
keys.** -/
theorem deliver_refines {r : Request} {result : (NtStatus × Keys) × List RoutineCall × List Output}
    (h : deliverRegistryValues r table caller keys = some (.ok result)) :
    ∃ table', SameEntries table' table ∧
      rtlQueryRegistryValues { r with table := table' } keys = some result.1 := by
  unfold deliverRegistryValues at h
  unfold rtlQueryRegistryValues
  have hkey : ∀ table', ddkGetRegistryKey { r with table := table' } keys =
      ddkGetRegistryKey r keys := fun _ => rfl
  simp only [hkey]
  rcases exists_entries table with ⟨unreached, hunreached⟩
  cases hbase : ddkGetRegistryKey r keys with
  | none =>
    rw [hbase] at h
    cases h
  | some opened =>
    rcases opened with ⟨status, base, keys'⟩
    rw [hbase] at h
    dsimp only at h ⊢
    by_cases hfailed : ntSuccess status = false
    · rw [if_pos hfailed] at h
      cases h
      exact ⟨unreached, hunreached, if_pos hfailed⟩
    rw [if_neg hfailed] at h
    simp only [if_neg hfailed]
    cases base with
    | none =>
      cases h
      exact ⟨unreached, hunreached, rfl⟩
    | some base =>
      rcases map_inv (Option.some.inj h) with ⟨⟨exit, calls, stored⟩, hloop, rfl⟩
      rcases deliverLoop_refines hloop with ⟨table', hentries, hexit⟩
      refine ⟨table', hentries, ?_⟩
      simp only [hexit]
      cases exit with
      | next status key keys => rfl
      | leave status key keys => rfl
      | returned status key keys => rfl

/-! ## Entries that are queried alike -/

/-- Two entries have the same key and flags, and the query of the one returns what that of the
other does. -/
structure Alike (qp qp' : TableEntry) (caller : Caller) (s : Situation) : Prop where
  entry : qp.toEntry = qp'.toEntry
  query : ∀ status key keys calls, deliverEntry qp caller s status key keys calls =
    deliverEntry qp' caller s status key keys calls

theorem Alike.step (h : Alike qp qp' caller s) :
    deliverStep base qp caller s status key keys calls =
      deliverStep base qp' caller s status key keys calls := by
  unfold deliverStep
  simp only [h.entry, h.query]

theorem Alike.loop (h : Alike qp qp' caller s) (pre post : List (TableEntry × Situation)) :
    deliverLoop base caller (pre ++ (qp, s) :: post) status key keys calls =
      deliverLoop base caller (pre ++ (qp', s) :: post) status key keys calls := by
  induction pre generalizing status key keys calls with
  | nil =>
    show deliverLoop base caller ((qp, s) :: post) status key keys calls =
      deliverLoop base caller ((qp', s) :: post) status key keys calls
    rw [deliverLoop, deliverLoop, h.step]
  | cons p pre ih =>
    rcases p with ⟨qp₀, s₀⟩
    rw [List.cons_append, List.cons_append, deliverLoop, deliverLoop]
    cases deliverStep base qp₀ caller s₀ status key keys calls with
    | error stop => rfl
    | ok d =>
      rcases d with ⟨exit, calls', stored⟩
      cases exit with
      | next status' key' keys' =>
        dsimp only
        rw [ih]
      | leave status' key' keys' => rfl
      | returned status' key' keys' => rfl

/-- An entry can be replaced by one that is queried alike. -/
theorem deliver_congr (h : Alike qp qp' caller s) (r : Request)
    (pre post : List (TableEntry × Situation)) :
    deliverRegistryValues r (pre ++ (qp, s) :: post) caller keys =
      deliverRegistryValues r (pre ++ (qp', s) :: post) caller keys := by
  unfold deliverRegistryValues
  simp only [h.loop]

end Refinement

end Wdutf.Reg
