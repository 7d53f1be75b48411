import Mathlib.Data.List.Perm.Basic
import Mathlib.Data.List.Range
import Mathlib.Tactic.Common
import Wdutf.Reg.Keys

/-!
# Wdutf.Reg.Query — `RtlQueryRegistryValues`, `src/registry.cpp`

The routine opens a base key, goes through a table of queries that may open subkeys
of it, and closes what it has opened at its end. One exit from the loop returns at
once.

* `Balance` — the keys that a call has opened are those that it has closed and those
  that it still holds; every step of the routine keeps this;
* `query_closes_iff` — the call closes what it opens exactly when the loop does not
  reach that exit with an open key of its own;
* `query_leaks` — a call that does.
-/

namespace Wdutf.Reg

open Wdutf.Rtl Wdutf.Io

/-! ## The query table -/

/-- An entry of the query table: whether it has a `QueryRoutine`, its flags and its name. -/
structure Entry where
  queryRoutine : Bool
  flags : UInt32
  name : Option (List Wchar)

/-- `RTL_QUERY_REGISTRY_SUBKEY`. -/
def Entry.subkey (qp : Entry) : Bool := qp.flags &&& 0x01 ≠ 0

/-- `RTL_QUERY_REGISTRY_TOPKEY`. -/
def Entry.topkey (qp : Entry) : Bool := qp.flags &&& 0x02 ≠ 0

/-- `RTL_QUERY_REGISTRY_NOVALUE`. -/
def Entry.novalue (qp : Entry) : Bool := qp.flags &&& 0x08 ≠ 0

/-- `RTL_QUERY_REGISTRY_DIRECT`. -/
def Entry.direct (qp : Entry) : Bool := qp.flags &&& 0x20 ≠ 0

/-- What happens at an entry: the status of `RegOpenKeyW` and whether it sets the key to NULL
when it fails, and the statuses of the `QueryRoutine`, of `DdkQueryEnumerateValues` and of
`DdkQueryValue`. -/
structure Outcome where
  rc : LStatus
  nulled : Bool
  routine : NtStatus
  enumerate : NtStatus
  value : NtStatus

/-- `RegOpenKeyW` when it is successful. An empty name is that of the same key. -/
def regOpenKeyW (keys : Keys) (key : Hkey) (name : List Wchar) : Hkey × Keys :=
  if emptyString name then (key, keys) else keys.openKey

/-- `if (key && key != base) RegCloseKey(key)`. -/
def closeSubkey (base : Hkey) (key : Option Hkey) (keys : Keys) : Keys :=
  match key with
  | none => keys
  | some key => if key ≠ base then keys.regCloseKey key else keys

/-- How an iteration of the loop ends. -/
inductive Exit where
  | next (status : NtStatus) (key : Option Hkey) (keys : Keys)
  | leave (status : NtStatus) (key : Option Hkey) (keys : Keys)
  /-- `return` out of the loop. -/
  | returned (status : NtStatus) (key : Option Hkey) (keys : Keys)

/-- The second half of an iteration: the query itself. -/
def queryEntry (qp : Entry) (o : Outcome) (status : NtStatus) (key : Option Hkey) (keys : Keys) :
    Exit :=
  if qp.name = none ∨ qp.subkey = true then
    if qp.queryRoutine = false then .leave status key keys
    else if qp.direct = true then .returned statusInvalidParameter key keys
    else if qp.novalue = true then .next o.routine key keys
    else .next o.enumerate key keys
  else .next o.value key keys

/-- An iteration of the loop. -/
def queryStep (base : Hkey) (qp : Entry) (o : Outcome) (status : NtStatus) (key : Option Hkey)
    (keys : Keys) : Exit :=
  let keys := if qp.subkey = true ∨ qp.topkey = true then closeSubkey base key keys else keys
  let key := if qp.subkey = true ∨ qp.topkey = true then some base else key
  if qp.subkey = true then
    match qp.name with
    | none => .leave statusInvalidParameter key keys
    | some name =>
      if o.rc ≠ errorSuccess then
        .leave (ddkGetRegistryStatus o.rc) (if o.nulled then none else key) keys
      else
        let opened := regOpenKeyW keys base name
        if qp.queryRoutine = false then .next status (some opened.1) opened.2
        else queryEntry qp o status (some opened.1) opened.2
  else queryEntry qp o status key keys

/-- The loop over the table. The entry behind the last one ends it. -/
def queryLoop (base : Hkey) : List (Entry × Outcome) → NtStatus → Option Hkey → Keys → Exit
  | [], status, key, keys => .leave status key keys
  | (qp, o) :: table, status, key, keys =>
    match queryStep base qp o status key keys with
    | .next status key keys =>
      if ntSuccess status then queryLoop base table status key keys else .leave status key keys
    | exit => exit

/-! ## The base key -/

/-- `RTL_REGISTRY_HANDLE`. -/
def isHandle (relativeTo : UInt32) : Bool := relativeTo &&& 0x40000000 ≠ 0

/-- A text of the source. -/
def wide (s : String) : List Wchar := s.toList.map fun c => UInt16.ofNat c.toNat

/-- `DdkGetRelativePath`; other values of `RelativeTo` end the process. -/
def ddkGetRelativePath (relativeTo : UInt32) (systemThread : Bool) : Option (List Wchar) :=
  match relativeTo &&& 0x7FFFFFFF with
  | 0 => some []
  | 2 => some (wide "\\Registry\\Machine\\System\\CurrentControlSet\\Control")
  | 4 => some (wide "\\Registry\\Machine\\Hardware\\DeviceMap")
  | 1 => some (wide "\\Registry\\Machine\\System\\CurrentControlSet\\Services")
  | 5 => some (wide
      (if systemThread then "\\Registry\\User\\CurrentUser" else "\\Registry\\User\\.Default"))
  | 3 => some (wide "\\Registry\\Machine\\Software\\Microsoft\\Windows NT\\CurrentVersion")
  | _ => none

/-- The arguments of a call, and what the system answers: the key of the handle that `Path` is
under `RTL_REGISTRY_HANDLE`, and the statuses of the two calls that open the base key. -/
structure Request where
  relativeTo : UInt32
  path : List Wchar
  handle : Option Hkey
  systemThread : Bool
  rel : LStatus
  sub : LStatus
  table : List (Entry × Outcome)

/-- The path without its leading backslashes. -/
def strip (path : List Wchar) : List Wchar := path.dropWhile (· = 0x5C)

/-- `DdkGetRegistryKey`, to open a key: the status, the key and the keys. There is no result when
the process ends. -/
def ddkGetRegistryKey (r : Request) (keys : Keys) : Option (NtStatus × Option Hkey × Keys) :=
  if isHandle r.relativeTo then
    match r.handle with
    | none => some (statusInvalidHandle, none, keys)
    | some key => some (statusSuccess, some key, keys)
  else
    match ddkGetRelativePath r.relativeTo r.systemThread with
    | none => none
    | some rel =>
      if emptyString (strip rel) = false ∧ r.rel ≠ errorSuccess then
        some (ddkGetRegistryStatus r.rel, none, keys)
      else
        let base := regOpenKeyW keys .hive (strip rel)
        if emptyString (strip r.path) then some (statusSuccess, some base.1, base.2)
        else if r.sub ≠ errorSuccess then
          some (ddkGetRegistryStatus r.sub, none,
            if base.1 ≠ .hive then base.2.regCloseKey base.1 else base.2)
        else
          let key := regOpenKeyW base.2 base.1 (strip r.path)
          some (statusSuccess, some key.1,
            if base.1 ≠ key.1 ∧ base.1 ≠ .hive then key.2.regCloseKey base.1 else key.2)

/-- `RtlQueryRegistryValues`: the status and the keys. -/
def rtlQueryRegistryValues (r : Request) (keys : Keys) : Option (NtStatus × Keys) :=
  match ddkGetRegistryKey r keys with
  | none => none
  | some (status, base, keys) =>
    if ntSuccess status = false then some (status, keys)
    else match base with
      | none => some (status, keys)
      | some base =>
        match queryLoop base r.table status (some base) keys with
        | .returned status _ keys => some (status, keys)
        | .next status key keys | .leave status key keys =>
          let keys := closeSubkey base key keys
          some (status,
            if isHandle r.relativeTo = false ∧ base ≠ .hive then keys.regCloseKey base else keys)

/-! ## What a call has opened and closed -/

/-- The `RegCloseKey` calls between two points are, in some order, one for each key that was
opened between them. -/
def ClosesWhatItOpens (before after : Keys) : Prop :=
  ∃ new, after.closed = new ++ before.closed ∧
    new.Perm ((List.range' before.opened (after.opened - before.opened)).map .opened)

/-- The keys that were opened are those that were closed and those that are still held. -/
structure Balance (before keys : Keys) (held : List Hkey) : Prop where
  le : before.opened ≤ keys.opened
  perm : ∃ new, keys.closed = new ++ before.closed ∧
    (new ++ held).Perm ((List.range' before.opened (keys.opened - before.opened)).map .opened)

variable {before keys : Keys} {held : List Hkey}

theorem Balance.refl (keys : Keys) : Balance keys keys [] :=
  ⟨Nat.le_refl _, [], by simp⟩

theorem Balance.open (h : Balance before keys held) :
    Balance before keys.openKey.2 (keys.openKey.1 :: held) := by
  rcases h with ⟨hle, new, hnew, hperm⟩
  refine ⟨Nat.le_succ_of_le hle, new, hnew, ?_⟩
  have hcount : keys.opened + 1 - before.opened = (keys.opened - before.opened) + 1 := by omega
  have hlast : before.opened + (keys.opened - before.opened) = keys.opened := by omega
  show (new ++ Hkey.opened keys.opened :: held).Perm
    ((List.range' before.opened (keys.opened + 1 - before.opened)).map .opened)
  rw [hcount, List.range'_1_concat, hlast, List.map_append, List.map_singleton]
  refine List.perm_middle.trans ?_
  exact (hperm.cons _).trans (List.perm_append_singleton _ _).symm

theorem Balance.close {key : Hkey} (h : Balance before keys (key :: held)) :
    Balance before (keys.regCloseKey key) held := by
  rcases h with ⟨hle, new, hnew, hperm⟩
  refine ⟨hle, key :: new, ?_, List.perm_middle.symm.trans hperm⟩
  show key :: keys.closed = _
  rw [hnew, List.cons_append]

/-- The call has closed what it opened exactly when it holds nothing any more. -/
theorem Balance.closes_iff (h : Balance before keys held) :
    ClosesWhatItOpens before keys ↔ held = [] := by
  rcases h with ⟨-, new, hnew, hperm⟩
  constructor
  · rintro ⟨new', hnew', hperm'⟩
    have heq : new' = new := List.append_cancel_right (hnew'.symm.trans hnew)
    have hlength := (hperm.trans (heq ▸ hperm').symm).length_eq
    rw [List.length_append] at hlength
    exact List.length_eq_zero_iff.1 (by omega)
  · rintro rfl
    exact ⟨new, hnew, by simpa using hperm⟩

/-- The key was opened before. -/
def Hkey.Known (key : Hkey) (keys : Keys) : Prop := ∀ n, key = .opened n → n < keys.opened

/-- A subkey is open. -/
def subOpen (base : Hkey) : Option Hkey → Bool
  | none => false
  | some key => key ≠ base

/-- What the routine holds: a subkey, and the base key if it has opened it. -/
def heldKeys (own : Bool) (base : Hkey) (key : Option Hkey) : List Hkey :=
  (match key with
    | none => []
    | some key => if key ≠ base then [key] else []) ++ if own then [base] else []

section Loop

variable {own : Bool} {base : Hkey} {key : Option Hkey} {qp : Entry} {o : Outcome}
  {status : NtStatus}

theorem heldKeys_base (own : Bool) (base : Hkey) :
    heldKeys own base (some base) = if own then [base] else [] := by
  simp [heldKeys]

theorem heldKeys_eq_nil : heldKeys own base key = [] ↔ own = false ∧ subOpen base key = false := by
  unfold heldKeys subOpen
  cases own <;> cases key <;> simp

theorem opened_closeSubkey (base : Hkey) (key : Option Hkey) (keys : Keys) :
    (closeSubkey base key keys).opened = keys.opened := by
  unfold closeSubkey
  split
  · rfl
  · split
    · rfl
    · rfl

theorem Balance.closeSubkey (h : Balance before keys (heldKeys own base key)) :
    Balance before (closeSubkey base key keys) (if own then [base] else []) := by
  unfold Reg.closeSubkey
  cases key with
  | none => exact h
  | some key =>
    dsimp only
    by_cases hkey : key = base
    · rw [if_neg (not_not.2 hkey)]
      rwa [hkey, heldKeys_base] at h
    · rw [if_pos hkey]
      unfold heldKeys at h
      dsimp only at h
      rw [if_pos hkey] at h
      exact h.close

/-- A subkey is opened while none is. -/
theorem Balance.openSubkey (h : Balance before keys (if own then [base] else []))
    (hbase : base.Known keys)
    (name : List Wchar) :
    Balance before (regOpenKeyW keys base name).2
      (heldKeys own base (some (regOpenKeyW keys base name).1)) ∧
      base.Known (regOpenKeyW keys base name).2 ∧
      subOpen base (some (regOpenKeyW keys base name).1) = !emptyString name := by
  unfold regOpenKeyW
  cases hname : emptyString name with
  | true =>
    rw [if_pos rfl, heldKeys_base]
    exact ⟨h, hbase, by simp [subOpen]⟩
  | false =>
    have hne : Hkey.opened keys.opened ≠ base :=
      fun heq => absurd (hbase _ heq.symm) (Nat.lt_irrefl _)
    rw [if_neg nofun]
    refine ⟨?_, fun n hn => Nat.lt_succ_of_lt (hbase n hn), ?_⟩
    · unfold heldKeys Keys.openKey
      dsimp only
      rw [if_pos hne]
      exact h.open
    · simp [subOpen, Keys.openKey, hne]

/-- The exit is one with balanced keys. -/
def Exit.Ok (before : Keys) (own : Bool) (base : Hkey) : Exit → Prop
  | .next _ key keys => Balance before keys (heldKeys own base key) ∧ base.Known keys
  | .leave _ key keys => Balance before keys (heldKeys own base key)
  | .returned _ key keys => Balance before keys (heldKeys own base key)

theorem queryEntry_ok (h : Balance before keys (heldKeys own base key)) (hbase : base.Known keys) :
    (queryEntry qp o status key keys).Ok before own base := by
  unfold queryEntry
  split
  · split
    · exact h
    · split
      · exact h
      · split
        · exact ⟨h, hbase⟩
        · exact ⟨h, hbase⟩
  · exact ⟨h, hbase⟩

/-- The keys of an iteration after its first lines. -/
theorem switch_ok (h : Balance before keys (heldKeys own base key)) (hbase : base.Known keys)
    (switch : Bool) :
    Balance before (if switch = true then Reg.closeSubkey base key keys else keys)
      (heldKeys own base (if switch = true then some base else key)) ∧
    base.Known (if switch = true then Reg.closeSubkey base key keys else keys) := by
  cases switch with
  | false => exact ⟨h, hbase⟩
  | true =>
    rw [if_pos rfl, if_pos rfl, heldKeys_base]
    refine ⟨h.closeSubkey, ?_⟩
    unfold Hkey.Known
    rw [opened_closeSubkey]
    exact hbase

theorem queryStep_ok (qp : Entry) (o : Outcome) (status : NtStatus)
    (h : Balance before keys (heldKeys own base key)) (hbase : base.Known keys) :
    (queryStep base qp o status key keys).Ok before own base := by
  have hswitch := switch_ok h hbase (qp.subkey || qp.topkey)
  simp only [Bool.or_eq_true] at hswitch
  rcases hswitch with ⟨hbalance, hknown⟩
  unfold queryStep
  dsimp only
  split
  · rename_i hsub
    rw [if_pos (Or.inl hsub)] at hbalance hknown ⊢
    rw [if_pos (Or.inl hsub)] at hbalance ⊢
    rw [heldKeys_base] at hbalance
    split
    · show Balance before _ _
      rw [heldKeys_base]
      exact hbalance
    · rename_i name _
      rcases hbalance.openSubkey hknown name with ⟨hopen, hknown', -⟩
      split
      · show Balance before _ _
        split
        · exact hbalance
        · rw [heldKeys_base]
          exact hbalance
      · split
        · exact ⟨hopen, hknown'⟩
        · exact queryEntry_ok hopen hknown'
  · exact queryEntry_ok hbalance hknown

theorem queryLoop_ok (table : List (Entry × Outcome)) (status : NtStatus)
    (h : Balance before keys (heldKeys own base key))
    (hbase : base.Known keys) : (queryLoop base table status key keys).Ok before own base := by
  induction table generalizing status key keys with
  | nil => exact h
  | cons p table ih =>
    rcases p with ⟨qp, o⟩
    have hstep := queryStep_ok qp o status h hbase
    unfold queryLoop
    cases hexit : queryStep base qp o status key keys with
    | next status' key' keys' =>
      rw [hexit] at hstep
      rcases hstep with ⟨hbalance, hknown⟩
      dsimp only
      split
      · exact ih _ hbalance hknown
      · exact hbalance
    | leave status' key' keys' =>
      rw [hexit] at hstep
      exact hstep
    | returned status' key' keys' =>
      rw [hexit] at hstep
      exact hstep

/-! ## When the loop returns -/

/-- The status of a query that is not for one value. -/
def queried (p : Entry × Outcome) : NtStatus :=
  if p.1.novalue = true then p.2.routine else p.2.enumerate

/-- The loop goes on to the next entry. -/
def Passes (p : Entry × Outcome) : Prop :=
  if p.1.subkey = true then p.1.name ≠ none ∧ p.2.rc = errorSuccess ∧
    (p.1.queryRoutine = false ∨ p.1.direct = false ∧ ntSuccess (queried p) = true)
  else if p.1.name = none then
    p.1.queryRoutine = true ∧ p.1.direct = false ∧ ntSuccess (queried p) = true
  else ntSuccess p.2.value = true

/-- A `QueryRoutine` and `RTL_QUERY_REGISTRY_DIRECT` for a subkey that could be opened, or without a
name. -/
def Refused (p : Entry × Outcome) : Prop :=
  p.1.queryRoutine = true ∧ p.1.direct = true ∧
    if p.1.subkey = true then p.1.name ≠ none ∧ p.2.rc = errorSuccess else p.1.name = none

/-- Whether a subkey is open after the keys were switched for an entry. -/
def switched (isOpen : Bool) (qp : Entry) : Bool :=
  if qp.subkey = true then !emptyString (qp.name.getD [])
  else if qp.topkey = true then false
  else isOpen

/-- The query of an entry for a subkey or without a name. -/
theorem queryEntry_routine (hname : qp.name = none ∨ qp.subkey = true)
    (hroutine : qp.queryRoutine = true) :
    queryEntry qp o status key keys =
      if qp.direct = true then .returned statusInvalidParameter key keys
      else .next (queried (qp, o)) key keys := by
  unfold queryEntry queried
  rw [if_pos hname, if_neg (by simp [hroutine])]
  split
  · rfl
  · split
    · rfl
    · rfl

/-- An iteration for a subkey. -/
theorem queryStep_subkey (hsub : qp.subkey = true) :
    queryStep base qp o status key keys =
      match qp.name with
      | none => .leave statusInvalidParameter (some base) (closeSubkey base key keys)
      | some name =>
        if o.rc ≠ errorSuccess then
          .leave (ddkGetRegistryStatus o.rc) (if o.nulled then none else some base)
            (closeSubkey base key keys)
        else
          let opened := regOpenKeyW (closeSubkey base key keys) base name
          if qp.queryRoutine = false then .next status (some opened.1) opened.2
          else queryEntry qp o status (some opened.1) opened.2 := by
  unfold queryStep
  dsimp only
  rw [if_pos (Or.inl hsub), if_pos (Or.inl hsub), if_pos hsub]

/-- An iteration, by what it does to the loop. -/
def StepCases (isOpen : Bool) (base : Hkey) (qp : Entry) (o : Outcome) (exit : Exit) : Prop :=
  (Passes (qp, o) ∧ ¬ Refused (qp, o) ∧ ∃ status key keys, exit = .next status key keys ∧
    ntSuccess status = true ∧ subOpen base key = switched isOpen qp) ∨
  (Refused (qp, o) ∧ ¬ Passes (qp, o) ∧ ∃ status key keys, exit = .returned status key keys ∧
    subOpen base key = switched isOpen qp) ∨
  (¬ Passes (qp, o) ∧ ¬ Refused (qp, o) ∧ ((∃ status key keys, exit = .leave status key keys) ∨
    ∃ status key keys, exit = .next status key keys ∧ ntSuccess status = false))

theorem queryStep_cases_subkey (hbase : base.Known keys) (hstatus : ntSuccess status = true)
    (hsub : qp.subkey = true) :
    StepCases (subOpen base key) base qp o (queryStep base qp o status key keys) := by
  rw [queryStep_subkey hsub]
  cases hname : qp.name with
  | none =>
    refine Or.inr (Or.inr ⟨?_, ?_, Or.inl ⟨_, _, _, rfl⟩⟩)
    · simp [Passes, hsub, hname]
    · simp [Refused, hsub, hname]
  | some name =>
    have hknown : base.Known (closeSubkey base key keys) := by
      unfold Hkey.Known
      rw [opened_closeSubkey]
      exact hbase
    have hopen : subOpen base (some (regOpenKeyW (closeSubkey base key keys) base name).1) =
        switched (subOpen base key) qp := by
      have hrefl : Balance (closeSubkey base key keys) (closeSubkey base key keys)
          (if false then [base] else []) := Balance.refl _
      have hempty := hrefl.openSubkey hknown name
      rw [hempty.2.2, switched, if_pos hsub, hname]
      rfl
    dsimp only
    by_cases hrc : o.rc = errorSuccess
    swap
    · rw [if_pos hrc]
      refine Or.inr (Or.inr ⟨?_, ?_, Or.inl ⟨_, _, _, rfl⟩⟩)
      · simp [Passes, hsub, hrc]
      · simp [Refused, hsub, hrc]
    rw [if_neg (not_not.2 hrc)]
    by_cases hroutine : qp.queryRoutine = false
    · rw [if_pos hroutine]
      refine Or.inl ⟨?_, ?_, _, _, _, rfl, hstatus, hopen⟩
      · simp [Passes, hsub, hname, hrc, hroutine]
      · simp [Refused, hroutine]
    · rw [if_neg hroutine]
      rw [Bool.not_eq_false] at hroutine
      rw [queryEntry_routine (Or.inr hsub) hroutine]
      cases hdirect : qp.direct with
      | true =>
        refine Or.inr (Or.inl ⟨?_, ?_, _, _, _, rfl, hopen⟩)
        · simp [Refused, hsub, hname, hrc, hroutine, hdirect]
        · simp [Passes, hsub, hroutine, hdirect]
      | false =>
        rw [if_neg nofun]
        have hrefused : ¬ Refused (qp, o) := by simp [Refused, hdirect]
        cases hok : ntSuccess (queried (qp, o)) with
        | true =>
          refine Or.inl ⟨?_, hrefused, _, _, _, rfl, hok, hopen⟩
          simp [Passes, hsub, hname, hrc, hdirect, hok]
        | false =>
          refine Or.inr (Or.inr ⟨?_, hrefused, Or.inr ⟨_, _, _, rfl, hok⟩⟩)
          simp [Passes, hsub, hroutine, hok]

theorem queryStep_cases_value (hsub : qp.subkey = false) :
    StepCases (subOpen base key) base qp o (queryStep base qp o status key keys) := by
  have hstep : ∃ key' keys', queryStep base qp o status key keys =
      queryEntry qp o status key' keys' ∧
      subOpen base key' = switched (subOpen base key) qp := by
    refine ⟨if qp.subkey = true ∨ qp.topkey = true then some base else key,
      if qp.subkey = true ∨ qp.topkey = true then closeSubkey base key keys else keys, ?_, ?_⟩
    · unfold queryStep
      dsimp only
      rw [if_neg (c := qp.subkey = true) (by simp [hsub])]
    · unfold switched
      simp only [hsub]
      cases qp.topkey with
      | true => simp [subOpen]
      | false => simp
  rcases hstep with ⟨key', keys', heq, hopen⟩
  rw [heq]
  by_cases hname : qp.name = none
  swap
  · -- a value
    have hquery : queryEntry qp o status key' keys' = .next o.value key' keys' := by
      unfold queryEntry
      rw [if_neg (by simp [hname, hsub])]
    rw [hquery]
    have hrefused : ¬ Refused (qp, o) := by simp [Refused, hsub, hname]
    cases hok : ntSuccess o.value with
    | true =>
      refine Or.inl ⟨?_, hrefused, _, _, _, rfl, hok, hopen⟩
      simp [Passes, hsub, hname, hok]
    | false =>
      refine Or.inr (Or.inr ⟨?_, hrefused, Or.inr ⟨_, _, _, rfl, hok⟩⟩)
      simp [Passes, hsub, hname, hok]
  cases hroutine : qp.queryRoutine with
  | false =>
    have hquery : queryEntry qp o status key' keys' = .leave status key' keys' := by
      unfold queryEntry
      rw [if_pos (Or.inl hname), if_pos hroutine]
    rw [hquery]
    refine Or.inr (Or.inr ⟨?_, ?_, Or.inl ⟨_, _, _, rfl⟩⟩)
    · simp [Passes, hsub, hname, hroutine]
    · simp [Refused, hroutine]
  | true =>
    rw [queryEntry_routine (Or.inl hname) hroutine]
    cases hdirect : qp.direct with
    | true =>
      refine Or.inr (Or.inl ⟨?_, ?_, _, _, _, rfl, hopen⟩)
      · simp [Refused, hsub, hname, hroutine, hdirect]
      · simp [Passes, hsub, hname, hdirect]
    | false =>
      rw [if_neg nofun]
      have hrefused : ¬ Refused (qp, o) := by simp [Refused, hdirect]
      cases hok : ntSuccess (queried (qp, o)) with
      | true =>
        refine Or.inl ⟨?_, hrefused, _, _, _, rfl, hok, hopen⟩
        simp [Passes, hsub, hname, hroutine, hdirect, hok]
      | false =>
        refine Or.inr (Or.inr ⟨?_, hrefused, Or.inr ⟨_, _, _, rfl, hok⟩⟩)
        simp [Passes, hsub, hname, hok]

theorem queryStep_cases (hbase : base.Known keys) (hstatus : ntSuccess status = true) :
    StepCases (subOpen base key) base qp o (queryStep base qp o status key keys) := by
  cases hsub : qp.subkey with
  | true => exact queryStep_cases_subkey hbase hstatus hsub
  | false => exact queryStep_cases_value hsub

/-- The loop reaches an entry that makes it return, while the routine holds a key: the base
key if it has opened it, or a subkey. -/
def ReturnsOpen (own : Bool) (isOpen : Bool) (table : List (Entry × Outcome)) : Prop :=
  ∃ pre p post, table = pre ++ p :: post ∧ (∀ q ∈ pre, Passes q) ∧ Refused p ∧
    (own = true ∨ (pre ++ [p]).foldl (fun isOpen q => switched isOpen q.1) isOpen = true)

theorem returnsOpen_cons (own isOpen : Bool) (p : Entry × Outcome)
    (table : List (Entry × Outcome)) :
    ReturnsOpen own isOpen (p :: table) ↔
      (Refused p ∧ (own = true ∨ switched isOpen p.1 = true)) ∨
        Passes p ∧ ReturnsOpen own (switched isOpen p.1) table := by
  constructor
  · rintro ⟨pre, q, post, heq, hpass, hrefused, hopen⟩
    cases pre with
    | nil =>
      cases heq
      exact Or.inl ⟨hrefused, hopen⟩
    | cons p' pre =>
      cases heq
      exact Or.inr ⟨hpass p (List.mem_cons_self ..), pre, q, post, rfl,
        fun q' hq' => hpass q' (List.mem_cons_of_mem p hq'), hrefused, hopen⟩
  · rintro (⟨hrefused, hopen⟩ | ⟨hpass, pre, q, post, rfl, hall, hrefused, hopen⟩)
    · exact ⟨[], p, table, rfl, nofun, hrefused, hopen⟩
    · refine ⟨p :: pre, q, post, rfl, ?_, hrefused, hopen⟩
      intro q' hq'
      rcases List.mem_cons.1 hq' with rfl | hq'
      · exact hpass
      · exact hall q' hq'

/-- The exit is a return that leaves a key open. -/
def Exit.LeavesOpen (own : Bool) (base : Hkey) : Exit → Prop
  | .returned _ key _ => own = true ∨ subOpen base key = true
  | _ => False

theorem queryLoop_leavesOpen (table : List (Entry × Outcome))
    (h : Balance before keys (heldKeys own base key))
    (hbase : base.Known keys) (hstatus : ntSuccess status = true) :
    (queryLoop base table status key keys).LeavesOpen own base ↔
      ReturnsOpen own (subOpen base key) table := by
  induction table generalizing status key keys with
  | nil =>
    refine iff_of_false id ?_
    rintro ⟨pre, p, post, heq, -⟩
    cases pre <;> cases heq
  | cons p table ih =>
    rcases p with ⟨qp, o⟩
    have hstep := queryStep_ok qp o status h hbase
    rw [returnsOpen_cons]
    unfold queryLoop
    rcases queryStep_cases (o := o) hbase hstatus with
      ⟨hpass, hrefused, status', key', keys', heq, hok, hopen⟩ |
      ⟨hrefused, hpass, status', key', keys', heq, hopen⟩ |
      ⟨hpass, hrefused, ⟨status', key', keys', heq⟩ | ⟨status', key', keys', heq, hfail⟩⟩
    · rw [heq] at hstep ⊢
      dsimp only
      rw [if_pos hok, ih hstep.1 hstep.2 hok, hopen]
      simp [hpass, hrefused]
    · rw [heq]
      show own = true ∨ subOpen base key' = true ↔ _
      rw [hopen]
      simp [hpass, hrefused]
    · rw [heq]
      simp [hpass, hrefused, Exit.LeavesOpen]
    · rw [heq]
      dsimp only
      rw [if_neg (by simp [hfail])]
      simp [hpass, hrefused, Exit.LeavesOpen]

end Loop

/-! ## The base key and the call -/

/-- The base key can be had: the handle is one of a key, or the keys of the two paths can be
opened. -/
def BaseObtained (r : Request) : Prop :=
  if isHandle r.relativeTo = true then r.handle ≠ none
  else ∃ rel, ddkGetRelativePath r.relativeTo r.systemThread = some rel ∧
    (emptyString (strip rel) = true ∨ r.rel = errorSuccess) ∧
    (emptyString (strip r.path) = true ∨ r.sub = errorSuccess)

/-- The base key is one that the call opens: it is neither the caller's nor the hive. -/
def ownsBase (r : Request) : Bool :=
  !isHandle r.relativeTo &&
    !(emptyString (strip ((ddkGetRelativePath r.relativeTo r.systemThread).getD [])) &&
    emptyString (strip r.path))

theorem regOpenKeyW_empty {keys : Keys} {key : Hkey} {name : List Wchar}
    (h : emptyString name = true) : regOpenKeyW keys key name = (key, keys) := by
  rw [regOpenKeyW, if_pos h]

theorem regOpenKeyW_name {keys : Keys} {key : Hkey} {name : List Wchar}
    (h : emptyString name = false) : regOpenKeyW keys key name = keys.openKey := by
  rw [regOpenKeyW, if_neg (by simp [h])]

/-- A key that was opened, after another one that was closed in the meantime. -/
theorem Balance.replace (h : Balance before keys []) :
    Balance before (keys.openKey.2.openKey.2.regCloseKey keys.openKey.1)
      [keys.openKey.2.openKey.1] := by
  have hopen := h.open.open
  rcases hopen with ⟨hle, new, hnew, hperm⟩
  refine Balance.close ⟨hle, new, hnew, ?_⟩
  exact (List.Perm.append_left new (List.Perm.swap _ _ _)).trans hperm

theorem known_opened (keys : Keys) : keys.openKey.1.Known keys.openKey.2 := by
  intro n hn
  cases hn
  exact Nat.lt_succ_self _

/-- What `DdkGetRegistryKey` comes to: a base key, which the call owns or not, or a failure that
leaves no key open. -/
def BaseOutcome (r : Request) (keys : Keys) (status : NtStatus) (key : Option Hkey)
    (keys' : Keys) : Prop :=
  (BaseObtained r ∧ status = statusSuccess ∧ ∃ base, key = some base ∧ base.Known keys' ∧
    (isHandle r.relativeTo = false ∧ base ≠ .hive ↔ ownsBase r = true) ∧
    Balance keys keys' (if ownsBase r then [base] else [])) ∨
  (¬ BaseObtained r ∧ ntSuccess status = false ∧ Balance keys keys' [])

section BaseKey

variable {r : Request} {keys keys' : Keys} {status : NtStatus} {key : Option Hkey}
variable {rel : List Wchar}

/-- The base is the key of the caller's handle. -/
theorem baseOutcome_handle (hhandle : ∀ key, r.handle = some key → key.Known keys)
    (hflag : isHandle r.relativeTo = true)
    (h : ddkGetRegistryKey r keys = some (status, key, keys')) :
    BaseOutcome r keys status key keys' := by
  have hbalance := Balance.refl keys
  have hown : ownsBase r = false := by simp [ownsBase, hflag]
  rw [ddkGetRegistryKey, if_pos hflag] at h
  cases hkey : r.handle with
  | none =>
    rw [hkey] at h
    cases h
    exact Or.inr ⟨by simp [BaseObtained, hflag, hkey], by decide, hbalance⟩
  | some base =>
    rw [hkey] at h
    cases h
    refine Or.inl ⟨by simp [BaseObtained, hflag, hkey], rfl, base, rfl, hhandle base hkey, ?_, ?_⟩
    · simp [hown, hflag]
    · simpa [hown] using hbalance

theorem baseObtained_path (hflag : isHandle r.relativeTo = false)
    (hrel : ddkGetRelativePath r.relativeTo r.systemThread = some rel) :
    BaseObtained r ↔ (emptyString (strip rel) = true ∨ r.rel = errorSuccess) ∧
      (emptyString (strip r.path) = true ∨ r.sub = errorSuccess) := by
  simp [BaseObtained, hflag, hrel]

theorem ownsBase_path (hflag : isHandle r.relativeTo = false)
    (hrel : ddkGetRelativePath r.relativeTo r.systemThread = some rel) :
    ownsBase r = !(emptyString (strip rel) && emptyString (strip r.path)) := by
  simp [ownsBase, hflag, hrel]

/-- The relative path is empty: the base is the hive, or the key of the path in it. -/
theorem baseOutcome_hive (hflag : isHandle r.relativeTo = false)
    (hrel : ddkGetRelativePath r.relativeTo r.systemThread = some rel)
    (hempty : emptyString (strip rel) = true)
    (h : ddkGetRegistryKey r keys = some (status, key, keys')) :
    BaseOutcome r keys status key keys' := by
  have hbalance := Balance.refl keys
  have hobtained := baseObtained_path hflag hrel
  have hown := ownsBase_path hflag hrel
  rw [ddkGetRegistryKey, if_neg (by simp [hflag]), hrel] at h
  dsimp only at h
  rw [if_neg (by simp [hempty]), regOpenKeyW_empty hempty] at h
  cases hpath : emptyString (strip r.path) with
  | true =>
    rw [if_pos hpath] at h
    cases h
    refine Or.inl ⟨by simp [hobtained, hempty, hpath], rfl, .hive, rfl, nofun, ?_, ?_⟩
    · simp [hown, hempty, hpath]
    · simpa [hown, hempty, hpath] using hbalance
  | false =>
    rw [if_neg (by simp [hpath]), regOpenKeyW_name hpath] at h
    by_cases hsub : r.sub = errorSuccess
    · rw [if_neg (not_not.2 hsub), if_neg (fun hne => hne.2 rfl)] at h
      cases h
      refine Or.inl ⟨by simp [hobtained, hempty, hsub], rfl, _, rfl, known_opened keys, ?_, ?_⟩
      · simp [hown, hflag, hpath, Keys.openKey]
      · simpa [hown, hpath] using hbalance.open
    · -- the hive is not closed
      rw [if_pos hsub, if_neg (not_not.2 rfl)] at h
      cases h
      exact Or.inr ⟨by simp [hobtained, hpath, hsub], ntSuccess_ddkGetRegistryStatus hsub, hbalance⟩

/-- The relative path has a key of its own, which is the base or is closed again. -/
theorem baseOutcome_relative (hflag : isHandle r.relativeTo = false)
    (hrel : ddkGetRelativePath r.relativeTo r.systemThread = some rel)
    (hempty : emptyString (strip rel) = false)
    (h : ddkGetRegistryKey r keys = some (status, key, keys')) :
    BaseOutcome r keys status key keys' := by
  have hbalance := Balance.refl keys
  have hobtained := baseObtained_path hflag hrel
  have hown := ownsBase_path hflag hrel
  rw [ddkGetRegistryKey, if_neg (by simp [hflag]), hrel] at h
  dsimp only at h
  by_cases hrc : r.rel = errorSuccess
  swap
  · rw [if_pos ⟨hempty, hrc⟩] at h
    cases h
    exact Or.inr ⟨by simp [hobtained, hempty, hrc], ntSuccess_ddkGetRegistryStatus hrc, hbalance⟩
  rw [if_neg (fun hne => hne.2 hrc), regOpenKeyW_name hempty] at h
  cases hpath : emptyString (strip r.path) with
  | true =>
    rw [if_pos hpath] at h
    cases h
    refine Or.inl ⟨by simp [hobtained, hrc, hpath], rfl, _, rfl, known_opened keys, ?_, ?_⟩
    · simp [hown, hflag, hempty, Keys.openKey]
    · simpa [hown, hempty] using hbalance.open
  | false =>
    rw [if_neg (by simp [hpath]), regOpenKeyW_name hpath] at h
    by_cases hsub : r.sub = errorSuccess
    · -- the intermediate key is closed
      have hne : keys.openKey.1 ≠ keys.openKey.2.openKey.1 ∧ keys.openKey.1 ≠ .hive := by
        simp [Keys.openKey]
      rw [if_neg (not_not.2 hsub), if_pos hne] at h
      cases h
      refine Or.inl
        ⟨by simp [hobtained, hrc, hsub], rfl, _, rfl, known_opened keys.openKey.2, ?_, ?_⟩
      · simp [hown, hflag, hempty, Keys.openKey]
      · simpa [hown, hempty] using hbalance.replace
    · have hne : keys.openKey.1 ≠ .hive := by simp [Keys.openKey]
      rw [if_pos hsub, if_pos hne] at h
      cases h
      exact Or.inr ⟨by simp [hobtained, hpath, hsub], ntSuccess_ddkGetRegistryStatus hsub,
        hbalance.open.close⟩

theorem ddkGetRegistryKey_spec (hhandle : ∀ key, r.handle = some key → key.Known keys)
    (h : ddkGetRegistryKey r keys = some (status, key, keys')) :
    BaseOutcome r keys status key keys' := by
  cases hflag : isHandle r.relativeTo with
  | true => exact baseOutcome_handle hhandle hflag h
  | false =>
    cases hrel : ddkGetRelativePath r.relativeTo r.systemThread with
    | none =>
      rw [ddkGetRegistryKey, if_neg (by simp [hflag]), hrel] at h
      cases h
    | some rel =>
      cases hempty : emptyString (strip rel) with
      | true => exact baseOutcome_hive hflag hrel hempty h
      | false => exact baseOutcome_relative hflag hrel hempty h

end BaseKey

/-- **`RtlQueryRegistryValues` closes what it opens** exactly when it does not come, with a key
of its own open, to an entry that has a `QueryRoutine` and `RTL_QUERY_REGISTRY_DIRECT` and is for
a subkey or without a name. -/
theorem query_closes_iff (r : Request) (keys : Keys)
    (hhandle : ∀ key, r.handle = some key → key.Known keys)
    (status : NtStatus) (after : Keys) (h : rtlQueryRegistryValues r keys = some (status, after)) :
    ClosesWhatItOpens keys after ↔ ¬ (BaseObtained r ∧ ReturnsOpen (ownsBase r) false r.table) := by
  unfold rtlQueryRegistryValues at h
  cases hkey : ddkGetRegistryKey r keys with
  | none =>
    rw [hkey] at h
    cases h
  | some result =>
    rcases result with ⟨status', key, keys'⟩
    rw [hkey] at h
    dsimp only at h
    rcases ddkGetRegistryKey_spec hhandle hkey with
      ⟨hobtained, rfl, base, rfl, hknown, hown, hbalance⟩ | ⟨hfailed, hstatus, hbalance⟩
    swap
    · rw [if_pos hstatus] at h
      cases h
      rw [hbalance.closes_iff]
      simp [hfailed]
    rw [if_neg (by decide)] at h
    dsimp only at h
    have hheld : Balance keys keys' (heldKeys (ownsBase r) base (some base)) := by
      rwa [heldKeys_base]
    have hok := queryLoop_ok r.table statusSuccess hheld hknown
    have hsuccess : ntSuccess statusSuccess = true := by decide
    have hopen := queryLoop_leavesOpen r.table hheld hknown hsuccess
    have hsub : subOpen base (some base) = false := by simp [subOpen]
    rw [hsub] at hopen
    -- what a loop that ends leaves open is closed behind it
    have hclean : ∀ key' keys'', Balance keys keys'' (heldKeys (ownsBase r) base key') →
        Balance keys
          (if isHandle r.relativeTo = false ∧ base ≠ .hive then
            (closeSubkey base key' keys'').regCloseKey base
          else closeSubkey base key' keys'') [] := by
      intro key' keys'' hb
      have hclosed := hb.closeSubkey
      by_cases hbase : isHandle r.relativeTo = false ∧ base ≠ .hive
      · rw [hown.1 hbase, if_pos rfl] at hclosed
        rw [if_pos hbase]
        exact hclosed.close
      · rw [if_neg fun howned => hbase (hown.2 howned)] at hclosed
        rw [if_neg hbase]
        exact hclosed
    cases hexit : queryLoop base r.table statusSuccess (some base) keys' with
    | next status' key' keys'' =>
      rw [hexit] at h hok hopen
      cases h
      rw [(hclean key' keys'' hok.1).closes_iff, ← hopen]
      simp [Exit.LeavesOpen]
    | leave status' key' keys'' =>
      rw [hexit] at h hok hopen
      cases h
      rw [(hclean key' keys'' hok).closes_iff, ← hopen]
      simp [Exit.LeavesOpen]
    | returned status' key' keys'' =>
      rw [hexit] at h hok hopen
      cases h
      have hheld' : Balance keys after (heldKeys (ownsBase r) base key') := hok
      rw [hheld'.closes_iff, heldKeys_eq_nil, ← hopen]
      simp [hobtained, Exit.LeavesOpen]

/-- One value of a subkey of the services is queried. -/
def subkeyQuery : Request :=
  ⟨1, [], none, false, 0, 0, [(⟨false, 1, some [0x41]⟩, ⟨0, false, 0, 0, 0⟩),
    (⟨true, 0, some [0x42]⟩, ⟨0, false, 0, 0, 0⟩)]⟩

theorem query_closes_subkey :
    rtlQueryRegistryValues subkeyQuery ⟨0, []⟩ = some (0, ⟨2, [.opened 0, .opened 1]⟩) ∧
      ClosesWhatItOpens ⟨0, []⟩ ⟨2, [.opened 0, .opened 1]⟩ := by
  have hcall : rtlQueryRegistryValues subkeyQuery ⟨0, []⟩ =
      some (0, ⟨2, [.opened 0, .opened 1]⟩) := rfl
  refine ⟨hcall,
    (query_closes_iff subkeyQuery ⟨0, []⟩ (fun _ hkey => by cases hkey) _ _ hcall).2 ?_⟩
  rintro ⟨-, hreturns⟩
  unfold subkeyQuery at hreturns
  dsimp only at hreturns
  rw [returnsOpen_cons, returnsOpen_cons] at hreturns
  rcases hreturns with ⟨⟨hroutine, -⟩, -⟩ | ⟨-, ⟨⟨-, hdirect, -⟩, -⟩ | ⟨-, pre, p, post, hnil, -⟩⟩
  · cases hroutine
  · cases hdirect
  · cases pre <;> cases hnil

/-- A `QueryRoutine` for all values of the services, with `RTL_QUERY_REGISTRY_DIRECT`: the base
key stays open. -/
theorem query_leaks :
    rtlQueryRegistryValues
      ⟨1, [], none, false, 0, 0, [(⟨true, 0x20, none⟩, ⟨0, false, 0, 0, 0⟩)]⟩ ⟨0, []⟩ =
        some (statusInvalidParameter, ⟨1, []⟩) ∧
      ¬ ClosesWhatItOpens ⟨0, []⟩ ⟨1, []⟩ := by
  refine ⟨rfl, ?_⟩
  rintro ⟨new, hnew, hperm⟩
  have hempty : new = [] := by simpa using hnew.symm
  rw [hempty] at hperm
  exact absurd hperm.length_eq (by decide)

end Wdutf.Reg
