import Mathlib.Data.List.Basic
import Mathlib.Tactic.Common
import Wdutf.Lib.Block
import Wdutf.Reg.Query
import Wdutf.Reg.Values

/-!
# Wdutf.Reg.Table — the value of an entry of a query table, `src/registry.cpp`

`DdkQueryValue` reads a value into a buffer, with six zero bytes behind it. Then
`DdkQueryCallback` hands it to the `QueryRoutine` of the entry, or `DdkQueryDirect` stores
it where `EntryContext` points to. `DdkGetDefaultValue` stands in for a value that is not
there.

A pointer to memory is the list of the bytes from there to the end of the block; NULL has
none. A read or write beyond the block ends the call.
-/

namespace Wdutf.Reg

open Wdutf.Rtl Wdutf.Io Wdutf.Block

/-! ## Types of values -/

def regNone : UInt32 := 0
def regSz : UInt32 := 1
def regExpandSz : UInt32 := 2
def regBinary : UInt32 := 3
def regDword : UInt32 := 4
def regDwordBigEndian : UInt32 := 5
def regMultiSz : UInt32 := 7
def regQword : UInt32 := 11

/-! ## Wide characters -/

/-- Why a call does not return: `ddkfail`, an access outside a block, or a loop that needs more
passes than it was given. -/
inductive Stop where
  | fail
  | outOfBounds
  | running
deriving DecidableEq, Repr

/-- The wide characters of a block. A last odd byte is none. -/
def wideChars : List UInt8 → List Wchar
  | a :: b :: block => UInt16.ofNat (a.toNat + 256 * b.toNat) :: wideChars block
  | _ => []

/-- `while (dp[i++] != L'\0')`: how many characters stand before the NUL. -/
def wcslen : List Wchar → Except Stop ℕ
  | [] => .error .outOfBounds
  | c :: dp => if c = 0 then .ok 0 else (wcslen dp).map (· + 1)

theorem length_wideChars (block : List UInt8) : (wideChars block).length = block.length / 2 := by
  induction block using wideChars.induct with
  | case1 a b block ih =>
    rw [wideChars, List.length_cons, ih, List.length_cons, List.length_cons]
    omega
  | case2 block h =>
    rcases block with _ | ⟨a, _ | ⟨b, block⟩⟩
    · rfl
    · simp [wideChars]
    · exact absurd rfl (h a b block)

/-- The scan stays in the block. -/
theorem wcslen_lt {dp : List Wchar} {n : ℕ} (h : wcslen dp = .ok n) : n < dp.length := by
  induction dp generalizing n with
  | nil => cases h
  | cons c dp ih =>
    unfold wcslen at h
    split at h
    · rcases Except.ok.inj h with rfl
      exact Nat.zero_lt_succ _
    · cases hdp : wcslen dp with
      | error stop =>
        rw [hdp] at h
        cases h
      | ok k =>
        rw [hdp] at h
        rcases Except.ok.inj h with rfl
        exact Nat.succ_lt_succ (ih hdp)

theorem wcslen_wideChars_lt {block : List UInt8} {n : ℕ}
    (h : wcslen (wideChars block) = .ok n) : 2 * (n + 1) ≤ block.length := by
  have hlt := wcslen_lt h
  rw [length_wideChars] at hlt
  omega

/-! ## The entry -/

/-- `RTL_QUERY_REGISTRY_TABLE`. -/
structure TableEntry extends Entry where
  entryContext : Pvoid
  defaultType : UInt32
  defaultData : List UInt8
  defaultLength : UInt32

/-- `RTL_QUERY_REGISTRY_REQUIRED`. -/
def Entry.required (qp : Entry) : Bool := qp.flags &&& 0x04 ≠ 0

/-- `RTL_QUERY_REGISTRY_NOEXPAND`. -/
def Entry.noexpand (qp : Entry) : Bool := qp.flags &&& 0x10 ≠ 0

/-- `RTL_QUERY_REGISTRY_DELETE`. -/
def Entry.delete (qp : Entry) : Bool := qp.flags &&& 0x40 ≠ 0

/-- `RTL_QUERY_REGISTRY_TYPECHECK`. -/
def Entry.typecheck (qp : Entry) : Bool := qp.flags &&& 0x100 ≠ 0

/-- A call of a `QueryRoutine`. -/
structure RoutineCall where
  valueName : Option (List Wchar)
  valueType : UInt32
  valueData : List UInt8
  valueLength : UInt32
  context : Pvoid
  entryContext : Pvoid
deriving DecidableEq, Repr

/-- The caller: its `Context` and `Environment`, and what its `QueryRoutine` returns after the
calls that it has had. -/
structure Caller where
  context : Pvoid
  environment : Pvoid
  queryRoutine : List RoutineCall → RoutineCall → NtStatus

/-- `DdkExpandString`. -/
def ddkExpandString (environment : Pvoid) : Except Stop Unit :=
  if environment ≠ 0 then .error .fail else .ok ()

/-! ## Delivery to a routine -/

/-- The loop over the strings of a value, from the one at `data` on. `status` is that of the
last call. -/
def queryStrings (qp : TableEntry) (caller : Caller) (type : UInt32) (data : List UInt8)
    (status : NtStatus) (calls : List RoutineCall) : Except Stop (NtStatus × List RoutineCall) :=
  match _h : wcslen (wideChars data) with
  | .error stop => .error stop
  | .ok 0 => .ok (status, calls)
  | .ok (n + 1) =>
    if type = regExpandSz ∧ caller.environment ≠ 0 then .error .fail
    else
      let call : RoutineCall :=
        ⟨qp.name, regSz, data, UInt32.ofNat (2 * (n + 1)), caller.context, qp.entryContext⟩
      let status := caller.queryRoutine calls call
      if ntSuccess status = true ∧ type = regMultiSz then
        queryStrings qp caller type (data.drop (2 * (n + 2))) status (calls ++ [call])
      else .ok (status, calls ++ [call])
termination_by data.length
decreasing_by
  have hlt := wcslen_wideChars_lt _h
  rw [List.length_drop]
  omega

/-- `DdkQueryCallback`: the status, and the calls after those that there were. -/
def ddkQueryCallback (qp : TableEntry) (caller : Caller) (type : UInt32) (data : List UInt8)
    (bytes : UInt32) (calls : List RoutineCall) : Except Stop (NtStatus × List RoutineCall) :=
  if qp.noexpand = true ∨ (type ≠ regMultiSz ∧ type ≠ regExpandSz) then
    let call : RoutineCall := ⟨qp.name, type, data, bytes, caller.context, qp.entryContext⟩
    .ok (caller.queryRoutine calls call, calls ++ [call])
  else queryStrings qp caller type data statusSuccess calls

/-! ## Direct delivery -/

/-- What `EntryContext` points to, as the fields of a `UNICODE_STRING` that are read and as a
`LONG`. -/
structure Target where
  maximumLength : UInt16
  buffer : Pvoid
  long : Int32

/-- What is stored: the fields of a `UNICODE_STRING`, the size of its buffer if that is new and
what is written to the buffer, or what is written to `EntryContext`. -/
inductive Output where
  | nothing
  | string (allocated : Option UInt32) (length maximumLength : UInt16)
      (writes : List (ℕ × List UInt8))
  | binary (writes : List (ℕ × List UInt8))
deriving DecidableEq, Repr

/-- `sizeof(WCHAR) * 3`. -/
def nullbytes : UInt32 := 6

/-- The length of a string without a NUL at its end. -/
def withoutNul (data : List UInt8) (bytes : UInt32) : Except Stop UInt32 :=
  if 2 ≤ bytes then
    (fetch Stop.outOfBounds (data.drop (bytes - 2).toNat) 2).map fun last =>
      if last = [0, 0] then bytes - 2 else bytes
  else .ok bytes

/-- `u->MaximumLength`, with a new buffer if there was none. -/
def Target.maximum (u : Target) (bytes : UInt32) : UInt16 :=
  if u.buffer = 0 then (bytes + nullbytes).toUInt16 else u.maximumLength

/-- The size of the new buffer. -/
def Target.allocated (u : Target) (bytes : UInt32) : Option UInt32 :=
  if u.buffer = 0 then some (bytes + nullbytes) else none

/-- What is left in a `UNICODE_STRING`: its fields, the copied bytes, and NULs behind them. -/
def stringOutput (allocated : Option UInt32) (maximumLength length : UInt16)
    (copied : List UInt8) : Output :=
  .string allocated length maximumLength
    [(0, copied), (length.toNat, List.replicate (min (maximumLength.toNat - length.toNat) 6) 0)]

/-- A string of `bytes` bytes is stored in a `UNICODE_STRING`. -/
def storeString (u : Target) (data : List UInt8) (bytes : UInt32) : Except Stop Output :=
  let length := (min (u.maximum bytes).toUInt32 bytes).toUInt16
  (fetch Stop.outOfBounds data (min (u.maximum bytes).toUInt32 bytes).toNat).map
    (stringOutput (u.allocated bytes) (u.maximum bytes) length)

/-- The conversion of a `LONG` to `size_t`. -/
def sizeT (n : Int32) : UInt64 := n.toInt64.toUInt64

/-- A number is stored, or bytes with a header. `size` is the `LONG` at `EntryContext`. -/
def storeBinary (size : Int32) (type : UInt32) (data : List UInt8) (bytes : UInt32) :
    Except Stop Output :=
  if bytes ≤ 4 then
    (fetch Stop.outOfBounds data bytes.toNat).map fun copied => .binary [(0, copied)]
  else if size < 0 then
    (fetch Stop.outOfBounds data (sizeT (min (-size) bytes.toInt32)).toNat).map fun copied =>
      .binary [(0, copied)]
  else
    let v := ulong bytes ++ ulong type
    let header := v.take (min (sizeT size) 8).toNat
    if 8 < sizeT size then
      (fetch Stop.outOfBounds data (min (sizeT size - 8) bytes.toUInt64).toNat).map fun copied =>
        .binary [(0, header), (8, copied)]
    else .ok (.binary [(0, header)])

/-- `case REG_SZ`. -/
def querySz (target : Target) (data : List UInt8) (bytes : UInt32) :
    Except Stop (NtStatus × Output) := do
  let bytes ← withoutNul data bytes
  let stored ← storeString target data bytes
  .ok (statusSuccess, stored)

/-- `DdkQueryDirect`: the status, and what is stored. -/
def ddkQueryDirect (qp : TableEntry) (caller : Caller) (target : Target) (type : UInt32)
    (data : List UInt8) (bytes : UInt32) : Except Stop (NtStatus × Output) :=
  if qp.entryContext = 0 then .ok (statusInvalidParameter, .nothing)
  else if type = regMultiSz ∨ type = regExpandSz then
    if qp.noexpand = true then querySz target data bytes
    else if type = regMultiSz then .ok (statusInvalidParameter, .nothing)
    else do
      ddkExpandString caller.environment
      querySz target data bytes
  else if type = regSz then querySz target data bytes
  else if type = regDword ∨ type = regQword ∨ type = regBinary ∨ type = regDwordBigEndian then do
    let stored ← storeBinary target.long type data bytes
    .ok (statusSuccess, stored)
  else .error .fail

/-! ## Defaults -/

/-- The loop that looks for the end of a default, from index `i` on. -/
def defaultEnd (type : UInt32) (dp : List Wchar) (i : ℕ) : Except Stop ℕ :=
  match _h : wcslen (dp.drop i) with
  | .error stop => .error stop
  | .ok n =>
    let i' := i + (n + 1)
    if type = regMultiSz ∧ (i' < 2 ∨ dp.getD (i' - 1) 0 ≠ 0 ∨ dp.getD (i' - 2) 0 ≠ 0) then
      defaultEnd type dp i'
    else .ok i'
termination_by dp.length - i
decreasing_by
  have hlt := wcslen_lt _h
  rw [List.length_drop] at hlt
  omega

/-- `DdkGetDefaultValue`: the type, the data and their length. -/
def ddkGetDefaultValue (qp : TableEntry) : Except Stop (UInt32 × List UInt8 × UInt32) :=
  let type := qp.defaultType &&& 0xff
  if qp.defaultLength ≠ 0 ∨ (type ≠ regSz ∧ type ≠ regExpandSz ∧ type ≠ regMultiSz) then
    .ok (type, qp.defaultData, qp.defaultLength)
  else
    (defaultEnd type (wideChars qp.defaultData) 0).map fun i =>
      (type, qp.defaultData, UInt32.ofNat (2 * i))

/-! ## Reading a value -/

/-- `realloc`: NULL, or a block of the size. -/
structure Heap where
  realloc : UInt32 → Option (List UInt8)
  size : ∀ {len block}, realloc len = some block → block.length = len.toNat

/-- What `RegQueryValueExW` has returned: its result, and the type, the buffer and the length. -/
structure Read where
  rc : LStatus
  type : UInt32
  data : List UInt8
  bytes : UInt32

/-- `*type`, where the value is found. -/
def typeOf : Except LStatus Value → UInt32
  | .ok v => v.type
  | .error _ => regNone

/-- `len` of the next pass. -/
def growLen (len bytes : UInt32) : UInt32 :=
  if bytes > len + 4096 then bytes + nullbytes else len + 4096

/-- `memset` behind the value. -/
def terminate (rc : LStatus) (buffer : List UInt8) (bytes : UInt32) : Except Stop (List UInt8) :=
  if rc = errorSuccess then
    put Stop.outOfBounds buffer bytes.toNat (List.replicate nullbytes.toNat 0)
  else .ok buffer

/-- One pass of the loop, with a buffer of `len` bytes. -/
def readPass (found : Except LStatus Value) (len : UInt32) (buffer : List UInt8) :
    Except Stop Read := do
  let (rc, data, bytes) := readData found (len - nullbytes)
  let buffer ← put Stop.outOfBounds buffer 0 data
  let buffer ← terminate rc buffer bytes
  .ok ⟨rc, typeOf found, buffer, bytes⟩

/-- The loop, for a number of passes; there is nothing read when the memory does not suffice. -/
def readLoop (heap : Heap) (found : Except LStatus Value) :
    ℕ → UInt32 → UInt32 → Except Stop (Option Read)
  | 0, _, _ => .error .running
  | passes + 1, len, bytes =>
    match heap.realloc (growLen len bytes) with
    | none => .ok none
    | some buffer => do
      let r ← readPass found (growLen len bytes) buffer
      if r.rc = errorMoreData then readLoop heap found passes (growLen len bytes) r.bytes
      else .ok (some r)

/-! ## The query -/

/-- What a query returns and leaves: its status, the calls of the `QueryRoutine` and what is
stored. -/
structure QueryReply where
  status : NtStatus
  calls : List RoutineCall
  stored : Output
deriving DecidableEq, Repr

/-- What the buffer holds is stored. -/
def replyDirect (qp : TableEntry) (caller : Caller) (target : Target) (calls : List RoutineCall)
    (type : UInt32) (data : List UInt8) (bytes : UInt32) : Except Stop QueryReply :=
  (ddkQueryDirect qp caller target type data bytes).map fun r => ⟨r.1, calls, r.2⟩

/-- The default is stored. -/
def replyDefault (qp : TableEntry) (caller : Caller) (target : Target)
    (calls : List RoutineCall) : Except Stop QueryReply := do
  let (type, data, bytes) ← ddkGetDefaultValue qp
  replyDirect qp caller target calls type data bytes

/-- `DdkQueryValue` without a `QueryRoutine`, after the value was read. -/
def valueDirect (qp : TableEntry) (caller : Caller) (target : Target) (calls : List RoutineCall)
    (r : Read) : Except Stop QueryReply :=
  if r.rc = errorSuccess ∧ qp.typecheck = true ∧ r.type ≠ (qp.defaultType >>> 24) &&& 0xff then
    .ok ⟨statusObjectTypeMismatch, calls, .nothing⟩
  else if r.rc = errorFileNotFound then
    if qp.defaultType = regNone then
      .ok ⟨if qp.required = true then statusObjectNameNotFound else statusSuccess, calls, .nothing⟩
    else replyDefault qp caller target calls
  else if r.rc ≠ errorSuccess then .ok ⟨ddkGetRegistryStatus r.rc, calls, .nothing⟩
  else replyDirect qp caller target calls r.type r.data r.bytes

/-- `DdkQueryValue` with a `QueryRoutine`, after the value was read. -/
def valueRoutine (qp : TableEntry) (caller : Caller) (calls : List RoutineCall) (r : Read) :
    Except Stop QueryReply :=
  if r.rc ≠ errorSuccess then .ok ⟨ddkGetRegistryStatus r.rc, calls, .nothing⟩
  else (ddkQueryCallback qp caller r.type r.data r.bytes calls).map fun c =>
    ⟨c.1, c.2, .nothing⟩

/-- `DdkQueryValue`. `found` is what the key has under the name of the entry. -/
def ddkQueryValue (heap : Heap) (found : Except LStatus Value) (passes : ℕ) (qp : TableEntry)
    (caller : Caller) (target : Target) (calls : List RoutineCall) : Except Stop QueryReply :=
  if qp.direct = qp.queryRoutine then .ok ⟨statusInvalidParameter, calls, .nothing⟩
  else
    match readLoop heap found passes 0 0 with
    | .error stop => .error stop
    | .ok none => .ok ⟨statusInsufficientResources, calls, .nothing⟩
    | .ok (some r) =>
      if qp.direct = false then valueRoutine qp caller calls r
      else valueDirect qp caller target calls r

/-- Memory that is never short. -/
def zeroHeap : Heap where
  realloc len := some (List.replicate len.toNat 0)
  size h := by
    rcases Option.some.inj h with rfl
    exact List.length_replicate

theorem zeroHeap_ne_none {len : UInt32} : zeroHeap.realloc len ≠ none := by
  show some _ ≠ none
  exact nofun

/-- A caller whose `QueryRoutine` is always successful. -/
def plainCaller : Caller := ⟨0, 0, fun _ _ => statusSuccess⟩

end Wdutf.Reg
