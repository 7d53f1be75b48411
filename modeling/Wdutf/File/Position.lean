import Mathlib.Algebra.Group.Nat.Defs
import Mathlib.Data.List.Basic
import Mathlib.Data.List.Chain
import Mathlib.Tactic.Common
import Wdutf.Lib.Transition
import Wdutf.Io.Irp

/-!
# Wdutf.File.Position — the position of an open file, `src/file.cpp`

`ZwReadFile` and `ZwWriteFile` keep the position of the file themselves, in
`CurrentByteOffset`: they hand an offset to `ReadFile` or `WriteFile`, and afterwards
store that offset plus the number of bytes. What the position should be is given by the
transfers that took place (`expectedPosition`).

The stored offset is the requested one. It is not where the transfer took place if the
request is the value `-1`, which makes `WriteFile` append; and it is stored after a
transfer that failed as well.

* `law_step_iff` — from a state in which the position is right, exactly these calls make
  it wrong;
* `position_tracks` — a run without them keeps the position right, and its transfers
  without an offset are adjacent.
-/

namespace Wdutf.File

open Wdutf.Transition Wdutf.Io

/-! ## Status codes -/

def statusSuccess : NtStatus := 0
def statusUnsuccessful : NtStatus := (0xC0000001 : UInt32).toInt32
def statusAccessViolation : NtStatus := (0xC0000005 : UInt32).toInt32
def statusInvalidHandle : NtStatus := (0xC0000008 : UInt32).toInt32
def statusInvalidParameter : NtStatus := (0xC000000D : UInt32).toInt32
def statusEndOfFile : NtStatus := (0xC0000011 : UInt32).toInt32
def statusAccessDenied : NtStatus := (0xC0000022 : UInt32).toInt32
def statusBufferTooSmall : NtStatus := (0xC0000023 : UInt32).toInt32
def statusObjectNameNotFound : NtStatus := (0xC0000034 : UInt32).toInt32
def statusObjectNameCollision : NtStatus := (0xC0000035 : UInt32).toInt32
def statusObjectPathNotFound : NtStatus := (0xC000003A : UInt32).toInt32
def statusSharingViolation : NtStatus := (0xC0000043 : UInt32).toInt32
def statusInsufficientResources : NtStatus := (0xC000009A : UInt32).toInt32
def statusNotSupported : NtStatus := (0xC00000BB : UInt32).toInt32

/-- `DdkGetFileStatus`. -/
def ddkGetFileStatus (rc : UInt32) : NtStatus :=
  match rc with
  | 0 => statusSuccess
  | 5 => statusAccessDenied
  | 8 => statusInsufficientResources
  | 6 => statusInvalidHandle
  | 2 => statusObjectNameNotFound
  | 80 => statusObjectNameCollision
  | 32 => statusSharingViolation
  | 234 => statusBufferTooSmall
  | 87 => statusInvalidParameter
  | 998 => statusAccessViolation
  | 38 => statusEndOfFile
  | 3 => statusObjectPathNotFound
  | _ => statusUnsuccessful

/-! ## The model -/

/-- The part of `FILE_OBJECT` that the calls use. `DdkAllocFile` zeroes it. -/
structure FileObject where
  currentByteOffset : UInt64
deriving DecidableEq, Repr

/-- `FILE_USE_FILE_POINTER_POSITION` with a `HighPart` of `-1`. -/
def useFilePointerPosition : UInt64 := 0xFFFFFFFFFFFFFFFE

/-- `FILE_WRITE_TO_END_OF_FILE` with a `HighPart` of `-1`. -/
def writeToEndOfFile : UInt64 := 0xFFFFFFFFFFFFFFFF

/-- The arguments of `DdkReadWriteFile`; of a pointer that is not read, whether it is
not `NULL`. -/
structure Request where
  event : Bool
  apcRoutine : Bool
  ioStatusBlock : Bool
  buffer : Bool
  length : UInt32
  byteOffset : Option UInt64
  write : Bool
deriving DecidableEq, Repr

/-- What `ReadFile` or `WriteFile` returns, with `bytes` and `GetLastError`. -/
structure Transfer where
  rc : Bool
  bytes : UInt32
  lastError : UInt32
deriving DecidableEq, Repr

/-- The result of a call: the status, the status block if it was written, whether the
APC routine was called, the offset handed to Win32 if there was a transfer, and the
file object afterwards. -/
structure Reply where
  status : NtStatus
  ioStatus : Option IoStatusBlock
  apc : Bool
  overlap : Option UInt64
  file : Option FileObject
deriving DecidableEq, Repr

/-- `offset`, from the argument and the stored position. -/
def startOffset (byteOffset : Option UInt64) (currentByteOffset : UInt64) : UInt64 :=
  match byteOffset with
  | none => currentByteOffset
  | some offset => if offset = useFilePointerPosition then currentByteOffset else offset

/-- `DdkReadWriteFile` on the file object that `GetFileFromHandle` finds. -/
def ddkReadWriteFile (request : Request) (transfer : Transfer) (pFile : Option FileObject) :
    Reply :=
  if !request.ioStatusBlock || !request.buffer then
    ⟨statusInvalidParameter, none, false, none, pFile⟩
  else if request.event then ⟨statusNotSupported, none, false, none, pFile⟩
  else
    match pFile with
    | none => ⟨statusInvalidHandle, none, false, none, none⟩
    | some file =>
      let offset := startOffset request.byteOffset file.currentByteOffset
      let status := if transfer.rc then statusSuccess else ddkGetFileStatus transfer.lastError
      ⟨status, some ⟨status, transfer.bytes.toUInt64⟩, request.apcRoutine, some offset,
        some ⟨offset + transfer.bytes.toUInt64⟩⟩

/-- `FILE_INFORMATION_CLASS`. -/
inductive FileInformationClass where
  | fileBasicInformation
  | fileStandardInformation
  | filePositionInformation
  | other (number : UInt32)
deriving DecidableEq, Repr

/-- The result of a query; of the information, the position. -/
structure QueryReply where
  status : NtStatus
  ioStatus : Option IoStatusBlock
  position : Option UInt64
deriving DecidableEq, Repr

/-- `ZwQueryInformationFile`. `getFileInfo` is the result of `DdkGetFileInfo`: the bytes
copied, or the last error. -/
def zwQueryInformationFile (pFile : Option FileObject) (ioStatusBlock fileInformation : Bool)
    (length : UInt32) (fileInformationClass : FileInformationClass)
    (getFileInfo : Except UInt32 UInt32) : QueryReply :=
  match pFile with
  | none => ⟨statusInvalidHandle, none, none⟩
  | some file =>
    if !ioStatusBlock || !fileInformation then ⟨statusInvalidParameter, none, none⟩
    else
      match fileInformationClass with
      | .filePositionInformation =>
        if length < 8 then ⟨statusBufferTooSmall, some ⟨statusBufferTooSmall, 0⟩, none⟩
        else ⟨statusSuccess, some ⟨statusSuccess, 8⟩, some file.currentByteOffset⟩
      | .other _ => ⟨statusNotSupported, some ⟨statusNotSupported, 0⟩, none⟩
      | _ =>
        match getFileInfo with
        | .ok bytes => ⟨statusSuccess, some ⟨statusSuccess, bytes.toUInt64⟩, none⟩
        | .error lastError =>
          ⟨ddkGetFileStatus lastError, some ⟨ddkGetFileStatus lastError, 0⟩, none⟩

/-! ## Runs -/

/-- A transfer that took place: where, how many bytes, and whether the request named no
offset. -/
structure Range where
  start : UInt64
  bytes : UInt32
  byPosition : Bool
deriving DecidableEq, Repr

def Range.stop (r : Range) : UInt64 := r.start + r.bytes.toUInt64

/-- An open file: the file object, the end of the file, and the transfers so far. -/
structure Opened where
  file : FileObject
  endOfFile : UInt64
  transfers : List Range

/-- `WriteFile` appends if both halves of the offset are `0xFFFFFFFF`. -/
def effectiveOffset (write : Bool) (endOfFile offset : UInt64) : UInt64 :=
  if write && offset == writeToEndOfFile then endOfFile else offset

/-- A request that names no offset. -/
def Request.usesPosition (r : Request) : Bool :=
  r.byteOffset == none || r.byteOffset == some useFilePointerPosition

inductive Event where
  /-- `ZwReadFile` or `ZwWriteFile`. -/
  | call (request : Request) (transfer : Transfer)
  /-- The file is changed through another handle. -/
  | resize (endOfFile : UInt64)

/-- The open file after a call. Only a successful transfer is one, and only a write that
ends behind the end of the file moves it. -/
def Opened.afterCall (s : Opened) (request : Request) (transfer : Transfer) : Opened :=
  let reply := ddkReadWriteFile request transfer (some s.file)
  let file := reply.file.getD s.file
  match reply.overlap with
  | none => { s with file := file }
  | some offset =>
    if transfer.rc then
      let range : Range :=
        ⟨effectiveOffset request.write s.endOfFile offset, transfer.bytes, request.usesPosition⟩
      ⟨file, if request.write && s.endOfFile < range.stop then range.stop else s.endOfFile,
        s.transfers ++ [range]⟩
    else { s with file := file }

/-- What Win32 promises of a successful transfer: it is not longer than the request, and
no file reaches beyond the largest `LONGLONG`. -/
def Possible (s : Opened) (request : Request) (transfer : Transfer) : Prop :=
  transfer.rc = true → transfer.bytes ≤ request.length ∧
    (effectiveOffset request.write s.endOfFile
      (startOffset request.byteOffset s.file.currentByteOffset)).toNat +
      transfer.bytes.toNat < 2 ^ 63

def Next (s : Opened) (e : Event) (s' : Opened) : Prop :=
  match e with
  | .call request transfer => Possible s request transfer ∧ s' = s.afterCall request transfer
  | .resize endOfFile => endOfFile.toNat < 2 ^ 63 ∧ s' = { s with endOfFile := endOfFile }

/-- A file that has just been opened. -/
def Init (s : Opened) : Prop :=
  s.file.currentByteOffset = 0 ∧ s.endOfFile.toNat < 2 ^ 63 ∧ s.transfers = []

/-! ## What the position should be -/

/-- The end of the last transfer. -/
def expectedPosition (transfers : List Range) : UInt64 :=
  match transfers.getLast? with
  | none => 0
  | some r => r.stop

/-- A transfer without an offset starts where the one before it ended. -/
def Adjacent (r r' : Range) : Prop := r'.byPosition = true → r'.start = r.stop

/-- The law of the position. -/
structure Law (s : Opened) : Prop where
  reported : ∀ length : UInt32, 8 ≤ length → ∀ getFileInfo,
    zwQueryInformationFile (some s.file) true true length .filePositionInformation getFileInfo =
      ⟨statusSuccess, some ⟨statusSuccess, 8⟩, some (expectedPosition s.transfers)⟩
  adjacent : s.transfers.IsChain Adjacent

/-- `DdkReadWriteFile` gets as far as the transfer. -/
def Request.accepted (r : Request) : Bool := r.ioStatusBlock && r.buffer && !r.event

/-- A call that keeps the law: it is refused before the transfer; or the transfer
succeeds and is no write to the end of the file; or it fails and its offset and the
bytes it reports make up the position before. -/
def Keeps (s : Opened) : Event → Prop
  | .call request transfer => request.accepted = true →
    if transfer.rc then ¬ (request.write = true ∧ request.byteOffset = some writeToEndOfFile)
    else startOffset request.byteOffset s.file.currentByteOffset + transfer.bytes.toUInt64 =
      s.file.currentByteOffset
  | .resize _ => True

/-! ## One call -/

section Calls

variable {s : Opened} {request : Request} {transfer : Transfer}

/-- A call that is refused changes nothing. -/
theorem afterCall_refused (h : request.accepted = false) : s.afterCall request transfer = s := by
  have hreply : ∃ status, ddkReadWriteFile request transfer (some s.file) =
      ⟨status, none, false, none, some s.file⟩ := by
    unfold ddkReadWriteFile
    by_cases hargs : (!request.ioStatusBlock || !request.buffer) = true
    · exact ⟨_, if_pos hargs⟩
    · have hevent : request.event = true := by
        by_contra hevent
        apply hargs
        rw [Request.accepted] at h
        revert h
        cases request.ioStatusBlock <;> cases request.buffer <;> simp_all
      rw [if_neg hargs, if_pos hevent]
      exact ⟨_, rfl⟩
  rcases hreply with ⟨status, hreply⟩
  rw [Opened.afterCall, hreply]
  rfl

theorem reply_accepted (s : Opened) (transfer : Transfer) (h : request.accepted = true) :
    (ddkReadWriteFile request transfer (some s.file)).overlap =
      some (startOffset request.byteOffset s.file.currentByteOffset) ∧
    (ddkReadWriteFile request transfer (some s.file)).file =
      some ⟨startOffset request.byteOffset s.file.currentByteOffset +
        transfer.bytes.toUInt64⟩ := by
  rw [Request.accepted, Bool.and_eq_true, Bool.and_eq_true, Bool.not_eq_true'] at h
  rcases h with ⟨⟨hblock, hbuffer⟩, hevent⟩
  unfold ddkReadWriteFile
  rw [hblock, hbuffer, hevent]
  exact ⟨rfl, rfl⟩

theorem afterCall_succeeded (h : request.accepted = true) (hrc : transfer.rc = true) :
    (s.afterCall request transfer).file.currentByteOffset =
      startOffset request.byteOffset s.file.currentByteOffset + transfer.bytes.toUInt64 ∧
    (s.afterCall request transfer).transfers = s.transfers ++
      [⟨effectiveOffset request.write s.endOfFile
        (startOffset request.byteOffset s.file.currentByteOffset), transfer.bytes,
        request.usesPosition⟩] ∧
    ((s.afterCall request transfer).endOfFile = s.endOfFile ∨
      (s.afterCall request transfer).endOfFile =
        effectiveOffset request.write s.endOfFile
          (startOffset request.byteOffset s.file.currentByteOffset) +
          transfer.bytes.toUInt64) := by
  rcases reply_accepted s transfer h with ⟨hoverlap, hfile⟩
  rw [Opened.afterCall]
  simp only [hoverlap, hfile, hrc, if_true, Option.getD_some]
  refine ⟨trivial, trivial, ?_⟩
  split
  · exact Or.inr rfl
  · exact Or.inl rfl

theorem afterCall_failed (h : request.accepted = true) (hrc : transfer.rc = false) :
    s.afterCall request transfer =
      { s with file := ⟨startOffset request.byteOffset s.file.currentByteOffset +
        transfer.bytes.toUInt64⟩ } := by
  rcases reply_accepted s transfer h with ⟨hoverlap, hfile⟩
  rw [Opened.afterCall]
  simp only [hoverlap, hfile, hrc, Option.getD_some, Bool.false_eq_true, if_false]

end Calls

/-! ## The law -/

/-- The law, in terms of the stored position. -/
theorem law_iff {s : Opened} : Law s ↔
    s.file.currentByteOffset = expectedPosition s.transfers ∧ s.transfers.IsChain Adjacent := by
  constructor
  · rintro ⟨hreported, hadjacent⟩
    refine ⟨?_, hadjacent⟩
    have hquery := hreported 8 (by decide) (.ok 0)
    injection hquery with _ _ hposition
    exact Option.some.inj hposition
  · rintro ⟨hposition, hadjacent⟩
    refine ⟨fun length hlength getFileInfo => ?_, hadjacent⟩
    show (if length < 8 then _ else _) = _
    rw [if_neg (by simpa using hlength), hposition]

theorem expectedPosition_append (transfers : List Range) (r : Range) :
    expectedPosition (transfers ++ [r]) = r.stop := by
  rw [expectedPosition, List.getLast?_concat]

/-- The end of the file and the expected position are offsets in a file. -/
structure InFile (s : Opened) : Prop where
  endOfFile : s.endOfFile.toNat < 2 ^ 63
  expected : (expectedPosition s.transfers).toNat < 2 ^ 63

theorem toNat_add_bytes {x : UInt64} {n : UInt32} (h : x.toNat + n.toNat < 2 ^ 63) :
    (x + n.toUInt64).toNat = x.toNat + n.toNat := by
  rw [UInt64.toNat_add, UInt32.toNat_toUInt64]
  omega

theorem inFile_step {s s' : Opened} {e : Event} (h : InFile s) (hnext : Next s e s') :
    InFile s' := by
  cases e with
  | resize endOfFile =>
    rcases hnext with ⟨hlt, rfl⟩
    exact ⟨hlt, h.expected⟩
  | call request transfer =>
    rcases hnext with ⟨hpossible, rfl⟩
    by_cases haccepted : request.accepted = true
    swap
    · rw [afterCall_refused (by simpa using haccepted)]
      exact h
    cases hrc : transfer.rc with
    | true =>
      rcases hpossible hrc with ⟨-, hlt⟩
      rcases afterCall_succeeded (s := s) haccepted hrc with ⟨-, htransfers, hend⟩
      have hstop := toNat_add_bytes hlt
      constructor
      case endOfFile =>
        rcases hend with hend | hend
        · rw [hend]
          exact h.endOfFile
        · rw [hend, hstop]
          exact hlt
      case expected =>
        rw [htransfers, expectedPosition_append, Range.stop, hstop]
        exact hlt
    | false =>
      rw [afterCall_failed haccepted hrc]
      exact ⟨h.endOfFile, h.expected⟩

/-- A request without an offset starts at the position. -/
theorem startOffset_of_usesPosition {request : Request} (h : request.usesPosition = true)
    (position : UInt64) : startOffset request.byteOffset position = position := by
  rw [Request.usesPosition, Bool.or_eq_true, beq_iff_eq, beq_iff_eq] at h
  rcases h with h | h
  · rw [h]
    rfl
  · rw [h, startOffset, if_pos rfl]

/-- From a position inside the file only the request itself can ask to append. -/
theorem startOffset_eq_writeToEndOfFile_iff {byteOffset : Option UInt64} {position : UInt64}
    (h : position.toNat < 2 ^ 63) :
    startOffset byteOffset position = writeToEndOfFile ↔ byteOffset = some writeToEndOfFile := by
  have hne : position ≠ writeToEndOfFile := by
    rintro rfl
    exact absurd h (by decide)
  cases byteOffset with
  | none => exact ⟨fun heq => absurd heq hne, fun heq => nomatch heq⟩
  | some offset =>
    show (if offset = useFilePointerPosition then position else offset) = _ ↔ _
    rw [Option.some.injEq]
    by_cases huse : offset = useFilePointerPosition
    · rw [if_pos huse, huse]
      exact ⟨fun heq => absurd heq hne, fun heq => absurd heq (by decide)⟩
    · rw [if_neg huse]

/-- The transfer takes place at the requested offset, except when it appends. -/
theorem effectiveOffset_eq_iff {write : Bool} {endOfFile offset : UInt64}
    (h : endOfFile.toNat < 2 ^ 63) :
    effectiveOffset write endOfFile offset = offset ↔
      ¬ (write = true ∧ offset = writeToEndOfFile) := by
  unfold effectiveOffset
  by_cases happend : (write && offset == writeToEndOfFile) = true
  · rw [if_pos happend]
    rw [Bool.and_eq_true, beq_iff_eq] at happend
    refine ⟨fun heq => ?_, fun hnot => absurd happend hnot⟩
    rw [heq, happend.2] at h
    exact absurd h (by decide)
  · rw [if_neg happend]
    rw [Bool.and_eq_true, beq_iff_eq] at happend
    exact ⟨fun _ => happend, fun _ => rfl⟩

theorem isChain_concat {transfers : List Range} {r : Range} (h : transfers.IsChain Adjacent)
    (hr : r.byPosition = true → r.start = expectedPosition transfers) :
    (transfers ++ [r]).IsChain Adjacent := by
  refine List.isChain_append.2 ⟨h, List.isChain_singleton r, ?_⟩
  intro x hx y hy hby
  rw [List.head?_cons, Option.mem_def, Option.some.injEq] at hy
  subst hy
  rw [hr hby, expectedPosition, Option.mem_def.1 hx]

/-- From a state in which the law holds, a step keeps it exactly if it is one of the
calls described by `Keeps`. -/
theorem law_step_iff {s s' : Opened} {e : Event} (hfile : InFile s) (hlaw : Law s)
    (hnext : Next s e s') : Law s' ↔ Keeps s e := by
  rw [law_iff] at hlaw ⊢
  rcases hlaw with ⟨hposition, hadjacent⟩
  cases e with
  | resize endOfFile =>
    rcases hnext with ⟨-, rfl⟩
    exact ⟨fun _ => trivial, fun _ => ⟨hposition, hadjacent⟩⟩
  | call request transfer =>
    rcases hnext with ⟨-, rfl⟩
    by_cases haccepted : request.accepted = true
    swap
    · rw [afterCall_refused (by simpa using haccepted)]
      exact ⟨fun _ h => absurd h haccepted, fun _ => ⟨hposition, hadjacent⟩⟩
    have hinside : s.file.currentByteOffset.toNat < 2 ^ 63 := by
      rw [hposition]
      exact hfile.expected
    show _ ↔ (request.accepted = true → _)
    rw [imp_iff_right haccepted]
    cases hrc : transfer.rc with
    | true =>
      -- the stored offset is the requested one, the transfer starts at the effective one
      rcases afterCall_succeeded (s := s) haccepted hrc with ⟨hstored, htransfers, -⟩
      rw [hstored, htransfers, expectedPosition_append, Range.stop, if_pos rfl,
        UInt64.add_left_inj, eq_comm, effectiveOffset_eq_iff hfile.endOfFile,
        startOffset_eq_writeToEndOfFile_iff hinside]
      refine ⟨fun h => h.1, fun h => ⟨h, isChain_concat hadjacent fun huses => ?_⟩⟩
      have hstart := startOffset_of_usesPosition huses s.file.currentByteOffset
      have happend : ¬ (request.write = true ∧
          startOffset request.byteOffset s.file.currentByteOffset = writeToEndOfFile) := by
        rwa [startOffset_eq_writeToEndOfFile_iff hinside]
      show effectiveOffset _ _ _ = _
      rw [(effectiveOffset_eq_iff hfile.endOfFile).2 happend, hstart, hposition]
    | false =>
      rw [afterCall_failed haccepted hrc, if_neg (by simp)]
      show _ = expectedPosition s.transfers ∧ s.transfers.IsChain Adjacent ↔ _
      rw [← hposition]
      exact ⟨fun h => h.1, fun h => ⟨h, hadjacent⟩⟩

theorem init_law {s : Opened} (h : Init s) : InFile s ∧ Law s := by
  rcases h with ⟨hzero, hend, hnone⟩
  refine ⟨⟨hend, ?_⟩, law_iff.2 ⟨?_, ?_⟩⟩
  · rw [hnone]
    exact (by decide : (0 : UInt64).toNat < 2 ^ 63)
  · rw [hzero, hnone]
    rfl
  · rw [hnone]
    exact List.isChain_nil

/-- **File position tracking.** In a run whose calls are all of the kind described by
`Keeps`, the reported position is the end of the last transfer in every state, and
transfers without an offset are adjacent; and the first call of another kind breaks
this. -/
theorem position_tracks {es : List Event} {s : Opened}
    (h : Trace Init (fun s e s' => Next s e s' ∧ Keeps s e) es s) :
    Law s ∧ ∀ e s', Next s e s' → (Law s' ↔ Keeps s e) := by
  have hinv : InFile s ∧ Law s := by
    have hinit : ∀ s, Init s → InFile s ∧ Law s := fun _ => init_law
    have hstep : ∀ s e s', InFile s ∧ Law s → Next s e s' ∧ Keeps s e → InFile s' ∧ Law s' := by
      rintro s e s' ⟨hfile, hlaw⟩ ⟨hnext, hkeeps⟩
      exact ⟨inFile_step hfile hnext, (law_step_iff hfile hlaw hnext).2 hkeeps⟩
    exact Trace.invariant hinit hstep h
  exact ⟨hinv.2, fun e s' hnext => law_step_iff hinv.1 hinv.2 hnext⟩

/-- An empty file that has just been opened. -/
def emptyFile : Opened := ⟨⟨0⟩, 0, []⟩

/-- A write of ten bytes with the given offset, and its success. -/
def writeTen (byteOffset : Option UInt64) : Request :=
  ⟨false, false, true, true, 10, byteOffset, true⟩

def tenBytes : Transfer := ⟨true, 10, 0⟩

theorem init_emptyFile : Init emptyFile := ⟨rfl, by decide, rfl⟩

/-- Two writes without an offset put their bytes one behind the other. -/
theorem position_tracks_two_writes :
    ∃ es s, Trace Init (fun s e s' => Next s e s' ∧ Keeps s e) es s ∧
      s.transfers = [⟨0, 10, true⟩, ⟨10, 10, true⟩] ∧
      (Law s ∧ ∀ e s', Next s e s' → (Law s' ↔ Keeps s e)) := by
  have h0 : Trace Init (fun s e s' => Next s e s' ∧ Keeps s e) [] emptyFile :=
    Trace.start init_emptyFile
  have h1 := h0.snoc (e := Event.call (writeTen none) tenBytes)
    ⟨⟨fun _ => ⟨by decide, by decide⟩, rfl⟩, fun _ => by decide⟩
  have h2 := h1.snoc (e := Event.call (writeTen none) tenBytes)
    ⟨⟨fun _ => ⟨by decide, by decide⟩, rfl⟩, fun _ => by decide⟩
  exact ⟨_, _, h2, rfl, position_tracks h2⟩

/-- A write to the end of the empty file leaves the position at 9, not at 10. -/
theorem position_append_wrong : ¬ ∀ es s, Trace Init Next es s → Law s := by
  intro hall
  have h0 : Trace Init Next [] emptyFile := Trace.start init_emptyFile
  have h1 := h0.snoc (e := Event.call (writeTen (some writeToEndOfFile)) tenBytes)
    ⟨fun _ => ⟨by decide, by decide⟩, rfl⟩
  have hposition := (law_iff.1 (hall _ _ h1)).1
  exact absurd hposition (by decide)

end Wdutf.File
