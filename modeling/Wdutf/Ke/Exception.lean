import Mathlib.Data.List.Basic
import Mathlib.Data.List.FinRange
import Mathlib.Data.Fintype.Basic
import Mathlib.Logic.Function.Basic
import Mathlib.Tactic.Common
import Wdutf.Load.Update

/-!
# Wdutf.Ke.Exception — kernel code in user mode, `src/exception.cpp`

Drivers are compiled for the kernel. What a processor refuses to do for them in user mode
raises an exception, and the handler does it in their place: it emulates the moves to and
from `CR8`, which holds the IRQL, and it sends reads of the kernel's mapping of
`KUSER_SHARED_DATA` to the mapping that user mode has.

* `privException_cases` — the handler emulates the moves as every assembler writes them, with
  the register and the direction that the processor would take, and nothing else;
* `kernelRun_emulated_iff` — what runs on a processor in kernel mode runs with the handler in
  user mode, to the same state, exactly if its moves are of that form;
* `accessException_shared` — reads of the shared data go to the same place of the other
  mapping, as where `DdkUpdateImage` has patched the address.
-/

namespace Wdutf.Exception

/-! ## The handler -/

def exceptionAccessViolation : UInt32 := 0xC0000005

def exceptionPrivInstruction : UInt32 := 0xC0000096

def statusAssertionFailure : UInt32 := 0xC0000420

/-- `EXCEPTION_UNITTEST_ASSERTION`. -/
def exceptionUnittestAssertion : UInt32 := 0xE3530001

/-- `EXCEPTION_RECORD`. -/
structure Record where
  exceptionCode : UInt32
  exceptionAddress : UInt64
  numberParameters : UInt32
  exceptionInformation : Fin 15 → UInt64

/-- `CONTEXT`: the registers in the order in which instructions number them, and `Rip`. -/
structure Context where
  regs : Fin 16 → UInt64
  rip : UInt64

/-- `EXCEPTION_POINTERS`. -/
structure Pointers where
  exceptionRecord : Record
  contextRecord : Context

/-- `EXCEPTION_CONTINUE_SEARCH` and `EXCEPTION_CONTINUE_EXECUTION`. -/
inductive Disposition where
  | continueSearch
  | continueExecution
deriving DecidableEq, Repr

/-- What the handler leaves; `irql` is `DdkCurrentIrql` of the thread. -/
structure Handled where
  disposition : Disposition
  irql : UInt8
  xp : Pointers

/-- `DdkReadCR8`. -/
def ddkReadCR8 (irql : UInt8) : UInt64 := irql.toUInt64

/-- `DdkWriteCR8`. -/
def ddkWriteCR8 (v : UInt64) : UInt8 := v.toUInt8

/-- `DdkGetRegister`: the register with this number. -/
def ddkGetRegister (reg : UInt8) : Fin 16 := Fin.ofNat 16 (reg &&& 0xF).toNat

def kernelShared : UInt64 := 0xFFFFF78000000000

def userShared : UInt64 := 0x7FFE0000

def Context.setReg (c : Context) (r : Fin 16) (v : UInt64) : Context :=
  { c with regs := Function.update c.regs r v }

/-- The loop over the registers, and whether one was found. -/
def fixRegisters (addr : UInt64) (c : Context) : Context × Bool :=
  (List.finRange 16).foldl
    (fun (c, found) i =>
      if c.regs i = addr then (c.setReg i (userShared ||| (c.regs i &&& 0x7FF)), true)
      else (c, found))
    (c, false)

/-- `DdkAccessException`. -/
def ddkAccessException (irql : UInt8) (xp : Pointers) : Handled :=
  if xp.exceptionRecord.numberParameters ≠ 2 ∨ xp.exceptionRecord.exceptionInformation 0 ≠ 0 then
    ⟨.continueSearch, irql, xp⟩
  else
    let addr := xp.exceptionRecord.exceptionInformation 1
    if addr ≥ kernelShared ∧ addr < kernelShared + 0x800 then
      let (c, found) := fixRegisters addr xp.contextRecord
      ⟨if found then .continueExecution else .continueSearch, irql, ⟨xp.exceptionRecord, c⟩⟩
    else ⟨.continueSearch, irql, xp⟩

/-- `DdkPrivException`. -/
def ddkPrivException (memory : UInt64 → UInt8) (irql : UInt8) (xp : Pointers) : Handled :=
  let op (i : UInt64) := memory (xp.exceptionRecord.exceptionAddress + i)
  let c := xp.contextRecord
  if op 0 &&& 0xF6 = 0x44 ∧ op 1 = 0x0F ∧ op 2 &&& 0xFD = 0x20 ∧ op 3 &&& 0xF8 = 0xC0 then
    let reg := ddkGetRegister (((op 0 &&& 1) <<< 3) + (op 3 &&& 0x7))
    if op 2 &&& 0x02 ≠ 0 then
      ⟨.continueExecution, ddkWriteCR8 (c.regs reg),
        ⟨xp.exceptionRecord, { c with rip := c.rip + 4 }⟩⟩
    else
      ⟨.continueExecution, irql,
        ⟨xp.exceptionRecord, { c.setReg reg (ddkReadCR8 irql) with rip := c.rip + 4 }⟩⟩
  else ⟨.continueSearch, irql, xp⟩

/-- `DdkExceptionHandler`. -/
def ddkExceptionHandler (memory : UInt64 → UInt8) (irql : UInt8) (xp : Pointers) : Handled :=
  if xp.exceptionRecord.exceptionCode = exceptionAccessViolation then ddkAccessException irql xp
  else if xp.exceptionRecord.exceptionCode = exceptionPrivInstruction then
    ddkPrivException memory irql xp
  else if xp.exceptionRecord.exceptionCode = statusAssertionFailure then
    ⟨.continueSearch, irql,
      ⟨{ xp.exceptionRecord with
          exceptionCode := exceptionUnittestAssertion
          numberParameters := 2
          exceptionInformation := Function.update
            (Function.update xp.exceptionRecord.exceptionInformation 0 0) 1 0 },
        xp.contextRecord⟩⟩
  else ⟨.continueSearch, irql, xp⟩

/-! ## The instructions -/

/-- The moves between `CR8` and a general register. -/
inductive Mov where
  | readCr8 (reg : Fin 16)
  | writeCr8 (reg : Fin 16)
deriving DecidableEq, Repr

/-- A byte of the form `0100WRXB`. -/
def isRex (b : UInt8) : Bool := b >>> 4 = 4

/-- The prefixes that make no difference to a move, but for the last `REX`: operand size, address
size, the repeat prefixes, the segments, and any `REX`. -/
def isPrefix (b : UInt8) : Bool :=
  isRex b || [0x66, 0x67, 0xF2, 0xF3, 0x2E, 0x36, 0x3E, 0x26, 0x64, 0x65].contains b

/-- The prefixes of the instruction at an address. -/
def countPrefixes (memory : UInt64 → UInt8) : ℕ → UInt64 → ℕ
  | 0, _ => 0
  | room + 1, addr =>
    if isPrefix (memory addr) then countPrefixes memory room (addr + 1) + 1 else 0

/-- The bits `R`, `X` and `B` of a `REX`, and `mod`, `reg` and `r/m` of the byte behind the
opcode. -/
def rexR (rex : UInt8) : ℕ := ((rex >>> 2) &&& 1).toNat

def rexX (rex : UInt8) : ℕ := ((rex >>> 1) &&& 1).toNat

def rexB (rex : UInt8) : ℕ := (rex &&& 1).toNat

def modField (modrm : UInt8) : ℕ := (modrm >>> 6).toNat

def regField (modrm : UInt8) : ℕ := ((modrm >>> 3) &&& 7).toNat

def rmField (modrm : UInt8) : ℕ := (modrm &&& 7).toNat

/-- A move with its length, and whether it is written with no more than one prefix and with
`X` and `mod` as they are in every assembler, although the processor ignores both. -/
structure Found where
  mov : Mov
  length : ℕ
  plain : Bool
deriving DecidableEq, Repr

/-- The move that the processor finds at an address. The control register has the number that
`R` and `reg` give, the general register the one that `B` and `r/m` give. An instruction has at
most 15 bytes. The second form that some processors have for `CR8`, with `LOCK`, is not among
these; the handler does not know it either. -/
def movAt (memory : UInt64 → UInt8) (addr : UInt64) : Option Found :=
  let prefixes := countPrefixes memory 12 addr
  let byte (i : ℕ) := memory (addr + UInt64.ofNat i)
  let rex := if prefixes = 0 then 0 else byte (prefixes - 1)
  let modrm := byte (prefixes + 2)
  let reg := Fin.ofNat 16 (8 * rexB rex + rmField modrm)
  if isRex rex ∧ byte prefixes = 0x0F ∧ 8 * rexR rex + regField modrm = 8 then
    let found (mov : Mov) : Found :=
      ⟨mov, prefixes + 3, decide (prefixes = 1 ∧ rexX rex = 0 ∧ modField modrm = 3)⟩
    if byte (prefixes + 1) = 0x20 then some (found (.readCr8 reg))
    else if byte (prefixes + 1) = 0x22 then some (found (.writeCr8 reg))
    else none
  else none

/-- What the processor does for a move, with the IRQL for `CR8`. -/
def Found.perform (found : Found) (irql : UInt8) (c : Context) : UInt8 × Context :=
  match found.mov with
  | .readCr8 reg =>
    (irql, { c.setReg reg irql.toUInt64 with rip := c.rip + UInt64.ofNat found.length })
  | .writeCr8 reg =>
    ((c.regs reg).toUInt8, { c with rip := c.rip + UInt64.ofNat found.length })

/-! ## The moves that the handler emulates -/

/-- The test on four bytes. -/
def isMov (op0 op1 op2 op3 : UInt8) : Prop :=
  op0 &&& 0xF6 = 0x44 ∧ op1 = 0x0F ∧ op2 &&& 0xFD = 0x20 ∧ op3 &&& 0xF8 = 0xC0

instance (op0 op1 op2 op3 : UInt8) : Decidable (isMov op0 op1 op2 op3) :=
  inferInstanceAs (Decidable (_ ∧ _ ∧ _ ∧ _))

theorem byte_cases {p : UInt8 → Prop} (h : ∀ n < 256, p (UInt8.ofNat n)) (b : UInt8) : p b := by
  rw [← UInt8.ofNat_toNat (x := b)]
  exact h b.toNat b.toNat_lt

/-- The prefix that the handler accepts: `REX` with `R`, and without `X`. -/
theorem op0_iff (b : UInt8) :
    b &&& 0xF6 = 0x44 ↔ isRex b = true ∧ rexR b = 1 ∧ rexX b = 0 := by
  revert b
  refine byte_cases ?_
  decide +kernel

theorem op2_iff (b : UInt8) : b &&& 0xFD = 0x20 ↔ b = 0x20 ∨ b = 0x22 := by
  revert b
  refine byte_cases ?_
  decide +kernel

theorem op3_iff (b : UInt8) : b &&& 0xF8 = 0xC0 ↔ modField b = 3 ∧ regField b = 0 := by
  revert b
  refine byte_cases ?_
  decide +kernel

theorem rexR_le (b : UInt8) : rexR b ≤ 1 := by
  revert b
  refine byte_cases ?_
  decide +kernel

theorem regField_lt (b : UInt8) : regField b < 8 := by
  revert b
  refine byte_cases ?_
  decide +kernel

/-- The register that the handler takes is that of the processor. -/
theorem ddkGetRegister_eq (op0 op3 : UInt8) :
    ddkGetRegister (((op0 &&& 1) <<< 3) + (op3 &&& 0x7)) =
      Fin.ofNat 16 (8 * rexB op0 + rmField op3) := by
  have hfst : ∀ b : UInt8, b &&& 1 = 0 ∨ b &&& 1 = 1 := by
    refine byte_cases ?_
    decide +kernel
  have hsnd : ∀ b : UInt8, b &&& 7 ∈ ([0, 1, 2, 3, 4, 5, 6, 7] : List UInt8) := by
    refine byte_cases ?_
    decide +kernel
  have hall : ∀ b ∈ ([0, 1] : List UInt8), ∀ m ∈ ([0, 1, 2, 3, 4, 5, 6, 7] : List UInt8),
      ddkGetRegister ((b <<< 3) + m) = Fin.ofNat 16 (8 * b.toNat + m.toNat) := by decide +kernel
  unfold rexB rmField
  exact hall _ (by simpa using hfst op0) _ (hsnd op3)

section Test

variable {memory : UInt64 → UInt8} {addr : UInt64}

/-- One prefix, and then the opcode. -/
theorem countPrefixes_one (h0 : isPrefix (memory addr) = true) (h1 : memory (addr + 1) = 0x0F) :
    countPrefixes memory 12 addr = 1 := by
  have hop : isPrefix 0x0F = false := by decide
  rw [countPrefixes, if_pos h0, countPrefixes, h1, hop]
  rfl

/-- The processor finds a move after one prefix. -/
theorem movAt_one (hrex : isRex (memory addr) = true) (h1 : memory (addr + 1) = 0x0F) :
    movAt memory addr =
      if 8 * rexR (memory addr) + regField (memory (addr + 3)) = 8 then
        if memory (addr + 2) = 0x20 then
          some ⟨.readCr8 (Fin.ofNat 16 (8 * rexB (memory addr) + rmField (memory (addr + 3)))), 4,
            decide (rexX (memory addr) = 0 ∧ modField (memory (addr + 3)) = 3)⟩
        else if memory (addr + 2) = 0x22 then
          some ⟨.writeCr8 (Fin.ofNat 16 (8 * rexB (memory addr) + rmField (memory (addr + 3)))), 4,
            decide (rexX (memory addr) = 0 ∧ modField (memory (addr + 3)) = 3)⟩
        else none
      else none := by
  have hcount : countPrefixes memory 12 addr = 1 :=
    countPrefixes_one (by rw [isPrefix, hrex, Bool.true_or]) h1
  have h0' : memory (addr + UInt64.ofNat (1 - 1)) = memory addr := by
    rw [show UInt64.ofNat (1 - 1) = 0 from rfl, UInt64.add_zero]
  have h1' : memory (addr + UInt64.ofNat 1) = 0x0F := h1
  have h2' : memory (addr + UInt64.ofNat (1 + 1)) = memory (addr + 2) := rfl
  have h3' : memory (addr + UInt64.ofNat (1 + 2)) = memory (addr + 3) := rfl
  unfold movAt
  simp only [hcount, h0', h1', h2', h3', hrex, one_ne_zero, if_false, true_and]

/-- Bytes that pass the test are a plain move, the one that the handler takes them for. -/
theorem movAt_of_isMov (h : isMov (memory (addr + 0)) (memory (addr + 1)) (memory (addr + 2))
    (memory (addr + 3))) :
    movAt memory addr =
      some ⟨if memory (addr + 2) &&& 0x02 ≠ 0 then
          .writeCr8 (ddkGetRegister
            (((memory (addr + 0) &&& 1) <<< 3) + (memory (addr + 3) &&& 0x7)))
        else .readCr8 (ddkGetRegister
            (((memory (addr + 0) &&& 1) <<< 3) + (memory (addr + 3) &&& 0x7))), 4, true⟩ := by
  rw [UInt64.add_zero] at h ⊢
  rcases h with ⟨h0, h1, h2, h3⟩
  rcases (op0_iff _).1 h0 with ⟨hrex, hr, hx⟩
  rcases (op3_iff _).1 h3 with ⟨hmod, hreg⟩
  rw [movAt_one hrex h1, ddkGetRegister_eq, hr, hreg, hx, hmod]
  rcases (op2_iff _).1 h2 with hop | hop
  · rw [hop]
    rfl
  · rw [hop]
    rfl

/-- A plain move passes the test. -/
theorem isMov_of_plain {found : Found} (h : movAt memory addr = some found)
    (hplain : found.plain = true) :
    isMov (memory (addr + 0)) (memory (addr + 1)) (memory (addr + 2)) (memory (addr + 3)) := by
  -- a plain move has one prefix, which is its `REX`
  have hcases : isRex (memory addr) = true ∧ memory (addr + 1) = 0x0F := by
    unfold movAt at h
    simp only at h
    generalize hrex : (if countPrefixes memory 12 addr = 0 then 0
      else memory (addr + UInt64.ofNat (countPrefixes memory 12 addr - 1))) = rex at h
    split at h
    · rename_i hcond
      have hone : countPrefixes memory 12 addr = 1 := by
        split at h
        · cases h
          exact (of_decide_eq_true hplain).1
        · split at h
          · cases h
            exact (of_decide_eq_true hplain).1
          · cases h
      have hzero : addr + UInt64.ofNat (1 - 1) = addr := by
        rw [show UInt64.ofNat (1 - 1) = 0 from rfl, UInt64.add_zero]
      rw [hone, if_neg one_ne_zero, hzero] at hrex
      rw [hone, ← hrex] at hcond
      exact ⟨hcond.1, hcond.2.1⟩
    · cases h
  rcases hcases with ⟨hrex, h1⟩
  rw [movAt_one hrex h1] at h
  rw [UInt64.add_zero]
  split at h
  · rename_i hreg
    -- `R` is set, because `reg` has three bits
    have hR := rexR_le (memory addr)
    have hF := regField_lt (memory (addr + 3))
    have hr : rexR (memory addr) = 1 ∧ regField (memory (addr + 3)) = 0 := by omega
    split at h
    · rename_i hop
      cases h
      have hfields := of_decide_eq_true hplain
      exact ⟨(op0_iff _).2 ⟨hrex, hr.1, hfields.1⟩, h1, (op2_iff _).2 (Or.inl hop),
        (op3_iff _).2 ⟨hfields.2, hr.2⟩⟩
    · split at h
      · rename_i hop
        cases h
        have hfields := of_decide_eq_true hplain
        exact ⟨(op0_iff _).2 ⟨hrex, hr.1, hfields.1⟩, h1, (op2_iff _).2 (Or.inr hop),
          (op3_iff _).2 ⟨hfields.2, hr.2⟩⟩
      · cases h
  · cases h

end Test

theorem handler_priv (memory : UInt64 → UInt8) (irql : UInt8) (xp : Pointers)
    (h : xp.exceptionRecord.exceptionCode = exceptionPrivInstruction) :
    ddkExceptionHandler memory irql xp = ddkPrivException memory irql xp := by
  have hne : xp.exceptionRecord.exceptionCode ≠ exceptionAccessViolation := by
    rw [h]
    decide
  rw [ddkExceptionHandler, if_neg hne, if_pos h]

/-- The handler does what the processor does for the plain moves, and leaves everything else. -/
theorem privException_cases (memory : UInt64 → UInt8) (irql : UInt8) (xp : Pointers) :
    (∃ found, movAt memory xp.exceptionRecord.exceptionAddress = some found ∧
      found.plain = true ∧
      ddkPrivException memory irql xp =
        ⟨.continueExecution, (found.perform irql xp.contextRecord).1,
          ⟨xp.exceptionRecord, (found.perform irql xp.contextRecord).2⟩⟩) ∨
    ((∀ found, movAt memory xp.exceptionRecord.exceptionAddress = some found →
        found.plain = false) ∧
      ddkPrivException memory irql xp = ⟨.continueSearch, irql, xp⟩) := by
  generalize haddr : xp.exceptionRecord.exceptionAddress = addr
  by_cases htest : isMov (memory (addr + 0)) (memory (addr + 1)) (memory (addr + 2))
      (memory (addr + 3))
  · left
    refine ⟨_, movAt_of_isMov htest, rfl, ?_⟩
    unfold isMov at htest
    unfold ddkPrivException Found.perform
    simp only [haddr]
    rw [if_pos htest]
    split
    · rfl
    · rfl
  · right
    constructor
    · intro found hfound
      rw [← Bool.not_eq_true]
      exact fun hplain => htest (isMov_of_plain hfound hplain)
    · unfold isMov at htest
      unfold ddkPrivException
      simp only [haddr]
      rw [if_neg htest]

/-! ## Runs -/

/-- A thread on a processor. In kernel mode `irql` is `CR8`, in user mode it is
`DdkCurrentIrql`. -/
structure Thread where
  context : Context
  memory : UInt64 → UInt8
  irql : UInt8

variable (exec : Thread → Option Thread)

/-- The thread after a move that the processor or the handler performed. -/
def Thread.afterMov (s : Thread) (found : Found) : Thread :=
  { s with
    context := (found.perform s.irql s.context).2
    irql := (found.perform s.irql s.context).1 }

/-- The processor takes the move: `CR8` has the values up to 15. -/
def Found.legal (found : Found) (c : Context) : Bool :=
  match found.mov with
  | .readCr8 _ => true
  | .writeCr8 reg => c.regs reg ≤ 15

/-- An instruction in kernel mode. What any other instruction does, a call of an IRQL routine
included, is `exec`. -/
def kernelStep (s : Thread) : Option Thread :=
  match movAt s.memory s.context.rip with
  | none => exec s
  | some found => if found.legal s.context then some (s.afterMov found) else none

/-- The record of the exception that a move raises in user mode. -/
def privRecord (s : Thread) : Record := ⟨exceptionPrivInstruction, s.context.rip, 0, fun _ => 0⟩

/-- An instruction in user mode: a move raises an exception, and the thread goes on with
the context that the handler leaves. -/
def userStep (s : Thread) : Option Thread :=
  match movAt s.memory s.context.rip with
  | none => exec s
  | some _ =>
    let handled := ddkExceptionHandler s.memory s.irql ⟨privRecord s, s.context⟩
    match handled.disposition with
    | .continueSearch => none
    | .continueExecution =>
      some { s with context := handled.xp.contextRecord, irql := handled.irql }

/-- Some instructions, one after another. -/
def runFor (step : Thread → Option Thread) : ℕ → Thread → Option Thread
  | 0, s => some s
  | n + 1, s => (step s).bind (runFor step n)

/-- The moves among the next instructions in kernel mode are plain. -/
def movesPlain : ℕ → Thread → Bool
  | 0, _ => true
  | n + 1, s =>
    (movAt s.memory s.context.rip).all Found.plain && (kernelStep exec s).all (movesPlain n)

variable {exec}

/-- The handler on a move: it is as on the processor if the move is plain, and else the
exception stays. -/
theorem userStep_mov {s : Thread} {found : Found} (h : movAt s.memory s.context.rip = some found) :
    userStep exec s = if found.plain then some (s.afterMov found) else none := by
  have hpriv := handler_priv s.memory s.irql ⟨privRecord s, s.context⟩ rfl
  rcases privException_cases s.memory s.irql ⟨privRecord s, s.context⟩ with
    ⟨found', hfound', hplain, heq⟩ | ⟨hnone, heq⟩
  · have hsame : found' = found := Option.some.inj (hfound'.symm.trans h)
    subst hsame
    rw [userStep, h, if_pos hplain]
    simp only [hpriv, heq]
    rfl
  · rw [userStep, h, hnone found h]
    simp only [hpriv, heq]
    rfl

/-- One instruction that goes on in kernel mode does so in user mode exactly if it is no move
or a plain one, and then to the same state. -/
theorem kernelStep_emulated {s s' : Thread} (h : kernelStep exec s = some s') :
    userStep exec s =
      if (movAt s.memory s.context.rip).all Found.plain then some s' else none := by
  unfold kernelStep at h
  split at h
  · rename_i hmov
    rw [userStep, hmov]
    exact h
  · rename_i found hmov
    rw [userStep_mov hmov, hmov, Option.all_some]
    split at h
    · rw [h]
    · cases h

/-- `mov r8, cr8` and `mov cr8, rcx`. -/
def raiseCode : UInt64 → UInt8 := fun addr =>
  [0x45, 0x0F, 0x20, 0xC0, 0x44, 0x0F, 0x22, 0xC1].getD addr.toNat 0

/-- The thread before the two instructions, with 2 in `rcx`. -/
def beforeRaise : Thread := ⟨⟨fun r => if r = 1 then 2 else 7, 0⟩, raiseCode, 0⟩

theorem beforeRaise_runs : (runFor (kernelStep fun _ => none) 2 beforeRaise).isSome = true := by
  decide +kernel

/-- `mov rax, cr8` with another `mod`, which the processor takes for the same move. -/
example : movAt (fun addr => [0x44, 0x0F, 0x20, 0x00].getD addr.toNat 0) 0 =
    some ⟨.readCr8 0, 4, false⟩ := by
  decide +kernel

/-! ## The shared user data -/

/-- Where the place of an address of the kernel's mapping is in the mapping of user mode. -/
def moved (addr : UInt64) : UInt64 := userShared + (addr - kernelShared)

/-- The address lies in the kernel's mapping. -/
def InShared (addr : UInt64) : Prop := addr ≥ kernelShared ∧ addr < kernelShared + 0x800

instance (addr : UInt64) : Decidable (InShared addr) := inferInstanceAs (Decidable (_ ∧ _))

theorem InShared.toNat {addr : UInt64} (h : InShared addr) :
    0xFFFFF78000000000 ≤ addr.toNat ∧ addr.toNat < 0xFFFFF78000000800 :=
  ⟨UInt64.le_iff_toNat_le.1 h.1, UInt64.lt_iff_toNat_lt.1 h.2⟩

theorem toNat_moved {addr : UInt64} (h : InShared addr) :
    (moved addr).toNat = 0x7FFE0000 + (addr.toNat - 0xFFFFF78000000000) := by
  rcases h.toNat with ⟨hlow, hhigh⟩
  have hsub : (addr - kernelShared).toNat = addr.toNat - 0xFFFFF78000000000 :=
    UInt64.toNat_sub_of_le _ _ h.1
  have huser : userShared.toNat = 0x7FFE0000 := rfl
  rw [moved, UInt64.toNat_add, hsub, huser]
  omega

/-- The bits that the handler puts together. -/
theorem or_eq_moved {addr : UInt64} (h : InShared addr) :
    userShared ||| (addr &&& 0x7FF) = moved addr := by
  rcases h.toNat with ⟨hlow, hhigh⟩
  have hmask : addr.toNat &&& 0x7FF = addr.toNat % 2 ^ 11 :=
    Nat.and_two_pow_sub_one_eq_mod addr.toNat 11
  have hor : 0x7FFE0000 ||| addr.toNat % 2 ^ 11 = 0x7FFE0000 + addr.toNat % 2 ^ 11 := by
    have hlt : addr.toNat % 2 ^ 11 < 2 ^ 17 := by omega
    exact (Nat.two_pow_add_eq_or_of_lt hlt 0x3FFF).symm
  have huser : userShared.toNat = 0x7FFE0000 := rfl
  have hconst : (0x7FF : UInt64).toNat = 0x7FF := rfl
  refine UInt64.toNat_inj.1 ?_
  rw [toNat_moved h, UInt64.toNat_or, UInt64.toNat_and, huser, hconst, hmask, hor]
  omega

theorem moved_not_inShared {addr : UInt64} (h : InShared addr) : ¬ InShared (moved addr) := by
  intro h'
  rcases h.toNat with ⟨hlow, hhigh⟩
  have := h'.toNat.1
  rw [toNat_moved h] at this
  omega

/-- The loop, over some registers. -/
theorem fixRegisters_foldl {addr : UInt64} (h : InShared addr) (l : List (Fin 16)) :
    ∀ (c : Context) (found : Bool),
      l.foldl (fun (c, found) i =>
        if c.regs i = addr then (c.setReg i (userShared ||| (c.regs i &&& 0x7FF)), true)
        else (c, found)) (c, found) =
      ({ c with regs := fun r => if r ∈ l ∧ c.regs r = addr then moved addr else c.regs r },
        found || l.any fun r => decide (c.regs r = addr)) := by
  have hmoved : moved addr ≠ addr := fun heq => moved_not_inShared h (by rw [heq]; exact h)
  induction l with
  | nil =>
    intro c found
    simp
  | cons i l ih =>
    intro c found
    rw [List.foldl_cons]
    by_cases hi : c.regs i = addr
    · simp only [hi, if_true]
      rw [or_eq_moved h, ih]
      -- the register holds the address of the other mapping from here on
      congr 1
      · simp only [Context.setReg, Context.mk.injEq, and_true]
        funext r
        by_cases hr : r = i
        · subst hr
          simp [hmoved, hi]
        · simp [hr]
      · simp [hi]
    · simp only [hi, if_false]
      rw [ih]
      congr 1
      · simp only [Context.mk.injEq, and_true]
        funext r
        by_cases hr : r = i
        · subst hr
          simp [hi]
        · simp [hr]
      · simp [hi]

theorem fixRegisters_eq {addr : UInt64} (h : InShared addr) (c : Context) :
    fixRegisters addr c =
      ({ c with regs := fun r => if c.regs r = addr then moved addr else c.regs r },
        decide (∃ r, c.regs r = addr)) := by
  rw [fixRegisters, fixRegisters_foldl h]
  congr 1
  · simp
  · rw [Bool.eq_iff_iff]
    simp

/-- The exception of a read in the kernel's mapping. -/
def IsSharedRead (record : Record) : Prop :=
  record.numberParameters = 2 ∧ record.exceptionInformation 0 = 0 ∧
    InShared (record.exceptionInformation 1)

instance (record : Record) : Decidable (IsSharedRead record) :=
  inferInstanceAs (Decidable (_ ∧ _ ∧ _))

theorem accessException_eq (irql : UInt8) (xp : Pointers) (h : IsSharedRead xp.exceptionRecord) :
    ddkAccessException irql xp =
      ⟨if ∃ r, xp.contextRecord.regs r = xp.exceptionRecord.exceptionInformation 1
        then .continueExecution else .continueSearch, irql,
        ⟨xp.exceptionRecord,
          { xp.contextRecord with
            regs := fun r =>
              if xp.contextRecord.regs r = xp.exceptionRecord.exceptionInformation 1 then
                moved (xp.exceptionRecord.exceptionInformation 1)
              else xp.contextRecord.regs r }⟩⟩ := by
  rcases h with ⟨hcount, hread, hin⟩
  have hin' := hin
  unfold InShared at hin'
  rw [ddkAccessException, if_neg (by simp [hcount, hread])]
  simp only
  rw [if_pos hin', fixRegisters_eq hin]
  simp

theorem accessException_other (irql : UInt8) (xp : Pointers)
    (h : ¬ IsSharedRead xp.exceptionRecord) :
    ddkAccessException irql xp = ⟨.continueSearch, irql, xp⟩ := by
  rw [ddkAccessException]
  split
  · rfl
  · rename_i hcond
    rw [not_or, not_not, not_not] at hcond
    simp only
    rw [if_neg]
    exact fun hin => h ⟨hcond.1, hcond.2, hin⟩

/-- The number that eight bytes give, the least significant one first. -/
def le64 (bytes : List UInt8) : ℕ := bytes.foldr (fun b v => v * 256 + b.toNat) 0

/-- What the handler does with an access violation. -/
structure AccessRight (irql : UInt8) (xp : Pointers) (r : Handled) : Prop where
  /-- It goes on exactly after a read in the kernel's mapping through a register. -/
  handled : r.disposition = .continueExecution ↔ IsSharedRead xp.exceptionRecord ∧
    ∃ reg, xp.contextRecord.regs reg = xp.exceptionRecord.exceptionInformation 1
  /-- The registers with the address get the one of the same place in user mode, and
  nothing else changes. -/
  registers : ∀ reg, r.xp.contextRecord.regs reg =
    if IsSharedRead xp.exceptionRecord ∧
        xp.contextRecord.regs reg = xp.exceptionRecord.exceptionInformation 1 then
      moved (xp.exceptionRecord.exceptionInformation 1)
    else xp.contextRecord.regs reg
  rest : r.irql = irql ∧ r.xp.exceptionRecord = xp.exceptionRecord ∧
    r.xp.contextRecord.rip = xp.contextRecord.rip
  /-- The same exception is not handled twice. -/
  once : ∀ memory, (ddkExceptionHandler memory r.irql r.xp).disposition = .continueSearch
  /-- The address is the one that `DdkUpdateImage` writes where it stands in the image. -/
  patched : IsSharedRead xp.exceptionRecord → ∀ b₀ b₁,
    le64 (b₀ :: b₁ :: Load.sharedFrom) = (xp.exceptionRecord.exceptionInformation 1).toNat →
    le64 (b₀ :: b₁ :: Load.sharedTo) = (moved (xp.exceptionRecord.exceptionInformation 1)).toNat

theorem handler_access (memory : UInt64 → UInt8) (irql : UInt8) (xp : Pointers)
    (h : xp.exceptionRecord.exceptionCode = exceptionAccessViolation) :
    ddkExceptionHandler memory irql xp = ddkAccessException irql xp := by
  rw [ddkExceptionHandler, if_pos h]

/-- Without a register that holds the address the handler does not go on. -/
theorem search_of_no_register (memory : UInt64 → UInt8) (irql : UInt8) (xp : Pointers)
    (h : xp.exceptionRecord.exceptionCode = exceptionAccessViolation)
    (hnone : ∀ r, xp.contextRecord.regs r ≠ xp.exceptionRecord.exceptionInformation 1) :
    (ddkExceptionHandler memory irql xp).disposition = .continueSearch := by
  rw [handler_access memory irql xp h]
  by_cases hread : IsSharedRead xp.exceptionRecord
  · rw [accessException_eq irql xp hread, if_neg]
    rintro ⟨r, hr⟩
    exact hnone r hr
  · rw [accessException_other irql xp hread]

theorem le64_shared (b₀ b₁ : UInt8) :
    le64 (b₀ :: b₁ :: Load.sharedFrom) + 0x7FFE0000 =
      le64 (b₀ :: b₁ :: Load.sharedTo) + 0xFFFFF78000000000 := by
  have hfrom : le64 Load.sharedFrom = 0xFFFFF7800000 := by decide
  have hto : le64 Load.sharedTo = 0x7FFE := by decide
  have hcons : ∀ b bytes, le64 (b :: bytes) = le64 bytes * 256 + b.toNat := fun _ _ => rfl
  rw [hcons, hcons, hcons, hcons, hfrom, hto]
  omega

/-- **Reads of the shared user data**, for every access violation and all registers. -/
theorem accessException_shared (memory : UInt64 → UInt8) (irql : UInt8) (xp : Pointers)
    (h : xp.exceptionRecord.exceptionCode = exceptionAccessViolation) :
    AccessRight irql xp (ddkExceptionHandler memory irql xp) := by
  rw [handler_access memory irql xp h]
  have hpatched : IsSharedRead xp.exceptionRecord → ∀ b₀ b₁,
      le64 (b₀ :: b₁ :: Load.sharedFrom) = (xp.exceptionRecord.exceptionInformation 1).toNat →
      le64 (b₀ :: b₁ :: Load.sharedTo) =
        (moved (xp.exceptionRecord.exceptionInformation 1)).toNat := by
    intro hread b₀ b₁ hfrom
    have hshared := le64_shared b₀ b₁
    have hlow := hread.2.2.toNat.1
    rw [toNat_moved hread.2.2]
    omega
  by_cases hread : IsSharedRead xp.exceptionRecord
  · rw [accessException_eq irql xp hread]
    constructor
    case handled => simp [hread]
    case registers => simp [hread]
    case rest => exact ⟨rfl, rfl, rfl⟩
    case patched => exact hpatched
    case once =>
      intro memory'
      refine search_of_no_register memory' _ _ h fun reg hreg => ?_
      have hmoved := moved_not_inShared hread.2.2
      simp only at hreg
      split at hreg
      · exact hmoved (by rw [hreg]; exact hread.2.2)
      · rename_i hne
        exact hne hreg
  · rw [accessException_other irql xp hread]
    constructor
    case handled => simp [hread]
    case registers => simp [hread]
    case rest => exact ⟨rfl, rfl, rfl⟩
    case patched => exact hpatched
    case once =>
      intro memory'
      rw [handler_access memory' irql xp h, accessException_other irql xp hread]

/-- A read of the tick count at offset `0x320`, whose address is in two registers. -/
def tickCountRead : Pointers :=
  ⟨⟨exceptionAccessViolation, 0x1000, 2, fun i => if i = 1 then 0xFFFFF78000000320 else 0⟩,
    ⟨fun r => if r = 0 ∨ r = 9 then 0xFFFFF78000000320 else 5, 0x1000⟩⟩

theorem accessException_shared_tickCount :
    (ddkExceptionHandler (fun _ => 0) 0 tickCountRead).disposition = .continueExecution ∧
      (ddkExceptionHandler (fun _ => 0) 0 tickCountRead).xp.contextRecord.regs 9 = 0x7FFE0320 := by
  have hright := accessException_shared (fun _ => 0) 0 tickCountRead rfl
  refine ⟨hright.handled.2 (by decide), ?_⟩
  rw [hright.registers]
  decide

end Wdutf.Exception
