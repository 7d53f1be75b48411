import Mathlib.Algebra.Group.Nat.Defs
import Mathlib.Algebra.Ring.Int.Defs
import Mathlib.Data.List.Basic
import Mathlib.Tactic.Common

/-!
# Wdutf.Ke.WaitTime — timeouts as numbers of milliseconds, `src/time.cpp`

A timeout is a signed number of units of 100 ns: relative if it is not positive, else a
system time. `DdkGetWaitTime` turns it into the `DWORD` of milliseconds that
`WaitForMultipleObjectsEx` and `SleepEx` take, in which `0xFFFFFFFF` means no timeout.

The relative branch keeps the low 32 bits of the quotient, whatever the rest. The absolute
branch checks the high half, but lets `0xFFFFFFFF` pass, and its difference may wrap.

* `milliseconds` — the number of milliseconds that the timeout asks for;
* `convertsExactly_iff` — exactly the timeouts that are converted as they should be, and a
  longer relative timeout among them never gives a shorter wait.
-/

namespace Wdutf.WaitTime

/-! ## The model -/

/-- `INFINITE`. -/
def infinite : UInt32 := 0xFFFFFFFF

/-- `FILETIME`, in units of 100 ns. -/
structure FileTime where
  lowDateTime : UInt32
  highDateTime : UInt32
deriving DecidableEq, Repr

/-- The parts of a `LARGE_INTEGER`, and the integer that has given parts. -/
def highPart (v : Int64) : UInt32 := (v.toUInt64 >>> 32).toUInt32

def lowPart (v : Int64) : UInt32 := v.toUInt64.toUInt32

def quadPart (high low : UInt32) : Int64 := ((high.toUInt64 <<< 32) ||| low.toUInt64).toInt64

/-- `DdkGetWaitTime`; a failure is the message of `ddkfail`. The cast to `DWORD` keeps the
low part. -/
def ddkGetWaitTime (pTimeout : Option Int64) (now : FileTime) : Except String UInt32 :=
  match pTimeout with
  | none => .ok infinite
  | some timeout =>
    if timeout ≤ 0 then .ok (lowPart (-timeout / 10000))
    else
      let v := quadPart now.highDateTime now.lowDateTime
      if timeout < v then .ok 0
      else
        let v := (timeout - v) / 10000
        if highPart v ≠ 0 then .error "Wait timeout is too large"
        else .ok (lowPart v)

/-- `DdkGetDelayTime`. -/
def ddkGetDelayTime (pTimeout : Option Int64) (now : FileTime) : Except String UInt32 :=
  match pTimeout with
  | none => .error "Timeout is zero pointer"
  | some timeout => ddkGetWaitTime (some timeout) now

/-! ## What a timeout asks for -/

/-- The time that a `FILETIME` stands for. -/
def FileTime.ticks (t : FileTime) : ℕ := t.highDateTime.toNat * 2 ^ 32 + t.lowDateTime.toNat

/-- The milliseconds from now to the end of the timeout, rounded down. -/
def milliseconds (timeout : Int64) (now : FileTime) : ℕ :=
  if timeout.toInt ≤ 0 then timeout.toInt.natAbs / 10000
  else (timeout.toInt - now.ticks).toNat / 10000

/-- The wait is as long as the timeout asks for, or the call fails if a `DWORD` has no
such finite wait; it is never the wait without a timeout. -/
structure ConvertsExactly (timeout : Int64) (now : FileTime) : Prop where
  exact : milliseconds timeout now < infinite.toNat →
    ddkGetWaitTime (some timeout) now = .ok (UInt32.ofNat (milliseconds timeout now))
  fails : infinite.toNat ≤ milliseconds timeout now →
    ∃ message, ddkGetWaitTime (some timeout) now = .error message
  finite : ddkGetWaitTime (some timeout) now ≠ .ok infinite

/-- The timeouts that are converted. A relative one must be below the first value without
a finite wait. An absolute one must not be exactly the milliseconds of `INFINITE` away; from
a time that is negative as a `LARGE_INTEGER`, the difference modulo `2 ^ 64` must be almost
none. -/
def Convertible (timeout : Int64) (now : FileTime) : Prop :=
  if timeout.toInt ≤ 0 then -timeout.toInt < 10000 * (2 ^ 32 - 1)
  else if now.ticks < 2 ^ 63 then
    timeout.toInt - now.ticks < 10000 * (2 ^ 32 - 1) ∨ 10000 * 2 ^ 32 ≤ timeout.toInt - now.ticks
  else
    timeout.toInt + 2 ^ 64 - now.ticks < 10000 ∨ 2 ^ 64 - 10000 < timeout.toInt + 2 ^ 64 - now.ticks

instance (timeout : Int64) (now : FileTime) : Decidable (Convertible timeout now) := by
  unfold Convertible
  infer_instance

/-! ## The parts of a `LARGE_INTEGER` -/

theorem ticks_lt (t : FileTime) : t.ticks < 2 ^ 64 := by
  have := t.highDateTime.toNat_lt
  have := t.lowDateTime.toNat_lt
  unfold FileTime.ticks
  omega

theorem toNat_toUInt64 (v : Int64) : (v.toUInt64.toNat : ℤ) = v.toInt % 2 ^ 64 := by
  have hcond := BitVec.toInt_eq_toNat_cond v.toBitVec
  have hlt := v.toUInt64.toNat_lt
  have hnat : v.toUInt64.toNat = v.toBitVec.toNat := rfl
  rw [Int64.toInt_toBitVec] at hcond
  split at hcond <;> omega

theorem toInt_quadPart (t : FileTime) :
    (quadPart t.highDateTime t.lowDateTime).toInt =
      if t.ticks < 2 ^ 63 then (t.ticks : ℤ) else t.ticks - 2 ^ 64 := by
  have hhigh := t.highDateTime.toNat_lt
  have hlow := t.lowDateTime.toNat_lt
  have hnat : ((t.highDateTime.toUInt64 <<< 32) ||| t.lowDateTime.toUInt64).toNat = t.ticks := by
    have hshift : (t.highDateTime.toUInt64 <<< 32).toNat = 2 ^ 32 * t.highDateTime.toNat := by
      simp only [UInt64.toNat_shiftLeft, UInt32.toNat_toUInt64, UInt64.reduceToNat, Nat.reduceMod,
        Nat.shiftLeft_eq]
      omega
    rw [UInt64.toNat_or, hshift, UInt32.toNat_toUInt64, ← Nat.two_pow_add_eq_or_of_lt hlow]
    unfold FileTime.ticks
    omega
  have hcond := BitVec.toInt_eq_toNat_cond (quadPart t.highDateTime t.lowDateTime).toBitVec
  have hquad : (quadPart t.highDateTime t.lowDateTime).toBitVec.toNat = t.ticks := hnat
  rw [Int64.toInt_toBitVec, hquad] at hcond
  rw [hcond]
  split <;> split <;> omega

theorem toNat_lowPart (v : Int64) : ((lowPart v).toNat : ℤ) = v.toInt % 2 ^ 32 := by
  have hnat := toNat_toUInt64 v
  rw [lowPart, UInt64.toNat_toUInt32]
  omega

theorem toNat_highPart (v : Int64) : ((highPart v).toNat : ℤ) = v.toInt % 2 ^ 64 / 2 ^ 32 := by
  have hnat := toNat_toUInt64 v
  have hlt := v.toUInt64.toNat_lt
  simp only [highPart, UInt64.toNat_toUInt32, UInt64.toNat_shiftRight, UInt64.reduceToNat,
    Nat.reduceMod, Nat.shiftRight_eq_div_pow]
  omega

theorem highPart_eq_zero_iff (v : Int64) : highPart v = 0 ↔ 0 ≤ v.toInt ∧ v.toInt < 2 ^ 32 := by
  have hhigh := toNat_highPart v
  have hlower := v.le_toInt
  have hupper := v.toInt_lt
  rw [← UInt32.toNat_inj]
  simp only [UInt32.toNat_zero]
  omega

theorem lowPart_eq {v : Int64} (hnonneg : 0 ≤ v.toInt) :
    lowPart v = UInt32.ofNat v.toInt.toNat := by
  have hlow := toNat_lowPart v
  rw [← UInt32.toNat_inj, UInt32.toNat_ofNat']
  omega

/-! ## The two branches -/

theorem le_zero_iff (v : Int64) : v ≤ 0 ↔ v.toInt ≤ 0 := by
  rw [Int64.le_iff_toInt_le, Int64.toInt_zero]

/-- The division rounds towards zero. -/
theorem toInt_div (v : Int64) :
    (v / 10000).toInt = if 0 ≤ v.toInt then v.toInt / 10000 else -(-v.toInt / 10000) := by
  have hlower := v.le_toInt
  have hupper := v.toInt_lt
  have hunit : (10000 : Int64).toInt = 10000 := by decide
  rw [Int64.toInt_div, hunit]
  split
  case isTrue hnonneg =>
    rw [Int.tdiv_eq_ediv_of_nonneg hnonneg]
    exact Int.bmod_eq_of_le (by omega) (by omega)
  case isFalse hneg =>
    have htdiv : v.toInt.tdiv 10000 = -(-v.toInt / 10000) := by
      rw [← Int.tdiv_eq_ediv_of_nonneg (by omega), Int.neg_tdiv, Int.neg_neg]
    rw [htdiv]
    exact Int.bmod_eq_of_le (by omega) (by omega)

theorem waitTime_relative {timeout : Int64} (now : FileTime) (hrelative : timeout.toInt ≤ 0) :
    ddkGetWaitTime (some timeout) now = .ok (lowPart (-timeout / 10000)) := by
  have hle := (le_zero_iff timeout).2 hrelative
  simp [ddkGetWaitTime, hle]

theorem waitTime_relative_of_ne_min {timeout : Int64} (now : FileTime)
    (hrelative : timeout.toInt ≤ 0) (hmin : -2 ^ 63 < timeout.toInt) :
    ddkGetWaitTime (some timeout) now = .ok (UInt32.ofNat (milliseconds timeout now)) := by
  have hneg : (-timeout).toInt = -timeout.toInt := by
    rw [Int64.toInt_neg]
    exact Int.bmod_eq_of_le (by omega) (by omega)
  have hdiv := toInt_div (-timeout)
  rw [if_pos (by omega)] at hdiv
  have hms : (-timeout / 10000).toInt.toNat = milliseconds timeout now := by
    rw [milliseconds, if_pos hrelative, hdiv, hneg]
    omega
  rw [waitTime_relative now hrelative, lowPart_eq (by omega), hms]

/-- The absolute branch, before the difference is taken. -/
theorem waitTime_past {timeout : Int64} {now : FileTime} (habsolute : ¬ timeout.toInt ≤ 0)
    (hpast : timeout.toInt < (quadPart now.highDateTime now.lowDateTime).toInt) :
    ddkGetWaitTime (some timeout) now = .ok 0 := by
  have hle := mt (le_zero_iff timeout).1 habsolute
  have hlt := Int64.lt_iff_toInt_lt.2 hpast
  simp [ddkGetWaitTime, hle, hlt]

theorem waitTime_absolute {timeout : Int64} {now : FileTime} (habsolute : ¬ timeout.toInt ≤ 0)
    (hpast : ¬ timeout.toInt < (quadPart now.highDateTime now.lowDateTime).toInt) :
    ddkGetWaitTime (some timeout) now =
      if highPart ((timeout - quadPart now.highDateTime now.lowDateTime) / 10000) ≠ 0 then
        .error "Wait timeout is too large"
      else .ok (lowPart ((timeout - quadPart now.highDateTime now.lowDateTime) / 10000)) := by
  have hle := mt (le_zero_iff timeout).1 habsolute
  have hlt := mt Int64.lt_iff_toInt_lt.1 hpast
  simp [ddkGetWaitTime, hle, hlt]

/-! ## What is converted -/

theorem convertsExactly_ok_iff {timeout : Int64} {now : FileTime} {w : UInt32}
    (hresult : ddkGetWaitTime (some timeout) now = .ok w) :
    ConvertsExactly timeout now ↔
      milliseconds timeout now < infinite.toNat ∧ w = UInt32.ofNat (milliseconds timeout now) := by
  constructor
  case mp =>
    intro hconverts
    have hlt : milliseconds timeout now < infinite.toNat := by
      by_contra hge
      rcases hconverts.fails (by omega) with ⟨message, herror⟩
      rw [hresult] at herror
      cases herror
    have hexact := hconverts.exact hlt
    rw [hresult] at hexact
    exact ⟨hlt, Except.ok.inj hexact⟩
  case mpr =>
    rintro ⟨hlt, hw⟩
    constructor
    case exact =>
      intro _
      rw [hresult, hw]
    case fails =>
      intro hge
      omega
    case finite =>
      rw [hresult, hw]
      intro h
      have htoNat := congrArg UInt32.toNat (Except.ok.inj h)
      rw [UInt32.toNat_ofNat', Nat.mod_eq_of_lt (by have := infinite.toNat_lt; omega)] at htoNat
      omega

theorem convertsExactly_error_iff {timeout : Int64} {now : FileTime} {message : String}
    (hresult : ddkGetWaitTime (some timeout) now = .error message) :
    ConvertsExactly timeout now ↔ infinite.toNat ≤ milliseconds timeout now := by
  constructor
  case mp =>
    intro hconverts
    by_contra hlt
    have hexact := hconverts.exact (by omega)
    rw [hresult] at hexact
    cases hexact
  case mpr =>
    intro hge
    constructor
    case exact =>
      intro hlt
      omega
    case fails =>
      intro _
      exact ⟨message, hresult⟩
    case finite =>
      rw [hresult]
      intro h
      cases h

theorem toNat_infinite : infinite.toNat = 2 ^ 32 - 1 := by decide

/-- The relative branch never fails, so that it must not be asked for too much. -/
theorem converts_relative_iff {timeout : Int64} (now : FileTime) (hrelative : timeout.toInt ≤ 0) :
    ConvertsExactly timeout now ↔ -timeout.toInt < 10000 * (2 ^ 32 - 1) := by
  have hms : milliseconds timeout now = timeout.toInt.natAbs / 10000 := if_pos hrelative
  rw [convertsExactly_ok_iff (waitTime_relative now hrelative), toNat_infinite]
  constructor
  case mp =>
    rintro ⟨hlt, -⟩
    omega
  case mpr =>
    intro hlt
    have hok := waitTime_relative_of_ne_min now hrelative (by omega)
    rw [waitTime_relative now hrelative] at hok
    exact ⟨by omega, Except.ok.inj hok⟩

/-- From a time that is not negative, only the milliseconds of `INFINITE` are mistaken. -/
theorem converts_absolute_iff {timeout : Int64} {now : FileTime} (habsolute : ¬ timeout.toInt ≤ 0)
    (hnow : now.ticks < 2 ^ 63) :
    ConvertsExactly timeout now ↔
      timeout.toInt - now.ticks < 10000 * (2 ^ 32 - 1) ∨
        10000 * 2 ^ 32 ≤ timeout.toInt - now.ticks := by
  have hms : milliseconds timeout now = (timeout.toInt - now.ticks).toNat / 10000 :=
    if_neg habsolute
  have hquad := toInt_quadPart now
  rw [if_pos hnow] at hquad
  by_cases hpast : timeout.toInt < (quadPart now.highDateTime now.lowDateTime).toInt
  case pos =>
    rw [convertsExactly_ok_iff (waitTime_past habsolute hpast), toNat_infinite]
    have hzero : milliseconds timeout now = 0 := by omega
    simp only [hzero]
    constructor
    · intro _
      omega
    · intro _
      exact ⟨by omega, rfl⟩
  case neg =>
    have hresult := waitTime_absolute habsolute hpast
    have hupper := timeout.toInt_lt
    have hsub : (timeout - quadPart now.highDateTime now.lowDateTime).toInt =
        timeout.toInt - now.ticks := by
      rw [Int64.toInt_sub, hquad]
      exact Int.bmod_eq_of_le (by omega) (by omega)
    have hdiv := toInt_div (timeout - quadPart now.highDateTime now.lowDateTime)
    rw [if_pos (by omega)] at hdiv
    have hq : (milliseconds timeout now : ℤ) =
        ((timeout - quadPart now.highDateTime now.lowDateTime) / 10000).toInt := by omega
    by_cases hhigh : highPart ((timeout - quadPart now.highDateTime now.lowDateTime) / 10000) = 0
    case pos =>
      have hrange := (highPart_eq_zero_iff _).1 hhigh
      rw [if_neg (not_not.2 hhigh), lowPart_eq hrange.1] at hresult
      rw [convertsExactly_ok_iff hresult, toNat_infinite, ← hq]
      simp only [Int.toNat_natCast, and_true]
      omega
    case neg =>
      have hrange := mt (highPart_eq_zero_iff _).2 hhigh
      rw [if_pos hhigh] at hresult
      rw [convertsExactly_error_iff hresult, toNat_infinite]
      omega

/-- From a time that is negative as a `LARGE_INTEGER` every timeout is over, and the code
takes the difference instead. -/
theorem converts_negative_now_iff {timeout : Int64} {now : FileTime}
    (habsolute : ¬ timeout.toInt ≤ 0) (hnow : ¬ now.ticks < 2 ^ 63) :
    ConvertsExactly timeout now ↔
      timeout.toInt + 2 ^ 64 - now.ticks < 10000 ∨
        2 ^ 64 - 10000 < timeout.toInt + 2 ^ 64 - now.ticks := by
  have hticks := ticks_lt now
  have hupper := timeout.toInt_lt
  have hms : milliseconds timeout now = (timeout.toInt - now.ticks).toNat / 10000 :=
    if_neg habsolute
  have hzero : milliseconds timeout now = 0 := by omega
  have hquad := toInt_quadPart now
  rw [if_neg hnow] at hquad
  have hpast : ¬ timeout.toInt < (quadPart now.highDateTime now.lowDateTime).toInt := by omega
  have hresult := waitTime_absolute habsolute hpast
  -- the difference as the code has it
  have hsub := Int64.toInt_sub timeout (quadPart now.highDateTime now.lowDateTime)
  generalize timeout - quadPart now.highDateTime now.lowDateTime = difference at hsub hresult
  have hlower := difference.le_toInt
  have hlt := difference.toInt_lt
  have hdiv := toInt_div difference
  have hwraps : difference.toInt = timeout.toInt + 2 ^ 64 - now.ticks ∨
      difference.toInt = timeout.toInt - now.ticks := by
    rw [Int.bmod_def] at hsub
    split at hsub <;> omega
  by_cases hhigh : highPart (difference / 10000) = 0
  case pos =>
    have hrange := (highPart_eq_zero_iff _).1 hhigh
    rw [if_neg (not_not.2 hhigh), lowPart_eq hrange.1] at hresult
    rw [convertsExactly_ok_iff hresult, toNat_infinite, hzero, ← UInt32.toNat_inj,
      UInt32.toNat_ofNat', UInt32.toNat_ofNat']
    -- without a high part the quotient must be none at all
    split at hdiv <;> omega
  case neg =>
    have hrange := mt (highPart_eq_zero_iff _).2 hhigh
    rw [if_pos hhigh] at hresult
    rw [convertsExactly_error_iff hresult, toNat_infinite]
    split at hdiv <;> omega

theorem converts_iff (timeout : Int64) (now : FileTime) :
    ConvertsExactly timeout now ↔ Convertible timeout now := by
  unfold Convertible
  split
  case isTrue hrelative => exact converts_relative_iff now hrelative
  case isFalse habsolute =>
    split
    case isTrue hnow => exact converts_absolute_iff habsolute hnow
    case isFalse hnow => exact converts_negative_now_iff habsolute hnow

/-- Two relative timeouts that are converted: the longer one waits at least as long. -/
theorem waitTime_monotone {timeout longer : Int64} {now : FileTime}
    (hrelative : timeout.toInt ≤ 0) (hlonger : longer.toInt ≤ timeout.toInt)
    (hconvertible : Convertible longer now) :
    ∃ w w', ddkGetWaitTime (some timeout) now = .ok w ∧
      ddkGetWaitTime (some longer) now = .ok w' ∧ w ≤ w' := by
  have hlt : -longer.toInt < 10000 * (2 ^ 32 - 1) := by
    have h := hconvertible
    rw [Convertible, if_pos (by omega)] at h
    exact h
  have hshort : milliseconds timeout now = timeout.toInt.natAbs / 10000 := if_pos hrelative
  have hlong : milliseconds longer now = longer.toInt.natAbs / 10000 := if_pos (by omega)
  refine ⟨_, _, waitTime_relative_of_ne_min now hrelative (by omega),
    waitTime_relative_of_ne_min now (by omega) (by omega), ?_⟩
  rw [UInt32.le_iff_toNat_le, UInt32.toNat_ofNat', UInt32.toNat_ofNat']
  omega

/-- The timeouts that are converted exactly, for a wait and for a delay, and the order of
the relative ones. -/
theorem convertsExactly_iff (timeout : Int64) (now : FileTime) :
    (ConvertsExactly timeout now ↔ Convertible timeout now) ∧
    ddkGetDelayTime (some timeout) now = ddkGetWaitTime (some timeout) now ∧
    ∀ longer : Int64, timeout ≤ 0 → longer ≤ timeout → Convertible longer now →
      ∃ w w', ddkGetWaitTime (some timeout) now = .ok w ∧
        ddkGetWaitTime (some longer) now = .ok w' ∧ w ≤ w' := by
  refine ⟨converts_iff timeout now, rfl, ?_⟩
  intro longer hrelative hlonger hconvertible
  exact waitTime_monotone ((le_zero_iff timeout).1 hrelative) (Int64.le_iff_toInt_le.1 hlonger)
    hconvertible

/-- A relative timeout of `2 ^ 32` milliseconds does not wait at all, one millisecond less
waits without a timeout, and so does an absolute one that far away. -/
theorem convertsExactly_fails :
    ¬ ConvertsExactly (-42949672960000) ⟨0, 0⟩ ∧
    ddkGetWaitTime (some (-42949672960000)) ⟨0, 0⟩ = .ok 0 ∧
    ddkGetWaitTime (some (-42949672950000)) ⟨0, 0⟩ = .ok infinite ∧
    ddkGetWaitTime (some 42949672950000) ⟨0, 0⟩ = .ok infinite := by
  refine ⟨?_, by decide, by decide, by decide⟩
  intro hconverts
  rcases hconverts.fails (by decide) with ⟨message, herror⟩
  have hok : ddkGetWaitTime (some (-42949672960000)) ⟨0, 0⟩ = .ok 0 := by decide
  rw [hok] at herror
  cases herror

end Wdutf.WaitTime
