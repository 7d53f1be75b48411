import Mathlib.Data.List.Basic
import Mathlib.Tactic.Common
import Wdutf.Io.Irp
import Wdutf.Rtl.Unicode

/-!
# Wdutf.Reg.Keys — registry keys of the operating system, `src/registry.cpp`

The `HKEY`s that the registry routines open and close. An `HKEY` is the hive, or is
named by the number of the call of `RegOpenKeyW`, `RegCreateKeyW` or `RegCreateKeyExW`
that returned it. `Keys` counts these calls and records the calls of `RegCloseKey`.
-/

namespace Wdutf.Reg

open Wdutf.Rtl Wdutf.Io

/-- `HKEY`. -/
inductive Hkey where
  | hive
  | opened (n : ℕ)
deriving DecidableEq

/-- The calls so far: how many keys were opened, and which were closed. -/
structure Keys where
  opened : ℕ
  closed : List Hkey

/-- A successful call that opens a key. -/
def Keys.openKey (keys : Keys) : Hkey × Keys :=
  (.opened keys.opened, { keys with opened := keys.opened + 1 })

/-- `RegCloseKey`. -/
def Keys.regCloseKey (keys : Keys) (key : Hkey) : Keys :=
  { keys with closed := key :: keys.closed }

/-! ## Status codes -/

/-- `LSTATUS`. -/
abbrev LStatus := Int32

def errorSuccess : LStatus := 0

def statusSuccess : NtStatus := 0
def statusInvalidParameter : NtStatus := (0xC000000D : UInt32).toInt32
def statusInvalidHandle : NtStatus := (0xC0000008 : UInt32).toInt32
def statusInsufficientResources : NtStatus := (0xC000009A : UInt32).toInt32
def statusAccessDenied : NtStatus := (0xC0000022 : UInt32).toInt32
def statusObjectNameNotFound : NtStatus := (0xC0000034 : UInt32).toInt32
def statusBufferTooSmall : NtStatus := (0xC0000023 : UInt32).toInt32
def statusObjectTypeMismatch : NtStatus := (0xC0000024 : UInt32).toInt32
def statusNoMoreEntries : NtStatus := (0x8000001A : UInt32).toInt32
def statusUnsuccessful : NtStatus := (0xC0000001 : UInt32).toInt32

/-- `DdkGetRegistryStatus`. -/
def ddkGetRegistryStatus (rc : LStatus) : NtStatus :=
  match rc with
  | 0 => statusSuccess
  | 5 => statusAccessDenied
  | 8 => statusInsufficientResources
  | 6 => statusInvalidHandle
  | 2 => statusObjectNameNotFound
  | 234 => statusBufferTooSmall
  | 259 => statusNoMoreEntries
  | _ => statusUnsuccessful

/-- An error stays an error. -/
theorem ntSuccess_ddkGetRegistryStatus {rc : LStatus} (h : rc ≠ errorSuccess) :
    ntSuccess (ddkGetRegistryStatus rc) = false := by
  unfold ddkGetRegistryStatus
  split
  case h_1 => exact absurd rfl h
  all_goals decide

/-! ## Paths -/

/-- A C string is empty: `*s` is NUL. -/
def emptyString (s : List Wchar) : Bool := s.headD 0 = 0

/-- `DdkUnicodeToString` with a character to remove from the start. -/
def ddkUnicodeToString (u : UnicodeString) (remove : Wchar) : List Wchar := u.dropWhile (· = remove)

end Wdutf.Reg
