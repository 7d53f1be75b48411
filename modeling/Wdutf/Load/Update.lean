import Mathlib.Algebra.Group.Nat.Defs
import Mathlib.Data.List.Basic
import Mathlib.Tactic.Common
import Wdutf.Lib.Sweep
import Wdutf.Load.ImageData

/-!
# Wdutf.Load.Update — a driver file is turned into a DLL, `src/load.cpp`

`DdkUpdateImage` works on the bytes of a driver file. It sets a flag in the headers and
clears the entry point there, links the image against `ddk.dll` in place of the kernel, and
moves its references to the shared user data. The last two are scans of the whole buffer,
which they rewrite as they go.

* `ddkUpdateImage` — the routine; access outside the buffer fails; what `memcmp` reads is a
  parameter;
* `NameAt`, `SharedAt` — where a scan replaces something;
* `ddkUpdateImage_ok_iff` — the headers do not fail, and the scans see `withHeaders`.
-/

namespace Wdutf.Load

open Wdutf.Block Wdutf.Sweep

/-! ## The model -/

/-- `IMAGE_FILE_DLL`, as bytes. -/
def imageFileDll : List UInt8 := [0x00, 0x20]

/-- `"ntoskrnl.exe"`, `"hal.dll"` and `"wmilib.sys"`. -/
def ntoskrnlExe : List UInt8 :=
  [0x6E, 0x74, 0x6F, 0x73, 0x6B, 0x72, 0x6E, 0x6C, 0x2E, 0x65, 0x78, 0x65]

def halDll : List UInt8 := [0x68, 0x61, 0x6C, 0x2E, 0x64, 0x6C, 0x6C]

def wmilibSys : List UInt8 := [0x77, 0x6D, 0x69, 0x6C, 0x69, 0x62, 0x2E, 0x73, 0x79, 0x73]

/-- `"ddk.dll"`, with its NUL. -/
def ddkDll : List UInt8 := [0x64, 0x64, 0x6B, 0x2E, 0x64, 0x6C, 0x6C, 0x00]

/-- `from` and `to`. -/
def sharedFrom : List UInt8 := [0x00, 0x00, 0x80, 0xF7, 0xFF, 0xFF]

def sharedTo : List UInt8 := [0xFE, 0x7F, 0x00, 0x00, 0x00, 0x00]

/-- `tolower` in the C locale. -/
def tolower (c : UInt8) : UInt8 := if 0x41 ≤ c ∧ c ≤ 0x5A then c + 0x20 else c

/-- `_strnicmp` finds no difference. A NUL in the buffer is one, since the names have none. -/
def strnicmp (pBuffer : List UInt8) (i : ℕ) (name : List UInt8) : Except Stop Bool :=
  reads .outOfBounds tolower pBuffer i name

/-- What `memcmp` reads of the bytes that it is to compare: all of them, which is what its
callers have to provide, or as many as it needs to find a difference. -/
inductive Memcmp where
  | all
  | toDifference
deriving DecidableEq, Repr

/-- `memcmp` finds no difference. -/
def memcmp (extent : Memcmp) (pBuffer : List UInt8) (i : ℕ) (bytes : List UInt8) :
    Except Stop Bool :=
  match extent with
  | .all => (fetch .outOfBounds (pBuffer.drop i) bytes.length).map fun cells => cells = bytes
  | .toDifference => reads .outOfBounds id pBuffer i bytes

/-- The conditions of the first scan; all its branches copy the same string. -/
def linksName (pBuffer : List UInt8) (i : ℕ) : Except Stop Bool := do
  if ← strnicmp pBuffer i ntoskrnlExe then .ok true
  else if ← strnicmp pBuffer i halDll then .ok true
  else strnicmp pBuffer i wmilibSys

/-- The conditions of the second scan. -/
def refersShared (extent : Memcmp) (pBuffer : List UInt8) (i : ℕ) : Except Stop Bool := do
  if ← memcmp extent pBuffer i sharedFrom then
    if 1 < i then
      match pBuffer[i - 1]? with
      | none => .error .outOfBounds
      | some c => .ok (decide (c < 0x80))
    else .ok false
  else .ok false

/-- A `DWORD` from its bytes. -/
def dword (bytes : List UInt8) : UInt32 :=
  UInt32.ofNat (bytes.foldr (fun b n => b.toNat + 256 * n) 0)

/-- The offset of the headers; a negative one is before the buffer. -/
def headerOffset (lfanew : Int32) : Except Stop ℕ :=
  if lfanew < 0 then .error .outOfBounds else .ok lfanew.toNatClampNeg

/-- `DdkUpdateImage`: `*pEntry`, and the buffer. -/
def ddkUpdateImage (extent : Memcmp) (pBuffer : List UInt8) (size : UInt32) :
    Except Stop (UInt32 × List UInt8) := do
  let lfanew ← fetch .outOfBounds (pBuffer.drop 60) 4
  let pHdr ← headerOffset (dword lfanew).toInt32
  let characteristics ← fetch .outOfBounds (pBuffer.drop (pHdr + 22)) 2
  let pBuffer ← put .outOfBounds pBuffer (pHdr + 22)
    (List.zipWith (· ||| ·) characteristics imageFileDll)
  let entry ← fetch .outOfBounds (pBuffer.drop (pHdr + 40)) 4
  let pBuffer ← put .outOfBounds pBuffer (pHdr + 40) [0, 0, 0, 0]
  let pBuffer ← sweep .outOfBounds linksName ddkDll size.toNat pBuffer
  let pBuffer ← sweep .outOfBounds (refersShared extent) sharedTo size.toNat pBuffer
  .ok (dword entry, pBuffer)

/-! ## The headers -/

/-- The headers lie in the buffer, those that `e_lfanew` points to at the offset `h`. -/
structure Headers (pBuffer : List UInt8) (h : ℕ) : Prop where
  dos : 64 ≤ pBuffer.length
  lfanew : (dword ((pBuffer.drop 60).take 4)).toInt32.toInt = h
  inside : h + 264 ≤ pBuffer.length

/-- The bytes of `AddressOfEntryPoint`. -/
def InEntry (h x : ℕ) : Prop := h + 40 ≤ x ∧ x < h + 44

instance (h x : ℕ) : Decidable (InEntry h x) := inferInstanceAs (Decidable (_ ∧ _))

/-- The buffer with the flag and without the entry point. -/
def withHeaders (pBuffer : List UInt8) (h : ℕ) : List UInt8 :=
  pBuffer.mapIdx fun x b => if x = h + 23 then b ||| 0x20 else if InEntry h x then 0 else b

variable {pBuffer : List UInt8} {h x : ℕ}

theorem length_withHeaders (pBuffer : List UInt8) (h : ℕ) :
    (withHeaders pBuffer h).length = pBuffer.length := List.length_mapIdx

theorem withHeaders_flag {b : UInt8} (hb : pBuffer[h + 23]? = some b) :
    (withHeaders pBuffer h)[h + 23]? = some (b ||| 0x20) := by
  rw [withHeaders, List.getElem?_mapIdx, hb, Option.map_some, if_pos rfl]

theorem withHeaders_entry (hx : InEntry h x) (hlt : x < pBuffer.length) :
    (withHeaders pBuffer h)[x]? = some 0 := by
  have hne : x ≠ h + 23 := by
    rcases hx with ⟨hle, -⟩
    omega
  rw [withHeaders, List.getElem?_mapIdx, List.getElem?_eq_getElem hlt, Option.map_some,
    if_neg hne, if_pos hx]

theorem withHeaders_other (hflag : x ≠ h + 23) (hentry : ¬ InEntry h x) :
    (withHeaders pBuffer h)[x]? = pBuffer[x]? := by
  rw [withHeaders, List.getElem?_mapIdx]
  cases pBuffer[x]? with
  | none => rfl
  | some b => rw [Option.map_some, if_neg hflag, if_neg hentry]

/-- A byte that the changed headers do not make was there before. -/
theorem withHeaders_inv {a : UInt8} (ha : (withHeaders pBuffer h)[x]? = some a) (hzero : a ≠ 0)
    (hbit : a ||| 0x20 ≠ a) : pBuffer[x]? = some a := by
  have hx := (List.getElem?_eq_some_iff.1 ha).1
  rw [length_withHeaders] at hx
  by_cases hflag : x = h + 23
  case pos =>
    rw [hflag] at ha hx
    rw [withHeaders_flag (List.getElem?_eq_getElem hx)] at ha
    rw [← Option.some.inj ha, UInt8.or_assoc, UInt8.or_self] at hbit
    exact absurd rfl hbit
  case neg =>
    by_cases hentry : InEntry h x
    case pos =>
      rw [withHeaders_entry hentry hx] at ha
      exact absurd (Option.some.inj ha).symm hzero
    case neg => rwa [withHeaders_other hflag hentry] at ha

/-- What the two writes in the headers leave. -/
theorem put_headers {flagged cleared : List UInt8} (hinside : h + 264 ≤ pBuffer.length)
    (hflag : put Stop.outOfBounds pBuffer (h + 22)
      (List.zipWith (· ||| ·) ((pBuffer.drop (h + 22)).take 2) imageFileDll) = .ok flagged)
    (hclear : put Stop.outOfBounds flagged (h + 40) [0, 0, 0, 0] = .ok cleared) :
    cleared = withHeaders pBuffer h := by
  have hlow : pBuffer[h + 22]? = some pBuffer[h + 22] := List.getElem?_eq_getElem (by omega)
  have hhigh : pBuffer[h + 23]? = some pBuffer[h + 23] := List.getElem?_eq_getElem (by omega)
  have hword : (pBuffer.drop (h + 22)).take 2 = [pBuffer[h + 22], pBuffer[h + 23]] := by
    rw [List.drop_eq_getElem_cons (by omega), List.take_succ_cons,
      List.drop_eq_getElem_cons (by omega), List.take_succ_cons, List.take_zero]
  have hpatch : List.zipWith (· ||| ·) ((pBuffer.drop (h + 22)).take 2) imageFileDll =
      [pBuffer[h + 22] ||| 0, pBuffer[h + 23] ||| 0x20] := by
    rw [hword]
    rfl
  rw [hpatch] at hflag
  apply List.ext_getElem?
  intro x
  by_cases hentry : InEntry h x
  case pos =>
    rcases hentry with ⟨hle, hlt⟩
    rw [getElem?_put_of_covers hclear ⟨hle, hlt⟩, withHeaders_entry ⟨hle, hlt⟩ (by omega)]
    have hoffset : x - (h + 40) = 0 ∨ x - (h + 40) = 1 ∨ x - (h + 40) = 2 ∨ x - (h + 40) = 3 := by
      omega
    rcases hoffset with heq | heq | heq | heq <;> rw [heq] <;> rfl
  case neg =>
    rw [getElem?_put_of_not_covers hclear fun hc => hentry ⟨hc.1, hc.2⟩]
    by_cases hx : x = h + 22 ∨ x = h + 23
    case pos =>
      have hcovers : Covers [pBuffer[h + 22] ||| 0, pBuffer[h + 23] ||| 0x20] (h + 22) x := by
        show h + 22 ≤ x ∧ x < h + 22 + 2
        omega
      rw [getElem?_put_of_covers hflag hcovers]
      rcases hx with rfl | rfl
      · rw [withHeaders_other (by omega) hentry, hlow, Nat.sub_self]
        exact congrArg some UInt8.or_zero
      · have hone : h + 23 - (h + 22) = 1 := by omega
        rw [withHeaders_flag hhigh, hone]
        rfl
    case neg =>
      rw [getElem?_put_of_not_covers hflag, withHeaders_other (by omega) hentry]
      rintro ⟨hle, hlt⟩
      simp only [List.length_cons, List.length_nil] at hlt
      omega

theorem Headers.offset (hheaders : Headers pBuffer h) :
    headerOffset (dword ((pBuffer.drop 60).take 4)).toInt32 = .ok h := by
  have hnonneg : ¬ (dword ((pBuffer.drop 60).take 4)).toInt32 < 0 := by
    rw [Int32.lt_iff_toInt_lt, hheaders.lfanew, Int32.toInt_zero]
    omega
  rw [headerOffset, if_neg hnonneg, Int32.toNatClampNeg, hheaders.lfanew, Int.toNat_natCast]

/-- The headers do not fail, and leave the rest to the scans. -/
theorem ddkUpdateImage_ok_iff (hheaders : Headers pBuffer h) {extent : Memcmp}
    {size entry : UInt32} {r : List UInt8} :
    ddkUpdateImage extent pBuffer size = .ok (entry, r) ↔
      entry = dword ((pBuffer.drop (h + 40)).take 4) ∧
      ∃ named, sweep .outOfBounds linksName ddkDll size.toNat (withHeaders pBuffer h) =
          .ok named ∧
        sweep .outOfBounds (refersShared extent) sharedTo size.toNat named = .ok r := by
  have hdos := hheaders.dos
  have hinside := hheaders.inside
  have hlfanew : fetch Stop.outOfBounds (pBuffer.drop 60) 4 = .ok ((pBuffer.drop 60).take 4) :=
    fetch_ok (by rw [List.length_drop]; omega)
  have hoffset := hheaders.offset
  have hread : fetch Stop.outOfBounds (pBuffer.drop (h + 22)) 2 =
      .ok ((pBuffer.drop (h + 22)).take 2) := fetch_ok (by rw [List.length_drop]; omega)
  have hword : (List.zipWith (· ||| ·) ((pBuffer.drop (h + 22)).take 2) imageFileDll).length =
      2 := by
    rw [List.length_zipWith, List.length_take, List.length_drop]
    show min (min 2 (pBuffer.length - (h + 22))) 2 = 2
    omega
  have hflag : put Stop.outOfBounds pBuffer (h + 22)
      (List.zipWith (· ||| ·) ((pBuffer.drop (h + 22)).take 2) imageFileDll) = .ok _ :=
    put_ok (by rw [hword]; omega)
  generalize pBuffer.take (h + 22) ++
    List.zipWith (· ||| ·) ((pBuffer.drop (h + 22)).take 2) imageFileDll ++
    pBuffer.drop (h + 22 +
      (List.zipWith (· ||| ·) ((pBuffer.drop (h + 22)).take 2) imageFileDll).length) = flagged
    at hflag
  have hlength := length_put hflag
  have hentry : fetch Stop.outOfBounds (flagged.drop (h + 40)) 4 =
      .ok ((pBuffer.drop (h + 40)).take 4) := by
    have hsame : flagged.drop (h + 40) = pBuffer.drop (h + 40) := by
      apply List.ext_getElem?
      intro k
      rw [List.getElem?_drop, List.getElem?_drop]
      refine getElem?_put_of_not_covers hflag ?_
      rintro ⟨-, hlt⟩
      omega
    rw [hsame]
    exact fetch_ok (by rw [List.length_drop]; omega)
  have hclear : put Stop.outOfBounds flagged (h + 40) [0, 0, 0, 0] = .ok _ :=
    put_ok (by rw [hlength]; show h + 40 + 4 ≤ _; omega)
  rw [put_headers hinside hflag hclear] at hclear
  unfold ddkUpdateImage
  simp only [hlfanew, hoffset, hread, hflag, hentry, hclear, bind, Except.bind]
  cases hnames : sweep Stop.outOfBounds linksName ddkDll size.toNat (withHeaders pBuffer h) with
  | error e => simp
  | ok named =>
    cases hshared : sweep Stop.outOfBounds (refersShared extent) sharedTo size.toNat named with
    | error e => simp [hshared]
    | ok r' =>
      simp only [Except.ok.injEq, Prod.mk.injEq, exists_eq_left', hshared]
      rw [eq_comm (a := entry)]

/-! ## What the scans replace -/

def names : List (List UInt8) := [ntoskrnlExe, halDll, wmilibSys]

/-- One of the names stands there. -/
def NameAt (m : List UInt8) (i : ℕ) : Prop :=
  ∃ name ∈ names, Agrees tolower m i name ∧ i + name.length ≤ m.length

/-- The name without room for the NUL stands there. -/
def HalAt (m : List UInt8) (i : ℕ) : Prop := Agrees tolower m i halDll ∧ i + 7 ≤ m.length

/-- The reference stands there, not at the start, and behind a byte below `0x80`. -/
def SharedAt (m : List UInt8) (i : ℕ) : Prop :=
  1 < i ∧ (∃ c, m[i - 1]? = some c ∧ c < 0x80) ∧ Agrees id m i sharedFrom ∧ i + 6 ≤ m.length

variable {m : List UInt8} {i : ℕ}

/-- The results of the first condition. -/
theorem linksName_cases (hi : i ≤ m.length) :
    (linksName m i = .ok true ∧ NameAt m i) ∨
    (linksName m i = .error .outOfBounds ∧
      ∃ name ∈ names, Agrees tolower m i name ∧ m.length < i + name.length) ∨
    (linksName m i = .ok false ∧ ∀ name ∈ names, ¬ Agrees tolower m i name) := by
  unfold linksName strnicmp
  rcases reads_cases Stop.outOfBounds tolower m hi ntoskrnlExe with
    ⟨heq, hagrees, hlen⟩ | ⟨heq, hagrees, hlen⟩ | ⟨heq, hne₁⟩
  · exact Or.inl ⟨by rw [heq]; rfl, _, by simp [names], hagrees, hlen⟩
  · exact Or.inr (Or.inl ⟨by rw [heq]; rfl, _, by simp [names], hagrees, hlen⟩)
  rw [heq]
  rcases reads_cases Stop.outOfBounds tolower m hi halDll with
    ⟨heq, hagrees, hlen⟩ | ⟨heq, hagrees, hlen⟩ | ⟨heq, hne₂⟩
  · exact Or.inl ⟨by rw [heq]; rfl, _, by simp [names], hagrees, hlen⟩
  · exact Or.inr (Or.inl ⟨by rw [heq]; rfl, _, by simp [names], hagrees, hlen⟩)
  rw [heq]
  rcases reads_cases Stop.outOfBounds tolower m hi wmilibSys with
    ⟨heq, hagrees, hlen⟩ | ⟨heq, hagrees, hlen⟩ | ⟨heq, hne₃⟩
  · exact Or.inl ⟨by rw [heq]; rfl, _, by simp [names], hagrees, hlen⟩
  · exact Or.inr (Or.inl ⟨by rw [heq]; rfl, _, by simp [names], hagrees, hlen⟩)
  · refine Or.inr (Or.inr ⟨by rw [heq]; rfl, ?_⟩)
    simp [names, hne₁, hne₂, hne₃]

/-- A `memcmp` that reads all bytes needs them in the buffer. -/
theorem refersShared_all (hout : m.length < i + 6) :
    refersShared .all m i = .error .outOfBounds := by
  have hfetch : fetch Stop.outOfBounds (m.drop i) sharedFrom.length = .error .outOfBounds := by
    rw [fetch, if_neg]
    rw [List.length_drop]
    show ¬ 6 ≤ m.length - i
    omega
  rw [refersShared, memcmp, hfetch]
  rfl

/-- The results of the second condition. -/
theorem refersShared_cases (hi : i ≤ m.length) :
    (refersShared .toDifference m i = .ok true ∧ SharedAt m i) ∨
    (refersShared .toDifference m i = .error .outOfBounds ∧ Agrees id m i sharedFrom ∧
      m.length < i + 6) ∨
    (refersShared .toDifference m i = .ok false ∧ ¬ SharedAt m i ∧
      (Agrees id m i sharedFrom → i + 6 ≤ m.length)) := by
  unfold refersShared memcmp
  rcases reads_cases Stop.outOfBounds id m hi sharedFrom with
    ⟨heq, hagrees, hlen⟩ | ⟨heq, hagrees, hlen⟩ | ⟨heq, hne⟩
  · change i + 6 ≤ m.length at hlen
    rw [heq]
    by_cases hstart : 1 < i
    case pos =>
      have hprevious : m[i - 1]? = some m[i - 1] := List.getElem?_eq_getElem (by omega)
      by_cases hlow : m[i - 1] < 0x80
      case pos =>
        refine Or.inl ⟨?_, hstart, ⟨_, hprevious, hlow⟩, hagrees, hlen⟩
        simp [bind, Except.bind, hstart, hprevious, hlow]
      case neg =>
        refine Or.inr (Or.inr ⟨?_, ?_, fun _ => hlen⟩)
        · simp [bind, Except.bind, hstart, hprevious, hlow]
        · rintro ⟨-, ⟨c, hc, hlt⟩, -⟩
          rw [hprevious] at hc
          rcases Option.some.inj hc with rfl
          exact hlow hlt
    case neg =>
      refine Or.inr (Or.inr ⟨?_, fun hat => hstart hat.1, fun _ => hlen⟩)
      simp [bind, Except.bind, hstart]
  · refine Or.inr (Or.inl ⟨?_, hagrees, hlen⟩)
    rw [heq]
    rfl
  · refine Or.inr (Or.inr ⟨?_, fun hat => hne hat.2.2.1, fun hagrees => absurd hagrees hne⟩)
    rw [heq]
    rfl

end Wdutf.Load
