import Mathlib.Data.List.Basic
import Mathlib.Tactic.Common
import Wdutf.Io.Irp
import Wdutf.Ob.Lookup

/-!
# Wdutf.Ob.Symlink — symbolic links and opens through them, `src/symlink.cpp` and `src/file.cpp`

The routines of symbolic links, and `IoCreateFileEx` on the names of devices. What
the reference of a lookup comes to on each way out of these routines:

* `ddkResolveSymbolicLink_follow` — the resolution trades the reference on a link
  for one on what the link leads to;
* `openDevice_device`, `openDevice_other`, `ddkIoCreateDevice_cases` — an open keeps the
  reference on the device, loses the one on another object, or has none;
* `intact_iff` — so a call that fails leaves all reference counts as they were
  exactly when it has found no object that it turns down.
-/

namespace Wdutf.Ob

open Wdutf.Action Wdutf.Rtl
open Wdutf.Io (NtStatus ntSuccess IoStatusBlock)

/-! ## The routines -/

/-- `STATUS_SUCCESS`. -/
def statusSuccess : NtStatus := 0

/-- `STATUS_OBJECT_NAME_EXISTS`. -/
def statusObjectNameExists : NtStatus := (0x40000000 : UInt32).toInt32

/-- `STATUS_STOPPED_ON_SYMLINK`. -/
def statusStoppedOnSymlink : NtStatus := (0x8000002D : UInt32).toInt32

/-- `STATUS_INVALID_PARAMETER`. -/
def statusInvalidParameter : NtStatus := (0xC000000D : UInt32).toInt32

/-- `STATUS_OBJECT_NAME_NOT_FOUND`. -/
def statusObjectNameNotFound : NtStatus := (0xC0000034 : UInt32).toInt32

/-- `STATUS_INSUFFICIENT_RESOURCES`. -/
def statusInsufficientResources : NtStatus := (0xC000009A : UInt32).toInt32

/-- `IoCreateSymbolicLink`; `memory` tells whether the allocation succeeds. -/
def ioCreateSymbolicLink (memory : Bool) (symbolicLinkName deviceName : UnicodeString) :
    ObM NtStatus := do
  ddkAssert (decide (deviceName ≠ []))
  ddkAssert (decide (symbolicLinkName ≠ []))
  if memory then
    -- the copy in `Buffer` ends at the first NUL
    let destination ← rtlInitUnicodeString deviceName
    let pLink ← ddkAllocObject (.symlink destination true)
    if ← ddkInsertName symbolicLinkName pLink [] then pure statusSuccess
    else pure statusObjectNameExists
  else pure statusInsufficientResources

/-- `IoDeleteSymbolicLink`. -/
def ioDeleteSymbolicLink (symbolicLinkName : UnicodeString) : ObM NtStatus := do
  ddkAssert (decide (symbolicLinkName ≠ []))
  match ← ddkLookupName symbolicLinkName [] with
  | none => pure statusObjectNameNotFound
  | some pObj =>
    match (← getObject pObj).body with
    | .symlink _ _ =>
      ddkRemoveObjectName pObj
      ddkDereferenceObject pObj
      pure statusSuccess
    | _ => pure statusObjectNameNotFound

/-- The condition of the loop of `DdkResolveSymbolicLink`: the link that `pObj`
points to. -/
def symbolicLink (pObj : Option ObjId) : ObM (Option (ObjId × UnicodeString × Bool)) := do
  match pObj with
  | none => pure none
  | some o =>
    match (← getObject o).body with
    | .symlink destination enabled => pure (some (o, destination, enabled))
    | _ => pure none

/-- The loop of `DdkResolveSymbolicLink`, with the turns that are left. -/
def resolveLoop : ℕ → Option ObjId → ObM (Option ObjId)
  | 0, pObj => do
    match ← symbolicLink pObj with
    | none => pure pObj
    | some _ => throw .ddkfail
  | turns + 1, pObj => do
    match ← symbolicLink pObj with
    | none => pure pObj
    | some (pSym, destination, enabled) =>
      if enabled then
        let next ← ddkLookupName destination []
        obfDereferenceObject pSym
        resolveLoop turns next
      else pure pObj

/-- `DdkResolveSymbolicLink`. The test `count++ > 1000` lets 1001 turns pass. -/
def ddkResolveSymbolicLink (pObj : Option ObjId) : ObM (Option ObjId) := resolveLoop 1001 pObj

/-- `DdkIsFilePath`. -/
def ddkIsFilePath (path : UnicodeString) : Bool :=
  let wp := path.dropWhile (· == backslash)
  let wp := if wp.take 3 == [0x3F, 0x3F, backslash] then wp.drop 3 else wp
  match wp with
  | _ :: c :: _ => c == 0x3A
  | _ => false

/-- `IO_STOP_ON_SYMLINK`. -/
def ioStopOnSymlink : UInt32 := 0x0008

/-- `FILE_OPENED`. -/
def fileOpened : UInt64 := 1

/-- `FILE_EXISTS`. -/
def fileExists : UInt64 := 4

/-- `FILE_DOES_NOT_EXIST`. -/
def fileDoesNotExist : UInt64 := 5

/-- The members of `OBJECT_ATTRIBUTES` that `IoCreateFileEx` reads. `rootDirectory` tells
whether that handle is given. -/
structure ObjectAttributes where
  objectName : Option UnicodeString
  rootDirectory : Bool
deriving DecidableEq, Repr

/-- What an open returns and writes: its status, `*IoStatusBlock` and `*FileHandle`. -/
structure FileReply where
  status : NtStatus
  ioStatusBlock : Option IoStatusBlock
  fileHandle : Option ObjId
deriving DecidableEq, Repr

/-- `SetStatus`. -/
def setStatus (status : NtStatus) (info : UInt64) (file : Option ObjId) : FileReply :=
  ⟨status, some ⟨status, info⟩, file⟩

/-- The end of `DdkIoCreateDevice`, from the test of the type on. -/
def openDevice (memory : Bool) (pObj : Option ObjId) : ObM FileReply := do
  match pObj with
  | none => pure (setStatus statusObjectNameNotFound fileDoesNotExist none)
  | some o =>
    match (← getObject o).body with
    | .device _ _ =>
      if memory then
        let pFile ← ddkAllocObject (.file (some o))
        pure (setStatus statusSuccess fileOpened (some pFile))
      else
        ddkDereferenceObject o
        pure (setStatus statusInsufficientResources fileExists none)
    | _ => pure (setStatus statusObjectNameNotFound fileDoesNotExist none)

/-- `DdkIoCreateDevice`; `memory` tells whether the allocation succeeds. -/
def ddkIoCreateDevice (memory : Bool) (objectName : UnicodeString) (options : UInt32) :
    ObM FileReply := do
  let pObj ← ddkLookupName objectName []
  match ← symbolicLink pObj with
  | some _ =>
    if options &&& ioStopOnSymlink != 0 then
      pure (setStatus statusStoppedOnSymlink fileDoesNotExist none)
    else openDevice memory (← ddkResolveSymbolicLink pObj)
  | none => openDevice memory pObj

/-- `IoCreateFileEx`. The files of the file system, which `DdkIoCreateFile` opens, are a
parameter. -/
def ioCreateFileEx (ddkIoCreateFile : UnicodeString → ObM FileReply) (memory : Bool)
    (objectAttributes : Option ObjectAttributes) (ioStatusBlock : Bool) (options : UInt32) :
    ObM FileReply := do
  match objectAttributes with
  | some ⟨some objectName, rootDirectory⟩ =>
    if ioStatusBlock then
      ddkAssert !rootDirectory
      if ddkIsFilePath objectName then ddkIoCreateFile objectName
      else ddkIoCreateDevice memory objectName options
    else pure ⟨statusInvalidParameter, none, none⟩
  | _ => pure ⟨statusInvalidParameter, none, none⟩

/-! ## What a link leads to -/

/-- The object is a symbolic link. -/
def State.isLink (s : State) (o : ObjId) : Bool :=
  match s.objects o with
  | some ⟨_, .symlink _ _⟩ => true
  | _ => false

/-- The object is a device. -/
def State.isDevice (s : State) (o : ObjId) : Bool :=
  match s.objects o with
  | some ⟨_, .device _ _⟩ => true
  | _ => false

/-- The path that an enabled link leads to. -/
def State.linkTarget (s : State) (p : Option ObjId) : Option UnicodeString :=
  match p.bind s.objects with
  | some ⟨_, .symlink destination true⟩ => some (canonicalPath destination [])
  | _ => none

/-- The end of the chain of enabled links from a pointer on, if the chain has no more
than `length` links. -/
def State.follow (s : State) : ℕ → Option ObjId → Option (Option ObjId)
  | 0, p => if (s.linkTarget p).isSome then none else some p
  | length + 1, p =>
    match s.linkTarget p with
    | none => some p
    | some path => s.follow length (s.findLive path)

/-- Somebody holds a reference on what the pointer points to. -/
def HeldAt (s : State) (p : Option ObjId) : Prop :=
  ∀ o ∈ p, ∃ ob, s.objects o = some ob ∧ 1 ≤ ob.refcount

section Follow

variable {s : State} {p q : Option ObjId} {o : ObjId} {ob : Object}

theorem Table.heldAt (h : Table s) (path : UnicodeString) : HeldAt s (s.findLive path) :=
  fun _ ho => h.findLive_held ho

theorem Table.refOn (h : Table s) (p : Option ObjId) : Table (s.addRefs (refOn p)) :=
  h.addRefs fun o _ _ hnonneg => Int.add_nonneg hnonneg (refOn_nonneg p o)

theorem findLive_refOn (hp : HeldAt s p) (path : UnicodeString) :
    (s.addRefs (refOn p)).findLive path = s.findLive path := by
  apply findLive_addRefs
  intro o ob hob
  cases p with
  | none => simp [refOn]
  | some x =>
    by_cases hx : o = x
    · rcases hp x rfl with ⟨obx, hobx, hpos⟩
      rw [hx, hobx] at hob
      rcases Option.some.inj hob with rfl
      rw [hx, refOn_self]
      omega
    · rw [refOn_of_ne hx, Int.add_zero]

/-- The reference on `o` is given back, and the one on `q` stays. -/
theorem obfDereferenceObject_refOn (hob : s.objects o = some ob) (hpos : 1 ≤ ob.refcount)
    (q : Option ObjId) :
    obfDereferenceObject o ((s.addRefs (refOn (some o))).addRefs (refOn q)) =
      .ok () (s.addRefs (refOn q)) := by
  have hnonneg := refOn_nonneg q o
  have hob' := addRefs_some (f := refOn q) (addRefs_some (f := refOn (some o)) hob)
  rw [obfDereferenceObject, bind_ok (fromPointer_ok hob' (by simp only [refOn_self]; omega)),
    ddkDereferenceObject_addRefs hob' (by simp only [refOn_self]; omega), addRefs_addRefs,
    addRefs_addRefs]
  congr 2
  funext x
  by_cases hx : x = o
  · rw [hx, Pi.add_apply, Pi.add_apply, refOn_self, Pi.single_eq_same]
    omega
  · simp [refOn_of_ne hx, Pi.single_eq_of_ne hx]

/-- The loop condition only reads. -/
theorem symbolicLink_state {s t : State} {link : Option (ObjId × UnicodeString × Bool)}
    (h : symbolicLink p s = .ok link t) : t = s := by
  cases p with
  | none => exact (result_eq (pure_run _ s) h).2.symm
  | some o =>
    cases hob : s.objects o with
    | none =>
      have hget : getObject o s = .error .useAfterFree s := by rw [getObject, hob]
      simp only [symbolicLink, bind_error hget] at h
      cases h
    | some ob =>
      rcases ob with ⟨rc, body⟩
      simp only [symbolicLink, bind_ok (getObject_ok hob)] at h
      cases body <;> exact (result_eq (pure_run _ s) h).2.symm

theorem linkTarget_some {path : UnicodeString} (h : s.linkTarget p = some path) :
    ∃ o rc destination, p = some o ∧ s.objects o = some ⟨rc, .symlink destination true⟩ ∧
      path = canonicalPath destination [] := by
  unfold State.linkTarget at h
  split at h
  · rename_i rc destination hlink
    rcases Option.bind_eq_some_iff.1 hlink with ⟨o, rfl, hob⟩
    exact ⟨o, rc, destination, rfl, hob, (Option.some.inj h).symm⟩
  · cases h

/-- The loop stops at what is no enabled link. -/
theorem resolveLoop_stop (hp : HeldAt s p) (hnone : s.linkTarget p = none) (f : ObjId → ℤ)
    (turns : ℕ) : resolveLoop (turns + 1) p (s.addRefs f) = .ok p (s.addRefs f) := by
  rw [resolveLoop]
  cases p with
  | none => rfl
  | some o =>
    rcases hp o rfl with ⟨⟨rc, body⟩, hob, -⟩
    have hget := getObject_ok (addRefs_some (f := f) hob)
    cases body with
    | symlink destination enabled =>
      cases enabled with
      | true => simp [State.linkTarget, hob] at hnone
      | false =>
        have hlink : symbolicLink (some o) (s.addRefs f) =
            .ok (some (o, destination, false)) (s.addRefs f) := by
          simp only [symbolicLink, bind_ok hget]
          rfl
        rw [bind_ok hlink]
        rfl
    | _ =>
      have hlink : symbolicLink (some o) (s.addRefs f) = .ok none (s.addRefs f) := by
        simp only [symbolicLink, bind_ok hget]
        rfl
      rw [bind_ok hlink]
      rfl

/-- One turn of the loop goes from an enabled link to what its destination denotes. -/
theorem resolveLoop_link (h : Table s) {rc : ℤ} {destination : UnicodeString}
    (hob : s.objects o = some ⟨rc, .symlink destination true⟩) (hpos : 1 ≤ rc) (turns : ℕ) :
    resolveLoop (turns + 1) (some o) (s.addRefs (refOn (some o))) =
      resolveLoop turns (s.findLive (canonicalPath destination []))
        (s.addRefs (refOn (s.findLive (canonicalPath destination [])))) := by
  have hp : HeldAt s (some o) := by
    rintro x hx
    rcases Option.mem_some_iff.1 hx with rfl
    exact ⟨_, hob, hpos⟩
  have hlink : symbolicLink (some o) (s.addRefs (refOn (some o))) =
      .ok (some (o, destination, true)) (s.addRefs (refOn (some o))) := by
    simp only [symbolicLink, bind_ok (getObject_ok (addRefs_some hob))]
    rfl
  have hlookup := lookupName_addRefs (h.refOn (some o)) (h.destination _ _ _ _ hob)
  rw [findLive_refOn hp] at hlookup
  rw [resolveLoop, bind_ok hlink]
  simp only [if_true, bind_ok hlookup, bind_ok (obfDereferenceObject_refOn hob hpos _)]

/-- **The resolution of a link.** It trades the reference on the pointer for one on the
end of the chain. -/
theorem resolveLoop_follow (h : Table s) {length turns : ℕ} (hlt : length < turns)
    (hp : HeldAt s p) {r : Option ObjId} (hfollow : s.follow length p = some r) :
    resolveLoop turns p (s.addRefs (refOn p)) = .ok r (s.addRefs (refOn r)) ∧ HeldAt s r := by
  -- the induction is on the links that are left; the loop has one more turn than these
  induction length generalizing p turns with
  | zero =>
    rcases Nat.exists_eq_add_one_of_ne_zero (by omega : turns ≠ 0) with ⟨turns, rfl⟩
    rw [State.follow] at hfollow
    split at hfollow
    · cases hfollow
    · rename_i hnone
      rcases Option.some.inj hfollow with rfl
      exact ⟨resolveLoop_stop hp (by simpa using hnone) _ turns, hp⟩
  | succ length ih =>
    rcases Nat.exists_eq_add_one_of_ne_zero (by omega : turns ≠ 0) with ⟨turns, rfl⟩
    rw [State.follow] at hfollow
    cases htarget : s.linkTarget p with
    | none =>
      rw [htarget] at hfollow
      rcases Option.some.inj hfollow with rfl
      exact ⟨resolveLoop_stop hp htarget _ turns, hp⟩
    | some path =>
      rw [htarget] at hfollow
      rcases linkTarget_some htarget with ⟨o, rc, destination, rfl, hob, rfl⟩
      rcases hp o rfl with ⟨ob, hob', hpos⟩
      rw [hob] at hob'
      rcases Option.some.inj hob' with rfl
      rw [resolveLoop_link h hob hpos turns]
      exact ih (by omega) (h.heldAt _) hfollow

theorem ddkResolveSymbolicLink_follow (h : Table s) (hp : HeldAt s p) {r : Option ObjId}
    (hfollow : s.follow 1000 p = some r) :
    ddkResolveSymbolicLink p (s.addRefs (refOn p)) = .ok r (s.addRefs (refOn r)) ∧ HeldAt s r :=
  resolveLoop_follow h (by omega) hp hfollow

/-- A resolution that returns comes to what some path denotes, with a reference on it. -/
theorem resolveLoop_inv (h : Table s) {turns : ℕ} {path : UnicodeString} {r : Option ObjId}
    {t : State} (hp : s.findLive path = p)
    (hrun : resolveLoop turns p (s.addRefs (refOn p)) = .ok r t) :
    ∃ path', s.findLive path' = r ∧ t = s.addRefs (refOn r) := by
  induction turns generalizing p path with
  | zero =>
    rw [resolveLoop] at hrun
    cases hlink : symbolicLink p (s.addRefs (refOn p)) with
    | error e u =>
      rw [bind_error hlink] at hrun
      cases hrun
    | ok link u =>
      rw [bind_ok hlink] at hrun
      cases link with
      | some x => cases hrun
      | none =>
        rcases result_eq (pure_run p u) hrun with ⟨rfl, rfl⟩
        exact ⟨path, hp, symbolicLink_state hlink⟩
  | succ turns ih =>
    have hheld : HeldAt s p := hp ▸ h.heldAt path
    cases htarget : s.linkTarget p with
    | none =>
      rcases result_eq (resolveLoop_stop hheld htarget _ turns) hrun with ⟨rfl, rfl⟩
      exact ⟨path, hp, rfl⟩
    | some path' =>
      rcases linkTarget_some htarget with ⟨o, rc, destination, rfl, hob, rfl⟩
      rcases hheld o rfl with ⟨ob, hob', hpos⟩
      rw [hob] at hob'
      rcases Option.some.inj hob' with rfl
      rw [resolveLoop_link h hob hpos turns] at hrun
      exact ih rfl hrun

end Follow

/-! ## Opens -/

/-- The state after an open of a device: the new file has the reference of the lookup. -/
def State.opened (s : State) (device : ObjId) : State :=
  (s.addRefs (refOn (some device))).allocated (.file (some device))

section Open

variable {s : State} {o : ObjId} {ob : Object} {name : UnicodeString} {options : UInt32}

theorem isLink_iff : s.isLink o = true ↔
    ∃ rc destination enabled, s.objects o = some ⟨rc, .symlink destination enabled⟩ := by
  unfold State.isLink
  split
  · rename_i rc destination enabled h
    simp [h]
  · rename_i h
    simp only [Bool.false_eq_true, false_iff]
    rintro ⟨rc, destination, enabled, hob⟩
    exact h rc destination enabled hob

theorem isDevice_iff : s.isDevice o = true ↔
    ∃ rc driver next, s.objects o = some ⟨rc, .device driver next⟩ := by
  unfold State.isDevice
  split
  · rename_i rc driver next h
    simp [h]
  · rename_i h
    simp only [Bool.false_eq_true, false_iff]
    rintro ⟨rc, driver, next, hob⟩
    exact h rc driver next hob

theorem symbolicLink_link (h : s.isLink o = true) (f : ObjId → ℤ) :
    ∃ link, symbolicLink (some o) (s.addRefs f) = .ok (some link) (s.addRefs f) := by
  rcases isLink_iff.1 h with ⟨rc, destination, enabled, hob⟩
  refine ⟨(o, destination, enabled), ?_⟩
  simp only [symbolicLink, bind_ok (getObject_ok (addRefs_some hob))]
  rfl

theorem symbolicLink_other (hob : s.objects o = some ob) (h : s.isLink o = false)
    (f : ObjId → ℤ) : symbolicLink (some o) (s.addRefs f) = .ok none (s.addRefs f) := by
  rcases ob with ⟨rc, body⟩
  simp only [symbolicLink, bind_ok (getObject_ok (addRefs_some hob))]
  cases body with
  | symlink destination enabled => simp [State.isLink, hob] at h
  | _ => rfl

/-- The path denotes a link, and the caller wants to stop there. -/
def StopsOnLink (s : State) (options : UInt32) (p : Option ObjId) : Prop :=
  ∃ o ∈ p, s.isLink o = true ∧ options &&& ioStopOnSymlink ≠ 0

/-- An open that stops on a link keeps the reference of the lookup. -/
theorem ddkIoCreateDevice_stopped (h : Table s) (hfits : PathFits name [])
    (hstop : StopsOnLink s options (s.findLive (canonicalPath name []))) (memory : Bool) :
    ddkIoCreateDevice memory name options s =
      .ok (setStatus statusStoppedOnSymlink fileDoesNotExist none)
        (s.addRefs (refOn (s.findLive (canonicalPath name [])))) := by
  rcases hstop with ⟨o, hfind, hlink, hoptions⟩
  have hlookup := lookupName_addRefs h hfits
  rw [Option.mem_def.1 hfind] at hlookup ⊢
  rcases symbolicLink_link hlink (refOn (some o)) with ⟨link, hrun⟩
  rw [ddkIoCreateDevice, bind_ok hlookup, bind_ok hrun]
  simp [hoptions]

theorem linkTarget_other (h : s.isLink o = false) : s.linkTarget (some o) = none := by
  cases htarget : s.linkTarget (some o) with
  | none => rfl
  | some path =>
    rcases linkTarget_some htarget with ⟨x, rc, destination, hx, hob, -⟩
    rcases Option.some.inj hx with rfl
    rw [isLink_iff.2 ⟨rc, destination, true, hob⟩] at h
    cases h

/-- Any other open resolves what it has found; what is no link is the end of its chain. -/
theorem ddkIoCreateDevice_go (h : Table s) (hfits : PathFits name []) {p : Option ObjId}
    (hp : s.findLive (canonicalPath name []) = p) (hgo : ¬ StopsOnLink s options p)
    (memory : Bool) :
    ddkIoCreateDevice memory name options s =
      (ddkResolveSymbolicLink p >>= openDevice memory) (s.addRefs (refOn p)) := by
  have hlookup := lookupName_addRefs h hfits
  have hheld : HeldAt s p := hp ▸ h.heldAt _
  rw [hp] at hlookup
  rw [ddkIoCreateDevice, bind_ok hlookup]
  cases p with
  | none => rfl
  | some o =>
    cases hlink : s.isLink o with
    | true =>
      rcases symbolicLink_link hlink (refOn (some o)) with ⟨link, hrun⟩
      have hoptions : options &&& ioStopOnSymlink = 0 := by
        by_contra hne
        exact hgo ⟨o, rfl, hlink, hne⟩
      rw [bind_ok hrun]
      simp only [hoptions, bne_self_eq_false, Bool.false_eq_true, if_false]
    | false =>
      rcases hheld o rfl with ⟨ob, hob, -⟩
      have hresolve : ddkResolveSymbolicLink (some o) (s.addRefs (refOn (some o))) = _ :=
        resolveLoop_stop hheld (linkTarget_other hlink) _ 1000
      rw [bind_ok (symbolicLink_other hob hlink _), bind_ok hresolve]

/-- The open comes to the end of the chain of links, with a reference on it. -/
theorem ddkIoCreateDevice_resolved (h : Table s) (hfits : PathFits name [])
    (hgo : ¬ StopsOnLink s options (s.findLive (canonicalPath name []))) {r : Option ObjId}
    (hfollow : s.follow 1000 (s.findLive (canonicalPath name [])) = some r) (memory : Bool) :
    ddkIoCreateDevice memory name options s = openDevice memory r (s.addRefs (refOn r)) ∧
      HeldAt s r := by
  rcases ddkResolveSymbolicLink_follow h (h.heldAt _) hfollow with ⟨hresolve, hheld⟩
  refine ⟨?_, hheld⟩
  rw [ddkIoCreateDevice_go h hfits rfl hgo, bind_ok hresolve]

/-- The open of a device. -/
theorem openDevice_device (hheld : HeldAt s (some o)) (hdevice : s.isDevice o = true) :
    openDevice true (some o) (s.addRefs (refOn (some o))) =
        .ok (setStatus statusSuccess fileOpened (some s.nextObject)) (s.opened o) ∧
      openDevice false (some o) (s.addRefs (refOn (some o))) =
        .ok (setStatus statusInsufficientResources fileExists none) s := by
  rcases isDevice_iff.1 hdevice with ⟨rc, driver, next, hob⟩
  rcases hheld o rfl with ⟨ob', hob', hpos⟩
  rw [hob] at hob'
  rcases Option.some.inj hob' with rfl
  replace hpos : 1 ≤ rc := hpos
  have hget := addRefs_some (f := refOn (some o)) hob
  constructor
  · simp only [openDevice, bind_ok (getObject_ok hget)]
    rfl
  · -- without memory for the file the reference is given back
    have hderef := ddkDereferenceObject_addRefs hget (by simp only [refOn_self]; omega)
    rw [addRefs_addRefs, refOn_add_neg, addRefs_zero] at hderef
    simp only [openDevice, bind_ok (getObject_ok hget), Bool.false_eq_true, if_false,
      bind_ok hderef]
    rfl

/-- What is no device is turned down, and the reference on it is lost. -/
theorem openDevice_other (hheld : HeldAt s (some o)) (hother : s.isDevice o = false)
    (memory : Bool) : openDevice memory (some o) (s.addRefs (refOn (some o))) =
      .ok (setStatus statusObjectNameNotFound fileDoesNotExist none)
        (s.addRefs (refOn (some o))) := by
  rcases hheld o rfl with ⟨⟨rc, body⟩, hob, -⟩
  simp only [openDevice, bind_ok (getObject_ok (addRefs_some hob))]
  cases body with
  | device driver next => simp [State.isDevice, hob] at hother
  | _ => rfl

/-- What an open that returns can have done. -/
theorem ddkIoCreateDevice_cases (h : Table s) {memory : Bool} {reply : FileReply} {t : State}
    (hrun : ddkIoCreateDevice memory name options s = .ok reply t) :
    (reply.fileHandle = none ∧ (t = s ∨ ∃ path, t = s.addRefs (refOn (s.findLive path)))) ∨
    ∃ path device, s.findLive path = some device ∧ s.isDevice device = true ∧
      reply.fileHandle = some s.nextObject ∧ t = s.opened device := by
  have hfits : PathFits name [] := by
    by_contra hno
    rw [ddkIoCreateDevice, ddkLookupName, bind_assoc,
      bind_error (ddkCreatePath_fails hno s)] at hrun
    cases hrun
  by_cases hstop : StopsOnLink s options (s.findLive (canonicalPath name []))
  · rcases result_eq (ddkIoCreateDevice_stopped h hfits hstop memory) hrun with ⟨rfl, rfl⟩
    exact Or.inl ⟨rfl, Or.inr ⟨_, rfl⟩⟩
  · rw [ddkIoCreateDevice_go h hfits rfl hstop] at hrun
    rcases bind_inv hrun with ⟨r, u, hresolve, hopen⟩
    rcases resolveLoop_inv h rfl hresolve with ⟨path, hr, rfl⟩
    have hheld : HeldAt s r := hr ▸ h.heldAt path
    cases r with
    | none =>
      rcases result_eq (pure_run _ _) hopen with ⟨rfl, rfl⟩
      exact Or.inl ⟨rfl, Or.inr ⟨path, by rw [hr]⟩⟩
    | some o =>
      cases hdevice : s.isDevice o with
      | false =>
        rcases result_eq (openDevice_other hheld hdevice memory) hopen with ⟨rfl, rfl⟩
        exact Or.inl ⟨rfl, Or.inr ⟨path, by rw [hr]⟩⟩
      | true =>
        cases memory with
        | true =>
          rcases result_eq (openDevice_device hheld hdevice).1 hopen with ⟨rfl, rfl⟩
          exact Or.inr ⟨path, o, hr, hdevice, rfl, rfl⟩
        | false =>
          rcases result_eq (openDevice_device hheld hdevice).2 hopen with ⟨rfl, rfl⟩
          exact Or.inl ⟨rfl, Or.inl rfl⟩

end Open

/-! ## Closing a file -/

/-- The release of the last reference on a file releases its device. -/
theorem dereferenceFile {s : State} {file device : ObjId} {ob : Object}
    (hfile : s.objects file = some ⟨1, .file (some device)⟩) (hob : s.objects device = some ob)
    (hpos : 2 ≤ ob.refcount) (haddrs : (s.ddkNameList.map (·.addr)).Nodup)
    (hunnamed : Unnamed s file) :
    ddkDereferenceObject file s = .ok () ((s.addRefs (Pi.single device (-1))).freed file) := by
  have hne : device ≠ file := by
    rintro rfl
    rw [hfile] at hob
    rcases Option.some.inj hob with rfl
    exact absurd (show (2 : ℤ) ≤ 1 from hpos) (by decide)
  -- the file is dying while the device is released
  have hfile' : (s.put file (some ⟨0, .file (some device)⟩)).objects file =
      some ⟨0, .file (some device)⟩ := put_self ..
  have hob' : (s.put file (some ⟨0, .file (some device)⟩)).objects device = some ob := by
    rw [put_of_ne _ _ hne, hob]
  have hderef := derefLevels_ne hob' (by omega) s.nextObject
  have hnames : removeObjectName (derefLevels (s.nextObject + 1)) file
      ((s.put file (some ⟨0, .file (some device)⟩)).put device
        (some { ob with refcount := ob.refcount - 1 })) = .ok () _ :=
    removeObjectName_none haddrs hunnamed
  rw [ddkDereferenceObject, get_bind, derefLevels_one hfile rfl, freeObject,
    bind_ok (getObject_ok hfile')]
  simp only [bind_ok (fromPointer_ok hob' (by omega)), bind_ok hderef, bind_ok hnames]
  have hobjects : (((s.put file (some ⟨0, .file (some device)⟩)).put device
      (some { ob with refcount := ob.refcount - 1 })).freed file).objects =
      ((s.addRefs (Pi.single device (-1))).freed file).objects := by
    funext x
    by_cases hx : x = file
    · rw [hx, freed_self, freed_self]
    · rw [freed_of_ne _ hx, freed_of_ne _ hx, ← put_eq_addRefs hob, ← Int.sub_eq_add_neg]
      by_cases hxd : x = device
      · rw [hxd, put_self, put_self]
      · rw [put_of_ne _ _ hxd, put_of_ne _ _ hxd, put_of_ne _ _ hx]
  show EStateM.Result.ok () (((s.put file _).put device _).freed file) = _
  rw [State.ext hobjects rfl rfl rfl rfl rfl rfl]

/-! ## Creating a link -/

section Create

variable {s t : State} {name deviceName : UnicodeString}

theorem ddkAssert_name (hname : name ≠ []) (s : State) :
    ddkAssert (decide (name ≠ [])) s = .ok () s := ddkAssert_ok (by simpa using hname) s

theorem ddkAssert_inv {α : Type} {c : Bool} {k : Unit → ObM α} {r : α}
    (h : (ddkAssert c >>= k) s = .ok r t) : c = true ∧ k () s = .ok r t := by
  cases c with
  | true => exact ⟨rfl, h⟩
  | false => cases h

theorem wcs_wcs (s : List Wchar) : wcs (wcs s) = wcs s := List.takeWhile_idem

/-- Without a directory the path is the name. -/
theorem canonicalPath_nil (name : UnicodeString) : canonicalPath name [] = wcs name := by
  have htext : pathText name [] [] = wcs name := by simp [pathText, wcs]
  rw [canonicalPath, htext, wcs_wcs]

theorem pathFits_wcs : PathFits (wcs name) [] ↔ PathFits name [] := by
  rw [PathFits, PathFits, canonicalPath_nil, canonicalPath_nil, wcs_wcs]

/-- The state after the creation of a link. -/
def State.linked (s : State) (name deviceName : UnicodeString) : State :=
  (s.allocated (.symlink (wcs deviceName) true)).named s.nextObject
    ⟨1, .symlink (wcs deviceName) true⟩ (canonicalPath name [])

theorem Table.allocatedLink (h : Table s) (hdestination : PathFits deviceName []) :
    Table (s.allocated (.symlink (wcs deviceName) true)) := by
  apply h.allocated
  intro destination enabled heq
  rcases Body.symlink.inj heq with ⟨rfl, -⟩
  exact pathFits_wcs.2 hdestination

theorem Table.linked (h : Table s) (hdestination : PathFits deviceName []) :
    Table (s.linked name deviceName) :=
  (h.allocatedLink hdestination).named (allocated_self ..) (by simp) h.unnamed_fresh
    fun _ hc => canonicalPath_ne_zero hc

/-- The body of `IoCreateSymbolicLink` behind its assertions and the allocation. -/
theorem ioCreateSymbolicLink_eq (hdevice : deviceName ≠ []) (hname : name ≠ [])
    (hdestination : PathFits deviceName []) :
    ioCreateSymbolicLink true name deviceName s =
      (do
        if ← ddkInsertName name s.nextObject [] then pure statusSuccess
        else pure statusObjectNameExists : ObM NtStatus)
        (s.allocated (.symlink (wcs deviceName) true)) := by
  have hinit : rtlInitUnicodeString deviceName s = .ok (wcs deviceName) s := by
    rw [rtlInitUnicodeString, bind_ok (ddkAssert_ok ?_ s)]
    · rfl
    · rw [PathFits, canonicalPath_nil] at hdestination
      rw [decide_eq_true_eq]
      omega
  rw [ioCreateSymbolicLink, bind_ok (ddkAssert_name hdevice s), bind_ok (ddkAssert_name hname s),
    if_pos rfl, bind_ok hinit, bind_ok (ddkAllocObject_run _ s)]

theorem ioCreateSymbolicLink_free (h : Table s) (hdevice : deviceName ≠ []) (hname : name ≠ [])
    (hdestination : PathFits deviceName []) (hfits : PathFits name [])
    (hfind : s.findLive (canonicalPath name []) = none) :
    ioCreateSymbolicLink true name deviceName s =
      .ok statusSuccess (s.linked name deviceName) := by
  rw [ioCreateSymbolicLink_eq hdevice hname hdestination, bind_ok (h.insertName_free
    (h.allocatedLink hdestination) (List.length_pos_of_ne_nil hname) hfits hfind)]
  rfl

theorem ioCreateSymbolicLink_taken (h : Table s) (hdevice : deviceName ≠ []) (hname : name ≠ [])
    (hdestination : PathFits deviceName []) (hfits : PathFits name []) {y : ObjId}
    (hfind : s.findLive (canonicalPath name []) = some y) :
    ioCreateSymbolicLink true name deviceName s = .ok statusObjectNameExists s.collided := by
  rw [ioCreateSymbolicLink_eq hdevice hname hdestination, bind_ok (h.insertName_taken
    (h.allocatedLink hdestination) (h.destroyable trivial) (List.length_pos_of_ne_nil hname)
    hfits hfind)]
  rfl

theorem ioCreateSymbolicLink_noMemory (hdevice : deviceName ≠ []) (hname : name ≠ []) :
    ioCreateSymbolicLink false name deviceName s = .ok statusInsufficientResources s := by
  rw [ioCreateSymbolicLink, bind_ok (ddkAssert_name hdevice s), bind_ok (ddkAssert_name hname s)]
  rfl

/-- What a creation that returns can have done. -/
theorem ioCreateSymbolicLink_cases (h : Table s) {memory : Bool} {status : NtStatus}
    (hrun : ioCreateSymbolicLink memory name deviceName s = .ok status t) :
    t = s ∨ t = s.collided ∨ (PathFits deviceName [] ∧
      s.findLive (canonicalPath name []) = none ∧ t = s.linked name deviceName) := by
  have hasserts := ddkAssert_inv (ddkAssert_inv hrun).2
  have hdevice : deviceName ≠ [] := by simpa using (ddkAssert_inv hrun).1
  have hname : name ≠ [] := by simpa using hasserts.1
  cases memory with
  | false => exact Or.inl (result_eq (ioCreateSymbolicLink_noMemory hdevice hname) hrun).2.symm
  | true =>
    have hdestination : PathFits deviceName [] := by
      have hinit := hasserts.2
      rw [if_pos rfl, rtlInitUnicodeString, bind_assoc] at hinit
      have hle := (ddkAssert_inv hinit).1
      rw [decide_eq_true_eq] at hle
      rw [PathFits, canonicalPath_nil]
      omega
    have hfits : PathFits name [] := by
      by_contra hno
      rw [ioCreateSymbolicLink_eq hdevice hname hdestination, ddkInsertName, bind_assoc,
        bind_error (createName_fails (fun hok => hno hok.2) _)] at hrun
      cases hrun
    cases hfind : s.findLive (canonicalPath name []) with
    | none =>
      have hfree := ioCreateSymbolicLink_free h hdevice hname hdestination hfits hfind
      exact Or.inr (Or.inr ⟨hdestination, rfl, (result_eq hfree hrun).2.symm⟩)
    | some y =>
      have htaken := ioCreateSymbolicLink_taken h hdevice hname hdestination hfits hfind
      exact Or.inr (Or.inl (result_eq htaken hrun).2.symm)

end Create

/-! ## Deleting a link -/

/-- The deletion of a link removes its name and releases the reference of the lookup; the
reference of the creator stays. -/
theorem ioDeleteSymbolicLink_link {s : State} (h : Table s) {name : UnicodeString}
    (hname : name ≠ []) (hfits : PathFits name []) {o : ObjId} {ob : Object}
    (hfind : s.findLive (canonicalPath name []) = some o) (hob : s.objects o = some ob)
    (hlink : s.isLink o = true) :
    ∃ t, ioDeleteSymbolicLink name s = .ok statusSuccess t ∧
      t.ddkNameList = s.ddkNameList.filter (fun e => e.object != o) ∧ SameRest s t ∧
      (∀ x, x ≠ o → t.objects x = s.objects x) ∧ t.objects o = dropRef ob := by
  rcases isLink_iff.1 hlink with ⟨rc, destination, enabled, hob'⟩
  rw [hob] at hob'
  rcases Option.some.inj hob' with rfl
  have hpos : 1 ≤ rc := h.findLive_pos hfind hob
  have hlookup := lookupName_addRefs h hfits
  rw [hfind] at hlookup
  have hget := addRefs_some (f := refOn (some o)) hob
  obtain ⟨t, hremove, hnames, hsame, hother, hself, -⟩ :=
    removeObjectName_drops ddkDereferenceObject_releases (h.refOn (some o)).addrs
      (h.refOn (some o)).objects hget (fun _ => trivial)
  rcases findLive_some hfind with ⟨e, he, heo, -, -⟩
  have hnamed : t.objects o = some ⟨rc, .symlink destination enabled⟩ := by
    rw [hself, if_pos ⟨e, he, heo⟩, dropRef, refOn_self, if_neg (by show rc + 1 ≠ 1; omega)]
    simp
  -- the name is gone when the last reference of the call is released
  have hunnamed : Unnamed t o := by
    intro x hx
    rw [hnames, List.mem_filter] at hx
    simpa using hx.2
  have hderef := ddkDereferenceObject_releases t o _ hnamed (fun _ => trivial)
    (by rw [hnames]; exact h.addrs.sublist (List.filter_sublist.map _)) hunnamed
  refine ⟨t.released o ⟨rc, .symlink destination enabled⟩, ?_,
    (released_ddkNameList ..).trans hnames, ?_, ?_, ?_⟩
  · rw [ioDeleteSymbolicLink, bind_ok (ddkAssert_name hname s), bind_ok hlookup]
    have hremove' : ddkRemoveObjectName o (s.addRefs (refOn (some o))) = .ok () t := hremove
    simp only [bind_ok (getObject_ok hget), bind_ok hremove', bind_ok hderef]
    rfl
  · have hsame' : SameRest s t := ⟨hsame.nextObject, hsame.nextName, hsame.work, hsame.uniqueId⟩
    exact hsame'.trans (sameRest_released ..)
  · intro x hx
    rw [released_objects, Function.update_of_ne hx, hother x hx]
    exact addRefs_of_zero (refOn_of_ne hx)
  · rw [released_objects, Function.update_self]

/-- What is no link is not deleted, and the reference of the lookup is lost. -/
theorem ioDeleteSymbolicLink_other {s : State} (h : Table s) {name : UnicodeString}
    (hname : name ≠ []) (hfits : PathFits name []) {o : ObjId}
    (hfind : s.findLive (canonicalPath name []) = some o) (hother : s.isLink o = false) :
    ioDeleteSymbolicLink name s = .ok statusObjectNameNotFound (s.addRefs (refOn (some o))) := by
  rcases h.findLive_held hfind with ⟨⟨rc, body⟩, hob, -⟩
  have hlookup := lookupName_addRefs h hfits
  rw [hfind] at hlookup
  rw [ioDeleteSymbolicLink, bind_ok (ddkAssert_name hname s), bind_ok hlookup]
  simp only [bind_ok (getObject_ok (addRefs_some hob))]
  cases body with
  | symlink destination enabled => simp [State.isLink, hob] at hother
  | _ => rfl

theorem ioDeleteSymbolicLink_missing {s : State} (h : Table s) {name : UnicodeString}
    (hname : name ≠ []) (hfits : PathFits name [])
    (hfind : s.findLive (canonicalPath name []) = none) :
    ioDeleteSymbolicLink name s = .ok statusObjectNameNotFound s := by
  have hlookup := lookupName_addRefs h hfits
  rw [hfind] at hlookup
  rw [ioDeleteSymbolicLink, bind_ok (ddkAssert_name hname s), bind_ok hlookup]
  simp [refOn]

/-- From `s` to `t` the link `o` was deleted: it has no name any more, and one reference less. -/
structure LinkDeleted (o : ObjId) (s t : State) : Prop where
  names : t.ddkNameList = s.ddkNameList.filter (fun e => e.object != o)
  same : SameRest s t
  others : ∀ x, x ≠ o → t.objects x = s.objects x
  link : t.objects o = (s.objects o).bind dropRef

theorem LinkDeleted.table {s t : State} {o : ObjId} (hdel : LinkDeleted o s t) (h : Table s) :
    Table t := by
  refine h.sublist (hdel.names ▸ List.filter_sublist) hdel.same.nextName
    (Nat.le_of_eq hdel.same.nextObject.symm) ?_ ?_
  · intro x ob' hob'
    by_cases hx : x = o
    · rw [hx, hdel.link] at hob'
      rcases Option.bind_eq_some_iff.1 hob' with ⟨ob, hob, hdrop⟩
      refine ⟨ob, hx ▸ hob, ?_⟩
      unfold dropRef at hdrop
      split at hdrop
      · cases hdrop
      · rcases Option.some.inj hdrop with rfl
        rfl
    · rw [hdel.others x hx] at hob'
      exact ⟨ob', hob', rfl⟩
  · intro e he
    rw [hdel.names, List.mem_filter] at he
    rw [hdel.others _ (by simpa using he.2)]
    exact h.listed e he.1

/-- What a deletion that returns can have done. -/
theorem ioDeleteSymbolicLink_cases {s t : State} (h : Table s) {name : UnicodeString}
    {status : NtStatus} (hrun : ioDeleteSymbolicLink name s = .ok status t) :
    (s.findLive (canonicalPath name []) = none ∧ t = s) ∨
    ∃ o, s.findLive (canonicalPath name []) = some o ∧
      (s.isLink o = false ∧ t = s.addRefs (refOn (some o)) ∨
        s.isLink o = true ∧ LinkDeleted o s t) := by
  have hname : name ≠ [] := by simpa using (ddkAssert_inv hrun).1
  have hfits : PathFits name [] := by
    by_contra hno
    have hlookup := (ddkAssert_inv hrun).2
    rw [ddkLookupName, bind_assoc, bind_error (ddkCreatePath_fails hno s)] at hlookup
    cases hlookup
  cases hfind : s.findLive (canonicalPath name []) with
  | none =>
    exact Or.inl ⟨rfl, (result_eq (ioDeleteSymbolicLink_missing h hname hfits hfind) hrun).2.symm⟩
  | some o =>
    refine Or.inr ⟨o, rfl, ?_⟩
    cases hlink : s.isLink o with
    | false =>
      have hother := ioDeleteSymbolicLink_other h hname hfits hfind hlink
      exact Or.inl ⟨rfl, (result_eq hother hrun).2.symm⟩
    | true =>
      rcases h.findLive_held hfind with ⟨ob, hob, -⟩
      obtain ⟨t', hdelete, hnames, hsame, hothers, hlinked⟩ :=
        ioDeleteSymbolicLink_link h hname hfits hfind hob hlink
      rcases result_eq hdelete hrun with ⟨-, rfl⟩
      exact Or.inr ⟨rfl, hnames, hsame, hothers, by rw [hlinked, hob]; rfl⟩

/-- An open that returns has missed a parameter or opened a device. -/
theorem ioCreateFileEx_cases {ddkIoCreateFile : UnicodeString → ObM FileReply} {memory : Bool}
    {objectAttributes : Option ObjectAttributes} {ioStatusBlock : Bool} {options : UInt32}
    {s t : State} {reply : FileReply}
    (hfile : ∀ attributes ∈ objectAttributes, ∀ name ∈ attributes.objectName,
      ddkIsFilePath name = false)
    (hrun : ioCreateFileEx ddkIoCreateFile memory objectAttributes ioStatusBlock options s =
      .ok reply t) :
    (reply.fileHandle = none ∧ t = s) ∨
      ∃ name, ddkIoCreateDevice memory name options s = .ok reply t := by
  rcases objectAttributes with _ | ⟨_ | objectName, rootDirectory⟩
  · rcases result_eq (pure_run _ s) hrun with ⟨rfl, rfl⟩
    exact Or.inl ⟨rfl, rfl⟩
  · rcases result_eq (pure_run _ s) hrun with ⟨rfl, rfl⟩
    exact Or.inl ⟨rfl, rfl⟩
  · cases ioStatusBlock with
    | false =>
      rcases result_eq (pure_run _ s) hrun with ⟨rfl, rfl⟩
      exact Or.inl ⟨rfl, rfl⟩
    | true =>
      have hopen := (ddkAssert_inv hrun).2
      rw [if_neg (by simp [hfile _ rfl objectName rfl])] at hopen
      exact Or.inr ⟨objectName, hopen⟩

/-! ## Failed calls -/

namespace Symlink

/-- The calls that look a name up and may turn down what they find. -/
inductive Call where
  | createFileEx (memory : Bool) (objectAttributes : Option ObjectAttributes)
      (ioStatusBlock : Bool) (options : UInt32)
  | deleteSymbolicLink (symbolicLinkName : UnicodeString)

/-- The action of a call. -/
def perform (ddkIoCreateFile : UnicodeString → ObM FileReply) : Call → ObM FileReply
  | .createFileEx memory objectAttributes ioStatusBlock options =>
    ioCreateFileEx ddkIoCreateFile memory objectAttributes ioStatusBlock options
  | .deleteSymbolicLink symbolicLinkName => do
    pure ⟨← ioDeleteSymbolicLink symbolicLinkName, none, none⟩

/-- The name that a call looks up. An open without its parameters looks up none. -/
def Call.name : Call → Option UnicodeString
  | .createFileEx _ objectAttributes ioStatusBlock _ =>
    if ioStatusBlock then objectAttributes.bind (·.objectName) else none
  | .deleteSymbolicLink symbolicLinkName => some symbolicLinkName

/-- What the name of a call denotes. -/
def denotes (s : State) (name : UnicodeString) : Option ObjId := s.findLive (canonicalPath name [])

/-- The assertions let the call pass, an open is not one of a file, and its chain of links
has at most 1000 links. -/
def Accepted (s : State) : Call → Prop
  | .createFileEx memory objectAttributes ioStatusBlock options =>
    (∀ attributes ∈ objectAttributes, attributes.rootDirectory = false) ∧
    ∀ name ∈ (Call.createFileEx memory objectAttributes ioStatusBlock options).name,
      ddkIsFilePath name = false ∧ PathFits name [] ∧ s.follow 1000 (denotes s name) ≠ none
  | .deleteSymbolicLink name => name ≠ [] ∧ PathFits name []

/-- From `s` to `t` the name was opened: the device at the end of its chain of links has
one more reference, and loses it when the file is freed. -/
structure OpenedOn (s : State) (name : UnicodeString) (file device : ObjId) (t : State) : Prop where
  resolved : s.follow 1000 (denotes s name) = some (some device)
  isDevice : s.isDevice device = true
  refcount : t.refcount device = (s.refcount device).map (· + 1)
  others : ∀ o, o ≠ device → o ≠ file → t.refcount o = s.refcount o
  new : s.objects file = none
  created : t.objects file = some ⟨1, .file (some device)⟩
  /-- A close right after the open restores all counts. -/
  closed : ∃ u, ddkDereferenceObject file t = .ok () u ∧ u.refcount = s.refcount
  /-- A later close takes one reference off the device. -/
  closedLater : ∀ u ob, (u.ddkNameList.map (·.addr)).Nodup → Unnamed u file →
    u.objects file = some ⟨1, .file (some device)⟩ → u.objects device = some ob →
    2 ≤ ob.refcount → ∃ v, ddkDereferenceObject file u = .ok () v ∧
      v.refcount device = some (ob.refcount - 1) ∧
      ∀ o, o ≠ device → o ≠ file → v.refcount o = u.refcount o

/-- A failed call leaves the reference counts alone, and a successful open changes only the
one of its device. -/
structure Intact (s : State) (call : Call) (reply : FileReply) (t : State) : Prop where
  failed : ntSuccess reply.status = false → t.refcount = s.refcount
  opened : ∀ memory objectAttributes ioStatusBlock options,
    call = .createFileEx memory objectAttributes ioStatusBlock options →
    ntSuccess reply.status = true → ∃ name file device, call.name = some name ∧
      reply.fileHandle = some file ∧ OpenedOn s name file device t

/-- The call finds no object that it turns down: an open does not stop on a link, and comes
to a device or to nothing; the name of a deletion denotes a link or nothing. -/
def TurnsDownNothing (s : State) (call : Call) : Prop :=
  ∀ name ∈ call.name,
    match call with
    | .createFileEx _ _ _ options => ¬ StopsOnLink s options (denotes s name) ∧
      ∀ o, s.follow 1000 (denotes s name) = some (some o) → s.isDevice o = true
    | .deleteSymbolicLink _ => ∀ o, denotes s name = some o → s.isLink o = true

section Intact

variable {s : State} {name : UnicodeString} {device : ObjId}

/-- The counts after the release of a file. -/
theorem refcount_closed (u : State) {file o : ObjId} (ho : o ≠ file) :
    ((u.addRefs (Pi.single device (-1))).freed file).refcount o =
      (u.refcount o).map (· + (Pi.single device (-1) : ObjId → ℤ) o) := by
  rw [← refcount_addRefs, State.refcount, State.refcount, freed_of_ne _ ho]

theorem refcount_opened {o : ObjId} (ho : o ≠ s.nextObject) :
    (s.opened device).refcount o = (s.refcount o).map (· + refOn (some device) o) := by
  rw [← refcount_addRefs, State.refcount, State.refcount, State.opened]
  rw [allocated_of_ne (s.addRefs _) _ ho]

theorem opened_openedOn (h : Table s)
    (hfollow : s.follow 1000 (denotes s name) = some (some device))
    (hheld : HeldAt s (some device)) (hdevice : s.isDevice device = true) :
    OpenedOn s name s.nextObject device (s.opened device) := by
  rcases hheld device rfl with ⟨ob, hob, hpos⟩
  have hne : device ≠ s.nextObject := h.ne_fresh hob
  have hfile : (s.opened device).objects s.nextObject = some ⟨1, .file (some device)⟩ :=
    allocated_self ..
  have hob' : (s.opened device).objects device = some { ob with refcount := ob.refcount + 1 } := by
    rw [State.opened, allocated_of_ne (s.addRefs _) _ hne, addRefs_some hob, refOn_self]
  constructor
  case resolved => exact hfollow
  case isDevice => exact hdevice
  case refcount => rw [refcount_opened hne, refOn_self]
  case others =>
    intro o hod hof
    rw [refcount_opened hof, refOn_of_ne hod]
    simp
  case new => exact h.fresh
  case created => exact hfile
  case closed =>
    refine ⟨_, dereferenceFile hfile hob' (by show 2 ≤ ob.refcount + 1; omega) h.addrs
      h.unnamed_fresh, ?_⟩
    funext o
    by_cases hof : o = s.nextObject
    · simp [hof, State.refcount, h.fresh]
    · rw [refcount_closed _ hof, refcount_opened hof, Option.map_map]
      by_cases hod : o = device
      · simp [hod, Function.comp_def, State.refcount, hob]
      · simp [Function.comp_def, refOn_of_ne hod, Pi.single_eq_of_ne hod]
  case closedLater =>
    intro u obu haddrs hunnamed hfileu hobu hposu
    have hneu : device ≠ s.nextObject := hne
    refine ⟨_, dereferenceFile hfileu hobu hposu haddrs hunnamed, ?_, ?_⟩
    · rw [refcount_closed u hneu, State.refcount, hobu]
      simp [Int.sub_eq_add_neg]
    · intro o hod hof
      rw [refcount_closed u hof, Pi.single_eq_of_ne hod]
      simp

/-- A reference that is lost shows in the counts. -/
theorem refcount_refOn_ne {o : ObjId} (hheld : HeldAt s (some o)) :
    (s.addRefs (refOn (some o))).refcount ≠ s.refcount := by
  rcases hheld o rfl with ⟨ob, hob, -⟩
  intro heq
  have hcount := congrFun heq o
  rw [refcount_addRefs, State.refcount, hob, refOn_self] at hcount
  have hrefs : ob.refcount + 1 = ob.refcount := Option.some.inj hcount
  omega

/-- A deletion, by what its name denotes. -/
theorem deletion_intact_iff (h : Table s) (hname : name ≠ []) (hfits : PathFits name [])
    (ddkIoCreateFile : UnicodeString → ObM FileReply) :
    ∃ reply t, perform ddkIoCreateFile (.deleteSymbolicLink name) s = .ok reply t ∧
      (Intact s (.deleteSymbolicLink name) reply t ↔
        TurnsDownNothing s (.deleteSymbolicLink name)) := by
  have hrun : ∀ {status t}, ioDeleteSymbolicLink name s = .ok status t →
      perform ddkIoCreateFile (.deleteSymbolicLink name) s = .ok ⟨status, none, none⟩ t :=
    fun hdelete => bind_ok hdelete
  have hnotOpen : ∀ {P : Prop} memory objectAttributes ioStatusBlock options,
      Call.deleteSymbolicLink name =
        .createFileEx memory objectAttributes ioStatusBlock options → P :=
    fun _ _ _ _ heq => nomatch heq
  have hcond : TurnsDownNothing s (.deleteSymbolicLink name) ↔
      ∀ o, denotes s name = some o → s.isLink o = true := by
    simp [TurnsDownNothing, Call.name]
  rw [hcond]
  cases hfind : denotes s name with
  | none =>
    refine ⟨_, s, hrun (ioDeleteSymbolicLink_missing h hname hfits hfind),
      iff_of_true ⟨fun _ => rfl, hnotOpen⟩ (by simp)⟩
  | some o =>
    cases hlink : s.isLink o with
    | true =>
      rcases h.findLive_held hfind with ⟨ob, hob, -⟩
      rcases ioDeleteSymbolicLink_link h hname hfits hfind hob hlink with ⟨t, hdelete, -⟩
      refine ⟨_, t, hrun hdelete, iff_of_true ⟨fun hfailed => ?_, hnotOpen⟩ ?_⟩
      · exact absurd hfailed (by decide)
      · intro x hx
        rcases Option.some.inj hx with rfl
        exact hlink
    | false =>
      refine ⟨_, _, hrun (ioDeleteSymbolicLink_other h hname hfits hfind hlink),
        iff_of_false ?_ ?_⟩
      · intro hintact
        have hheld : HeldAt s (some o) := hfind ▸ h.heldAt (canonicalPath name [])
        exact refcount_refOn_ne hheld (hintact.failed (by decide))
      · intro hall
        rw [hall o rfl] at hlink
        cases hlink

/-- The open of a name, by where its chain of links ends. -/
theorem open_intact_iff (h : Table s) (hfits : PathFits name []) (memory : Bool)
    {options : UInt32} {call : Call} (hcall : call.name = some name)
    (hdown : TurnsDownNothing s call ↔ ¬ StopsOnLink s options (denotes s name) ∧
      ∀ o, s.follow 1000 (denotes s name) = some (some o) → s.isDevice o = true)
    {r : Option ObjId} (hfollow : s.follow 1000 (denotes s name) = some r) :
    ∃ reply t, ddkIoCreateDevice memory name options s = .ok reply t ∧
      (Intact s call reply t ↔ TurnsDownNothing s call) := by
  rw [hdown]
  have hheld : HeldAt s (denotes s name) := h.heldAt _
  by_cases hstop : StopsOnLink s options (denotes s name)
  · -- the reference of the lookup is lost on the link
    refine ⟨_, _, ddkIoCreateDevice_stopped h hfits hstop memory, iff_of_false ?_ ?_⟩
    · rcases hstop with ⟨o, ho, -, -⟩
      intro hintact
      have hlost := hintact.failed (by decide)
      unfold denotes at hheld ho
      rw [Option.mem_def.1 ho] at hheld hlost
      exact refcount_refOn_ne hheld hlost
    · exact fun hgo => hgo.1 hstop
  · rcases ddkIoCreateDevice_resolved h hfits hstop hfollow memory with ⟨hrun, hheldr⟩
    have hcond : (¬ StopsOnLink s options (denotes s name) ∧
        ∀ o, s.follow 1000 (denotes s name) = some (some o) → s.isDevice o = true) ↔
        ∀ o, r = some o → s.isDevice o = true := by
      rw [hfollow]
      simp [hstop]
    rw [hcond, hrun]
    cases r with
    | none =>
      refine ⟨_, _, rfl, iff_of_true ⟨fun _ => by simp [refOn], ?_⟩ (by simp)⟩
      exact fun _ _ _ _ _ hsuccess => absurd hsuccess (by decide)
    | some o =>
      cases hdevice : s.isDevice o with
      | false =>
        refine ⟨_, _, openDevice_other hheldr hdevice memory, iff_of_false ?_ ?_⟩
        · exact fun hintact => refcount_refOn_ne hheldr (hintact.failed (by decide))
        · intro hall
          rw [hall o rfl] at hdevice
          cases hdevice
      | true =>
        have hall : ∀ x, some o = some x → s.isDevice x = true := by
          intro x hx
          rcases Option.some.inj hx with rfl
          exact hdevice
        cases memory with
        | true =>
          refine ⟨_, _, (openDevice_device hheldr hdevice).1, iff_of_true ⟨?_, ?_⟩ hall⟩
          · intro hfailed
            exact absurd (show ntSuccess statusSuccess = false from hfailed) (by decide)
          · intro _ _ _ _ _ _
            exact ⟨name, s.nextObject, o, hcall, rfl, opened_openedOn h hfollow hheldr hdevice⟩
        | false =>
          refine ⟨_, _, (openDevice_device hheldr hdevice).2, iff_of_true ⟨fun _ => rfl, ?_⟩ hall⟩
          exact fun _ _ _ _ _ hsuccess => absurd hsuccess (by decide)

end Intact

/-- **Failed opens and deletions.** A call leaves the reference counts as the caller
expects exactly when it finds no object that it turns down: on those it keeps the
reference of its lookup. -/
theorem intact_iff (ddkIoCreateFile : UnicodeString → ObM FileReply) (s : State) (h : Table s)
    (call : Call) (haccepted : Accepted s call) :
    ∃ reply t, perform ddkIoCreateFile call s = .ok reply t ∧
      (Intact s call reply t ↔ TurnsDownNothing s call) := by
  cases call with
  | deleteSymbolicLink name => exact deletion_intact_iff h haccepted.1 haccepted.2 ddkIoCreateFile
  | createFileEx memory objectAttributes ioStatusBlock options =>
    rcases haccepted with ⟨hroot, hnames⟩
    cases hname : (Call.createFileEx memory objectAttributes ioStatusBlock options).name with
    | none =>
      -- a parameter is missing, and nothing is looked up
      refine ⟨⟨statusInvalidParameter, none, none⟩, s, ?_, iff_of_true ⟨fun _ => rfl, ?_⟩ ?_⟩
      · rcases objectAttributes with _ | ⟨_ | objectName, rootDirectory⟩
        · rfl
        · rfl
        · cases ioStatusBlock with
          | true => simp [Call.name] at hname
          | false => rfl
      · exact fun _ _ _ _ _ hsuccess => absurd hsuccess (by decide)
      · intro x hx
        rw [hname] at hx
        cases hx
    | some name =>
      rcases hnames name hname with ⟨hfile, hfits, hchain⟩
      rcases Option.ne_none_iff_exists'.1 hchain with ⟨r, hfollow⟩
      have hdown : TurnsDownNothing s
          (.createFileEx memory objectAttributes ioStatusBlock options) ↔
          ¬ StopsOnLink s options (denotes s name) ∧
            ∀ o, s.follow 1000 (denotes s name) = some (some o) → s.isDevice o = true := by
        simp [TurnsDownNothing, hname]
      rcases open_intact_iff h hfits memory hname hdown hfollow with ⟨reply, t, hrun, hiff⟩
      refine ⟨reply, t, ?_, hiff⟩
      cases ioStatusBlock with
      | false => simp [Call.name] at hname
      | true =>
        rcases Option.bind_eq_some_iff.1 hname with ⟨⟨objectName, rootDirectory⟩, rfl, rfl⟩
        have hassert : ddkAssert (!rootDirectory) s = .ok () s :=
          ddkAssert_ok (by simpa using hroot _ rfl) s
        simp only [perform, ioCreateFileEx, if_true, bind_ok hassert, hfile, Bool.false_eq_true,
          if_false]
        exact hrun

/-- The state with one object, which has a name. -/
def oneNamed (body : Body) (path : UnicodeString) : State :=
  (emptyState.allocated body).named 0 ⟨1, body⟩ path

theorem table_oneNamed {body : Body} {path : UnicodeString}
    (hbody : ∀ destination enabled, body = .symlink destination enabled → PathFits destination [])
    (hpath : ∀ c ∈ path, c ≠ 0) : Table (oneNamed body path) := by
  apply (table_emptyState.allocated hbody).named
  · exact allocated_self emptyState body
  · simp
  · intro e he
    cases he
  · exact hpath

/-- The open of a device by its name. -/
theorem intact_iff_device : ∃ reply t,
    perform (fun _ => throw .ddkfail)
      (.createFileEx true (some ⟨some [0x5C, 0x44], false⟩) true 0)
      (oneNamed (.device 5 none) [0x5C, 0x44]) = .ok reply t ∧
    reply.fileHandle = some 1 ∧ Intact (oneNamed (.device 5 none) [0x5C, 0x44])
      (.createFileEx true (some ⟨some [0x5C, 0x44], false⟩) true 0) reply t := by
  have haccepted : Accepted (oneNamed (.device 5 none) [0x5C, 0x44])
      (.createFileEx true (some ⟨some [0x5C, 0x44], false⟩) true 0) := by
    refine ⟨by simp, fun name hname => ?_⟩
    rcases Option.some.inj (Option.mem_def.1 hname) with rfl
    exact ⟨by decide, by decide, by decide⟩
  rcases intact_iff (fun _ => throw .ddkfail) (oneNamed (.device 5 none) [0x5C, 0x44])
    (table_oneNamed (by simp) (by simp)) _ haccepted with ⟨reply, t, hrun, hiff⟩
  have heval : perform (fun _ => throw .ddkfail)
      (.createFileEx true (some ⟨some [0x5C, 0x44], false⟩) true 0)
      (oneNamed (.device 5 none) [0x5C, 0x44]) =
        .ok (setStatus statusSuccess fileOpened (some 1)) _ := rfl
  rcases result_eq heval hrun with ⟨rfl, -⟩
  refine ⟨_, t, hrun, rfl, hiff.2 ?_⟩
  intro name hname
  rcases Option.some.inj (Option.mem_def.1 hname) with rfl
  refine ⟨?_, ?_⟩
  · rintro ⟨o, ho, hlink, -⟩
    have hdenotes : denotes (oneNamed (.device 5 none) [0x5C, 0x44]) [0x5C, 0x44] = some 0 := by
      decide
    rcases Option.some.inj (hdenotes.symm.trans ho) with rfl
    exact absurd hlink (by decide)
  · intro o ho
    have hfollow : (oneNamed (.device 5 none) [0x5C, 0x44]).follow 1000
        (denotes (oneNamed (.device 5 none) [0x5C, 0x44]) [0x5C, 0x44]) = some (some 0) := by
      decide
    rcases Option.some.inj (Option.some.inj (hfollow.symm.trans ho)) with rfl
    decide

/-- The open of a link with `IO_STOP_ON_SYMLINK` fails, and the link has one reference
more. -/
theorem stopped_not_intact : ¬ ∀ ddkIoCreateFile s call, Table s → Accepted s call →
    ∃ reply t, perform ddkIoCreateFile call s = .ok reply t ∧ Intact s call reply t := by
  intro hall
  rcases hall (fun _ => throw .ddkfail) (oneNamed (.symlink [0x5C, 0x44] true) [0x5C, 0x4C])
    (.createFileEx true (some ⟨some [0x5C, 0x4C], false⟩) true ioStopOnSymlink)
    (table_oneNamed (by
      intro destination enabled heq
      rcases Body.symlink.inj heq with ⟨rfl, -⟩
      decide) (by simp)) (by
      refine ⟨by simp, fun name hname => ?_⟩
      rcases Option.some.inj (Option.mem_def.1 hname) with rfl
      exact ⟨by decide, by decide, by decide⟩) with ⟨reply, t, hrun, hintact⟩
  have heval : perform (fun _ => throw .ddkfail)
      (.createFileEx true (some ⟨some [0x5C, 0x4C], false⟩) true ioStopOnSymlink)
      (oneNamed (.symlink [0x5C, 0x44] true) [0x5C, 0x4C]) =
        .ok (setStatus statusStoppedOnSymlink fileDoesNotExist none) _ := rfl
  rcases result_eq heval hrun with ⟨rfl, rfl⟩
  have hcount := congrFun (hintact.failed (by decide)) 0
  exact absurd hcount (by decide)

end Symlink

end Wdutf.Ob
