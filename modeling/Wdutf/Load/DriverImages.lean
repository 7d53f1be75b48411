import Mathlib.Data.List.Basic
import Mathlib.Data.List.Nodup
import Mathlib.Logic.Function.Basic
import Mathlib.Tactic.Common
import Wdutf.Lib.Keyed
import Wdutf.Lib.Slots
import Wdutf.Load.ImageData
import Wdutf.Ob.DriverName

/-!
# Wdutf.Load.DriverImages — driver images, loaded and unloaded by many modules, `src/load.cpp`

Test modules load and unload drivers under `DdkLoadLock`, each as often as it likes. The
first load makes an image of the driver file, an ordinary DLL, and calls `DriverEntry`; the
last unload gives the DLL back. A module that imports from a driver is bound to it by its
delay load helper, which has references of its own on the DLL, so the DLL can survive the
driver. The next load must find the driver as new all the same.

* `ddkLoadDriver`, `ddkUnloadDriver` — the calls, with `DdkLoadImage`, `DdkDelayLoad`,
  `DdkDelayUnload` and `DdkUnloadImage`;
* `Outside` — what may go wrong in a call that these routines do not decide;
* `openLoads` — the loads that have not been undone;
* `driverImages_sound` — a driver is loaded as long as there are such loads, every
  `DriverEntry` finds the memory of a new image, and a call fails for a reason outside, or where
  there is no room.
-/

namespace Wdutf.Images

open Wdutf.Keyed Wdutf.Slots Wdutf.Load Wdutf.Rtl

/-! ## The model -/

/-- What goes wrong outside of these routines. -/
inductive Outside where
  /-- "Unable to read driver file" -/
  | readFile
  /-- "Unable to write driver file" -/
  | writeFile
  /-- "Unable to load driver" -/
  | loadLibrary
  /-- "Unable to create image" -/
  | createImage
  /-- "DriverEntry failed" -/
  | driverEntry
  /-- "Timeout unloading driver" -/
  | timeout
  /-- "Unable to detach detours for module" -/
  | detachModule
  /-- "Unable to detach detours from image" -/
  | detachImage
deriving DecidableEq, Repr

/-- Why a call does not succeed. -/
inductive Failure where
  | outside (o : Outside)
  /-- No memory to save the data, or data that are not there. -/
  | stop (e : Stop)
  /-- "Unable to write driver file": its DLL is in the process. -/
  | inUse
  /-- "Unable to reference driver" -/
  | reference
  /-- "Driver still referenced" -/
  | stillReferenced
  /-- "Driver linked statically and dynamically" -/
  | linked
  /-- `STATUS_OBJECT_NAME_EXISTS` -/
  | nameExists
deriving DecidableEq, Repr

/-- What the calls find: the driver files, and the modules, with the drivers that each one
imports from. -/
structure World (M N : Type) where
  /-- The base names of the files, in lower case. -/
  name : N → List UInt8
  distinct : Function.Injective name
  short : ∀ n, (name n).length ≤ 255
  ascii : ∀ n, ∀ c ∈ name n, c < 0x80
  /-- A driver of this name is linked to a module, which has started it. -/
  isLinked : N → Bool
  heap : Heap
  sections : N → List SectionHeader
  size : N → ℕ
  /-- The memory of the image as `LoadLibrary` makes it. -/
  initial : N → ℕ → Option UInt8
  /-- `DdkFindDLLName` finds a name. -/
  imports : M → N → Bool
  wellFormed : ∀ n, WellFormed (sections n) (size n)
  size_lt : ∀ n, size n < 2 ^ 32
  accessible : ∀ n, Accessible (sections n) (initial n)

def maxmodules : ℕ := 100

structure DelayLoad (M : Type) where
  module : Option M
  refcnt : ℕ

/-- An `IMAGE`, with the name of its driver. -/
structure Image (M N : Type) where
  name : N
  delayLoad : ℕ → DelayLoad M
  data : Option (List UInt8)

/-- A DLL in the process. -/
structure Dll where
  refs : ℕ
  memory : ℕ → Option UInt8

structure State (M N : Type) where
  dll : N → Option Dll
  ddkImageList : List (Image M N)
  /-- The `loadcount` of the driver that is registered under a name and has an image. -/
  loadcount : List Wchar → Option ℕ
  /-- The modules whose delay load helper has loaded the DLL. -/
  bound : N → List M
  /-- The calls of `DriverEntry`, with the memory that each one found. -/
  entries : List (N × (ℕ → Option UInt8))

/-- What modules do with drivers; `delay` is for a module that hands over its delay load
helper. -/
inductive Call (M N : Type) where
  | load (m : M) (n : N) (delay : Bool)
  | unload (m : M) (n : N) (delay : Bool)
deriving DecidableEq, Repr

section Model

variable {M N : Type} [DecidableEq M] [DecidableEq N]

/-- A place where something outside may go wrong; `t` tells what does in this call. -/
def check (t : Outside → Bool) (o : Outside) : Except Failure Unit :=
  if t o = true then .error (.outside o) else .ok ()

/-- `LoadLibrary` -/
def loadLibrary (w : World M N) (n : N) (s : State M N) : State M N :=
  match s.dll n with
  | none => { s with dll := Function.update s.dll n (some ⟨1, w.initial n⟩) }
  | some d => { s with dll := Function.update s.dll n (some { d with refs := d.refs + 1 }) }

/-- `FreeLibrary` -/
def freeLibrary (n : N) (s : State M N) : State M N :=
  match s.dll n with
  | none => s
  | some d =>
    if d.refs ≤ 1 then { s with dll := Function.update s.dll n none }
    else { s with dll := Function.update s.dll n (some { d with refs := d.refs - 1 }) }

/-- `__HrLoadAllImportsForDll` in a module. -/
def pLoad (w : World M N) (m : M) (n : N) (s : State M N) : State M N :=
  if m ∈ s.bound n then s
  else { loadLibrary w n s with bound := Function.update s.bound n (m :: s.bound n) }

/-- `__FUnloadDelayLoadedDLL2` in a module. -/
def pUnload (m : M) (n : N) (s : State M N) : State M N :=
  if m ∈ s.bound n then
    { freeLibrary n s with bound := Function.update s.bound n ((s.bound n).erase m) }
  else s

/-- `DdkLoadImage`. The file of a DLL that is in the process cannot be written. -/
def ddkLoadImage (w : World M N) (t : Outside → Bool) (n : N) (s : State M N) :
    Except Failure (State M N) :=
  match lookup Image.name s.ddkImageList n with
  | some _ => .ok s
  | none => do
    check t .readFile
    match s.dll n with
    | some _ => .error .inUse
    | none =>
      check t .writeFile
      check t .loadLibrary
      check t .createImage
      let data ← (ddkSaveImageData w.heap (w.sections n) (w.initial n)).mapError Failure.stop
      .ok { loadLibrary w n s with
        ddkImageList := ⟨n, fun _ => ⟨none, 0⟩, data⟩ :: s.ddkImageList }

/-- `DdkDelayLoad` -/
def ddkDelayLoad (w : World M N) (m : M) (n : N) (s : State M N) : Except Failure (State M N) :=
  match lookup Image.name s.ddkImageList n with
  | none => .ok s
  | some pImage =>
    match search (fun i => (pImage.delayLoad i).module) m maxmodules none with
    | none => .error .reference
    | some i =>
      let s' := { s with
        ddkImageList := store Image.name s.ddkImageList
          { pImage with
            delayLoad := Function.update pImage.delayLoad i
              ⟨some m, (pImage.delayLoad i).refcnt + 1⟩ } }
      .ok (if w.imports m n = true then pLoad w m n s' else s')

/-- `DdkDelayUnload`. Only the last call of a module goes on behind the loop. -/
def ddkDelayUnload (w : World M N) (t : Outside → Bool) (m : M) (n : N) (s : State M N) :
    Except Failure (State M N) :=
  match lookup Image.name s.ddkImageList n with
  | none => .ok s
  | some pImage =>
    let put (i : ℕ) (x : DelayLoad M) : State M N :=
      { s with
        ddkImageList := store Image.name s.ddkImageList
          { pImage with delayLoad := Function.update pImage.delayLoad i x } }
    let unload (s : State M N) : Except Failure (State M N) := do
      check t .detachModule
      .ok (if w.imports m n = true then pUnload m n s else s)
    match first (fun i => (pImage.delayLoad i).module) m maxmodules with
    | none => unload s
    | some i =>
      if 1 < (pImage.delayLoad i).refcnt then
        .ok (put i ⟨some m, (pImage.delayLoad i).refcnt - 1⟩)
      else unload (put i ⟨none, (pImage.delayLoad i).refcnt - 1⟩)

/-- `DdkUnloadImage`. `GetModuleHandleEx` gets a reference where the DLL is still there. -/
def ddkUnloadImage (w : World M N) (t : Outside → Bool) (n : N) (s : State M N) :
    Except Failure (State M N) :=
  match lookup Image.name s.ddkImageList n with
  | none => .ok s
  | some pImage =>
    if ∃ i < maxmodules, (pImage.delayLoad i).module ≠ none ∧ (pImage.delayLoad i).refcnt ≠ 0 then
      .error .stillReferenced
    else do
      check t .detachImage
      let s := freeLibrary n s
      match s.dll n with
      | some d =>
        let memory ← (ddkRestoreImageData (w.sections n) pImage.data d.memory).mapError Failure.stop
        .ok { s with dll := Function.update s.dll n (some ⟨d.refs + 1, memory⟩) }
      | none => .ok { s with ddkImageList := unlink Image.name s.ddkImageList n }

/-- `DdkCreateDriver`, which calls `DriverEntry`. -/
def ddkCreateDriver (w : World M N) (t : Outside → Bool) (n : N) (s : State M N) :
    Except Failure (State M N) :=
  match s.dll n with
  | none => .error (.stop .outOfBounds)
  | some d =>
    match s.loadcount (Ob.wide (w.name n)) with
    | some _ => .error .nameExists
    | none => do
      check t .driverEntry
      .ok { s with
        loadcount := Function.update s.loadcount (Ob.wide (w.name n)) (some 1)
        entries := s.entries ++ [(n, d.memory)] }

/-- `DdkLoadDriver` -/
def ddkLoadDriver (w : World M N) (t : Outside → Bool) (m : M) (n : N) (delay : Bool)
    (s : State M N) : Except Failure (State M N) := do
  let wname := (w.name n).map Ob.charToWchar
  let s ← (match s.loadcount wname with
    | some k => .ok { s with loadcount := Function.update s.loadcount wname (some (k + 1)) }
    | none =>
      if w.isLinked n = true then .error .linked
      else ddkLoadImage w t n s >>= ddkCreateDriver w t n : Except Failure (State M N))
  if delay = true then ddkDelayLoad w m n s else .ok s

/-- `DdkUnloadDriver`, where the driver gives its own references back, unless it runs out of
time. -/
def ddkUnloadDriver (w : World M N) (t : Outside → Bool) (m : M) (n : N) (delay : Bool)
    (s : State M N) : Except Failure (State M N) :=
  let wname := Ob.formatName (w.name n)
  match s.loadcount wname with
  | none => .ok s
  | some k => do
    let s ← (if delay = true then ddkDelayUnload w t m n s else .ok s :
      Except Failure (State M N))
    if k ≤ 1 then
      check t .timeout
      ddkUnloadImage w t n { s with loadcount := Function.update s.loadcount wname none }
    else .ok { s with loadcount := Function.update s.loadcount wname (some (k - 1)) }

def Call.run (w : World M N) (t : Outside → Bool) :
    Call M N → State M N → Except Failure (State M N)
  | .load m n delay => ddkLoadDriver w t m n delay
  | .unload m n delay => ddkUnloadDriver w t m n delay

/-- The loads of a driver that have not been undone. -/
def openLoads (n : N) (calls : List (Call M N)) : List (M × Bool) :=
  calls.foldl (fun loads c =>
    match c with
    | .load m n' delay => if n' = n then (m, delay) :: loads else loads
    | .unload m n' delay => if n' = n then loads.erase (m, delay) else loads) []

/-- The driver that a call starts, if nothing of it is loaded. -/
def startedBy (calls : List (Call M N)) : Call M N → List N
  | .load _ n _ => if openLoads n calls = [] then [n] else []
  | .unload _ _ _ => []

/-- The drivers that are started, in their order. -/
def started (calls : List (Call M N)) : List N :=
  (calls.foldl (fun (earlier : List (Call M N) × List N) c =>
    (earlier.1 ++ [c], earlier.2 ++ startedBy earlier.1 c)) ([], [])).2

/-- A module unloads what it has loaded. -/
def Paired (calls : List (Call M N)) : Call M N → Prop
  | .load _ _ _ => True
  | .unload m n delay => (m, delay) ∈ openLoads n calls

/-- The name under which the driver of a file is registered. -/
def World.driverName (w : World M N) (n : N) : List Wchar := Ob.wide (w.name n)

/-- The calls of a run, and the state after them. Between the calls a loaded driver changes
its data, and modules are bound to a driver, when they use an import, and give it up. -/
inductive Run (w : World M N) : List (Call M N) → State M N → Prop
  | start : Run w [] ⟨fun _ => none, [], fun _ => none, fun _ => [], []⟩
  | call {calls : List (Call M N)} {s s' : State M N} {c : Call M N} (t : Outside → Bool) :
      Run w calls s → Paired calls c → c.run w t s = .ok s' → Run w (calls ++ [c]) s'
  | work {calls : List (Call M N)} {s : State M N} {n : N} {d : Dll} {memory : ℕ → Option UInt8} :
      Run w calls s → s.loadcount (w.driverName n) ≠ none → s.dll n = some d →
      Accessible (w.sections n) memory →
      (∀ x, ¬ Selected (w.sections n) x → memory x = d.memory x) →
      Run w calls { s with dll := Function.update s.dll n (some { d with memory := memory }) }
  | bind {calls : List (Call M N)} {s : State M N} {m : M} {n : N} :
      Run w calls s → w.imports m n = true → s.dll n ≠ none → Run w calls (pLoad w m n s)
  | unbind {calls : List (Call M N)} {s : State M N} {m : M} {n : N} :
      Run w calls s → Run w calls (pUnload m n s)

/-- Nothing goes wrong outside. -/
def fine : Outside → Bool := fun _ => false

omit [DecidableEq M] [DecidableEq N] in
theorem World.driverName_injective (w : World M N) : Function.Injective w.driverName := by
  have hwide : Function.Injective UInt8.toUInt16 := fun a b h =>
    UInt8.toNat_inj.1 (by rw [← UInt8.toNat_toUInt16, h, UInt8.toNat_toUInt16])
  exact fun _ _ h => w.distinct (List.map_injective_iff.2 hwide h)

omit [DecidableEq M] [DecidableEq N] in
/-- The names that are looked for are the one that is registered. -/
theorem World.sought (w : World M N) (n : N) :
    (w.name n).map Ob.charToWchar = w.driverName n ∧
      Ob.formatName (w.name n) = w.driverName n :=
  ⟨Ob.map_charToWchar.2 (w.ascii n), Ob.formatName_eq (w.short n)⟩

/-! ## The invariant -/

/-- The image of a driver with its DLL. Each module is counted `f` times in its table. -/
structure Loaded (w : World M N) (s : State M N) (n : N) (f : M → ℕ) (im : Image M N) (d : Dll) :
    Prop where
  image : lookup Image.name s.ddkImageList n = some im
  dll : s.dll n = some d
  refs : d.refs = 1 + (s.bound n).length
  counts : Counts maxmodules (fun i => (im.delayLoad i).module) (fun i => (im.delayLoad i).refcnt) f
  accessible : Accessible (w.sections n) d.memory
  others : ∀ x, ¬ Selected (w.sections n) x → d.memory x = w.initial n x
  restores : ∀ now, Accessible (w.sections n) now →
    ∃ memory, ddkRestoreImageData (w.sections n) im.data now = .ok memory ∧
      Restored (w.sections n) (w.initial n) now memory

/-- There is nothing of the driver. -/
structure Absent (s : State M N) (n : N) : Prop where
  image : lookup Image.name s.ddkImageList n = none
  dll : s.dll n = none
  bound : s.bound n = []

/-- How often a module has loaded the driver with its helper. -/
def counted (loads : List (M × Bool)) (m : M) : ℕ := loads.count (m, true)

/-- What holds of a driver with these loads. -/
structure NameOk (w : World M N) (s : State M N) (n : N) (loads : List (M × Bool)) : Prop where
  loadcount : s.loadcount (w.driverName n) = if loads = [] then none else some loads.length
  image : Absent s n ∧ loads = [] ∨
    ∃ im d, Loaded w s n (counted loads) im d ∧ (loads = [] → d.memory = w.initial n)

structure Inv (w : World M N) (calls : List (Call M N)) (s : State M N) : Prop where
  nodup : (s.ddkImageList.map Image.name).Nodup
  names : ∀ n, NameOk w s n (openLoads n calls)
  entries : ∀ e ∈ s.entries, e.2 = w.initial e.1
  started : s.entries.map Prod.fst = started calls

/-- What a routine that is called for one driver leaves alone. -/
structure Frame (n : N) (s s' : State M N) : Prop where
  dll : ∀ k, k ≠ n → s'.dll k = s.dll k
  image : ∀ k, k ≠ n → lookup Image.name s'.ddkImageList k = lookup Image.name s.ddkImageList k
  bound : ∀ k, k ≠ n → s'.bound k = s.bound k
  nodup : (s.ddkImageList.map Image.name).Nodup → (s'.ddkImageList.map Image.name).Nodup

variable {w : World M N} {s s' s'' : State M N} {m : M} {n : N} {f : M → ℕ} {im : Image M N}
  {d : Dll}
  {loads : List (M × Bool)} {calls : List (Call M N)}

omit [DecidableEq M] in
theorem Frame.refl : Frame n s s := ⟨fun _ _ => rfl, fun _ _ => rfl, fun _ _ => rfl, id⟩

omit [DecidableEq M] in
theorem Frame.trans (h : Frame n s s') (h' : Frame n s' s'') : Frame n s s'' := by
  refine ⟨?_, ?_, ?_, fun hnodup => h'.nodup (h.nodup hnodup)⟩
  · exact fun k hk => (h'.dll k hk).trans (h.dll k hk)
  · exact fun k hk => (h'.image k hk).trans (h.image k hk)
  · exact fun k hk => (h'.bound k hk).trans (h.bound k hk)

/-- The other drivers are as they were. -/
theorem Frame.nameOk {k : N} (h : Frame n s s') (hk : k ≠ n)
    (hloadcount : s'.loadcount (w.driverName k) = s.loadcount (w.driverName k))
    (hok : NameOk w s k loads) : NameOk w s' k loads := by
  refine ⟨hloadcount.trans hok.loadcount, ?_⟩
  rcases hok.image with ⟨habsent, hnil⟩ | ⟨im, d, hloaded, hfresh⟩
  · refine Or.inl ⟨⟨?_, ?_, ?_⟩, hnil⟩
    · exact (h.image k hk).trans habsent.image
    · exact (h.dll k hk).trans habsent.dll
    · exact (h.bound k hk).trans habsent.bound
  · refine Or.inr ⟨im, d, ⟨?_, ?_, ?_, hloaded.counts, hloaded.accessible, hloaded.others,
      hloaded.restores⟩, hfresh⟩
    · exact (h.image k hk).trans hloaded.image
    · exact (h.dll k hk).trans hloaded.dll
    · rw [h.bound k hk]
      exact hloaded.refs

/-! ## The DLL -/

omit [DecidableEq M] in
/-- The references of a DLL, and what else changes with them. -/
theorem frame_dll (n : N) (s : State M N) (x : Option Dll) (bound : List M) :
    Frame n s { s with
      dll := Function.update s.dll n x
      bound := Function.update s.bound n bound } :=
  ⟨fun _ hk => Function.update_of_ne hk _ _, fun _ _ => rfl,
    fun _ hk => Function.update_of_ne hk _ _, id⟩

/-- A module is bound to a driver. -/
theorem pLoad_spec (h : Loaded w s n f im d) :
    ∃ refs, Loaded w (pLoad w m n s) n f im ⟨refs, d.memory⟩ ∧ Frame n s (pLoad w m n s) ∧
      (pLoad w m n s).loadcount = s.loadcount ∧ (pLoad w m n s).entries = s.entries := by
  by_cases hm : m ∈ s.bound n
  · rw [pLoad, if_pos hm]
    exact ⟨d.refs, h, Frame.refl, rfl, rfl⟩
  · have heq : pLoad w m n s = { s with
        dll := Function.update s.dll n (some { d with refs := d.refs + 1 })
        bound := Function.update s.bound n (m :: s.bound n) } := by
      rw [pLoad, if_neg hm, loadLibrary, h.dll]
    rw [heq]
    refine ⟨d.refs + 1, ⟨h.image, Function.update_self .., ?_, h.counts, h.accessible, h.others,
      h.restores⟩, frame_dll n s _ _, rfl, rfl⟩
    show d.refs + 1 = 1 + (Function.update s.bound n (m :: s.bound n) n).length
    rw [Function.update_self, List.length_cons, h.refs]
    omega

/-- A module gives a driver up. The reference of the image is left. -/
theorem pUnload_spec (h : Loaded w s n f im d) :
    ∃ refs, Loaded w (pUnload m n s) n f im ⟨refs, d.memory⟩ ∧ Frame n s (pUnload m n s) ∧
      (pUnload m n s).loadcount = s.loadcount ∧ (pUnload m n s).entries = s.entries := by
  by_cases hm : m ∈ s.bound n
  · have hpos : 0 < (s.bound n).length := List.length_pos_of_mem hm
    have hrefs := h.refs
    have heq : pUnload m n s = { s with
        dll := Function.update s.dll n (some { d with refs := d.refs - 1 })
        bound := Function.update s.bound n ((s.bound n).erase m) } := by
      rw [pUnload, if_pos hm, freeLibrary, h.dll]
      simp only [if_neg (show ¬ d.refs ≤ 1 by omega)]
    rw [heq]
    refine ⟨d.refs - 1, ⟨h.image, Function.update_self .., ?_, h.counts, h.accessible, h.others,
      h.restores⟩, frame_dll n s _ _, rfl, rfl⟩
    show d.refs - 1 = 1 + (Function.update s.bound n ((s.bound n).erase m) n).length
    rw [Function.update_self, List.length_erase_of_mem hm]
    omega
  · rw [pUnload, if_neg hm]
    exact ⟨d.refs, h, Frame.refl, rfl, rfl⟩

omit [DecidableEq M] in
/-- `DdkLoadImage` makes a new image. -/
theorem ddkLoadImage_absent (habsent : Absent s n) :
    (w.heap.malloc (saveLength (w.sections n)) = none ∧
        ddkLoadImage w fine n s = .error (.stop .fail)) ∨
      ∃ s' im, ddkLoadImage w fine n s = .ok s' ∧ Loaded w s' n (fun _ => 0) im ⟨1, w.initial n⟩ ∧
        Frame n s s' ∧ s'.loadcount = s.loadcount ∧ s'.entries = s.entries := by
  have hload : loadLibrary w n s =
      { s with dll := Function.update s.dll n (some ⟨1, w.initial n⟩) } := by
    rw [loadLibrary, habsent.dll]
  rcases imageData_restored w.heap (w.sections n) (w.size n) (w.initial n) (w.wellFormed n)
    (w.size_lt n) (w.accessible n) with ⟨hnone, hsave⟩ | ⟨data, hsave, hrestore⟩
  · left
    refine ⟨hnone, ?_⟩
    rw [ddkLoadImage, habsent.image, habsent.dll, hsave]
    rfl
  · right
    refine ⟨{ s with
      dll := Function.update s.dll n (some ⟨1, w.initial n⟩)
      ddkImageList := ⟨n, fun _ => ⟨none, 0⟩, data⟩ :: s.ddkImageList },
      ⟨n, fun _ => ⟨none, 0⟩, data⟩, ?_, ⟨?_, ?_, ?_, ?_, ?_, ?_, ?_⟩, ?_, rfl, rfl⟩
    · rw [ddkLoadImage, habsent.image, habsent.dll, hsave, hload]
      rfl
    · exact lookup_cons_self
    · exact Function.update_self ..
    · rw [habsent.bound]
      rfl
    · exact Counts.nil (fun _ _ => rfl) (fun _ _ => rfl) (fun _ => rfl)
    · exact w.accessible n
    · exact fun _ _ => rfl
    · exact hrestore
    · refine ⟨fun _ hk => Function.update_of_ne hk _ _, fun _ hk => lookup_cons_of_ne hk.symm,
        fun _ _ => rfl, fun hnodup => ?_⟩
      rw [List.map_cons, List.nodup_cons]
      refine ⟨?_, hnodup⟩
      intro hmem
      rcases List.mem_map.1 hmem with ⟨im, him, hname⟩
      have hfound := lookup_of_mem hnodup him
      rw [hname, habsent.image] at hfound
      cases hfound

/-! ## The table of modules -/

omit [DecidableEq M] in
/-- The table of the image is written. -/
theorem store_spec {delayLoad : ℕ → DelayLoad M} {g : M → ℕ} (h : Loaded w s n f im d)
    (hcounts : Counts maxmodules (fun i => (delayLoad i).module) (fun i => (delayLoad i).refcnt)
      g) :
    Loaded w { s with
        ddkImageList := store Image.name s.ddkImageList { im with delayLoad := delayLoad } } n g
        { im with delayLoad := delayLoad } d ∧
      Frame n s { s with
        ddkImageList := store Image.name s.ddkImageList { im with delayLoad := delayLoad } } := by
  have hname := key_of_lookup h.image
  refine ⟨⟨?_, h.dll, h.refs, hcounts, h.accessible, h.others, h.restores⟩, fun _ _ => rfl, ?_,
    fun _ _ => rfl, ?_⟩
  · have hfound := h.image
    rw [← hname] at hfound ⊢
    exact lookup_store (b := { im with delayLoad := delayLoad }) hfound
  · intro k hk
    rw [← hname] at hk
    refine lookup_store_of_ne ?_
    exact hk
  · intro hnodup
    show ((store Image.name s.ddkImageList { im with delayLoad := delayLoad }).map Image.name).Nodup
    rw [keys_store]
    exact hnodup

omit [DecidableEq M] [DecidableEq N] in
theorem module_update (delayLoad : ℕ → DelayLoad M) (i : ℕ) (x : DelayLoad M) :
    (fun j => (Function.update delayLoad i x j).module) =
        Function.update (fun j => (delayLoad j).module) i x.module ∧
      (fun j => (Function.update delayLoad i x j).refcnt) =
        Function.update (fun j => (delayLoad j).refcnt) i x.refcnt :=
  ⟨Function.comp_update DelayLoad.module delayLoad i x,
    Function.comp_update DelayLoad.refcnt delayLoad i x⟩

/-- `DdkDelayLoad` counts the module, where the table has room. -/
theorem ddkDelayLoad_spec (h : Loaded w s n f im d) :
    (ddkDelayLoad w m n s = .error .reference ∧ f m = 0 ∧
        ∃ ms : List M, ms.Nodup ∧ ms.length = maxmodules ∧ ∀ m ∈ ms, 0 < f m) ∨
      ∃ s' im' refs, ddkDelayLoad w m n s = .ok s' ∧
        Loaded w s' n (Function.update f m (f m + 1)) im' ⟨refs, d.memory⟩ ∧ Frame n s s' ∧
        s'.loadcount = s.loadcount ∧ s'.entries = s.entries := by
  have hfree : (∀ i < maxmodules, (im.delayLoad i).module ≠ some m) → f m = 0 := by
    intro hno
    by_contra hf
    rcases h.counts.there m (Nat.pos_of_ne_zero hf) with ⟨i, hi, hk⟩
    exact hno i hi hk
  have hslot : ∀ i < maxmodules,
      (im.delayLoad i).module = some m ∨ (im.delayLoad i).module = none ∧ f m = 0 →
      search (fun i => (im.delayLoad i).module) m maxmodules none = some i →
      ∃ s' im' refs, ddkDelayLoad w m n s = .ok s' ∧
        Loaded w s' n (Function.update f m (f m + 1)) im' ⟨refs, d.memory⟩ ∧ Frame n s s' ∧
        s'.loadcount = s.loadcount ∧ s'.entries = s.entries := by
    intro i hi hkey hsearch
    have hcounts := h.counts.add hi hkey
    rcases module_update im.delayLoad i ⟨some m, (im.delayLoad i).refcnt + 1⟩ with ⟨hm, hr⟩
    rw [← hm, ← hr] at hcounts
    rcases store_spec h hcounts with ⟨hloaded, hframe⟩
    rw [ddkDelayLoad, h.image]
    simp only [hsearch]
    by_cases himports : w.imports m n = true
    · rw [if_pos himports]
      rcases pLoad_spec (m := m) hloaded with ⟨refs, hloaded', hframe', hcount, hentries⟩
      exact ⟨_, _, refs, rfl, hloaded', hframe.trans hframe', hcount, hentries⟩
    · rw [if_neg himports]
      exact ⟨_, _, d.refs, rfl, hloaded, hframe, rfl, rfl⟩
  rcases search_cases (fun i => (im.delayLoad i).module) m maxmodules none with
    ⟨i, hi, hk, hsearch⟩ | ⟨hno, ⟨i, hi, hnone, hsearch⟩ | ⟨hfull, hsearch⟩⟩
  · exact Or.inr (hslot i hi (Or.inl hk) hsearch)
  · exact Or.inr (hslot i hi (Or.inr ⟨hnone, hfree hno⟩) hsearch)
  · left
    refine ⟨?_, hfree hno, h.counts.full hfull⟩
    rw [ddkDelayLoad, h.image]
    simp only [hsearch]

/-- `DdkDelayUnload` counts the module once less. -/
theorem ddkDelayUnload_spec (h : Loaded w s n f im d) :
    ∃ s' im' refs, ddkDelayUnload w fine m n s = .ok s' ∧
      Loaded w s' n (Function.update f m (f m - 1)) im' ⟨refs, d.memory⟩ ∧ Frame n s s' ∧
      s'.loadcount = s.loadcount ∧ s'.entries = s.entries := by
  -- what the last call of the module does behind the loop
  have hunload : ∀ {g s' im'}, Loaded w s' n g im' d → Frame n s s' →
      s'.loadcount = s.loadcount → s'.entries = s.entries →
      ∃ s'' im' refs, (.ok (if w.imports m n = true then pUnload m n s' else s') :
          Except Failure (State M N)) = .ok s'' ∧ Loaded w s'' n g im' ⟨refs, d.memory⟩ ∧
        Frame n s s'' ∧ s''.loadcount = s.loadcount ∧ s''.entries = s.entries := by
    intro g s' im' hloaded hframe hcount hentries
    by_cases himports : w.imports m n = true
    · rw [if_pos himports]
      rcases pUnload_spec (m := m) hloaded with ⟨refs, hloaded', hframe', hcount', hentries'⟩
      exact ⟨_, im', refs, rfl, hloaded', hframe.trans hframe', hcount'.trans hcount,
        hentries'.trans hentries⟩
    · rw [if_neg himports]
      exact ⟨_, im', d.refs, rfl, hloaded, hframe, hcount, hentries⟩
  rw [ddkDelayUnload, h.image]
  cases hfirst : first (fun i => (im.delayLoad i).module) m maxmodules with
  | none =>
    have hf : f m = 0 := h.counts.first_none.1 hfirst
    have hsame : Function.update f m (f m - 1) = f := by
      rw [hf]
      show Function.update f m 0 = f
      rw [← hf, Function.update_eq_self]
    simp only [hfirst, hsame]
    exact hunload h Frame.refl rfl rfl
  | some i =>
    rcases first_some hfirst with ⟨hi, hk⟩
    simp only [hfirst]
    by_cases hmore : 1 < (im.delayLoad i).refcnt
    · rw [if_pos hmore]
      have hcounts := h.counts.less hi hk hmore
      rcases module_update im.delayLoad i ⟨some m, (im.delayLoad i).refcnt - 1⟩ with ⟨hm, hr⟩
      have hkeep : Function.update (fun j => (im.delayLoad j).module) i (some m) =
          fun j => (im.delayLoad j).module := by
        rw [← hk, Function.update_eq_self]
      rw [← hr, ← hkeep, ← hm] at hcounts
      rcases store_spec h hcounts with ⟨hloaded, hframe⟩
      exact ⟨_, _, d.refs, rfl, hloaded, hframe, rfl, rfl⟩
    · rw [if_neg hmore]
      rcases h.counts.used i hi m hk with ⟨hcount, hpos⟩
      have hone : (im.delayLoad i).refcnt = 1 := by
        have hcount' : (im.delayLoad i).refcnt = f m := hcount
        omega
      have hcounts := h.counts.last hi hk hone
      rcases module_update im.delayLoad i ⟨none, (im.delayLoad i).refcnt - 1⟩ with ⟨hm, hr⟩
      have hzero : (im.delayLoad i).refcnt - 1 = 0 := by omega
      rw [hzero] at hm hr ⊢
      rw [← hr, ← hm] at hcounts
      rcases store_spec h hcounts with ⟨hloaded, hframe⟩
      exact hunload hloaded hframe rfl rfl

/-! ## Giving the image back -/

omit [DecidableEq M] in
/-- `DdkUnloadImage`, when no module is counted: the DLL is gone, or as it was made. -/
theorem ddkUnloadImage_spec (h : Loaded w s n f im d) (hf : ∀ m, f m = 0)
    (hnodup : (s.ddkImageList.map Image.name).Nodup) :
    ∃ s', ddkUnloadImage w fine n s = .ok s' ∧ Frame n s s' ∧ s'.loadcount = s.loadcount ∧
      s'.entries = s.entries ∧
      (Absent s' n ∨ ∃ refs, Loaded w s' n f im ⟨refs, w.initial n⟩) := by
  have hnone : ¬ ∃ i < maxmodules,
      (im.delayLoad i).module ≠ none ∧ (im.delayLoad i).refcnt ≠ 0 := by
    rintro ⟨i, hi, hmodule, -⟩
    exact hmodule (h.counts.key_of_zero hf hi)
  have hrefs := h.refs
  rw [ddkUnloadImage, h.image]
  simp only [if_neg hnone]
  by_cases hlast : d.refs ≤ 1
  · have hfree : freeLibrary n s = { s with dll := Function.update s.dll n none } := by
      rw [freeLibrary, h.dll]
      simp only [if_pos hlast]
    rw [hfree]
    simp only [Function.update_self]
    refine ⟨_, rfl, ⟨?_, ?_, fun _ _ => rfl, ?_⟩, rfl, rfl, Or.inl ⟨?_, ?_, ?_⟩⟩
    · exact fun _ hk => Function.update_of_ne hk _ _
    · exact fun _ hk => lookup_unlink_of_ne hk
    · exact nodup_unlink
    · exact lookup_unlink_self hnodup
    · exact Function.update_self ..
    · have hlen : (s.bound n).length = 0 := by omega
      exact List.eq_nil_of_length_eq_zero hlen
  · have hfree : freeLibrary n s =
        { s with dll := Function.update s.dll n (some { d with refs := d.refs - 1 }) } := by
      rw [freeLibrary, h.dll]
      simp only [if_neg hlast]
    rcases h.restores d.memory h.accessible with ⟨memory, hrestore, hrestored⟩
    have hmemory : memory = w.initial n := by
      funext x
      by_cases hx : Selected (w.sections n) x
      · exact hrestored.selected x hx
      · rw [hrestored.others x hx, h.others x hx]
    rw [hmemory] at hrestore
    rw [hfree]
    simp only [Function.update_self, hrestore]
    refine ⟨_, rfl, ⟨?_, fun _ _ => rfl, fun _ _ => rfl, id⟩, rfl, rfl, Or.inr ⟨d.refs - 1 + 1, ?_⟩⟩
    · intro k hk
      show Function.update (Function.update s.dll n _) n _ k = s.dll k
      rw [Function.update_of_ne hk, Function.update_of_ne hk]
    · refine ⟨h.image, Function.update_self .., ?_, h.counts, w.accessible n, fun _ _ => rfl,
        h.restores⟩
      show d.refs - 1 + 1 = 1 + (s.bound n).length
      omega

/-! ## Runs -/

theorem openLoads_snoc (n : N) (calls : List (Call M N)) (c : Call M N) :
    openLoads n (calls ++ [c]) =
      match c with
      | .load m n' delay => if n' = n then (m, delay) :: openLoads n calls else openLoads n calls
      | .unload m n' delay =>
        if n' = n then (openLoads n calls).erase (m, delay) else openLoads n calls := by
  rw [openLoads, List.foldl_append]
  rfl

theorem started_snoc (calls : List (Call M N)) (c : Call M N) :
    started (calls ++ [c]) = started calls ++ startedBy calls c := by
  have hearlier : ∀ (calls earlier : List (Call M N)) (ns : List N),
      (calls.foldl (fun (earlier : List (Call M N) × List N) c =>
        (earlier.1 ++ [c], earlier.2 ++ startedBy earlier.1 c)) (earlier, ns)).1 =
          earlier ++ calls := by
    intro calls
    induction calls with
    | nil => exact fun earlier _ => (List.append_nil earlier).symm
    | cons c calls ih =>
      intro earlier ns
      rw [List.foldl_cons, ih, List.append_assoc]
      rfl
  rw [started, List.foldl_append, List.foldl_cons, List.foldl_nil, hearlier calls [] [],
    List.nil_append]
  rfl

/-- The driver that a call is for. -/
def Call.driver : Call M N → N
  | .load _ n _ => n
  | .unload _ n _ => n

theorem openLoads_other {c : Call M N} (h : n ≠ c.driver) :
    openLoads n (calls ++ [c]) = openLoads n calls := by
  rw [openLoads_snoc]
  cases c with
  | load m k delay => exact if_neg h.symm
  | unload m k delay => exact if_neg h.symm

omit [DecidableEq N] in
/-- One more load of a module. -/
theorem counted_cons (m : M) (delay : Bool) (loads : List (M × Bool)) :
    counted ((m, delay) :: loads) =
      if delay = true then Function.update (counted loads) m (counted loads m + 1)
      else counted loads := by
  funext k
  cases delay with
  | true =>
    rw [if_pos rfl]
    by_cases hk : k = m
    · rw [hk, Function.update_self]
      exact List.count_cons_self
    · rw [Function.update_of_ne hk]
      exact List.count_cons_of_ne (by simp [Ne.symm hk])
  | false => exact List.count_cons_of_ne (by simp)

/-- One less. -/
theorem counted_erase (m : M) (delay : Bool) (loads : List (M × Bool)) :
    counted (loads.erase (m, delay)) =
      if delay = true then Function.update (counted loads) m (counted loads m - 1)
      else counted loads := by
  funext k
  cases delay with
  | true =>
    rw [if_pos rfl]
    by_cases hk : k = m
    · rw [hk, Function.update_self]
      exact List.count_erase_self
    · rw [Function.update_of_ne hk]
      exact List.count_erase_of_ne (by simp [hk])
  | false => exact List.count_erase_of_ne (by simp)

/-- The calls of `DriverEntry` in a call: those for drivers that are started. -/
def Entered (w : World M N) (calls : List (Call M N)) (c : Call M N) (s s' : State M N) : Prop :=
  ∃ new : List (N × (ℕ → Option UInt8)), s'.entries = s.entries ++ new ∧
    new.map Prod.fst = startedBy calls c ∧ ∀ e ∈ new, e.2 = w.initial e.1

/-- A call that starts no driver. -/
theorem entered_nil {c : Call M N} (hentries : s'.entries = s.entries)
    (hstart : startedBy calls c = []) : Entered w calls c s s' :=
  ⟨[], by rw [hentries, List.append_nil], hstart.symm, fun e he => absurd he List.not_mem_nil⟩

/-- What a call does to the state. -/
structure CallOk (w : World M N) (calls : List (Call M N)) (c : Call M N) (s s' : State M N) :
    Prop where
  frame : Frame c.driver s s'
  loadcount : ∀ k, k ≠ c.driver → s'.loadcount (w.driverName k) = s.loadcount (w.driverName k)
  name : NameOk w s' c.driver (openLoads c.driver (calls ++ [c]))
  entries : Entered w calls c s s'

/-- Why a call may fail where nothing goes wrong outside. -/
def Excused (w : World M N) (calls : List (Call M N)) (c : Call M N) (e : Failure) : Prop :=
  (e = .stop .fail ∧ w.heap.malloc (saveLength (w.sections c.driver)) = none) ∨
    (e = .linked ∧ w.isLinked c.driver = true) ∨
    e = .reference ∧ ∃ m n, c = .load m n true ∧ ∃ ms : List M, ms.Nodup ∧
      ms.length = maxmodules ∧ ∀ u ∈ ms, u ≠ m ∧ (u, true) ∈ openLoads n calls

/-- The end of a load. -/
theorem load_tail (s₁ : State M N) (delay : Bool) (hframe : Frame n s s₁)
    (hloaded : Loaded w s₁ n (counted (openLoads n calls)) im d)
    (hcount : s₁.loadcount =
      Function.update s.loadcount (w.driverName n) (some ((openLoads n calls).length + 1)))
    (hentries : Entered w calls (.load m n delay) s s₁) :
    (∃ s', (if delay = true then ddkDelayLoad w m n s₁ else .ok s₁) = .ok s' ∧
        CallOk w calls (.load m n delay) s s') ∨
      ∃ e, (if delay = true then ddkDelayLoad w m n s₁ else .ok s₁) = .error e ∧
        Excused w calls (.load m n delay) e := by
  have hopen : openLoads n (calls ++ [.load m n delay]) = (m, delay) :: openLoads n calls := by
    rw [openLoads_snoc]
    exact if_pos rfl
  have hcall : ∀ {s' im' d'}, Frame n s s' → s'.loadcount = s₁.loadcount →
      s'.entries = s₁.entries →
      Loaded w s' n (counted ((m, delay) :: openLoads n calls)) im' d' →
      CallOk w calls (.load m n delay) s s' := by
    intro s' im' d' hframe' hcount' hentries' hloaded'
    refine ⟨hframe', ?_, ?_, ?_⟩
    · intro k hk
      rw [hcount', hcount]
      exact Function.update_of_ne (w.driverName_injective.ne hk) _ _
    · show NameOk w s' n (openLoads n _)
      rw [hopen]
      refine ⟨?_, Or.inr ⟨im', d', hloaded', fun h => absurd h (List.cons_ne_nil _ _)⟩⟩
      rw [hcount', hcount, Function.update_self, if_neg (List.cons_ne_nil _ _), List.length_cons]
    · rw [Entered, hentries']
      exact hentries
  cases delay with
  | false =>
    left
    refine ⟨s₁, rfl, hcall hframe rfl rfl (?_ : Loaded w s₁ n _ im d)⟩
    rw [counted_cons, if_neg Bool.false_ne_true]
    exact hloaded
  | true =>
    rcases ddkDelayLoad_spec (m := m) hloaded with ⟨herror, hzero, ms, hnodup, hlen, hpos⟩ |
      ⟨s', im', refs, hok, hloaded', hframe', hcount', hentries'⟩
    · right
      refine ⟨.reference, herror, Or.inr (Or.inr ⟨rfl, m, n, rfl, ms, hnodup, hlen,
        fun u hu => ⟨?_, List.count_pos_iff.1 (hpos u hu)⟩⟩)⟩
      rintro rfl
      have hu' := hpos u hu
      omega
    · left
      refine ⟨s', hok, hcall (hframe.trans hframe') hcount' hentries'
        (?_ : Loaded w s' n _ im' ⟨refs, d.memory⟩)⟩
      rw [counted_cons, if_pos rfl]
      exact hloaded'

/-- A load. -/
theorem load_spec (delay : Bool) (hinv : Inv w calls s) :
    (∃ s', ddkLoadDriver w fine m n delay s = .ok s' ∧ CallOk w calls (.load m n delay) s s') ∨
      ∃ e, ddkLoadDriver w fine m n delay s = .error e ∧
        Excused w calls (.load m n delay) e := by
  have hname := hinv.names n
  have hloadcount := hname.loadcount
  by_cases hnil : openLoads n calls = []
  · -- the driver is not loaded, its DLL may be there
    rw [if_pos hnil] at hloadcount
    by_cases hlinked : w.isLinked n = true
    · right
      refine ⟨.linked, ?_, Or.inr (Or.inl ⟨rfl, hlinked⟩)⟩
      rw [ddkLoadDriver, (w.sought n).1, hloadcount]
      simp only [if_pos hlinked]
      rfl
    have hcreate : ∀ {s₀ im d}, Frame n s s₀ → s₀.loadcount = s.loadcount →
        s₀.entries = s.entries → Loaded w s₀ n (fun _ => 0) im d → d.memory = w.initial n →
        ddkLoadImage w fine n s = .ok s₀ →
        (∃ s', ddkLoadDriver w fine m n delay s = .ok s' ∧
            CallOk w calls (.load m n delay) s s') ∨
          ∃ e, ddkLoadDriver w fine m n delay s = .error e ∧
            Excused w calls (.load m n delay) e := by
      intro s₀ im d hframe hcount hentries hloaded hmemory himage
      have hfree : s₀.loadcount (Ob.wide (w.name n)) = none := by
        rw [hcount]
        exact hloadcount
      have hrun : ddkLoadDriver w fine m n delay s =
          if delay = true then
            ddkDelayLoad w m n { s₀ with
              loadcount := Function.update s₀.loadcount (w.driverName n) (some 1)
              entries := s₀.entries ++ [(n, d.memory)] }
          else .ok { s₀ with
            loadcount := Function.update s₀.loadcount (w.driverName n) (some 1)
            entries := s₀.entries ++ [(n, d.memory)] } := by
        rw [ddkLoadDriver, (w.sought n).1, hloadcount]
        simp only [himage, if_neg hlinked]
        show (ddkCreateDriver w fine n s₀ >>= _) = _
        rw [ddkCreateDriver, hloaded.dll]
        simp only [hfree]
        rfl
      rw [hrun]
      refine load_tail _ delay ⟨hframe.dll, hframe.image, hframe.bound, hframe.nodup⟩
        ⟨hloaded.image, hloaded.dll, hloaded.refs, ?_, hloaded.accessible, hloaded.others,
          hloaded.restores⟩ ?_ ?_
      · rw [hnil]
        exact hloaded.counts
      · show Function.update s₀.loadcount (w.driverName n) (some 1) = _
        rw [hcount, hnil]
        rfl
      · refine ⟨[(n, d.memory)], by rw [hentries], (if_pos hnil).symm, fun e he => ?_⟩
        rw [List.mem_singleton.1 he]
        exact hmemory
    rcases hname.image with ⟨habsent, -⟩ | ⟨im, d, hloaded, hfresh⟩
    · rcases ddkLoadImage_absent (w := w) habsent with ⟨hnone, herror⟩ |
        ⟨s₀, im, hok, hloaded, hframe, hcount, hentries⟩
      · right
        refine ⟨.stop .fail, ?_, Or.inl ⟨rfl, hnone⟩⟩
        rw [ddkLoadDriver, (w.sought n).1, hloadcount]
        simp only [herror, if_neg hlinked]
        rfl
      · exact hcreate hframe hcount hentries hloaded rfl hok
    · have hok : ddkLoadImage w fine n s = .ok s := by
        rw [ddkLoadImage, hloaded.image]
      have hzero : counted (openLoads n calls) = fun _ => 0 := by
        rw [hnil]
        rfl
      rw [hzero] at hloaded
      exact hcreate Frame.refl rfl rfl hloaded (hfresh hnil) hok
  · -- one more load
    rw [if_neg hnil] at hloadcount
    rcases hname.image with ⟨-, habsurd⟩ | ⟨im, d, hloaded, -⟩
    · exact absurd habsurd hnil
    have hrun : ddkLoadDriver w fine m n delay s =
        if delay = true then
          ddkDelayLoad w m n { s with
            loadcount := Function.update s.loadcount (w.driverName n)
              (some ((openLoads n calls).length + 1)) }
        else .ok { s with
          loadcount := Function.update s.loadcount (w.driverName n)
            (some ((openLoads n calls).length + 1)) } := by
      rw [ddkLoadDriver, (w.sought n).1, hloadcount]
      rfl
    rw [hrun]
    exact load_tail { s with
        loadcount := Function.update s.loadcount (w.driverName n)
          (some ((openLoads n calls).length + 1)) } delay
      ⟨fun _ _ => rfl, fun _ _ => rfl, fun _ _ => rfl, id⟩
      ⟨hloaded.image, hloaded.dll, hloaded.refs, hloaded.counts, hloaded.accessible,
        hloaded.others, hloaded.restores⟩ rfl (entered_nil rfl (if_neg hnil))

/-- An unload of a module that has loaded the driver. -/
theorem unload_spec (delay : Bool) (hinv : Inv w calls s) (hmem : (m, delay) ∈ openLoads n calls) :
    ∃ s', ddkUnloadDriver w fine m n delay s = .ok s' ∧
      CallOk w calls (.unload m n delay) s s' := by
  have hname := hinv.names n
  have hne : openLoads n calls ≠ [] := List.ne_nil_of_mem hmem
  have hloadcount := hname.loadcount
  rw [if_neg hne] at hloadcount
  have hopen : openLoads n (calls ++ [.unload m n delay]) =
      (openLoads n calls).erase (m, delay) := by
    rw [openLoads_snoc]
    exact if_pos rfl
  have hlen := List.length_erase_of_mem hmem
  have hpos := List.length_pos_of_mem hmem
  rcases hname.image with ⟨-, habsurd⟩ | ⟨im, d, hloaded, -⟩
  · exact absurd habsurd hne
  -- the module is counted once less
  have hdelay : ∃ s₁ im' refs,
      (if delay = true then ddkDelayUnload w fine m n s else .ok s) = .ok s₁ ∧
      Loaded w s₁ n (counted ((openLoads n calls).erase (m, delay))) im' ⟨refs, d.memory⟩ ∧
      Frame n s s₁ ∧ s₁.loadcount = s.loadcount ∧ s₁.entries = s.entries := by
    rw [counted_erase]
    cases delay with
    | true => exact ddkDelayUnload_spec hloaded
    | false => exact ⟨s, im, d.refs, rfl, hloaded, Frame.refl, rfl, rfl⟩
  rcases hdelay with ⟨s₁, im', refs, hrun, hloaded', hframe, hcount, hentries⟩
  have hunload : ddkUnloadDriver w fine m n delay s =
      if (openLoads n calls).length ≤ 1 then
        ddkUnloadImage w fine n
          { s₁ with loadcount := Function.update s₁.loadcount (w.driverName n) none }
      else .ok { s₁ with
        loadcount := Function.update s₁.loadcount (w.driverName n)
          (some ((openLoads n calls).length - 1)) } := by
    rw [ddkUnloadDriver, (w.sought n).2, hloadcount]
    simp only [hrun]
    rfl
  rw [hunload]
  by_cases hlast : (openLoads n calls).length ≤ 1
  · -- the last one
    rw [if_pos hlast]
    have hnil : (openLoads n calls).erase (m, delay) = [] :=
      List.eq_nil_of_length_eq_zero (by omega)
    rw [hnil] at hopen hloaded'
    have hloaded₂ : Loaded w
        { s₁ with loadcount := Function.update s₁.loadcount (w.driverName n) none } n
        (counted []) im' ⟨refs, d.memory⟩ :=
      ⟨hloaded'.image, hloaded'.dll, hloaded'.refs, hloaded'.counts, hloaded'.accessible,
        hloaded'.others, hloaded'.restores⟩
    rcases ddkUnloadImage_spec hloaded₂ (fun _ => rfl) (hframe.nodup hinv.nodup) with
      ⟨s', hok, hframe', hcount', hentries', himage⟩
    refine ⟨s', hok, ?_, ?_, ?_, ?_⟩
    · have hframe₂ : Frame n s₁ s' :=
        ⟨hframe'.dll, hframe'.image, hframe'.bound, hframe'.nodup⟩
      exact hframe.trans hframe₂
    · intro k hk
      rw [hcount']
      show Function.update s₁.loadcount (w.driverName n) none (w.driverName k) =
        s.loadcount (w.driverName k)
      rw [hcount]
      exact Function.update_of_ne (w.driverName_injective.ne hk) _ _
    · show NameOk w s' n (openLoads n _)
      rw [hopen]
      refine ⟨?_, ?_⟩
      · rw [hcount', if_pos rfl]
        exact Function.update_self ..
      · rcases himage with habsent | ⟨refs', hfresh⟩
        · exact Or.inl ⟨habsent, rfl⟩
        · exact Or.inr ⟨im', _, hfresh, fun _ => rfl⟩
    · exact entered_nil (hentries'.trans hentries) rfl
  · rw [if_neg hlast]
    have hcons : (openLoads n calls).erase (m, delay) ≠ [] := by
      intro hnil
      rw [hnil, List.length_nil] at hlen
      omega
    refine ⟨_, rfl, ⟨hframe.dll, hframe.image, hframe.bound, hframe.nodup⟩, ?_, ?_, ?_⟩
    · intro k hk
      show Function.update s₁.loadcount (w.driverName n) _ (w.driverName k) =
        s.loadcount (w.driverName k)
      rw [hcount]
      exact Function.update_of_ne (w.driverName_injective.ne hk) _ _
    · show NameOk w _ n (openLoads n _)
      rw [hopen]
      refine ⟨?_, Or.inr ⟨im', ⟨refs, d.memory⟩, ?_, fun h => absurd h hcons⟩⟩
      · show Function.update s₁.loadcount (w.driverName n) _ (w.driverName n) = _
        rw [Function.update_self, if_neg hcons, hlen]
      · exact ⟨hloaded'.image, hloaded'.dll, hloaded'.refs, hloaded'.counts,
          hloaded'.accessible, hloaded'.others, hloaded'.restores⟩
    · exact entered_nil hentries rfl

/-! ## What goes wrong outside -/

/-- Two results agree but for a failure outside. -/
def Agrees {α : Type} (t : Outside → Bool) (x y : Except Failure α) : Prop :=
  x = y ∨ ∃ o, t o = true ∧ x = .error (.outside o)

section Agrees

variable {α β : Type} {t : Outside → Bool}

theorem Agrees.refl (x : Except Failure α) : Agrees t x x := Or.inl rfl

theorem Agrees.bind {x y : Except Failure α} {f g : α → Except Failure β} (h : Agrees t x y)
    (hfg : ∀ a, Agrees t (f a) (g a)) : Agrees t (x >>= f) (y >>= g) := by
  rcases h with rfl | ⟨o, ho, rfl⟩
  · cases x with
    | error e => exact Agrees.refl _
    | ok a => exact hfg a
  · exact Or.inr ⟨o, ho, rfl⟩

/-- Where nothing goes wrong the routine goes on. -/
theorem Agrees.check {o : Outside} {x y : Except Failure β} (h : Agrees t x y) :
    Agrees t (Images.check t o >>= fun _ => x) (Images.check fine o >>= fun _ => y) := by
  refine Agrees.bind ?_ fun _ => h
  unfold Images.check
  by_cases ho : t o = true
  · rw [if_pos ho]
    exact Or.inr ⟨o, ho, rfl⟩
  · rw [if_neg ho]
    exact Or.inl rfl

end Agrees

omit [DecidableEq M] in
theorem agrees_loadImage (t : Outside → Bool) (n : N) (s : State M N) :
    Agrees t (ddkLoadImage w t n s) (ddkLoadImage w fine n s) := by
  unfold ddkLoadImage
  cases lookup Image.name s.ddkImageList n with
  | some im => exact Agrees.refl _
  | none =>
    refine Agrees.check ?_
    cases s.dll n with
    | some d => exact Agrees.refl _
    | none => exact ((Agrees.refl _).check.check).check

omit [DecidableEq M] [DecidableEq N] in
theorem agrees_createDriver (t : Outside → Bool) (n : N) (s : State M N) :
    Agrees t (ddkCreateDriver w t n s) (ddkCreateDriver w fine n s) := by
  unfold ddkCreateDriver
  cases s.dll n with
  | none => exact Agrees.refl _
  | some d =>
    cases s.loadcount (Ob.wide (w.name n)) with
    | some k => exact Agrees.refl _
    | none => exact (Agrees.refl _).check

theorem agrees_delayUnload (t : Outside → Bool) (m : M) (n : N) (s : State M N) :
    Agrees t (ddkDelayUnload w t m n s) (ddkDelayUnload w fine m n s) := by
  unfold ddkDelayUnload
  cases lookup Image.name s.ddkImageList n with
  | none => exact Agrees.refl _
  | some im =>
    simp only []
    cases first (fun i => (im.delayLoad i).module) m maxmodules with
    | none => exact (Agrees.refl _).check
    | some i =>
      simp only []
      split
      · exact Agrees.refl _
      · exact (Agrees.refl _).check

omit [DecidableEq M] in
theorem agrees_unloadImage (t : Outside → Bool) (n : N) (s : State M N) :
    Agrees t (ddkUnloadImage w t n s) (ddkUnloadImage w fine n s) := by
  unfold ddkUnloadImage
  cases lookup Image.name s.ddkImageList n with
  | none => exact Agrees.refl _
  | some im =>
    simp only []
    split
    · exact Agrees.refl _
    · exact (Agrees.refl _).check

/-- A call does what it does where nothing goes wrong outside, or tells what does. -/
theorem agrees_run (t : Outside → Bool) (c : Call M N) (s : State M N) :
    Agrees t (c.run w t s) (c.run w fine s) := by
  cases c with
  | load m n delay =>
    unfold Call.run ddkLoadDriver
    refine Agrees.bind ?_ fun _ => Agrees.refl _
    cases s.loadcount ((w.name n).map Ob.charToWchar) with
    | some k => exact Agrees.refl _
    | none =>
      simp only []
      split
      · exact Agrees.refl _
      · exact (agrees_loadImage t n s).bind (agrees_createDriver t n)
  | unload m n delay =>
    unfold Call.run ddkUnloadDriver
    simp only []
    cases s.loadcount (Ob.formatName (w.name n)) with
    | none => exact Agrees.refl _
    | some k =>
      refine Agrees.bind ?_ fun s₁ => ?_
      · cases delay with
        | true => exact agrees_delayUnload t m n s
        | false => exact Agrees.refl _
      · split
        · exact (agrees_unloadImage t n _).check
        · exact Agrees.refl _

/-! ## All runs -/

/-- A call keeps the invariant. -/
theorem CallOk.inv {c : Call M N} (h : CallOk w calls c s s') (hinv : Inv w calls s) :
    Inv w (calls ++ [c]) s' := by
  rcases h.entries with ⟨new, hentries, hstart, hfresh⟩
  refine ⟨h.frame.nodup hinv.nodup, ?_, ?_, ?_⟩
  · intro k
    by_cases hk : k = c.driver
    · rw [hk]
      exact h.name
    · rw [openLoads_other hk]
      exact h.frame.nameOk hk (h.loadcount k hk) (hinv.names k)
  · intro e he
    rw [hentries] at he
    rcases List.mem_append.1 he with he | he
    · exact hinv.entries e he
    · exact hfresh e he
  · rw [hentries, List.map_append, hinv.started, hstart, started_snoc]

/-- So does what happens to one driver between the calls. -/
theorem Inv.between (hinv : Inv w calls s) (hframe : Frame n s s')
    (hcount : s'.loadcount = s.loadcount) (hentries : s'.entries = s.entries)
    (hname : NameOk w s n (openLoads n calls) → NameOk w s' n (openLoads n calls)) :
    Inv w calls s' := by
  refine ⟨hframe.nodup hinv.nodup, ?_, ?_, ?_⟩
  · intro k
    by_cases hk : k = n
    · rw [hk]
      exact hname (hinv.names n)
    · exact hframe.nameOk hk (by rw [hcount]) (hinv.names k)
  · rw [hentries]
    exact hinv.entries
  · rw [hentries]
    exact hinv.started

/-- The invariant, after every run. -/
theorem run_inv (h : Run w calls s) : Inv w calls s := by
  induction h with
  | start =>
    refine ⟨List.nodup_nil, fun n => ⟨rfl, Or.inl ⟨⟨rfl, rfl, rfl⟩, rfl⟩⟩, ?_, rfl⟩
    exact fun e he => absurd he List.not_mem_nil
  | @call calls s s' c t _ hpaired hok ih =>
    have hfine : c.run w fine s = .ok s' := by
      rcases agrees_run (w := w) t c s with heq | ⟨o, -, herror⟩
      · rw [← heq]
        exact hok
      · rw [herror] at hok
        cases hok
    cases c with
    | load m n delay =>
      rcases load_spec delay ih with ⟨s₁, hok₁, hcall⟩ | ⟨e, herror, -⟩
      · rw [Call.run, hok₁] at hfine
        cases hfine
        exact hcall.inv ih
      · rw [Call.run, herror] at hfine
        cases hfine
    | unload m n delay =>
      rcases unload_spec delay ih hpaired with ⟨s₁, hok₁, hcall⟩
      rw [Call.run, hok₁] at hfine
      cases hfine
      exact hcall.inv ih
  | @work calls s n d memory _ hrunning hdll haccessible hothers ih =>
    refine ih.between (n := n) ⟨fun _ hk => Function.update_of_ne hk _ _, fun _ _ => rfl,
      fun _ _ => rfl, id⟩ rfl rfl fun hname => ⟨hname.loadcount, ?_⟩
    have hne : openLoads n calls ≠ [] := by
      intro hnil
      rw [hname.loadcount, if_pos hnil] at hrunning
      exact hrunning rfl
    rcases hname.image with ⟨-, habsurd⟩ | ⟨im, d', hloaded, -⟩
    · exact absurd habsurd hne
    · rw [hloaded.dll] at hdll
      cases hdll
      refine Or.inr ⟨im, _, ⟨hloaded.image, Function.update_self .., hloaded.refs, hloaded.counts,
        haccessible, ?_, hloaded.restores⟩, fun h => absurd h hne⟩
      intro x hx
      show memory x = w.initial n x
      rw [hothers x hx, hloaded.others x hx]
  | @bind calls s m n _ _ hdll ih =>
    rcases (ih.names n).image with ⟨habsent, -⟩ | ⟨im, d, hloaded, hfresh⟩
    · exact absurd habsent.dll hdll
    · rcases pLoad_spec (m := m) hloaded with ⟨refs, hloaded', hframe, hcount, hentries⟩
      refine ih.between hframe hcount hentries fun hname => ⟨?_, Or.inr ⟨im, _, hloaded', hfresh⟩⟩
      rw [hcount]
      exact hname.loadcount
  | @unbind calls s m n _ ih =>
    rcases (ih.names n).image with ⟨habsent, -⟩ | ⟨im, d, hloaded, hfresh⟩
    · -- nothing is bound to it
      have hsame : pUnload m n s = s := by
        rw [pUnload, habsent.bound, if_neg List.not_mem_nil]
      rw [hsame]
      exact ih
    · rcases pUnload_spec (m := m) hloaded with ⟨refs, hloaded', hframe, hcount, hentries⟩
      refine ih.between hframe hcount hentries fun hname => ⟨?_, Or.inr ⟨im, _, hloaded', hfresh⟩⟩
      rw [hcount]
      exact hname.loadcount

/-- What holds after every run. -/
structure Sound (w : World M N) (calls : List (Call M N)) (s : State M N) : Prop where
  /-- A driver is loaded as long as a load of it has not been undone. -/
  loaded : ∀ n, s.loadcount (w.driverName n) =
    if openLoads n calls = [] then none else some (openLoads n calls).length
  /-- `DriverEntry` finds the memory of a new image. -/
  fresh : ∀ e ∈ s.entries, e.2 = w.initial e.1
  /-- It is called by the loads of a driver that is not loaded. -/
  started : s.entries.map Prod.fst = started calls
  nodup : (s.ddkImageList.map Image.name).Nodup
  /-- The DLLs are those of the images. Each image has a reference, and each bound module. -/
  dll : ∀ n d, s.dll n = some d →
    n ∈ s.ddkImageList.map Image.name ∧ d.refs = 1 + (s.bound n).length
  image : ∀ im ∈ s.ddkImageList, ∃ d, s.dll im.name = some d
  /-- A module has a slot as long as a load with its helper has not been undone. -/
  table : ∀ im ∈ s.ddkImageList, ∀ m k, (∃ i < maxmodules, (im.delayLoad i).module = some m ∧
    (im.delayLoad i).refcnt = k) ↔ 0 < k ∧ counted (openLoads im.name calls) m = k
  /-- The next call succeeds, unless something goes wrong outside, or there is no room, or a
  driver of this name is linked to a module. -/
  next : ∀ t c, Paired calls c → (∃ s', c.run w t s = .ok s') ∨
    (∃ o, t o = true ∧ c.run w t s = .error (.outside o)) ∨
    ∃ e, c.run w t s = .error e ∧ Excused w calls c e

/-- One writable data section of one byte. -/
def oneSection (_ : Unit) : List SectionHeader := [⟨1, 0, 0xC0000040⟩]

theorem selected_oneSection {n : Unit} {x : ℕ} : Selected (oneSection n) x ↔ x = 0 := by
  constructor
  · rintro ⟨p, hp, -, hx⟩
    rw [List.mem_singleton.1 hp] at hx
    exact Nat.lt_one_iff.1 hx.2
  · rintro rfl
    exact ⟨_, List.mem_singleton.2 rfl, by decide, by decide, by decide⟩

def oneByte (v : UInt8) (x : ℕ) : Option UInt8 := if x = 0 then some v else none

theorem accessible_oneByte (v : UInt8) (n : Unit) : Accessible (oneSection n) (oneByte v) := by
  intro x hx
  rw [oneByte, if_pos (selected_oneSection.1 hx)]
  exact Option.some_ne_none v

theorem wellFormed_oneSection (n : Unit) : WellFormed (oneSection n) 1 := by
  refine ⟨List.pairwise_singleton _ _, ?_⟩
  intro p hp x hx
  rw [List.mem_singleton.1 hp] at hx
  exact hx.2

theorem size_oneSection (_ : Unit) : 1 < 2 ^ 32 := by decide

theorem length_block {len : UInt32} {block : List UInt8}
    (h : some (List.replicate len.toNat 0xCD) = some block) : block.length = len.toNat := by
  rw [← Option.some.inj h]
  exact List.length_replicate

theorem ascii_a : ∀ c ∈ ([0x61] : List UInt8), c < 0x80 := List.forall_mem_singleton.2 (by decide)

theorem short_a : ([0x61] : List UInt8).length ≤ 255 := by decide

/-- A file `a.sys` with this section, and a module that imports from it. -/
def oneWorld : World Unit Unit where
  name := fun _ => [0x61]
  distinct := fun _ _ _ => rfl
  short := fun _ => short_a
  ascii := fun _ => ascii_a
  isLinked := fun _ => false
  heap := ⟨fun len => some (List.replicate len.toNat 0xCD), length_block⟩
  sections := oneSection
  size := fun _ => 1
  initial := fun _ => oneByte 7
  imports := fun _ _ => true
  wellFormed := wellFormed_oneSection
  size_lt := size_oneSection
  accessible := accessible_oneByte 7

/-- One driver is registered. -/
def oneCount (k : Option ℕ) (loadcount : List Wchar → Option ℕ) : List Wchar → Option ℕ :=
  Function.update loadcount (Ob.wide [0x61]) k

end Model

end Wdutf.Images
