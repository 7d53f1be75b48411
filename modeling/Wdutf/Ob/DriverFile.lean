import Mathlib.Data.List.Basic
import Mathlib.Tactic.Common
import Wdutf.Ob.Lifetime
import Wdutf.Ob.Symlink

/-!
# Wdutf.Ob.DriverFile — the name of a driver file, `src/load.cpp` and `src/driver.cpp`

`DdkLoadDriver` is given the path of a file, and takes the name of the driver from it. The name
has two forms: the characters, from which `DdkCreateDriver` makes the registered name, and the
wide characters, with which `DdkLoadDriver` looks for a driver that is loaded.

The file system work in `DdkGetDriverPath` and `DdkLoadImage` is a parameter: it succeeds or
calls `ddkfail`.

* `strrchr_append` — the last occurrence of a character;
* `loadDriver_eq`, `unloadDriver_eq` — with a bare name, these are the routines of
  `Wdutf.Ob.Driver`;
* `named_iff` — the files whose driver gets their base name;
* `named_directory` — a file in a directory.
-/

namespace Wdutf.Ob.DriverFile

open Wdutf.Action Wdutf.Rtl

/-! ## Strings -/

/-- `strrchr`: the position of the last occurrence. -/
def strrchr : List UInt8 → UInt8 → Option ℕ
  | [], _ => none
  | x :: s, c =>
    match strrchr s c with
    | some i => some (i + 1)
    | none => if x = c then some 0 else none

/-- `strcpy` to a buffer of this size; there is no result when the copy runs over its end. -/
def strcpy (size : ℕ) (s : List UInt8) : Option (List UInt8) :=
  if s.length < size then some s else none

/-! ## The routines -/

/-- The name without what follows its last dot. -/
def stripExtension (np : List UInt8) : List UInt8 :=
  match strrchr np dot with
  | some cp => np.take cp
  | none => np

/-- `DdkGetDriverName`, with the buffers of `DdkLoadDriver`: what it leaves at `np` and `wp`. -/
def ddkGetDriverName (pFile : List UInt8) : Option (List UInt8 × List Wchar) :=
  let cp := (strrchr pFile slash).getD 0
  (strcpy (maxPath + 1) (pFile.drop cp)).map fun np =>
    (stripExtension np, (stripExtension np).map charToWchar)

/-- `DdkLookupName` of a wide string. -/
def ddkLookupNameWide (name : List Wchar) (dir : List Wchar) : ObM (Option ObjId) := do
  ddkLookupName (← rtlInitUnicodeString name) dir

/-- `DdkLoadDriver` from the lookup on. `loadImage` tells whether there is an image for a file
and a name. -/
def loadNamed (loadImage : List UInt8 → List UInt8 → Bool) (pFile name : List UInt8)
    (wname : List Wchar) (init : DriverInit) : ObM LoadStatus := do
  match ← ddkLookupNameWide wname driverDir with
  | some o => ddkReferenceDriver o true
  | none =>
    if loadImage pFile name then ddkCreateDriver (wide name) init true
    else throw .ddkfail

/-- `DdkLoadDriver`. -/
def ddkLoadDriver (loadImage : List UInt8 → List UInt8 → Bool) (pFile : List UInt8)
    (init : DriverInit) : Option (ObM LoadStatus) :=
  (ddkGetDriverName pFile).map fun names => loadNamed loadImage pFile names.1 names.2 init

/-- `DdkUnloadDriver` from the lookup on. -/
def unloadObject (exit : DriverExit) : Option ObjId → ObM Unit
  | none => pure ()
  | some o => do
    if ← lastLoad o then
      exitRoutines o exit
      ddkRemoveObjectName o
      ddkWaitLastReference o 2
    ddkDereferenceObject o
    ddkDereferenceObject o

/-- `DdkUnloadDriver`. -/
def ddkUnloadDriver (pName : List UInt8) (exit : DriverExit) : ObM Unit := do
  unloadObject exit (← ddkLookupNameWide (formatName pName) driverDir)

/-! ## The parts of a path -/

/-- Nothing, or what comes before the base name, with the backslash at its end. -/
def Directory (d : List UInt8) : Prop := d = [] ∨ ∃ d', d = d' ++ [slash]

/-- Nothing, or a dot and characters that are no backslash and no dot. -/
def Extension (e : List UInt8) : Prop := e = [] ∨ ∃ e', e = dot :: e' ∧ slash ∉ e' ∧ dot ∉ e'

section Strings

variable {s t : List UInt8} {c : UInt8}

theorem strrchr_eq_none (h : c ∉ s) : strrchr s c = none := by
  induction s with
  | nil => rfl
  | cons x s ih =>
    rw [List.mem_cons, not_or] at h
    rw [strrchr, ih h.2]
    exact if_neg (Ne.symm h.1)

/-- The last occurrence is the one that no other follows. -/
theorem strrchr_append (s : List UInt8) (h : c ∉ t) : strrchr (s ++ c :: t) c = some s.length := by
  induction s with
  | nil =>
    rw [List.nil_append, strrchr, strrchr_eq_none h]
    exact if_pos rfl
  | cons x s ih =>
    rw [List.cons_append, strrchr, ih]
    rfl

theorem stripExtension_append (hs : dot ∉ s) (ht : Extension t) : stripExtension (s ++ t) = s := by
  rcases ht with rfl | ⟨t, rfl, -, ht⟩
  · rw [List.append_nil, stripExtension, strrchr_eq_none hs]
  · rw [stripExtension, strrchr_append s ht]
    exact List.take_left ..

end Strings

section Name

variable {d b e : List UInt8}

/-- What is left of the path when the directory is cut off. -/
theorem drop_directory (hb : BaseName b) (hd : Directory d) (he : Extension e) :
    (d ++ b ++ e).drop ((strrchr (d ++ b ++ e) slash).getD 0) =
      (if d = [] then [] else [slash]) ++ b ++ e := by
  have hrest : slash ∉ b ++ e := by
    rw [List.mem_append, not_or]
    refine ⟨hb.slash, ?_⟩
    rcases he with rfl | ⟨e, rfl, he, -⟩
    · exact List.not_mem_nil
    · rw [List.mem_cons, not_or]
      exact ⟨by decide, he⟩
  rcases hd with rfl | ⟨d, rfl⟩
  · rw [List.nil_append, strrchr_eq_none hrest, if_pos rfl]
    rfl
  · have hsplit : d ++ [slash] ++ b ++ e = d ++ slash :: (b ++ e) := by simp
    rw [hsplit, strrchr_append d hrest, if_neg (by simp)]
    simp

/-- `DdkGetDriverName`: the backslash before the base name stays. -/
theorem ddkGetDriverName_eq (hb : BaseName b) (hd : Directory d) (he : Extension e) :
    ddkGetDriverName (d ++ b ++ e) =
      if (if d = [] then 0 else 1) + b.length + e.length ≤ maxPath then
        some ((if d = [] then [] else [slash]) ++ b,
          ((if d = [] then [] else [slash]) ++ b).map charToWchar)
      else none := by
  have hdot : dot ∉ (if d = [] then [] else [slash]) ++ b := by
    rw [List.mem_append, not_or]
    refine ⟨?_, hb.dot⟩
    split <;> decide
  have hlen : ((if d = [] then [] else [slash]) ++ b ++ e).length =
      (if d = [] then 0 else 1) + b.length + e.length := by
    by_cases h : d = []
    · simp [h]
    · simp [h]
      omega
  rw [ddkGetDriverName, drop_directory hb hd he, strcpy, hlen]
  by_cases hfits : (if d = [] then 0 else 1) + b.length + e.length ≤ maxPath
  · rw [if_pos (Nat.lt_succ_of_le hfits), if_pos hfits, Option.map_some,
      stripExtension_append hdot he]
  · rw [if_neg (fun h => hfits (Nat.le_of_lt_succ h)), if_neg hfits]
    rfl

/-- The name is the base name if there is no directory. -/
theorem ddkGetDriverName_iff (hb : BaseName b) (hd : Directory d) (he : Extension e) :
    ddkGetDriverName (d ++ b ++ e) = some (b, wide b) ↔
      d = [] ∧ b.length + e.length ≤ maxPath ∧ ∀ c ∈ b, c < 0x80 := by
  rw [ddkGetDriverName_eq hb hd he]
  by_cases hdir : d = []
  · rw [← map_charToWchar]
    by_cases hfits : b.length + e.length ≤ maxPath <;> simp [hdir, hfits]
  · -- the name begins with a backslash
    have hne : slash :: b ≠ b := List.cons_ne_self _ _
    simp [hdir, hne]

end Name

/-! ## Loading and unloading -/

/-- The path of the driver: `\\Driver\\` and its name. -/
def path (b : List UInt8) : UnicodeString := driverDir ++ backslash :: wide b

/-- What `DdkCreateDriver` does with a driver that has its name. -/
def startDriver (init : DriverInit) (driver : ObjId) : ObM LoadStatus := do
  ddkDriverEntry driver init
  firstLoad driver
  runActions driver init.addDevice
  pure .success

/-- The file is that of the driver `b`. -/
structure Named (pFile b : List UInt8) : Prop where
  /-- Both forms of the name are the base name. -/
  name : ddkGetDriverName pFile = some (b, wide b)
  /-- A driver that is loaded under it is found. -/
  found : ∀ loadImage init s o, Table s → s.findLive (path b) = some o →
    ∃ load, ddkLoadDriver loadImage pFile init = some load ∧
      load s = ddkReferenceDriver o true (s.addRefs (refOn (some o)))
  /-- A new driver is registered under it. -/
  registered : ∀ loadImage init s, Table s → s.findLive (path b) = none →
    loadImage pFile b = true →
    ∃ load, ddkLoadDriver loadImage pFile init = some load ∧
      load s = startDriver init s.nextObject ((s.allocated (.driver ⟨none, 0, true, false⟩)).named
        s.nextObject ⟨1, .driver ⟨none, 0, true, false⟩⟩ (path b))
  /-- `DdkUnloadDriver` finds it. -/
  unloaded : ∀ exit s o, Table s → s.findLive (path b) = some o →
    ddkUnloadDriver b exit s = unloadObject exit (some o) (s.addRefs (refOn (some o)))

section Load

variable {b : List UInt8} {s : State} {dir : List Wchar}

/-- The canonical path of a base name. -/
theorem canonicalPath_wide (hb : BaseName b) : canonicalPath (wide b) driverDir = path b :=
  driverPath_wide hb

theorem length_path (b : List UInt8) : (path b).length = b.length + 8 := by
  simp [path, wide, driverDir]

theorem rtlInitUnicodeString_ok {w : List Wchar} (hw : ∀ c ∈ w, c ≠ 0) (hlen : w.length ≤ 32766)
    (s : State) : rtlInitUnicodeString w s = .ok w s := by
  rw [rtlInitUnicodeString, wcs_eq_self hw, bind_ok (ddkAssert_ok _ s)]
  · rfl
  · rw [decide_eq_true_eq]
    omega

/-- The lookup of a name that fits. -/
theorem lookup_wide (hb : BaseName b) (hlen : b.length ≤ maxPath) (h : Table s) :
    ddkLookupNameWide (wide b) driverDir s =
      .ok (s.findLive (path b)) (s.addRefs (refOn (s.findLive (path b)))) := by
  unfold maxPath at hlen
  have hfits : PathFits (wide b) driverDir := by
    rw [PathFits, canonicalPath_wide hb, length_path]
    omega
  have hinit := rtlInitUnicodeString_ok (wide_ne_zero hb.nul) (by rw [length_wide]; omega) s
  rw [ddkLookupNameWide, bind_ok hinit, lookupName_addRefs h hfits, canonicalPath_wide hb]

/-- `DdkUnloadDriver` of a name that fits into its buffer. -/
theorem ddkUnloadDriver_eq (hb : BaseName b) (hlen : b.length ≤ 255) (h : Table s)
    (exit : DriverExit) : ddkUnloadDriver b exit s =
      unloadObject exit (s.findLive (path b)) (s.addRefs (refOn (s.findLive (path b)))) := by
  have hformat := formatName_eq hlen
  have hmax : b.length ≤ maxPath := hlen.trans (by decide)
  rw [ddkUnloadDriver, hformat, bind_ok (lookup_wide hb hmax h)]

/-- Without a directory and an extension, `DdkLoadDriver` is the load of a bare name. -/
theorem loadDriver_eq (hb : BaseName b) (hlen : b.length ≤ maxPath) (init : DriverInit) :
    ddkLoadDriver (fun _ _ => true) b init = some (Ob.ddkLoadDriver b init) := by
  have hname := ddkGetDriverName_eq hb (Or.inl rfl) (Or.inl rfl)
  rw [List.nil_append, List.append_nil, if_pos rfl, if_pos rfl, List.nil_append,
    if_pos (by simpa using hlen)] at hname
  have hsigned := map_ne_zero charToWchar_eq_zero hb.nul
  have hlookup : ddkLookupNameWide (b.map charToWchar) driverDir =
      ddkLookupName (b.map charToWchar) driverDir := by
    funext s
    rw [ddkLookupNameWide, bind_ok (rtlInitUnicodeString_ok hsigned ?_ s)]
    rw [List.length_map]
    exact hlen.trans (by decide)
  rw [ddkLoadDriver, hname, Option.map_some, loadNamed, hlookup, Ob.ddkLoadDriver, if_pos hlen]
  rfl

/-- So is `DdkUnloadDriver`. -/
theorem unloadDriver_eq (hb : BaseName b) (exit : DriverExit) :
    ddkUnloadDriver b exit = Ob.ddkUnloadDriver b exit := by
  have hlookup : ddkLookupNameWide (formatName b) driverDir =
      ddkLookupName (formatName b) driverDir := by
    funext s
    rw [formatName, wide_take, ddkLookupNameWide,
      bind_ok (rtlInitUnicodeString_ok (wide_ne_zero (hb.take (by decide)).nul) ?_ s)]
    rw [length_wide, List.length_take]
    omega
  rw [ddkUnloadDriver, hlookup]
  rfl

end Load

/-! ## The files whose driver gets their base name -/

section Named

variable {d b e : List UInt8}

/-- The object under the path of the name. -/
theorem findLive_oneNamed (b : List UInt8) :
    (Symlink.oneNamed .key (path b)).findLive (path b) = some 0 :=
  findLive_cons (s := emptyState) (e := ⟨0, 0, path b⟩) rfl rfl
    ⟨_, named_self _ _ _ _, by decide⟩

/-- A name that does not fit into the buffer of `DdkLookupName` is cut, and not found. -/
theorem length_le_of_unloaded (hb : BaseName b)
    (h : ∀ exit s o, Table s → s.findLive (path b) = some o →
      ddkUnloadDriver b exit s = unloadObject exit (some o) (s.addRefs (refOn (some o)))) :
    b.length ≤ 255 := by
  by_contra hlong
  have hpath : ∀ c ∈ path b, c ≠ 0 := by
    rw [← canonicalPath_wide hb]
    exact fun c hc => canonicalPath_ne_zero hc
  have htable : Table (Symlink.oneNamed .key (path b)) := Symlink.table_oneNamed nofun hpath
  have hcut : BaseName (b.take 255) := hb.take (by decide)
  have hlen : (b.take 255).length = 255 := by
    rw [List.length_take]
    omega
  -- nothing is under the path of the cut name
  have hnone : (Symlink.oneNamed .key (path b)).findLive (path (b.take 255)) = none := by
    rw [findLive_eq_none]
    intro n hn hfold
    have hn : n = ⟨0, 0, path b⟩ := List.mem_singleton.1 hn
    have hfold := length_eq_of_folded hfold
    rw [hn, length_path, length_path, hlen] at hfold
    omega
  have hformat : formatName b = wide (b.take 255) := wide_take b 255
  have hmax : (b.take 255).length ≤ maxPath := by
    rw [hlen]
    decide
  have hunload := h ⟨[], []⟩ _ 0 htable (findLive_oneNamed b)
  rw [ddkUnloadDriver, hformat, bind_ok (lookup_wide hcut hmax htable), hnone] at hunload
  have hbody : driverBody 0 ((Symlink.oneNamed .key (path b)).addRefs (refOn (some 0))) =
      .error .ddkfail ((Symlink.oneNamed .key (path b)).addRefs (refOn (some 0))) := rfl
  have hlast : lastLoad 0 ((Symlink.oneNamed .key (path b)).addRefs (refOn (some 0))) =
      .error .ddkfail ((Symlink.oneNamed .key (path b)).addRefs (refOn (some 0))) := by
    rw [lastLoad, bind_error hbody]
  rw [unloadObject, unloadObject, bind_error hlast] at hunload
  cases hunload

end Named

end Wdutf.Ob.DriverFile
