import Mathlib.Data.List.Basic
import Mathlib.Logic.Function.Basic
import Mathlib.Logic.Relation
import Mathlib.Tactic.Common
import Wdutf.Lib.Forest
import Wdutf.Lib.Numerals
import Wdutf.Lib.Threads
import Wdutf.File.DeleteDirectory

/-!
# Wdutf.File.TempLock — one temporary directory for each process, `src/local.cpp`

Every process that uses the library has a directory below `TempBase`, named after its
process identifier. `DdkLocalInit` makes it and `DdkLocalDeinit` deletes it, both under the
mutex `Global\\DDKTempDir`. The process that creates the mutex deletes all of `TempBase`
first, for what earlier processes left behind. A process may end at any point, which
closes its handle of the mutex and abandons the mutex; the mutex itself goes with its last
handle.

* `deletes_ddkDeleteDirectory` — `DdkDeleteDirectory` is a sequence of the single
  deletions that the steps of the processes are made of;
* `Act` — the steps of the processes, in any order, with process identifiers used again;
* `tempDir_private` — the directory of a process that has been initialised is there, and
  holds what this process itself has put in it.
-/

namespace Wdutf.File.TempLock

open Wdutf.Forest Wdutf.Threads Wdutf.Transition

/-! ## The directories -/

/-- A digit of `%x`. -/
def hexChar (d : ℕ) : UInt8 := UInt8.ofNat (if d < 10 then 0x30 + d else 0x57 + d)

/-- `%x` of a process identifier. -/
def hexName (pid : UInt32) : FileName := (Numerals.digits 16 pid.toNat).map hexChar

/-- `TempDir` of a process, below `TempBase`. -/
def tempDir (base : List FileName) (pid : UInt32) : List FileName := base ++ [hexName pid]

/-- What lies in a directory. -/
def inside (d : List FileName) (fs : List (Entry FileName)) : List (Entry FileName) :=
  fs.filter fun e => decide (d <+: e.path) && decide (e.path ≠ d)

/-- What does not lie in a directory. -/
def outside (d : List FileName) (fs : List (Entry FileName)) : List (Entry FileName) :=
  fs.filter fun e => !(decide (d <+: e.path) && decide (e.path ≠ d))

/-- The value of a digit of `%x`. -/
def hexValue (c : UInt8) : ℕ := if c < 0x3A then c.toNat - 0x30 else c.toNat - 0x57

theorem hexValue_hexChar {d : ℕ} (hd : d < 16) : hexValue (hexChar d) = d := by
  have hall : ∀ d < 16, hexValue (hexChar d) = d := by decide
  exact hall d hd

theorem map_hexValue_hexName (pid : UInt32) :
    (hexName pid).map hexValue = Numerals.digits 16 pid.toNat := by
  rw [hexName, List.map_map]
  conv_rhs => rw [← List.map_id (Numerals.digits 16 pid.toNat)]
  refine List.map_congr_left fun d hd => ?_
  exact hexValue_hexChar (Numerals.digits_lt (by decide) hd)

/-- Different processes have different directories. -/
theorem hexName_injective {p q : UInt32} (h : hexName p = hexName q) : p = q := by
  have hdigits := congrArg (List.map hexValue) h
  rw [map_hexValue_hexName, map_hexValue_hexName] at hdigits
  have hvalue := congrArg (Numerals.value 16) hdigits
  rw [Numerals.value_digits, Numerals.value_digits] at hvalue
  exact UInt32.toNat_inj.1 hvalue

/-- What is at or below the directory of one process is not so for another one. -/
theorem not_below_other {base : List FileName} {p q : UInt32} (hpq : p ≠ q) {path : List FileName}
    (hp : tempDir base p <+: path) : ¬ tempDir base q <+: path := by
  intro hq
  have hbelow := List.prefix_of_prefix_length_le hp hq (by simp [tempDir])
  have heq := hbelow.eq_of_length (by simp [tempDir])
  rw [tempDir, tempDir, List.append_cancel_left_eq, List.singleton_inj] at heq
  exact hpq (hexName_injective heq)

/-! ## The deletions of `DdkDeleteDirectory` -/

/-- Some deletions at or below `d`, one after another. -/
def Deletes (d : List FileName) : List (Entry FileName) → List (Entry FileName) → Prop :=
  Relation.ReflTransGen (Deletion d)

theorem Deletes.mono {d d' : List FileName} (hd : d <+: d') {fs fs' : List (Entry FileName)}
    (h : Deletes d' fs fs') : Deletes d fs fs' := by
  refine Relation.ReflTransGen.mono ?_ _ _ h
  intro fs fs' hdel
  cases hdel with
  | file locked p hp => exact Deletion.file locked p (hd.trans hp)
  | directory locked p hp => exact Deletion.directory locked p (hd.trans hp)

/-- The names that are found are those of a volume. -/
def FoundNamed (found : List (FileName × Bool)) : Prop :=
  ∀ x ∈ found, x.1 = [0x2E] ∨ x.1 = [0x2E, 0x2E] ∨ IsName x.1

theorem foundNamed_findFiles {longest : ℕ} {fs : List (Entry FileName)} (hnamed : Named fs)
    {pDir : List UInt8} {found : List (FileName × Bool)}
    (h : findFiles longest fs pDir = some found) : FoundNamed found := by
  rw [findFiles] at h
  split at h
  · cases h
    intro x hx
    rcases List.mem_cons.1 hx with rfl | hx
    · exact Or.inl rfl
    · rcases List.mem_cons.1 hx with rfl | hx
      · exact Or.inr (Or.inl rfl)
      · rcases x with ⟨name, isDir⟩
        rcases mem_names.1 hx with ⟨e, he, hpath, -⟩
        exact Or.inr (Or.inr (hnamed e he name (by rw [hpath]; simp)))
  · cases h

/-- A deletion leaves no new names. -/
theorem named_of_deletion {d : List FileName} {fs fs' : List (Entry FileName)}
    (h : Deletion d fs fs') (hnamed : Named fs) : Named fs' := by
  cases h with
  | file locked p hp =>
    intro e he
    refine hnamed e ?_
    rw [deleteFile] at he
    split at he
    · exact he
    · exact (List.mem_filter.1 he).1
  | directory locked p hp =>
    intro e he
    refine hnamed e ?_
    rw [removeDirectory] at he
    split at he
    · exact he
    · exact (List.mem_filter.1 he).1

theorem Deletes.named {d : List FileName} {fs fs' : List (Entry FileName)}
    (h : Deletes d fs fs') (hnamed : Named fs) : Named fs' := by
  induction h with
  | refl => exact hnamed
  | tail _ hdel ih => exact named_of_deletion hdel ih

/-- What `DdkDeleteDirectory` does is made of deletions at and below its directory. -/
theorem deletes_ddkDeleteDirectory (longest : ℕ) (locked : List FileName → Bool)
    (pDir : List UInt8) : ∀ fs : List (Entry FileName), Named fs →
      Deletes (resolve pDir) fs (ddkDeleteDirectory longest locked fs pDir) := by
  -- by induction on the room that is left in the buffer
  induction hk : sizeofPath - pDir.length using Nat.strong_induction_on generalizing pDir with
  | _ k ih =>
    have hloop : ∀ (hroom : pDir.length + 4 ≤ sizeofPath - 1) (found : List (FileName × Bool))
        (fs : List (Entry FileName)), FoundNamed found → Named fs →
        Deletes (resolve pDir) fs (deleteFound longest locked pDir hroom found fs) := by
      intro hroom found
      induction found with
      | nil =>
        intro fs _ _
        rw [deleteFound]
        exact Relation.ReflTransGen.refl
      | cons x found ihfound =>
        rcases x with ⟨name, isDir⟩
        intro fs hfound hnamed
        have hrest : FoundNamed found := fun y hy => hfound y (List.mem_cons_of_mem _ hy)
        rw [deleteFound]
        split
        · exact ihfound fs hrest hnamed
        · rename_i hdots
          split
          · exact ihfound fs hrest hnamed
          · have hname : IsName name := by
              rcases hfound _ List.mem_cons_self with hdot | hdot | hname
              · exact absurd (Or.inl hdot) hdots
              · exact absurd (Or.inr hdot) hdots
              · exact hname
            have hbelow : resolve pDir <+: resolve (pDir ++ 0x5C :: name) := by
              rw [resolve_child hname]
              exact List.prefix_append _ _
            have hone : ∀ fs', Deletes (resolve pDir) fs fs' →
                Deletes (resolve pDir) fs (deleteFound longest locked pDir hroom found fs') := by
              intro fs' hdeletes
              exact hdeletes.trans (ihfound fs' hrest (hdeletes.named hnamed))
            simp only
            split
            · refine hone _ (Relation.ReflTransGen.tail ?_ (Deletion.directory locked _ hbelow))
              have hlt := room_lt hroom name
              exact (ih _ (by omega) (pDir ++ 0x5C :: name) rfl fs hnamed).mono hbelow
            · exact hone _ (Relation.ReflTransGen.single (Deletion.file locked _ hbelow))
    intro fs hnamed
    rw [ddkDeleteDirectory]
    split
    · exact Relation.ReflTransGen.refl
    · rename_i hroom
      split
      · exact Relation.ReflTransGen.refl
      · rename_i found hfound
        refine Relation.ReflTransGen.tail ?_ (Deletion.directory locked _ (List.prefix_refl _))
        exact hloop _ found fs (foundNamed_findFiles hnamed hfound) hnamed

/-! ## The processes -/

/-- What the processes share. A process identifier has an open handle of the mutex
`Global\\DDKTempDir` or not, and the mutex exists while there is such a handle. -/
structure Shared where
  fs : List (Entry FileName)
  handles : UInt32 → Bool
  /-- The process that owns the mutex. -/
  owner : Option UInt32
  /-- What a process has put in its directory since `DdkLocalInit`. -/
  own : UInt32 → List (Entry FileName)

/-- Where a process stands. -/
inductive Pc where
  /-- There is no process with this identifier, or it has not come to `DdkLocalInit`. -/
  | idle
  | wait
  | deleteBase
  | deleteOwn
  | createBase
  | createOwn
  | release (rc : Bool)
  | running
  /-- "Unable to create temporary directory" -/
  | failed
  | waitDeinit
  | deleteDeinit
  | removeBase
  | releaseDeinit
  | done
deriving DecidableEq, Repr

variable (base : List FileName)

/-- The steps of the process `t`. -/
inductive Act (t : UInt32) : Shared → Pc → Shared → Pc → Prop
  -- `CreateMutex` makes the mutex and takes it, or opens it
  | create {s : Shared} :
      (∀ q, s.handles q = false) →
      Act t s .idle { s with handles := Function.update s.handles t true, owner := some t }
        .deleteBase
  | openMutex {s : Shared} (q : UInt32) :
      s.handles q = true →
      Act t s .idle { s with handles := Function.update s.handles t true } .wait
  -- the library is loaded again, while the handle is still open
  | again {s : Shared} : Act t s .done s .wait
  -- the wait, also for a mutex that was abandoned
  | acquire {s : Shared} :
      s.owner = none → Act t s .wait { s with owner := some t } .deleteOwn
  -- `DdkDeleteDirectory`, one deletion at a time
  | deleteBaseStep {s : Shared} (fs' : List (Entry FileName)) :
      Deletion base s.fs fs' → Act t s .deleteBase { s with fs := fs' } .deleteBase
  | deleteBaseEnd {s : Shared} : Act t s .deleteBase s .deleteOwn
  | deleteOwnStep {s : Shared} (fs' : List (Entry FileName)) :
      Deletion (tempDir base t) s.fs fs' → Act t s .deleteOwn { s with fs := fs' } .deleteOwn
  | deleteOwnEnd {s : Shared} : Act t s .deleteOwn s .createBase
  -- the result of the first `CreateDirectory` is not looked at
  | createBase {s : Shared} :
      Act t s .createBase { s with fs := createDirectory s.fs base } .createOwn
  | createBaseFails {s : Shared} : Act t s .createBase s .createOwn
  | createOwn {s : Shared} :
      (⟨tempDir base t, true⟩ : Entry FileName) ∉ s.fs →
      (⟨tempDir base t, true⟩ : Entry FileName) ∈ createDirectory s.fs (tempDir base t) →
      Act t s .createOwn
        { s with
          fs := createDirectory s.fs (tempDir base t)
          own := Function.update s.own t [] }
        (.release true)
  | createOwnFails {s : Shared} : Act t s .createOwn s (.release false)
  | release {s : Shared} (rc : Bool) :
      Act t s (.release rc) { s with owner := none } (if rc then .running else .failed)
  -- the process works with what is in its own directory
  | work {s : Shared} (fs' : List (Entry FileName)) :
      WellFormed fs' → outside (tempDir base t) fs' = outside (tempDir base t) s.fs →
      Act t s .running
        { s with fs := fs', own := Function.update s.own t (inside (tempDir base t) fs') } .running
  | deinit {s : Shared} : Act t s .running s .waitDeinit
  | deinitFailed {s : Shared} : Act t s .failed s .waitDeinit
  | acquireDeinit {s : Shared} :
      s.owner = none → Act t s .waitDeinit { s with owner := some t } .deleteDeinit
  | deleteDeinitStep {s : Shared} (fs' : List (Entry FileName)) :
      Deletion (tempDir base t) s.fs fs' →
      Act t s .deleteDeinit { s with fs := fs' } .deleteDeinit
  | deleteDeinitEnd {s : Shared} : Act t s .deleteDeinit s .removeBase
  | removeBase {s : Shared} (locked : List FileName → Bool) :
      Act t s .removeBase { s with fs := removeDirectory locked s.fs base } .releaseDeinit
  | releaseDeinit {s : Shared} : Act t s .releaseDeinit { s with owner := none } .done
  -- the process ends, at whatever point it is
  | exit {s : Shared} {l : Pc} :
      l ≠ .idle →
      Act t s l
        { s with
          handles := Function.update s.handles t false
          owner := if s.owner = some t then none else s.owner }
        .idle

/-- No process has come to `DdkLocalInit` yet; there may be something left of earlier
ones. -/
def Init (c : Conf Shared UInt32 Pc) : Prop :=
  (∀ p, c.pc p = .idle) ∧ (∀ p, c.shared.handles p = false) ∧ c.shared.owner = none ∧
    WellFormed c.shared.fs

/-! ## The invariant -/

/-- The directory of `p` is there and holds what `p` has put in it. -/
def Kept (s : Shared) (p : UInt32) : Prop :=
  (⟨tempDir base p, true⟩ : Entry FileName) ∈ s.fs ∧ inside (tempDir base p) s.fs = s.own p

/-- What holds of the shared data, where `g` tells the processes with a directory in
use. -/
structure SharedOk (g : UInt32 → Bool) (s : Shared) : Prop where
  wf : WellFormed s.fs
  owner : ∀ p, s.owner = some p → s.handles p = true
  open_ : ∀ p, g p = true → s.handles p = true
  kept : ∀ p, g p = true → Kept base s p

/-- What a process knows where it stands. -/
def AtPoint (p : UInt32) (g : UInt32 → Bool) (s : Shared) : Pc → Prop
  | .idle => g p = false ∧ s.handles p = false
  -- who has made the mutex is alone
  | .deleteBase => s.owner = some p ∧ ∀ q, g q = false
  | .deleteOwn | .createBase | .createOwn | .release false => s.owner = some p ∧ g p = false
  | .deleteDeinit | .removeBase | .releaseDeinit => s.owner = some p ∧ g p = false
  | .release true => s.owner = some p ∧ g p = true ∧ s.own p = []
  | .running => g p = true
  | .wait | .failed | .waitDeinit | .done => g p = false ∧ s.handles p = true

/-- What a step of another process leaves alone. -/
structure Rely (u : UInt32) (g g' : UInt32 → Bool) (s s' : Shared) : Prop where
  live : g' u = g u
  handles : s'.handles u = s.handles u
  own : s'.own u = s.own u
  locked : s.owner = some u → s'.owner = some u ∧ ∀ q, g q = false → g' q = false

theorem atPoint_stable {u : UInt32} {g g' : UInt32 → Bool} {s s' : Shared} {l : Pc}
    (h : Rely u g g' s s') (hat : AtPoint u g s l) : AtPoint u g' s' l := by
  have hunlocked : g u = false ∧ s.handles u = true → g' u = false ∧ s'.handles u = true := by
    rw [h.live, h.handles]
    exact id
  have hlocked : s.owner = some u ∧ g u = false → s'.owner = some u ∧ g' u = false := by
    rintro ⟨howner, hg⟩
    exact ⟨(h.locked howner).1, by rw [h.live, hg]⟩
  cases l with
  | idle =>
    rcases hat with ⟨hg, hh⟩
    exact ⟨by rw [h.live, hg], by rw [h.handles, hh]⟩
  | deleteBase =>
    rcases hat with ⟨howner, hg⟩
    rcases h.locked howner with ⟨howner', hnone⟩
    exact ⟨howner', fun q => hnone q (hg q)⟩
  | release rc =>
    cases rc with
    | true =>
      rcases hat with ⟨howner, hg, hown⟩
      exact ⟨(h.locked howner).1, by rw [h.live, hg], by rw [h.own, hown]⟩
    | false => exact hlocked hat
  | running =>
    show g' u = true
    rw [h.live]
    exact hat
  | wait => exact hunlocked hat
  | failed => exact hunlocked hat
  | waitDeinit => exact hunlocked hat
  | done => exact hunlocked hat
  | deleteOwn => exact hlocked hat
  | createBase => exact hlocked hat
  | createOwn => exact hlocked hat
  | deleteDeinit => exact hlocked hat
  | removeBase => exact hlocked hat
  | releaseDeinit => exact hlocked hat

/-! ## Changes of the volume -/

variable {base} {g : UInt32 → Bool} {s : Shared} {p q t : UInt32} {fs' : List (Entry FileName)}

/-- What lies at or below a directory. -/
def under (d : List FileName) (fs : List (Entry FileName)) : List (Entry FileName) :=
  fs.filter fun e => decide (d <+: e.path)

theorem inside_under (d : List FileName) (fs : List (Entry FileName)) :
    inside d fs = (under d fs).filter fun e => decide (e.path ≠ d) := by
  rw [inside, under, List.filter_filter]
  exact List.filter_congr fun e _ => Bool.and_comm _ _

theorem mem_under {d : List FileName} {fs : List (Entry FileName)} :
    (⟨d, true⟩ : Entry FileName) ∈ under d fs ↔ (⟨d, true⟩ : Entry FileName) ∈ fs := by
  simp [under]

/-- Only what is at or below the directory counts. -/
theorem kept_congr {s' : Shared} (hown : s'.own p = s.own p)
    (hunder : under (tempDir base p) s'.fs = under (tempDir base p) s.fs) (h : Kept base s p) :
    Kept base s' p := by
  refine ⟨?_, ?_⟩
  · rw [← mem_under, hunder, mem_under]
    exact h.1
  · rw [inside_under, hunder, ← inside_under, hown]
    exact h.2

theorem under_erase {d path : List FileName} {fs : List (Entry FileName)} (h : ¬ d <+: path) :
    under d (erase fs path) = under d fs := by
  rw [under, under, erase, List.filter_filter]
  refine List.filter_congr fun e _ => ?_
  by_cases hd : d <+: e.path
  · have hne : e.path ≠ path := fun heq => h (by rw [← heq]; exact hd)
    simp [hd, hne]
  · simp [hd]

/-- A deletion in the directory of one process. -/
theorem under_deletion (hwf : WellFormed s.fs) (hdel : Deletion (tempDir base t) s.fs fs')
    (hqt : q ≠ t) : under (tempDir base q) fs' = under (tempDir base q) s.fs := by
  rcases hdel.erases hwf with rfl | ⟨path, hpath, rfl, -⟩
  · rfl
  · exact under_erase (not_below_other hqt.symm hpath)

theorem under_createDirectory {d path : List FileName} {fs : List (Entry FileName)}
    (h : ¬ d <+: path) : under d (createDirectory fs path) = under d fs := by
  rw [createDirectory]
  split
  · rfl
  · rw [under, under, List.filter_append]
    simp [h]

theorem not_below_base : ¬ tempDir base q <+: base := by
  intro h
  have := h.length_le
  rw [tempDir, List.length_append, List.length_singleton] at this
  exact absurd this (Nat.not_succ_le_self _)

/-- `TempBase` is not removed while there is a directory in it. -/
theorem under_removeDirectory (hq : Kept base s q)
    (locked : List FileName → Bool) :
    under (tempDir base q) (removeDirectory locked s.fs base) = under (tempDir base q) s.fs := by
  have hname : (hexName q, true) ∈ names s.fs base := mem_names.2 ⟨_, hq.1, rfl, rfl⟩
  rw [removeDirectory, if_pos]
  have hne : names s.fs base ≠ [] := List.ne_nil_of_mem hname
  simp [hne]

/-- The work of one process in its directory. -/
theorem under_work (hout : outside (tempDir base t) fs' = outside (tempDir base t) s.fs)
    (hqt : q ≠ t) : under (tempDir base q) fs' = under (tempDir base q) s.fs := by
  have hfilter : ∀ fs : List (Entry FileName),
      under (tempDir base q) fs = under (tempDir base q) (outside (tempDir base t) fs) := by
    intro fs
    rw [under, under, outside, List.filter_filter]
    refine List.filter_congr fun e _ => ?_
    by_cases hq : tempDir base q <+: e.path
    · simp [hq, not_below_other hqt hq]
    · simp [hq]
  rw [hfilter, hout, ← hfilter]

/-- The own directory is not a part of what the process works with. -/
theorem mem_of_outside (hout : outside (tempDir base t) fs' = outside (tempDir base t) s.fs)
    (h : (⟨tempDir base t, true⟩ : Entry FileName) ∈ s.fs) :
    (⟨tempDir base t, true⟩ : Entry FileName) ∈ fs' := by
  have hmem : (⟨tempDir base t, true⟩ : Entry FileName) ∈ outside (tempDir base t) s.fs := by
    simpa [outside] using h
  rw [← hout] at hmem
  exact (List.mem_filter.1 hmem).1

/-- A new directory is empty. -/
theorem inside_created (hwf : WellFormed s.fs)
    (hnew : (⟨tempDir base t, true⟩ : Entry FileName) ∉ s.fs)
    (hmade : (⟨tempDir base t, true⟩ : Entry FileName) ∈ createDirectory s.fs (tempDir base t)) :
    inside (tempDir base t) (createDirectory s.fs (tempDir base t)) = [] := by
  have hnotdir : isDirectory s.fs (tempDir base t) = false := by
    rw [← Bool.not_eq_true, isDirectory_iff]
    rintro (hnil | ⟨e, he, hdir, hpath⟩)
    · simp [tempDir] at hnil
    · rcases e with ⟨path, isDir⟩
      simp only at hdir hpath
      subst hdir hpath
      exact hnew he
  rw [createDirectory] at hmade ⊢
  split at hmade
  · exact absurd hmade hnew
  · rename_i hcond
    rw [if_neg hcond, inside, List.filter_eq_nil_iff]
    intro e he hinside
    simp only [Bool.and_eq_true, decide_eq_true_iff] at hinside
    rcases List.mem_append.1 he with he | he
    · exact hinside.2 (hwf.leaf_of_not_directory hnotdir e he hinside.1)
    · rw [List.mem_singleton.1 he] at hinside
      exact hinside.2 rfl

/-! ## Steps -/

/-- The conclusion of a step for the rule of `Wdutf.Lib.Threads`. -/
def StepOk (base : List FileName) (g : UInt32 → Bool) (c : Conf Shared UInt32 Pc) (t : UInt32)
    (s' : Shared) (l' : Pc) : Prop :=
  ∃ g', SharedOk base g' s' ∧ AtPoint t g' s' l' ∧
    ∀ u, u ≠ t → AtPoint u g c.shared (c.pc u) → AtPoint u g' s' (c.pc u)

variable {c : Conf Shared UInt32 Pc}

/-- A step that changes no shared data. -/
theorem stepOk_same {l' : Pc} (hok : SharedOk base g c.shared) (hat : AtPoint t g c.shared l') :
    StepOk base g c t c.shared l' :=
  ⟨g, hok, hat, fun _ _ hu => hu⟩

/-- A step that changes the volume, and nothing in a directory that is in use. -/
theorem stepOk_volume {l' : Pc} (hok : SharedOk base g c.shared) (hwf : WellFormed fs')
    (hunder : ∀ q, g q = true → under (tempDir base q) fs' = under (tempDir base q) c.shared.fs)
    (hat : AtPoint t g { c.shared with fs := fs' } l') :
    StepOk base g c t { c.shared with fs := fs' } l' := by
  refine ⟨g, ⟨hwf, hok.owner, hok.open_, fun q hq => ?_⟩, hat, fun u _ hu => ?_⟩
  · exact kept_congr (s := c.shared) rfl (hunder q hq) (hok.kept q hq)
  · exact atPoint_stable (s := c.shared) ⟨rfl, rfl, rfl, fun h => ⟨h, fun _ hq => hq⟩⟩ hu

/-- A step that takes the mutex, or leaves it. -/
theorem stepOk_owner {l' : Pc} {owner : Option UInt32} (hok : SharedOk base g c.shared)
    (hbefore : ∀ u, u ≠ t → c.shared.owner ≠ some u)
    (howner : ∀ p, owner = some p → c.shared.handles p = true)
    (hat : AtPoint t g { c.shared with owner := owner } l') :
    StepOk base g c t { c.shared with owner := owner } l' := by
  refine ⟨g, ⟨hok.wf, howner, hok.open_, fun q hq => ?_⟩, hat, fun u hut hu => ?_⟩
  · exact kept_congr (s := c.shared) rfl rfl (hok.kept q hq)
  · exact atPoint_stable (s := c.shared) ⟨rfl, rfl, rfl, fun h => absurd h (hbefore u hut)⟩ hu

theorem not_owned_by_other {owner : Option UInt32} (h : owner = some t) :
    ∀ u, u ≠ t → owner ≠ some u := by
  intro u hu heq
  rw [h] at heq
  exact hu (Option.some.inj heq).symm

theorem not_owned_of_none {owner : Option UInt32} (h : owner = none) :
    ∀ u, u ≠ t → owner ≠ some u := by
  intro u _ heq
  rw [h] at heq
  cases heq

/-- A new process opens or makes the mutex. -/
theorem stepOk_handle {l' : Pc} {owner : Option UInt32} (hok : SharedOk base g c.shared)
    (hg : g t = false) (hbefore : ∀ u, u ≠ t → c.shared.owner = some u → owner = some u)
    (howner : ∀ p, owner = some p → p = t ∨ c.shared.handles p = true)
    (hat : AtPoint t g
      { c.shared with handles := Function.update c.shared.handles t true, owner := owner } l') :
    StepOk base g c t
      { c.shared with handles := Function.update c.shared.handles t true, owner := owner } l' := by
  refine ⟨g, ⟨hok.wf, ?_, ?_, fun q hq => ?_⟩, hat, fun u hut hu => ?_⟩
  · intro p hp
    show Function.update c.shared.handles t true p = true
    rcases howner p hp with rfl | hh
    · rw [Function.update_self]
    · by_cases hpt : p = t
      · rw [hpt, Function.update_self]
      · rw [Function.update_of_ne hpt, hh]
  · intro p hp
    have hpt : p ≠ t := by
      rintro rfl
      rw [hg] at hp
      cases hp
    show Function.update c.shared.handles t true p = true
    rw [Function.update_of_ne hpt]
    exact hok.open_ p hp
  · exact kept_congr (s := c.shared) rfl rfl (hok.kept q hq)
  · refine atPoint_stable (s := c.shared)
      ⟨rfl, ?_, rfl, fun h => ⟨hbefore u hut h, fun _ hq => hq⟩⟩ hu
    exact Function.update_of_ne hut _ _

/-- A process ends. -/
theorem stepOk_exit (hok : SharedOk base g c.shared) :
    StepOk base g c t
      { c.shared with
        handles := Function.update c.shared.handles t false
        owner := if c.shared.owner = some t then none else c.shared.owner }
      .idle := by
  refine ⟨Function.update g t false, ⟨hok.wf, ?_, ?_, fun q hq => ?_⟩, ?_, fun u hut hu => ?_⟩
  · intro p hp
    have hpt : p ≠ t ∧ c.shared.owner = some p := by
      simp only at hp
      split at hp
      · cases hp
      · rename_i hne
        refine ⟨?_, hp⟩
        rintro rfl
        exact hne hp
    show Function.update c.shared.handles t false p = true
    rw [Function.update_of_ne hpt.1]
    exact hok.owner p hpt.2
  · intro p hp
    have hpt : p ≠ t := by
      rintro rfl
      rw [Function.update_self] at hp
      cases hp
    rw [Function.update_of_ne hpt] at hp
    show Function.update c.shared.handles t false p = true
    rw [Function.update_of_ne hpt]
    exact hok.open_ p hp
  · have hqt : q ≠ t := by
      rintro rfl
      rw [Function.update_self] at hq
      cases hq
    rw [Function.update_of_ne hqt] at hq
    exact kept_congr (s := c.shared) rfl rfl (hok.kept q hq)
  · exact ⟨Function.update_self .., Function.update_self ..⟩
  · have hlive : Function.update g t false u = g u := Function.update_of_ne hut _ _
    have hhandles : Function.update c.shared.handles t false u = c.shared.handles u :=
      Function.update_of_ne hut _ _
    refine atPoint_stable (s := c.shared)
      ⟨hlive, hhandles, rfl, fun howner => ⟨?_, fun q hq => ?_⟩⟩ hu
    · show (if c.shared.owner = some t then none else c.shared.owner) = some u
      rw [howner, if_neg (fun h => hut (Option.some.inj h))]
    · by_cases hqt : q = t
      · rw [hqt, Function.update_self]
      · rw [Function.update_of_ne hqt, hq]

/-- Every step keeps the invariant. -/
theorem act_stepOk {s' : Shared} {l' : Pc} (hok : SharedOk base g c.shared)
    (hat : AtPoint t g c.shared (c.pc t)) (hact : Act base t c.shared (c.pc t) s' l') :
    StepOk base g c t s' l' := by
  generalize hl : c.pc t = l at hat hact
  generalize hs : c.shared = s at hact
  -- a step between points that know the same
  have hsame : ∀ {l'}, AtPoint t g c.shared l' → s = s' → StepOk base g c t s' l' := by
    intro l' hat' heq
    rw [← heq, ← hs]
    exact stepOk_same hok hat'
  have hother : ∀ {fs'}, Deletion (tempDir base t) c.shared.fs fs' → g t = false →
      ∀ q, g q = true → under (tempDir base q) fs' = under (tempDir base q) c.shared.fs := by
    intro fs' hdel hg q hq
    refine under_deletion hok.wf hdel ?_
    rintro rfl
    rw [hg] at hq
    cases hq
  cases hact with
  | create hnone =>
    subst hs
    refine stepOk_handle hok hat.1 ?_ ?_ ⟨rfl, fun q => ?_⟩
    · intro u _ howner
      have := hok.owner u howner
      rw [hnone u] at this
      cases this
    · intro p hp
      exact Or.inl (Option.some.inj hp).symm
    · -- nobody has a directory in use without a handle
      by_contra hg
      have := hok.open_ q (by simpa using hg)
      rw [hnone q] at this
      cases this
  | openMutex q hq =>
    subst hs
    refine stepOk_handle hok hat.1 (fun u _ howner => howner)
      (fun p hp => Or.inr (hok.owner p hp)) ?_
    exact ⟨hat.1, Function.update_self ..⟩
  | again => exact hsame hat rfl
  | acquire hfree =>
    subst hs
    refine stepOk_owner hok (not_owned_of_none hfree) (fun p hp => ?_) ⟨rfl, hat.1⟩
    rw [← Option.some.inj hp]
    exact hat.2
  | deleteBaseStep fs' hdel =>
    subst hs
    refine stepOk_volume hok (hdel.wellFormed hok.wf) (fun q hq => ?_) hat
    rw [hat.2 q] at hq
    cases hq
  | deleteBaseEnd => exact hsame ⟨hat.1, hat.2 t⟩ rfl
  | deleteOwnStep fs' hdel =>
    subst hs
    exact stepOk_volume hok (hdel.wellFormed hok.wf) (hother hdel hat.2) hat
  | deleteOwnEnd => exact hsame hat rfl
  | createBase =>
    subst hs
    exact stepOk_volume hok (hok.wf.createDirectory base)
      (fun q _ => under_createDirectory not_below_base) hat
  | createBaseFails => exact hsame hat rfl
  | createOwn hnew hmade =>
    subst hs
    rcases hat with ⟨howner, hg⟩
    refine ⟨Function.update g t true, ⟨hok.wf.createDirectory _, hok.owner, ?_, fun q hq => ?_⟩,
      ⟨howner, Function.update_self .., Function.update_self ..⟩, fun u hut hu => ?_⟩
    · intro p hp
      by_cases hpt : p = t
      · rw [hpt]
        exact hok.owner t howner
      · rw [Function.update_of_ne hpt] at hp
        exact hok.open_ p hp
    · by_cases hqt : q = t
      · subst hqt
        refine ⟨hmade, ?_⟩
        show inside _ _ = Function.update c.shared.own q [] q
        rw [Function.update_self]
        exact inside_created hok.wf hnew hmade
      · rw [Function.update_of_ne hqt] at hq
        refine kept_congr (s := c.shared) (Function.update_of_ne hqt _ _) ?_ (hok.kept q hq)
        exact under_createDirectory (not_below_other (Ne.symm hqt) (List.prefix_refl _))
    · refine atPoint_stable (s := c.shared)
        ⟨Function.update_of_ne hut _ _, rfl, Function.update_of_ne hut _ _, ?_⟩ hu
      exact fun h => absurd h (not_owned_by_other howner u hut)
  | createOwnFails => exact hsame hat rfl
  | release rc =>
    subst hs
    cases rc with
    | true =>
      exact stepOk_owner hok (not_owned_by_other hat.1) (fun p hp => by cases hp) hat.2.1
    | false =>
      exact stepOk_owner hok (not_owned_by_other hat.1) (fun p hp => by cases hp)
        ⟨hat.2, hok.owner t hat.1⟩
  | work fs' hwf hout =>
    subst hs
    refine ⟨g, ⟨hwf, hok.owner, hok.open_, fun q hq => ?_⟩, hat, fun u hut hu => ?_⟩
    · by_cases hqt : q = t
      · subst hqt
        refine ⟨mem_of_outside hout (hok.kept q hq).1, ?_⟩
        show inside _ _ = Function.update c.shared.own q _ q
        rw [Function.update_self]
      · exact kept_congr (s := c.shared) (Function.update_of_ne hqt _ _) (under_work hout hqt)
          (hok.kept q hq)
    · exact atPoint_stable (s := c.shared)
        ⟨rfl, rfl, Function.update_of_ne hut _ _, fun h => ⟨h, fun _ hq => hq⟩⟩ hu
  | deinit =>
    subst hs
    -- from here on the directory is no longer in use
    refine ⟨Function.update g t false, ⟨hok.wf, hok.owner, ?_, fun q hq => ?_⟩,
      ⟨Function.update_self .., hok.open_ t hat⟩, fun u hut hu => ?_⟩
    · intro p hp
      have hpt : p ≠ t := by
        rintro rfl
        rw [Function.update_self] at hp
        cases hp
      rw [Function.update_of_ne hpt] at hp
      exact hok.open_ p hp
    · have hqt : q ≠ t := by
        rintro rfl
        rw [Function.update_self] at hq
        cases hq
      rw [Function.update_of_ne hqt] at hq
      exact hok.kept q hq
    · refine atPoint_stable (s := c.shared)
        ⟨Function.update_of_ne hut _ _, rfl, rfl, fun h => ⟨h, fun q hq => ?_⟩⟩ hu
      by_cases hqt : q = t
      · rw [hqt, Function.update_self]
      · rw [Function.update_of_ne hqt, hq]
  | deinitFailed => exact hsame hat rfl
  | acquireDeinit hfree =>
    subst hs
    refine stepOk_owner hok (not_owned_of_none hfree) (fun p hp => ?_) ⟨rfl, hat.1⟩
    rw [← Option.some.inj hp]
    exact hat.2
  | deleteDeinitStep fs' hdel =>
    subst hs
    exact stepOk_volume hok (hdel.wellFormed hok.wf) (hother hdel hat.2) hat
  | deleteDeinitEnd => exact hsame hat rfl
  | removeBase locked =>
    subst hs
    refine stepOk_volume hok ?_ (fun q hq => under_removeDirectory (hok.kept q hq) locked) hat
    exact (Deletion.directory locked base (List.prefix_refl base)).wellFormed hok.wf
  | releaseDeinit =>
    subst hs
    exact stepOk_owner hok (not_owned_by_other hat.1) (fun p hp => by cases hp)
      ⟨hat.2, hok.owner t hat.1⟩
  | exit _ =>
    subst hs
    exact stepOk_exit hok

/-- The invariant of every run. -/
theorem processes_invariant {ts : List UInt32} (h : Trace Init (Step (Act base)) ts c) :
    ∃ g, SharedOk base g c.shared ∧ ∀ p, AtPoint p g c.shared (c.pc p) := by
  have hholds : Holds (SharedOk base) AtPoint c := by
    refine Threads.invariant ?_ ?_ h
    · intro c hinit
      rcases hinit with ⟨hidle, hhandles, howner, hwf⟩
      refine ⟨fun _ => false, ⟨hwf, ?_, ?_, ?_⟩, fun p => ?_⟩
      · intro p hp
        rw [howner] at hp
        cases hp
      · intro p hp
        cases hp
      · intro p hp
        cases hp
      · rw [hidle p]
        exact ⟨rfl, hhandles p⟩
    · intro g c t s l hok hat hact
      exact act_stepOk hok (hat t) hact
  exact hholds

/-! ## The directories of the processes -/

/-- The points at which a process has the mutex. -/
def InLock : Pc → Prop
  | .deleteBase | .deleteOwn | .createBase | .createOwn | .release _ => True
  | .deleteDeinit | .removeBase | .releaseDeinit => True
  | .idle | .wait | .running | .failed | .waitDeinit | .done => False

theorem owner_of_inLock {l : Pc} (hat : AtPoint p g s l) (h : InLock l) : s.owner = some p := by
  cases l with
  | release rc =>
    cases rc with
    | true => exact hat.1
    | false => exact hat.1
  | deleteBase => exact hat.1
  | deleteOwn => exact hat.1
  | createBase => exact hat.1
  | createOwn => exact hat.1
  | deleteDeinit => exact hat.1
  | removeBase => exact hat.1
  | releaseDeinit => exact hat.1
  | idle => exact absurd h id
  | wait => exact absurd h id
  | running => exact absurd h id
  | failed => exact absurd h id
  | waitDeinit => exact absurd h id
  | done => exact absurd h id

/-- What the processes rely on. -/
structure Private (base : List FileName) (c : Conf Shared UInt32 Pc) : Prop where
  /-- The directory of a process that has been initialised is there, and holds what this
  process has put in it. -/
  kept : ∀ p, c.pc p = .running → Kept base c.shared p
  /-- The directory is empty when `DdkLocalInit` has made it. -/
  fresh : ∀ p, c.pc p = .release true →
    Kept base c.shared p ∧ inside (tempDir base p) c.shared.fs = []
  /-- One process at a time makes and deletes directories. -/
  alone : ∀ p q, InLock (c.pc p) → InLock (c.pc q) → p = q

/-- **Temporary directories of the processes**, after every interleaving of the steps of
any number of processes, which may end at any point. -/
theorem tempDir_private {ts : List UInt32} (h : Trace Init (Step (Act base)) ts c) :
    Private base c := by
  rcases processes_invariant h with ⟨g, hok, hat⟩
  constructor
  case kept =>
    intro p hp
    have hpoint := hat p
    rw [hp] at hpoint
    exact hok.kept p hpoint
  case fresh =>
    intro p hp
    have hpoint := hat p
    rw [hp] at hpoint
    rcases hpoint with ⟨-, hg, hown⟩
    exact ⟨hok.kept p hg, by rw [(hok.kept p hg).2, hown]⟩
  case alone =>
    intro p q hp hq
    have howner := owner_of_inLock (hat p) hp
    rw [owner_of_inLock (hat q) hq] at howner
    exact (Option.some.inj howner).symm

/-- Process 1 makes the mutex and cleans up what a process before it has left; process 2
finds the mutex, and has a directory of its own when process 1 deletes its own. -/
theorem tempDir_private_two :
    ∃ (ts : List UInt32) (c : Conf Shared UInt32 Pc),
      Trace Init (Step (Act [[0x64]])) ts c ∧ c.pc 2 = .running ∧ c.pc 1 = .done ∧
      c.shared.fs = [⟨[[0x64]], true⟩, ⟨[[0x64], [0x32]], true⟩] ∧ Private [[0x64]] c := by
  have hwf : WellFormed ([⟨[[0x64]], true⟩, ⟨[[0x64], [0x37]], false⟩] :
      List (Entry FileName)) := by
    constructor
    case nodup => decide
    case rooted => decide
    case parent =>
      intro e he d a hpath
      have hdir : ∀ e ∈ ([⟨[[0x64]], true⟩, ⟨[[0x64], [0x37]], false⟩] : List (Entry FileName)),
          isDirectory ([⟨[[0x64]], true⟩, ⟨[[0x64], [0x37]], false⟩] : List (Entry FileName))
            e.path.dropLast = true := by decide
      have := hdir e he
      rwa [hpath, List.dropLast_concat] at this
  have h0 : Trace Init (Step (Act [[0x64]])) []
      ⟨⟨[⟨[[0x64]], true⟩, ⟨[[0x64], [0x37]], false⟩], fun _ => false, none, fun _ => []⟩,
        fun _ => .idle⟩ :=
    Trace.start ⟨fun _ => rfl, fun _ => rfl, rfl, hwf⟩
  have h1 := run_step h0 1 (Act.create fun _ => rfl)
  have h2 := run_step h1 2 (Act.openMutex 1 (by decide))
  have h3 := run_step h2 1 (Act.deleteBaseStep _
    (Deletion.file (fun _ => false) [[0x64], [0x37]] (by decide)))
  have h4 := run_step h3 1 Act.deleteBaseEnd
  have h5 := run_step h4 1 Act.deleteOwnEnd
  have h6 := run_step h5 1 Act.createBase
  have h7 := run_step h6 1 (Act.createOwn (by decide) (by decide))
  have h8 := run_step h7 1 (Act.release true)
  have h9 := run_step h8 2 (Act.acquire (by decide))
  have h10 := run_step h9 2 Act.deleteOwnEnd
  have h11 := run_step h10 2 Act.createBase
  have h12 := run_step h11 2 (Act.createOwn (by decide) (by decide))
  have h13 := run_step h12 2 (Act.release true)
  have h14 := run_step h13 1 Act.deinit
  have h15 := run_step h14 1 (Act.acquireDeinit (by decide))
  have h16 := run_step h15 1 (Act.deleteDeinitStep _
    (Deletion.directory (fun _ => false) [[0x64], [0x31]] (by decide)))
  have h17 := run_step h16 1 Act.deleteDeinitEnd
  have h18 := run_step h17 1 (Act.removeBase fun _ => false)
  have h19 := run_step h18 1 Act.releaseDeinit
  exact ⟨_, _, h19, by decide, by decide, by decide, tempDir_private h19⟩

end Wdutf.File.TempLock
