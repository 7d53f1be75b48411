import Mathlib.Data.List.Basic
import Mathlib.Tactic.Common
import Wdutf.Lib.Forest
import Wdutf.File.LocalPath

/-!
# Wdutf.File.DeleteDirectory — cleaning up the temporary directory, `src/local.cpp`

`DdkDeleteDirectory` deletes a directory with everything in it. It puts the paths
together in a buffer of `MAX_PATH + 1` characters: where `dir\*.*` does not fit it returns
at once, and a name that does not fit behind `dir\` is passed over. The recursion ends
because the paths get longer.

`FindFirstFile` turns down patterns of more than `longest` characters. It is documented for
`MAX_PATH` characters with the NUL, so `longest` is at least 259, and a pattern in the buffer
has at most 260.

* `deleteDirectory_eq_prune` — the recursion over the directories against `prune` of
  `Wdutf.Lib.Forest`;
* `deleteDirectory_leaves` — exactly which entries are left.
-/

namespace Wdutf.File

open Wdutf.Forest

/-! ## The routine -/

/-- A name in the file system. -/
abbrev FileName := List UInt8

/-- `sizeof(path)`, for `char path[MAX_PATH+1]`. -/
def sizeofPath : ℕ := 261

/-- The names that a path leads through; empty ones are skipped. The paths here have no
components `.` and `..`. -/
def resolve (path : List UInt8) : List FileName :=
  (List.splitOnP ansi.isSep path).filter (· ≠ [])

/-- What `FindFirstFile` and `FindNextFile` find for `pDir\*.*`, which has four characters more
than `pDir`. -/
def findFiles (longest : ℕ) (fs : List (Entry FileName)) (pDir : List UInt8) :
    Option (List (FileName × Bool)) :=
  if pDir.length + 4 ≤ longest ∧ isDirectory fs (resolve pDir) = true then
    some (([0x2E], true) :: ([0x2E, 0x2E], true) :: names fs (resolve pDir))
  else none

theorem room_lt {pDir : List UInt8} (h : pDir.length + 4 ≤ sizeofPath - 1) (name : FileName) :
    sizeofPath - (pDir ++ 0x5C :: name).length < sizeofPath - pDir.length := by
  simp only [sizeofPath, List.length_append, List.length_cons] at *
  omega

variable (longest : ℕ) (locked : List FileName → Bool)

mutual

/-- `DdkDeleteDirectory` on `pDir`, in a volume where what is `locked` cannot be deleted. -/
def ddkDeleteDirectory (fs : List (Entry FileName)) (pDir : List UInt8) :
    List (Entry FileName) :=
  if h : pDir.length + 4 > sizeofPath - 1 then fs
  else
    match findFiles longest fs pDir with
    | none => fs
    | some found =>
      removeDirectory locked (deleteFound pDir (Nat.not_lt.1 h) found fs) (resolve pDir)
termination_by (sizeofPath - pDir.length, 1, 0)
decreasing_by exact Prod.Lex.right _ (Prod.Lex.left _ _ Nat.zero_lt_one)

/-- The loop over what is found. -/
def deleteFound (pDir : List UInt8) (h : pDir.length + 4 ≤ sizeofPath - 1) :
    List (FileName × Bool) → List (Entry FileName) → List (Entry FileName)
  | [], fs => fs
  | (cFileName, isDir) :: found, fs =>
    if cFileName = [0x2E] ∨ cFileName = [0x2E, 0x2E] then deleteFound pDir h found fs
    else if cFileName.length > sizeofPath - (pDir.length + 4) - 1 then deleteFound pDir h found fs
    else
      let path := pDir ++ 0x5C :: cFileName
      if isDir then
        deleteFound pDir h found
          (removeDirectory locked (ddkDeleteDirectory fs path) (resolve path))
      else deleteFound pDir h found (deleteFile locked fs (resolve path))
termination_by found => (sizeofPath - pDir.length, 0, found.length)
decreasing_by
  -- the loop has one name less, and a directory in it has a longer path
  all_goals
    first
      | exact Prod.Lex.right _ (Prod.Lex.right _ (Nat.lt_succ_self _))
      | exact Prod.Lex.left _ _ (room_lt h _)

end

/-! ## The paths -/

/-- The names of a volume. -/
def Named (fs : List (Entry FileName)) : Prop := ∀ e ∈ fs, ∀ name ∈ e.path, IsName name

/-- The path that the recursion from `pDir` puts together for an entry. -/
def pathTo (pDir : List UInt8) (p : List FileName) : List UInt8 :=
  pDir ++ (p.drop (resolve pDir).length).flatMap (0x5C :: ·)

/-- What is in use, or has a path that does not fit. -/
def stuck (pDir : List UInt8) (p : List FileName) : Bool :=
  locked p || decide (sizeofPath - 4 < (pathTo pDir p).length)

variable {longest : ℕ} {locked} {fs : List (Entry FileName)} {pDir : List UInt8}

theorem resolve_child {name : FileName} (hname : IsName name) (pDir : List UInt8) :
    resolve (pDir ++ 0x5C :: name) = resolve pDir ++ [name] := by
  have hsplit : List.splitOnP ansi.isSep (pDir ++ 0x5C :: name) =
      List.splitOnP ansi.isSep pDir ++ [name] := by
    rw [List.splitOnP_append_cons pDir name (by decide), List.splitOnP_eq_singleton hname.sep]
  rw [resolve, resolve, hsplit, List.filter_append]
  simp [hname.ne_nil]

theorem pathTo_self (pDir : List UInt8) : pathTo pDir (resolve pDir) = pDir := by
  simp [pathTo]

/-- The path of an entry is the same from a directory that it lies in. -/
theorem pathTo_child {name : FileName} (hname : IsName name) {p : List FileName}
    (hp : resolve pDir ++ [name] <+: p) :
    pathTo (pDir ++ 0x5C :: name) p = pathTo pDir p := by
  rcases hp with ⟨t, rfl⟩
  rw [pathTo, pathTo, resolve_child hname]
  simp

theorem stuck_child {name : FileName} (hname : IsName name) {p : List FileName}
    (hp : resolve pDir ++ [name] <+: p) :
    stuck locked (pDir ++ 0x5C :: name) p = stuck locked pDir p := by
  rw [stuck, stuck, pathTo_child hname hp]

theorem stuck_iff {p : List FileName} :
    stuck locked pDir p = true ↔ locked p = true ∨ 257 < (pathTo pDir p).length := by
  have hsize : sizeofPath - 4 = 257 := rfl
  rw [stuck, Bool.or_eq_true, decide_eq_true_iff, hsize]

/-- What has a path that does not fit is stuck. -/
theorem stuck_of_long {p : List FileName} (h : 257 < (pathTo pDir p).length) :
    stuck locked pDir p = true :=
  stuck_iff.2 (Or.inr h)

/-- What has a path that fits is stuck when it is in use. -/
theorem stuck_of_fits {p : List FileName} (h : (pathTo pDir p).length ≤ 257) :
    stuck locked pDir p = locked p := by
  rw [Bool.eq_iff_iff, stuck_iff]
  exact ⟨fun hs => hs.resolve_right (Nat.not_lt.2 h), Or.inl⟩

/-- Paths get longer with every name. -/
theorem length_pathTo_lt (hnamed : Named fs) {e : Entry FileName} (he : e ∈ fs)
    {d : List FileName} (hd : d <+: e.path) (hne : e.path ≠ d) (hdir : resolve pDir <+: d) :
    (pathTo pDir d).length + 1 < (pathTo pDir e.path).length := by
  rcases hd with ⟨t, ht⟩
  rcases hdir with ⟨u, rfl⟩
  cases t with
  | nil => exact absurd (by simpa using ht.symm) hne
  | cons name t =>
    have hname : IsName name := hnamed e he name (by rw [← ht]; simp)
    have hlength := List.length_pos_iff.2 hname.ne_nil
    rw [← ht, pathTo, pathTo, List.append_assoc, List.drop_left, List.drop_left]
    simp
    omega

/-! ## The recursion -/

/-- A pattern that is too long leads to nothing. -/
theorem deleteDirectory_returns
    (h : ¬ (pDir.length + 4 ≤ sizeofPath - 1 ∧ pDir.length + 4 ≤ longest)) :
    ddkDeleteDirectory longest locked fs pDir = fs := by
  rw [ddkDeleteDirectory]
  split
  · rfl
  · rw [findFiles, if_neg (by omega)]

/-- What one turn of the loop does, given what the recursion does. -/
theorem deleteFound_turn (hlongest : 259 ≤ longest) (h : WellFormed fs) (hnamed : Named fs)
    (hroom : pDir.length + 4 ≤ sizeofPath - 1)
    (ih : ∀ path : List UInt8, pDir.length < path.length → path.length + 4 ≤ sizeofPath - 1 →
      path.length + 4 ≤ longest → isDirectory fs (resolve path) = true →
      ddkDeleteDirectory longest locked fs path = prune (stuck locked path) fs (resolve path))
    {name : FileName} {isDir : Bool} (hmem : (name, isDir) ∈ names fs (resolve pDir))
    (found : List (FileName × Bool)) :
    deleteFound longest locked pDir hroom ((name, isDir) :: found) fs =
      deleteFound longest locked pDir hroom found
        (prune (stuck locked pDir) fs (resolve pDir ++ [name])) := by
  rcases mem_names.1 hmem with ⟨e, he, hpath, hkind⟩
  have hname : IsName name := hnamed e he name (by rw [hpath]; simp)
  have hresolve := resolve_child hname pDir
  have hlength : (pathTo pDir (resolve pDir ++ [name])).length = pDir.length + 1 + name.length := by
    rw [pathTo]
    simp
    omega
  have hsize : sizeofPath = 261 := rfl
  rw [deleteFound, if_neg (by simp [hname.ne_dot, hname.ne_dots])]
  by_cases hlong : name.length > sizeofPath - (pDir.length + 4) - 1
  · -- passed over: everything below has a path that is at least as long
    rw [if_pos hlong, prune_of_stuck]
    intro e' he' hbelow
    have hle : pDir.length + 1 + name.length ≤ (pathTo pDir e'.path).length := by
      by_cases heq : e'.path = resolve pDir ++ [name]
      · rw [heq, hlength]
      · have := length_pathTo_lt hnamed he' hbelow heq (List.prefix_append _ _)
        omega
    exact stuck_of_long (by omega)
  · rw [if_neg hlong]
    have hfits : stuck locked pDir (resolve pDir ++ [name]) = locked (resolve pDir ++ [name]) :=
      stuck_of_fits (by omega)
    simp only [hresolve]
    cases isDir with
    | false =>
      rw [← hpath] at hfits
      rw [if_neg Bool.false_ne_true, ← hpath, deleteFile_eq_prune h he hkind hfits]
    | true =>
      have hdir : isDirectory fs (resolve pDir ++ [name]) = true :=
        isDirectory_iff.2 (Or.inr ⟨e, he, hkind, hpath⟩)
      rw [if_pos rfl]
      congr 1
      by_cases hdeep : pDir.length + 1 + name.length + 4 ≤ sizeofPath - 1 ∧
          pDir.length + 1 + name.length + 4 ≤ longest
      · have hrec := ih (pDir ++ 0x5C :: name) (by simp) (by simp; omega) (by simp; omega)
          (by rw [hresolve, hdir])
        rw [hrec, hresolve, prune_congr (stuck locked pDir)
          fun e' _ hbelow => stuck_child hname hbelow]
        exact removeDirectory_prune h hfits
      · -- nothing is found there, and what is below has a path that does not fit
        have hreturn : ddkDeleteDirectory longest locked fs (pDir ++ 0x5C :: name) = fs := by
          refine deleteDirectory_returns ?_
          rw [List.length_append, List.length_cons]
          omega
        rw [hreturn]
        refine removeDirectory_eq_prune h hdir hfits fun e' he' hbelow hne => ?_
        have := length_pathTo_lt hnamed he' hbelow hne (List.prefix_append _ _)
        exact stuck_of_long (by omega)

/-- The loop, after some names have been done. -/
theorem deleteFound_names (hlongest : 259 ≤ longest) (h : WellFormed fs) (hnamed : Named fs)
    (hroom : pDir.length + 4 ≤ sizeofPath - 1)
    (ih : ∀ (fs : List (Entry FileName)) (path : List UInt8), WellFormed fs → Named fs →
      pDir.length < path.length → path.length + 4 ≤ sizeofPath - 1 →
      path.length + 4 ≤ longest → isDirectory fs (resolve path) = true →
      ddkDeleteDirectory longest locked fs path = prune (stuck locked path) fs (resolve path))
    (found : List (FileName × Bool)) :
    ∀ done : List (FileName × Bool), names fs (resolve pDir) = done ++ found →
      deleteFound longest locked pDir hroom found
        (pruneNames (stuck locked pDir) fs (resolve pDir) (done.map Prod.fst)) =
        pruneNames (stuck locked pDir) fs (resolve pDir) ((done ++ found).map Prod.fst) := by
  induction found with
  | nil =>
    intro done _
    rw [deleteFound, List.append_nil]
  | cons x found ihfound =>
    rcases x with ⟨name, isDir⟩
    intro done hdone
    have hnodup := h.names_nodup (resolve pDir)
    rw [hdone, List.map_append, List.map_cons, List.nodup_append] at hnodup
    have hwf : WellFormed (pruneNames (stuck locked pDir) fs (resolve pDir) (done.map Prod.fst)) :=
      h.pruneNames _ _
    have hnamed' : Named (pruneNames (stuck locked pDir) fs (resolve pDir) (done.map Prod.fst)) :=
      fun e he => hnamed e (mem_pruneNames.1 he).1
    -- the next name is still there
    have hmem : (name, isDir) ∈ names
        (pruneNames (stuck locked pDir) fs (resolve pDir) (done.map Prod.fst)) (resolve pDir) := by
      have hin : (name, isDir) ∈ names fs (resolve pDir) := by
        rw [hdone]
        simp
      rcases mem_names.1 hin with ⟨e, he, hpath, hkind⟩
      refine mem_names.2 ⟨e, mem_pruneNames.2 ⟨he, Or.inl fun a ha hbelow => ?_⟩, hpath, hkind⟩
      rw [hpath] at hbelow
      have heq := hbelow.eq_of_length (by simp)
      rw [List.append_cancel_left_eq, List.singleton_inj] at heq
      exact hnodup.2.2 a ha name List.mem_cons_self heq
    rw [deleteFound_turn hlongest hwf hnamed' hroom
      (fun path hlt hle hfinds hdir => ih _ path hwf hnamed' hlt hle hfinds hdir) hmem,
      prune_pruneNames]
    have hnext := ihfound (done ++ [(name, isDir)]) (by rw [hdone]; simp)
    rw [List.map_append] at hnext
    rw [List.map_cons, List.map_nil] at hnext
    rw [hnext, List.append_assoc, List.singleton_append]

/-- `DdkDeleteDirectory` on a directory whose path leaves room for `\*.*`. -/
theorem deleteDirectory_eq_prune (hlongest : 259 ≤ longest) (h : WellFormed fs)
    (hnamed : Named fs) (hroom : pDir.length + 4 ≤ sizeofPath - 1)
    (hfinds : pDir.length + 4 ≤ longest) (hdir : isDirectory fs (resolve pDir) = true) :
    ddkDeleteDirectory longest locked fs pDir = prune (stuck locked pDir) fs (resolve pDir) := by
  -- by induction on the room that is left in the buffer
  have hsize : sizeofPath = 261 := rfl
  induction hk : sizeofPath - pDir.length using Nat.strong_induction_on generalizing fs pDir with
  | _ k ih =>
    have hloop := deleteFound_names hlongest h hnamed hroom
      (fun fs' path hwf hnamed' hlt hle hfinds' hdir' =>
        ih (sizeofPath - path.length) (by omega) hwf hnamed' hle hfinds' hdir' rfl)
      (names fs (resolve pDir)) [] rfl
    rw [List.map_nil, pruneNames_nil, List.nil_append, prune_children h] at hloop
    have hself : stuck locked pDir (resolve pDir) = locked (resolve pDir) :=
      stuck_of_fits (by rw [pathTo_self]; omega)
    rw [ddkDeleteDirectory, dif_neg (Nat.not_lt.2 hroom), findFiles, if_pos ⟨hfinds, hdir⟩]
    simp only
    rw [deleteFound, if_pos (Or.inl rfl), deleteFound, if_pos (Or.inr rfl), hloop]
    exact removeDirectory_pruneInside h hdir hself

/-! ## What is left -/

/-- **Deleting a directory.** In every volume: outside of the directory nothing changes.
At and below it, an entry is left exactly if it, or an entry below it, is in use or has a
path of more than 257 characters; and everything is left if `pDir` is no directory, is itself
longer than 256 characters, or makes a pattern that `FindFirstFile` turns down. -/
theorem deleteDirectory_leaves (longest : ℕ) (hlongest : 259 ≤ longest)
    (locked : List FileName → Bool) (fs : List (Entry FileName))
    (h : WellFormed fs) (hnamed : Named fs) (pDir : List UInt8) (e : Entry FileName) :
    e ∈ ddkDeleteDirectory longest locked fs pDir ↔
      e ∈ fs ∧ (¬ resolve pDir <+: e.path ∨ isDirectory fs (resolve pDir) = false ∨
        256 < pDir.length ∨ longest < pDir.length + 4 ∨
        ∃ e' ∈ fs, e.path <+: e'.path ∧
          (locked e'.path = true ∨ 257 < (pathTo pDir e'.path).length)) := by
  have hsize : sizeofPath = 261 := rfl
  by_cases hroom : pDir.length + 4 ≤ sizeofPath - 1 ∧ pDir.length + 4 ≤ longest
  · have hle : ¬ 256 < pDir.length := by omega
    have hfinds : ¬ longest < pDir.length + 4 := by omega
    cases hdir : isDirectory fs (resolve pDir) with
    | true =>
      rw [deleteDirectory_eq_prune hlongest h hnamed hroom.1 hroom.2 hdir, mem_prune, held_iff]
      simp [stuck_iff, hle, hfinds]
    | false =>
      rw [ddkDeleteDirectory, dif_neg (Nat.not_lt.2 hroom.1), findFiles, hdir]
      simp
  · have hlong : 256 < pDir.length ∨ longest < pDir.length + 4 := by omega
    rw [deleteDirectory_returns hroom]
    exact ⟨fun he => ⟨he, Or.inr (Or.inr (hlong.imp_right Or.inl))⟩, And.left⟩

/-- The directory `T\` with a file `a` in it, and a directory with a long name that holds a
file with a long name: these two stay, and `a` goes. -/
def longNames : List (Entry FileName) :=
  [⟨[[0x54]], true⟩, ⟨[[0x54], [0x61]], false⟩,
    ⟨[[0x54], List.replicate 200 0x62], true⟩,
    ⟨[[0x54], List.replicate 200 0x62, List.replicate 55 0x63], false⟩]

theorem wellFormed_longNames : WellFormed longNames := by
  constructor
  case nodup => decide +kernel
  case rooted => decide +kernel
  case parent =>
    intro e he d a hpath
    have hdir : ∀ e ∈ longNames, isDirectory longNames e.path.dropLast = true := by decide +kernel
    have := hdir e he
    rwa [hpath, List.dropLast_concat] at this

theorem named_longNames : Named longNames := by
  have hnames : ∀ e ∈ longNames, ∀ name ∈ e.path, name ≠ [] ∧ name ≠ [0x2E] ∧
      name ≠ [0x2E, 0x2E] ∧ (∀ c ∈ name, c ≠ 0) ∧ ∀ c ∈ name, ansi.isSep c = false := by
    decide +kernel
  intro e he name hname
  rcases hnames e he name hname with ⟨hnil, hdot, hdots, hnul, hsep⟩
  exact ⟨hnil, hdot, hdots, hnul, hsep⟩

theorem deleteDirectory_leaves_longNames :
    (⟨[[0x54], [0x61]], false⟩ : Entry FileName) ∉
        ddkDeleteDirectory 259 (fun _ => false) longNames [0x54, 0x5C] ∧
      (⟨[[0x54], List.replicate 200 0x62], true⟩ : Entry FileName) ∈
        ddkDeleteDirectory 259 (fun _ => false) longNames [0x54, 0x5C] := by
  constructor
  · rw [deleteDirectory_leaves _ (by decide) _ _ wellFormed_longNames named_longNames]
    decide +kernel
  · rw [deleteDirectory_leaves _ (by decide) _ _ wellFormed_longNames named_longNames]
    decide +kernel

end Wdutf.File
