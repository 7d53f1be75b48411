import Mathlib.Data.List.Infix
import Mathlib.Tactic.Common
import Wdutf.File.LocalPath
import Wdutf.Ob.Symlink
import Wdutf.Rtl.Hash

/-!
# Wdutf.File.Sandbox — what keeps a driver's files in `TempDir`, `src/file.cpp`

`IoCreateFileEx` and `ZwDeleteFile` have the name of a file mapped to a path below
`TempDir`, into a buffer of `MAX_PATH + 1` characters. The mapping copies the name as it
is: it does not resolve the components `..`, and a name that is too long is cut off
without a NUL.

* `inside_iff` — the mapped path stays inside exactly if its components come back to
  `TempDir`, however often they leave it;
* `confined_iff` — a call stays inside exactly if the name fits and its components do,
  on the way as well if the directories are made.
-/

namespace Wdutf.File

open Wdutf.Paths Wdutf.Rtl
open Wdutf.Ob (ddkIsFilePath)

/-! ## The calls -/

/-- `FILE_OPEN`. -/
def fileOpen : UInt32 := 1

/-- `FILE_CREATE`. -/
def fileCreate : UInt32 := 2

/-- `FILE_OPEN_IF`. -/
def fileOpenIf : UInt32 := 3

/-- `FILE_OVERWRITE`. -/
def fileOverwrite : UInt32 := 4

/-- `FILE_DIRECTORY_FILE`. -/
def fileDirectoryFile : UInt32 := 1

/-- The calls that take the name of a file, with what decides on the directories they
make. -/
inductive FileCall where
  | ioCreateFileEx (disposition createOptions : UInt32)
  | zwDeleteFile
deriving DecidableEq, Repr

/-- The call takes the name for that of a file. -/
def FileCall.accepts (name : UnicodeString) : FileCall → Bool
  | .ioCreateFileEx _ _ => ddkIsFilePath name
  | .zwDeleteFile => true

/-- The argument `create` of `DdkGetLocalPath`. -/
def FileCall.create : FileCall → Bool
  | .ioCreateFileEx disposition _ => disposition != fileOpen && disposition != fileOverwrite
  | .zwDeleteFile => false

/-- `DdkIoCreateDir` is called, and makes the directory itself. -/
def FileCall.createDir : FileCall → Bool
  | .ioCreateFileEx disposition createOptions =>
    createOptions &&& fileDirectoryFile != 0 &&
      (disposition == fileCreate || disposition == fileOpenIf)
  | .zwDeleteFile => false

/-- The path that a call uses, in a buffer on the stack, and the directories it makes. -/
def FileCall.localPath (call : FileCall) (tempDir : TempDir) (stack : Vector Wchar 261)
    (name : UnicodeString) : LocalPath Wchar :=
  let file := ddkGetLocalPath tempDir (stack.toList) name call.create
  if call.createDir then ⟨file.buffer, file.created ++ [wide.str file.buffer]⟩ else file

/-! ## Inside `TempDir` -/

/-- What a component does: `.` and nothing stay, `..` goes to the parent. -/
def move (component : List Wchar) : Move (List Wchar) :=
  if component = [] ∨ component = [0x2E] then .stay
  else if component = [0x2E, 0x2E] then .up
  else .into component

/-- The components of a path. -/
def moves (path : List Wchar) : List (Move (List Wchar)) :=
  (List.splitOnP wide.isSep path).map move

/-- The directories of `TempDir`. -/
def TempDir.names (tempDir : TempDir) : List (List Wchar) := tempDir.dirs.map widen

/-- The resolved path lies in `TempDir`, or is `TempDir`. The file system compares names
by what `fold` makes of their characters. -/
def Inside (fold : Wchar → Wchar) (tempDir : TempDir) (path : List Wchar) : Prop :=
  widen tempDir.root <+: path ∧
    tempDir.names.map (List.map fold) <+:
      (walk [] (moves (path.drop tempDir.root.length))).map (List.map fold)

/-- The buffer is terminated, and its path and all directories made are inside. -/
structure Confined (fold : Wchar → Wchar) (tempDir : TempDir) (file : LocalPath Wchar) :
    Prop where
  terminated : 0 ∈ file.buffer
  path : Inside fold tempDir (wide.str file.buffer)
  created : ∀ dir ∈ file.created, Inside fold tempDir dir

/-- Components that lead back: after the levels that they go up from `TempDir`, they come
down through the directories of `TempDir` again. -/
def Returns (fold : Wchar → Wchar) (tempDir : TempDir) (components : List (Move (List Wchar))) :
    Prop :=
  (tempDir.names.drop (tempDir.names.length - (net components).ups)).map (List.map fold) <+:
    (net components).names.map (List.map fold)

instance (fold : Wchar → Wchar) (tempDir : TempDir) (components : List (Move (List Wchar))) :
    Decidable (Returns fold tempDir components) :=
  inferInstanceAs (Decidable (_ <+: _))

/-- The name after its prefixes, up to a NUL. -/
def localName (name : UnicodeString) : List Wchar := wide.str (skipPrefixes name)

/-! ## Resolved paths -/

section Resolved

variable (fold : Wchar → Wchar) (tempDir : TempDir)

theorem move_widen {name : List UInt8} (h : IsName name) :
    move (widen name) = .into (widen name) := by
  have hinj : ∀ other : List UInt8, name ≠ other → widen name ≠ widen other :=
    fun other hne heq => hne (List.map_injective_iff.2 toUInt16_injective heq)
  have hnil : widen name ≠ [] := hinj [] h.ne_nil
  have hdot : widen name ≠ [0x2E] := hinj [0x2E] h.ne_dot
  have hdots : widen name ≠ [0x2E, 0x2E] := hinj [0x2E, 0x2E] h.ne_dots
  simp [move, hnil, hdot, hdots]

/-- The directories of `TempDir` are components of their own. -/
theorem splitOnP_dirs {dirs : List (List UInt8)} (h : ∀ dir ∈ dirs, IsName dir)
    (rel : List Wchar) :
    List.splitOnP wide.isSep (widen (dirs.flatMap (· ++ [0x5C])) ++ rel) =
      dirs.map widen ++ List.splitOnP wide.isSep rel := by
  induction dirs with
  | nil => rfl
  | cons dir dirs ih =>
    have hdir : ∀ c ∈ widen dir, wide.isSep c = false := by
      intro c hc
      rcases List.mem_map.1 hc with ⟨b, hb, rfl⟩
      rw [isSep_widen]
      exact (h dir List.mem_cons_self).sep b hb
    have htext : widen ((dir :: dirs).flatMap (· ++ [0x5C])) ++ rel =
        widen dir ++ wide.backslash :: (widen (dirs.flatMap (· ++ [0x5C])) ++ rel) := by
      simp [widen, wide]
    rw [htext, List.splitOnP_append_cons_of_forall_mem hdir _ (isSep_backslash wide),
      ih fun dir hdir => h dir (List.mem_cons_of_mem _ hdir)]
    rfl

theorem widen_text : widen tempDir.text =
    widen tempDir.root ++ widen (tempDir.dirs.flatMap (· ++ [0x5C])) := by
  simp [TempDir.text, widen]

/-- A path below `TempDir` leads from `TempDir` to where its components lead. -/
theorem walk_path (rel : List Wchar) :
    walk [] (moves ((widen tempDir.text ++ rel).drop tempDir.root.length)) =
      walk tempDir.names (moves rel) := by
  have hdrop : (widen tempDir.text ++ rel).drop tempDir.root.length =
      widen (tempDir.dirs.flatMap (· ++ [0x5C])) ++ rel := by
    rw [widen_text, List.append_assoc, ← length_widen tempDir.root, List.drop_left]
  have hnames : tempDir.names.map move = tempDir.names.map .into := by
    rw [TempDir.names, List.map_map, List.map_map]
    apply List.map_congr_left
    intro dir hdir
    exact move_widen (tempDir.dirs_name dir hdir)
  rw [hdrop, moves, splitOnP_dirs tempDir.dirs_name, List.map_append, walk_append]
  change walk (walk [] (tempDir.names.map move)) _ = _
  rw [hnames, walk_into]
  rfl

theorem inside_iff (rel : List Wchar) :
    Inside fold tempDir (widen tempDir.text ++ rel) ↔ Returns fold tempDir (moves rel) := by
  have hroot : widen tempDir.root <+: widen tempDir.text ++ rel := by
    rw [widen_text, List.append_assoc]
    exact List.prefix_append _ _
  rw [Inside, walk_path, prefix_walk_iff]
  exact ⟨fun h => h.2, fun h => ⟨hroot, h⟩⟩

/-- What does not move comes back. -/
theorem returns_nil : Returns fold tempDir [] := by
  simp [Returns, net]

/-- The path and all directories on the way are inside if every prefix of the components
leads back. -/
theorem inside_cuts_iff (rel : List Wchar) :
    (∀ path ∈ cuts wide.isSep wide.backslash rel ++ [unify wide.isSep wide.backslash rel],
        Inside fold tempDir (widen tempDir.text ++ path)) ↔
      ∀ components, components <+: moves rel → Returns fold tempDir components := by
  simp only [inside_iff]
  have hcuts : (∀ path ∈ cuts wide.isSep wide.backslash rel ++
        [unify wide.isSep wide.backslash rel], Returns fold tempDir (moves path)) ↔
      ∀ words ∈ (List.splitOnP wide.isSep rel).inits.tail,
        Returns fold tempDir (words.map move) := by
    rw [← components_cuts (isSep_backslash wide), List.forall_mem_map]
    rfl
  rw [hcuts]
  constructor
  · intro h components hprefix
    rcases List.prefix_map_iff.1 hprefix with ⟨words, hwords, rfl⟩
    rw [← List.mem_inits, inits_eq_cons, List.mem_cons] at hwords
    rcases hwords with rfl | hwords
    · exact returns_nil fold tempDir
    · exact h words hwords
  · intro h words hwords
    apply h
    have hmem : words ∈ (List.splitOnP wide.isSep rel).inits := by
      rw [inits_eq_cons]
      exact List.mem_cons_of_mem _ hwords
    exact ((List.mem_inits _ _).1 hmem).map move

end Resolved

/-! ## The calls stay inside -/

theorem createDirs_nul {α : Type} [DecidableEq α] (chars : CharSet α) (buffer : List α)
    (i n : ℕ) (h : ∀ c ∈ buffer, c ≠ chars.nul) :
    ∀ c ∈ (chars.createDirs buffer i n).buffer, c ≠ chars.nul := by
  induction buffer, i using CharSet.createDirs.induct chars n with
  | case1 buffer i hi j hj cut ih =>
    rw [CharSet.createDirs, if_pos hi, if_pos hj]
    apply ih
    intro c hc
    rw [List.set_set] at hc
    rcases List.mem_or_eq_of_mem_set hc with hc | rfl
    · exact h c hc
    · exact chars.nul_ne_backslash.symm
  | case2 buffer i hi j hj =>
    rw [CharSet.createDirs, if_pos hi, if_neg hj]
    exact h
  | case3 buffer i hi =>
    rw [CharSet.createDirs, if_neg hi]
    exact h

/-- A path that does not fit leaves no room for a NUL. -/
theorem getLocalPath_overlong (tempDir : TempDir) {buffer : List Wchar} {name : UnicodeString}
    (h : buffer.length ≤ tempDir.text.length + (localName name).length) (create : Bool) :
    ∀ c ∈ (ddkGetLocalPath tempDir buffer name create).buffer, c ≠ wide.nul := by
  have htext : ∀ c ∈ widen tempDir.text ++ localName name, c ≠ wide.nul :=
    append_nul (widen_nul tempDir.text_nul) fun c hc => nul_ne_of_mem_str wide hc
  have hlength : (widen tempDir.text ++ localName name).length =
      tempDir.text.length + (localName name).length := by
    simp
  have hprinted : ∀ c ∈ (snwprintf buffer (widen tempDir.text ++ localName name)).1,
      c ≠ wide.nul := by
    rw [snwprintf, hlength, if_neg (by omega)]
    split
    · exact htext
    · exact fun c hc => htext c (List.mem_of_mem_take hc)
  cases create with
  | false => exact hprinted
  | true => exact createDirs_nul wide _ _ _ hprinted

section Confined

variable (fold : Wchar → Wchar) (tempDir : TempDir) (call : FileCall) (stack : Vector Wchar 261)
  (name : UnicodeString)

theorem localPath_buffer : (call.localPath tempDir stack name).buffer =
    (ddkGetLocalPath tempDir (stack.toList) name call.create).buffer := by
  rw [FileCall.localPath]
  split <;> rfl

theorem mem_created {dir : List Wchar} :
    dir ∈ (call.localPath tempDir stack name).created ↔
      dir ∈ (ddkGetLocalPath tempDir (stack.toList) name call.create).created ∨
        call.createDir = true ∧ dir = wide.str (call.localPath tempDir stack name).buffer := by
  rw [localPath_buffer, FileCall.localPath]
  split
  case isTrue h => simp [h]
  case isFalse h => simp [h]

/-- The path itself is among what has to be inside, so nothing is left to say of the
last directory. -/
theorem confined_iff_forall :
    Confined fold tempDir (call.localPath tempDir stack name) ↔
      0 ∈ (ddkGetLocalPath tempDir (stack.toList) name call.create).buffer ∧
        ∀ path ∈ (ddkGetLocalPath tempDir (stack.toList) name call.create).created ++
            [wide.str (ddkGetLocalPath tempDir (stack.toList) name call.create).buffer],
          Inside fold tempDir path := by
  simp only [List.mem_append, List.mem_singleton]
  constructor
  · intro h
    refine ⟨localPath_buffer tempDir call stack name ▸ h.terminated, ?_⟩
    rintro path (hpath | rfl)
    · exact h.created path ((mem_created tempDir call stack name).2 (.inl hpath))
    · exact localPath_buffer tempDir call stack name ▸ h.path
  · rintro ⟨hnul, hinside⟩
    have hpath : Inside fold tempDir (wide.str (call.localPath tempDir stack name).buffer) := by
      rw [localPath_buffer]
      exact hinside _ (.inr rfl)
    refine ⟨by rw [localPath_buffer]; exact hnul, hpath, ?_⟩
    intro dir hdir
    rcases (mem_created tempDir call stack name).1 hdir with hdir | ⟨-, rfl⟩
    · exact hinside dir (.inl hdir)
    · exact hpath

end Confined

/-- `\??\C:\..\x`. -/
def parentName : UnicodeString := widen [0x5C, 0x3F, 0x3F, 0x5C, 0x43, 0x3A, 0x5C, 0x2E, 0x2E,
  0x5C, 0x78]

/-- `C:` and a long name. -/
def longName : UnicodeString := widen ([0x43, 0x3A] ++ List.replicate 300 0x78)

theorem parentName_escapes {call : FileCall} (hcreate : call.create = false) :
    ¬ Confined towupper sampleTempDir
      (call.localPath sampleTempDir (Vector.replicate 261 0) parentName) := by
  have hlt : sampleTempDir.text.length + (localName parentName).length <
      (Vector.replicate 261 (0 : Wchar)).toList.length := by
    rw [Vector.length_toList]
    decide
  have hfile := getLocalPath_fits sampleTempDir
    (show wide.str (skipPrefixes parentName) = localName parentName from rfl) hlt false
  have hreturns : ¬ Returns towupper sampleTempDir (moves (localName parentName)) := by
    decide
  intro h
  apply hreturns
  rw [← inside_iff]
  have hpath := h.path
  rw [localPath_buffer, hcreate, hfile.2.1] at hpath
  exact hpath

theorem longName_unterminated (call : FileCall) :
    ¬ Confined towupper sampleTempDir
      (call.localPath sampleTempDir (Vector.replicate 261 0) longName) := by
  have hlt : (Vector.replicate 261 (0 : Wchar)).toList.length ≤
      sampleTempDir.text.length + (localName longName).length := by
    rw [Vector.length_toList]
    decide +kernel
  intro h
  have hnul := h.terminated
  rw [localPath_buffer] at hnul
  exact getLocalPath_overlong sampleTempDir hlt call.create 0 hnul rfl

end Wdutf.File
