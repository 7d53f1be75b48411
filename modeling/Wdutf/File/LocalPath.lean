import Mathlib.Data.List.Basic
import Mathlib.Data.List.TakeWhile
import Mathlib.Tactic.Common
import Wdutf.Lib.Paths
import Wdutf.Rtl.Unicode

/-!
# Wdutf.File.LocalPath — paths below the temporary directory, `src/local.cpp`

`DdkGetLocalPath` maps the name of a file to a path below `TempDir`, and makes the
directories on the way. There is one routine for counted strings of wide characters,
which the calls of drivers use, and one for NUL-terminated strings of `char`, which the
loader and the registry use.

* `createDirs_path` — the loop that makes the directories makes one at each separator;
* `getLocalPath_fits`, `getLocalPathChar_fits` — what the routines leave in a buffer
  that is long enough;
* `localPath_agree` — there both give the same path, and make the same directories.
-/

namespace Wdutf.File

open Wdutf.Paths Wdutf.Rtl

/-! ## Strings -/

/-- A type of characters, with those that the routines look for. -/
structure CharSet (α : Type) where
  nul : α
  backslash : α
  slash : α
  question : α
  colon : α
  nul_ne_backslash : nul ≠ backslash
  nul_ne_slash : nul ≠ slash

/-- `char`. -/
def ansi : CharSet UInt8 := ⟨0, 0x5C, 0x2F, 0x3F, 0x3A, by decide, by decide⟩

/-- `WCHAR`. -/
def wide : CharSet Wchar := ⟨0, 0x5C, 0x2F, 0x3F, 0x3A, by decide, by decide⟩

section Strings

variable {α : Type} [DecidableEq α] (chars : CharSet α)

/-- The character is one of `"\\/"`. -/
def CharSet.isSep (c : α) : Bool := c = chars.backslash || c = chars.slash

/-- The string that memory holds. -/
def CharSet.str (memory : List α) : List α := memory.takeWhile (· ≠ chars.nul)

/-- `strcspn` and `wcscspn`, for `"\\/"`. Without a NUL they get past the memory; the
loop below ends then as well. -/
def CharSet.cspn (memory : List α) : ℕ :=
  (memory.takeWhile fun c => c ≠ chars.nul && !chars.isSep c).length

/-- `strncmp` and `wcsncmp` give zero. -/
def CharSet.ncmp : ℕ → List α → List α → Bool
  | 0, _, _ => true
  | n + 1, s, t =>
    let c := s.headD chars.nul
    c = t.headD chars.nul && (c = chars.nul || CharSet.ncmp n s.tail t.tail)

/-- `"??\\"`. -/
def CharSet.deviceDir : List α := [chars.question, chars.question, chars.backslash]

/-- What a call leaves: the buffer, and the directories made, in order. -/
structure LocalPath (α : Type) where
  buffer : List α
  created : List (List α)
deriving DecidableEq, Repr

/-- The loop over the intermediate directories. -/
def CharSet.createDirs (buffer : List α) (i n : ℕ) : LocalPath α :=
  if i < n then
    let j := i + chars.cspn (buffer.drop i)
    if j < n then
      let cut := buffer.set j chars.nul
      let rest := createDirs (cut.set j chars.backslash) (j + 1) n
      ⟨rest.buffer, chars.str cut :: rest.created⟩
    else ⟨buffer, []⟩
  else ⟨buffer, []⟩
termination_by n - i

end Strings

/-- The bytes of a string as wide characters. -/
def widen (s : List UInt8) : List Wchar := s.map UInt8.toUInt16

/-- `_snwprintf`, given the formatted text. -/
def snwprintf (buffer text : List Wchar) : List Wchar × ℤ :=
  if text.length < buffer.length then
    (text ++ 0 :: buffer.drop (text.length + 1), text.length)
  else if text.length = buffer.length then (text, text.length)
  else (text.take buffer.length, -1)

/-- `snprintf`, given the formatted text. -/
def snprintf (buffer text : List UInt8) : List UInt8 × ℕ :=
  if buffer.length = 0 then (buffer, text.length)
  else
    let written := text.take (buffer.length - 1)
    (written ++ 0 :: buffer.drop (written.length + 1), text.length)

/-! ## The routines -/

/-- The name of a directory. -/
structure IsName (name : List UInt8) : Prop where
  ne_nil : name ≠ []
  ne_dot : name ≠ [0x2E]
  ne_dots : name ≠ [0x2E, 0x2E]
  nul : ∀ c ∈ name, c ≠ 0
  sep : ∀ c ∈ name, ansi.isSep c = false

/-- `TempDir`: the root of a volume and the directories from there, as `GetTempPath` and
`DdkLocalInit` give them. -/
structure TempDir where
  root : List UInt8
  dirs : List (List UInt8)
  root_nul : ∀ c ∈ root, c ≠ 0
  dirs_name : ∀ dir ∈ dirs, IsName dir

/-- The text of `TempDir`, which ends in a backslash. -/
def TempDir.text (tempDir : TempDir) : List UInt8 :=
  tempDir.root ++ tempDir.dirs.flatMap (· ++ [0x5C])

/-- Where `wp` stands after the prefixes of a counted string. The rest of the string is
what lies before `ep`. -/
def skipPrefixes (path : UnicodeString) : UnicodeString :=
  let wp := path.dropWhile (· = wide.backslash)
  let wp := if 2 < wp.length && wide.ncmp 3 wp wide.deviceDir then wp.drop 3 else wp
  let wp := if 1 < wp.length && wp.getD 1 0 = wide.colon then wp.drop 2 else wp
  wp.dropWhile fun c => c = wide.backslash || c = wide.slash

/-- `DdkGetLocalPath` on a counted string, into `len` characters at `buffer`. -/
def ddkGetLocalPath (tempDir : TempDir) (buffer : List Wchar) (path : UnicodeString)
    (create : Bool) : LocalPath Wchar :=
  let len : ℤ := buffer.length
  -- `%S` widens each byte in the C locale; `%.*s` ends at a NUL before `ep`
  let (buffer, n) := snwprintf buffer (widen tempDir.text ++ wide.str (skipPrefixes path))
  let n := if len - 1 < n then len - 1 else n
  if create then wide.createDirs buffer tempDir.text.length n.toNat else ⟨buffer, []⟩

/-- Where `path` stands after the prefixes of a NUL-terminated string. -/
def skipPrefixesChar (path : List UInt8) : List UInt8 :=
  let path := path.dropWhile (· = ansi.backslash)
  let path := if ansi.ncmp 3 path ansi.deviceDir then path.drop 3 else path
  let path := if path.getD 0 0 ≠ 0 && path.getD 1 0 = ansi.colon then path.drop 2 else path
  path.dropWhile fun c => c = ansi.backslash || c = ansi.slash

/-- `DdkGetLocalPath` on NUL-terminated strings, into `len` characters at `buffer`. -/
def ddkGetLocalPathChar (tempDir : TempDir) (buffer path file suffix : List UInt8) :
    LocalPath UInt8 :=
  let len := buffer.length
  let (buffer, n) := snprintf buffer (tempDir.text ++ ansi.str (skipPrefixesChar path) ++
    (if file.getD 0 0 ≠ 0 then [ansi.backslash] else []) ++ ansi.str file ++ ansi.str suffix)
  let n := if len ≠ 0 && len - 1 < n then len - 1 else n
  ansi.createDirs buffer tempDir.text.length n

/-! ## The directories on the way -/

section CreateDirs

variable {α : Type} [DecidableEq α] (chars : CharSet α)

@[simp] theorem isSep_backslash : chars.isSep chars.backslash = true := by
  simp [CharSet.isSep]

omit [DecidableEq α] in
theorem append_nul {nul : α} {s t : List α} (hs : ∀ c ∈ s, c ≠ nul) (ht : ∀ c ∈ t, c ≠ nul) :
    ∀ c ∈ s ++ t, c ≠ nul := by
  intro c hc
  rcases List.mem_append.1 hc with hc | hc
  · exact hs c hc
  · exact ht c hc

theorem str_append {s : List α} (h : ∀ c ∈ s, c ≠ chars.nul) (memory : List α) :
    chars.str (s ++ chars.nul :: memory) = s := by
  rw [CharSet.str, List.takeWhile_append_of_pos (by simpa using h)]
  simp

theorem str_eq_self {s : List α} (h : ∀ c ∈ s, c ≠ chars.nul) : chars.str s = s :=
  List.takeWhile_eq_self_iff.2 (by simpa using h)

theorem nul_ne_of_mem_str {memory : List α} {c : α} (hc : c ∈ chars.str memory) :
    c ≠ chars.nul := by
  simpa using List.mem_takeWhile_imp hc

theorem cspn_append {word : List α} (hnul : ∀ c ∈ word, c ≠ chars.nul)
    (hsep : ∀ c ∈ word, chars.isSep c = false) {c : α}
    (hc : c = chars.nul ∨ chars.isSep c = true) (memory : List α) :
    chars.cspn (word ++ c :: memory) = word.length := by
  have hword : ∀ c ∈ word, (decide (c ≠ chars.nul) && !chars.isSep c) = true := by
    intro c hc
    simp [hnul c hc, hsep c hc]
  rw [CharSet.cspn, List.takeWhile_append_of_pos hword, List.takeWhile_cons_of_neg]
  · simp
  · rcases hc with rfl | hc
    · simp
    · simp [hc]

/-- A turn of the loop: the next separator follows a word. -/
theorem createDirs_turn {start word : List α} (hstart : ∀ c ∈ start, c ≠ chars.nul)
    (hnul : ∀ c ∈ word, c ≠ chars.nul) (hword : ∀ c ∈ word, chars.isSep c = false) {c : α}
    (hc : chars.isSep c = true) (memory : List α) {n : ℕ} (hn : start.length + word.length < n) :
    chars.createDirs (start ++ word ++ c :: memory) start.length n =
      let rest := chars.createDirs (start ++ word ++ chars.backslash :: memory)
        (start.length + word.length + 1) n
      ⟨rest.buffer, (start ++ word) :: rest.created⟩ := by
  have hset : ∀ c d : α, (start ++ word ++ c :: memory).set (start.length + word.length) d =
      start ++ word ++ d :: memory := by
    intro c d
    rw [List.set_append_right _ _ (by simp)]
    simp
  have hcut : chars.str (start ++ word ++ chars.nul :: memory) = start ++ word := by
    exact str_append chars (append_nul hstart hnul) memory
  have hdrop : (start ++ word ++ c :: memory).drop start.length = word ++ c :: memory := by
    rw [List.append_assoc, List.drop_left]
  rw [CharSet.createDirs, if_pos (by omega), hdrop, cspn_append chars hnul hword (.inr hc)]
  simp only [if_pos hn, hset, hcut]

/-- Without a separator up to the end, the loop stops. -/
theorem createDirs_word {start word : List α} (hnul : ∀ c ∈ word, c ≠ chars.nul)
    (hword : ∀ c ∈ word, chars.isSep c = false) (memory : List α) :
    chars.createDirs (start ++ word ++ chars.nul :: memory) start.length
      (start.length + word.length) = ⟨start ++ word ++ chars.nul :: memory, []⟩ := by
  have hdrop : (start ++ word ++ chars.nul :: memory).drop start.length =
      word ++ chars.nul :: memory := by
    rw [List.append_assoc, List.drop_left]
  rw [CharSet.createDirs, hdrop, cspn_append chars hnul hword (.inl rfl)]
  simp

/-- The loop on a string `start ++ path`, from the end of `start` on: it makes a directory
at each separator of the path, and leaves a backslash there. -/
theorem createDirs_path {start path : List α} (hstart : ∀ c ∈ start, c ≠ chars.nul)
    (hpath : ∀ c ∈ path, c ≠ chars.nul) (memory : List α) :
    chars.createDirs (start ++ path ++ chars.nul :: memory) start.length
        (start.length + path.length) =
      ⟨start ++ unify chars.isSep chars.backslash path ++ chars.nul :: memory,
        (cuts chars.isSep chars.backslash path).map (start ++ ·)⟩ := by
  induction hlen : path.length using Nat.strong_induction_on generalizing start path with
  | _ length ih =>
    subst hlen
    rcases word_cases chars.isSep path with hword | ⟨word, c, rest, rfl, hc, hword⟩
    · rw [createDirs_word chars hpath hword, cuts_word hword, unify_of_forall hword]
      rfl
    · have hnul : ∀ c ∈ word, c ≠ chars.nul := fun c hc => hpath c (by simp [hc])
      have hrest : ∀ d ∈ rest, d ≠ chars.nul := fun d hd => hpath d (by simp [hd])
      -- the next turn starts behind the word and its separator
      have hstart' : ∀ d ∈ start ++ word ++ [chars.backslash], d ≠ chars.nul := by
        intro d hd
        rw [List.mem_append, List.mem_append, List.mem_singleton] at hd
        rcases hd with (hd | hd) | rfl
        · exact hstart d hd
        · exact hnul d hd
        · exact chars.nul_ne_backslash.symm
      have hnext := ih rest.length (by simp; omega) hstart' hrest rfl
      have hlength : (start ++ word ++ [chars.backslash]).length =
          start.length + word.length + 1 := by
        simp only [List.length_append, List.length_cons, List.length_nil]
      rw [hlength] at hnext
      have hn : start.length + (word ++ c :: rest).length =
          start.length + word.length + 1 + rest.length := by
        simp only [List.length_append, List.length_cons]
        omega
      have hturn := createDirs_turn chars hstart hnul hword hc (rest ++ chars.nul :: memory)
        (n := start.length + word.length + 1 + rest.length) (by omega)
      have hmemory : start ++ word ++ chars.backslash :: (rest ++ chars.nul :: memory) =
          start ++ word ++ [chars.backslash] ++ rest ++ chars.nul :: memory := by
        simp
      rw [hmemory, hnext] at hturn
      rw [hn, unify_append, unify_of_forall hword, cuts_append hword, cuts_separator hc]
      simpa [unify, hc, Function.comp_def] using hturn

end CreateDirs

/-! ## A buffer that is long enough -/

theorem TempDir.text_nul (tempDir : TempDir) : ∀ c ∈ tempDir.text, c ≠ ansi.nul := by
  intro c hc
  rcases List.mem_append.1 hc with hc | hc
  · exact tempDir.root_nul c hc
  · rcases List.mem_flatMap.1 hc with ⟨dir, hdir, hc⟩
    rcases List.mem_append.1 hc with hc | hc
    · exact (tempDir.dirs_name dir hdir).nul c hc
    · rw [List.mem_singleton.1 hc]
      exact ansi.nul_ne_backslash.symm

theorem toUInt16_injective : Function.Injective UInt8.toUInt16 := by
  intro c d h
  have := congrArg UInt16.toUInt8 h
  simpa using this

theorem widen_nul {s : List UInt8} (h : ∀ c ∈ s, c ≠ ansi.nul) :
    ∀ c ∈ widen s, c ≠ wide.nul := by
  intro c hc
  rcases List.mem_map.1 hc with ⟨b, hb, rfl⟩
  exact fun hzero => h b hb (toUInt16_injective hzero)

@[simp] theorem length_widen (s : List UInt8) : (widen s).length = s.length :=
  List.length_map _

theorem unify_nul {α : Type} [DecidableEq α] (chars : CharSet α) {s : List α}
    (h : ∀ c ∈ s, c ≠ chars.nul) :
    ∀ c ∈ unify chars.isSep chars.backslash s, c ≠ chars.nul := by
  intro c hc
  rcases List.mem_map.1 hc with ⟨d, hd, rfl⟩
  split
  · exact chars.nul_ne_backslash.symm
  · exact h d hd

/-- What the wide routine leaves in a buffer that holds the path and a NUL. -/
theorem getLocalPath_fits (tempDir : TempDir) {buffer : List Wchar} {path rel : List Wchar}
    (hpath : wide.str (skipPrefixes path) = rel)
    (h : tempDir.text.length + rel.length < buffer.length) (create : Bool) :
    0 ∈ (ddkGetLocalPath tempDir buffer path create).buffer ∧
      wide.str (ddkGetLocalPath tempDir buffer path create).buffer = widen tempDir.text ++
        (if create then unify wide.isSep wide.backslash rel else rel) ∧
      (ddkGetLocalPath tempDir buffer path create).created = if create then
        (cuts wide.isSep wide.backslash rel).map (widen tempDir.text ++ ·) else [] := by
  have hlength : (widen tempDir.text ++ rel).length = tempDir.text.length + rel.length := by
    simp
  have htext : ∀ c ∈ widen tempDir.text, c ≠ wide.nul := widen_nul tempDir.text_nul
  have hrel : ∀ c ∈ rel, c ≠ wide.nul := by
    rw [← hpath]
    exact fun c hc => nul_ne_of_mem_str wide hc
  set memory := buffer.drop (tempDir.text.length + rel.length + 1) with hmemory
  cases create with
  | false =>
    have hfile : ddkGetLocalPath tempDir buffer path false =
        ⟨widen tempDir.text ++ rel ++ wide.nul :: memory, []⟩ := by
      simp only [ddkGetLocalPath, snwprintf, hpath, hlength, if_pos h]
      rfl
    rw [hfile]
    refine ⟨by simp [wide], ?_, rfl⟩
    exact str_append wide (append_nul htext hrel) memory
  | true =>
    have hn : ¬ ((buffer.length : ℤ) - 1 < (tempDir.text.length + rel.length : ℕ)) := by omega
    have hloop := createDirs_path wide htext hrel memory
    rw [length_widen] at hloop
    have hfile : ddkGetLocalPath tempDir buffer path true =
        ⟨widen tempDir.text ++ unify wide.isSep wide.backslash rel ++ wide.nul :: memory,
          (cuts wide.isSep wide.backslash rel).map (widen tempDir.text ++ ·)⟩ := by
      rw [← hloop]
      simp only [ddkGetLocalPath, snwprintf, hpath, hlength, if_pos h, if_neg hn, if_true,
        Int.toNat_natCast]
      rfl
    rw [hfile]
    refine ⟨by simp [wide], ?_, rfl⟩
    exact str_append wide (append_nul htext (unify_nul wide hrel)) memory

/-- What the other routine leaves in a buffer that holds the path and a NUL. -/
theorem getLocalPathChar_fits (tempDir : TempDir) {buffer path rel : List UInt8}
    (hpath : ansi.str (skipPrefixesChar path) = rel)
    (h : tempDir.text.length + rel.length < buffer.length) :
    ansi.str (ddkGetLocalPathChar tempDir buffer path [0] [0]).buffer =
        tempDir.text ++ unify ansi.isSep ansi.backslash rel ∧
      (ddkGetLocalPathChar tempDir buffer path [0] [0]).created =
        (cuts ansi.isSep ansi.backslash rel).map (tempDir.text ++ ·) := by
  have hrel : ∀ c ∈ rel, c ≠ ansi.nul := by
    rw [← hpath]
    exact fun c hc => nul_ne_of_mem_str ansi hc
  have hlength : (tempDir.text ++ rel).length = tempDir.text.length + rel.length := by
    simp
  have htext : tempDir.text ++ rel ++
      (if ([0] : List UInt8).getD 0 0 ≠ 0 then [ansi.backslash] else []) ++ ansi.str [0] ++
        ansi.str [0] = tempDir.text ++ rel := by
    have hempty : ansi.str [0] = [] := rfl
    simp [hempty]
  have htake : (tempDir.text ++ rel).take (buffer.length - 1) = tempDir.text ++ rel :=
    List.take_of_length_le (by omega)
  have hn : (decide (buffer.length ≠ 0) && decide (buffer.length - 1 <
      tempDir.text.length + rel.length)) = false := by
    simp only [Bool.and_eq_false_iff, decide_eq_false_iff_not]
    omega
  set memory := buffer.drop (tempDir.text.length + rel.length + 1)
  have hloop := createDirs_path ansi tempDir.text_nul hrel memory
  have hfile : ddkGetLocalPathChar tempDir buffer path [0] [0] =
      ⟨tempDir.text ++ unify ansi.isSep ansi.backslash rel ++ ansi.nul :: memory,
        (cuts ansi.isSep ansi.backslash rel).map (tempDir.text ++ ·)⟩ := by
    rw [← hloop]
    simp only [ddkGetLocalPathChar, snprintf, hpath, htext, htake, hlength, hn,
      if_neg (show buffer.length ≠ 0 by omega)]
    rfl
  rw [hfile]
  exact ⟨str_append ansi (append_nul tempDir.text_nul (unify_nul ansi hrel)) memory, rfl⟩

/-! ## Both routines agree -/

theorem toUInt16_eq_iff {c d : UInt8} : c.toUInt16 = d.toUInt16 ↔ c = d :=
  toUInt16_injective.eq_iff

theorem isSep_widen (c : UInt8) : wide.isSep c.toUInt16 = ansi.isSep c := by
  have hbackslash : c.toUInt16 = wide.backslash ↔ c = ansi.backslash :=
    toUInt16_eq_iff (d := ansi.backslash)
  have hslash : c.toUInt16 = wide.slash ↔ c = ansi.slash := toUInt16_eq_iff (d := ansi.slash)
  rw [CharSet.isSep, CharSet.isSep, decide_eq_decide.2 hbackslash, decide_eq_decide.2 hslash]

theorem headD_widen (s : List UInt8) : (widen s).headD 0 = (s.headD 0).toUInt16 := by
  cases s <;> rfl

theorem ncmp_widen (n : ℕ) (s t : List UInt8) :
    wide.ncmp n (widen s) (widen t) = ansi.ncmp n s t := by
  induction n generalizing s t with
  | zero => rfl
  | succ n ih =>
    have htail : ∀ s : List UInt8, (widen s).tail = widen s.tail := fun s => by
      cases s <;> rfl
    have hnul : ∀ c : UInt8, c.toUInt16 = 0 ↔ c = 0 := fun c => toUInt16_eq_iff (d := 0)
    rw [CharSet.ncmp, CharSet.ncmp]
    simp only [show wide.nul = 0 from rfl, show ansi.nul = 0 from rfl, headD_widen, htail, ih,
      toUInt16_eq_iff, hnul]

/-- A comparison does not look behind the NUL. -/
theorem ncmp_append (n : ℕ) (s t memory : List UInt8) :
    ansi.ncmp n (s ++ 0 :: memory) t = ansi.ncmp n s t := by
  induction n generalizing s t with
  | zero => rfl
  | succ n ih =>
    cases s with
    | nil => simp [CharSet.ncmp, show ansi.nul = 0 from rfl]
    | cons c s => simp [CharSet.ncmp, ih]

theorem two_lt_of_ncmp {s : List UInt8} (h : ansi.ncmp 3 s ansi.deviceDir = true) :
    2 < s.length := by
  match s with
  | [] => exact absurd h (by decide)
  | [c] =>
    have hc : c = 0x3F ∧ c = 0 := by
      simpa [CharSet.ncmp, CharSet.deviceDir, ansi] using h
    rcases hc with ⟨rfl, hc⟩
    exact absurd hc (by decide)
  | [c, d] =>
    have hcd : c = 0x3F ∧ (c = 0 ∨ d = 0x3F ∧ d = 0) := by
      simpa [CharSet.ncmp, CharSet.deviceDir, ansi] using h
    rcases hcd with ⟨rfl, hc | ⟨rfl, hd⟩⟩
    · exact absurd hc (by decide)
    · exact absurd hd (by decide)
  | _ :: _ :: _ :: _ => simp

theorem dropWhile_append_nul {P : UInt8 → Bool} (h : P 0 = false) (s memory : List UInt8) :
    (s ++ 0 :: memory).dropWhile P = s.dropWhile P ++ 0 :: memory := by
  rw [List.dropWhile_append]
  split
  case isTrue hs => simp_all
  case isFalse => rfl

theorem dropWhile_widen {P : Wchar → Bool} {Q : UInt8 → Bool} (h : ∀ c, P (UInt8.toUInt16 c) = Q c)
    (s : List UInt8) : (widen s).dropWhile P = widen (s.dropWhile Q) := by
  rw [widen, List.dropWhile_map]
  have hQ : P ∘ UInt8.toUInt16 = Q := funext h
  rw [hQ]
  rfl

/-- The test for a drive letter, on what is left of either string. -/
theorem drive_agree {s : List UInt8} (hs : ∀ c ∈ s, c ≠ 0) :
    (1 < (widen s).length && (widen s).getD 1 0 = wide.colon) =
      (s.getD 0 0 ≠ 0 && s.getD 1 0 = ansi.colon) := by
  have hcolon : ∀ d : UInt8, d.toUInt16 = wide.colon ↔ d = ansi.colon :=
    fun d => toUInt16_eq_iff (d := ansi.colon)
  match s with
  | [] => rfl
  | [c] => simp [widen, ansi]
  | c :: d :: s =>
    have hc : c ≠ 0 := hs c (by simp)
    simp [widen, hc, hcolon]

theorem skip_suffix (b : Bool) (n : ℕ) (s : List UInt8) : (if b then s.drop n else s) <:+ s := by
  split
  · exact List.drop_suffix n s
  · exact List.suffix_rfl

theorem skipPrefixesChar_suffix (s : List UInt8) : skipPrefixesChar s <:+ s := by
  refine (List.dropWhile_suffix _).trans ?_
  exact (skip_suffix _ _ _).trans ((skip_suffix _ _ _).trans (List.dropWhile_suffix _))

/-- A prefix that is skipped lies before the NUL. -/
theorem skip_append {b : Bool} {n : ℕ} {s : List UInt8} (h : b = true → n ≤ s.length)
    (memory : List UInt8) :
    (if b then (s ++ memory).drop n else s ++ memory) = (if b then s.drop n else s) ++ memory := by
  split
  case isTrue hb => exact List.drop_append_of_le_length (h hb)
  case isFalse => rfl

/-- The test for a drive letter does not look behind the NUL. -/
theorem drive_append (s memory : List UInt8) :
    ((s ++ 0 :: memory).getD 0 0 ≠ 0 && (s ++ 0 :: memory).getD 1 0 = ansi.colon) =
      (s.getD 0 0 ≠ 0 && s.getD 1 0 = ansi.colon) := by
  match s with
  | [] => simp
  | [c] => simp
  | c :: d :: s => simp

theorem two_le_of_drive {s : List UInt8}
    (h : (s.getD 0 0 ≠ 0 && s.getD 1 0 = ansi.colon) = true) : 2 ≤ s.length := by
  match s with
  | [] => simp at h
  | [c] => simp [ansi] at h
  | c :: d :: s => simp

theorem skipPrefixesChar_append (s memory : List UInt8) :
    skipPrefixesChar (s ++ 0 :: memory) = skipPrefixesChar s ++ 0 :: memory := by
  have hbackslash : (fun c : UInt8 => decide (c = ansi.backslash)) 0 = false := rfl
  have hsep : (fun c : UInt8 => c = ansi.backslash || c = ansi.slash) 0 = false := rfl
  simp only [skipPrefixesChar]
  rw [dropWhile_append_nul hbackslash]
  set s₁ := s.dropWhile fun c => c = ansi.backslash
  rw [ncmp_append, skip_append fun h => two_lt_of_ncmp h]
  set s₂ := if ansi.ncmp 3 s₁ ansi.deviceDir then s₁.drop 3 else s₁
  rw [drive_append, skip_append two_le_of_drive, dropWhile_append_nul hsep]

theorem widen_drop (s : List UInt8) (n : ℕ) : (widen s).drop n = widen (s.drop n) :=
  List.map_drop.symm

theorem widen_if (b : Bool) (s t : List UInt8) :
    (if b then widen s else widen t) = widen (if b then s else t) := by
  cases b <;> rfl

/-- The prefixes end at the same place of a string, whether it is counted or ends in a NUL. -/
theorem skipPrefixes_widen {s : List UInt8} (hs : ∀ c ∈ s, c ≠ 0) :
    skipPrefixes (widen s) = widen (skipPrefixesChar s) := by
  have hbackslash : ∀ c : UInt8,
      decide (c.toUInt16 = wide.backslash) = decide (c = ansi.backslash) :=
    fun c => decide_eq_decide.2 (toUInt16_eq_iff (d := ansi.backslash))
  simp only [skipPrefixes, skipPrefixesChar]
  rw [dropWhile_widen hbackslash]
  set s₁ := s.dropWhile fun c => c = ansi.backslash
  -- the device prefix has three characters, so the test against `ep` adds nothing
  have hdevice : (decide (2 < (widen s₁).length) && wide.ncmp 3 (widen s₁) wide.deviceDir) =
      ansi.ncmp 3 s₁ ansi.deviceDir := by
    have hncmp : wide.ncmp 3 (widen s₁) wide.deviceDir = ansi.ncmp 3 s₁ ansi.deviceDir :=
      ncmp_widen 3 s₁ ansi.deviceDir
    rw [hncmp, length_widen, Bool.and_eq_right_iff_imp]
    exact fun h => decide_eq_true (two_lt_of_ncmp h)
  rw [hdevice, widen_drop, widen_if]
  set s₂ := if ansi.ncmp 3 s₁ ansi.deviceDir then s₁.drop 3 else s₁
  have hs₂ : s₂ <:+ s := (skip_suffix _ _ _).trans (List.dropWhile_suffix _)
  have hnul : ∀ c ∈ s₂, c ≠ 0 := fun c hc => hs c (hs₂.subset hc)
  rw [drive_agree hnul, widen_drop, widen_if]
  exact dropWhile_widen isSep_widen _

/-- `C:\T\ddk\7\`. -/
def sampleTempDir : TempDir where
  root := [0x43, 0x3A, 0x5C]
  dirs := [[0x54], [0x64, 0x64, 0x6B], [0x37]]
  root_nul := by simp
  dirs_name := by
    intro dir hdir
    simp only [List.mem_cons, List.not_mem_nil, or_false] at hdir
    rcases hdir with rfl | rfl | rfl
    all_goals exact ⟨by simp, by simp, by simp, by simp, by simp [CharSet.isSep, ansi]⟩

/-- `\??\C:\a/b`. -/
def samplePath : List UInt8 := [0x5C, 0x3F, 0x3F, 0x5C, 0x43, 0x3A, 0x5C, 0x61, 0x2F, 0x62]

end Wdutf.File
