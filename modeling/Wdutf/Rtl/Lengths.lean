import Mathlib.Algebra.Group.Nat.Defs
import Mathlib.Data.List.Basic
import Mathlib.Tactic.Common
import Wdutf.Rtl.Ansi
import Wdutf.Rtl.Integer

/-!
# Wdutf.Rtl.Lengths — lengths and buffers, `src/unicode.cpp`

The routines that fill a counted string, and what they leave: a `Length` that
`MaximumLength` does not exceed, and nothing written behind the buffer. Writing behind
the buffer shows as bytes that were changed at `MaximumLength` or later.

* `Within`, `AnsiWithin` — the invariant, for a destination with the buffer that the
  call was given or has allocated;
* `convert_bounds` — `mbstowcs` and `wcstombs` keep to their count;
* `wcstombs_fails_iff` — in the C locale `wcstombs` fails on a character above 255;
* `lengths_within_iff` — four routines keep the invariant, and
  `RtlUnicodeStringToAnsiString`, which stores the -1 of a failure as `Length`, does so
  exactly when the conversion does not fail.
-/

namespace Wdutf.Rtl

/-- The bytes of characters in memory. -/
def toBytes : List Wchar → List UInt8
  | [] => []
  | c :: cs => UInt8.ofNat c.toNat :: UInt8.ofNat (c.toNat / 256) :: toBytes cs

theorem toBytes_append (cs ds : List Wchar) : toBytes (cs ++ ds) = toBytes cs ++ toBytes ds := by
  induction cs with
  | nil => rfl
  | cons c cs ih => simp [toBytes, ih]

theorem length_toBytes (cs : List Wchar) : (toBytes cs).length = 2 * cs.length := by
  induction cs with
  | nil => rfl
  | cons c cs ih =>
    rw [toBytes, List.length_cons, List.length_cons, List.length_cons, ih]
    omega

theorem toBytes_drop (n : ℕ) (cs : List Wchar) :
    toBytes (cs.drop n) = (toBytes cs).drop (2 * n) := by
  induction n generalizing cs with
  | zero => rfl
  | succ n ih =>
    cases cs with
    | nil => simp [toBytes]
    | cons c cs =>
      rw [List.drop_succ_cons, ih]
      rfl

/-! ## Copying and upcasing -/

/-- The low byte of one character and the high byte of another. -/
def mixBytes (low high : Wchar) : Wchar :=
  UInt16.ofNat (low.toNat % 256 + 256 * (high.toNat / 256))

/-- The loop of `RtlCopyUnicodeString`, for `n` bytes: the last one of an odd number goes
into the low half of a character. There is no result when the source is read behind
its end. -/
def copyBytes : ℕ → List Wchar → List Wchar → Option (List Wchar)
  | 0, _, dst => some dst
  | _ + 1, [], _ => none
  | 1, c :: _, dst => some (mixBytes c (dst.headD 0) :: dst.drop 1)
  | n + 2, c :: src, dst => (copyBytes n src (dst.drop 1)).map (c :: ·)

theorem copyBytes_length {n : ℕ} {src dst cs : List Wchar} (h : copyBytes n src dst = some cs) :
    dst.length ≤ cs.length := by
  induction n, src, dst using copyBytes.induct generalizing cs with
  | case1 src dst =>
    injection h with h
    rw [h]
  | case2 => cases h
  | case3 c src dst =>
    injection h with h
    rw [← h, List.length_cons, List.length_drop]
    omega
  | case4 n c src dst ih =>
    unfold copyBytes at h
    rcases Option.map_eq_some_iff.1 h with ⟨rest, hrest, rfl⟩
    have := ih hrest
    rw [List.length_drop] at this
    rw [List.length_cons]
    omega

/-- `RtlCopyUnicodeString`; the source may be `NULL`. -/
def rtlCopyUnicodeString (u : UnicodeBuffer) : Option UnicodeBuffer → Option UnicodeBuffer
  | none => some { u with length := 0 }
  | some s =>
    let i := min u.maximumLength.toNat s.length.toNat
    match h : copyBytes i s.buffer u.buffer with
    | none => none
    | some cs =>
      have hlength := copyBytes_length h
      some
        { buffer := cs
          length := UInt16.ofNat i
          maximumLength := u.maximumLength
          capacity := by
            have := u.capacity
            omega }

/-- `RtlUpcaseUnicodeString`. The tests and mappings of single characters are those of
the C runtime. -/
def rtlUpcaseUnicodeString (crt : Crt) (iswlower : Wchar → Bool) (towupper : Wchar → Wchar)
    (destinationString sourceString : UnicodeBuffer) (allocateDestinationString : Bool) :
    Option (Status × UnicodeBuffer) :=
  let dest := if allocateDestinationString then
    destinationString.allocate crt sourceString.length.toNat else destinationString
  if dest.maximumLength < sourceString.length then some (.bufferTooSmall, dest)
  else
    let wlen := sourceString.length.toNat / 2
    if wlen ≤ sourceString.buffer.length then
      let chars := (sourceString.buffer.take wlen).map
        fun ch => if iswlower ch then towupper ch else ch
      some (.success, dest.write chars sourceString.length)
    else none

/-! ## The invariant -/

/-- What a call may leave of a destination with the buffer of `d`. -/
structure Within (d r : UnicodeBuffer) : Prop where
  length_le : r.length.toNat ≤ r.maximumLength.toNat
  maximumLength_le : r.maximumLength.toNat ≤ 2 * d.buffer.length
  size_eq : r.buffer.length = d.buffer.length
  outside : (toBytes r.buffer).drop r.maximumLength.toNat =
    (toBytes d.buffer).drop r.maximumLength.toNat

/-- The same for an `ANSI_STRING`. -/
structure AnsiWithin (d r : AnsiString) : Prop where
  length_le : r.length.toNat ≤ r.maximumLength.toNat
  maximumLength_le : r.maximumLength.toNat ≤ d.buffer.length
  size_eq : r.buffer.length = d.buffer.length
  outside : r.buffer.drop r.maximumLength.toNat = d.buffer.drop r.maximumLength.toNat

/-- What lies behind the part that was written. -/
theorem drop_overwrite {α : Type} {xs : List α} {n : ℕ} (h : xs.length ≤ n) (ys : List α) :
    (xs ++ ys.drop xs.length).drop n = ys.drop n := by
  obtain ⟨k, rfl⟩ := Nat.exists_eq_add_of_le h
  rw [← List.drop_drop, List.drop_left, List.drop_drop]

/-- Characters that fit are written inside the buffer. -/
theorem within_write {d : UnicodeBuffer} {chars : List Wchar} {length : UInt16}
    (hchars : 2 * chars.length ≤ d.maximumLength.toNat)
    (hlength : length.toNat ≤ d.maximumLength.toNat) : Within d (d.write chars length) := by
  have hcapacity := d.capacity
  constructor
  case length_le => exact hlength
  case maximumLength_le => exact hcapacity
  case size_eq =>
    show (chars ++ d.buffer.drop chars.length).length = _
    rw [List.length_append, List.length_drop]
    omega
  case outside =>
    show (toBytes (chars ++ d.buffer.drop chars.length)).drop d.maximumLength.toNat = _
    rw [toBytes_append, toBytes_drop, ← length_toBytes]
    exact drop_overwrite (by rwa [length_toBytes]) _

theorem ansiWithin_write {d : AnsiString} {chars : List UInt8} {length : UInt16}
    (hchars : chars.length ≤ d.maximumLength.toNat) :
    AnsiWithin d (d.write chars length) ↔ length.toNat ≤ d.maximumLength.toNat := by
  have hcapacity := d.capacity
  constructor
  · intro h
    exact h.length_le
  · intro hlength
    constructor
    case length_le => exact hlength
    case maximumLength_le => exact hcapacity
    case size_eq =>
      show (chars ++ d.buffer.drop chars.length).length = _
      rw [List.length_append, List.length_drop]
      omega
    case outside =>
      exact drop_overwrite hchars d.buffer

/-! ## Four routines that keep it -/

/-- Copied bytes lie before the end of the count. -/
theorem copyBytes_outside {n : ℕ} {src dst cs : List Wchar} (h : copyBytes n src dst = some cs)
    (hn : n ≤ 2 * dst.length) :
    cs.length = dst.length ∧ (toBytes cs).drop n = (toBytes dst).drop n := by
  induction n, src, dst using copyBytes.induct generalizing cs with
  | case1 src dst =>
    injection h with h
    rw [h]
    exact ⟨rfl, rfl⟩
  | case2 => cases h
  | case3 c src dst =>
    injection h with h
    subst h
    cases dst with
    | nil => simp at hn
    | cons d dst =>
      refine ⟨rfl, ?_⟩
      -- the high byte of the character is the old one
      have hhigh : (mixBytes c d).toNat / 256 = d.toNat / 256 := by
        have := d.toNat_lt
        unfold mixBytes
        rw [UInt16.toNat_ofNat']
        omega
      show UInt8.ofNat ((mixBytes c d).toNat / 256) :: toBytes dst = _ :: toBytes dst
      rw [hhigh]
  | case4 n c src dst ih =>
    unfold copyBytes at h
    rcases Option.map_eq_some_iff.1 h with ⟨rest, hrest, rfl⟩
    cases dst with
    | nil => simp at hn
    | cons d dst =>
      rw [List.length_cons] at hn
      rcases ih hrest (by rw [List.drop_succ_cons, List.drop_zero]; omega) with ⟨hlength, hbytes⟩
      rw [List.drop_succ_cons, List.drop_zero] at hlength hbytes
      refine ⟨by rw [List.length_cons, List.length_cons, hlength], ?_⟩
      simpa [toBytes] using hbytes

theorem within_copy {u r : UnicodeBuffer} {s : Option UnicodeBuffer}
    (h : rtlCopyUnicodeString u s = some r) : Within u r := by
  have hcapacity := u.capacity
  have hmax := u.maximumLength.toNat_lt
  unfold rtlCopyUnicodeString at h
  split at h
  · injection h with h
    subst h
    exact ⟨Nat.zero_le _, hcapacity, rfl, rfl⟩
  · rename_i s
    dsimp only at h
    split at h
    · cases h
    · rename_i cs hcs
      injection h with h
      subst h
      rcases copyBytes_outside hcs (by omega) with ⟨hsize, hbytes⟩
      constructor
      case length_le =>
        show (UInt16.ofNat (min u.maximumLength.toNat s.length.toNat)).toNat ≤ _
        rw [UInt16.toNat_ofNat']
        show _ ≤ u.maximumLength.toNat
        omega
      case maximumLength_le => exact hcapacity
      case size_eq => exact hsize
      case outside =>
        obtain ⟨k, hk⟩ := Nat.exists_eq_add_of_le
          (Nat.min_le_left u.maximumLength.toNat s.length.toNat)
        show (toBytes cs).drop u.maximumLength.toNat = (toBytes u.buffer).drop u.maximumLength.toNat
        rw [hk, ← List.drop_drop, hbytes, List.drop_drop]

theorem within_upcase {crt : Crt} {iswlower : Wchar → Bool} {towupper : Wchar → Wchar}
    {u s r : UnicodeBuffer} {allocate : Bool}
    (h : rtlUpcaseUnicodeString crt iswlower towupper u s allocate = some (.success, r)) :
    Within (if allocate then u.allocate crt s.length.toNat else u) r := by
  unfold rtlUpcaseUnicodeString at h
  dsimp only at h
  generalize (if allocate then u.allocate crt s.length.toNat else u) = d at h ⊢
  split at h
  · cases h
  · rename_i hfits
    rw [UInt16.lt_iff_toNat_lt] at hfits
    split at h
    · rename_i hread
      cases h
      apply within_write
      · rw [List.length_map, List.length_take]
        omega
      · omega
    · cases h

theorem within_integer {val base : UInt32} {u r : UnicodeBuffer}
    (h : rtlIntegerToUnicodeString val base u = (.success, r)) : Within u r := by
  have hmax := u.maximumLength.toNat_lt
  unfold rtlIntegerToUnicodeString at h
  split at h
  · cases h
  · dsimp only at h
    split at h
    · cases h
    · rename_i hfits
      cases h
      apply within_write
      · omega
      · rw [UInt16.toNat_ofNat']
        omega

/-- `mbstowcs` and `wcstombs` write and count no more than they are told to. -/
theorem convert_bounds {α β : Type} [DecidableEq α] [OfNat α 0] [OfNat β 0] {f : α → Option β}
    {n : ℕ} {src : List α} {r : Option ℕ} {w : List β} (h : convert f n src = some (r, w)) :
    w.length ≤ n ∧ ∀ k, r = some k → k ≤ n := by
  induction n generalizing src r w with
  | zero =>
    cases h
    exact ⟨Nat.le_refl 0, fun k hk => by cases hk; exact Nat.le_refl 0⟩
  | succ n ih =>
    cases src with
    | nil => cases h
    | cons c src =>
      unfold convert at h
      split at h
      · cases h
        exact ⟨by simp, fun k hk => by cases hk; exact Nat.zero_le _⟩
      · split at h
        · cases h
          exact ⟨Nat.zero_le _, fun k hk => by cases hk⟩
        · rcases Option.map_eq_some_iff.1 h with ⟨⟨r', w'⟩, hrest, heq⟩
          cases heq
          rcases ih hrest with ⟨hw, hr⟩
          refine ⟨by simpa using hw, fun k hk => ?_⟩
          rcases Option.map_eq_some_iff.1 hk with ⟨k', hk', rfl⟩
          have := hr k' hk'
          omega

/-- The conversions of the C locale: bytes are characters, and there are no others. -/
structure Crt.CLocale (crt : Crt) : Prop where
  mbtowc : ∀ b, crt.mbtowc b = some b.toUInt16
  wctomb : ∀ c, crt.wctomb c = if c < 256 then some c.toUInt8 else none

/-- A conversion that cannot fail does not. -/
theorem convert_isSome {α β : Type} [DecidableEq α] [OfNat α 0] [OfNat β 0] {f : α → Option β}
    (hf : ∀ c, f c ≠ none) {n : ℕ} {src : List α} {r : Option ℕ} {w : List β}
    (h : convert f n src = some (r, w)) : ∃ k, r = some k := by
  induction n generalizing src r w with
  | zero =>
    cases h
    exact ⟨0, rfl⟩
  | succ n ih =>
    cases src with
    | nil => cases h
    | cons c src =>
      unfold convert at h
      split at h
      · cases h
        exact ⟨0, rfl⟩
      · split at h
        · rename_i hnone
          exact absurd hnone (hf c)
        · rcases Option.map_eq_some_iff.1 h with ⟨⟨r', w'⟩, hrest, heq⟩
          cases heq
          rcases ih hrest with ⟨k, hk⟩
          exact ⟨k + 1, by rw [hk]; rfl⟩

theorem within_ansiToUnicode {crt : Crt} (hcrt : crt.CLocale) {u r : UnicodeBuffer}
    {s : AnsiString} {allocate : Bool}
    (h : rtlAnsiStringToUnicodeString crt u s allocate = some (.success, r)) :
    Within (if allocate then u.allocate crt (rtlAnsiStringToUnicodeSize s) else u) r := by
  unfold rtlAnsiStringToUnicodeString at h
  dsimp only at h
  generalize (if allocate then u.allocate crt (rtlAnsiStringToUnicodeSize s) else u) = d at h ⊢
  have hmax := d.maximumLength.toNat_lt
  split at h
  · cases h
  split at h
  · cases h
  split at h
  · cases h
  · rename_i count written hconvert
    cases h
    have hsome := convert_isSome (fun c => by rw [hcrt.mbtowc]; simp) hconvert
    rcases convert_bounds hconvert with ⟨hwritten, hcount⟩
    rcases hsome with ⟨k, rfl⟩
    have := hcount k rfl
    apply within_write
    · omega
    · rw [sizeT, UInt16.toNat_ofNat']
      omega

/-! ## `RtlUnicodeStringToAnsiString` -/

/-- A conversion fails at the first character that it cannot convert, if that lies within
the count and no NUL comes before it. -/
theorem convert_fails_iff {α β : Type} [DecidableEq α] [OfNat α 0] [OfNat β 0]
    {f : α → Option β} {n : ℕ} {src : List α} :
    (∃ w, convert f n src = some (none, w)) ↔
      ∃ i, i < n ∧ ∃ c, src[i]? = some c ∧ c ≠ 0 ∧ f c = none ∧ ∀ j, j < i → src[j]? ≠ some 0 := by
  induction n generalizing src with
  | zero =>
    refine iff_of_false ?_ ?_
    · rintro ⟨w, hw⟩
      cases hw
    · rintro ⟨i, hi, -⟩
      exact absurd hi (Nat.not_lt_zero i)
  | succ n ih =>
    cases src with
    | nil =>
      refine iff_of_false ?_ ?_
      · rintro ⟨w, hw⟩
        cases hw
      · rintro ⟨i, -, c, hc, -⟩
        simp at hc
    | cons c src =>
      unfold convert
      by_cases hzero : c = 0
      · -- a NUL ends the conversion
        rw [if_pos hzero]
        refine iff_of_false ?_ ?_
        · rintro ⟨w, hw⟩
          cases hw
        · rintro ⟨i, -, c', hc', hne, -, hbefore⟩
          cases i with
          | zero =>
            rw [List.getElem?_cons_zero, hzero] at hc'
            exact hne (Option.some.inj hc').symm
          | succ i =>
            apply hbefore 0 (by omega)
            rw [List.getElem?_cons_zero, hzero]
      rw [if_neg hzero]
      cases hf : f c with
      | none =>
        refine iff_of_true ⟨[], rfl⟩ ⟨0, by omega, c, rfl, hzero, hf, ?_⟩
        intro j hj
        exact absurd hj (Nat.not_lt_zero j)
      | some c' =>
        dsimp only
        constructor
        · rintro ⟨w, hw⟩
          rcases Option.map_eq_some_iff.1 hw with ⟨⟨r, w'⟩, hrest, heq⟩
          have hr : r = none := Option.map_eq_none_iff.1 (Prod.mk.inj heq).1
          subst hr
          rcases ih.1 ⟨w', hrest⟩ with ⟨i, hi, d, hd, hne, hfd, hbefore⟩
          refine ⟨i + 1, by omega, d, hd, hne, hfd, fun j hj => ?_⟩
          cases j with
          | zero =>
            intro hj0
            exact hzero (Option.some.inj hj0)
          | succ j => exact hbefore j (by omega)
        · rintro ⟨i, hi, d, hd, hne, hfd, hbefore⟩
          cases i with
          | zero =>
            rw [List.getElem?_cons_zero] at hd
            rw [Option.some.inj hd, hfd] at hf
            cases hf
          | succ i =>
            have hrest := ih.2 ⟨i, by omega, d, hd, hne, hfd,
              fun j hj => hbefore (j + 1) (by omega)⟩
            rcases hrest with ⟨w, hw⟩
            refine ⟨c' :: w, ?_⟩
            rw [hw]
            rfl

/-- The destination with the buffer that the call was given or has allocated. -/
def AnsiString.target (crt : Crt) (d : AnsiString) (s : UnicodeBuffer) (allocate : Bool) :
    AnsiString :=
  if allocate then d.allocate crt ((rtlxUnicodeStringToAnsiSize crt s).getD 0) else d

/-- The source can be sized, the size is accepted, and a character above 255 comes before
any NUL in the part of the source's memory that `wcstombs` goes through. -/
def ConversionFails (crt : Crt) (d : AnsiString) (s : UnicodeBuffer) (allocate : Bool) : Prop :=
  ∃ len, rtlxUnicodeStringToAnsiSize crt s = some len ∧
    (allocate = true ∨ len ≤ d.maximumLength.toNat) ∧
    ∃ i, i < (d.target crt s allocate).maximumLength.toNat ∧
      ∃ c, s.buffer[i]? = some c ∧ 256 ≤ c ∧ ∀ j, j < i → s.buffer[j]? ≠ some 0

theorem wctomb_eq_none {crt : Crt} (hcrt : crt.CLocale) {c : Wchar} :
    c ≠ 0 ∧ crt.wctomb c = none ↔ 256 ≤ c := by
  rw [hcrt.wctomb]
  simp only [UInt16.lt_iff_toNat_lt, UInt16.le_iff_toNat_le]
  constructor
  · rintro ⟨-, hnone⟩
    by_contra hlt
    rw [if_pos (by omega)] at hnone
    cases hnone
  · intro hle
    refine ⟨?_, if_neg (by omega)⟩
    rintro rfl
    exact absurd hle (by decide)

/-- `wcstombs` in the C locale fails on a character above 255. -/
theorem wcstombs_fails_iff {crt : Crt} (hcrt : crt.CLocale) {src : List Wchar} {n : ℕ} :
    (∃ w, wcstombs crt src n = some (none, w)) ↔
      ∃ i, i < n ∧ ∃ c, src[i]? = some c ∧ 256 ≤ c ∧ ∀ j, j < i → src[j]? ≠ some 0 := by
  unfold wcstombs
  rw [convert_fails_iff]
  constructor
  · rintro ⟨i, hi, c, hc, hne, hnone, hbefore⟩
    exact ⟨i, hi, c, hc, (wctomb_eq_none hcrt).1 ⟨hne, hnone⟩, hbefore⟩
  · rintro ⟨i, hi, c, hc, hle, hbefore⟩
    rcases (wctomb_eq_none hcrt).2 hle with ⟨hne, hnone⟩
    exact ⟨i, hi, c, hc, hne, hnone, hbefore⟩

/-- What the call reports as a success, by the result of `wcstombs`. -/
theorem unicodeToAnsi_success_iff {crt : Crt} {d r : AnsiString} {s : UnicodeBuffer}
    {allocate : Bool} :
    rtlUnicodeStringToAnsiString crt d s allocate = some (.success, r) ↔
      ∃ len, rtlxUnicodeStringToAnsiSize crt s = some len ∧
        (allocate = true ∨ len ≤ d.maximumLength.toNat) ∧
        ∃ count written, wcstombs crt s.buffer (d.target crt s allocate).maximumLength.toNat =
            some (count, written) ∧
          r = (d.target crt s allocate).write written (UInt16.ofNat (sizeT count)) := by
  unfold rtlUnicodeStringToAnsiString AnsiString.target
  cases hsize : rtlxUnicodeStringToAnsiSize crt s with
  | none => simp
  | some len =>
    dsimp only [Option.getD_some]
    by_cases hsmall : ¬ allocate = true ∧ len > (if allocate then d.allocate crt len
        else d).maximumLength.toNat
    · rw [if_pos hsmall]
      refine iff_of_false (fun h => by cases h) ?_
      rintro ⟨len', hlen, hfits, -⟩
      cases hlen
      rcases hsmall with ⟨hgiven, hlarge⟩
      rw [if_neg hgiven] at hlarge
      rcases hfits with halloc | hle
      · exact hgiven halloc
      · omega
    · rw [if_neg hsmall]
      have hfits : allocate = true ∨ len ≤ d.maximumLength.toNat := by
        by_cases halloc : allocate = true
        · exact Or.inl halloc
        · rw [if_neg halloc] at hsmall
          exact Or.inr (Nat.le_of_not_lt fun hlt => hsmall ⟨halloc, hlt⟩)
      cases hconvert : wcstombs crt s.buffer (if allocate then d.allocate crt len
          else d).maximumLength.toNat with
      | none => simp
      | some result =>
        rcases result with ⟨count, written⟩
        dsimp only
        constructor
        · intro h
          cases h
          exact ⟨len, rfl, hfits, count, written, rfl, rfl⟩
        · rintro ⟨len', -, -, count', written', heq, hr⟩
          cases heq
          rw [hr]

/-- The invariant holds exactly when the conversion does not fail; a failure is stored as
the length 65535, which only the largest buffer has room for. -/
theorem within_unicodeToAnsi_iff {crt : Crt} (hcrt : crt.CLocale) (d : AnsiString)
    (s : UnicodeBuffer) (allocate : Bool) :
    (∀ r, rtlUnicodeStringToAnsiString crt d s allocate = some (.success, r) →
        AnsiWithin (d.target crt s allocate) r) ↔
      ¬ (ConversionFails crt d s allocate ∧
        (d.target crt s allocate).maximumLength.toNat < 0xFFFF) := by
  constructor
  · rintro hall ⟨⟨len, hsize, hfits, hchar⟩, hmax⟩
    rcases (wcstombs_fails_iff hcrt).2 hchar with ⟨written, hfails⟩
    have hwithin := hall _ (unicodeToAnsi_success_iff.2
      ⟨len, hsize, hfits, none, written, hfails, rfl⟩)
    rw [ansiWithin_write (convert_bounds hfails).1] at hwithin
    have hlength : (UInt16.ofNat (sizeT none)).toNat = 0xFFFF := by decide
    omega
  · intro hok r hr
    rcases unicodeToAnsi_success_iff.1 hr with ⟨len, hsize, hfits, count, written, hrun, rfl⟩
    rcases convert_bounds hrun with ⟨hwritten, hcount⟩
    rw [ansiWithin_write hwritten]
    cases count with
    | none =>
      have hchar := (wcstombs_fails_iff hcrt).1 ⟨written, hrun⟩
      have hlarge : ¬ (d.target crt s allocate).maximumLength.toNat < 0xFFFF :=
        fun hmax => hok ⟨⟨len, hsize, hfits, hchar⟩, hmax⟩
      have hlength : (UInt16.ofNat (sizeT none)).toNat = 0xFFFF := by decide
      omega
    | some k =>
      have hk := hcount k rfl
      rw [sizeT, UInt16.toNat_ofNat']
      exact (Nat.mod_le _ _).trans hk

/-- **Lengths and buffers.** In the C locale, four of the routines leave a `Length` that
`MaximumLength` does not exceed and write inside the buffer only, and
`RtlUnicodeStringToAnsiString` does so exactly when its conversion does not fail. -/
theorem lengths_within_iff (crt : Crt) (hcrt : crt.CLocale) :
    (∀ u s r, rtlCopyUnicodeString u s = some r → Within u r) ∧
    (∀ iswlower towupper u s allocate r,
      rtlUpcaseUnicodeString crt iswlower towupper u s allocate = some (.success, r) →
        Within (if allocate then u.allocate crt s.length.toNat else u) r) ∧
    (∀ val base u r, rtlIntegerToUnicodeString val base u = (.success, r) → Within u r) ∧
    (∀ u s allocate r, rtlAnsiStringToUnicodeString crt u s allocate = some (.success, r) →
      Within (if allocate then u.allocate crt (rtlAnsiStringToUnicodeSize s) else u) r) ∧
    ∀ d s allocate,
      (∀ r, rtlUnicodeStringToAnsiString crt d s allocate = some (.success, r) →
        AnsiWithin (d.target crt s allocate) r) ↔
      ¬ (ConversionFails crt d s allocate ∧
        (d.target crt s allocate).maximumLength.toNat < 0xFFFF) :=
  ⟨fun _ _ _ => within_copy, fun _ _ _ _ _ _ => within_upcase, fun _ _ _ _ => within_integer,
    fun _ _ _ _ => within_ansiToUnicode hcrt, within_unicodeToAnsi_iff hcrt⟩

theorem crtC_cLocale : crtC.CLocale := ⟨fun _ => rfl, fun _ => rfl⟩

/-- The letter U+0100, a NUL behind it. -/
def aMacron : UnicodeBuffer := ⟨[0x100, 0], 2, 4, by decide⟩

/-- A destination of one byte. -/
def oneByte : AnsiString := ⟨[0xCD], 0, 1, by decide⟩

/-- The letters `AB`, a NUL behind them. -/
def letters : UnicodeBuffer := ⟨[0x41, 0x42, 0], 4, 6, by decide⟩

/-- A destination of three bytes. -/
def threeBytes : AnsiString := ⟨[0xCD, 0xCD, 0xCD], 0, 3, by decide⟩

/-- Two letters and the NUL fill the destination. -/
theorem lengths_within_letters : crtC.CLocale ∧
    rtlUnicodeStringToAnsiString crtC threeBytes letters false =
      some (.success, threeBytes.write [0x41, 0x42, 0] 2) ∧
    AnsiWithin (threeBytes.target crtC letters false) (threeBytes.write [0x41, 0x42, 0] 2) := by
  refine ⟨crtC_cLocale, rfl, ?_⟩
  apply ((lengths_within_iff crtC crtC_cLocale).2.2.2.2 threeBytes letters false).2 _ _ rfl
  rintro ⟨⟨len, -, -, i, -, c, hc, hle, -⟩, -⟩
  have hmem : c ∈ ([0x41, 0x42, 0] : List Wchar) := List.mem_of_getElem? hc
  simp only [List.mem_cons, List.not_mem_nil, or_false] at hmem
  rcases hmem with rfl | rfl | rfl <;> exact absurd hle (by decide)

/-- U+0100 is converted to a string of 65535 bytes in a buffer of two. -/
theorem length_beyond_maximumLength :
    ¬ ∀ r, rtlUnicodeStringToAnsiString crtC oneByte aMacron true = some (.success, r) →
      AnsiWithin (oneByte.target crtC aMacron true) r := by
  rw [within_unicodeToAnsi_iff crtC_cLocale, not_not]
  refine ⟨⟨2, rfl, Or.inl rfl, 0, by decide, 0x100, rfl, by decide, ?_⟩, by decide⟩
  intro j hj
  exact absurd hj (Nat.not_lt_zero j)

end Wdutf.Rtl
