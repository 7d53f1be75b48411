import Mathlib.Algebra.Group.Nat.Defs
import Mathlib.Data.List.Basic
import Mathlib.Tactic.Common
import Wdutf.Lib.Memory
import Wdutf.Rtl.Unicode

/-!
# Wdutf.Rtl.Append — appending to a counted string, `src/unicode.cpp`

`RtlAppendUnicodeToString` and `RtlAppendUnicodeStringToString` over memory, so that
the source may lie anywhere, in the buffer of the destination too, or be the
destination. The first one narrows `wcslen` to 16 bits before it checks; the second
one compares with `s->Length` in every turn of its loop, which is the field that the
loop advances when `s` is `u`.

* `AllOrNothing` — the whole source is appended, or nothing is changed;
* `appendUnicode_iff`, `appendSelf_iff`, `appendString_iff` — when that holds, for the
  two routines and for the destination appended to itself;
* `append_allOrNothing_iff` — the three together.
-/

namespace Wdutf.Rtl.Append

open Wdutf.Memory

/-- Bytes by address. -/
abbrev Bytes := ℕ → UInt8

/-- `UNICODE_STRING`, with the address of its buffer. -/
structure Descriptor where
  buffer : ℕ
  length : UInt16
  maximumLength : UInt16
deriving DecidableEq

/-- The character at an address. -/
def wchar (m : Bytes) (a : ℕ) : Wchar := UInt16.ofNat ((m a).toNat + 256 * (m (a + 1)).toNat)

/-- A NUL-terminated string in memory; `length` is its `wcslen`. -/
structure WideString (m : Bytes) where
  address : ℕ
  length : ℕ
  nonzero : ∀ i, i < length → wchar m (address + 2 * i) ≠ 0
  terminated : wchar m (address + 2 * length) = 0

/-! ## The routines -/

/-- The characters before the first NUL, at most `count`. -/
def wcsnlen (m : Bytes) (a : ℕ) : ℕ → ℕ
  | 0 => 0
  | count + 1 => if wchar m a = 0 then 0 else wcsnlen m (a + 2) count + 1

/-- What a copy reads and what it writes have a byte in common. -/
def Overlap (dst written src read : ℕ) : Prop := dst < src + read ∧ src < dst + written

instance (dst written src read : ℕ) : Decidable (Overlap dst written src read) :=
  inferInstanceAs (Decidable (_ ∧ _))

/-- `wcsncpy`: the characters before the NUL, and NULs up to `count`. It is undefined
between ranges that overlap. -/
def wcsncpy (m : Bytes) (dst src count : ℕ) : Option Bytes :=
  let n := wcsnlen m src count
  if Overlap dst (2 * count) src (2 * min (n + 1) count) then none
  else some (store m dst (cells m src (2 * n) ++ List.replicate (2 * (count - n)) 0))

/-- `RtlAppendUnicodeToString`: the status, the memory and the destination. -/
def rtlAppendUnicodeToString (m : Bytes) (destination : Descriptor) (source : WideString m) :
    Option (Status × Bytes × Descriptor) :=
  let n : UInt16 := UInt16.ofNat source.length
  if destination.length.toNat + n.toNat * 2 > destination.maximumLength.toNat then
    some (.bufferTooSmall, m, destination)
  else do
    let m' ← wcsncpy m (destination.buffer + 2 * (destination.length.toNat / 2))
      source.address n.toNat
    some (.success, m', { destination with length := destination.length + n * 2 })

/-- The argument `s` of `RtlAppendUnicodeStringToString`: the object `u`, or another one. -/
inductive Source where
  | self
  | other (s : Descriptor)

/-- `*s`, while `*u` is as given. -/
def Source.descriptor (u : Descriptor) : Source → Descriptor
  | .self => u
  | .other s => s

@[simp] theorem descriptor_self (u : Descriptor) : Source.self.descriptor u = u := rfl

@[simp] theorem descriptor_other (u s : Descriptor) : (Source.other s).descriptor u = s := rfl

/-- The loop of `RtlAppendUnicodeStringToString`. -/
def appendLoop (s : Source) (m : Bytes) (u : Descriptor) (i : ℕ) : Bytes × Descriptor :=
  if u.length.toNat < u.maximumLength.toNat ∧ i < (s.descriptor u).length.toNat then
    appendLoop s (write m (u.buffer + u.length.toNat) (m ((s.descriptor u).buffer + i)))
      { u with length := u.length + 1 } (i + 1)
  else (m, u)
termination_by u.maximumLength.toNat - u.length.toNat
decreasing_by
  rename_i hlt
  have hmax := u.maximumLength.toNat_lt
  have hlength : (u.length + 1).toNat = u.length.toNat + 1 := by
    rw [UInt16.toNat_add, UInt16.toNat_one]
    omega
  rw [hlength]
  omega

/-- `RtlAppendUnicodeStringToString`. -/
def rtlAppendUnicodeStringToString (m : Bytes) (u : Descriptor) (s : Source) :
    Option (Status × Bytes × Descriptor) :=
  if u.length.toNat + (s.descriptor u).length.toNat > u.maximumLength.toNat then
    some (.bufferTooSmall, m, u)
  else
    let (m', u') := appendLoop s m u 0
    some (.success, m', u')

/-! ## All or nothing -/

/-- The source, as it was, has been appended. -/
structure Appended (m : Bytes) (u : Descriptor) (source : List UInt8) (m' : Bytes)
    (u' : Descriptor) : Prop where
  contents : cells m' u.buffer u'.length.toNat = cells m u.buffer u.length.toNat ++ source
  length : u'.length.toNat = u.length.toNat + source.length
  fits : u'.length.toNat ≤ u.maximumLength.toNat
  buffer : u'.buffer = u.buffer
  maximumLength : u'.maximumLength = u.maximumLength
  beyond : ∀ a, u.buffer + u'.length.toNat ≤ a → m' a = m a

/-- A call returns, and has appended the whole source or has changed nothing. -/
def AllOrNothing (m : Bytes) (u : Descriptor) (source : List UInt8) :
    Option (Status × Bytes × Descriptor) → Prop
  | some (.success, m', u') => Appended m u source m' u'
  | some (status, m', u') => status = .bufferTooSmall ∧ m' = m ∧ u' = u
  | none => False

theorem allOrNothing_tooSmall (m : Bytes) (u : Descriptor) (source : List UInt8) :
    AllOrNothing m u source (some (.bufferTooSmall, m, u)) := ⟨rfl, rfl, rfl⟩

/-! ## `RtlAppendUnicodeToString` -/

theorem wcsnlen_eq {m : Bytes} {a count : ℕ} (h : ∀ i, i < count → wchar m (a + 2 * i) ≠ 0) :
    wcsnlen m a count = count := by
  induction count generalizing a with
  | zero => rfl
  | succ count ih =>
    have hfirst : wchar m a ≠ 0 := h 0 (by omega)
    unfold wcsnlen
    rw [if_neg hfirst, ih]
    intro i hi
    have := h (i + 1) (by omega)
    rwa [show a + 2 * (i + 1) = a + 2 + 2 * i by omega] at this

/-- `wcsncpy` of characters that are none of them a NUL. -/
theorem wcsncpy_eq {m : Bytes} {dst src count : ℕ}
    (h : ∀ i, i < count → wchar m (src + 2 * i) ≠ 0) :
    wcsncpy m dst src count = if Overlap dst (2 * count) src (2 * count) then none
      else some (store m dst (cells m src (2 * count))) := by
  unfold wcsncpy
  dsimp only
  rw [wcsnlen_eq h, Nat.min_eq_right (by omega), Nat.sub_self, Nat.mul_zero, List.replicate_zero,
    List.append_nil]

/-- Cells stored behind the contents. -/
theorem appended_store {m : Bytes} {u : Descriptor} {source : List UInt8} {length : UInt16}
    (hlength : length.toNat = u.length.toNat + source.length)
    (hfits : length.toNat ≤ u.maximumLength.toNat) :
    Appended m u source (store m (u.buffer + u.length.toNat) source)
      { u with length := length } := by
  constructor
  case contents =>
    show cells _ u.buffer length.toNat = _
    rw [hlength, cells_append, cells_store]
    congr 1
    rw [cells_eq_iff]
    intro i hi
    exact store_of_not_mem (by omega)
  case length => exact hlength
  case fits => exact hfits
  case buffer => rfl
  case maximumLength => rfl
  case beyond =>
    intro a ha
    change u.buffer + length.toNat ≤ a at ha
    exact store_of_not_mem (by omega)

/-- **`RtlAppendUnicodeToString`.** All or nothing, unless the length was cut to 16 bits
and the rest of it fits, or the source runs into the place where it is appended. -/
theorem appendUnicode_iff {m : Bytes} {u : Descriptor} (heven : u.length.toNat % 2 = 0)
    (source : WideString m) :
    AllOrNothing m u (cells m source.address (2 * source.length))
        (rtlAppendUnicodeToString m u source) ↔
      u.maximumLength.toNat < u.length.toNat + 2 * (source.length % 2 ^ 16) ∨
      (source.length < 2 ^ 16 ∧
        ¬ Overlap (u.buffer + u.length.toNat) (2 * source.length)
          source.address (2 * source.length)) := by
  have hmax := u.maximumLength.toNat_lt
  have hn : (UInt16.ofNat source.length).toNat = source.length % 2 ^ 16 := UInt16.toNat_ofNat' ..
  have hle : source.length % 2 ^ 16 ≤ source.length := Nat.mod_le _ _
  unfold rtlAppendUnicodeToString
  by_cases hsmall : u.maximumLength.toNat < u.length.toNat + 2 * (source.length % 2 ^ 16)
  · -- what is left of the length does not fit
    dsimp only
    rw [hn, if_pos (by omega)]
    exact iff_of_true (allOrNothing_tooSmall m u _) (Or.inl hsmall)
  dsimp only
  rw [hn, if_neg (by omega), wcsncpy_eq fun i hi => source.nonzero i (by omega),
    show 2 * (u.length.toNat / 2) = u.length.toNat by omega]
  have hlength : (u.length + UInt16.ofNat source.length * 2).toNat =
      u.length.toNat + 2 * (source.length % 2 ^ 16) := by
    rw [UInt16.toNat_add, UInt16.toNat_mul, hn]
    show (u.length.toNat + source.length % 2 ^ 16 * 2 % 2 ^ 16) % 2 ^ 16 = _
    omega
  constructor
  · intro hall
    refine Or.inr ?_
    by_cases hover : Overlap (u.buffer + u.length.toNat) (2 * (source.length % 2 ^ 16))
        source.address (2 * (source.length % 2 ^ 16))
    · rw [if_pos hover] at hall
      exact hall.elim
    · rw [if_neg hover] at hall
      -- the length that was reported tells that nothing was cut off
      have hsum : (u.length + UInt16.ofNat source.length * 2).toNat =
          u.length.toNat + (cells m source.address (2 * source.length)).length := hall.length
      rw [hlength, length_cells] at hsum
      have hwhole : source.length % 2 ^ 16 = source.length := by omega
      rw [hwhole] at hover
      exact ⟨by omega, hover⟩
  · rintro (h | ⟨hshort, hover⟩)
    · exact absurd h hsmall
    · have hwhole : source.length % 2 ^ 16 = source.length := Nat.mod_eq_of_lt hshort
      rw [hwhole] at hlength hsmall ⊢
      rw [if_neg hover]
      apply appended_store
      · rw [hlength, length_cells]
      · omega

/-! ## `RtlAppendUnicodeStringToString` -/

/-- The destination with another `Length`. -/
def Descriptor.withLength (u : Descriptor) (n : ℕ) : Descriptor :=
  { u with length := UInt16.ofNat n }

theorem toNat_withLength {u : Descriptor} {n : ℕ} (h : n ≤ u.maximumLength.toNat) :
    (u.withLength n).length.toNat = n := by
  have hmax := u.maximumLength.toNat_lt
  show (UInt16.ofNat n).toNat = n
  rw [UInt16.toNat_ofNat', Nat.mod_eq_of_lt (by omega)]

theorem withLength_self (u : Descriptor) : u.withLength u.length.toNat = u := by
  unfold Descriptor.withLength
  rw [UInt16.ofNat_toNat]

/-- A loop that goes on for `n` turns copies `n` bytes in ascending order. -/
theorem appendLoop_copy {s : Source} {m : Bytes} {u : Descriptor} {p n : ℕ}
    (hsrc : ∀ k, (s.descriptor (u.withLength k)).buffer = p)
    (hfit : u.length.toNat + n ≤ u.maximumLength.toNat)
    (hgo : ∀ i, i < n → i < (s.descriptor (u.withLength (u.length.toNat + i))).length.toNat)
    (hstop : u.length.toNat + n = u.maximumLength.toNat ∨
      (s.descriptor (u.withLength (u.length.toNat + n))).length.toNat ≤ n)
    (k i : ℕ) (hk : i + k = n) :
    appendLoop s (copy m (u.buffer + u.length.toNat) p i) (u.withLength (u.length.toNat + i)) i =
      (copy m (u.buffer + u.length.toNat) p n, u.withLength (u.length.toNat + n)) := by
  have hmax := u.maximumLength.toNat_lt
  induction k generalizing i with
  | zero =>
    obtain rfl : i = n := by omega
    unfold appendLoop
    rw [toNat_withLength hfit, if_neg]
    show ¬ (u.length.toNat + i < u.maximumLength.toNat ∧ _)
    omega
  | succ k ih =>
    have hturn := hgo i (by omega)
    unfold appendLoop
    rw [toNat_withLength (by omega), hsrc, if_pos]
    · have hnext : (u.withLength (u.length.toNat + i)).length + 1 =
          UInt16.ofNat (u.length.toNat + (i + 1)) := by
        apply UInt16.toNat_inj.1
        rw [UInt16.toNat_add, toNat_withLength (by omega), UInt16.toNat_ofNat', UInt16.toNat_one]
        omega
      have hstep := ih (i + 1) (by omega)
      rw [copy, Nat.add_assoc] at hstep
      rw [hnext]
      exact hstep
    · show u.length.toNat + i < u.maximumLength.toNat ∧ _
      omega

/-- Bytes copied behind the contents: the append is right if the copy is. -/
theorem appended_copy_iff {m : Bytes} {u : Descriptor} {p n k : ℕ}
    (hfit : u.length.toNat + n ≤ u.maximumLength.toNat) :
    Appended m u (cells m p k) (copy m (u.buffer + u.length.toNat) p n)
        (u.withLength (u.length.toNat + n)) ↔
      n = k ∧ (u.buffer + u.length.toNat ≤ p ∨
        Periodic m (u.buffer + u.length.toNat) p n) := by
  have hlength := toNat_withLength hfit
  have hcontents : cells (copy m (u.buffer + u.length.toNat) p n) u.buffer
      (u.length.toNat + n) = cells m u.buffer u.length.toNat ++
        cells (copy m (u.buffer + u.length.toNat) p n) (u.buffer + u.length.toNat) n := by
    rw [cells_append]
    congr 1
    rw [cells_eq_iff]
    intro i hi
    exact copy_of_not_mem (by omega)
  constructor
  · intro h
    have hsum := h.length
    rw [hlength, length_cells] at hsum
    obtain rfl : n = k := by omega
    have heq := h.contents
    rw [hlength, hcontents] at heq
    exact ⟨rfl, copy_eq_iff.1 (List.append_cancel_left heq)⟩
  · rintro ⟨rfl, hexact⟩
    constructor
    case contents => rw [hlength, hcontents, copy_eq_iff.2 hexact]
    case length => rw [hlength, length_cells]
    case fits => rwa [hlength]
    case buffer => rfl
    case maximumLength => rfl
    case beyond =>
      intro a ha
      rw [hlength] at ha
      exact copy_of_not_mem (by omega)

/-- **The destination appended to itself.** The loop runs to the end of the buffer, so
that the result is right only if the contents are empty, or fill exactly half of the
buffer or more. -/
theorem appendSelf_iff (m : Bytes) {u : Descriptor}
    (hle : u.length.toNat ≤ u.maximumLength.toNat) :
    AllOrNothing m u (cells m u.buffer u.length.toNat)
        (rtlAppendUnicodeStringToString m u .self) ↔
      u.length.toNat = 0 ∨ u.maximumLength.toNat ≤ 2 * u.length.toNat := by
  unfold rtlAppendUnicodeStringToString
  rw [descriptor_self]
  by_cases hsmall : u.length.toNat + u.length.toNat > u.maximumLength.toNat
  · rw [if_pos hsmall]
    exact iff_of_true (allOrNothing_tooSmall m u _) (Or.inr (by omega))
  rw [if_neg hsmall]
  by_cases hzero : u.length.toNat = 0
  · -- nothing to do
    have hloop := appendLoop_copy (s := .self) (m := m) (u := u) (p := u.buffer) (n := 0)
      (fun _ => rfl) (by omega) (fun i hi => absurd hi (Nat.not_lt_zero i)) (Or.inr (by
        show (u.withLength (u.length.toNat + 0)).length.toNat ≤ 0
        rw [toNat_withLength (by omega)]
        omega)) 0 0 rfl
    rw [Nat.add_zero, withLength_self] at hloop
    change appendLoop .self m u 0 = _ at hloop
    have happended := (appended_copy_iff (m := m) (u := u) (p := u.buffer) (n := 0)
      (k := u.length.toNat) (by omega)).2 ⟨hzero.symm, Or.inl (by omega)⟩
    rw [Nat.add_zero, withLength_self] at happended
    rw [hloop]
    exact iff_of_true happended (Or.inl hzero)
  · have hloop := appendLoop_copy (s := .self) (m := m) (u := u) (p := u.buffer)
      (n := u.maximumLength.toNat - u.length.toNat) (fun _ => rfl) (by omega)
      (fun i hi => by
        show i < (u.withLength (u.length.toNat + i)).length.toNat
        rw [toNat_withLength (by omega)]
        omega) (Or.inl (by omega)) _ 0 (Nat.zero_add _)
    rw [Nat.add_zero, withLength_self] at hloop
    change appendLoop .self m u 0 = _ at hloop
    rw [hloop]
    refine (appended_copy_iff (by omega)).trans ⟨?_, ?_⟩
    · rintro ⟨hcount, -⟩
      exact Or.inr (by omega)
    · rintro (h | h)
      · exact absurd h hzero
      · exact ⟨by omega, Or.inr (periodic_of_le (by omega))⟩

/-- **Another string appended.** The loop copies the whole source, which is right unless
the source runs into the place where it is appended and does not repeat itself there. -/
theorem appendString_iff (m : Bytes) {u : Descriptor} (s : Descriptor) :
    AllOrNothing m u (cells m s.buffer s.length.toNat)
        (rtlAppendUnicodeStringToString m u (.other s)) ↔
      u.maximumLength.toNat < u.length.toNat + s.length.toNat ∨
      u.buffer + u.length.toNat ≤ s.buffer ∨
      Periodic m (u.buffer + u.length.toNat) s.buffer s.length.toNat := by
  unfold rtlAppendUnicodeStringToString
  rw [descriptor_other]
  by_cases hsmall : u.length.toNat + s.length.toNat > u.maximumLength.toNat
  · rw [if_pos hsmall]
    exact iff_of_true (allOrNothing_tooSmall m u _) (Or.inl hsmall)
  · have hloop := appendLoop_copy (s := .other s) (m := m) (u := u) (p := s.buffer)
      (n := s.length.toNat) (fun _ => rfl) (by omega) (fun i hi => hi) (Or.inr (le_refl _)) _ 0
      (Nat.zero_add _)
    rw [Nat.add_zero, withLength_self] at hloop
    change appendLoop (.other s) m u 0 = _ at hloop
    rw [if_neg hsmall, hloop]
    refine (appended_copy_iff (by omega)).trans ⟨fun h => Or.inr h.2, ?_⟩
    rintro (h | h)
    · exact absurd h hsmall
    · exact ⟨rfl, h⟩

/-- **All or nothing.** When each of the appends does what it should, for every
destination of whole characters and every source. -/
theorem append_allOrNothing_iff (m : Bytes) (u : Descriptor) (heven : u.length.toNat % 2 = 0)
    (hle : u.length.toNat ≤ u.maximumLength.toNat) :
    (∀ source : WideString m,
      AllOrNothing m u (cells m source.address (2 * source.length))
          (rtlAppendUnicodeToString m u source) ↔
        u.maximumLength.toNat < u.length.toNat + 2 * (source.length % 2 ^ 16) ∨
        (source.length < 2 ^ 16 ∧
          ¬ Overlap (u.buffer + u.length.toNat) (2 * source.length)
            source.address (2 * source.length))) ∧
    (AllOrNothing m u (cells m u.buffer u.length.toNat)
        (rtlAppendUnicodeStringToString m u .self) ↔
      u.length.toNat = 0 ∨ u.maximumLength.toNat ≤ 2 * u.length.toNat) ∧
    ∀ s : Descriptor,
      AllOrNothing m u (cells m s.buffer s.length.toNat)
          (rtlAppendUnicodeStringToString m u (.other s)) ↔
        u.maximumLength.toNat < u.length.toNat + s.length.toNat ∨
        u.buffer + u.length.toNat ≤ s.buffer ∨
        Periodic m (u.buffer + u.length.toNat) s.buffer s.length.toNat :=
  ⟨appendUnicode_iff heven, appendSelf_iff m hle, appendString_iff m⟩

/-- `AB` at address 0, and zeros behind it. -/
def lettersAB : Bytes := fun a => if a = 0 then 0x41 else if a = 2 then 0x42 else 0

/-- `AB` appended to itself in a buffer of eight bytes: the contents fill half of it. -/
theorem append_lettersAB : (4 : UInt16).toNat % 2 = 0 ∧
    AllOrNothing lettersAB ⟨0, 4, 8⟩ (cells lettersAB 0 4)
      (rtlAppendUnicodeStringToString lettersAB ⟨0, 4, 8⟩ .self) :=
  ⟨by decide, (append_allOrNothing_iff lettersAB ⟨0, 4, 8⟩ (by decide) (by decide)).2.1.2
    (Or.inr (by decide))⟩

/-- 65536 times the character 1, and a NUL. -/
def longString : Bytes := fun a => if a < 131072 ∧ a % 2 = 0 then 1 else 0

/-- The string of 65536 characters is appended as an empty one, and `AB` appended to
itself fills a buffer of twelve bytes. -/
theorem append_cuts :
    (∃ source : WideString longString, source.length = 65536 ∧
      ¬ AllOrNothing longString ⟨200000, 0, 2⟩ (cells longString source.address (2 * source.length))
        (rtlAppendUnicodeToString longString ⟨200000, 0, 2⟩ source)) ∧
    ¬ AllOrNothing lettersAB ⟨0, 4, 12⟩ (cells lettersAB 0 4)
      (rtlAppendUnicodeStringToString lettersAB ⟨0, 4, 12⟩ .self) := by
  constructor
  · have hnonzero : ∀ i, i < 65536 → wchar longString (0 + 2 * i) ≠ 0 := by
      intro i hi
      have hlow : longString (0 + 2 * i) = 1 := if_pos (by omega)
      have hhigh : longString (0 + 2 * i + 1) = 0 := if_neg (by omega)
      unfold wchar
      rw [hlow, hhigh]
      decide
    refine ⟨⟨0, 65536, hnonzero, by decide⟩, rfl, ?_⟩
    rw [appendUnicode_iff (by decide)]
    -- nothing is left of the length, and 0 characters fit
    rintro (hsmall | ⟨hshort, -⟩)
    · change 2 < 0 + 2 * (65536 % 2 ^ 16) at hsmall
      omega
    · change 65536 < 2 ^ 16 at hshort
      omega
  · intro hall
    have hhalf := (appendSelf_iff lettersAB (u := ⟨0, 4, 12⟩) (by decide)).1 hall
    exact absurd hhalf (by decide)

end Wdutf.Rtl.Append
