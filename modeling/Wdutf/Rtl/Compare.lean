import Mathlib.Data.List.Basic
import Mathlib.Data.List.Lex
import Mathlib.Data.Prod.Lex
import Mathlib.Data.Int.Basic
import Mathlib.Tactic.Common
import Wdutf.Rtl.Unicode

/-!
# Wdutf.Rtl.Compare — the order of counted strings, `src/unicode.cpp`

`RtlCompareUnicodeString` with the lengths and the casts of the source: the lengths
are bytes and may be odd, their difference is taken as a `SIZE_T`, cast to `ULONG`
and returned as a `LONG`. The folding of `_wcsnicmp` is a parameter.

* `orderKey` — what the comparison sees of a string: its folded characters through
  the first NUL, and its length in bytes;
* `rtlCompareUnicodeString_key` — the result has the sign of the lexicographic
  comparison of the keys;
* `rtlCompareUnicodeString_preorder` — so it is a total preorder;
* `rtlCompareUnicodeString_toInt` — on strings of whole characters it is the
  comparison of `Wdutf.Rtl.Unicode`.
-/

namespace Wdutf.Rtl.Compare

/-- `UNICODE_STRING` as a reader sees it: the memory at `Buffer` holds the whole
characters that `Length`, a number of bytes, counts. -/
structure CountedString where
  buffer : List Wchar
  length : UInt16
  holds : length.toNat / 2 ≤ buffer.length

/-- The characters that `Length` counts; the last byte of an odd `Length` is in none. -/
def CountedString.chars (u : CountedString) : UnicodeString := u.buffer.take (u.length.toNat / 2)

variable (fold : Wchar → Wchar)

/-- `RtlCompareUnicodeStrings`; `fold` is the mapping that `_wcsnicmp` applies to each
character. -/
def rtlCompareUnicodeStrings (string1 : List Wchar) (string1Length : UInt64)
    (string2 : List Wchar) (string2Length : UInt64) (ign : Bool) : Int32 :=
  let l := if string1Length < string2Length then string1Length else string2Length
  let rc : Int32 :=
    if l ≠ 0 then
      if ign then Int32.ofInt (wcsncmpBy fold (l / 2).toNat string1 string2)
      else Int32.ofInt (wcsncmpBy id (l / 2).toNat string1 string2)
    else 0
  if rc ≠ 0 then rc else (string1Length - string2Length).toUInt32.toInt32

/-- `RtlCompareUnicodeString`. -/
def rtlCompareUnicodeString (u1 u2 : CountedString) (ign : Bool) : Int32 :=
  rtlCompareUnicodeStrings fold u1.buffer u1.length.toUInt64 u2.buffer u2.length.toUInt64 ign

/-! ## The comparison of the characters -/

/-- A key of a list of characters: the order of the keys is that of `wcsncmp`. -/
def charKey (f : Wchar → Wchar) (s : UnicodeString) : List ℕ :=
  (throughNul (s.map f)).map UInt16.toNat

variable {fold} {f : Wchar → Wchar}

theorem charKey_cons (c : Wchar) (s : UnicodeString) :
    charKey f (c :: s) = (f c).toNat :: if f c = 0 then [] else charKey f s := by
  unfold charKey
  rw [List.map_cons, throughNul]
  split
  · rename_i hc
    rw [hc]
    rfl
  · rfl

/-- What `wcsncmp` says of two strings, by the order of their keys: a key is a proper
beginning of the other only if its string is a shorter one. -/
inductive Compared (f : Wchar → Wchar) (s t : UnicodeString) (rc : ℤ) : Prop
  | less : rc < 0 → charKey f s < charKey f t → Compared f s t rc
  | greater : 0 < rc → charKey f t < charKey f s → Compared f s t rc
  | same : rc = 0 → charKey f s = charKey f t → Compared f s t rc
  | shorter : rc = 0 → charKey f s < charKey f t → s.length < t.length → Compared f s t rc
  | longer : rc = 0 → charKey f t < charKey f s → t.length < s.length → Compared f s t rc

/-- The same first character, not a NUL, in front of both. -/
theorem Compared.cons {s t : UnicodeString} {rc : ℤ} {a b : Wchar} (hab : f a = f b)
    (ha : f a ≠ 0) (h : Compared f s t rc) : Compared f (a :: s) (b :: t) rc := by
  have hs : charKey f (a :: s) = (f a).toNat :: charKey f s := by rw [charKey_cons, if_neg ha]
  have ht : charKey f (b :: t) = (f a).toNat :: charKey f t := by
    rw [charKey_cons, ← hab, if_neg ha]
  cases h with
  | less hrc hlt =>
    refine Compared.less hrc ?_
    rwa [hs, ht, List.cons_lt_cons_self]
  | greater hrc hlt =>
    refine Compared.greater hrc ?_
    rwa [hs, ht, List.cons_lt_cons_self]
  | same hrc heq =>
    refine Compared.same hrc ?_
    rw [hs, ht, heq]
  | shorter hrc hlt hlen =>
    refine Compared.shorter hrc ?_ (by simpa using hlen)
    rwa [hs, ht, List.cons_lt_cons_self]
  | longer hrc hlt hlen =>
    refine Compared.longer hrc ?_ (by simpa using hlen)
    rwa [hs, ht, List.cons_lt_cons_self]

/-- First characters that differ decide. -/
theorem Compared.first {s t : UnicodeString} {a b : Wchar} (hab : f a ≠ f b) :
    Compared f (a :: s) (b :: t) (((f a).toNat : ℤ) - (f b).toNat) := by
  have hne : (f a).toNat ≠ (f b).toNat := fun h => hab (UInt16.toNat_inj.1 h)
  rcases Nat.lt_or_gt_of_ne hne with hlt | hlt
  · refine Compared.less (by omega) ?_
    rw [charKey_cons, charKey_cons, List.cons_lt_cons_iff]
    exact Or.inl hlt
  · refine Compared.greater (by omega) ?_
    rw [charKey_cons, charKey_cons, List.cons_lt_cons_iff]
    exact Or.inl hlt

/-- `wcsncmp` on the shorter of two lengths. -/
theorem wcsncmpBy_compared (f : Wchar → Wchar) (s t : UnicodeString) :
    Compared f s t (wcsncmpBy f (min s.length t.length) s t) := by
  induction s generalizing t with
  | nil =>
    cases t with
    | nil => exact Compared.same rfl rfl
    | cons b t =>
      refine Compared.shorter rfl ?_ (by simp)
      rw [charKey_cons]
      exact List.nil_lt_cons _ _
  | cons a s ih =>
    cases t with
    | nil =>
      refine Compared.longer rfl ?_ (by simp)
      rw [charKey_cons]
      exact List.nil_lt_cons _ _
    | cons b t =>
      rw [List.length_cons, List.length_cons, Nat.add_min_add_right]
      show Compared f (a :: s) (b :: t)
        (if f a = f b then if f a = 0 then 0 else wcsncmpBy f (min s.length t.length) s t
          else ((f a).toNat : ℤ) - (f b).toNat)
      by_cases hab : f a = f b
      · rw [if_pos hab]
        by_cases ha : f a = 0
        · -- a common NUL ends the comparison
          rw [if_pos ha]
          refine Compared.same rfl ?_
          rw [charKey_cons, charKey_cons, ← hab, if_pos ha, if_pos ha]
        · rw [if_neg ha]
          exact (ih t).cons hab ha
      · rw [if_neg hab]
        exact Compared.first hab

/-- `wcsncmp` looks at the characters it is told to, and no further. -/
theorem wcsncmpBy_take (f : Wchar → Wchar) {n k m : ℕ} (hk : n ≤ k) (hm : n ≤ m)
    (s t : UnicodeString) : wcsncmpBy f n (s.take k) (t.take m) = wcsncmpBy f n s t := by
  induction n generalizing k m s t with
  | zero => rfl
  | succ n ih =>
    obtain ⟨k, rfl⟩ : ∃ j, k = j + 1 := ⟨k - 1, by omega⟩
    obtain ⟨m, rfl⟩ : ∃ j, m = j + 1 := ⟨m - 1, by omega⟩
    have hhead : ∀ (u : UnicodeString) (j : ℕ), (u.take (j + 1)).headD 0 = u.headD 0 := by
      intro u j
      cases u <;> rfl
    have htail : ∀ (u : UnicodeString) (j : ℕ), (u.take (j + 1)).tail = u.tail.take j := by
      intro u j
      cases u <;> simp
    simp only [wcsncmpBy, hhead, htail]
    rw [ih (by omega) (by omega)]

/-- A difference of two characters. -/
theorem wcsncmpBy_bounds (f : Wchar → Wchar) (n : ℕ) (s t : UnicodeString) :
    -65536 < wcsncmpBy f n s t ∧ wcsncmpBy f n s t < 65536 := by
  induction n generalizing s t with
  | zero => exact ⟨by rw [wcsncmpBy]; decide, by rw [wcsncmpBy]; decide⟩
  | succ n ih =>
    unfold wcsncmpBy
    dsimp only
    have ha := (f (s.headD 0)).toNat_lt
    have hb := (f (t.headD 0)).toNat_lt
    split
    · split
      · decide
      · exact ih _ _
    · omega

/-! ## Lengths and casts -/

theorem CountedString.length_chars (u : CountedString) : u.chars.length = u.length.toNat / 2 := by
  rw [CountedString.chars, List.length_take]
  exact Nat.min_eq_left u.holds

/-- The cast through `ULONG` gives the difference of the lengths back. -/
theorem toInt_lengthDifference (m n : UInt16) :
    (m.toUInt64 - n.toUInt64).toUInt32.toInt32.toInt = (m.toNat : ℤ) - n.toNat := by
  have hm := m.toNat_lt
  have hn := n.toNat_lt
  show (m.toUInt64 - n.toUInt64).toUInt32.toBitVec.toInt = _
  rw [BitVec.toInt_eq_toNat_bmod, UInt32.toNat_toBitVec, UInt64.toNat_toUInt32, UInt64.toNat_sub,
    UInt16.toNat_toUInt64, UInt16.toNat_toUInt64, Int.bmod]
  omega

theorem toInt_ofInt_small {z : ℤ} (hlow : -65536 < z) (hhigh : z < 65536) :
    (Int32.ofInt z).toInt = z := by
  rw [Int32.toInt_ofInt, Int.bmod, Int32.size]
  omega

/-- The count that is passed to `wcsncmp`. -/
theorem toNat_count (m n : UInt16) :
    ((if m.toUInt64 < n.toUInt64 then m.toUInt64 else n.toUInt64) / 2).toNat =
      min (m.toNat / 2) (n.toNat / 2) := by
  rw [UInt64.toNat_div]
  split
  · rename_i h
    rw [UInt64.lt_iff_toNat_lt, UInt16.toNat_toUInt64, UInt16.toNat_toUInt64] at h
    rw [UInt16.toNat_toUInt64]
    show m.toNat / 2 = _
    omega
  · rename_i h
    rw [UInt64.lt_iff_toNat_lt, UInt16.toNat_toUInt64, UInt16.toNat_toUInt64] at h
    rw [UInt16.toNat_toUInt64]
    show n.toNat / 2 = _
    omega

variable (fold) in
/-- The characters first, the lengths if they give no difference. -/
theorem toInt_rtlCompareUnicodeString (u1 u2 : CountedString) (ign : Bool) :
    (rtlCompareUnicodeString fold u1 u2 ign).toInt =
      let rc := wcsncmpBy (if ign then fold else id) (min u1.chars.length u2.chars.length)
        u1.chars u2.chars
      if rc ≠ 0 then rc else (u1.length.toNat : ℤ) - u2.length.toNat := by
  have hcount := toNat_count u1.length u2.length
  rw [← u1.length_chars, ← u2.length_chars] at hcount
  have hchars : ∀ f, wcsncmpBy f (min u1.chars.length u2.chars.length) u1.buffer u2.buffer =
      wcsncmpBy f (min u1.chars.length u2.chars.length) u1.chars u2.chars := by
    intro f
    refine (wcsncmpBy_take f ?_ ?_ u1.buffer u2.buffer).symm
    · rw [← u1.length_chars]
      omega
    · rw [← u2.length_chars]
      omega
  unfold rtlCompareUnicodeString rtlCompareUnicodeStrings
  generalize (if u1.length.toUInt64 < u2.length.toUInt64 then u1.length.toUInt64
    else u2.length.toUInt64) = l at hcount ⊢
  have hselect : (if ign = true then Int32.ofInt (wcsncmpBy fold (l / 2).toNat u1.buffer u2.buffer)
      else Int32.ofInt (wcsncmpBy id (l / 2).toNat u1.buffer u2.buffer)) =
      Int32.ofInt (wcsncmpBy (if ign then fold else id)
        (min u1.chars.length u2.chars.length) u1.chars u2.chars) := by
    cases ign with
    | true => rw [if_pos rfl, if_pos rfl, hcount, hchars]
    | false => rw [if_neg (by simp), if_neg (by simp), hcount, hchars]
  dsimp only
  rw [hselect]
  have hbounds := wcsncmpBy_bounds (if ign then fold else id)
    (min u1.chars.length u2.chars.length) u1.chars u2.chars
  have hnone : l = 0 → wcsncmpBy (if ign then fold else id)
      (min u1.chars.length u2.chars.length) u1.chars u2.chars = 0 := by
    intro hl
    rw [← hcount, hl]
    rfl
  generalize wcsncmpBy (if ign then fold else id)
    (min u1.chars.length u2.chars.length) u1.chars u2.chars = rc at hbounds hnone ⊢
  have hrc : (if l ≠ 0 then Int32.ofInt rc else 0) = Int32.ofInt rc := by
    split
    · rfl
    · rename_i hl
      rw [hnone (by simpa using hl)]
      rfl
  rw [hrc]
  have htoInt := toInt_ofInt_small hbounds.1 hbounds.2
  by_cases hzero : rc = 0
  · rw [if_neg (by simp [hzero]), if_neg (by simp [hzero]), toInt_lengthDifference]
  · have hne : Int32.ofInt rc ≠ 0 := by
      intro h
      rw [h] at htoInt
      exact hzero htoInt.symm
    rw [if_pos hne, if_pos hzero, htoInt]

/-! ## The order -/

variable (fold) in
/-- What the comparison sees of a string. -/
def orderKey (ign : Bool) (u : CountedString) : List ℕ ×ₗ ℕ :=
  toLex (charKey (if ign then fold else id) u.chars, u.length.toNat)

variable (fold) in
/-- The result has the sign of the comparison of the keys. -/
theorem rtlCompareUnicodeString_key (u1 u2 : CountedString) (ign : Bool) :
    ((rtlCompareUnicodeString fold u1 u2 ign).toInt < 0 ∧
      orderKey fold ign u1 < orderKey fold ign u2) ∨
    ((rtlCompareUnicodeString fold u1 u2 ign).toInt = 0 ∧
      orderKey fold ign u1 = orderKey fold ign u2) ∨
    (0 < (rtlCompareUnicodeString fold u1 u2 ign).toInt ∧
      orderKey fold ign u2 < orderKey fold ign u1) := by
  have hless : ∀ v w : CountedString, charKey (if ign then fold else id) v.chars <
      charKey (if ign then fold else id) w.chars → orderKey fold ign v < orderKey fold ign w :=
    fun v w h => Prod.Lex.toLex_lt_toLex.2 (Or.inl h)
  rw [toInt_rtlCompareUnicodeString]
  dsimp only
  cases wcsncmpBy_compared (if ign then fold else id) u1.chars u2.chars with
  | less hrc hlt =>
    rw [if_pos (by omega)]
    exact Or.inl ⟨hrc, hless u1 u2 hlt⟩
  | greater hrc hlt =>
    rw [if_pos (by omega)]
    exact Or.inr (Or.inr ⟨hrc, hless u2 u1 hlt⟩)
  | shorter hrc hlt hlen =>
    rw [if_neg (by omega)]
    rw [u1.length_chars, u2.length_chars] at hlen
    exact Or.inl ⟨by omega, hless u1 u2 hlt⟩
  | longer hrc hlt hlen =>
    rw [if_neg (by omega)]
    rw [u1.length_chars, u2.length_chars] at hlen
    exact Or.inr (Or.inr ⟨by omega, hless u2 u1 hlt⟩)
  | same hrc heq =>
    rw [if_neg (by omega)]
    -- the lengths in bytes decide
    rcases Nat.lt_trichotomy u1.length.toNat u2.length.toNat with hlt | hlen | hlt
    · exact Or.inl ⟨by omega, Prod.Lex.toLex_lt_toLex.2 (Or.inr ⟨heq, hlt⟩)⟩
    · refine Or.inr (Or.inl ⟨by omega, ?_⟩)
      rw [orderKey, orderKey, heq, hlen]
    · exact Or.inr (Or.inr ⟨by omega, Prod.Lex.toLex_lt_toLex.2 (Or.inr ⟨heq.symm, hlt⟩)⟩)

/-- The sign of the result is the sign of the comparison of the keys. -/
theorem rtlCompareUnicodeString_le_zero {u1 u2 : CountedString} {ign : Bool} :
    rtlCompareUnicodeString fold u1 u2 ign ≤ 0 ↔ orderKey fold ign u1 ≤ orderKey fold ign u2 := by
  rw [Int32.le_iff_toInt_le]
  show _ ≤ (0 : ℤ) ↔ _
  rcases rtlCompareUnicodeString_key fold u1 u2 ign with ⟨hrc, hkey⟩ | ⟨hrc, hkey⟩ | ⟨hrc, hkey⟩
  · exact iff_of_true (by omega) hkey.le
  · exact iff_of_true (by omega) hkey.le
  · exact iff_of_false (by omega) (not_le_of_gt hkey)

/-- **Order of the strings.** For every folding of the characters and either value of
the flag, `RtlCompareUnicodeString` is a total preorder on all counted strings. -/
theorem rtlCompareUnicodeString_preorder (fold : Wchar → Wchar) (ign : Bool) :
    (∀ a, rtlCompareUnicodeString fold a a ign = 0) ∧
    (∀ a b, (rtlCompareUnicodeString fold a b ign).toInt.sign =
      -(rtlCompareUnicodeString fold b a ign).toInt.sign) ∧
    ∀ a b c, rtlCompareUnicodeString fold a b ign ≤ 0 →
      rtlCompareUnicodeString fold b c ign ≤ 0 → rtlCompareUnicodeString fold a c ign ≤ 0 := by
  refine ⟨fun a => ?_, fun a b => ?_, fun a b c hab hbc => ?_⟩
  · rw [← Int32.toInt_inj]
    show _ = (0 : ℤ)
    rcases rtlCompareUnicodeString_key fold a a ign with ⟨-, hkey⟩ | ⟨hrc, -⟩ | ⟨-, hkey⟩
    · exact absurd hkey (lt_irrefl _)
    · exact hrc
    · exact absurd hkey (lt_irrefl _)
  · -- the keys of both calls are the same two
    rcases rtlCompareUnicodeString_key fold a b ign with ⟨hrc, hkey⟩ | ⟨hrc, hkey⟩ | ⟨hrc, hkey⟩
    · rcases rtlCompareUnicodeString_key fold b a ign with ⟨-, hkey'⟩ | ⟨-, hkey'⟩ | ⟨hrc', -⟩
      · exact absurd hkey' (lt_asymm hkey)
      · exact absurd hkey'.symm (ne_of_lt hkey)
      · rw [Int.sign_eq_neg_one_of_neg hrc, Int.sign_eq_one_of_pos hrc']
    · rcases rtlCompareUnicodeString_key fold b a ign with ⟨-, hkey'⟩ | ⟨hrc', -⟩ | ⟨-, hkey'⟩
      · exact absurd hkey.symm (ne_of_lt hkey')
      · rw [hrc, hrc']
        rfl
      · exact absurd hkey (ne_of_lt hkey')
    · rcases rtlCompareUnicodeString_key fold b a ign with ⟨hrc', -⟩ | ⟨-, hkey'⟩ | ⟨-, hkey'⟩
      · rw [Int.sign_eq_one_of_pos hrc, Int.sign_eq_neg_one_of_neg hrc']
        rfl
      · exact absurd hkey' (ne_of_lt hkey)
      · exact absurd hkey' (lt_asymm hkey)
  · rw [rtlCompareUnicodeString_le_zero] at hab hbc ⊢
    exact hab.trans hbc

/-- `a`, NUL, `z` in six bytes. -/
def nulInside : CountedString := ⟨[0x61, 0, 0x7A], 6, by decide⟩

/-- `A`, NUL, `B` in seven bytes. -/
def oddLength : CountedString := ⟨[0x41, 0, 0x42], 7, by decide⟩

/-- `ab` in four bytes. -/
def withoutNul : CountedString := ⟨[0x61, 0x62], 4, by decide⟩

/-- The characters behind a common NUL do not matter, an odd byte does. -/
theorem compare_nulInside :
    rtlCompareUnicodeString towlower nulInside oddLength true ≤ 0 ∧
    rtlCompareUnicodeString towlower oddLength withoutNul true ≤ 0 ∧
    rtlCompareUnicodeString towlower nulInside withoutNul true ≤ 0 :=
  ⟨by decide, by decide, (rtlCompareUnicodeString_preorder towlower true).2.2
    nulInside oddLength withoutNul (by decide) (by decide)⟩

/-! ## Whole characters -/

/-- On strings of whole characters the result is that of the comparison of the lists
of their characters, with the folding of the C locale. -/
theorem rtlCompareUnicodeString_toInt {u1 u2 : CountedString} (h1 : u1.length.toNat % 2 = 0)
    (h2 : u2.length.toNat % 2 = 0) (ign : Bool) :
    (rtlCompareUnicodeString towlower u1 u2 ign).toInt =
      Rtl.rtlCompareUnicodeString u1.chars u2.chars ign := by
  have hdiff : (u1.length.toNat : ℤ) - u2.length.toNat =
      2 * (u1.chars.length : ℤ) - 2 * u2.chars.length := by
    rw [u1.length_chars, u2.length_chars]
    omega
  rw [toInt_rtlCompareUnicodeString, hdiff]
  rfl

end Wdutf.Rtl.Compare
