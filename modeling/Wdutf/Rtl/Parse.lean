import Mathlib.Data.List.Basic
import Mathlib.Data.Int.Basic
import Mathlib.Tactic.Common
import Wdutf.Rtl.Compare
import Wdutf.Rtl.Guid

/-!
# Wdutf.Rtl.Parse — the grammar of `RtlUnicodeStringToInteger`, `src/unicode.cpp`

`RtlUnicodeStringToInteger` with the two pointers of the source. `head` and `tail`
are positions in the buffer, and `fetch` is the only access to it: it fails at or
behind `Length`. The test for white space is that of the C runtime, a parameter.

* `numeral` — the grammar: white space, a sign, a prefix if the base is 0, and the
  longest run of digits;
* `At` — the position of a pointer, by the characters that are left;
* `rtlUnicodeStringToInteger_at` — the pointers go through the steps of the list
  reader of `Wdutf.Rtl.Integer` and stay in front of `Length`;
* `rtlUnicodeStringToInteger_grammar` — the result is the value of the numeral.
-/

namespace Wdutf.Rtl.Parse

open Wdutf.Numerals Wdutf.Rtl.Compare

/-! ## The routine -/

section
variable (isspace : Wchar → Bool) (string : CountedString)

/-- `Buffer[p]`, if it lies before `Length`. -/
def fetch (p : ℕ) : Option Wchar :=
  if 2 * p + 2 ≤ string.length.toNat then string.buffer[p]? else none

/-- `while (head <= tail && iswspace(*head)) head++`. -/
def skipSpace (tail head : ℕ) : Option ℕ :=
  if head ≤ tail then do
    let c ← fetch string head
    if isspace c then skipSpace tail (head + 1) else some head
  else some head
termination_by tail + 1 - head

/-- The optional sign: its character, and `head` behind it. -/
def readSign (tail head : ℕ) : Option (Wchar × ℕ) :=
  if head ≤ tail then do
    let c ← fetch string head
    if c = 0x2B ∨ c = 0x2D then some (c, head + 1) else some (0x2B, head)
  else some (0x2B, head)

/-- The optional prefix: the base, and `head` behind the prefix. A zero in front of
another character is passed in any case. -/
def readPrefix (base : UInt32) (tail head : ℕ) : Option (UInt32 × ℕ) :=
  if base = 0 ∧ head < tail then do
    let z ← fetch string head
    if z = 0x30 then
      let head := head + 1
      let c ← fetch string head
      let base : UInt32 :=
        if c = 0x78 then 16 else if c = 0x6F then 8 else if c = 0x62 then 2 else 0
      some (base, if base ≠ 0 then head + 1 else head)
    else some (base, head)
  else some (base, head)

/-- The loop over the digits. -/
def readDigits (base : UInt32) (tail : ℕ) (value : UInt32) (head : ℕ) : Option UInt32 :=
  if head ≤ tail then do
    let c ← fetch string head
    let digit := charDigit c
    if digit ≥ base then some value
    else readDigits base tail (value * base + digit) (head + 1)
  else some value
termination_by tail + 1 - head

/-- `RtlUnicodeStringToInteger`: the status and `*Value`, or `none` if a character at or
behind `Length` is read. -/
def rtlUnicodeStringToInteger (base : UInt32) : Option (Status × UInt32) :=
  if (base ≠ 16 ∧ base ≠ 10 ∧ base ≠ 8 ∧ base ≠ 2 ∧ base ≠ 0) ∨ string.length = 0 then
    some (.invalidParameter, 0)
  else do
    let tail := (string.length.toNat - 1) / 2
    let head ← skipSpace isspace string tail 0
    let (sign, head) ← readSign string tail head
    let (base, head) ← readPrefix string base tail head
    let base := if base = 0 then 10 else base
    let value ← readDigits string base tail 0 head
    some (.success, if sign = 0x2D then -value else value)

end

/-! ## The grammar -/

/-- The value of a character as a digit of base `b`. -/
def digitOf (b : ℕ) (c : Wchar) : Option ℕ :=
  (List.range b).find? fun d => c = digitChar d ∨ c = upperDigitChar d

/-- The longest run of digits of base `b` at the start of a text. -/
def digitRun (b : ℕ) : List Wchar → List ℕ
  | [] => []
  | c :: cs =>
    match digitOf b c with
    | some d => d :: digitRun b cs
    | none => []

/-- One optional sign: whether the number is negative, and the rest. -/
def signPart : List Wchar → Bool × List Wchar
  | 0x2B :: cs => (false, cs)
  | 0x2D :: cs => (true, cs)
  | cs => (false, cs)

/-- For base 0, one of the prefixes `0x`, `0o`, `0b`: the base, and the rest. -/
def prefixPart (base : ℕ) (cs : List Wchar) : ℕ × List Wchar :=
  if base = 0 then
    match cs with
    | 0x30 :: 0x78 :: cs => (16, cs)
    | 0x30 :: 0x6F :: cs => (8, cs)
    | 0x30 :: 0x62 :: cs => (2, cs)
    | cs => (10, cs)
  else (base, cs)

/-- A numeral at the start of a text: its sign, its base and its digits. -/
structure Numeral where
  negative : Bool
  base : ℕ
  digits : List ℕ
deriving DecidableEq

/-- The numeral of a text. Everything behind the run of digits is ignored. -/
def numeral (isspace : Wchar → Bool) (base : ℕ) (cs : List Wchar) : Numeral :=
  let (negative, cs) := signPart (cs.dropWhile isspace)
  let (b, cs) := prefixPart base cs
  ⟨negative, b, digitRun b cs⟩

/-- The number that a numeral denotes. -/
def Numeral.toInt (n : Numeral) : ℤ :=
  if n.negative then -(value n.base n.digits : ℤ) else value n.base n.digits

/-! ## The pointers -/

/-- A pointer at position `p`, with the characters `cs` left up to `Length`. -/
def At (string : CountedString) (p : ℕ) (cs : List Wchar) : Prop :=
  p ≤ string.chars.length ∧ string.chars.drop p = cs

section
variable {string : CountedString} {tail p : ℕ} {cs : List Wchar}

theorem At.start (string : CountedString) : At string 0 string.chars := ⟨Nat.zero_le _, rfl⟩

theorem At.length (h : At string p cs) : p + cs.length = string.chars.length := by
  rcases h with ⟨hp, hdrop⟩
  rw [← hdrop, List.length_drop]
  omega

/-- A character is left: it can be fetched, and the next position is behind it. -/
theorem At.cons {c : Wchar} (h : At string p (c :: cs)) :
    fetch string p = some c ∧ At string (p + 1) cs := by
  have hlength := h.length
  rw [List.length_cons] at hlength
  have hcount := string.length_chars
  have hlt : p < string.chars.length := by omega
  rcases h with ⟨-, hdrop⟩
  rw [List.drop_eq_getElem_cons hlt] at hdrop
  injection hdrop with hc hcs
  constructor
  · unfold fetch
    rw [if_pos (by omega), ← hc]
    simp only [CountedString.chars, List.getElem_take]
    exact List.getElem?_eq_getElem _
  · exact ⟨by omega, hcs⟩

variable (htail : tail + 1 = string.chars.length)
include htail

/-- The condition `head <= tail`. -/
theorem At.le_tail {c : Wchar} (h : At string p (c :: cs)) : p ≤ tail := by
  have hlength := h.length
  rw [List.length_cons] at hlength
  omega

theorem At.not_le_tail (h : At string p []) : ¬ p ≤ tail := by
  have hlength := h.length
  rw [List.length_nil] at hlength
  omega

theorem skipSpace_at (isspace : Wchar → Bool) (h : At string p cs) :
    ∃ p', skipSpace isspace string tail p = some p' ∧ At string p' (cs.dropWhile isspace) := by
  induction cs generalizing p with
  | nil =>
    refine ⟨p, ?_, h⟩
    unfold skipSpace
    rw [if_neg (h.not_le_tail htail)]
  | cons c cs ih =>
    rcases h.cons with ⟨hfetch, hnext⟩
    unfold skipSpace
    rw [if_pos (h.le_tail htail), hfetch]
    by_cases hc : isspace c = true
    · rcases ih hnext with ⟨p', hrun, hat⟩
      refine ⟨p', ?_, ?_⟩
      · simpa [hc] using hrun
      · rwa [List.dropWhile_cons_of_pos hc]
    · refine ⟨p, by simp [hc], ?_⟩
      rwa [List.dropWhile_cons_of_neg hc]

theorem readSign_at (h : At string p cs) :
    ∃ p', readSign string tail p = some ((Rtl.readSign cs).1, p') ∧
      At string p' (Rtl.readSign cs).2 := by
  unfold readSign
  cases cs with
  | nil =>
    rw [if_neg (h.not_le_tail htail)]
    exact ⟨p, rfl, h⟩
  | cons c cs =>
    rcases h.cons with ⟨hfetch, hnext⟩
    rw [if_pos (h.le_tail htail), hfetch]
    unfold Rtl.readSign
    dsimp only
    by_cases hc : c = 0x2B ∨ c = 0x2D
    · rw [if_pos hc]
      exact ⟨p + 1, by simp [hc], hnext⟩
    · rw [if_neg hc]
      exact ⟨p, by simp [hc], h⟩

/-- The look-ahead of the prefix stays in front of `Length`: it needs two characters. -/
theorem readPrefix_at (base : UInt32) (h : At string p cs) :
    ∃ p', readPrefix string base tail p = some ((Rtl.readPrefix base cs).1, p') ∧
      At string p' (Rtl.readPrefix base cs).2 := by
  have hlength := h.length
  rcases cs with - | ⟨z, - | ⟨c, cs⟩⟩
  · unfold readPrefix Rtl.readPrefix
    rw [if_neg (by simp only [List.length_nil] at hlength; omega)]
    exact ⟨p, rfl, h⟩
  · -- a single character is no prefix
    unfold readPrefix Rtl.readPrefix
    rw [if_neg (by simp only [List.length_cons, List.length_nil] at hlength; omega)]
    exact ⟨p, rfl, h⟩
  · rcases h.cons with ⟨hfetch, hnext⟩
    rcases hnext.cons with ⟨hfetch', hnext'⟩
    have hlt : p < tail := by
      simp only [List.length_cons] at hlength
      omega
    unfold readPrefix Rtl.readPrefix
    by_cases hbase : base = 0
    · rw [if_pos ⟨hbase, hlt⟩, hfetch]
      simp only [hfetch', Option.bind_eq_bind, Option.bind_some]
      by_cases hz : z = 0x30
      · by_cases hx : c = 0x78
        · exact ⟨p + 1 + 1, by simp [hbase, hz, hx], by simpa [hbase, hz, hx] using hnext'⟩
        by_cases ho : c = 0x6F
        · exact ⟨p + 1 + 1, by simp [hbase, hz, ho], by simpa [hbase, hz, ho] using hnext'⟩
        by_cases hb : c = 0x62
        · exact ⟨p + 1 + 1, by simp [hbase, hz, hb], by simpa [hbase, hz, hb] using hnext'⟩
        · refine ⟨p + 1, by simp [hbase, hz, hx, ho, hb], ?_⟩
          simpa [hbase, hz, hx, ho, hb] using hnext
      · exact ⟨p, by simp [hz], by simpa [hz] using h⟩
    · rw [if_neg (fun hand => hbase hand.1)]
      dsimp only
      rw [if_neg (fun hand => hbase hand.1)]
      exact ⟨p, rfl, h⟩

theorem readDigits_at (base v : UInt32) (h : At string p cs) :
    readDigits string base tail v p = some (Rtl.readDigits base v cs) := by
  induction cs generalizing p v with
  | nil =>
    unfold readDigits
    rw [if_neg (h.not_le_tail htail)]
    rfl
  | cons c cs ih =>
    rcases h.cons with ⟨hfetch, hnext⟩
    unfold readDigits Rtl.readDigits
    rw [if_pos (h.le_tail htail), hfetch]
    by_cases hdigit : charDigit c ≥ base
    · simp [hdigit]
    · simpa [hdigit] using ih (v * base + charDigit c) hnext

end

/-- The bases that the routine takes. -/
theorem base_taken_iff {base : UInt32} :
    base ∈ [0, 2, 8, 10, 16] ↔
      ¬ (base ≠ 16 ∧ base ≠ 10 ∧ base ≠ 8 ∧ base ≠ 2 ∧ base ≠ 0) := by
  simp only [List.mem_cons, List.not_mem_nil, or_false]
  tauto

/-- The reader of lists, with a test for white space. -/
def readList (isspace : Wchar → Bool) (base : UInt32) (cs : List Wchar) : UInt32 :=
  let (sign, cs) := Rtl.readSign (cs.dropWhile isspace)
  let (base, cs) := Rtl.readPrefix base cs
  let v := Rtl.readDigits (if base = 0 then 10 else base) 0 cs
  if sign = 0x2D then -v else v

/-- On whole characters the routine never reads at or behind `Length`, and gives what
the reader of lists gives. -/
theorem rtlUnicodeStringToInteger_at (isspace : Wchar → Bool) {string : CountedString}
    (heven : string.length.toNat % 2 = 0) (hlength : string.length ≠ 0) {base : UInt32}
    (hbase : base ∈ [0, 2, 8, 10, 16]) :
    rtlUnicodeStringToInteger isspace string base =
      some (.success, readList isspace base string.chars) := by
  have hpos : 0 < string.length.toNat := by
    apply Nat.pos_of_ne_zero
    intro hzero
    exact hlength (UInt16.toNat_inj.1 hzero)
  have htail : (string.length.toNat - 1) / 2 + 1 = string.chars.length := by
    rw [string.length_chars]
    omega
  rcases skipSpace_at htail isspace (At.start string) with ⟨p1, hspace, hat1⟩
  rcases readSign_at htail hat1 with ⟨p2, hsign, hat2⟩
  rcases readPrefix_at htail base hat2 with ⟨p3, hpre, hat3⟩
  unfold rtlUnicodeStringToInteger
  rw [if_neg (not_or.2 ⟨base_taken_iff.1 hbase, hlength⟩)]
  simp only [hspace, hsign, hpre, readDigits_at htail _ _ hat3, Option.bind_eq_bind,
    Option.bind_some]
  rfl

/-! ## Digits -/

/-- A digit of the grammar has that value in the loop. -/
theorem charDigit_of_digitOf {b d : ℕ} (hb : b ≤ 16) {c : Wchar} (h : digitOf b c = some d) :
    d < b ∧ charDigit c = UInt32.ofNat d := by
  unfold digitOf at h
  have hd : d < b := List.mem_range.1 (List.mem_of_find?_eq_some h)
  refine ⟨hd, ?_⟩
  have hc := List.find?_some h
  rw [decide_eq_true_iff] at hc
  rcases hc with hlower | hupper
  · rw [hlower, charDigit_digitChar (by omega)]
  · rw [hupper, charDigit_upperDigitChar (by omega)]

/-- A character with a value below 16 is a digit, in lower or in upper case. -/
theorem eq_digitChar_of_charDigit {c : Wchar} (h : (charDigit c).toNat < 16) :
    c = digitChar (charDigit c).toNat ∨ c = upperDigitChar (charDigit c).toNat := by
  have hc := c.toNat_lt
  unfold charDigit at h ⊢
  simp only [UInt16.le_iff_toNat_le, UInt16.reduceToNat] at h ⊢
  split
  case isTrue hdigit =>
    left
    have hval : (c.toUInt32 - 0x30).toNat = c.toNat - 0x30 := by
      rw [UInt32.toNat_sub, UInt16.toNat_toUInt32]
      show (2 ^ 32 - 0x30 + c.toNat) % 2 ^ 32 = _
      omega
    apply UInt16.toNat_inj.1
    unfold digitChar
    rw [hval, if_pos (by omega), UInt16.toNat_ofNat']
    omega
  case isFalse hdigit =>
    split
    case isTrue hlower =>
      left
      have hval : (c.toUInt32 - 0x61 + 10).toNat = c.toNat - 0x61 + 10 := by
        rw [UInt32.toNat_add, UInt32.toNat_sub, UInt16.toNat_toUInt32]
        show ((2 ^ 32 - 0x61 + c.toNat) % 2 ^ 32 + 10) % 2 ^ 32 = _
        omega
      apply UInt16.toNat_inj.1
      unfold digitChar
      rw [hval, if_neg (by omega), UInt16.toNat_ofNat']
      omega
    case isFalse hlower =>
      split
      case isTrue hupper =>
        right
        have hval : (c.toUInt32 - 0x41 + 10).toNat = c.toNat - 0x41 + 10 := by
          rw [UInt32.toNat_add, UInt32.toNat_sub, UInt16.toNat_toUInt32]
          show ((2 ^ 32 - 0x41 + c.toNat) % 2 ^ 32 + 10) % 2 ^ 32 = _
          omega
        apply UInt16.toNat_inj.1
        unfold upperDigitChar
        rw [hval, if_neg (by omega), UInt16.toNat_ofNat']
        omega
      case isFalse hupper =>
        rw [if_neg hdigit, if_neg hlower, if_neg hupper] at h
        exact absurd h (by decide)

/-- A character that is no digit of the base ends the loop. -/
theorem charDigit_of_digitOf_none {b : ℕ} (hb : b ≤ 16) {c : Wchar} (h : digitOf b c = none) :
    charDigit c ≥ UInt32.ofNat b := by
  by_contra hlt
  rw [ge_iff_le, UInt32.le_iff_toNat_le, UInt32.toNat_ofNat'] at hlt
  unfold digitOf at h
  rw [List.find?_eq_none] at h
  have hmem : (charDigit c).toNat ∈ List.range b := List.mem_range.2 (by omega)
  apply h _ hmem
  rw [decide_eq_true_iff]
  exact eq_digitChar_of_charDigit (by omega)

/-- The loop computes the value of the run of digits, up to the wrap. -/
theorem readDigits_eq {b : ℕ} (hb : b ≤ 16) (v : ℕ) (cs : List Wchar) :
    Rtl.readDigits (UInt32.ofNat b) (UInt32.ofNat v) cs =
      UInt32.ofNat ((digitRun b cs).foldl (fun v d => v * b + d) v) := by
  induction cs generalizing v with
  | nil => rfl
  | cons c cs ih =>
    unfold Rtl.readDigits digitRun
    cases hdigit : digitOf b c with
    | none =>
      dsimp only
      rw [if_pos (charDigit_of_digitOf_none hb hdigit)]
      rfl
    | some d =>
      rcases charDigit_of_digitOf hb hdigit with ⟨hd, hvalue⟩
      have hstep : ¬ UInt32.ofNat d ≥ UInt32.ofNat b := by
        rw [ge_iff_le, UInt32.le_iff_toNat_le, UInt32.toNat_ofNat', UInt32.toNat_ofNat']
        omega
      dsimp only
      rw [hvalue, if_neg hstep, ← UInt32.ofNat_mul, ← UInt32.ofNat_add, ih]
      rfl

/-! ## Sign and prefix -/

theorem readSign_eq (cs : List Wchar) :
    (Rtl.readSign cs).2 = (signPart cs).2 ∧
      ((Rtl.readSign cs).1 = 0x2D ↔ (signPart cs).1 = true) := by
  unfold Rtl.readSign signPart
  split
  · exact ⟨rfl, by decide⟩
  · rename_i c head
    by_cases hplus : c = 0x2B
    · subst hplus
      exact ⟨rfl, by simp⟩
    by_cases hminus : c = 0x2D
    · subst hminus
      exact ⟨rfl, by simp⟩
    · rw [if_neg (not_or.2 ⟨hplus, hminus⟩)]
      split
      · rename_i heq
        exact absurd (List.cons.inj heq).1 hplus
      · rename_i heq
        exact absurd (List.cons.inj heq).1 hminus
      · exact ⟨rfl, by simp⟩

/-- A leading zero does not change the value of the digits behind it. -/
theorem value_digitRun_zero {b : ℕ} (hb : 0 < b) (cs : List Wchar) :
    value b (digitRun b (0x30 :: cs)) = value b (digitRun b cs) := by
  have hzero : digitOf b 0x30 = some 0 := by
    unfold digitOf
    obtain ⟨k, rfl⟩ : ∃ k, b = k + 1 := ⟨b - 1, by omega⟩
    rw [List.range_succ_eq_map, List.find?_cons_of_pos (by decide)]
  have hrun : digitRun b (0x30 :: cs) = 0 :: digitRun b cs := by
    rw [digitRun, hzero]
  rw [hrun]
  unfold value
  rw [List.foldl_cons, Nat.zero_mul]

/-- Without a base, a zero in front of another character that makes no prefix with it is
passed by the reader and is a digit of the grammar. -/
theorem readPrefix_zero (cs : List Wchar) :
    ((Rtl.readPrefix 0 cs).1 ≠ 0 ∧ (Rtl.readPrefix 0 cs).1.toNat = (prefixPart 0 cs).1 ∧
      (prefixPart 0 cs).1 ≤ 16 ∧ (Rtl.readPrefix 0 cs).2 = (prefixPart 0 cs).2) ∨
    ((Rtl.readPrefix 0 cs).1 = 0 ∧ prefixPart 0 cs = (10, cs) ∧
      (cs = (Rtl.readPrefix 0 cs).2 ∨ cs = 0x30 :: (Rtl.readPrefix 0 cs).2)) := by
  rcases cs with - | ⟨z, - | ⟨c, cs⟩⟩
  · exact Or.inr ⟨rfl, rfl, Or.inl rfl⟩
  · refine Or.inr ⟨rfl, ?_, Or.inl rfl⟩
    simp [prefixPart]
  by_cases hz : z = 0x30
  · subst hz
    by_cases hx : c = 0x78
    · subst hx
      exact Or.inl ⟨by simp [Rtl.readPrefix], by simp [Rtl.readPrefix, prefixPart],
        by simp [prefixPart], by simp [Rtl.readPrefix, prefixPart]⟩
    by_cases ho : c = 0x6F
    · subst ho
      exact Or.inl ⟨by simp [Rtl.readPrefix], by simp [Rtl.readPrefix, prefixPart],
        by simp [prefixPart], by simp [Rtl.readPrefix, prefixPart]⟩
    by_cases hb : c = 0x62
    · subst hb
      exact Or.inl ⟨by simp [Rtl.readPrefix], by simp [Rtl.readPrefix, prefixPart],
        by simp [prefixPart], by simp [Rtl.readPrefix, prefixPart]⟩
    · exact Or.inr ⟨by simp [Rtl.readPrefix, hx, ho, hb], by simp [prefixPart, hx, ho, hb],
        Or.inr (by simp [Rtl.readPrefix, hx, ho, hb])⟩
  · exact Or.inr ⟨by simp [Rtl.readPrefix, hz], by simp [prefixPart, hz],
      Or.inl (by simp [Rtl.readPrefix, hz])⟩

/-- The base that the prefix leaves, and the value of the digits behind it. -/
theorem readPrefix_eq {base : UInt32} (hbase : base ∈ [0, 2, 8, 10, 16]) (cs : List Wchar) :
    (if (Rtl.readPrefix base cs).1 = 0 then 10 else (Rtl.readPrefix base cs).1) =
        UInt32.ofNat (prefixPart base.toNat cs).1 ∧
      (prefixPart base.toNat cs).1 ≤ 16 ∧
      value (prefixPart base.toNat cs).1
          (digitRun (prefixPart base.toNat cs).1 (Rtl.readPrefix base cs).2) =
        value (prefixPart base.toNat cs).1
          (digitRun (prefixPart base.toNat cs).1 (prefixPart base.toNat cs).2) := by
  by_cases hzero : base = 0
  · subst hzero
    rw [UInt32.toNat_zero]
    rcases readPrefix_zero cs with ⟨hne, hb, hle, hrest⟩ | ⟨hb, hpart, hrest⟩
    · rw [if_neg hne, ← hb, UInt32.ofNat_toNat, hb, hrest]
      exact ⟨rfl, hle, rfl⟩
    · rw [if_pos hb, hpart]
      refine ⟨rfl, by simp, ?_⟩
      rcases hrest with hrest | hrest
      · rw [← hrest]
      · -- the zero that was passed is harmless in base 10
        have hskip := value_digitRun_zero (b := 10) (by decide) (Rtl.readPrefix 0 cs).2
        rw [← hrest] at hskip
        exact hskip.symm
  · have hlist : Rtl.readPrefix base cs = (base, cs) := by
      unfold Rtl.readPrefix
      split
      · rw [if_neg (fun hand => hzero hand.1)]
      · rfl
    have hne : base.toNat ≠ 0 := fun h => hzero (UInt32.toNat_inj.1 h)
    have hle : base.toNat ≤ 16 := by
      simp only [List.mem_cons, List.not_mem_nil, or_false] at hbase
      rcases hbase with rfl | rfl | rfl | rfl | rfl <;> decide
    unfold prefixPart
    rw [hlist, if_neg hne, if_neg hzero]
    exact ⟨(UInt32.ofNat_toNat).symm, hle, rfl⟩

/-- The reader of lists computes the number that the numeral denotes. -/
theorem readList_eq (isspace : Wchar → Bool) {base : UInt32} (hbase : base ∈ [0, 2, 8, 10, 16])
    (cs : List Wchar) :
    ((readList isspace base cs).toNat : ℤ) =
      (numeral isspace base.toNat cs).toInt % 2 ^ 32 := by
  rcases readSign_eq (cs.dropWhile isspace) with ⟨hrest, hneg⟩
  rcases readPrefix_eq hbase (signPart (cs.dropWhile isspace)).2 with ⟨hb, hle, hvalue⟩
  have hdigits := readDigits_eq hle 0
    (Rtl.readPrefix base (signPart (cs.dropWhile isspace)).2).2
  unfold readList numeral Numeral.toInt
  dsimp only
  rw [hrest, hb]
  change Rtl.readDigits _ 0 _ = UInt32.ofNat (value _ _) at hdigits
  rw [hdigits, hvalue]
  generalize value _ _ = v
  by_cases hminus : (Rtl.readSign (cs.dropWhile isspace)).1 = 0x2D
  · rw [if_pos hminus, if_pos (hneg.1 hminus), UInt32.toNat_neg, UInt32.toNat_ofNat']
    unfold UInt32.size
    omega
  · rw [if_neg hminus, if_neg (fun h => hminus (hneg.2 h)), UInt32.toNat_ofNat']
    omega

/-! ## The result -/

/-- **Grammar of the integer reader.** A base that the routine does not take is turned
down. Otherwise it is successful, stays in front of `Length`, and `*Value` is the number
that the numeral of the text denotes, modulo `2 ^ 32`. -/
theorem rtlUnicodeStringToInteger_grammar (isspace : Wchar → Bool) (string : CountedString)
    (heven : string.length.toNat % 2 = 0) (hlength : string.length ≠ 0) (base : UInt32) :
    (base ∉ [0, 2, 8, 10, 16] →
      rtlUnicodeStringToInteger isspace string base = some (.invalidParameter, 0)) ∧
    (base ∈ [0, 2, 8, 10, 16] → ∃ v : UInt32,
      rtlUnicodeStringToInteger isspace string base = some (.success, v) ∧
      (v.toNat : ℤ) = (numeral isspace base.toNat string.chars).toInt % 2 ^ 32) := by
  constructor
  · intro hbase
    unfold rtlUnicodeStringToInteger
    rw [base_taken_iff, not_not] at hbase
    rw [if_pos (Or.inl hbase)]
  · intro hbase
    exact ⟨_, rtlUnicodeStringToInteger_at isspace heven hlength hbase,
      readList_eq isspace hbase string.chars⟩

/-- ` -0x1Fg` without a base. -/
def minusThirtyOne : CountedString := ⟨[0x20, 0x2D, 0x30, 0x78, 0x31, 0x46, 0x67], 14, by decide⟩

theorem rtlUnicodeStringToInteger_minusThirtyOne :
    minusThirtyOne.length.toNat % 2 = 0 ∧ minusThirtyOne.length ≠ 0 ∧
    numeral iswspace 0 minusThirtyOne.chars = ⟨true, 16, [1, 15]⟩ ∧
    ∃ v : UInt32, rtlUnicodeStringToInteger iswspace minusThirtyOne 0 = some (.success, v) ∧
      (v.toNat : ℤ) = (numeral iswspace 0 minusThirtyOne.chars).toInt % 2 ^ 32 :=
  ⟨by decide, by decide, by decide,
    (rtlUnicodeStringToInteger_grammar iswspace minusThirtyOne (by decide) (by decide) 0).2
      (by decide)⟩

/-- On whole characters the routine refines the reader of `Wdutf.Rtl.Integer`. -/
theorem rtlUnicodeStringToInteger_refines {u : UnicodeBuffer}
    (hholds : u.length.toNat / 2 ≤ u.buffer.length) (heven : u.length.toNat % 2 = 0)
    (base : UInt32) :
    rtlUnicodeStringToInteger iswspace ⟨u.buffer, u.length, hholds⟩ base =
      some (Rtl.rtlUnicodeStringToInteger u base) := by
  by_cases hlength : u.length = 0
  · unfold rtlUnicodeStringToInteger Rtl.rtlUnicodeStringToInteger
    rw [if_pos (Or.inr hlength), if_pos (Or.inr hlength)]
  by_cases hbase : base ∈ [0, 2, 8, 10, 16]
  · have hpos : u.length.toNat ≠ 0 := fun h => hlength (UInt16.toNat_inj.1 h)
    rw [rtlUnicodeStringToInteger_at iswspace heven hlength hbase]
    unfold Rtl.rtlUnicodeStringToInteger
    rw [if_neg (not_or.2 ⟨base_taken_iff.1 hbase, hlength⟩),
      show (u.length.toNat - 1) / 2 + 1 = u.length.toNat / 2 by omega]
    rfl
  · rw [base_taken_iff, not_not] at hbase
    unfold rtlUnicodeStringToInteger Rtl.rtlUnicodeStringToInteger
    rw [if_pos (Or.inl hbase), if_pos (Or.inl hbase)]

end Wdutf.Rtl.Parse
