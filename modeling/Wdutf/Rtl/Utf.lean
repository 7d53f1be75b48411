import Mathlib.Algebra.Group.Nat.Defs
import Mathlib.Data.List.Basic
import Mathlib.Tactic.Common
import Wdutf.Rtl.Encoding

/-!
# Wdutf.Rtl.Utf — conversion between UTF-16 and UTF-8, `src/unicode.cpp`

`RtlUnicodeToUTF8N` and `RtlUTF8ToUnicodeN` convert with `WideCharToMultiByte` and
`MultiByteToWideChar`. When the destination is too small they try again with shorter
and shorter parts of the source, cut at any unit, until one fits.

* `Api`, `Documented` — the two functions of the system, and what is documented of them;
* `retry_spec` — the loop ends at the largest part of the source that fits;
* `retried_eq_iff` — that is the longest prefix in whole characters unless the
  replacement of a cut character fits too;
* `convertN_iff` — when a call keeps whole characters and reports what it wrote, for any
  two encodings.
-/

namespace Wdutf.Rtl

open Coding

variable {α β : Type}

/-! ## The functions of the system -/

/-- `GetLastError` after a conversion. -/
inductive LastError where
  | none
  | invalidParameter
  | insufficientBuffer
  | noUnicodeTranslation
deriving DecidableEq

/-- A conversion of the system: with the flag that refuses ill-formed text (`strict`), and
with flag 0, which replaces it (`lossy`). Where text is ill-formed and also too long,
either error may be reported; a call that fails may leave anything in the destination. -/
structure Api (α β : Type) where
  strict : List α → Option (List β)
  lossy : List α → List β
  lengthFirst : List α → ℕ → Bool
  spill : Bool → List α → List β → List β
  length_spill : ∀ flag src dst, (spill flag src dst).length = dst.length

/-- What is documented of a conversion. A well-formed text is converted character by
character. With flag 0 nothing is dropped: at the end of a text, the units of a word that
is cut off are replaced by U+FFFD, by one for each or by fewer; and no unit is converted
to more than U+FFFD is. -/
structure Documented (enc : Char → List α) (out : Char → List β) (api : Api α β) : Prop where
  strict_iff : ∀ src o, api.strict src = some o ↔
    ∃ cs : List Char, src = cs.flatMap enc ∧ o = cs.flatMap out
  lossy_text : ∀ cs : List Char, api.lossy (cs.flatMap enc) = cs.flatMap out
  lossy_cut : ∀ (cs : List Char) (c : Char) (n : ℕ), 0 < n → n < (enc c).length →
    ∃ r, 1 ≤ r ∧ r ≤ n ∧ api.lossy (cs.flatMap enc ++ (enc c).take n) =
      cs.flatMap out ++ (List.replicate r replacementCharacter).flatMap out
  lossy_ne_nil : ∀ src, src ≠ [] → api.lossy src ≠ []
  length_lossy : ∀ src, (api.lossy src).length ≤ (out replacementCharacter).length * src.length

/-- The result of a conversion, the last error, and the memory of the destination. -/
structure Converted (β : Type) where
  count : ℕ
  error : LastError
  dst : List β

/-- `WideCharToMultiByte` or `MultiByteToWideChar`, without or with the flag for invalid
characters. With a destination of size 0 the size that is needed is returned. -/
def Api.convert (api : Api α β) (errInvalidChars : Bool) (src : List α) (dst : List β) :
    Converted β :=
  if src.isEmpty then ⟨0, .invalidParameter, dst⟩
  else
    match (if errInvalidChars then api.strict src else some (api.lossy src)) with
    | none =>
      if 0 < dst.length ∧ dst.length < (api.lossy src).length ∧ api.lengthFirst src dst.length then
        ⟨0, .insufficientBuffer, api.spill errInvalidChars src dst⟩
      else ⟨0, .noUnicodeTranslation, api.spill errInvalidChars src dst⟩
    | some out =>
      if dst.length = 0 then ⟨out.length, .none, dst⟩
      else if out.length ≤ dst.length then
        ⟨out.length, .none, out ++ dst.drop out.length⟩
      else ⟨0, .insufficientBuffer, api.spill errInvalidChars src dst⟩

/-! ## The routines -/

/-- The `NTSTATUS` values of the two routines. -/
inductive UtfStatus where
  | success
  | someNotMapped
  | bufferTooSmall
  | invalidParameter
  | invalidParameter4
  | invalidParameter5
deriving DecidableEq

/-- `sizeof(WCHAR)`. -/
def sizeofWchar : ℕ := 2

/-- The loop that shortens the source: its variable is a number of bytes, a `ULONG`, and
`sizeofUnit` of them are taken off in each turn. There is no result for a length that is
negative as an `int`. -/
def retry (api : Api α β) (sizeofUnit : ℕ) (src : List α) :
    ℕ → ℕ → List β → Option (Converted β)
  | 0, _, _ => none
  | turns + 1, tempByteCount, dst =>
    if 2 ^ 31 ≤ tempByteCount / sizeofUnit then none
    else
      let r := api.convert false (src.take (tempByteCount / sizeofUnit)) dst
      let tempByteCount' := (tempByteCount + 2 ^ 32 - sizeofUnit) % 2 ^ 32
      if r.count = 0 ∧ r.error = .insufficientBuffer ∧ tempByteCount' ≠ 0 then
        retry api sizeofUnit src turns tempByteCount' r.dst
      else some r

/-- The conversion of a text that is not empty: the status, the count and the memory of
the destination. The first length to try again with is `sizeof(WCHAR)` bytes shorter in
both routines. -/
def convertText (api : Api α β) (sizeofUnit : ℕ) (src : List α) (byteCount : ℕ)
    (dst : List β) : Option (UtfStatus × ℕ × List β) :=
  let r := api.convert true src dst
  if r.count = 0 then
    match r.error with
    | .insufficientBuffer =>
      (retry api sizeofUnit src (byteCount + 1) ((byteCount + 2 ^ 32 - sizeofWchar) % 2 ^ 32)
        r.dst).map fun r => (.bufferTooSmall, r.count, r.dst)
    | .noUnicodeTranslation =>
      let r := api.convert false src r.dst
      some (.someNotMapped, r.count, r.dst)
    | _ => none
  else some (.success, r.count, r.dst)

/-- The arguments of a routine, at an IRQL. Addresses are numbers, 0 for `NULL`; the
memory at them is given in units, of `sizeofSource` and `sizeofDestination` bytes. -/
structure UtfCall (α β : Type) (sizeofSource sizeofDestination : ℕ) where
  irql : ℕ
  destination : ℕ
  maxByteCount : ℕ
  memory : List β
  actualByteCount : Bool
  source : ℕ
  byteCount : ℕ
  text : List α
  maxByteCount_lt : maxByteCount < 2 ^ 32
  byteCount_lt : byteCount < 2 ^ 32
  length_memory : memory.length = maxByteCount / sizeofDestination
  length_text : text.length = byteCount / sizeofSource

/-- What a routine returns, the count it has written to `*ActualByteCount` if it has, and
the memory at the destination. -/
structure UtfOutcome (β : Type) where
  status : UtfStatus
  reported : Option ℕ
  memory : List β

variable {sizeofSource sizeofDestination : ℕ}

/-- The assertions at the start of both routines. -/
def UtfCall.Asserted (c : UtfCall α β sizeofSource sizeofDestination) : Prop :=
  c.irql < 2 ∧ c.maxByteCount / sizeofDestination < 2 ^ 31 - 1 ∧
    c.byteCount / sizeofSource < 2 ^ 31 - 1

instance (c : UtfCall α β sizeofSource sizeofDestination) : Decidable c.Asserted := by
  unfold UtfCall.Asserted
  infer_instance

/-- A call that is refused. -/
def UtfCall.refuse (c : UtfCall α β sizeofSource sizeofDestination) (status : UtfStatus) :
    Option (UtfOutcome β) :=
  some ⟨status, none, c.memory⟩

/-- Both routines, behind the checks of their arguments. -/
def UtfCall.convertN (api : Api α β) (c : UtfCall α β sizeofSource sizeofDestination) :
    Option (UtfOutcome β) :=
  if c.byteCount = 0 then some ⟨.success, none, c.memory⟩
  else
    let dst := if c.destination = 0 then [] else c.memory
    (convertText api sizeofSource c.text c.byteCount dst).map fun (status, count, dst) =>
      { status := status
        reported :=
          if c.actualByteCount then some (count * sizeofDestination % 2 ^ 32) else none
        memory := if c.destination = 0 then c.memory else dst }

/-- `RtlUnicodeToUTF8N`. -/
def rtlUnicodeToUTF8N (api : Api Wchar UInt8) (c : UtfCall Wchar UInt8 2 1) :
    Option (UtfOutcome UInt8) :=
  if ¬ c.Asserted then none
  else if (c.destination = 0 ∧ c.actualByteCount = false) ∨ c.source = c.destination then
    c.refuse .invalidParameter
  else if c.source = 0 then c.refuse .invalidParameter4
  else if c.byteCount % sizeofWchar ≠ 0 then c.refuse .invalidParameter5
  else c.convertN api

/-- `RtlUTF8ToUnicodeN`. -/
def rtlUTF8ToUnicodeN (api : Api UInt8 Wchar) (c : UtfCall UInt8 Wchar 1 2) :
    Option (UtfOutcome Wchar) :=
  if ¬ c.Asserted then none
  else if (c.destination = 0 ∧ c.actualByteCount = false) ∨ c.destination = c.source then
    c.refuse .invalidParameter
  else if c.source = 0 then c.refuse .invalidParameter4
  else c.convertN api

variable {enc : Char → List α} {out : Char → List β} {api : Api α β}

/-! ## One conversion -/

section Convert

variable {src : List α} {dst : List β} (hsrc : src ≠ [])
include hsrc

/-- A conversion that has a result. -/
theorem Api.convert_some {flag : Bool} {o : List β}
    (h : (if flag then api.strict src else some (api.lossy src)) = some o) :
    api.convert flag src dst =
      if dst.length = 0 then ⟨o.length, .none, dst⟩
      else if o.length ≤ dst.length then ⟨o.length, .none, o ++ dst.drop o.length⟩
      else ⟨0, .insufficientBuffer, api.spill flag src dst⟩ := by
  unfold Api.convert
  rw [if_neg (by simpa using hsrc), h]

/-- Text that is refused. -/
theorem Api.convert_none (h : api.strict src = none) :
    ∃ error, (error = .noUnicodeTranslation ∨ error = .insufficientBuffer ∧
        0 < dst.length ∧ dst.length < (api.lossy src).length) ∧
      api.convert true src dst = ⟨0, error, api.spill true src dst⟩ := by
  unfold Api.convert
  rw [if_neg (by simpa using hsrc), if_pos rfl, h]
  simp only
  split
  · rename_i hlong
    exact ⟨_, Or.inr ⟨rfl, hlong.1, hlong.2.1⟩, rfl⟩
  · exact ⟨_, Or.inl rfl, rfl⟩

end Convert

/-! ## The loop -/

/-- Where the loop ends: at the largest part of the source, up to `start` units, whose
conversion fits. -/
structure StopsAt (api : Api α β) (src : List α) (size start t : ℕ) : Prop where
  le_start : t ≤ start
  fits : (api.lossy (src.take t)).length ≤ size
  beyond : ∀ t', t < t' → t' ≤ start → size < (api.lossy (src.take t')).length

/-- The result at the end of the loop. -/
def Retried (api : Api α β) (src : List α) (size start : ℕ) (r : Converted β) : Prop :=
  ∃ t, StopsAt api src size start t ∧ r.count = (api.lossy (src.take t)).length ∧
    api.lossy (src.take t) <+: r.dst

variable {src : List α} {unit size start turns : ℕ} {dst : List β} {r : Converted β}

/-- Nothing is converted. -/
theorem retried_zero (h : Documented enc out api) (hr : r.count = 0) :
    Retried api src size 0 r := by
  have hnil : api.lossy (src.take 0) = [] := h.lossy_text []
  refine ⟨0, ⟨Nat.le_refl 0, ?_, fun t' hlt hle => by omega⟩, ?_, ?_⟩
  · rw [hnil]
    exact Nat.zero_le _
  · rw [hnil, hr]
    rfl
  · rw [hnil]
    exact List.nil_prefix

/-- One turn that did not fit. -/
theorem Retried.succ (h : Retried api src size start r)
    (hlong : size < (api.lossy (src.take (start + 1))).length) :
    Retried api src size (start + 1) r := by
  rcases h with ⟨t, ht, hcount, hprefix⟩
  refine ⟨t, ⟨Nat.le_succ_of_le ht.le_start, ht.fits, fun t' hlt hle => ?_⟩, hcount, hprefix⟩
  rcases Nat.lt_or_ge start t' with hlast | hle'
  · have ht' : t' = start + 1 := by omega
    rw [ht']
    exact hlong
  · exact ht.beyond t' hlt hle'

/-- The number of bytes after one turn. -/
theorem tempByteCount_next (hlt : unit * (start + 1) < 2 ^ 32) :
    (unit * (start + 1) + 2 ^ 32 - unit) % 2 ^ 32 = unit * start := by
  rw [Nat.mul_add, Nat.mul_one] at hlt ⊢
  have hsub : unit * start + unit + 2 ^ 32 - unit = unit * start + 2 ^ 32 := by omega
  rw [hsub, Nat.add_mod_right]
  exact Nat.mod_eq_of_lt (by omega)

theorem retry_spec (h : Documented enc out api) (hunit : 0 < unit) (hdst : 0 < dst.length)
    (hstart : start ≤ src.length) (hint : start < 2 ^ 31) (hlt : unit * start < 2 ^ 32)
    (hturns : start < turns) :
    ∃ r, retry api unit src turns (unit * start) dst = some r ∧
      Retried api src dst.length start r := by
  induction start generalizing turns dst with
  | zero =>
    match turns with
    | 0 => exact absurd hturns (Nat.lt_irrefl 0)
    | turns + 1 =>
      -- a length of 0 is refused, and the loop ends
      have hconvert : api.convert false (src.take 0) dst = ⟨0, .invalidParameter, dst⟩ := rfl
      refine ⟨⟨0, .invalidParameter, dst⟩, ?_, retried_zero h rfl⟩
      rw [retry, Nat.mul_zero, Nat.zero_div, if_neg (by omega)]
      simp only [hconvert]
      rw [if_neg (by simp)]
  | succ start ih =>
    match turns with
    | 0 => exact absurd hturns (Nat.not_lt_zero _)
    | turns + 1 =>
      have hne : src.take (start + 1) ≠ [] := by
        apply List.ne_nil_of_length_pos
        rw [List.length_take]
        omega
      have hconvert := @Api.convert_some _ _ api _ dst hne false _ rfl
      rw [if_neg (by omega)] at hconvert
      rw [retry, Nat.mul_div_cancel_left _ hunit, if_neg (by omega)]
      by_cases hfit : (api.lossy (src.take (start + 1))).length ≤ dst.length
      · -- the part fits
        rw [if_pos hfit] at hconvert
        simp only [hconvert]
        rw [if_neg]
        · exact ⟨_, rfl, start + 1, ⟨Nat.le_refl _, hfit, fun t' hlt hle => by omega⟩, rfl,
            List.prefix_append _ _⟩
        · rintro ⟨hzero, -⟩
          exact h.lossy_ne_nil _ hne (List.eq_nil_of_length_eq_zero hzero)
      · rw [if_neg hfit] at hconvert
        simp only [hconvert, tempByteCount_next hlt, true_and]
        by_cases hzero : start = 0
        · -- nothing is left to try
          subst hzero
          rw [Nat.mul_zero, if_neg (by simp)]
          exact ⟨_, rfl, (retried_zero h rfl).succ (by omega)⟩
        · rw [if_pos (Nat.mul_ne_zero (by omega) hzero)]
          have hspill := api.length_spill false (src.take (start + 1)) dst
          rw [Nat.mul_add] at hlt
          have hagain := @ih turns (api.spill false (src.take (start + 1)) dst)
            (by omega) (by omega) (by omega) (by omega) (by omega)
          rcases hagain with ⟨r, hr, hretried⟩
          rw [hspill] at hretried
          exact ⟨r, hr, hretried.succ (by omega)⟩

/-! ## The conversion of a text -/

/-- Well-formed text that fits, or no destination to fit in. -/
theorem convertText_success (h : Documented enc out api) {byteCount : ℕ} {cs : List Char}
    (hsrc : src ≠ []) (htext : src = cs.flatMap enc)
    (hfit : dst.length = 0 ∨ (cs.flatMap out).length ≤ dst.length) :
    convertText api unit src byteCount dst = some (.success, (cs.flatMap out).length,
      if dst.length = 0 then dst else cs.flatMap out ++ dst.drop (cs.flatMap out).length) := by
  have hstrict : api.strict src = some (cs.flatMap out) := (h.strict_iff _ _).2 ⟨cs, htext, rfl⟩
  have hlossy : api.lossy src = cs.flatMap out := by rw [htext, h.lossy_text]
  have hpos : (cs.flatMap out).length ≠ 0 := by
    intro hzero
    have hne := h.lossy_ne_nil src hsrc
    rw [hlossy] at hne
    exact hne (List.eq_nil_of_length_eq_zero hzero)
  have hconvert := @Api.convert_some _ _ api _ dst hsrc true _ hstrict
  unfold convertText
  by_cases hempty : dst.length = 0
  · rw [if_pos hempty] at hconvert ⊢
    simp only [hconvert]
    rw [if_neg hpos]
  · rw [if_neg hempty, if_pos (hfit.resolve_left hempty)] at hconvert
    rw [if_neg hempty]
    simp only [hconvert]
    rw [if_neg hpos]

/-! The loop starts `skip` units before the end, where `sizeof(WCHAR)` is `skip` units of the
source. -/

section Text

variable {skip byteCount : ℕ} (h : Documented enc out api) (hskip : unit * skip = sizeofWchar)
  (hrep : (out replacementCharacter).length * (skip - 1) ≤ 1)
  (hbytes : byteCount = unit * src.length) (hlt : byteCount < 2 ^ 32)
  (hint : src.length < 2 ^ 31) (hsrc : src ≠ [])
include h hskip hrep hbytes hlt hint

/-- The loop, where the whole text does not fit. -/
theorem retry_start (hdst : 0 < dst.length) (hlong : dst.length < (api.lossy src).length) :
    ∃ r, retry api unit src (byteCount + 1) ((byteCount + 2 ^ 32 - sizeofWchar) % 2 ^ 32) dst =
        some r ∧ Retried api src dst.length (src.length - skip) r := by
  have hunit : 0 < unit := by
    unfold sizeofWchar at hskip
    apply Nat.pos_of_ne_zero
    rintro rfl
    omega
  -- a text that is not longer than `skip` units fits
  have hle : skip ≤ src.length := by
    by_contra hlt'
    have hlen := h.length_lossy src
    have hmul : (out replacementCharacter).length * src.length ≤
        (out replacementCharacter).length * (skip - 1) := Nat.mul_le_mul_left _ (by omega)
    omega
  have hmul : unit * src.length = unit * (src.length - skip) + sizeofWchar := by
    rw [← hskip, ← Nat.mul_add, Nat.sub_add_cancel hle]
  have htemp : (byteCount + 2 ^ 32 - sizeofWchar) % 2 ^ 32 = unit * (src.length - skip) := by
    have hsub : byteCount + 2 ^ 32 - sizeofWchar = unit * (src.length - skip) + 2 ^ 32 := by omega
    rw [hsub, Nat.add_mod_right]
    exact Nat.mod_eq_of_lt (by omega)
  have hturns : src.length ≤ byteCount := by
    rw [hbytes]
    exact Nat.le_mul_of_pos_left _ hunit
  rw [htemp]
  exact retry_spec h hunit hdst (Nat.sub_le _ _) (by omega) (by omega) (by omega)

include hsrc

/-- Text that is ill-formed. -/
theorem convertText_none (hnone : api.strict src = none) :
    ∃ status r, convertText api unit src byteCount dst = some (status, r) ∧
      (status = .someNotMapped ∨ status = .bufferTooSmall) := by
  unfold convertText
  rcases @Api.convert_none _ _ api _ dst hsrc hnone with ⟨error, herror, hconvert⟩
  simp only [hconvert, if_true]
  rcases herror with rfl | ⟨rfl, hpos, hlong⟩
  · exact ⟨_, _, rfl, Or.inl rfl⟩
  · have hspill := api.length_spill true src dst
    have hretry := @retry_start _ _ _ _ api src unit (api.spill true src dst) _ _ h hskip hrep
      hbytes hlt hint (by omega) (by omega)
    rcases hretry with ⟨r, hr, -⟩
    simp only [hr]
    exact ⟨_, _, rfl, Or.inr rfl⟩

variable {cs : List Char}

/-- Well-formed text that does not fit. -/
theorem convertText_tooSmall (htext : src = cs.flatMap enc) (hdst : 0 < dst.length)
    (hlong : dst.length < (cs.flatMap out).length) :
    ∃ r, convertText api unit src byteCount dst = some (.bufferTooSmall, r.count, r.dst) ∧
      Retried api src dst.length (src.length - skip) r := by
  have hstrict : api.strict src = some (cs.flatMap out) := (h.strict_iff _ _).2 ⟨cs, htext, rfl⟩
  have hlossy : api.lossy src = cs.flatMap out := by rw [htext, h.lossy_text]
  have hconvert := @Api.convert_some _ _ api _ dst hsrc true _ hstrict
  rw [if_neg (by omega), if_neg (by omega)] at hconvert
  have hspill := api.length_spill true src dst
  have hretry := @retry_start _ _ _ _ api src unit (api.spill true src dst) _ _ h hskip hrep
    hbytes hlt hint (by omega) (by rw [hlossy]; omega)
  rcases hretry with ⟨r, hr, hretried⟩
  rw [hspill] at hretried
  refine ⟨r, ?_, hretried⟩
  unfold convertText
  simp only [hconvert, if_true, hr]
  rfl

end Text

/-! ## Cuts -/

theorem length_replacements (out : Char → List β) (r : ℕ) :
    ((List.replicate r replacementCharacter).flatMap out).length =
      r * (out replacementCharacter).length := by
  induction r with
  | zero => rw [List.replicate_zero, List.flatMap_nil, List.length_nil, Nat.zero_mul]
  | succ r ih =>
    rw [List.replicate_succ, List.flatMap_cons, List.length_append, ih, Nat.succ_mul]
    omega

section Cut

variable (h : Documented enc out api) {pre rest : List Char} {c : Char} {t : ℕ}
include h

/-- A part of a text that has whole characters in it starts with their conversion. -/
theorem prefix_lossy {q cs : List Char} (hq : q <+: cs) (ht : (q.flatMap enc).length ≤ t) :
    q.flatMap out <+: api.lossy ((cs.flatMap enc).take t) := by
  rcases Nat.lt_or_ge t (cs.flatMap enc).length with hlt | hge
  · rcases exists_cut hlt with ⟨pre, c, rest, rfl, hle, hlt'⟩
    have hpre : q.flatMap out <+: pre.flatMap out :=
      (prefix_of_length_le hq (Nat.lt_of_le_of_lt ht hlt')).flatMap out
    rw [take_cut hle (Nat.le_of_lt hlt')]
    rcases Nat.eq_zero_or_pos (t - (pre.flatMap enc).length) with hzero | hpos
    · rw [hzero, List.take_zero, List.append_nil, h.lossy_text]
      exact hpre
    · rcases h.lossy_cut pre c _ hpos (by omega) with ⟨r, -, -, hr⟩
      rw [hr]
      exact hpre.trans (List.prefix_append _ _)
  · rw [List.take_of_length_le hge, h.lossy_text]
    exact hq.flatMap out

/-- A part of a text that ends inside a character. -/
theorem lossy_inside (hlt : (pre.flatMap enc).length < t)
    (hlt' : t < (pre.flatMap enc).length + (enc c).length) :
    ∃ r, 1 ≤ r ∧ r ≤ t - (pre.flatMap enc).length ∧
      api.lossy (((pre ++ c :: rest).flatMap enc).take t) =
        pre.flatMap out ++ (List.replicate r replacementCharacter).flatMap out := by
  rw [take_cut (by omega) (by omega)]
  exact h.lossy_cut pre c _ (by omega) (by omega)

/-- A part of a text that ends between two characters. -/
theorem lossy_between :
    api.lossy (((pre ++ c :: rest).flatMap enc).take (pre.flatMap enc).length) =
      pre.flatMap out := by
  rw [List.flatMap_append, List.take_left, h.lossy_text]

variable (hle : (pre.flatMap out).length ≤ size)
  (hlt : size < (pre.flatMap out).length + (out c).length)
  (hstop : StopsAt api ((pre ++ c :: rest).flatMap enc) size start t)
include hlt hstop

/-- The loop ends before the end of the first character that does not fit. -/
theorem stop_lt : t < (pre.flatMap enc).length + (enc c).length := by
  by_contra hge
  have hmore : pre ++ [c] <+: pre ++ c :: rest := ⟨rest, by simp⟩
  have hreached : ((pre ++ [c]).flatMap enc).length ≤ t := by
    rw [length_flatMap_concat]
    omega
  have hlen := (prefix_lossy h hmore hreached).length_le
  have hfits := hstop.fits
  rw [length_flatMap_concat] at hlen
  omega

include hle

/-- When the loop ends at the longest prefix that fits: unless the replacement of the
character behind it fits too. -/
theorem retried_eq_iff (hrep : 0 < (out replacementCharacter).length)
    (hstart : (pre.flatMap enc).length ≤ start) :
    api.lossy (((pre ++ c :: rest).flatMap enc).take t) = pre.flatMap out ↔
      ¬ ((pre.flatMap out).length + (out replacementCharacter).length ≤ size ∧
        2 ≤ (enc c).length ∧ (pre.flatMap enc).length < start) := by
  have hbefore := stop_lt h hlt hstop
  have hbetween := @lossy_between _ _ _ _ _ h pre rest c
  -- the prefix itself fits, so the loop goes no further back
  have hge : (pre.flatMap enc).length ≤ t := by
    by_contra hlt'
    have hbeyond := hstop.beyond _ (Nat.lt_of_not_le hlt') hstart
    rw [hbetween] at hbeyond
    omega
  constructor
  · rintro heq ⟨hfit, htwo, hstart'⟩
    rcases Nat.eq_or_lt_of_le hge with hat | hlater
    · -- the first unit of the character behind it could have been kept
      have hbeyond := hstop.beyond ((pre.flatMap enc).length + 1) (by omega) (by omega)
      rcases @lossy_inside _ _ _ _ _ h pre rest c ((pre.flatMap enc).length + 1)
        (by omega) (by omega) with ⟨r, hr, hr', hlossy⟩
      have hone : r = 1 := by omega
      rw [hlossy, List.length_append, length_replacements out, hone] at hbeyond
      omega
    · rcases @lossy_inside _ _ _ _ _ h pre rest c t hlater hbefore with ⟨r, hr, -, hlossy⟩
      have hlen := congrArg List.length heq
      have hmul := Nat.mul_le_mul_right (out replacementCharacter).length hr
      rw [hlossy, List.length_append, length_replacements out] at hlen
      omega
  · intro hnot
    rcases Nat.eq_or_lt_of_le hge with hat | hlater
    · rw [← hat, hbetween]
    · exfalso
      rcases @lossy_inside _ _ _ _ _ h pre rest c t hlater hbefore with ⟨r, hr, -, hlossy⟩
      have hfits := hstop.fits
      have hle' := hstop.le_start
      have hmul := Nat.mul_le_mul_right (out replacementCharacter).length hr
      rw [hlossy, List.length_append, length_replacements out] at hfits
      exact hnot ⟨by omega, by omega, by omega⟩

end Cut

/-! ## What the routines promise -/

/-- What a call promises. A text that was cut off ends with its last whole character that
fits, and the number of bytes reported is that of this prefix; a success means a
destination that holds the whole conversion; and the count is written. -/
structure KeepsPrefix (enc : Char → List α) (out : Char → List β)
    (c : UtfCall α β sizeofSource sizeofDestination) (r : UtfOutcome β) : Prop where
  truncated : r.status = .bufferTooSmall → ∀ (cs : List Char) k, c.text = cs.flatMap enc →
    r.reported = some k → ∃ pre, Longest out cs (c.maxByteCount / sizeofDestination) pre ∧
      k = (pre.flatMap out).length * sizeofDestination ∧ pre.flatMap out <+: r.memory
  complete : r.status = .success → c.destination ≠ 0 →
    (∀ k, r.reported = some k → k ≤ c.maxByteCount) ∧
      ∃ cs : List Char, c.text = cs.flatMap enc ∧ cs.flatMap out <+: r.memory
  written : r.status = .success ∨ r.status = .someNotMapped ∨ r.status = .bufferTooSmall →
    c.actualByteCount = true → r.reported ≠ none

/-- When a call keeps its promise: a text that is empty has no count to report, a
destination for well-formed text has room for a unit, and the size of the destination
does not split a character. -/
structure Unsplit (enc : Char → List α) (Splits : List Char → ℕ → Prop)
    (c : UtfCall α β sizeofSource sizeofDestination) : Prop where
  uncounted : c.byteCount = 0 → c.actualByteCount = false
  room : c.byteCount ≠ 0 → c.destination ≠ 0 → (∃ cs : List Char, c.text = cs.flatMap enc) →
    c.maxByteCount / sizeofDestination ≠ 0
  whole : c.actualByteCount = true → c.destination ≠ 0 → ∀ cs, c.text = cs.flatMap enc →
    ¬ Splits cs (c.maxByteCount / sizeofDestination)

/-- The sizes of a destination at which the loop misses the longest prefix. -/
structure Splitting (enc : Char → List α) (out : Char → List β) (api : Api α β) (skip : ℕ)
    (Splits : List Char → ℕ → Prop) : Prop where
  tooSmall : ∀ cs size, Splits cs size → 0 < size ∧ size < (cs.flatMap out).length
  missed : ∀ cs size t, 0 < size → size < (cs.flatMap out).length →
    StopsAt api (cs.flatMap enc) size ((cs.flatMap enc).length - skip) t →
    ((∃ pre, Longest out cs size pre ∧
      api.lossy ((cs.flatMap enc).take t) = pre.flatMap out) ↔ ¬ Splits cs size)

section Routine

variable {c : UtfCall α β sizeofSource sizeofDestination} {skip : ℕ}
  {Splits : List Char → ℕ → Prop}

/-- An empty text. -/
theorem convertN_empty (hempty : c.byteCount = 0) :
    ∃ r, c.convertN api = some r ∧ (KeepsPrefix enc out c r ↔ Unsplit enc Splits c) := by
  refine ⟨⟨.success, none, c.memory⟩, ?_, ?_⟩
  · unfold UtfCall.convertN
    rw [if_pos hempty]
  · constructor
    · intro hkeeps
      have huncounted : c.actualByteCount = false := by
        rcases hactual : c.actualByteCount with _ | _
        · rfl
        · exact absurd rfl (hkeeps.written (Or.inl rfl) hactual)
      exact ⟨fun _ => huncounted, fun hne => absurd hempty hne, fun hactual => by
        rw [huncounted] at hactual
        cases hactual⟩
    · intro hunsplit
      refine ⟨nofun, fun _ _ => ⟨nofun, [], ?_⟩, fun _ hactual => ?_⟩
      · have hlength := c.length_text
        rw [hempty, Nat.zero_div] at hlength
        exact ⟨List.eq_nil_of_length_eq_zero hlength, List.nil_prefix⟩
      · rw [hunsplit.uncounted hempty] at hactual
        cases hactual

/-- A call behind the checks, from the conversion of its text. -/
theorem convertN_of_convertText {status : UtfStatus} {count : ℕ} {dst : List β}
    (hne : c.byteCount ≠ 0)
    (htext : convertText api sizeofSource c.text c.byteCount
      (if c.destination = 0 then [] else c.memory) = some (status, count, dst)) :
    c.convertN api = some
      { status := status
        reported := if c.actualByteCount then some (count * sizeofDestination % 2 ^ 32) else none
        memory := if c.destination = 0 then c.memory else dst } := by
  unfold UtfCall.convertN
  rw [if_neg hne]
  simp only [htext]
  rfl

/-- Outcomes that report a count if they can and are no success. -/
theorem keepsPrefix_of_not_text {status : UtfStatus} {count : ℕ} {memory : List β}
    (hstatus : status ≠ .success) (hill : ∀ cs : List Char, c.text ≠ cs.flatMap enc) :
    KeepsPrefix enc out c
      ⟨status, if c.actualByteCount then some count else none, memory⟩ where
  truncated := fun _ cs _ hcs => absurd hcs (hill cs)
  complete := fun hsuccess => absurd hsuccess hstatus
  written := fun _ hactual => by
    simp only [hactual, if_true]
    exact Option.some_ne_none _

variable (hbytes : c.byteCount = sizeofSource * c.text.length) (hne : c.byteCount ≠ 0)
include hbytes hne

theorem text_ne_nil : c.text ≠ [] := by
  intro hnil
  rw [hnil, List.length_nil, Nat.mul_zero] at hbytes
  exact hne hbytes

variable (h : Documented enc out api)
include h

/-- The conversion of a text that is not empty is not empty. -/
theorem conversion_ne_nil {cs : List Char} (hcs : c.text = cs.flatMap enc) :
    cs.flatMap out ≠ [] := by
  have hlossy := h.lossy_ne_nil c.text (text_ne_nil hbytes hne)
  rw [hcs, h.lossy_text] at hlossy
  exact hlossy

variable {cs : List Char} (hcs : c.text = cs.flatMap enc)
include hcs

/-- Well-formed text without a destination: the size that is needed. -/
theorem convertN_null (hnull : c.destination = 0) :
    ∃ r, c.convertN api = some r ∧ (KeepsPrefix enc out c r ↔ Unsplit enc Splits c) := by
  have htext := @convertText_success _ _ enc out api _ sizeofSource [] h c.byteCount cs
    (text_ne_nil hbytes hne) hcs (Or.inl rfl)
  refine ⟨_, convertN_of_convertText hne (by rw [if_pos hnull]; exact htext), ?_⟩
  apply iff_of_true
  · refine ⟨nofun, fun _ hdst => absurd hnull hdst, fun _ hactual => ?_⟩
    simp only [hactual, if_true]
    exact Option.some_ne_none _
  · exact ⟨fun hempty => absurd hempty hne, fun _ hdst => absurd hnull hdst,
      fun _ hdst => absurd hnull hdst⟩

/-- Well-formed text with a destination of no units: a success that has written nothing. -/
theorem convertN_query (hdst : c.destination ≠ 0)
    (hzero : c.maxByteCount / sizeofDestination = 0) :
    ∃ r, c.convertN api = some r ∧ (KeepsPrefix enc out c r ↔ Unsplit enc Splits c) := by
  have hlength : c.memory.length = 0 := by rw [c.length_memory, hzero]
  have htext := @convertText_success _ _ enc out api _ sizeofSource c.memory h c.byteCount cs
    (text_ne_nil hbytes hne) hcs (Or.inl hlength)
  refine ⟨_, convertN_of_convertText hne (by rw [if_neg hdst]; exact htext), ?_⟩
  apply iff_of_false
  · intro hkeeps
    rcases (hkeeps.complete rfl hdst).2 with ⟨cs', hcs', hprefix⟩
    simp only [hdst, if_false, hlength, if_true] at hprefix
    rw [List.eq_nil_of_length_eq_zero hlength, List.prefix_nil] at hprefix
    exact conversion_ne_nil hbytes hne h hcs' hprefix
  · intro hunsplit
    exact hunsplit.room hne hdst ⟨cs, hcs⟩ hzero

/-- Well-formed text that fits. -/
theorem convertN_fits (hsplits : Splitting enc out api skip Splits)
    (hdst : c.destination ≠ 0)
    (hfit : (cs.flatMap out).length ≤ c.maxByteCount / sizeofDestination) :
    ∃ r, c.convertN api = some r ∧ (KeepsPrefix enc out c r ↔ Unsplit enc Splits c) := by
  have hlength := c.length_memory
  have hpos := List.length_pos_of_ne_nil (conversion_ne_nil hbytes hne h hcs)
  have htext := @convertText_success _ _ enc out api _ sizeofSource c.memory h c.byteCount cs
    (text_ne_nil hbytes hne) hcs (Or.inr (by omega))
  rw [if_neg (by omega)] at htext
  refine ⟨_, convertN_of_convertText hne (by rw [if_neg hdst]; exact htext), ?_⟩
  apply iff_of_true
  · refine ⟨nofun, fun _ _ => ⟨fun k hk => ?_, cs, hcs, ?_⟩, fun _ hactual => ?_⟩
    · -- the number of bytes is at most the size
      split at hk
      · injection hk with hk
        rw [← hk]
        have hmul := Nat.mul_le_mul_right sizeofDestination hfit
        have hdiv := Nat.div_mul_le_self c.maxByteCount sizeofDestination
        have hmod := Nat.mod_le ((cs.flatMap out).length * sizeofDestination) (2 ^ 32)
        omega
      · cases hk
    · simp only [hdst, if_false]
      exact List.prefix_append _ _
    · simp only [hactual, if_true]
      exact Option.some_ne_none _
  · refine ⟨fun hempty => absurd hempty hne, fun _ _ _ => by omega, fun _ _ cs' hcs' hsplit => ?_⟩
    have hsmall := (hsplits.tooSmall _ _ hsplit).2
    have hsame : cs'.flatMap out = cs.flatMap out := by
      rw [← h.lossy_text cs', ← h.lossy_text cs, ← hcs, ← hcs']
    rw [hsame] at hsmall
    omega

variable (hskip : sizeofSource * skip = sizeofWchar)
  (hrep : (out replacementCharacter).length * (skip - 1) ≤ 1) (hint : c.text.length < 2 ^ 31)
include hskip hrep hint

/-- Well-formed text that does not fit. -/
theorem convertN_tooSmall (hunit : 0 < sizeofDestination)
    (hsplits : Splitting enc out api skip Splits) (hdst : c.destination ≠ 0)
    (hpos : 0 < c.maxByteCount / sizeofDestination)
    (hlong : c.maxByteCount / sizeofDestination < (cs.flatMap out).length) :
    ∃ r, c.convertN api = some r ∧ (KeepsPrefix enc out c r ↔ Unsplit enc Splits c) := by
  have htext := @convertText_tooSmall _ _ enc out api _ _ c.memory _ _ h hskip hrep hbytes
    c.byteCount_lt hint (text_ne_nil hbytes hne) _ hcs (by rw [c.length_memory]; exact hpos)
    (by rw [c.length_memory]; exact hlong)
  rcases htext with ⟨r, htext, t, hstop, hcount, hprefix⟩
  rw [c.length_memory] at hstop
  refine ⟨_, convertN_of_convertText hne (by rw [if_neg hdst]; exact htext), ?_⟩
  -- no overflow in the number of bytes
  have hfits := hstop.fits
  have hbytes' : r.count * sizeofDestination % 2 ^ 32 = r.count * sizeofDestination := by
    have hmul := Nat.mul_le_mul_right sizeofDestination hfits
    have hdiv := Nat.div_mul_le_self c.maxByteCount sizeofDestination
    have hlt := c.maxByteCount_lt
    rw [← hcount] at hmul
    exact Nat.mod_eq_of_lt (by omega)
  simp only [hdst, if_false, hbytes']
  -- what is reported and written is right when the loop ends at the prefix
  have hmissed : ∀ cs' : List Char, c.text = cs'.flatMap enc →
      ((∃ pre, Longest out cs' (c.maxByteCount / sizeofDestination) pre ∧
        r.count * sizeofDestination = (pre.flatMap out).length * sizeofDestination ∧
        pre.flatMap out <+: r.dst) ↔ ¬ Splits cs' (c.maxByteCount / sizeofDestination)) := by
    intro cs' hcs'
    have hsame : (cs'.flatMap out).length = (cs.flatMap out).length := by
      rw [← h.lossy_text cs', ← h.lossy_text cs, ← hcs, ← hcs']
    rw [hcs'] at hstop hcount hprefix
    rw [← hsplits.missed cs' _ t hpos (by omega) hstop]
    constructor
    · rintro ⟨pre, hlongest, hk, hpre⟩
      refine ⟨pre, hlongest, ?_⟩
      have hlen := Nat.eq_of_mul_eq_mul_right hunit hk
      rw [hcount] at hlen
      exact (List.prefix_of_prefix_length_le hprefix hpre (by omega)).eq_of_length hlen
    · rintro ⟨pre, hlongest, heq⟩
      rw [heq] at hcount hprefix
      exact ⟨pre, hlongest, by rw [hcount], hprefix⟩
  constructor
  · intro hkeeps
    refine ⟨fun hempty => absurd hempty hne, fun _ _ _ => by omega, fun hactual _ cs' hcs' => ?_⟩
    rw [← hmissed cs' hcs']
    exact hkeeps.truncated rfl cs' _ hcs' (by simp only [hactual, if_true])
  · intro hunsplit
    refine ⟨fun _ cs' k hcs' hk => ?_, nofun, fun _ hactual => ?_⟩
    · simp only at hk
      split at hk
      · rename_i hactual
        injection hk with hk
        rw [← hk]
        exact (hmissed cs' hcs').2 (hunsplit.whole hactual hdst cs' hcs')
      · cases hk
    · simp only [hactual, if_true]
      exact Option.some_ne_none _

end Routine

/-- A call behind the checks returns, and keeps its promise exactly when nothing is split. -/
theorem convertN_iff {c : UtfCall α β sizeofSource sizeofDestination} {skip : ℕ}
    {Splits : List Char → ℕ → Prop} (h : Documented enc out api)
    (hsplits : Splitting enc out api skip Splits) (hskip : sizeofSource * skip = sizeofWchar)
    (hrep : (out replacementCharacter).length * (skip - 1) ≤ 1) (hunit : 0 < sizeofDestination)
    (hbytes : c.byteCount = sizeofSource * c.text.length) (hint : c.text.length < 2 ^ 31) :
    ∃ r, c.convertN api = some r ∧ (KeepsPrefix enc out c r ↔ Unsplit enc Splits c) := by
  by_cases hne : c.byteCount = 0
  · exact convertN_empty hne
  by_cases hwell : ∃ cs : List Char, c.text = cs.flatMap enc
  · rcases hwell with ⟨cs, hcs⟩
    by_cases hdst : c.destination = 0
    · exact convertN_null hbytes hne h hcs hdst
    by_cases hzero : c.maxByteCount / sizeofDestination = 0
    · exact convertN_query hbytes hne h hcs hdst hzero
    by_cases hfit : (cs.flatMap out).length ≤ c.maxByteCount / sizeofDestination
    · exact convertN_fits hbytes hne h hcs hsplits hdst hfit
    · exact convertN_tooSmall hbytes hne h hcs hskip hrep hint hunit hsplits hdst
        (Nat.pos_of_ne_zero hzero) (Nat.lt_of_not_le hfit)
  · -- ill-formed text: no promise is made but for the count
    have hnone : api.strict c.text = none := by
      rw [Option.eq_none_iff_forall_ne_some]
      intro o ho
      rcases (h.strict_iff _ _).1 ho with ⟨cs, hcs, -⟩
      exact hwell ⟨cs, hcs⟩
    have htext := @convertText_none _ _ enc out api _ _
      (if c.destination = 0 then [] else c.memory) _ _ h hskip hrep hbytes c.byteCount_lt hint
      (text_ne_nil hbytes hne) hnone
    rcases htext with ⟨status, ⟨count, dst⟩, htext, hstatus⟩
    refine ⟨_, convertN_of_convertText hne htext, iff_of_true ?_ ?_⟩
    · apply keepsPrefix_of_not_text
      · rcases hstatus with rfl | rfl
        · exact nofun
        · exact nofun
      · exact fun cs hcs => hwell ⟨cs, hcs⟩
    · exact ⟨fun hempty => absurd hempty hne, fun _ _ hcs => absurd hcs hwell,
        fun _ _ cs hcs => absurd ⟨cs, hcs⟩ hwell⟩

end Wdutf.Rtl
