import Mathlib.Data.List.Basic
import Mathlib.Tactic.Common
import Wdutf.Load.Rename
import Wdutf.Load.SharedData

/-!
# Wdutf.Load.Patch — what the update makes of a driver file, `src/load.cpp`

The image should be the original one with the names and the references in it replaced, all
at once. The scans of `DdkUpdateImage` rewrite what they still have to read, they run up to
the end of the buffer, and they come after the headers have been changed.

* `Patched` — what the image should be;
* `Patchable` — the images for which that makes no difference;
* `overlap` — a name and a reference share at most the NUL behind `"hal.dll"`;
* `Patchable.patched` — what both scans make of a patchable image.
-/

namespace Wdutf.Load

open Wdutf.Block Wdutf.Sweep

variable {o r m named : List UInt8} {h i j k n x : ℕ} {a b c v : UInt8}

/-! ## The replacement at once -/

/-- Bytes that are the same but for the entry point and the flag. -/
def SameBut (h x : ℕ) (a b : UInt8) : Prop :=
  InEntry h x ∨ (x = h + 23 ∧ a ||| 0x20 = b ||| 0x20) ∨ a = b

/-- The buffer has the byte there, but for these. -/
def Has (h : ℕ) (r : List UInt8) (x : ℕ) (v : UInt8) : Prop := ∃ b, r[x]? = some b ∧ SameBut h x b v

/-- The buffer is the original with its names and its references replaced. The NUL of every
new name lies in the old one, or is the one that was behind it. -/
structure Patched (o r : List UInt8) (h : ℕ) : Prop where
  length : r.length = o.length
  terminated : ∀ i, HalAt o i → o[i + 7]? = some 0
  names : ∀ i k v, NameAt o i → ddkDll[k]? = some v → Has h r (i + k) v
  shared : ∀ i k v, SharedAt o i → sharedTo[k]? = some v → Has h r (i + k) v
  others : ∀ x v, o[x]? = some v → (∀ i, NameAt o i → ¬ Covers ddkDll i x) →
    (∀ i, SharedAt o i → ¬ Covers sharedTo i x) → Has h r x v

/-- The images for which the scans do just that. No name and no reference runs out at the
end, every `"hal.dll"` is terminated, and not by the start of a reference; the changed
headers make no name and spoil none (or none that does not read as replaced already); and
with all names replaced, the references are those of the original, none followed by the rest
of another one. -/
structure Patchable (o : List UInt8) (h : ℕ) : Prop where
  namesFit : ∀ i < o.length, ∀ name ∈ names, Agrees tolower (withHeaders o h) i name →
    i + name.length ≤ o.length
  terminated : ∀ i, HalAt o i → o[i + 7]? = some 0
  terminatorFree : ∀ i, HalAt o i → SharedAt o (i + 7) → InEntry h (i + 7)
  namesKept : ∀ i, NameAt (withHeaders o h) i → NameAt o i
  namesThere : ∀ i, NameAt o i →
    NameAt (withHeaders o h) i ∨ ∀ k v, ddkDll[k]? = some v → Has h o (i + k) v
  shared : ∃ named, Substituted (withHeaders o h) (NameAt (withHeaders o h)) ddkDll named ∧
    (∀ i, SharedAt named i ↔ SharedAt o i) ∧ NoneRunsOut named ∧ NoRest named

/-! ## Bytes -/

theorem SameBut.refl (h x : ℕ) (a : UInt8) : SameBut h x a a := Or.inr (Or.inr rfl)

theorem SameBut.symm (hs : SameBut h x a b) : SameBut h x b a := by
  rcases hs with hentry | ⟨hflag, heq⟩ | rfl
  · exact Or.inl hentry
  · exact Or.inr (Or.inl ⟨hflag, heq.symm⟩)
  · exact SameBut.refl h x a

theorem SameBut.trans (hs : SameBut h x a b) (hs' : SameBut h x b c) : SameBut h x a c := by
  rcases hs with hentry | ⟨hflag, heq⟩ | rfl
  · exact Or.inl hentry
  · rcases hs' with hentry | ⟨-, heq'⟩ | rfl
    · exact Or.inl hentry
    · exact Or.inr (Or.inl ⟨hflag, heq.trans heq'⟩)
    · exact Or.inr (Or.inl ⟨hflag, heq⟩)
  · exact hs'

/-- Outside the entry point such bytes differ in one bit at most. -/
theorem SameBut.or (hs : SameBut h x a b) (hentry : ¬ InEntry h x) :
    a ||| 0x20 = b ||| 0x20 := by
  rcases hs with hin | ⟨-, heq⟩ | rfl
  · exact absurd hin hentry
  · exact heq
  · rfl

/-- The changed headers are such a change. -/
theorem sameBut_withHeaders (ha : (withHeaders o h)[x]? = some a) (hb : o[x]? = some b) :
    SameBut h x a b := by
  by_cases hflag : x = h + 23
  case pos =>
    rw [hflag] at ha hb
    rw [withHeaders_flag hb] at ha
    refine Or.inr (Or.inl ⟨hflag, ?_⟩)
    rw [← Option.some.inj ha, UInt8.or_assoc, UInt8.or_self]
  case neg =>
    by_cases hentry : InEntry h x
    case pos => exact Or.inl hentry
    case neg =>
      rw [withHeaders_other hflag hentry, hb] at ha
      exact Or.inr (Or.inr (Option.some.inj ha).symm)

/-- What the entry point is overwritten with. -/
theorem not_inEntry (ha : (withHeaders o h)[x]? = some a) (hne : a ≠ 0) : ¬ InEntry h x := by
  intro hentry
  have hx := (List.getElem?_eq_some_iff.1 ha).1
  rw [length_withHeaders] at hx
  rw [withHeaders_entry hentry hx] at ha
  exact hne (Option.some.inj ha).symm

/-- The first letter of a name is that of the original, but for its case. -/
theorem start_original (ha : (withHeaders o h)[x]? = some a) (hstart : a ||| 0x20 ∈ starts) :
    ¬ InEntry h x ∧ ∃ b, o[x]? = some b ∧ a ||| 0x20 = b ||| 0x20 := by
  have hzero : a ≠ 0 := by
    rintro rfl
    exact absurd hstart (by decide)
  have hentry := not_inEntry ha hzero
  have hx := (List.getElem?_eq_some_iff.1 ha).1
  rw [length_withHeaders] at hx
  rcases exists_byte hx with ⟨b, hb⟩
  exact ⟨hentry, b, hb, (sameBut_withHeaders ha hb).or hentry⟩

/-! ## Overlaps in the original -/

/-- A byte of a name, or its NUL. -/
theorem NameAt.byte (hname : NameAt o i) (hx : Covers ddkDll i x) (hv : o[x]? = some v) :
    (∃ name ∈ names, name[x - i]? = some (v ||| 0x20)) ∨ (HalAt o i ∧ x = i + 7) := by
  rcases hx with ⟨hle, hlt⟩
  change x < i + 8 at hlt
  rcases hname with ⟨name, hmem, hagrees, hlen⟩
  rcases Nat.lt_or_ge (x - i) name.length with hin | hbehind
  · left
    have hletter := List.getElem?_eq_getElem hin
    rw [← Nat.add_sub_cancel' hle] at hv
    refine ⟨name, hmem, ?_⟩
    rw [or_of_agrees hmem hagrees hletter hv]
    exact hletter
  · right
    simp only [names, List.mem_cons, List.not_mem_nil, or_false] at hmem
    rcases hmem with rfl | rfl | rfl
    · change 12 ≤ x - i at hbehind
      omega
    · change 7 ≤ x - i at hbehind
      exact ⟨⟨hagrees, hlen⟩, by omega⟩
    · change 10 ≤ x - i at hbehind
      omega

/-- No letter is a byte of a reference. -/
theorem not_letter (hv : v ∈ sharedFrom) : ¬ ∃ name ∈ names, name[k]? = some (v ||| 0x20) := by
  have hall : ∀ name ∈ names, (sharedFrom.all fun v => decide (v ||| 0x20 ∉ name)) = true := by
    decide
  rintro ⟨name, hname, hget⟩
  exact of_decide_eq_true (List.all_eq_true.1 (hall name hname) v hv) (List.mem_of_getElem? hget)

theorem SharedAt.byte_at (hat : SharedAt o j) (hx : Covers sharedTo j x) :
    ∃ v, sharedFrom[x - j]? = some v ∧ o[x]? = some v ∧ v ∈ sharedFrom := by
  rcases hx with ⟨hle, hlt⟩
  have hk : x - j < sharedFrom.length := by
    change x < j + 6 at hlt
    show x - j < 6
    omega
  have hget := List.getElem?_eq_getElem hk
  have hbyte := hat.byte hget
  rw [Nat.add_sub_cancel' hle] at hbyte
  exact ⟨_, hget, hbyte, List.getElem_mem hk⟩

/-- A name and a reference overlap only in the NUL behind `"hal.dll"`. -/
theorem overlap (hname : NameAt o i) (hat : SharedAt o j) (hi : Covers ddkDll i x)
    (hj : Covers sharedTo j x) : HalAt o i ∧ x = i + 7 ∧ j = i + 7 := by
  rcases hat.byte_at hj with ⟨v, -, hv, hmem⟩
  rcases (hname.byte hi hv).resolve_left (not_letter hmem) with ⟨hhal, hx⟩
  refine ⟨hhal, hx, ?_⟩
  by_contra hne
  -- otherwise the letter before the NUL is a byte of the reference
  rcases hj with ⟨hle, hlt⟩
  have hi' : Covers ddkDll i (x - 1) := ⟨by omega, by show x - 1 < i + 8; omega⟩
  have hj' : Covers sharedTo j (x - 1) := ⟨by omega, by omega⟩
  rcases hat.byte_at hj' with ⟨v', -, hv', hmem'⟩
  rcases (hname.byte hi' hv').resolve_left (not_letter hmem') with ⟨-, hx'⟩
  omega

theorem or_of_terminated (hterminated : ∀ i, HalAt o i → o[i + 7]? = some 0) (hhal : HalAt o i)
    (hv : o[i + 7]? = some v) : v ||| 0x20 = 0x20 := by
  rw [hterminated i hhal] at hv
  rw [← Option.some.inj hv]
  rfl

/-- Two names that share a byte are the same. -/
theorem NameAt.eq_of_covers (hterminated : ∀ i, HalAt o i → o[i + 7]? = some 0)
    (hname : NameAt o i) (hname' : NameAt o j) (hi : Covers ddkDll i x)
    (hj : Covers ddkDll j x) : i = j := by
  rcases hi with ⟨hle, hlt⟩
  rcases hj with ⟨hle', hlt'⟩
  change x < i + 8 at hlt
  change x < j + 8 at hlt'
  rcases Nat.lt_trichotomy i j with hij | heq | hji
  · have := hname.apart hname' (fun hhal v => or_of_terminated hterminated hhal) hij
    omega
  · exact heq
  · have := hname'.apart hname (fun hhal v => or_of_terminated hterminated hhal) hji
    omega

/-- A name of both buffers is the same name in both. -/
theorem halAt_original (hname : NameAt o i) (hhal : HalAt (withHeaders o h) i) : HalAt o i := by
  rcases hname with ⟨name, hmem, hagrees, hroom⟩
  -- the first letters are the same
  rcases hhal.nameAt.start with ⟨s, hs, hstart⟩
  rcases start_original hs hstart with ⟨-, t, ht, hsame⟩
  have hfirst := or_of_agrees (k := 0) (c := 0x68) (by simp [names]) hhal.1 rfl hs
  simp only [names, List.mem_cons, List.not_mem_nil, or_false] at hmem
  rcases hmem with rfl | rfl | rfl
  · have hother := or_of_agrees (k := 0) (c := 0x6E) (by simp [names]) hagrees rfl ht
    rw [← hsame, hfirst] at hother
    exact absurd hother (by decide)
  · exact ⟨hagrees, hroom⟩
  · have hother := or_of_agrees (k := 0) (c := 0x77) (by simp [names]) hagrees rfl ht
    rw [← hsame, hfirst] at hother
    exact absurd hother (by decide)

/-- Behind it there is no letter, in both. -/
theorem or_behind_hal (hterminated : ∀ i, HalAt o i → o[i + 7]? = some 0) (hname : NameAt o i)
    (hhal : HalAt (withHeaders o h) i) (hv : (withHeaders o h)[i + 7]? = some v) :
    v ||| 0x20 = 0x20 := by
  have hnul := hterminated i (halAt_original hname hhal)
  by_cases hentry : InEntry h (i + 7)
  case pos =>
    have hx := (List.getElem?_eq_some_iff.1 hnul).1
    rw [withHeaders_entry hentry hx] at hv
    rw [← Option.some.inj hv]
    rfl
  case neg =>
    rw [(sameBut_withHeaders hv hnul).or hentry]
    rfl

/-! ## The scans of a patchable image -/

section

variable (hpatchable : Patchable o h)

include hpatchable

/-- The first scan replaces the names at once. -/
theorem Patchable.names_replaced
    (hnamed : Substituted (withHeaders o h) (NameAt (withHeaders o h)) ddkDll named) :
    sweep Stop.outOfBounds linksName ddkDll o.length (withHeaders o h) = .ok named := by
  have hlen := length_withHeaders o h
  have hend : ∀ i, NameAt (withHeaders o h) i → HalAt (withHeaders o h) i →
      ∀ v, (withHeaders o h)[i + 7]? = some v → v ||| 0x20 = 0x20 :=
    fun i hname hhal v hv =>
      or_behind_hal hpatchable.terminated (hpatchable.namesKept i hname) hhal hv
  have hsame : Undisturbed Stop.outOfBounds linksName ddkDll o.length (withHeaders o h) :=
    linksName_undisturbed (by omega) fun i hi hfired =>
      hend i (nameAt_of_links (by omega) hfired)
  have htest : ∀ i < o.length, ∀ e, linksName (withHeaders o h) i ≠ .error e := by
    intro i hi e herror
    rcases linksName_cases (m := withHeaders o h) (i := i) (by omega) with
      ⟨heq, -⟩ | ⟨-, name, hname, hagrees, hout⟩ | ⟨heq, -⟩
    · rw [heq] at herror
      cases herror
    · have := hpatchable.namesFit i hi name hname hagrees
      omega
    · rw [heq] at herror
      cases herror
  have hroom : ∀ i < o.length, linksName (withHeaders o h) i = .ok true →
      i + ddkDll.length ≤ (withHeaders o h).length := by
    intro i hi htrue
    have hname := (linksName_true_iff (by omega)).1 htrue
    by_cases hhal : HalAt (withHeaders o h) i
    case pos =>
      -- the NUL that was there
      have hhal' := halAt_original (hpatchable.namesKept i hname) hhal
      have hnul := (List.getElem?_eq_some_iff.1 (hpatchable.terminated i hhal')).1
      show i + 8 ≤ _
      omega
    case neg => exact hname.room hhal
  rcases hsame.returns htest hroom with ⟨r, hr⟩
  have hiff : ∀ i, (i < o.length ∧ Fired Stop.outOfBounds linksName ddkDll (withHeaders o h) i) ↔
      NameAt (withHeaders o h) i := by
    intro i
    constructor
    · rintro ⟨hi, hfired⟩
      exact nameAt_of_links (by omega) hfired
    · intro hname
      have hlt := hname.lt
      exact ⟨by omega, (hsame.fired_iff hr (by omega)).2
        ((linksName_true_iff (by omega)).2 hname)⟩
  have hreplaced := (substituted_of_fired hr fun i j hij hj hi hfired =>
    links_apart hij (by omega) hi hfired).congr hiff
  rw [hr, hreplaced.unique hnamed]

/-- What both replacements make of the original. -/
theorem Patchable.patched
    (hnamed : Substituted (withHeaders o h) (NameAt (withHeaders o h)) ddkDll named)
    (hshared : ∀ i, SharedAt named i ↔ SharedAt o i)
    (hr : Substituted named (SharedAt named) sharedTo r) : Patched o r h := by
  have hlen := length_withHeaders o h
  have hkept : ∀ x v, (∀ i, NameAt (withHeaders o h) i → ¬ Covers ddkDll i x) →
      o[x]? = some v → Has h named x v := by
    intro x v hnone hv
    rcases exists_byte (m := withHeaders o h) (x := x)
      (by rw [hlen]; exact (List.getElem?_eq_some_iff.1 hv).1) with ⟨a, ha⟩
    refine ⟨a, ?_, sameBut_withHeaders ha hv⟩
    rw [hnamed.others x hnone, ha]
  constructor
  case length => rw [hr.length, hnamed.length, hlen]
  case terminated => exact hpatchable.terminated
  case names =>
    intro i k v hname hv
    have hcovers := covers_add (i := i) hv
    have hnew : Has h named (i + k) v := by
      by_cases hseen : NameAt (withHeaders o h) i
      case pos =>
        exact ⟨v, hnamed.cell hseen hv, SameBut.refl h _ v⟩
      case neg =>
        -- it reads as replaced already
        rcases (hpatchable.namesThere i hname).resolve_left hseen k v hv with ⟨b, hb, hs⟩
        have hnone : ∀ j, NameAt (withHeaders o h) j → ¬ Covers ddkDll j (i + k) := by
          intro j hj hc
          have heq := hname.eq_of_covers hpatchable.terminated (hpatchable.namesKept j hj)
            hcovers hc
          rw [heq] at hseen
          exact hseen hj
        rcases hkept _ b hnone hb with ⟨a, ha, hs'⟩
        exact ⟨a, ha, hs'.trans hs⟩
    rcases hnew with ⟨a, ha, hs⟩
    by_cases hreference : ∃ j, SharedAt named j ∧ Covers sharedTo j (i + k)
    case pos =>
      -- only the NUL behind `"hal.dll"`, in the entry point
      rcases hreference with ⟨j, hat, hc⟩
      have hat' := (hshared j).1 hat
      rcases overlap hname hat' hcovers hc with ⟨hhal, hx, rfl⟩
      have hentry := hpatchable.terminatorFree i hhal hat'
      rw [← hx] at hentry
      rcases exists_byte (m := r) (x := i + k)
        (by rw [hr.length]; exact (List.getElem?_eq_some_iff.1 ha).1) with ⟨b, hb⟩
      exact ⟨b, hb, Or.inl hentry⟩
    case neg =>
      refine ⟨a, ?_, hs⟩
      rw [hr.others _ fun j hat hc => hreference ⟨j, hat, hc⟩, ha]
  case shared =>
    intro i k v hat hv
    exact ⟨v, hr.cell ((hshared i).2 hat) hv, SameBut.refl h _ v⟩
  case others =>
    intro x v hv hnames hreferences
    rcases hkept x v (fun i hi => hnames i (hpatchable.namesKept i hi)) hv with ⟨a, ha, hs⟩
    refine ⟨a, ?_, hs⟩
    rw [hr.others x fun i hi => hreferences i ((hshared i).1 hi), ha]

end

/-- The second scan replaces the references at once. -/
theorem shared_replaced (hends : NoneRunsOut named) (hrest : NoRest named) :
    ∃ r, sweep Stop.outOfBounds (refersShared .toDifference) sharedTo named.length named = .ok r ∧
      Substituted named (SharedAt named) sharedTo r := by
  have hsame := refersShared_undisturbed (Nat.le_refl named.length) hrest
  have htest : ∀ i < named.length, ∀ e, refersShared .toDifference named i ≠ .error e := by
    intro i hi e herror
    rcases refersShared_cases (Nat.le_of_lt hi) with ⟨heq, -⟩ | ⟨-, hagrees, hout⟩ | ⟨heq, -⟩
    · rw [heq] at herror
      cases herror
    · have := hends i hi hagrees
      omega
    · rw [heq] at herror
      cases herror
  have hroom : ∀ i < named.length, refersShared .toDifference named i = .ok true →
      i + sharedTo.length ≤ named.length :=
    fun i hi htrue => ((refersShared_true_iff (Nat.le_of_lt hi)).1 htrue).room
  rcases hsame.returns htest hroom with ⟨r, hr⟩
  have hiff : ∀ i < named.length,
      Fired Stop.outOfBounds (refersShared .toDifference) sharedTo named i ↔ SharedAt named i :=
    fun i hi => (hsame.fired_iff hr hi).trans (refersShared_true_iff (Nat.le_of_lt hi))
  refine ⟨r, hr, (upto_of_fired hr hiff).congr fun i => ?_⟩
  refine and_iff_right_of_imp fun hat => ?_
  have := hat.room
  omega

end Wdutf.Load
