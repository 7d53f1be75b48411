import Mathlib.Data.List.Basic
import Mathlib.Tactic.Common
import Wdutf.Load.Patch

/-!
# Wdutf.Load.Traces — what the scans leave in a patched image, `src/load.cpp`

A scan leaves a byte at every place where it has replaced something: the first letter of
`"ddk.dll"`, and the third byte of a moved reference. An image that is as it should be has
these bytes only where the original had a name or a reference.

* `nameAt_of_patched`, `sharedAt_of_patched` — so the scans have found nothing else;
* `Patchable.of_run` — and the original is one of those that can be patched;
* `ddkUpdateImage_all` — a `memcmp` that reads all bytes reads behind every image;
* `updateImage_patches_iff` — with one that stops before, exactly the images that can be
  patched are patched as they should be, without access outside the image.
-/

namespace Wdutf.Load

open Wdutf.Block Wdutf.Sweep

variable {o r named : List UInt8} {h i j k x : ℕ} {v : UInt8}

/-- A byte of a patched image outside the entry point. -/
theorem Has.or (hhas : Has h r x v) {b : UInt8} (hb : r[x]? = some b) (hentry : ¬ InEntry h x) :
    b ||| 0x20 = v ||| 0x20 := by
  rcases hhas with ⟨b', hb', hs⟩
  rw [hb] at hb'
  rw [Option.some.inj hb']
  exact hs.or hentry

theorem Patched.terminatorFree (hpatched : Patched o r h) (hhal : HalAt o i)
    (hat : SharedAt o (i + 7)) : InEntry h (i + 7) := by
  by_contra hentry
  have hnul := hpatched.names i 7 0 hhal.nameAt rfl
  rcases hpatched.shared (i + 7) 0 0xFE hat rfl with ⟨b, hb, hs⟩
  rw [Nat.add_zero] at hb hs
  have hbits := hnul.or hb hentry
  rw [hs.or hentry] at hbits
  exact absurd hbits (by decide)

section

variable (hpatched : Patched o r h)
  (hnamed : sweep Stop.outOfBounds linksName ddkDll o.length (withHeaders o h) = .ok named)
  (hr : sweep Stop.outOfBounds (refersShared .toDifference) sharedTo o.length named = .ok r)

include hpatched hnamed hr

/-- The first scan has replaced names of the original. -/
theorem nameAt_of_patched (hi : i < o.length)
    (hfired : Fired Stop.outOfBounds linksName ddkDll (withHeaders o h) i) : NameAt o i := by
  have hlen := length_withHeaders o h
  have hseen := nameAt_of_links (by omega) hfired
  rcases hseen.start with ⟨s, hs, hstart⟩
  rcases start_original hs hstart with ⟨hentry, t, ht, hsame⟩
  -- the first letter of the new name
  have hletter : r[i]? = some 0x64 := by
    have hreplaced := substituted_of_fired hnamed fun i j hij hj hi hj' =>
      links_apart hij (by omega) hi hj'
    refine kept_of_not_mem hr ?_ (by decide)
    exact hreplaced.cell (k := 0) ⟨hi, hfired⟩ rfl
  by_contra hnot
  by_cases hname : ∃ j, NameAt o j ∧ Covers ddkDll j i
  case pos =>
    rcases hname with ⟨j, hname, hcovers⟩
    rcases hcovers.exists_cell with ⟨v, hv⟩
    rcases hcovers with ⟨hle, hlt⟩
    change i < j + 8 at hlt
    have hne : i ≠ j := by
      rintro rfl
      exact hnot hname
    have hhas := hpatched.names j (i - j) v hname hv
    rw [Nat.add_sub_cancel' hle] at hhas
    have hbits := hhas.or hletter hentry
    rcases hname.byte ⟨hle, hlt⟩ ht with ⟨name, hmem, hget⟩ | ⟨-, hx⟩
    · -- where the new name has its other letters `d`, no name has a first letter
      have hall : ∀ name ∈ names, ∀ k < 8, 0 < k → ddkDll.getD k 0 ||| 0x20 = 0x64 →
          name.getD k 0 ∉ starts := by decide
      have hnew : ddkDll.getD (i - j) 0 = v := by rw [List.getD_eq_getElem?_getD, hv]; rfl
      have hold : name.getD (i - j) 0 = s ||| 0x20 := by
        rw [List.getD_eq_getElem?_getD, hget, hsame]
        rfl
      have hother := hall name hmem (i - j) (by omega) (by omega) (by rw [hnew, ← hbits]; rfl)
      rw [hold] at hother
      exact hother hstart
    · have hlast : i - j = 7 := by omega
      rw [hlast] at hv
      rw [← Option.some.inj hv] at hbits
      exact absurd hbits (by decide)
  case neg =>
    by_cases hreference : ∃ j, SharedAt o j ∧ Covers sharedTo j i
    case pos =>
      rcases hreference with ⟨j, hat, hcovers⟩
      rcases hcovers.exists_cell with ⟨v, hv⟩
      have hhas := hpatched.shared j (i - j) v hat hv
      rw [Nat.add_sub_cancel' hcovers.1] at hhas
      have hbits := hhas.or hletter hentry
      have hall : sharedTo.all (fun v => decide (v ||| 0x20 ≠ 0x64)) = true := by decide
      have hne := List.all_eq_true.1 hall v (List.mem_of_getElem? hv)
      exact absurd hbits.symm (of_decide_eq_true hne)
    case neg =>
      have hhas := hpatched.others i t ht (fun j hj hc => hname ⟨j, hj, hc⟩)
        fun j hj hc => hreference ⟨j, hj, hc⟩
      have hbits := hhas.or hletter hentry
      rw [← hsame] at hbits
      rw [← hbits] at hstart
      exact absurd hstart (by decide)

/-- The second scan has replaced references of the original. -/
theorem sharedAt_of_patched (hi : i < o.length)
    (hfired : Fired Stop.outOfBounds (refersShared .toDifference) sharedTo named i) :
    SharedAt o i := by
  have hlen := length_withHeaders o h
  have hlen' := length_sweep hnamed
  have hzero := third_of_fired hr (by omega) hi hfired
  -- the third byte of the reference was there from the start
  have hthird : o[i + 2]? = some 0x80 ∧ ¬ InEntry h (i + 2) := by
    rcases hfired with ⟨b, hb, htest⟩
    have hat := (refersShared_true_iff (by rw [length_sweep hb]; omega)).1 htest
    have hbyte := hat.byte (k := 2) (v := 0x80) rfl
    rcases origin hb (i + 2) with ⟨heq, -⟩ | ⟨j, -, -, heq, -⟩
    case inr =>
      rw [heq] at hbyte
      exact absurd (List.mem_of_getElem? hbyte) (by decide)
    rw [heq] at hbyte
    rcases origin hnamed (i + 2) with ⟨heq, -⟩ | ⟨j, -, -, heq, -⟩
    case inr =>
      rw [heq] at hbyte
      exact absurd (List.mem_of_getElem? hbyte) (by decide)
    rw [heq] at hbyte
    exact ⟨withHeaders_inv hbyte (by decide) (by decide), not_inEntry hbyte (by decide)⟩
  rcases hthird with ⟨hthird, hentry⟩
  have hmem : (0x80 : UInt8) ∈ sharedFrom := by decide
  by_cases hreference : ∃ j, SharedAt o j ∧ Covers sharedTo j (i + 2)
  case pos =>
    rcases hreference with ⟨j, hat, hcovers⟩
    rcases hat.byte_at hcovers with ⟨v, hv, hget, -⟩
    rw [hthird] at hget
    rw [← Option.some.inj hget] at hv
    have hall : ∀ k < 6, sharedFrom[k]? = some 0x80 → k = 2 := by decide
    rcases hcovers with ⟨hle, hlt⟩
    change i + 2 < j + 6 at hlt
    have hplace := hall (i + 2 - j) (by omega) hv
    have hsame : i = j := by omega
    rwa [hsame]
  case neg =>
    exfalso
    by_cases hname : ∃ j, NameAt o j ∧ Covers ddkDll j (i + 2)
    case pos =>
      rcases hname with ⟨j, hname, hcovers⟩
      rcases (hname.byte hcovers hthird).resolve_left (not_letter hmem) with ⟨hhal, hx⟩
      have hnul := hpatched.terminated j hhal
      rw [← hx, hthird] at hnul
      exact absurd hnul (by decide)
    case neg =>
      have hhas := hpatched.others (i + 2) _ hthird (fun j hj hc => hname ⟨j, hj, hc⟩)
        fun j hj hc => hreference ⟨j, hj, hc⟩
      exact absurd (hhas.or hzero hentry) (by decide)

/-! ## The original of a patched image -/

theorem undisturbed_of_patched :
    Undisturbed Stop.outOfBounds linksName ddkDll o.length (withHeaders o h) :=
  linksName_undisturbed (Nat.le_of_eq (length_withHeaders o h).symm) fun _ hi hfired hhal _ hv =>
    or_behind_hal hpatched.terminated (nameAt_of_patched hpatched hnamed hr hi hfired) hhal hv

theorem links_iff_of_patched (hi : i < o.length) :
    Fired Stop.outOfBounds linksName ddkDll (withHeaders o h) i ↔ NameAt (withHeaders o h) i := by
  rw [(undisturbed_of_patched hpatched hnamed hr).fired_iff hnamed hi, linksName_true_iff]
  rwa [length_withHeaders]

theorem namesFit_of_patched {name : List UInt8} (hi : i < o.length) (hname : name ∈ names)
    (hagrees : Agrees tolower (withHeaders o h) i name) : i + name.length ≤ o.length := by
  have hlen := length_withHeaders o h
  rcases exists_test hnamed hi with ⟨b, fires, hb, htest⟩
  rw [undisturbed_of_patched hpatched hnamed hr i hi b hb] at htest
  rcases linksName_cases (m := withHeaders o h) (i := i) (by omega) with
    ⟨-, name', hname', hagrees', hfits⟩ | ⟨herror, -⟩ | ⟨-, hnone⟩
  · rw [name_unique hname hname' hagrees hagrees' (by omega)]
    omega
  · rw [herror] at htest
    cases htest
  · exact absurd hagrees (hnone name hname)

/-- A byte of a reference that is another one now has been written by the second scan. -/
theorem fired_of_visible {f t : UInt8} (hat : SharedAt o i) (hf : sharedFrom[k]? = some f)
    (ht : sharedTo[k]? = some t) (hne : f ||| 0x20 ≠ t ||| 0x20) (hentry : ¬ InEntry h (i + k)) :
    Fired Stop.outOfBounds (refersShared .toDifference) sharedTo named i := by
  have hlen := length_withHeaders o h
  have hold := hat.byte hf
  have hx := (List.getElem?_eq_some_iff.1 hold).1
  have hcovers := covers_add (i := i) ht
  have hhas := hpatched.shared i k t hat ht
  rcases origin hr (i + k) with ⟨hsame, -⟩ | ⟨j, hj, ⟨hfired, hcovers'⟩, -⟩
  case inr =>
    have hat' := sharedAt_of_patched hpatched hnamed hr hj hfired
    rwa [hat.eq_of_covers hat' hcovers hcovers']
  exfalso
  rcases origin hnamed (i + k) with ⟨hsame', -⟩ | ⟨j, hj, ⟨hfired, hcovers'⟩, hletter, -⟩
  case inl =>
    -- nothing has been written there
    rcases exists_byte (m := withHeaders o h) (x := i + k) (by omega) with ⟨a, ha⟩
    have hbits := hhas.or (hsame.trans (hsame'.trans ha)) hentry
    rw [(sameBut_withHeaders ha hold).or hentry] at hbits
    exact hne hbits
  case inr =>
    -- the NUL of a name, which was there before
    have hname := nameAt_of_patched hpatched hnamed hr hj hfired
    rcases overlap hname hat hcovers' hcovers with ⟨hhal, hx', -⟩
    have hlast : i + k - j = 7 := by omega
    rw [hlast] at hletter
    have hbits := hhas.or (hsame.trans hletter) hentry
    rw [hx', hpatched.terminated j hhal] at hold
    rw [← Option.some.inj hold] at hne
    exact hne hbits

/-- The entry point does not cover both ends of a reference. -/
theorem fired_of_original (hat : SharedAt o i) :
    Fired Stop.outOfBounds (refersShared .toDifference) sharedTo named i := by
  by_cases hentry : InEntry h i
  case pos =>
    have hentry' : ¬ InEntry h (i + 5) := by
      rcases hentry with ⟨hle, hlt⟩
      rintro ⟨hle', hlt'⟩
      omega
    exact fired_of_visible hpatched hnamed hr hat (k := 5) rfl rfl (by decide) hentry'
  case neg => exact fired_of_visible hpatched hnamed hr hat (k := 0) rfl rfl (by decide) hentry

/-- A name that the headers have spoiled is not written to, so that it must read as replaced
already. -/
theorem namesThere_of_patched (hname : NameAt o i) : NameAt (withHeaders o h) i ∨
    ∀ k v, ddkDll[k]? = some v → Has h o (i + k) v := by
  by_cases hseen : NameAt (withHeaders o h) i
  case pos => exact Or.inl hseen
  case neg =>
    right
    intro k v hv
    have hlen := length_withHeaders o h
    have hcovers := covers_add (i := i) hv
    rcases hpatched.names i k v hname hv with ⟨b, hb, hs⟩
    have hx := (List.getElem?_eq_some_iff.1 hb).1
    rw [hpatched.length] at hx
    rcases exists_byte hx with ⟨c, hc⟩
    refine ⟨c, hc, ?_⟩
    by_cases hentry : InEntry h (i + k)
    case pos => exact Or.inl hentry
    case neg =>
      rcases exists_byte (m := withHeaders o h) (x := i + k) (by omega) with ⟨a, ha⟩
      have hsame : r[i + k]? = some a := by
        rcases origin hr (i + k) with ⟨heq, -⟩ | ⟨j, hj, ⟨hfired, hcovers'⟩, -⟩
        case inr =>
          have hat := sharedAt_of_patched hpatched hnamed hr hj hfired
          rcases overlap hname hat hcovers hcovers' with ⟨hhal, hx', rfl⟩
          rw [hx'] at hentry
          exact absurd (hpatched.terminatorFree hhal hat) hentry
        rcases origin hnamed (i + k) with ⟨heq', -⟩ | ⟨j, hj, ⟨hfired, hcovers'⟩, -⟩
        case inr =>
          have hname' := nameAt_of_patched hpatched hnamed hr hj hfired
          have hij := hname.eq_of_covers hpatched.terminated hname' hcovers hcovers'
          rw [hij] at hseen
          exact absurd (nameAt_of_links (by omega) hfired) hseen
        rw [heq, heq', ha]
      rw [hb] at hsame
      rw [Option.some.inj hsame] at hs
      exact (sameBut_withHeaders ha hc).symm.trans hs

/-- The original of an image that is patched as it should be. -/
theorem Patchable.of_run : Patchable o h := by
  have hlen := length_withHeaders o h
  have hlen' : named.length = o.length := (length_sweep hnamed).trans hlen
  have hnames : ∀ i, (i < o.length ∧
      Fired Stop.outOfBounds linksName ddkDll (withHeaders o h) i) ↔
        NameAt (withHeaders o h) i := by
    intro i
    constructor
    · rintro ⟨hi, hfired⟩
      exact (links_iff_of_patched hpatched hnamed hr hi).1 hfired
    · intro hname
      have hlt := hname.lt
      exact ⟨by omega, (links_iff_of_patched hpatched hnamed hr (by omega)).2 hname⟩
  have hreplaced := (substituted_of_fired hnamed fun i j hij hj hi hj' =>
    links_apart hij (by omega) hi hj').congr hnames
  have hrun := hr
  rw [← hlen'] at hrun
  have hkept : ∀ i < named.length,
      Fired Stop.outOfBounds (refersShared .toDifference) sharedTo named i → SharedAt o i :=
    fun i hi => sharedAt_of_patched hpatched hnamed hr (by omega)
  have hiff : ∀ i < named.length,
      Fired Stop.outOfBounds (refersShared .toDifference) sharedTo named i ↔ SharedAt named i :=
    fun i hi => refersShared_iff hrun hkept hi
  constructor
  case namesFit =>
    exact fun i hi name hname => namesFit_of_patched hpatched hnamed hr hi hname
  case terminated => exact hpatched.terminated
  case terminatorFree => exact fun i => hpatched.terminatorFree
  case namesKept =>
    intro i hname
    rcases (hnames i).2 hname with ⟨hi, hfired⟩
    exact nameAt_of_patched hpatched hnamed hr hi hfired
  case namesThere => exact fun i => namesThere_of_patched hpatched hnamed hr
  case shared =>
    refine ⟨named, hreplaced, fun i => ?_, noneRunsOut_of_run hrun hiff, noRest_of_run hrun hiff⟩
    constructor
    · intro hat
      have hroom := hat.room
      exact hkept i (by omega) ((hiff i (by omega)).2 hat)
    · intro hat
      have hroom := hat.room
      exact (hiff i (by omega)).1 (fired_of_original hpatched hnamed hr hat)

end

/-! ## Patched images -/

/-- An image that has neither the first letter of a name nor the third byte of a reference,
and does not end in a NUL, can be patched. -/
theorem patchable_of_none (hheaders : Headers o h) (hstarts : ∀ v ∈ o, v ||| 0x20 ∉ starts)
    (hthird : 0x80 ∉ o) (hlast : o[o.length - 1]? ≠ some 0) : Patchable o h := by
  have hinside := hheaders.inside
  have hlen := length_withHeaders o h
  -- the changed headers make none of these bytes
  have hstarts' : ∀ (x : ℕ) (s : UInt8), (withHeaders o h)[x]? = some s →
      s ||| 0x20 ∉ starts := by
    intro x s hs hstart
    rcases start_original hs hstart with ⟨-, t, ht, hsame⟩
    rw [hsame] at hstart
    exact hstarts t (List.mem_of_getElem? ht) hstart
  have hthird' : ∀ x : ℕ, (withHeaders o h)[x]? ≠ some 0x80 := fun x hx =>
    hthird (List.mem_of_getElem? (withHeaders_inv hx (by decide) (by decide)))
  have hnone : ∀ i, ¬ NameAt o i := by
    intro i hname
    rcases hname.start with ⟨v, hv, hstart⟩
    exact hstarts v (List.mem_of_getElem? hv) hstart
  have hnone' : ∀ i, ¬ NameAt (withHeaders o h) i := by
    intro i hname
    rcases hname.start with ⟨v, hv, hstart⟩
    exact hstarts' i v hv hstart
  have hshared : ∀ i, ¬ SharedAt o i :=
    fun i hat => hthird (List.mem_of_getElem? (hat.byte (k := 2) rfl))
  have hshared' : ∀ i, ¬ SharedAt (withHeaders o h) i :=
    fun i hat => hthird' _ (hat.byte (k := 2) rfl)
  constructor
  case namesFit =>
    intro i hi name hname hagrees
    rcases exists_byte (m := withHeaders o h) (x := i) (by omega) with ⟨s, hs⟩
    exact absurd (or_mem_starts hname hagrees hs) (hstarts' i s hs)
  case terminated => exact fun i hhal => absurd hhal.nameAt (hnone i)
  case terminatorFree => exact fun i hhal => absurd hhal.nameAt (hnone i)
  case namesKept => exact fun i hname => absurd hname (hnone' i)
  case namesThere => exact fun i hname => absurd hname (hnone i)
  case shared =>
    refine ⟨withHeaders o h, ⟨rfl, fun i x hname => absurd hname (hnone' i), fun x _ => rfl⟩,
      fun i => iff_of_false (hshared' i) (hshared i), ?_, fun i hat => absurd hat (hshared' i)⟩
    intro i hi hagrees
    by_cases hroom : i + 2 < o.length
    case pos =>
      rcases exists_byte (m := withHeaders o h) (x := i + 2) (by omega) with ⟨v, hv⟩
      have heq : v = 0x80 := hagrees 2 0x80 v rfl hv
      rw [heq] at hv
      exact absurd hv (hthird' _)
    case neg =>
      -- the first or the second byte of it is the last one of the image
      rcases exists_byte (m := withHeaders o h) (x := o.length - 1) (by omega) with ⟨v, hv⟩
      have hzero : v = 0 := by
        have hoffset : o.length - 1 = i + 0 ∨ o.length - 1 = i + 1 := by omega
        rcases hoffset with heq | heq
        · rw [heq] at hv
          exact hagrees 0 0 v rfl hv
        · rw [heq] at hv
          exact hagrees 1 0 v rfl hv
      rw [hzero, withHeaders_other (by omega) (by rintro ⟨-, hlt⟩; omega)] at hv
      exact absurd hv hlast

/-- An image that ends in a NUL cannot be patched: the NUL starts a reference that runs out
at the end. -/
theorem not_patchable_of_nul_at_end (hheaders : Headers o h)
    (hend : o[o.length - 1]? = some 0) : ¬ Patchable o h := by
  intro hpatchable
  have hinside := hheaders.inside
  have hlen := length_withHeaders o h
  rcases hpatchable.shared with ⟨named, hnamed, -, hends, -⟩
  have hlen' := hnamed.length
  have hseen : (withHeaders o h)[o.length - 1]? = some 0 := by
    rw [withHeaders_other (by omega) (by rintro ⟨-, hlt⟩; omega), hend]
  have hlast : named[o.length - 1]? = some 0 := by
    by_cases hname : ∃ i, NameAt (withHeaders o h) i ∧ Covers ddkDll i (o.length - 1)
    case pos =>
      -- no letter of the name, but its NUL
      rcases hname with ⟨i, hname, hcovers⟩
      rcases (hname.byte hcovers hseen).resolve_left (not_letter (by decide)) with ⟨-, hx⟩
      rw [hnamed.sites i _ hname hcovers, hx, Nat.add_sub_cancel_left]
      rfl
    case neg => rw [hnamed.others _ fun i hat hc => hname ⟨i, hat, hc⟩, hseen]
  have hagrees : Agrees id named (o.length - 1) sharedFrom := by
    refine agrees_cons.2 ⟨fun b hb => ?_, fun k c b hc hb => ?_⟩
    · rw [hlast] at hb
      exact (Option.some.inj hb).symm
    · have hout := (List.getElem?_eq_some_iff.1 hb).1
      omega
  have hfits := hends (o.length - 1) (by omega) hagrees
  omega

/-- A `memcmp` that reads all bytes reads behind every image: the scan goes on to the last byte. -/
theorem ddkUpdateImage_all (hheaders : Headers o h) {size : UInt32} (hsize : o.length = size.toNat)
    {entry : UInt32} : ddkUpdateImage .all o size ≠ .ok (entry, r) := by
  intro hrun
  have hinside := hheaders.inside
  rcases (ddkUpdateImage_ok_iff hheaders).1 hrun with ⟨-, named, hnamed, hr⟩
  have hlen : named.length = o.length := (length_sweep hnamed).trans (length_withHeaders o h)
  rcases exists_test hr (i := size.toNat - 1) (by omega) with ⟨b, fires, hb, htest⟩
  rw [refersShared_all (by rw [length_sweep hb]; omega)] at htest
  cases htest

/-- **Image patching.** For every image whose headers lie in it, of any size: the update
stays inside the image and leaves it with its names and references replaced, and nothing
else, exactly if `memcmp` reads no further than to the first difference, and the image is
patchable. -/
theorem updateImage_patches_iff (extent : Memcmp) (pBuffer : List UInt8) (size : UInt32) (h : ℕ)
    (hsize : pBuffer.length = size.toNat) (hheaders : Headers pBuffer h) :
    (∃ entry r, ddkUpdateImage extent pBuffer size = .ok (entry, r) ∧ Patched pBuffer r h) ↔
      extent = .toDifference ∧ Patchable pBuffer h := by
  cases extent with
  | all =>
    refine iff_of_false ?_ fun hextent => by cases hextent.1
    rintro ⟨entry, r, hrun, -⟩
    exact ddkUpdateImage_all hheaders hsize hrun
  | toDifference =>
    rw [and_iff_right rfl]
    simp only [ddkUpdateImage_ok_iff hheaders, ← hsize]
    constructor
    case mp =>
      rintro ⟨entry, r, ⟨-, named, hnamed, hr⟩, hpatched⟩
      exact Patchable.of_run hpatched hnamed hr
    case mpr =>
      intro hpatchable
      rcases hpatchable.shared with ⟨named, hnamed, hshared, hends, hrest⟩
      rcases shared_replaced hends hrest with ⟨r, hr, hreplaced⟩
      have hlen : named.length = pBuffer.length :=
        hnamed.length.trans (length_withHeaders pBuffer h)
      rw [hlen] at hr
      exact ⟨_, r, ⟨rfl, named, hpatchable.names_replaced hnamed, hr⟩,
        hpatchable.patched hnamed hshared hreplaced⟩

/-- Headers at the offset `64`, and nothing to replace. -/
theorem updateImage_patches_iff_headers : ∃ entry r,
    ddkUpdateImage .toDifference
      (List.replicate 60 0x90 ++ [64, 0, 0, 0] ++ List.replicate 264 0x90) 328 =
      .ok (entry, r) ∧
    Patched (List.replicate 60 0x90 ++ [64, 0, 0, 0] ++ List.replicate 264 0x90) r 64 :=
  (updateImage_patches_iff _ _ 328 64 (by decide +kernel)
    ⟨by decide +kernel, by decide +kernel, by decide +kernel⟩).2
    ⟨rfl, patchable_of_none ⟨by decide +kernel, by decide +kernel, by decide +kernel⟩
      (by decide +kernel) (by decide +kernel) (by decide +kernel)⟩

/-- The same headers, zeroed: the second scan compares what lies behind the image, however
little `memcmp` reads. -/
theorem updateImage_patches_fails :
    Headers (List.replicate 60 0 ++ [64, 0, 0, 0] ++ List.replicate 264 0) 64 ∧
    ∀ extent, ¬ ∃ entry r, ddkUpdateImage extent
        (List.replicate 60 0 ++ [64, 0, 0, 0] ++ List.replicate 264 0) 328 = .ok (entry, r) ∧
      Patched (List.replicate 60 0 ++ [64, 0, 0, 0] ++ List.replicate 264 0) r 64 := by
  have hheaders : Headers (List.replicate 60 0 ++ [64, 0, 0, 0] ++ List.replicate 264 0) 64 :=
    ⟨by decide +kernel, by decide +kernel, by decide +kernel⟩
  have hsize : (List.replicate 60 0 ++ [64, 0, 0, 0] ++ List.replicate 264 0 :
      List UInt8).length = (328 : UInt32).toNat := by decide +kernel
  refine ⟨hheaders, ?_⟩
  rintro extent ⟨entry, r, hrun, hpatched⟩
  cases extent with
  | all => exact ddkUpdateImage_all hheaders hsize hrun
  | toDifference =>
    rcases (ddkUpdateImage_ok_iff hheaders).1 hrun with ⟨-, named, hnamed, hr⟩
    rw [← hsize] at hnamed hr
    exact not_patchable_of_nul_at_end hheaders (by decide +kernel)
      (Patchable.of_run hpatched hnamed hr)

end Wdutf.Load
