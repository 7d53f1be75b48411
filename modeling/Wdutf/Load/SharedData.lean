import Mathlib.Data.List.Basic
import Mathlib.Tactic.Common
import Wdutf.Load.Update

/-!
# Wdutf.Load.SharedData — the scan for references to the shared user data, `src/load.cpp`

The second scan of `DdkUpdateImage` writes `FE 7F 00 00 00 00` over `00 00 80 F7 FF FF`. The
zeros at the end of what it writes can be the start of a reference that was not there, and
they are a byte below `0x80` for one that begins right behind. Here `memcmp` reads no
further than to the first difference.

* `Upto` — the buffer at a turn, if the references before it have been replaced;
* `refersShared_undisturbed` — without such ends the scan finds what there was before it;
* `noneRunsOut_of_run`, `noRest_of_run` — and they are not there if it finds nothing else.
-/

namespace Wdutf.Load

open Wdutf.Block Wdutf.Sweep

variable {m b o : List UInt8} {i j k n x y : ℕ} {v : UInt8}

/-- What is left of a reference that begins with `k` zeros. -/
def sharedRest (k : ℕ) : List UInt8 := List.replicate k 0 ++ [0x80, 0xF7, 0xFF, 0xFF]

/-- No reference is followed by what its new zeros make a reference of, as far as the buffer
goes. -/
def NoRest (m : List UInt8) : Prop :=
  ∀ i, SharedAt m i → ∀ k ≤ 2, ¬ Agrees id m (i + 6) (sharedRest k)

/-- No reference runs out at the end of the buffer. -/
def NoneRunsOut (m : List UInt8) : Prop :=
  ∀ i < m.length, Agrees id m i sharedFrom → i + 6 ≤ m.length

/-! ## References that are apart -/

theorem SharedAt.room (h : SharedAt m i) : i + 6 ≤ m.length := h.2.2.2

theorem SharedAt.byte (h : SharedAt m i) (hv : sharedFrom[k]? = some v) : m[i + k]? = some v := by
  have hk : k < 6 := (List.getElem?_eq_some_iff.1 hv).1
  rcases h with ⟨-, -, hagrees, hlen⟩
  have hget : m[i + k]? = some m[i + k] := List.getElem?_eq_getElem (by omega)
  rw [hget, ← hagrees k v _ hv hget]
  rfl

theorem no_shared_inside (h : Agrees id m i sharedFrom) (hlen : i + 6 ≤ m.length) (hk : 0 < k)
    (hlt : k < 6) : ¬ Agrees id m (i + k) sharedFrom := by
  have hdiffer : ∀ k < 6, 0 < k → ∃ l < 6, k + l < 6 ∧ sharedFrom[k + l]? ≠ sharedFrom[l]? := by
    decide
  exact h.not_of_differ hlen (hdiffer k hlt hk)

theorem SharedAt.apart_of_agrees (h : SharedAt m i) (h' : Agrees id m j sharedFrom) (hij : i < j) :
    i + 6 ≤ j := by
  by_contra hlt
  have hoffset : j = i + (j - i) := by omega
  rw [hoffset] at h'
  exact no_shared_inside h.2.2.1 h.room (by omega) (by omega) h'

theorem SharedAt.apart (h : SharedAt m i) (h' : SharedAt m j) (hij : i < j) : i + 6 ≤ j :=
  h.apart_of_agrees h'.2.2.1 hij

/-- A reference right behind another one is not replaced. -/
theorem SharedAt.not_behind (h : SharedAt m i) : ¬ SharedAt m (i + 6) := by
  rintro ⟨-, ⟨c, hc, hlow⟩, -⟩
  have hlast : m[i + 5]? = some 0xFF := h.byte (k := 5) rfl
  have hsame : i + 6 - 1 = i + 5 := by omega
  rw [hsame, hlast] at hc
  rcases Option.some.inj hc with rfl
  exact absurd hlow (by decide)

/-- Two references that share a byte are the same. -/
theorem SharedAt.eq_of_covers (h : SharedAt m i) (h' : SharedAt m j) (hi : Covers sharedTo i x)
    (hj : Covers sharedTo j x) : i = j := by
  rcases hi with ⟨hle, hlt⟩
  rcases hj with ⟨hle', hlt'⟩
  change x < i + 6 at hlt
  change x < j + 6 at hlt'
  rcases Nat.lt_trichotomy i j with hij | heq | hji
  · have := h.apart h' hij
    omega
  · exact heq
  · have := h'.apart h hji
    omega

theorem refersShared_true_iff (hi : i ≤ m.length) :
    refersShared .toDifference m i = .ok true ↔ SharedAt m i := by
  rcases refersShared_cases hi with ⟨heq, hat⟩ | ⟨heq, hagrees, hlen⟩ | ⟨heq, hnot, -⟩
  · exact iff_of_true heq hat
  · rw [heq]
    refine iff_of_false (fun h => by cases h) fun hat => ?_
    have := hat.room
    omega
  · rw [heq]
    exact iff_of_false (fun h => by cases h) hnot

theorem refersShared_false (hi : i ≤ m.length) (hnot : ¬ Agrees id m i sharedFrom) :
    refersShared .toDifference m i = .ok false := by
  rcases refersShared_cases hi with ⟨-, hat⟩ | ⟨-, hagrees, -⟩ | ⟨heq, -⟩
  · exact absurd hat.2.2.1 hnot
  · exact absurd hagrees hnot
  · exact heq

theorem refersShared_congr (h : ∀ x, i - 1 ≤ x → m[x]? = b[x]?) :
    refersShared .toDifference m i = refersShared .toDifference b i := by
  unfold refersShared memcmp
  rw [reads_congr _ id _ fun x hx => h x (by omega), h (i - 1) (Nat.le_refl _)]

/-! ## The buffer at a turn -/

/-- The references before the offset have been replaced, and nothing else. -/
def Upto (m : List UInt8) (j : ℕ) (b : List UInt8) : Prop :=
  Substituted m (fun i => i < j ∧ SharedAt m i) sharedTo b

theorem Upto.beyond (h : Upto m j b) (hends : ∀ i < j, SharedAt m i → i + 6 ≤ y) (hx : y ≤ x) :
    b[x]? = m[x]? := by
  refine h.others x ?_
  rintro i ⟨hij, hat⟩ ⟨-, hlt⟩
  change x < i + 6 at hlt
  have := hends i hij hat
  omega

theorem Upto.replaced (h : Upto m j b) (hij : i < j) (hat : SharedAt m i)
    (hv : sharedTo[k]? = some v) : b[i + k]? = some v := h.cell ⟨hij, hat⟩ hv

/-- Behind the last reference before the turn nothing has changed. -/
theorem Upto.behind (h : Upto m j b) (hat : SharedAt m i) (hji : j ≤ i + 6) (hx : i + 6 ≤ x) :
    b[x]? = m[x]? := by
  refine h.beyond (y := i + 6) (fun i' hi' hat' => ?_) hx
  rcases Nat.lt_trichotomy i' i with hlt | rfl | hgt
  · have := hat'.apart hat hlt
    omega
  · exact Nat.le_refl _
  · have := hat.apart hat' hgt
    omega

/-- What begins in a replaced reference, or right behind it, is no reference. -/
theorem Upto.not_agrees (h : Upto m j b) (hrest : ∀ k ≤ 2, ¬ Agrees id m (i + 6) (sharedRest k))
    (hij : i < j) (hat : SharedAt m i) (hji : j ≤ i + 6) : ¬ Agrees id b j sharedFrom := by
  intro hagrees
  have hoffset : j = i + 1 ∨ j = i + 2 ∨ j = i + 3 ∨ (4 ≤ j - i ∧ j - i ≤ 6) := by omega
  rcases hoffset with rfl | rfl | rfl | ⟨hlow, hhigh⟩
  · have hbyte := h.replaced hij hat (k := 1) rfl
    exact absurd (hagrees 0 _ _ rfl hbyte) (by decide)
  · have hbyte := h.replaced hij hat (k := 4) rfl
    exact absurd (hagrees 2 _ _ rfl hbyte) (by decide)
  · have hbyte := h.replaced hij hat (k := 5) rfl
    exact absurd (hagrees 2 _ _ rfl hbyte) (by decide)
  · -- the zeros of this one, and what stood behind it
    refine hrest (j - i - 4) (by omega) ?_
    have hpattern : sharedRest (j - i - 4) = sharedFrom.drop (6 - (j - i)) := by
      have hoffset : j - i = 4 ∨ j - i = 5 ∨ j - i = 6 := by omega
      rcases hoffset with heq | heq | heq <;> rw [heq] <;> rfl
    have hend : j + (6 - (j - i)) = i + 6 := by omega
    have hbehind := hagrees.drop (6 - (j - i))
    rw [hend, ← hpattern] at hbehind
    exact (agrees_congr fun x hx => h.behind hat hji hx).1 hbehind

/-- The test at a turn is the one on the buffer before the scan. -/
theorem Upto.test_eq (h : Upto m j b) (hj : j < m.length) (hrest : NoRest m) :
    refersShared .toDifference b j = refersShared .toDifference m j := by
  by_cases hnear : ∃ i < j, SharedAt m i ∧ j ≤ i + 6
  case pos =>
    rcases hnear with ⟨i, hij, hat, hji⟩
    have hlen := h.length
    rw [refersShared_false (by omega) (h.not_agrees (hrest i hat) hij hat hji)]
    refine (refersShared_false (by omega) fun hagrees => ?_).symm
    have hend : j = i + 6 := by
      have := hat.apart_of_agrees hagrees hij
      omega
    rw [hend] at hagrees
    exact hrest i hat 2 (Nat.le_refl 2) hagrees
  case neg =>
    refine refersShared_congr fun x hx => h.beyond (y := j - 1) (fun i hij hat => ?_) hx
    by_contra hlt
    exact hnear ⟨i, hij, hat, by omega⟩

/-! ## The scan -/

theorem upto_of_fired
    (hb : sweep Stop.outOfBounds (refersShared .toDifference) sharedTo j m = .ok b)
    (hiff : ∀ i < j, Fired Stop.outOfBounds (refersShared .toDifference) sharedTo m i ↔
      SharedAt m i) :
    Upto m j b := by
  refine (substituted_of_fired hb fun i i' hlt hi' hf hf' => ?_).congr fun i => ?_
  · exact ((hiff i (by omega)).1 hf).apart ((hiff i' hi').1 hf') hlt
  · exact and_congr_right fun hi => hiff i hi

/-- The second scan finds the references that were there before it, if none is followed by
the rest of another. -/
theorem refersShared_undisturbed (hn : n ≤ m.length) (hrest : NoRest m) :
    Undisturbed Stop.outOfBounds (refersShared .toDifference) sharedTo n m := by
  intro j hj b hb
  have hiff : ∀ i ≤ j, ∀ b,
      sweep Stop.outOfBounds (refersShared .toDifference) sharedTo i m = .ok b →
      ∀ i' < i, Fired Stop.outOfBounds (refersShared .toDifference) sharedTo m i' ↔
        SharedAt m i' := by
    intro i
    induction i with
    | zero => intro _ _ _ i' hi'; omega
    | succ i ih =>
      intro hi b hb i' hi'
      rcases sweep_succ_ok hb with ⟨b', hb', -⟩
      have hbefore := ih (by omega) b' hb'
      rcases Nat.lt_succ_iff_lt_or_eq.1 hi' with hlt | rfl
      · exact hbefore i' hlt
      · -- the test at this turn
        have htest := (upto_of_fired hb' hbefore).test_eq (by omega) hrest
        rw [← refersShared_true_iff (by omega), ← htest]
        constructor
        · rintro ⟨b'', hb'', htrue⟩
          rw [hb'] at hb''
          rcases Except.ok.inj hb'' with rfl
          exact htrue
        · exact fun htrue => ⟨b', hb', htrue⟩
  exact (upto_of_fired hb (hiff j (Nat.le_refl j) b hb)).test_eq (by omega) hrest

/-! ## What the scan leaves -/

/-- A byte that no reference has is left as it is. -/
theorem kept_of_not_mem {r : List UInt8}
    (h : sweep Stop.outOfBounds (refersShared .toDifference) sharedTo n m = .ok r)
    (hv : m[x]? = some v) (hmem : v ∉ sharedFrom) : r[x]? = some v := by
  rcases origin h x with ⟨heq, -⟩ | ⟨i, hi, hhit, -⟩
  · rw [heq, hv]
  · rcases exists_first_hit hhit with ⟨j, b, hb, htest, ⟨hle, hlt⟩, heq⟩
    change x < j + 6 at hlt
    have hx : x < m.length := (List.getElem?_eq_some_iff.1 hv).1
    have hat := (refersShared_true_iff (by rw [length_sweep hb]; omega)).1 htest
    have hlen : x - j < sharedFrom.length := by
      show x - j < 6
      omega
    have hget : sharedFrom[x - j]? = some sharedFrom[x - j] :=
      List.getElem?_eq_getElem _
    have hbyte := hat.byte hget
    rw [Nat.add_sub_cancel' hle, heq, hv] at hbyte
    rw [Option.some.inj hbyte] at hmem
    exact absurd (List.getElem_mem _) hmem

/-- The third byte of what is written is not found again. -/
theorem third_of_fired {r : List UInt8}
    (h : sweep Stop.outOfBounds (refersShared .toDifference) sharedTo n m = .ok r)
    (hn : n ≤ m.length)
    (hi : i < n) (hfired : Fired Stop.outOfBounds (refersShared .toDifference) sharedTo m i) :
    r[i + 2]? = some 0 := by
  have hhit : ∀ k < 6, Hit Stop.outOfBounds (refersShared .toDifference) sharedTo m (i + k) i :=
    fun k hk => ⟨hfired, Nat.le_add_right i k, by show i + k < i + 6; omega⟩
  rcases origin h (i + 2) with ⟨-, hnone⟩ | ⟨j, hj, ⟨⟨b, hb, htest⟩, hle, -⟩, heq, hlast⟩
  · exact absurd (hhit 2 (by decide)) (hnone i hi)
  have hat := (refersShared_true_iff (by rw [length_sweep hb]; omega)).1 htest
  have hge : i ≤ j := by
    by_contra hlt
    exact hlast i (by omega) hi (hhit 2 (by decide))
  have hcases : j = i ∨ j = i + 1 ∨ j = i + 2 := by omega
  rcases hcases with rfl | rfl | rfl
  · rw [heq, Nat.add_sub_cancel_left]
    rfl
  · -- the second byte that was written is not 0
    have hbyte := hat.byte (k := 0) (v := 0) rfl
    rcases origin hb (i + 1) with ⟨-, hnone⟩ | ⟨j, hj, ⟨-, -⟩, heq', hlast'⟩
    · exact absurd (hhit 1 (by decide)) (hnone i (Nat.lt_succ_self i))
    · have hsame : j = i := by
        by_contra hne
        exact hlast' i (by omega) (Nat.lt_succ_self i) (hhit 1 (by decide))
      rw [Nat.add_zero, heq', hsame, Nat.add_sub_cancel_left] at hbyte
      exact absurd (Option.some.inj hbyte) (by decide)
  · -- nor is the fifth one 0x80
    have hbyte := hat.byte (k := 2) (v := 0x80) rfl
    rcases origin hb (i + 4) with ⟨-, hnone⟩ | ⟨j, -, -, heq', -⟩
    · exact absurd (hhit 4 (by decide)) (hnone i (by omega))
    · rw [heq'] at hbyte
      exact absurd (List.mem_of_getElem? hbyte) (by decide)

/-! ## A scan that finds nothing else -/

theorem fired_iff_at (hb : sweep Stop.outOfBounds (refersShared .toDifference) sharedTo j m = .ok b)
    (hj : j ≤ m.length) :
    Fired Stop.outOfBounds (refersShared .toDifference) sharedTo m j ↔ SharedAt b j := by
  rw [← refersShared_true_iff (by rw [length_sweep hb]; exact hj)]
  constructor
  · rintro ⟨b', hb', htrue⟩
    rw [hb] at hb'
    rcases Except.ok.inj hb' with rfl
    exact htrue
  · exact fun htrue => ⟨b, hb, htrue⟩

/-- What is a reference before the scan is still one at its turn. -/
theorem Upto.sharedAt (h : Upto m j b) (hat : SharedAt m j) : SharedAt b j := by
  have hahead : ∀ x, j ≤ x → b[x]? = m[x]? :=
    fun x hx => h.beyond (fun i hij hat' => hat'.apart hat hij) hx
  refine ⟨hat.1, ?_, (agrees_congr hahead).2 hat.2.2.1, by rw [h.length]; exact hat.room⟩
  by_cases hnear : ∃ i < j, SharedAt m i ∧ j ≤ i + 6
  case pos =>
    rcases hnear with ⟨i, hij, hat', hji⟩
    have hend : j = i + 6 := by
      have := hat'.apart hat hij
      omega
    rw [hend] at hat
    exact absurd hat hat'.not_behind
  case neg =>
    rcases hat.2.1 with ⟨c, hc, hlow⟩
    refine ⟨c, ?_, hlow⟩
    rw [h.beyond (y := j - 1) (fun i hij hat' => ?_) (Nat.le_refl _)]
    · exact hc
    · by_contra hlt
      exact hnear ⟨i, hij, hat', by omega⟩

variable {r : List UInt8}

/-- If it finds references of some other buffer only, it finds those that were there. -/
theorem refersShared_iff
    (hrun : sweep Stop.outOfBounds (refersShared .toDifference) sharedTo m.length m = .ok r)
    (hkept : ∀ i < m.length, Fired Stop.outOfBounds (refersShared .toDifference) sharedTo m i →
      SharedAt o i)
    (hj : j < m.length) :
    Fired Stop.outOfBounds (refersShared .toDifference) sharedTo m j ↔ SharedAt m j := by
  induction j using Nat.strongRecOn with
  | ind j ih =>
    rcases exists_sweep hrun (Nat.le_of_lt hj) with ⟨b, hb⟩
    have hup := upto_of_fired hb fun i hij => ih i hij (by omega)
    constructor
    case mp =>
      intro hfired
      have hat := (fired_iff_at hb (Nat.le_of_lt hj)).1 hfired
      by_cases hnear : ∃ i < j, SharedAt m i ∧ j ≤ i + 6
      case pos =>
        -- in the other buffer both are references, and this one is not right behind the first
        rcases hnear with ⟨i, hij, hat', hji⟩
        have hother := hkept i (by omega) ((ih i hij (by omega)).2 hat')
        have hother' := hkept j hj hfired
        have hend : j = i + 6 := by
          have := hother.apart hother' hij
          omega
        rw [hend] at hother'
        exact absurd hother' hother.not_behind
      case neg =>
        have hlen := hup.length
        rw [← refersShared_true_iff (by omega)] at hat ⊢
        rw [← hat]
        refine (refersShared_congr fun x hx => ?_).symm
        refine hup.beyond (y := j - 1) (fun i hij hat' => ?_) hx
        by_contra hlt
        exact hnear ⟨i, hij, hat', by omega⟩
    case mpr =>
      intro hat
      exact (fired_iff_at hb (Nat.le_of_lt hj)).2 (hup.sharedAt hat)

section

variable (hrun : sweep Stop.outOfBounds (refersShared .toDifference) sharedTo m.length m = .ok r)
  (hiff : ∀ i < m.length, Fired Stop.outOfBounds (refersShared .toDifference) sharedTo m i ↔
    SharedAt m i)

include hrun hiff

/-- A turn of a scan that returns: a reference is compared in full. -/
theorem exists_turn (hj : j < m.length) : ∃ b, Upto m j b ∧ (SharedAt b j ↔ SharedAt m j) ∧
    (Agrees id b j sharedFrom → j + 6 ≤ m.length) := by
  rcases exists_test hrun hj with ⟨b, fires, hb, htest⟩
  have hlen := length_sweep hb
  refine ⟨b, upto_of_fired hb fun i hij => hiff i (by omega), ?_, ?_⟩
  · rw [← fired_iff_at hb (Nat.le_of_lt hj)]
    exact hiff j hj
  · intro hagrees
    rcases refersShared_cases (m := b) (i := j) (by omega) with
      ⟨-, hat⟩ | ⟨herror, -⟩ | ⟨-, -, hfits⟩
    · have := hat.room
      omega
    · rw [herror] at htest
      cases htest
    · have := hfits hagrees
      omega

theorem noneRunsOut_of_run : NoneRunsOut m := by
  intro j hj hagrees
  rcases exists_turn hrun hiff hj with ⟨b, hup, -, hfits⟩
  refine hfits ((agrees_congr fun x hx => ?_).2 hagrees)
  exact hup.beyond (fun i hij hat => hat.apart_of_agrees hagrees hij) hx

/-- The rest of a reference would be found behind the zeros. -/
theorem not_sharedRest (hat : SharedAt m i) (hk : k ≤ 2) (hlt : i + 4 + k < m.length) :
    ¬ Agrees id m (i + 6) (sharedRest k) := by
  intro hrest
  rcases exists_turn hrun hiff hlt with ⟨b, hup, hsame, hfits⟩
  have hpattern : sharedRest k = sharedFrom.drop (2 - k) := by
    have hcases : k = 0 ∨ k = 1 ∨ k = 2 := by omega
    rcases hcases with rfl | rfl | rfl <;> rfl
  have hzeros : ∀ l < 6, 3 ≤ l → b[i + l]? = some 0 := by
    intro l hl hle
    refine hup.replaced (by omega) hat ?_
    have hcases : l = 3 ∨ l = 4 ∨ l = 5 := by omega
    rcases hcases with rfl | rfl | rfl <;> rfl
  have hagrees : Agrees id b (i + 4 + k) sharedFrom := by
    intro l c v hc hv
    rcases Nat.lt_or_ge l (2 - k) with hfirst | hlater
    · -- a zero of the replaced reference
      have hzero := hzeros (4 + k + l) (by omega) (by omega)
      have hcases : l = 0 ∨ l = 1 := by omega
      rw [← Nat.add_assoc, ← Nat.add_assoc, hv] at hzero
      rw [Option.some.inj hzero]
      rcases hcases with rfl | rfl <;> exact Option.some.inj hc
    · have hplace : i + 4 + k + l = i + 6 + (l - (2 - k)) := by omega
      rw [hplace, hup.behind hat (by omega) (Nat.le_add_right _ _)] at hv
      refine hrest (l - (2 - k)) c v ?_ hv
      rw [hpattern, List.getElem?_drop, Nat.add_sub_cancel' hlater]
      exact hc
  have hprevious : i + 4 + k - 1 = i + (3 + k) := by omega
  have hfound : SharedAt m (i + 4 + k) := by
    rw [← hsame]
    refine ⟨by omega, ⟨0, ?_, by decide⟩, hagrees, ?_⟩
    · rw [hprevious]
      exact hzeros (3 + k) (by omega) (by omega)
    · rw [hup.length]
      exact hfits hagrees
  have hend : k = 2 := by
    have := hat.apart hfound (by omega)
    omega
  rw [hend] at hfound
  exact hat.not_behind hfound

theorem noRest_of_run : NoRest m := by
  intro i hat k hk hrest
  rcases Nat.lt_or_ge (i + 6) m.length with hlt | hge
  · exact not_sharedRest hrun hiff hat hk (by omega) hrest
  · -- at the end of the buffer already the zeros run out
    have hlen := hat.room
    refine not_sharedRest hrun hiff hat (k := 0) (by omega) (by omega) ?_
    intro l c v _ hv
    rw [List.getElem?_eq_none (by omega)] at hv
    cases hv

end

end Wdutf.Load
