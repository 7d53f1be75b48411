import Mathlib.Data.List.GetD
import Wdutf.Detours.Model

/-!
# Wdutf.Detours.Region — what holds of one region

* `RegionOk` — the counts of a region are right, and so is each of its detours;
* `RegionOk.setDetour`, `RegionOk.cleared`, `Counted.taken` — what a routine does to a region keeps
  it.
-/

namespace Wdutf.Detours

open Wdutf.Keyed

/-! ## Reading and writing detours -/

section Detours

variable {r : Region} {i j : ℕ} {d : Detour}

@[simp] theorem setDetour_address : (r.setDetour i d).address = r.address := rfl

@[simp] theorem setDetour_length : (r.setDetour i d).detours.length = r.detours.length :=
  List.length_set

theorem detour_setDetour_self (hi : i < r.detours.length) : (r.setDetour i d).detour i = d := by
  simp [Region.detour, Region.setDetour, List.getD_eq_getElem?_getD, hi]

theorem detour_setDetour_ne (h : j ≠ i) : (r.setDetour i d).detour j = r.detour j := by
  simp [Region.detour, Region.setDetour, List.getD_eq_getElem?_getD, List.getElem?_set_ne h.symm]

theorem setDetour_setDetour {d' : Detour} :
    (r.setDetour i d).setDetour i d' = r.setDetour i d' := by
  unfold Region.setDetour
  rw [List.set_set]

theorem detour_eq_getElem (hi : i < r.detours.length) : r.detour i = r.detours[i] :=
  List.getD_eq_getElem _ _ hi

theorem setDetour_self : r.setDetour i (r.detour i) = r := by
  unfold Region.setDetour
  by_cases hi : i < r.detours.length
  · rw [detour_eq_getElem hi, List.set_getElem_self]
  · rw [List.set_eq_of_length_le (Nat.not_lt.1 hi)]

/-- Behind its array, a region reads as free. -/
theorem detour_of_length_le (h : r.detours.length ≤ i) : r.detour i = .zero :=
  List.getD_eq_default _ _ h

theorem lt_length_of_used (h : (r.detour i).function ≠ 0) : i < r.detours.length := by
  by_contra hi
  rw [detour_of_length_le (Nat.not_lt.1 hi)] at h
  exact h rfl

theorem mem_of_used (h : (r.detour i).function ≠ 0) : r.detour i ∈ r.detours := by
  rw [detour_eq_getElem (lt_length_of_used h)]
  exact List.getElem_mem _

/-! ## Counts -/

/-- The number of detours with a function. -/
def Region.used (r : Region) : ℕ := r.detours.countP fun d => decide (d.function ≠ 0)

theorem used_setDetour (hi : i < r.detours.length) :
    (r.setDetour i d).used + (if (r.detour i).function ≠ 0 then 1 else 0) =
      r.used + if d.function ≠ 0 then 1 else 0 := by
  have hle := List.boole_getElem_le_countP (p := fun d : Detour => decide (d.function ≠ 0)) hi
  have hset := List.countP_set (p := fun d : Detour => decide (d.function ≠ 0)) (a := d) hi
  rw [detour_eq_getElem hi]
  show (r.detours.set i d).countP _ + _ = r.detours.countP _ + _
  rw [hset]
  simp only [decide_eq_true_eq] at hle ⊢
  omega

/-- The counts of a region. -/
structure Counted (r : Region) : Prop where
  length : r.detours.length = r.count
  freecount : r.freecount + r.used = r.count
  hwm_le : r.hwm ≤ r.count
  hwm : ∀ i, (r.detour i).function ≠ 0 → i < r.hwm

/-- A region without used detours is the one with all of them free. -/
theorem Counted.all_free (h : Counted r) (hfree : r.freecount = r.count) (i : ℕ) :
    (r.detour i).function = 0 := by
  have hcount := h.freecount
  have hzero : r.used = 0 := by omega
  by_contra hused
  exact List.countP_eq_zero.1 hzero (r.detour i) (mem_of_used hused) (by simpa using hused)

/-- A region with a free count has a free detour. -/
theorem Counted.exists_free (h : Counted r) (hfree : r.freecount ≠ 0) :
    ∃ i < r.count, (r.detour i).function = 0 := by
  by_contra hnone
  have hall : ∀ d ∈ r.detours, decide (d.function ≠ 0) = true := by
    intro d hd
    rcases List.getElem_of_mem hd with ⟨i, hi, rfl⟩
    rw [decide_eq_true_iff]
    intro hzero
    refine hnone ⟨i, h.length ▸ hi, ?_⟩
    rw [detour_eq_getElem hi]
    exact hzero
  have hused : r.used = r.count := (List.countP_eq_length.2 hall).trans h.length
  have hcount := h.freecount
  omega

/-- It is found. -/
theorem Counted.exists_find (h : Counted r) (hfree : r.freecount ≠ 0) :
    ∃ i, (List.range r.count).find? (fun i => (r.detour i).function = 0) = some i := by
  rcases h.exists_free hfree with ⟨j, hj, hfree⟩
  apply Option.ne_none_iff_exists'.1
  intro hnone
  exact List.find?_eq_none.1 hnone j (List.mem_range.2 hj) (by simpa using hfree)

/-- A write that keeps the function keeps the counts. -/
theorem Counted.setDetour (h : Counted r) (hsame : d.function = (r.detour i).function) :
    Counted (r.setDetour i d) := by
  by_cases hi : i < r.detours.length
  · constructor
    case length => exact setDetour_length.trans h.length
    case freecount =>
      have hused := used_setDetour (d := d) hi
      rw [hsame] at hused
      have hcount := h.freecount
      show r.freecount + (r.setDetour i d).used = r.count
      omega
    case hwm_le => exact h.hwm_le
    case hwm =>
      intro j hj
      by_cases hji : j = i
      · rw [hji, detour_setDetour_self hi, hsame] at hj
        rw [hji]
        exact h.hwm i hj
      · rw [detour_setDetour_ne hji] at hj
        exact h.hwm j hj
  · -- the write is lost
    have hlost : r.setDetour i d = r := by
      unfold Region.setDetour
      rw [List.set_eq_of_length_le (Nat.not_lt.1 hi)]
    rw [hlost]
    exact h

/-! ## The high-water mark -/

theorem lowerHwm_le (n : ℕ) : r.lowerHwm n ≤ n := by
  induction n with
  | zero => exact Nat.le_refl 0
  | succ n ih =>
    unfold Region.lowerHwm
    split
    · exact Nat.le_refl _
    · exact Nat.le_succ_of_le ih

/-- It stays above the used detours. -/
theorem lt_lowerHwm {n : ℕ} (hi : i < n) (hused : (r.detour i).function ≠ 0) :
    i < r.lowerHwm n := by
  induction n with
  | zero => exact absurd hi (Nat.not_lt_zero i)
  | succ n ih =>
    unfold Region.lowerHwm
    split
    · exact hi
    · rename_i hfree
      apply ih
      rcases Nat.lt_succ_iff_lt_or_eq.1 hi with hlt | heq
      · exact hlt
      · rw [heq] at hused
        exact absurd hused hfree

/-- The region with the mark lowered. -/
def Region.lowered (r : Region) : Region := { r with hwm := r.lowerHwm r.hwm }

@[simp] theorem lowered_address : r.lowered.address = r.address := rfl

theorem Counted.lowered (h : Counted r) : Counted r.lowered where
  length := h.length
  freecount := h.freecount
  hwm_le := Nat.le_trans (lowerHwm_le _) h.hwm_le
  hwm i hused := lt_lowerHwm (h.hwm i hused) hused

/-- The region after a detour was given up. -/
def Region.givenUp (r : Region) (i : ℕ) : Region :=
  { r.setDetour i .zero with freecount := r.freecount + 1 }

theorem givenUp_setDetour : (r.setDetour i d).givenUp i = r.givenUp i := by
  unfold Region.givenUp
  rw [setDetour_setDetour]
  rfl

/-- The region after `DdkFreeDetour` has given up a detour. -/
def Region.cleared (r : Region) (i : ℕ) : Region := (r.givenUp i).lowered

/-- The region after `DdkAllocateDetour` has chosen a detour. -/
def Region.taken (r : Region) (i : ℕ) (pFunction : Address) : Region :=
  { r.setDetour i ⟨pFunction, 0, []⟩ with
    hwm := if i ≥ r.hwm then i + 1 else r.hwm
    freecount := r.freecount - 1 }

theorem detour_taken_self {pFunction : Address} (hi : i < r.detours.length) :
    (r.taken i pFunction).detour i = ⟨pFunction, 0, []⟩ := detour_setDetour_self hi

theorem detour_taken_ne {pFunction : Address} (h : j ≠ i) :
    (r.taken i pFunction).detour j = r.detour j :=
  detour_setDetour_ne h

theorem Counted.cleared (h : Counted r) (hused : (r.detour i).function ≠ 0) :
    Counted (r.cleared i) := by
  have hi := lt_length_of_used hused
  apply Counted.lowered
  constructor
  case length => exact setDetour_length.trans h.length
  case freecount =>
    have hcount := h.freecount
    have hset := used_setDetour (d := .zero) hi
    rw [if_pos hused, if_neg (show ¬ Detour.zero.function ≠ 0 from not_not.2 rfl)] at hset
    show r.freecount + 1 + (r.setDetour i .zero).used = r.count
    omega
  case hwm_le => exact h.hwm_le
  case hwm =>
    intro j hj
    by_cases hji : j = i
    · rw [hji]
      exact h.hwm i hused
    · have hj : ((r.setDetour i .zero).detour j).function ≠ 0 := hj
      rw [detour_setDetour_ne hji] at hj
      exact h.hwm j hj

theorem Counted.taken {pFunction : Address} (h : Counted r) (hi : i < r.count)
    (hfree : (r.detour i).function = 0) (hne : pFunction ≠ 0) : Counted (r.taken i pFunction) := by
  rw [← h.length] at hi
  have hcount := h.freecount
  have hset := used_setDetour (d := ⟨pFunction, 0, []⟩) hi
  rw [if_neg (not_not.2 hfree), if_pos hne] at hset
  have hle : (r.setDetour i ⟨pFunction, 0, []⟩).used ≤ r.count := by
    rw [← h.length, ← setDetour_length (i := i) (d := ⟨pFunction, 0, []⟩)]
    exact List.countP_le_length
  constructor
  case length => exact setDetour_length.trans h.length
  case freecount =>
    show r.freecount - 1 + (r.setDetour i ⟨pFunction, 0, []⟩).used = r.count
    omega
  case hwm_le =>
    show (if i ≥ r.hwm then i + 1 else r.hwm) ≤ r.count
    split
    · rw [← h.length]
      exact hi
    · exact h.hwm_le
  case hwm =>
    intro j hj
    have hj : ((r.setDetour i ⟨pFunction, 0, []⟩).detour j).function ≠ 0 := hj
    show j < if i ≥ r.hwm then i + 1 else r.hwm
    by_cases hji : j = i
    · subst hji
      split
      · exact Nat.lt_succ_self j
      · omega
    · rw [detour_setDetour_ne hji] at hj
      have hlt := h.hwm j hj
      split
      · omega
      · exact hlt

end Detours

/-! ## The detours of a region -/

/-- What holds of the detour `i` of a region. -/
structure SlotOk (r : Region) (i : ℕ) (d : Detour) : Prop where
  free : d.function = 0 → d.intercepts = [] ∧ d.trampoline = 0
  used : d.function ≠ 0 → d.trampoline ≠ 0
  bounds : d.function ≠ 0 → ddkIsRegionWithinJumpBounds r d.function 0 = true
  linked : ∀ p ∈ d.intercepts, p.detour = some ⟨r.address, i⟩
  nodup : (d.intercepts.map Intercept.address).Nodup

/-- What holds of a region. -/
structure RegionOk (r : Region) : Prop where
  counted : Counted r
  slots : ∀ i, SlotOk r i (r.detour i)

section Slots

variable {r : Region} {i : ℕ} {d : Detour}

theorem slotOk_zero : SlotOk r i .zero :=
  ⟨fun _ => ⟨rfl, rfl⟩, fun h => absurd rfl h, fun h => absurd rfl h, nofun, List.nodup_nil⟩

/-- A region with the same address, size and detours. -/
theorem SlotOk.congr {r' : Region} (h : SlotOk r i d) (haddress : r'.address = r.address)
    (hsize : r'.size = r.size) : SlotOk r' i d := by
  refine ⟨h.free, h.used, ?_, ?_, h.nodup⟩
  · unfold ddkIsRegionWithinJumpBounds
    rw [haddress, hsize]
    exact h.bounds
  · rw [haddress]
    exact h.linked

/-- One detour is written, and the others are right. -/
theorem slots_setDetour (hothers : ∀ j, j ≠ i → SlotOk r j (r.detour j)) (hd : SlotOk r i d)
    (j : ℕ) :
    SlotOk r j ((r.setDetour i d).detour j) := by
  by_cases hji : j = i
  · subst hji
    by_cases hi : j < r.detours.length
    · rw [detour_setDetour_self hi]
      exact hd
    · rw [detour_of_length_le (by rw [setDetour_length]; exact Nat.not_lt.1 hi)]
      exact slotOk_zero
  · rw [detour_setDetour_ne hji]
    exact hothers j hji

/-- A detour is written that keeps its function. -/
theorem RegionOk.setDetour (h : RegionOk r) (hsame : d.function = (r.detour i).function)
    (hd : SlotOk r i d) : RegionOk (r.setDetour i d) where
  counted := h.counted.setDetour hsame
  slots j := (slots_setDetour (fun k _ => h.slots k) hd j).congr rfl rfl

theorem RegionOk.lowered (h : RegionOk r) : RegionOk r.lowered where
  counted := h.counted.lowered
  slots j := (h.slots j).congr rfl rfl

/-- A detour is given up. -/
theorem regionOk_cleared (hcounted : Counted r) (hothers : ∀ j, j ≠ i → SlotOk r j (r.detour j))
    (hused : (r.detour i).function ≠ 0) : RegionOk (r.cleared i) where
  counted := hcounted.cleared hused
  slots j := (slots_setDetour hothers slotOk_zero j).congr rfl rfl

theorem RegionOk.withRefcount (h : RegionOk r) (n : ℕ) : RegionOk { r with refcount := n } where
  counted := ⟨h.counted.length, h.counted.freecount, h.counted.hwm_le, h.counted.hwm⟩
  slots j := (h.slots j).congr rfl rfl

theorem newRegion_detour (pRegion size i : ℕ) : (newRegion pRegion size).detour i = .zero := by
  show (List.replicate _ Detour.zero).getD i .zero = .zero
  rw [List.getD_eq_getElem?_getD, List.getElem?_replicate]
  split
  · rfl
  · rfl

/-- A new region. -/
theorem regionOk_new (pRegion size : ℕ) : RegionOk (newRegion pRegion size) := by
  constructor
  case counted =>
    constructor
    case length => exact List.length_replicate
    case freecount =>
      show _ + (List.replicate _ Detour.zero).countP _ = _
      rw [List.countP_replicate, if_neg (by decide)]
      rfl
    case hwm_le => exact Nat.zero_le _
    case hwm =>
      intro i hi
      rw [newRegion_detour] at hi
      exact absurd rfl hi
  case slots =>
    intro i
    rw [newRegion_detour]
    exact slotOk_zero

end Slots

end Wdutf.Detours
