import Mathlib.Algebra.Group.Nat.Defs
import Mathlib.Algebra.GroupWithZero.Nat
import Mathlib.Data.List.Basic
import Mathlib.Order.Interval.Finset.Nat
import Mathlib.Tactic.Common
import Wdutf.Lib.Block
import Wdutf.Lib.Mapped

/-!
# Wdutf.Load.ImageData — the data sections of a driver, saved and restored, `src/load.cpp`

`DdkSaveImageData` copies the writable data sections of a driver image into one block,
`DdkRestoreImageData` copies them back when the image is still there after it was
unloaded. Three loops go over the section table: for the size of the block, to save and to
restore.

* `Packed` — the block that belongs to a section table: its selected sections, one behind
  the other;
* `saveSections_packed`, `restoreSections_packed` — the loops write it, and read it back;
* `imageData_restored` — so the selected sections are as they were, whatever happened
  between, and nothing else changes.
-/

namespace Wdutf.Load

open Wdutf.Memory Wdutf.Mapped Wdutf.Block

/-! ## The model -/

/-- The fields of an `IMAGE_SECTION_HEADER` that are read. -/
structure SectionHeader where
  virtualSize : UInt32
  virtualAddress : UInt32
  characteristics : UInt32
deriving DecidableEq, Repr

/-- Why a call does not return: `ddkfail`, or an access to memory that is not there. -/
inductive Stop where
  | fail
  | outOfBounds
deriving DecidableEq, Repr

/-- `isSaveData`: `IMAGE_SCN_CNT_INITIALIZED_DATA` or `IMAGE_SCN_CNT_UNINITIALIZED_DATA`, and
`IMAGE_SCN_MEM_WRITE`. -/
def isSaveData (p : SectionHeader) : Bool :=
  p.characteristics &&& 0xC0 ≠ 0 ∧ p.characteristics &&& 0x80000000 ≠ 0

/-- `malloc`: NULL, or a block of the size. -/
structure Heap where
  malloc : UInt32 → Option (List UInt8)
  size : ∀ {len block}, malloc len = some block → block.length = len.toNat

/-- The loop that adds up `len`. -/
def saveLength (pSection : List SectionHeader) : UInt32 :=
  pSection.foldl (fun len p => if isSaveData p = true then len + p.virtualSize else len) 0

/-- The loop that saves. The memory of the image starts at `pImage->h`, and `cp` is the
offset in the block. -/
def saveSections (memory : ℕ → Option UInt8) :
    List SectionHeader → List UInt8 → ℕ → Except Stop (List UInt8)
  | [], data, _ => .ok data
  | p :: pSection, data, cp =>
    if isSaveData p = true then do
      let bytes ← load Stop.outOfBounds memory p.virtualAddress.toNat p.virtualSize.toNat
      let data ← put Stop.outOfBounds data cp bytes
      saveSections memory pSection data (cp + p.virtualSize.toNat)
    else saveSections memory pSection data cp

/-- `DdkSaveImageData` on an image without data: `pImage->Data`. The section table is in the
headers, which stay as they are. -/
def ddkSaveImageData (heap : Heap) (pSection : List SectionHeader) (memory : ℕ → Option UInt8) :
    Except Stop (Option (List UInt8)) :=
  if saveLength pSection = 0 then .ok none
  else
    match heap.malloc (saveLength pSection) with
    | none => .error .fail
    | some data => (saveSections memory pSection data 0).map some

/-- The loop that restores. -/
def restoreSections (data : List UInt8) :
    List SectionHeader → (ℕ → Option UInt8) → ℕ → Except Stop (ℕ → Option UInt8)
  | [], memory, _ => .ok memory
  | p :: pSection, memory, cp =>
    if isSaveData p = true then do
      let bytes ← fetch Stop.outOfBounds (data.drop cp) p.virtualSize.toNat
      let memory ← save Stop.outOfBounds memory p.virtualAddress.toNat bytes
      restoreSections data pSection memory (cp + p.virtualSize.toNat)
    else restoreSections data pSection memory cp

/-- `DdkRestoreImageData`: the memory of the image. -/
def ddkRestoreImageData (pSection : List SectionHeader) (data : Option (List UInt8))
    (memory : ℕ → Option UInt8) : Except Stop (ℕ → Option UInt8) :=
  match data with
  | none => .ok memory
  | some data => restoreSections data pSection memory 0

/-! ## Section tables -/

/-- An address lies in a section. -/
def SectionHeader.Has (p : SectionHeader) (x : ℕ) : Prop :=
  p.virtualAddress.toNat ≤ x ∧ x < p.virtualAddress.toNat + p.virtualSize.toNat

/-- An address lies in a section that is saved. -/
def Selected (pSection : List SectionHeader) (x : ℕ) : Prop :=
  ∃ p ∈ pSection, isSaveData p = true ∧ p.Has x

/-- The sections lie in the image, each for itself. -/
structure WellFormed (pSection : List SectionHeader) (size : ℕ) : Prop where
  disjoint : pSection.Pairwise fun p q => ∀ x, ¬ (p.Has x ∧ q.Has x)
  inside : ∀ p ∈ pSection, ∀ x, p.Has x → x < size

/-- Every byte of a selected section is there. -/
def Accessible (pSection : List SectionHeader) (memory : ℕ → Option UInt8) : Prop :=
  ∀ x, Selected pSection x → memory x ≠ none

/-- The bytes of the selected sections, one section behind the other. -/
inductive Packed (memory : ℕ → Option UInt8) : List SectionHeader → List UInt8 → Prop
  | nil : Packed memory [] []
  | skip {p : SectionHeader} {pSection : List SectionHeader} {data : List UInt8} :
      isSaveData p = false → Packed memory pSection data → Packed memory (p :: pSection) data
  | save {p : SectionHeader} {pSection : List SectionHeader} {bytes data : List UInt8} :
      isSaveData p = true → bytes.length = p.virtualSize.toNat →
      bytes.map some = cells memory p.virtualAddress.toNat bytes.length →
      Packed memory pSection data → Packed memory (p :: pSection) (bytes ++ data)

/-- How many bytes that are. -/
def selectedSize (pSection : List SectionHeader) : ℕ :=
  ((pSection.filter isSaveData).map fun p => p.virtualSize.toNat).sum

variable {p : SectionHeader} {pSection : List SectionHeader} {memory memory' : ℕ → Option UInt8}
  {data packed : List UInt8} {size : ℕ}

theorem selected_cons {x : ℕ} :
    Selected (p :: pSection) x ↔ isSaveData p = true ∧ p.Has x ∨ Selected pSection x := by
  simp [Selected]

theorem selectedSize_skip (h : isSaveData p = false) :
    selectedSize (p :: pSection) = selectedSize pSection := by
  simp [selectedSize, h]

theorem selectedSize_save (h : isSaveData p = true) :
    selectedSize (p :: pSection) = p.virtualSize.toNat + selectedSize pSection := by
  simp [selectedSize, h]

theorem Accessible.tail (h : Accessible (p :: pSection) memory) : Accessible pSection memory :=
  fun x hx => h x (selected_cons.2 (Or.inr hx))

theorem Accessible.head (h : Accessible (p :: pSection) memory) (hsave : isSaveData p = true) :
    Present memory p.virtualAddress.toNat p.virtualSize.toNat :=
  fun x hle hlt => h x (selected_cons.2 (Or.inl ⟨hsave, hle, hlt⟩))

theorem Packed.length (h : Packed memory pSection packed) :
    packed.length = selectedSize pSection := by
  induction h with
  | nil => rfl
  | skip hskip _ ih => rw [selectedSize_skip hskip, ih]
  | save hsave hlen _ _ ih => rw [selectedSize_save hsave, List.length_append, hlen, ih]

theorem exists_packed (h : Accessible pSection memory) :
    ∃ packed, Packed memory pSection packed := by
  induction pSection with
  | nil => exact ⟨[], .nil⟩
  | cons p pSection ih =>
    rcases ih h.tail with ⟨packed, hpacked⟩
    cases hsave : isSaveData p with
    | false => exact ⟨packed, .skip hsave hpacked⟩
    | true =>
      rcases exists_cells (h.head hsave) with ⟨bytes, hlen, hbytes⟩
      rw [← hlen] at hbytes
      exact ⟨bytes ++ packed, .save hsave hlen hbytes hpacked⟩

/-! ## The size of the block -/

theorem mem_range_iff {x : ℕ} : x ∈ Finset.Ico p.virtualAddress.toNat
    (p.virtualAddress.toNat + p.virtualSize.toNat) ↔ p.Has x := Finset.mem_Ico

/-- Sections of their own take no more room than what they lie in. -/
theorem selectedSize_le_card {s : Finset ℕ}
    (hdisjoint : pSection.Pairwise fun p q => ∀ x, ¬ (p.Has x ∧ q.Has x))
    (hinside : ∀ p ∈ pSection, ∀ x, p.Has x → x ∈ s) : selectedSize pSection ≤ s.card := by
  induction pSection generalizing s with
  | nil => exact Nat.zero_le _
  | cons p pSection ih =>
    rcases List.pairwise_cons.1 hdisjoint with ⟨hp, hrest⟩
    cases hsave : isSaveData p with
    | false =>
      rw [selectedSize_skip hsave]
      exact ih hrest fun q hq => hinside q (List.mem_cons_of_mem p hq)
    | true =>
      have hsub : Finset.Ico p.virtualAddress.toNat
          (p.virtualAddress.toNat + p.virtualSize.toNat) ⊆ s :=
        fun x hx => hinside p List.mem_cons_self x (mem_range_iff.1 hx)
      have hle := ih (s := s \ Finset.Ico p.virtualAddress.toNat
        (p.virtualAddress.toNat + p.virtualSize.toNat)) hrest (by
          intro q hq x hx
          rw [Finset.mem_sdiff, mem_range_iff]
          exact ⟨hinside q (List.mem_cons_of_mem p hq) x hx, fun hpx => hp q hq x ⟨hpx, hx⟩⟩)
      have hcard := Finset.card_sdiff_add_card_eq_card hsub
      rw [Nat.card_Ico] at hcard
      rw [selectedSize_save hsave]
      omega

theorem WellFormed.selectedSize_le (h : WellFormed pSection size) :
    selectedSize pSection ≤ size := by
  have hle := selectedSize_le_card (s := Finset.range size) h.disjoint
    fun p hp x hx => Finset.mem_range.2 (h.inside p hp x hx)
  rwa [Finset.card_range] at hle

/-- The first loop, if its sum does not wrap. -/
theorem toNat_saveLength_from (len : UInt32)
    (hsum : len.toNat + selectedSize pSection < 2 ^ 32) :
    (pSection.foldl (fun len p => if isSaveData p = true then len + p.virtualSize else len)
      len).toNat = len.toNat + selectedSize pSection := by
  induction pSection generalizing len with
  | nil => rfl
  | cons p pSection ih =>
    rw [List.foldl_cons]
    cases hsave : isSaveData p with
    | false =>
      rw [selectedSize_skip hsave] at hsum ⊢
      exact ih len hsum
    | true =>
      rw [selectedSize_save hsave] at hsum ⊢
      have hadd : (len + p.virtualSize).toNat = len.toNat + p.virtualSize.toNat := by
        rw [UInt32.toNat_add]
        exact Nat.mod_eq_of_lt (by omega)
      rw [if_pos rfl, ih (len + p.virtualSize) (by omega), hadd]
      omega

theorem toNat_saveLength (hsum : selectedSize pSection < 2 ^ 32) :
    (saveLength pSection).toNat = selectedSize pSection := by
  have hfrom : (0 : UInt32).toNat + selectedSize pSection < 2 ^ 32 := by
    rw [UInt32.toNat_zero]
    omega
  have hlen := toNat_saveLength_from 0 hfrom
  rwa [UInt32.toNat_zero, Nat.zero_add] at hlen

theorem not_selected_of_size (h : selectedSize pSection = 0) (x : ℕ) :
    ¬ Selected pSection x := by
  induction pSection with
  | nil => simp [Selected]
  | cons p pSection ih =>
    cases hsave : isSaveData p with
    | false =>
      rw [selectedSize_skip hsave] at h
      simp [selected_cons, hsave, ih h]
    | true =>
      rw [selectedSize_save hsave] at h
      rw [selected_cons, not_or]
      refine ⟨?_, ih (by omega)⟩
      rintro ⟨-, hle, hlt⟩
      omega

/-! ## Saving -/

/-- The second loop writes the packed sections from the cursor on. -/
theorem saveSections_packed (h : Packed memory pSection packed) {cp : ℕ}
    (hroom : cp + packed.length ≤ data.length) :
    saveSections memory pSection data cp =
      .ok (data.take cp ++ packed ++ data.drop (cp + packed.length)) := by
  induction h generalizing data cp with
  | nil => simp [saveSections]
  | skip hskip _ ih =>
    rw [saveSections, if_neg (by simp [hskip])]
    exact ih hroom
  | @save p pSection bytes packed hsave hlen hbytes _ ih =>
    rw [List.length_append] at hroom
    have hload : load Stop.outOfBounds memory p.virtualAddress.toNat bytes.length = .ok bytes :=
      load_ok hbytes
    rw [hlen] at hload
    have hput : put Stop.outOfBounds data cp bytes = .ok _ := put_ok (by omega)
    have htake : (data.take cp ++ bytes).length = cp + bytes.length := by
      rw [List.length_append, List.length_take]
      omega
    have hroom' : cp + bytes.length + packed.length ≤
        (data.take cp ++ bytes ++ data.drop (cp + bytes.length)).length := by
      rw [List.length_append, htake, List.length_drop]
      omega
    have hnext := ih hroom'
    rw [saveSections, if_pos hsave, hload]
    show (put Stop.outOfBounds data cp bytes >>= fun data =>
      saveSections memory pSection data (cp + p.virtualSize.toNat)) = _
    rw [hput, ← hlen]
    refine hnext.trans ?_
    rw [← htake, List.take_left, List.drop_length_add_append, List.drop_drop, htake,
      List.length_append]
    simp only [List.append_assoc, Nat.add_assoc]

/-! ## Restoring -/

/-- The third loop reads them back, from a block that has them at the cursor. -/
theorem restoreSections_packed (h : Packed memory pSection packed) {cp : ℕ} {rest : List UInt8}
    (hdata : data.drop cp = packed ++ rest) (hmapped : Accessible pSection memory') :
    ∃ restored, restoreSections data pSection memory' cp = .ok restored ∧
      (∀ x, Selected pSection x → restored x = memory x) ∧
      ∀ x, ¬ Selected pSection x → restored x = memory' x := by
  induction h generalizing memory' cp with
  | nil => exact ⟨memory', rfl, fun x hx => by simp [Selected] at hx, fun _ _ => rfl⟩
  | @skip p pSection packed hskip _ ih =>
    have hiff : ∀ x, Selected (p :: pSection) x ↔ Selected pSection x := by
      intro x
      simp [selected_cons, hskip]
    rw [restoreSections, if_neg (by simp [hskip])]
    simp only [hiff]
    exact ih hdata hmapped.tail
  | @save p pSection bytes packed hsave hlen hbytes _ ih =>
    rw [List.append_assoc] at hdata
    have hfetch : fetch Stop.outOfBounds (data.drop cp) p.virtualSize.toNat = .ok bytes := by
      rw [hdata, ← hlen, fetch_append _ (Nat.le_refl _), List.take_length]
    have hpresent := hmapped.head hsave
    rw [← hlen] at hpresent
    have hstore : save Stop.outOfBounds memory' p.virtualAddress.toNat bytes = .ok _ :=
      save_ok hpresent
    rw [hbytes] at hstore
    -- what the memory is after this section
    have hinside : ∀ x, p.Has x →
        store memory' p.virtualAddress.toNat
          (cells memory p.virtualAddress.toNat bytes.length) x = memory x := by
      intro x hx
      rw [SectionHeader.Has, ← hlen] at hx
      exact store_cells memory memory' hx
    have houtside : ∀ x, ¬ p.Has x →
        store memory' p.virtualAddress.toNat
          (cells memory p.virtualAddress.toNat bytes.length) x = memory' x := by
      intro x hx
      rw [SectionHeader.Has, ← hlen] at hx
      exact store_of_not_mem (by rwa [length_cells])
    have hmapped' : Accessible pSection (store memory' p.virtualAddress.toNat
        (cells memory p.virtualAddress.toNat bytes.length)) := by
      intro x hx
      by_cases hp : p.Has x
      · rw [hinside x hp]
        rw [SectionHeader.Has, ← hlen] at hp
        exact present_of_cells hbytes x hp.1 hp.2
      · rw [houtside x hp]
        exact hmapped.tail x hx
    have hrest : data.drop (cp + bytes.length) = packed ++ rest := by
      rw [← List.drop_drop, hdata, List.drop_left]
    rcases ih hrest hmapped' with ⟨restored, hrun, hselected, hothers⟩
    refine ⟨restored, ?_, ?_, ?_⟩
    · rw [restoreSections, if_pos hsave, hfetch]
      show (save Stop.outOfBounds memory' p.virtualAddress.toNat bytes >>= fun memory =>
        restoreSections data pSection memory (cp + p.virtualSize.toNat)) = _
      rw [hstore, ← hlen]
      exact hrun
    · intro x hx
      by_cases hlater : Selected pSection x
      · exact hselected x hlater
      · have hp := ((selected_cons.1 hx).resolve_right hlater).2
        rw [hothers x hlater, hinside x hp]
    · intro x hx
      rw [selected_cons, not_or] at hx
      rw [hothers x hx.2]
      exact houtside x fun hp => hx.1 ⟨hsave, hp⟩

/-! ## Both passes -/

/-- What the restored memory is: the selected sections as they were when they were saved,
everything else as it is now. -/
structure Restored (pSection : List SectionHeader) (saved now restored : ℕ → Option UInt8) :
    Prop where
  selected : ∀ x, Selected pSection x → restored x = saved x
  others : ∀ x, ¬ Selected pSection x → restored x = now x

/-- **Image data save and restore.** For every section table of an image below `2 ^ 32`
bytes, and every memory that has the selected sections at least: the data are saved, unless
there is no memory for them, and restoring them into any later memory of the image puts
back the selected sections and changes nothing else. Neither pass touches a byte that is not
in a selected section or in the block, since then it would not return. -/
theorem imageData_restored (heap : Heap) (pSection : List SectionHeader) (size : ℕ)
    (memory : ℕ → Option UInt8) (hwell : WellFormed pSection size) (hsize : size < 2 ^ 32)
    (hmapped : Accessible pSection memory) :
    (heap.malloc (saveLength pSection) = none ∧
        ddkSaveImageData heap pSection memory = .error .fail) ∨
      ∃ data, ddkSaveImageData heap pSection memory = .ok data ∧
        ∀ now : ℕ → Option UInt8, Accessible pSection now →
          ∃ restored, ddkRestoreImageData pSection data now = .ok restored ∧
            Restored pSection memory now restored := by
  have hle := hwell.selectedSize_le
  have hsum : selectedSize pSection < 2 ^ 32 := by omega
  have hlength := toNat_saveLength hsum
  rcases exists_packed hmapped with ⟨packed, hpacked⟩
  by_cases hzero : saveLength pSection = 0
  case pos =>
    -- there is nothing to save: no section that is selected has a byte
    right
    refine ⟨none, if_pos hzero, fun now _ => ⟨now, rfl, ?_, fun _ _ => rfl⟩⟩
    have hnone : selectedSize pSection = 0 := by rw [← hlength, hzero, UInt32.toNat_zero]
    intro x hx
    exact absurd hx (not_selected_of_size hnone x)
  case neg =>
    cases hblock : heap.malloc (saveLength pSection) with
    | none =>
      left
      refine ⟨rfl, ?_⟩
      rw [ddkSaveImageData, if_neg hzero, hblock]
    | some block =>
      right
      have hroom := heap.size hblock
      have hlen := hpacked.length
      have hfits : 0 + packed.length ≤ block.length := by omega
      have hsaved := saveSections_packed hpacked hfits
      rw [List.take_zero, List.nil_append] at hsaved
      refine ⟨some (packed ++ block.drop (0 + packed.length)), ?_, ?_⟩
      · rw [ddkSaveImageData, if_neg hzero, hblock]
        exact congrArg (Except.map some) hsaved
      · intro now hnow
        have hdata : (packed ++ block.drop (0 + packed.length)).drop 0 =
            packed ++ block.drop (0 + packed.length) := List.drop_zero
        rcases restoreSections_packed hpacked hdata hnow with
          ⟨restored, hrun, hselected, hothers⟩
        exact ⟨restored, hrun, hselected, hothers⟩

/-- Memory that is never short, and not zeroed. -/
def fullHeap : Heap where
  malloc len := some (List.replicate len.toNat 0xCD)
  size h := by
    rw [← Option.some.inj h, List.length_replicate]

/-- Two data sections, and one of code between them. -/
def threeSections : List SectionHeader :=
  [⟨2, 4, 0xC0000040⟩, ⟨3, 8, 0x60000020⟩, ⟨2, 12, 0xC0000080⟩]

/-- All bytes have been changed: those of the data sections come back. -/
theorem imageData_restored_threeSections : ∃ data restored,
    ddkSaveImageData fullHeap threeSections (fun x => some (UInt8.ofNat x)) = .ok data ∧
      ddkRestoreImageData threeSections data (fun _ => some 99) = .ok restored ∧
      restored 5 = some 5 ∧ restored 12 = some 12 ∧ restored 8 = some 99 := by
  have hwell : WellFormed threeSections 14 := by
    constructor
    case disjoint =>
      have hapart : ∀ {p q : SectionHeader},
          p.virtualAddress.toNat + p.virtualSize.toNat ≤ q.virtualAddress.toNat →
          ∀ x, ¬ (p.Has x ∧ q.Has x) :=
        fun hle x hx => absurd (Nat.lt_of_lt_of_le hx.1.2 hle) (Nat.not_lt.2 hx.2.1)
      refine List.Pairwise.cons ?_ (List.Pairwise.cons ?_ (List.pairwise_singleton _ _))
      · intro q hq
        apply hapart
        revert q
        decide
      · intro q hq
        apply hapart
        revert q
        decide
    case inside =>
      intro p hp x hx
      refine Nat.lt_of_lt_of_le hx.2 ?_
      clear hx
      revert p
      decide
  have hdata : ∀ p ∈ threeSections, ∀ x, isSaveData p = true → p.Has x →
      Selected threeSections x := fun p hp x hsave hx => ⟨p, hp, hsave, hx⟩
  rcases imageData_restored fullHeap threeSections 14 (fun x => some (UInt8.ofNat x)) hwell
    (by decide) (fun x _ => Option.some_ne_none _) with ⟨hnone, -⟩ | ⟨data, hsave, hrestore⟩
  · cases hnone
  · rcases hrestore (fun _ => some 99) (fun x _ => Option.some_ne_none _) with
      ⟨restored, hrun, hrestored⟩
    refine ⟨data, restored, hsave, hrun, ?_, ?_, ?_⟩
    · exact hrestored.selected 5 (hdata ⟨2, 4, 0xC0000040⟩ (by decide) 5 (by decide)
        ⟨by decide, by decide⟩)
    · exact hrestored.selected 12 (hdata ⟨2, 12, 0xC0000080⟩ (by decide) 12 (by decide)
        ⟨by decide, by decide⟩)
    · refine hrestored.others 8 ?_
      rintro ⟨p, hp, hselected, hlow, hhigh⟩
      revert p
      decide

end Wdutf.Load
