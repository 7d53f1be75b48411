import Mathlib.Algebra.Group.Nat.Defs
import Mathlib.Data.List.Basic
import Mathlib.Logic.Function.Basic
import Mathlib.Tactic.Common
import Wdutf.Lib.Threads

/-!
# Wdutf.Ke.SpinLock — the slots of the reader/writer spin locks, `src/spinlock.cpp`

An `EX_SPIN_LOCK` is a word that holds the index of an `SRWLOCK` in a table of blocks,
or 0 as long as it has not been used. `GetSRWLock` gives a word its index at the first
use: it looks at the word, takes `Lock`, looks again, and publishes the index only after
its block is allocated and `lockcount` is past it. Its fast path reads the word,
`lockcount` and the table without the lock.

* `Act` — the atomic steps of `GetSRWLock`, by any number of threads in any order;
* `SlotsOk`, `AtPoint` — what holds of the shared data, and what a thread knows where it
  stands;
* `srwLock_slots` — a word has one slot and a slot one word, every slot lies in an
  allocated block, and no thread finds an index that is not ready.
-/

namespace Wdutf.SpinLock

open Wdutf.Threads Wdutf.Transition

/-! ## The model -/

/-- The locks in a block, and the blocks in the table `lockv`. -/
def maxv : UInt32 := 4096

def tableSize : UInt32 := 4096

/-- An address `&lockv[k][index]`: the block that `lockv[k]` points to, which may be
`NULL`, and the index in it. -/
structure Slot where
  block : Option ℕ
  index : UInt32
deriving DecidableEq, Repr

/-- The messages of `ddkfail`, which does not return. -/
inductive Failure where
  /-- "Too many read write spinlocks" -/
  | tooMany
  /-- "Unable to allocate read write spinlock" -/
  | unableToAllocate
  /-- "Uninitialized read write lock" -/
  | uninitialized
deriving DecidableEq, Repr

variable {W T : Type}

/-- The data the threads share, with the slots returned so far. -/
structure Shared (W T : Type) where
  word : W → UInt32
  lockcount : UInt32
  lockv : UInt32 → Option ℕ
  /-- The owner of `Lock`. -/
  lock : Option T
  returned : List (W × Slot)

/-- Where a thread stands in `GetSRWLock`. -/
inductive Pc (W : Type) where
  | idle
  | read (w : W)
  | acquire (w : W)
  | recheck (w : W)
  | take (w : W)
  | allocate (w : W) (i : UInt32)
  | count (w : W) (i : UInt32)
  | publish (w : W) (i : UInt32)
  | release (w : W) (i : UInt32)
  | checkCount (w : W) (i : UInt32)
  | checkBlock (w : W) (i : UInt32)
  | address (w : W) (i : UInt32)
  | failed (message : Failure)

/-- The steps of a thread. -/
inductive Act [DecidableEq W] (t : T) : Shared W T → Pc W → Shared W T → Pc W → Prop
  | call {s : Shared W T} (w : W) : Act t s .idle s (.read w)
  -- the unlocked read of the word
  | readZero {s : Shared W T} {w : W} : s.word w = 0 → Act t s (.read w) s (.acquire w)
  | readIndex {s : Shared W T} {w : W} :
      s.word w ≠ 0 → Act t s (.read w) s (.checkCount w (s.word w))
  | acquire {s : Shared W T} {w : W} :
      s.lock = none → Act t s (.acquire w) { s with lock := some t } (.recheck w)
  | recheckZero {s : Shared W T} {w : W} : s.word w = 0 → Act t s (.recheck w) s (.take w)
  | recheckIndex {s : Shared W T} {w : W} :
      s.word w ≠ 0 → Act t s (.recheck w) s (.release w (s.word w))
  -- `i = lockcount` and the check of the size of the table
  | tooMany {s : Shared W T} {w : W} :
      s.lockcount / maxv ≥ tableSize → Act t s (.take w) s (.failed .tooMany)
  | take {s : Shared W T} {w : W} :
      ¬ s.lockcount / maxv ≥ tableSize → Act t s (.take w) s (.allocate w s.lockcount)
  -- a new block is none of those that are in use
  | present {s : Shared W T} {w : W} {i : UInt32} :
      s.lockv (i / maxv) ≠ none → Act t s (.allocate w i) s (.count w i)
  | calloc {s : Shared W T} {w : W} {i : UInt32} (p : ℕ) :
      s.lockv (i / maxv) = none → (∀ k, s.lockv k ≠ some p) →
      Act t s (.allocate w i)
        { s with lockv := Function.update s.lockv (i / maxv) (some p) } (.count w i)
  | noMemory {s : Shared W T} {w : W} {i : UInt32} :
      s.lockv (i / maxv) = none → Act t s (.allocate w i) s (.failed .unableToAllocate)
  | count {s : Shared W T} {w : W} {i : UInt32} :
      Act t s (.count w i) { s with lockcount := s.lockcount + 1 } (.publish w i)
  | publish {s : Shared W T} {w : W} {i : UInt32} :
      Act t s (.publish w i) { s with word := Function.update s.word w i } (.release w i)
  | release {s : Shared W T} {w : W} {i : UInt32} :
      Act t s (.release w i) { s with lock := none } (.checkCount w i)
  -- the check at the end, without the lock
  | aboveCount {s : Shared W T} {w : W} {i : UInt32} :
      i ≥ s.lockcount → Act t s (.checkCount w i) s (.failed .uninitialized)
  | belowCount {s : Shared W T} {w : W} {i : UInt32} :
      ¬ i ≥ s.lockcount → Act t s (.checkCount w i) s (.checkBlock w i)
  | noBlock {s : Shared W T} {w : W} {i : UInt32} :
      s.lockv (i / maxv) = none → Act t s (.checkBlock w i) s (.failed .uninitialized)
  | block {s : Shared W T} {w : W} {i : UInt32} :
      s.lockv (i / maxv) ≠ none → Act t s (.checkBlock w i) s (.address w i)
  | ret {s : Shared W T} {w : W} {i : UInt32} :
      Act t s (.address w i)
        { s with returned := s.returned ++ [(w, ⟨s.lockv (i / maxv), i % maxv⟩)] } .idle

/-- No lock has been used yet. -/
def Init (c : Conf (Shared W T) T (Pc W)) : Prop :=
  (∀ t, c.pc t = .idle) ∧ c.shared = ⟨fun _ => 0, 1, fun _ => none, none, []⟩

/-! ## The invariant -/

/-- What holds of the shared data after every step. -/
structure SlotsOk (s : Shared W T) : Prop where
  count_pos : 1 ≤ s.lockcount.toNat
  count_le : s.lockcount.toNat ≤ 2 ^ 24
  used : ∀ w, s.word w ≠ 0 → (s.word w).toNat < s.lockcount.toNat
  distinct : ∀ w w', s.word w ≠ 0 → s.word w = s.word w' → w = w'
  allocated : ∀ i : UInt32, i ≠ 0 → i.toNat < s.lockcount.toNat → s.lockv (i / maxv) ≠ none
  blocks : ∀ k k' p, s.lockv k = some p → s.lockv k' = some p → k = k'
  returned : ∀ r ∈ s.returned, s.word r.1 ≠ 0 ∧
    r.2 = ⟨s.lockv (s.word r.1 / maxv), s.word r.1 % maxv⟩

/-- What a thread knows where it stands. -/
def AtPoint (t : T) (s : Shared W T) : Pc W → Prop
  | .recheck _ => s.lock = some t
  | .take w => s.lock = some t ∧ s.word w = 0
  | .allocate w i => s.lock = some t ∧ s.word w = 0 ∧ i = s.lockcount ∧ i.toNat < 2 ^ 24
  | .count w i => s.lock = some t ∧ s.word w = 0 ∧ i = s.lockcount ∧ i.toNat < 2 ^ 24 ∧
      s.lockv (i / maxv) ≠ none
  -- the index is counted, and no word has it yet
  | .publish w i => s.lock = some t ∧ s.word w = 0 ∧ 1 ≤ i.toNat ∧
      i.toNat + 1 = s.lockcount.toNat ∧ ∀ w', s.word w' ≠ 0 → (s.word w').toNat < i.toNat
  | .release w i => s.lock = some t ∧ i ≠ 0 ∧ s.word w = i
  | .checkCount w i => i ≠ 0 ∧ s.word w = i
  | .checkBlock w i => i ≠ 0 ∧ s.word w = i
  | .address w i => i ≠ 0 ∧ s.word w = i
  | .failed message => message ≠ .uninitialized
  | _ => True

/-- A word that has its index keeps it, and while a thread owns `Lock` nothing else
changes but the record of the calls. -/
structure Rely (u : T) (s s' : Shared W T) : Prop where
  word : ∀ w, s.word w ≠ 0 → s'.word w = s.word w
  locked : s.lock = some u →
    s'.lock = some u ∧ s'.word = s.word ∧ s'.lockcount = s.lockcount ∧ s'.lockv = s.lockv

theorem atPoint_stable {u : T} {s s' : Shared W T} {l : Pc W} (h : Rely u s s')
    (hat : AtPoint u s l) : AtPoint u s' l := by
  cases l with
  | idle => trivial
  | read w => trivial
  | acquire w => trivial
  | recheck w => exact (h.locked hat).1
  | take w =>
    rcases hat with ⟨hlock, hzero⟩
    rcases h.locked hlock with ⟨hlock', hword, -, -⟩
    exact ⟨hlock', by rw [hword, hzero]⟩
  | allocate w i =>
    rcases hat with ⟨hlock, hzero, hi, hlt⟩
    rcases h.locked hlock with ⟨hlock', hword, hcount, -⟩
    exact ⟨hlock', by rw [hword, hzero], by rw [hcount, hi], hlt⟩
  | count w i =>
    rcases hat with ⟨hlock, hzero, hi, hlt, hblock⟩
    rcases h.locked hlock with ⟨hlock', hword, hcount, htable⟩
    exact ⟨hlock', by rw [hword, hzero], by rw [hcount, hi], hlt, by rwa [htable]⟩
  | publish w i =>
    rcases hat with ⟨hlock, hzero, hpos, hi, hbelow⟩
    rcases h.locked hlock with ⟨hlock', hword, hcount, -⟩
    refine ⟨hlock', by rw [hword, hzero], hpos, by rw [hcount, hi], ?_⟩
    rw [hword]
    exact hbelow
  | release w i =>
    rcases hat with ⟨hlock, hne, hi⟩
    exact ⟨(h.locked hlock).1, hne, by rw [h.word w (by rwa [hi]), hi]⟩
  | checkCount w i => exact ⟨hat.1, by rw [h.word w (by rw [hat.2]; exact hat.1), hat.2]⟩
  | checkBlock w i => exact ⟨hat.1, by rw [h.word w (by rw [hat.2]; exact hat.1), hat.2]⟩
  | address w i => exact ⟨hat.1, by rw [h.word w (by rw [hat.2]; exact hat.1), hat.2]⟩
  | failed message => exact hat

/-! ## Steps -/

/-- The conclusion of a step for the rule of `Wdutf.Lib.Threads`. -/
def StepOk (c : Conf (Shared W T) T (Pc W)) (t : T) (s' : Shared W T) (l' : Pc W) : Prop :=
  ∃ _g : Unit, SlotsOk s' ∧ AtPoint t s' l' ∧
    ∀ u, u ≠ t → AtPoint u c.shared (c.pc u) → AtPoint u s' (c.pc u)

/-- A step that changes no shared data. -/
theorem stepOk_same {c : Conf (Shared W T) T (Pc W)} {t : T} {l' : Pc W}
    (hok : SlotsOk c.shared) (hat : AtPoint t c.shared l') : StepOk c t c.shared l' :=
  ⟨(), hok, hat, fun _ _ hu => hu⟩

/-- A step that leaves the indices of words alone, while no other thread owns `Lock`. -/
theorem stepOk_unowned {c : Conf (Shared W T) T (Pc W)} {t : T} {s' : Shared W T} {l' : Pc W}
    (hlock : ∀ u, u ≠ t → c.shared.lock ≠ some u)
    (hword : ∀ w, c.shared.word w ≠ 0 → s'.word w = c.shared.word w) (hok : SlotsOk s')
    (hat : AtPoint t s' l') : StepOk c t s' l' := by
  refine ⟨(), hok, hat, fun u hu hu' => atPoint_stable ⟨hword, fun hlock' => ?_⟩ hu'⟩
  exact absurd hlock' (hlock u hu)

theorem not_owned_by_other {lock : Option T} {t u : T} (h : lock = some t) (hu : u ≠ t) :
    lock ≠ some u := by
  rw [h]
  exact fun heq => hu (Option.some.inj heq).symm

/-- Who owns `Lock` is not part of the invariant. -/
theorem SlotsOk.setLock {s : Shared W T} (h : SlotsOk s) (lock : Option T) :
    SlotsOk { s with lock := lock } :=
  ⟨h.count_pos, h.count_le, h.used, h.distinct, h.allocated, h.blocks, h.returned⟩

theorem slotsOk_init : SlotsOk (⟨fun _ => 0, 1, fun _ => none, none, []⟩ : Shared W T) := by
  have hone : (1 : UInt32).toNat = 1 := rfl
  constructor
  case count_pos => exact Nat.le_of_eq hone.symm
  case count_le => exact (by decide : (1 : UInt32).toNat ≤ 2 ^ 24)
  case used => exact fun w hw => absurd rfl hw
  case distinct => exact fun w _ hw => absurd rfl hw
  case allocated =>
    intro i hi hlt
    have hpos : i.toNat ≠ 0 := fun h0 => hi (UInt32.toNat_inj.1 h0)
    change i.toNat < (1 : UInt32).toNat at hlt
    omega
  case blocks => exact fun _ _ _ hp => nomatch hp
  case returned => exact fun r hr => absurd hr List.not_mem_nil

theorem toNat_div_maxv (i : UInt32) : (i / maxv).toNat = i.toNat / 4096 := UInt32.toNat_div i maxv

theorem toNat_mod_maxv (i : UInt32) : (i % maxv).toNat = i.toNat % 4096 := UInt32.toNat_mod i maxv

/-- An index that a word has is in an allocated block. -/
theorem SlotsOk.block_of_word {s : Shared W T} (h : SlotsOk s) {w : W} (hw : s.word w ≠ 0) :
    s.lockv (s.word w / maxv) ≠ none :=
  h.allocated _ hw (h.used w hw)

/-- A new block. -/
theorem slotsOk_calloc {s : Shared W T} (h : SlotsOk s) {k : UInt32} {p : ℕ}
    (hnone : s.lockv k = none) (hfresh : ∀ k, s.lockv k ≠ some p) :
    SlotsOk { s with lockv := Function.update s.lockv k (some p) } := by
  have hkeep : ∀ k', s.lockv k' ≠ none →
      Function.update s.lockv k (some p) k' = s.lockv k' := by
    intro k' hk'
    exact Function.update_of_ne (fun heq => hk' (by rw [heq, hnone])) _ _
  refine ⟨h.count_pos, h.count_le, h.used, h.distinct, ?_, ?_, ?_⟩
  · intro i hi hlt
    show Function.update s.lockv k (some p) (i / maxv) ≠ none
    rw [hkeep _ (h.allocated i hi hlt)]
    exact h.allocated i hi hlt
  · intro k₁ k₂ q h₁ h₂
    simp only [Function.update_apply] at h₁ h₂
    split at h₁
    · split at h₂
      · rename_i he₁ he₂
        rw [he₁, he₂]
      · exact absurd (h₂.trans h₁.symm) (hfresh k₂)
    · split at h₂
      · exact absurd (h₁.trans h₂.symm) (hfresh k₁)
      · exact h.blocks k₁ k₂ q h₁ h₂
  · intro r hr
    rcases h.returned r hr with ⟨hw, hslot⟩
    refine ⟨hw, hslot.trans ?_⟩
    show (⟨_, _⟩ : Slot) = ⟨Function.update s.lockv k (some p) _, _⟩
    rw [hkeep _ (h.block_of_word hw)]

/-- The count moves past an index whose block is allocated. -/
theorem slotsOk_count {s : Shared W T} (h : SlotsOk s) (hlt : s.lockcount.toNat < 2 ^ 24)
    (hblock : s.lockv (s.lockcount / maxv) ≠ none) :
    SlotsOk { s with lockcount := s.lockcount + 1 } := by
  have hnext : (s.lockcount + 1).toNat = s.lockcount.toNat + 1 := by
    rw [UInt32.toNat_add, UInt32.toNat_one]
    omega
  refine ⟨?_, ?_, ?_, h.distinct, ?_, h.blocks, h.returned⟩
  · show 1 ≤ (s.lockcount + 1).toNat
    omega
  · show (s.lockcount + 1).toNat ≤ 2 ^ 24
    omega
  · intro w hw
    have := h.used w hw
    show (s.word w).toNat < (s.lockcount + 1).toNat
    omega
  · intro i hi hlt'
    have hle : i.toNat < (s.lockcount + 1).toNat := hlt'
    by_cases heq : i = s.lockcount
    · rw [heq]
      exact hblock
    · have hne : i.toNat ≠ s.lockcount.toNat := fun hn => heq (UInt32.toNat_inj.1 hn)
      exact h.allocated i hi (by omega)

/-- A word gets an index that no word has. -/
theorem slotsOk_publish [DecidableEq W] {s : Shared W T} (h : SlotsOk s) {w : W} {i : UInt32}
    (hzero : s.word w = 0) (hi : i.toNat < s.lockcount.toNat)
    (hbelow : ∀ w', s.word w' ≠ 0 → (s.word w').toNat < i.toNat) :
    SlotsOk { s with word := Function.update s.word w i } := by
  have hother : ∀ {w'}, w' ≠ w → Function.update s.word w i w' = s.word w' :=
    fun hne => Function.update_of_ne hne _ _
  refine ⟨h.count_pos, h.count_le, ?_, ?_, h.allocated, h.blocks, ?_⟩
  · intro w' hw'
    show (Function.update s.word w i w').toNat < s.lockcount.toNat
    by_cases hww : w' = w
    · rw [hww, Function.update_self]
      exact hi
    · have hne : s.word w' ≠ 0 := by rwa [← hother hww]
      rw [hother hww]
      exact h.used w' hne
  · intro w₁ w₂ hne heq
    change Function.update s.word w i w₁ ≠ 0 at hne
    change Function.update s.word w i w₁ = Function.update s.word w i w₂ at heq
    by_cases h₁ : w₁ = w
    · by_cases h₂ : w₂ = w
      · rw [h₁, h₂]
      · rw [h₁, Function.update_self] at hne heq
        rw [hother h₂] at heq
        rw [heq] at hne hbelow
        exact absurd (hbelow w₂ hne) (Nat.lt_irrefl _)
    · rw [hother h₁] at hne heq
      by_cases h₂ : w₂ = w
      · rw [h₂, Function.update_self] at heq
        rw [← heq] at hbelow
        exact absurd (hbelow w₁ hne) (Nat.lt_irrefl _)
      · rw [hother h₂] at heq
        exact h.distinct w₁ w₂ hne heq
  · intro r hr
    rcases h.returned r hr with ⟨hw, hslot⟩
    have hne : r.1 ≠ w := fun heq => hw (by rw [heq, hzero])
    show Function.update s.word w i r.1 ≠ 0 ∧
      r.2 = ⟨s.lockv (Function.update s.word w i r.1 / maxv),
        Function.update s.word w i r.1 % maxv⟩
    rw [hother hne]
    exact ⟨hw, hslot⟩

/-- Every step keeps the invariant. -/
theorem act_stepOk [DecidableEq W] {c : Conf (Shared W T) T (Pc W)} {t : T} {s' : Shared W T}
    {l' : Pc W} (hok : SlotsOk c.shared) (hat : AtPoint t c.shared (c.pc t))
    (hact : Act t c.shared (c.pc t) s' l') : StepOk c t s' l' := by
  generalize hl : c.pc t = l at hat hact
  generalize hs : c.shared = s at hok hat hact
  have hsame : ∀ {l'}, AtPoint t s l' → StepOk c t s l' := by
    intro l' hat'
    subst hs
    exact stepOk_same hok hat'
  cases hact with
  | call w => exact hsame trivial
  | readZero hzero => exact hsame trivial
  | readIndex hne => exact hsame ⟨hne, rfl⟩
  | acquire hfree =>
    subst hs
    refine stepOk_unowned (fun u _ => ?_) (fun _ _ => rfl) (hok.setLock _) rfl
    rw [hfree]
    exact fun h => nomatch h
  | recheckZero hzero => exact hsame ⟨hat, hzero⟩
  | recheckIndex hne => exact hsame ⟨hat, hne, rfl⟩
  | tooMany _ => exact hsame (by simp [AtPoint])
  | take hroom =>
    refine hsame ⟨hat.1, hat.2, rfl, ?_⟩
    have hsize : tableSize.toNat = 4096 := rfl
    rw [ge_iff_le, UInt32.le_iff_toNat_le, toNat_div_maxv, hsize] at hroom
    omega
  | present hblock =>
    rcases hat with ⟨hlock, hzero, hi, hlt⟩
    exact hsame ⟨hlock, hzero, hi, hlt, hblock⟩
  | calloc p hnone hfresh =>
    rcases hat with ⟨hlock, hzero, hi, hlt⟩
    subst hs
    refine stepOk_unowned (fun _ => not_owned_by_other hlock) (fun _ _ => rfl)
      (slotsOk_calloc hok hnone hfresh) ?_
    refine ⟨hlock, hzero, hi, hlt, ?_⟩
    show Function.update c.shared.lockv _ (some p) _ ≠ none
    rw [Function.update_self]
    exact fun h => nomatch h
  | noMemory _ => exact hsame (by simp [AtPoint])
  | count =>
    rcases hat with ⟨hlock, hzero, hi, hlt, hblock⟩
    subst hs
    subst hi
    refine stepOk_unowned (fun _ => not_owned_by_other hlock) (fun _ _ => rfl)
      (slotsOk_count hok hlt hblock) ?_
    refine ⟨hlock, hzero, hok.count_pos, ?_, hok.used⟩
    show _ = (c.shared.lockcount + 1).toNat
    rw [UInt32.toNat_add, UInt32.toNat_one]
    omega
  | publish =>
    rcases hat with ⟨hlock, hzero, hpos, hi, hbelow⟩
    subst hs
    refine stepOk_unowned (fun _ => not_owned_by_other hlock) ?_
      (slotsOk_publish hok hzero (by omega) hbelow) ?_
    · intro w' hw'
      exact Function.update_of_ne (fun heq => hw' (by rw [heq, hzero])) _ _
    · refine ⟨hlock, ?_, Function.update_self ..⟩
      rintro rfl
      exact absurd hpos (by decide)
  | release =>
    rcases hat with ⟨hlock, hne, hi⟩
    subst hs
    exact stepOk_unowned (fun _ => not_owned_by_other hlock) (fun _ _ => rfl) (hok.setLock _)
      ⟨hne, hi⟩
  | aboveCount habove =>
    -- an index that a word has is below the count
    rcases hat with ⟨hne, hi⟩
    have hlt := hok.used _ (by rwa [hi])
    rw [hi] at hlt
    have := UInt32.le_iff_toNat_le.1 habove
    omega
  | belowCount _ => exact hsame hat
  | noBlock hnone =>
    rcases hat with ⟨hne, hi⟩
    have hblock := hok.block_of_word (by rwa [hi])
    rw [hi] at hblock
    exact absurd hnone hblock
  | block _ => exact hsame hat
  | @ret w i =>
    rcases hat with ⟨hne, hi⟩
    subst hs
    refine ⟨(), ⟨hok.count_pos, hok.count_le, hok.used, hok.distinct, hok.allocated, hok.blocks,
      ?_⟩, trivial, fun u _ hu => atPoint_stable ⟨fun _ _ => rfl, fun h => ⟨h, rfl, rfl, rfl⟩⟩ hu⟩
    intro r hr
    rcases List.mem_append.1 hr with hold | hnew
    · exact hok.returned r hold
    · rw [List.mem_singleton.1 hnew]
      show c.shared.word w ≠ 0 ∧ (⟨_, _⟩ : Slot) = ⟨_, _⟩
      rw [hi]
      exact ⟨hne, rfl⟩

/-- The invariant of every run. -/
theorem slots_invariant [DecidableEq W] [DecidableEq T] {ts : List T}
    {c : Conf (Shared W T) T (Pc W)} (h : Trace Init (Step Act) ts c) :
    SlotsOk c.shared ∧ ∀ t, AtPoint t c.shared (c.pc t) := by
  have hholds : Holds (fun _ : Unit => SlotsOk) (fun t _ => AtPoint t) c := by
    refine Threads.invariant ?_ ?_ h
    · intro c hinit
      rcases hinit with ⟨hidle, hshared⟩
      refine ⟨(), ?_, fun t => by rw [hidle t]; trivial⟩
      rw [hshared]
      exact slotsOk_init
    · intro g c t s l hok hat hact
      exact act_stepOk hok (hat t) hact
  rcases hholds with ⟨_, hok, hat⟩
  exact ⟨hok, hat⟩

/-! ## The slots -/

/-- Equal slots belong to one word. -/
theorem SlotsOk.word_of_slot {s : Shared W T} (h : SlotsOk s) {w w' : W} (hw : s.word w ≠ 0)
    (hslot : (⟨s.lockv (s.word w / maxv), s.word w % maxv⟩ : Slot) =
      ⟨s.lockv (s.word w' / maxv), s.word w' % maxv⟩) : w = w' := by
  injection hslot with hblock hindex
  rcases Option.ne_none_iff_exists'.1 (h.block_of_word hw) with ⟨p, hp⟩
  have hdiv := h.blocks _ _ p hp (by rw [← hblock, hp])
  have hdiv' := congrArg UInt32.toNat hdiv
  have hmod' := congrArg UInt32.toNat hindex
  rw [toNat_div_maxv, toNat_div_maxv] at hdiv'
  rw [toNat_mod_maxv, toNat_mod_maxv] at hmod'
  refine h.distinct w w' hw (UInt32.toNat_inj.1 ?_)
  omega

/-- What the callers of `GetSRWLock` rely on. -/
structure SlotsRight (c : Conf (Shared W T) T (Pc W)) : Prop where
  /-- Calls for the same word return the same slot, and calls for different words
  different ones. -/
  one_slot : ∀ r ∈ c.shared.returned, ∀ r' ∈ c.shared.returned, r.1 = r'.1 ↔ r.2 = r'.2
  /-- The slots lie in allocated blocks of the table. -/
  allocated : ∀ r ∈ c.shared.returned, ∃ k p, k.toNat < 4096 ∧ c.shared.lockv k = some p ∧
    r.2.block = some p ∧ r.2.index.toNat < 4096
  /-- The table is accessed inside its bounds. -/
  bounds : ∀ t w i, c.pc t = .allocate w i ∨ c.pc t = .checkBlock w i ∨ c.pc t = .address w i →
    (i / maxv).toNat < 4096
  /-- "Uninitialized read write lock" does not occur. -/
  initialized : ∀ t, c.pc t ≠ .failed .uninitialized

/-- **Slots of the reader/writer spin locks**, after every interleaving of the steps of
any number of threads on any number of words. -/
theorem srwLock_slots [DecidableEq W] [DecidableEq T] {ts : List T}
    {c : Conf (Shared W T) T (Pc W)} (h : Trace Init (Step Act) ts c) : SlotsRight c := by
  rcases slots_invariant h with ⟨hok, hat⟩
  have hcount := hok.count_le
  have hinside : ∀ w, c.shared.word w ≠ 0 → (c.shared.word w / maxv).toNat < 4096 := by
    intro w hw
    have := hok.used w hw
    rw [toNat_div_maxv]
    omega
  constructor
  case one_slot =>
    intro r hr r' hr'
    rcases hok.returned r hr with ⟨hw, hslot⟩
    rcases hok.returned r' hr' with ⟨-, hslot'⟩
    constructor
    · intro heq
      rw [hslot, hslot', heq]
    · intro heq
      rw [hslot, hslot'] at heq
      exact hok.word_of_slot hw heq
  case allocated =>
    intro r hr
    rcases hok.returned r hr with ⟨hw, hslot⟩
    rcases Option.ne_none_iff_exists'.1 (hok.block_of_word hw) with ⟨p, hp⟩
    refine ⟨c.shared.word r.1 / maxv, p, hinside _ hw, hp, by rw [hslot, ← hp], ?_⟩
    rw [hslot]
    show (c.shared.word r.1 % maxv).toNat < 4096
    rw [toNat_mod_maxv]
    omega
  case bounds =>
    intro t w i hpc
    have hpoint := hat t
    rcases hpc with hpc | hpc | hpc
    · -- the index to allocate passed the check of the size of the table
      rw [hpc] at hpoint
      have := hpoint.2.2.2
      rw [toNat_div_maxv]
      omega
    · rw [hpc] at hpoint
      rw [← hpoint.2]
      exact hinside w (by rw [hpoint.2]; exact hpoint.1)
    · rw [hpc] at hpoint
      rw [← hpoint.2]
      exact hinside w (by rw [hpoint.2]; exact hpoint.1)
  case initialized =>
    intro t hpc
    have hpoint := hat t
    rw [hpc] at hpoint
    exact hpoint rfl

/-- Two threads meet at the first use of a word: both read 0, one of them publishes the
index 1, and the other finds it when it looks again. Both get the same slot. -/
theorem srwLock_slots_race :
    ∃ (ts : List Bool) (c : Conf (Shared Unit Bool) Bool (Pc Unit)),
      Trace Init (Step Act) ts c ∧
      c.shared.returned = [((), ⟨some 0, 1⟩), ((), ⟨some 0, 1⟩)] ∧ SlotsRight c := by
  have h0 : Trace (Init (W := Unit) (T := Bool)) (Step Act) []
      ⟨⟨fun _ => 0, 1, fun _ => none, none, []⟩, fun _ => .idle⟩ :=
    Trace.start ⟨fun _ => rfl, rfl⟩
  have h1 := run_step h0 true (Act.call ())
  have h2 := run_step h1 false (Act.call ())
  have h3 := run_step h2 true (Act.readZero rfl)
  have h4 := run_step h3 false (Act.readZero rfl)
  have h5 := run_step h4 true (Act.acquire rfl)
  have h6 := run_step h5 true (Act.recheckZero rfl)
  have h7 := run_step h6 true (Act.take (by decide))
  have h8 := run_step h7 true (Act.calloc 0 rfl fun _ h => nomatch h)
  have h9 := run_step h8 true Act.count
  have h10 := run_step h9 true Act.publish
  have h11 := run_step h10 true Act.release
  have h12 := run_step h11 false (Act.acquire rfl)
  have h13 := run_step h12 false (Act.recheckIndex (by decide))
  have h14 := run_step h13 false Act.release
  have h15 := run_step h14 false (Act.belowCount (by decide))
  have h16 := run_step h15 false (Act.block (by decide))
  have h17 := run_step h16 true (Act.belowCount (by decide))
  have h18 := run_step h17 true (Act.block (by decide))
  have h19 := run_step h18 true Act.ret
  have h20 := run_step h19 false Act.ret
  exact ⟨_, _, h20, rfl, srwLock_slots h20⟩

end Wdutf.SpinLock
