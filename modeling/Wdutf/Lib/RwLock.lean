import Mathlib.Data.List.Basic
import Mathlib.Tactic.Common

/-!
# Wdutf.Lib.RwLock — a reader/writer lock and its holders

The state of a lock that one writer or several readers hold, against the list of those who
hold it.

* `HeldBy` — the state stands for the holders;
* `HeldBy.take`, `HeldBy.give` — the operations keep that;
* `HeldBy.alone`, `HeldBy.blocked` — a writer is the only holder, and only a holder of the
  other kind keeps a thread out.
-/

namespace Wdutf.RwLock

inductive Mode where
  | shared
  | exclusive
deriving DecidableEq, Repr

/-- The state of the lock. -/
structure Rw where
  exclusive : Bool
  readers : ℕ
deriving DecidableEq, Repr

def free : Rw := ⟨false, 0⟩

def Rw.CanTake (s : Rw) : Mode → Prop
  | .shared => s.exclusive = false
  | .exclusive => s = free

instance (s : Rw) (m : Mode) : Decidable (s.CanTake m) :=
  match m with
  | .shared => inferInstanceAs (Decidable (s.exclusive = false))
  | .exclusive => inferInstanceAs (Decidable (s = free))

def Rw.take (s : Rw) : Mode → Rw
  | .shared => { s with readers := s.readers + 1 }
  | .exclusive => { s with exclusive := true }

def Rw.give (s : Rw) : Mode → Rw
  | .shared => { s with readers := s.readers - 1 }
  | .exclusive => { s with exclusive := false }

/-- The lock is held that way. -/
def Rw.Taken (s : Rw) : Mode → Prop
  | .shared => 0 < s.readers
  | .exclusive => s.exclusive = true

variable {H : Type*} {mode : H → Mode}

/-- The state of a lock with these holders. -/
inductive HeldBy (mode : H → Mode) : Rw → List H → Prop
  | writer (h : H) : mode h = .exclusive → HeldBy mode ⟨true, 0⟩ [h]
  | readers (hs : List H) : (∀ h ∈ hs, mode h = .shared) → HeldBy mode ⟨false, hs.length⟩ hs

theorem heldBy_free : HeldBy mode free [] := HeldBy.readers [] fun _ h => absurd h List.not_mem_nil

theorem HeldBy.take {s : Rw} {hs : List H} (hheld : HeldBy mode s hs) {h : H}
    (hcan : s.CanTake (mode h)) : HeldBy mode (s.take (mode h)) (h :: hs) := by
  cases hheld with
  | writer w hw =>
    cases hm : mode h with
    | shared =>
      rw [hm] at hcan
      cases hcan
    | exclusive =>
      rw [hm] at hcan
      cases hcan
  | readers hs hall =>
    cases hm : mode h with
    | shared =>
      refine HeldBy.readers (h :: hs) ?_
      intro h' hmem
      rcases List.mem_cons.1 hmem with rfl | hmem
      · exact hm
      · exact hall h' hmem
    | exclusive =>
      rw [hm] at hcan
      have hnil : hs = [] := List.length_eq_zero_iff.1 (congrArg Rw.readers hcan)
      subst hnil
      exact HeldBy.writer h hm

/-- A writer is the only holder. -/
theorem HeldBy.alone {s : Rw} {hs : List H} (hheld : HeldBy mode s hs) {h : H} (hmem : h ∈ hs)
    (hm : mode h = .exclusive) : hs = [h] := by
  cases hheld with
  | writer w hw => rw [List.mem_singleton.1 hmem]
  | readers hs hall =>
    rw [hall h hmem] at hm
    cases hm

/-- The lock is held the way a holder holds it. -/
theorem HeldBy.taken {s : Rw} {hs : List H} (hheld : HeldBy mode s hs) {h : H} (hmem : h ∈ hs) :
    s.Taken (mode h) := by
  cases hheld with
  | writer w hw =>
    rw [List.mem_singleton.1 hmem, hw]
    rfl
  | readers hs hall =>
    rw [hall h hmem]
    exact List.length_pos_of_mem hmem

theorem HeldBy.give [DecidableEq H] {s : Rw} {hs : List H} (hheld : HeldBy mode s hs) {h : H}
    (hmem : h ∈ hs) : HeldBy mode (s.give (mode h)) (hs.erase h) := by
  cases hheld with
  | writer w hw =>
    have heq : h = w := List.mem_singleton.1 hmem
    subst heq
    rw [hw, List.erase_cons_head]
    exact heldBy_free
  | readers hs hall =>
    rw [hall h hmem]
    have hrest := HeldBy.readers (hs.erase h) fun h' hh' => hall h' (List.mem_of_mem_erase hh')
    rwa [List.length_erase_of_mem hmem] at hrest

/-- A thread waits for a holder that excludes it. -/
theorem HeldBy.blocked {s : Rw} {hs : List H} (hheld : HeldBy mode s hs) {m : Mode}
    (hcan : ¬ s.CanTake m) : ∃ h ∈ hs, m = .exclusive ∨ mode h = .exclusive := by
  cases hheld with
  | writer w hw => exact ⟨w, List.mem_singleton.2 rfl, Or.inr hw⟩
  | readers hs hall =>
    cases m with
    | shared => exact absurd rfl hcan
    | exclusive =>
      cases hs with
      | nil => exact absurd rfl hcan
      | cons h hs => exact ⟨h, List.mem_cons_self, Or.inl rfl⟩

/-- A lock is free if nobody holds it. -/
theorem HeldBy.free_iff {s : Rw} {hs : List H} (hheld : HeldBy mode s hs) :
    s = free ↔ hs = [] := by
  cases hheld with
  | writer w hw =>
    constructor
    · intro h
      cases h
    · intro h
      cases h
  | readers hs hall =>
    constructor
    · intro h
      exact List.length_eq_zero_iff.1 (congrArg Rw.readers h)
    · rintro rfl
      rfl

end Wdutf.RwLock
