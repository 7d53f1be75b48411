import Mathlib.Data.List.Basic
import Mathlib.Tactic.Common
import Wdutf.Lib.Memory

/-!
# Wdutf.Lib.Block — blocks of memory with their bounds

A block is the list of its cells, and a pointer into it is the rest of the block from
there on. Access outside the block fails.

* `fetch`, `put` — cells of a block that are read and written;
* `fetch_ok`, `put_ok_iff` — when, and with what result;
* `applyAll` — what a list of writes makes of a memory without bounds;
* `WithinAll` — the cells that the writes may touch.
-/

namespace Wdutf.Block

variable {ε β : Type} {out : ε} {block block' vs : List β} {off n : ℕ}

/-- `n` cells are read. -/
def fetch (out : ε) (block : List β) (n : ℕ) : Except ε (List β) :=
  if n ≤ block.length then .ok (block.take n) else .error out

/-- Cells are written from an offset on. -/
def put (out : ε) (block : List β) (off : ℕ) (vs : List β) : Except ε (List β) :=
  if off + vs.length ≤ block.length then
    .ok (block.take off ++ vs ++ block.drop (off + vs.length))
  else .error out

/-- A sequence that returns is made of parts that return. -/
theorem bind_inv {α γ : Type} {x : Except ε α} {k : α → Except ε γ} {c : γ}
    (h : x >>= k = .ok c) : ∃ a, x = .ok a ∧ k a = .ok c := by
  cases x with
  | error e => cases h
  | ok a => exact ⟨a, rfl, h⟩

theorem map_inv {α γ : Type} {x : Except ε α} {k : α → γ} {c : γ} (h : x.map k = .ok c) :
    ∃ a, x = .ok a ∧ k a = c := by
  cases x with
  | error e => cases h
  | ok a => exact ⟨a, rfl, Except.ok.inj h⟩

theorem fetch_ok (h : n ≤ block.length) : fetch out block n = .ok (block.take n) := by
  rw [fetch, if_pos h]

/-- What lies behind the cells does not matter. -/
theorem fetch_append (rest : List β) (h : n ≤ block.length) :
    fetch out (block ++ rest) n = .ok (block.take n) := by
  have hn : n ≤ (block ++ rest).length := by
    rw [List.length_append]
    omega
  rw [fetch_ok hn, List.take_append_of_le_length h]

theorem put_ok (h : off + vs.length ≤ block.length) :
    put out block off vs = .ok (block.take off ++ vs ++ block.drop (off + vs.length)) := by
  rw [put, if_pos h]

theorem put_ok_iff : put out block off vs = .ok block' ↔ off + vs.length ≤ block.length ∧
    block' = block.take off ++ vs ++ block.drop (off + vs.length) := by
  unfold put
  by_cases h : off + vs.length ≤ block.length
  · rw [if_pos h, Except.ok.injEq, and_iff_right h, eq_comm]
  · rw [if_neg h]
    exact ⟨nofun, fun hn => absurd hn.1 h⟩

/-- Cells at the start of a block, and others right behind them. -/
theorem put_put {ws block'' : List β} (h : put out block 0 vs = .ok block')
    (h' : put out block' vs.length ws = .ok block'') : ∃ rest, block'' = vs ++ (ws ++ rest) := by
  rcases put_ok_iff.1 h with ⟨-, rfl⟩
  rcases put_ok_iff.1 h' with ⟨-, rfl⟩
  rw [List.take_zero, List.nil_append, List.take_left, List.append_assoc]
  exact ⟨_, rfl⟩

/-! ## Writes without a bound -/

/-- Writes of cells from offsets on, one after the other. -/
def applyAll (m : ℕ → β) (writes : List (ℕ × List β)) : ℕ → β :=
  writes.foldl (fun m w => Memory.store m w.1 w.2) m

/-- All writes end at the offset `n` or before. -/
def WithinAll (n : ℕ) (writes : List (ℕ × List β)) : Prop :=
  ∀ w ∈ writes, w.1 + w.2.length ≤ n

/-- A write that follows another immediately is its continuation. -/
theorem store_store (m : ℕ → β) (a : ℕ) (vs ws : List β) :
    Memory.store (Memory.store m a vs) (a + vs.length) ws = Memory.store m a (vs ++ ws) := by
  funext x
  unfold Memory.store
  simp only [List.getD_eq_getElem?_getD]
  by_cases hle : a + vs.length ≤ x
  · have hvs : vs.length ≤ x - a := by omega
    rw [if_pos hle, if_pos (by omega), if_pos (by omega), Nat.sub_add_eq,
      List.getElem?_append_right hvs, List.getElem?_eq_none hvs, Option.getD_none]
  · rw [if_neg hle]
    by_cases ha : a ≤ x
    · rw [if_pos ha, if_pos ha, List.getElem?_append_left (by omega)]
    · rw [if_neg ha, if_neg ha]

/-- The first part of what was written. -/
theorem cells_store_append (m : ℕ → β) (a : ℕ) (vs ws : List β) :
    Memory.cells (Memory.store m a (vs ++ ws)) a vs.length = vs := by
  have hfirst := Memory.cells_store m a vs
  refine Eq.trans ?_ hfirst
  rw [← store_store, Memory.cells_eq_iff]
  intro i hi
  exact Memory.store_of_not_mem (by omega)

/-- A cell of the second part. -/
theorem store_append_right (m : ℕ → β) (a : ℕ) (vs : List β) {ws : List β} {i : ℕ} {v : β}
    (h : ws[i]? = some v) : Memory.store m a (vs ++ ws) (a + vs.length + i) = v := by
  have hle : vs.length ≤ a + vs.length + i - a := by omega
  have hsub : a + vs.length + i - a - vs.length = i := by omega
  unfold Memory.store
  rw [if_pos (by omega), List.getD_eq_getElem?_getD, List.getElem?_append_right hle, hsub, h,
    Option.getD_some]

end Wdutf.Block
