import Mathlib.Data.List.Basic
import Mathlib.Data.List.FinRange
import Mathlib.Data.List.Nodup
import Mathlib.Data.List.Range
import Mathlib.Logic.Function.Basic
import Mathlib.Tactic.Common

/-!
# Wdutf.Lib.Slots — tables of counted keys

An array of slots, each of which is free or has a key and the number of times that it has
been counted. The table stands for a function from keys to numbers; a key without a slot
has been counted no times.

* `search`, `first` — the slot for a key: the search goes down and remembers a free slot on
  its way, or it goes up and ends at the key;
* `Counts` — the table stands for the function;
* `Counts.add`, `Counts.less`, `Counts.last` — and does so after a key is counted once more,
  or once less.
-/

namespace Wdutf.Slots

variable {K : Type*} [DecidableEq K]

/-- The slot of the key, or the lowest free one that was seen. -/
def search (key : ℕ → Option K) (k : K) : ℕ → Option ℕ → Option ℕ
  | 0, empty => empty
  | i + 1, empty =>
    if key i = some k then some i
    else if key i = none then search key k i (some i)
    else search key k i empty

/-- The slot of the key. -/
def first (key : ℕ → Option K) (k : K) (n : ℕ) : Option ℕ :=
  (List.range n).find? fun i => decide (key i = some k)

/-- The first `n` slots stand for the function. -/
structure Counts (n : ℕ) (key : ℕ → Option K) (count : ℕ → ℕ) (f : K → ℕ) : Prop where
  used : ∀ i < n, ∀ k, key i = some k → count i = f k ∧ 0 < f k
  free : ∀ i < n, key i = none → count i = 0
  one : ∀ i < n, ∀ j < n, ∀ k, key i = some k → key j = some k → i = j
  there : ∀ k, 0 < f k → ∃ i < n, key i = some k

variable {n : ℕ} {key : ℕ → Option K} {count : ℕ → ℕ} {f : K → ℕ} {k : K}

omit [DecidableEq K] in
/-- An empty table. -/
theorem Counts.nil (hkey : ∀ i < n, key i = none) (hcount : ∀ i < n, count i = 0)
    (hf : ∀ k, f k = 0) : Counts n key count f := by
  refine ⟨?_, fun i hi _ => hcount i hi, ?_, ?_⟩
  · intro i hi k hk
    rw [hkey i hi] at hk
    cases hk
  · intro i hi j _ k hk
    rw [hkey i hi] at hk
    cases hk
  · intro k hk
    rw [hf k] at hk
    exact absurd hk (Nat.lt_irrefl 0)

omit [DecidableEq K] in
theorem Counts.key_of_zero (h : Counts n key count f) (hf : ∀ k, f k = 0) {i : ℕ} (hi : i < n) :
    key i = none := by
  cases hk : key i with
  | none => rfl
  | some k =>
    have hpos := (h.used i hi k hk).2
    rw [hf k] at hpos
    exact absurd hpos (Nat.lt_irrefl 0)

/-! ## Searching -/

/-- The search finds the key, a free slot, or no slot at all. -/
theorem search_cases (key : ℕ → Option K) (k : K) (n : ℕ) (empty : Option ℕ) :
    (∃ i < n, key i = some k ∧ search key k n empty = some i) ∨
      (∀ i < n, key i ≠ some k) ∧
        ((∃ i < n, key i = none ∧ search key k n empty = some i) ∨
          (∀ i < n, key i ≠ none) ∧ search key k n empty = empty) := by
  induction n generalizing empty with
  | zero => exact Or.inr ⟨fun i hi => absurd hi (Nat.not_lt_zero i),
      Or.inr ⟨fun i hi => absurd hi (Nat.not_lt_zero i), rfl⟩⟩
  | succ n ih =>
    have hsucc : ∀ {P : ℕ → Prop}, (∀ i < n, P i) → P n → ∀ i < n + 1, P i := by
      intro P hlt hn i hi
      rcases Nat.lt_or_eq_of_le (Nat.le_of_lt_succ hi) with hi | rfl
      · exact hlt i hi
      · exact hn
    rw [search]
    by_cases hk : key n = some k
    · rw [if_pos hk]
      exact Or.inl ⟨n, Nat.lt_succ_self n, hk, rfl⟩
    · rw [if_neg hk]
      by_cases hnone : key n = none
      · rw [if_pos hnone]
        rcases ih (some n) with ⟨i, hi, hki, hres⟩ | ⟨hno, hfree | ⟨-, hres⟩⟩
        · exact Or.inl ⟨i, Nat.lt_succ_of_lt hi, hki, hres⟩
        · rcases hfree with ⟨i, hi, hki, hres⟩
          exact Or.inr ⟨hsucc hno hk, Or.inl ⟨i, Nat.lt_succ_of_lt hi, hki, hres⟩⟩
        · exact Or.inr ⟨hsucc hno hk, Or.inl ⟨n, Nat.lt_succ_self n, hnone, hres⟩⟩
      · rw [if_neg hnone]
        rcases ih empty with ⟨i, hi, hki, hres⟩ | ⟨hno, hfree | ⟨hfull, hres⟩⟩
        · exact Or.inl ⟨i, Nat.lt_succ_of_lt hi, hki, hres⟩
        · rcases hfree with ⟨i, hi, hki, hres⟩
          exact Or.inr ⟨hsucc hno hk, Or.inl ⟨i, Nat.lt_succ_of_lt hi, hki, hres⟩⟩
        · exact Or.inr ⟨hsucc hno hk, Or.inr ⟨hsucc hfull hnone, hres⟩⟩

/-- The key has been counted if and only if it has a slot. -/
theorem Counts.first_none (h : Counts n key count f) : first key k n = none ↔ f k = 0 := by
  rw [first, List.find?_eq_none]
  constructor
  · intro hno
    by_contra hf
    rcases h.there k (Nat.pos_of_ne_zero hf) with ⟨i, hi, hk⟩
    exact hno i (List.mem_range.2 hi) (decide_eq_true hk)
  · intro hf i hi hk
    have hpos := (h.used i (List.mem_range.1 hi) k (of_decide_eq_true hk)).2
    rw [hf] at hpos
    exact absurd hpos (Nat.lt_irrefl 0)

theorem first_some {i : ℕ} (h : first key k n = some i) : i < n ∧ key i = some k := by
  rw [first] at h
  have hkey := List.find?_some h
  exact ⟨List.mem_range.1 (List.mem_of_find?_eq_some h), of_decide_eq_true hkey⟩

omit [DecidableEq K] in
/-- In a table without room all slots have keys of their own. -/
theorem Counts.full (h : Counts n key count f) (hkey : ∀ i < n, key i ≠ none) :
    ∃ ks : List K, ks.Nodup ∧ ks.length = n ∧ ∀ k ∈ ks, 0 < f k := by
  have hsome : ∀ i : Fin n, ∃ k, key i = some k :=
    fun i => Option.ne_none_iff_exists'.1 (hkey i i.isLt)
  choose g hg using hsome
  refine ⟨List.ofFn g, List.nodup_ofFn.2 ?_, List.length_ofFn, ?_⟩
  · intro i j hij
    have hj := hg j
    rw [← hij] at hj
    exact Fin.ext (h.one i i.isLt j j.isLt (g i) (hg i) hj)
  · intro k hk
    rcases List.mem_ofFn.1 hk with ⟨i, rfl⟩
    exact (h.used i i.isLt (g i) (hg i)).2

/-! ## Counting -/

/-- A key is counted once more, in its slot or in a free one. -/
theorem Counts.add (h : Counts n key count f) {i : ℕ} (hi : i < n)
    (hslot : key i = some k ∨ key i = none ∧ f k = 0) :
    Counts n (Function.update key i (some k)) (Function.update count i (count i + 1))
      (Function.update f k (f k + 1)) := by
  have hcount : count i = f k := by
    rcases hslot with hk | ⟨hnone, hf⟩
    · exact (h.used i hi k hk).1
    · rw [h.free i hi hnone, hf]
  -- no other slot has the key
  have hother : ∀ j < n, j ≠ i → key j ≠ some k := by
    intro j hj hne hk
    rcases hslot with hki | ⟨-, hf⟩
    · exact hne (h.one j hj i hi k hk hki)
    · have hpos := (h.used j hj k hk).2
      omega
  refine ⟨?_, ?_, ?_, ?_⟩
  · intro j hj l hl
    by_cases hji : j = i
    · rw [hji, Function.update_self] at hl
      rw [hji, Function.update_self, ← Option.some.inj hl, Function.update_self, hcount]
      exact ⟨rfl, Nat.succ_pos _⟩
    · rw [Function.update_of_ne hji] at hl ⊢
      have hlk : l ≠ k := by
        rintro rfl
        exact hother j hj hji hl
      rw [Function.update_of_ne hlk]
      exact h.used j hj l hl
  · intro j hj hnone
    by_cases hji : j = i
    · rw [hji, Function.update_self] at hnone
      cases hnone
    · rw [Function.update_of_ne hji] at hnone ⊢
      exact h.free j hj hnone
  · intro j hj j' hj' l hl hl'
    by_cases hji : j = i
    · by_cases hji' : j' = i
      · rw [hji, hji']
      · rw [hji, Function.update_self] at hl
        rw [Function.update_of_ne hji', ← hl] at hl'
        exact absurd hl' (hother j' hj' hji')
    · by_cases hji' : j' = i
      · rw [hji', Function.update_self] at hl'
        rw [Function.update_of_ne hji, ← hl'] at hl
        exact absurd hl (hother j hj hji)
      · rw [Function.update_of_ne hji] at hl
        rw [Function.update_of_ne hji'] at hl'
        exact h.one j hj j' hj' l hl hl'
  · intro l hl
    by_cases hlk : l = k
    · exact ⟨i, hi, by rw [Function.update_self, hlk]⟩
    · rw [Function.update_of_ne hlk] at hl
      rcases h.there l hl with ⟨j, hj, hkj⟩
      have hji : j ≠ i := by
        rintro rfl
        rcases hslot with hki | ⟨hnone, -⟩
        · rw [hki] at hkj
          exact hlk (Option.some.inj hkj).symm
        · rw [hnone] at hkj
          cases hkj
      exact ⟨j, hj, by rw [Function.update_of_ne hji, hkj]⟩

/-- A key is counted once less and keeps its slot. -/
theorem Counts.less (h : Counts n key count f) {i : ℕ} (hi : i < n) (hk : key i = some k)
    (hmore : 1 < count i) :
    Counts n key (Function.update count i (count i - 1)) (Function.update f k (f k - 1)) := by
  have hcount := (h.used i hi k hk).1
  refine ⟨?_, ?_, h.one, ?_⟩
  · intro j hj l hl
    by_cases hji : j = i
    · rw [hji, hk] at hl
      rw [hji, Function.update_self, ← Option.some.inj hl, Function.update_self, hcount]
      exact ⟨rfl, by omega⟩
    · have hlk : l ≠ k := by
        rintro rfl
        exact hji (h.one j hj i hi l hl hk)
      rw [Function.update_of_ne hji, Function.update_of_ne hlk]
      exact h.used j hj l hl
  · intro j hj hnone
    have hji : j ≠ i := by
      rintro rfl
      rw [hk] at hnone
      cases hnone
    rw [Function.update_of_ne hji]
    exact h.free j hj hnone
  · intro l hl
    by_cases hlk : l = k
    · exact ⟨i, hi, by rw [hlk, hk]⟩
    · rw [Function.update_of_ne hlk] at hl
      exact h.there l hl

/-- A key is counted for the last time and leaves its slot. -/
theorem Counts.last (h : Counts n key count f) {i : ℕ} (hi : i < n) (hk : key i = some k)
    (hone : count i = 1) :
    Counts n (Function.update key i none) (Function.update count i 0)
      (Function.update f k (f k - 1)) := by
  have hf : f k = 1 := by
    rw [← (h.used i hi k hk).1, hone]
  have hother : ∀ j < n, j ≠ i → key j ≠ some k :=
    fun j hj hne hkj => hne (h.one j hj i hi k hkj hk)
  have hkeep : ∀ {j l}, Function.update key i none j = some l → j ≠ i ∧ key j = some l := by
    intro j l hl
    by_cases hji : j = i
    · rw [hji, Function.update_self] at hl
      cases hl
    · rw [Function.update_of_ne hji] at hl
      exact ⟨hji, hl⟩
  refine ⟨?_, ?_, ?_, ?_⟩
  · intro j hj l hl
    rcases hkeep hl with ⟨hji, hl⟩
    have hlk : l ≠ k := by
      rintro rfl
      exact hother j hj hji hl
    rw [Function.update_of_ne hji, Function.update_of_ne hlk]
    exact h.used j hj l hl
  · intro j hj hnone
    by_cases hji : j = i
    · rw [hji, Function.update_self]
    · rw [Function.update_of_ne hji] at hnone ⊢
      exact h.free j hj hnone
  · intro j hj j' hj' l hl hl'
    exact h.one j hj j' hj' l (hkeep hl).2 (hkeep hl').2
  · intro l hl
    by_cases hlk : l = k
    · rw [hlk, Function.update_self, hf] at hl
      exact absurd hl (Nat.lt_irrefl 0)
    · rw [Function.update_of_ne hlk] at hl
      rcases h.there l hl with ⟨j, hj, hkj⟩
      have hji : j ≠ i := by
        rintro rfl
        rw [hk] at hkj
        exact hlk (Option.some.inj hkj).symm
      exact ⟨j, hj, by rw [Function.update_of_ne hji, hkj]⟩

end Wdutf.Slots
