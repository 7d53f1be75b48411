import Mathlib.Data.List.Nodup

/-!
# Wdutf.Lib.Keyed — linked lists of records with addresses

A linked list as the list of its records, each with a key: the address where it
is. A pointer is a key, so it can outlive the record that it pointed to.

* `lookup`, `store`, `unlink`, `next` — what a program does with such a list through
  pointers;
* `lookup_middle`, `unlink_middle`, `next_middle` — what it finds and leaves, when
  the keys are different.
-/

namespace Wdutf.Keyed

variable {α κ : Type} [DecidableEq κ]

/-- The record that a pointer points to. -/
def lookup (key : α → κ) (l : List α) (k : κ) : Option α := l.find? fun x => decide (key x = k)

/-- Write a record. -/
def store (key : α → κ) (l : List α) (a : α) : List α :=
  l.map fun x => if key x = key a then a else x

/-- Take a record off the list. -/
def unlink (key : α → κ) (l : List α) (k : κ) : List α := l.eraseP fun x => decide (key x = k)

/-- The record behind the one that a pointer points to. -/
def next (key : α → κ) (l : List α) (k : κ) : Option α :=
  (l.dropWhile fun x => decide (key x ≠ k)).tail.head?

variable {key : α → κ} {l before after : List α} {a b : α} {k : κ}

/-! ## A record and the rest of the list -/

omit [DecidableEq κ] in
/-- The other records have other keys. -/
theorem before_ne (h : ((before ++ a :: after).map key).Nodup) : ∀ x ∈ before, key x ≠ key a := by
  intro x hx heq
  rw [List.map_append, List.nodup_append] at h
  exact h.2.2 (key x) (List.mem_map_of_mem hx) (key a) (by simp) heq

omit [DecidableEq κ] in
theorem after_ne (h : ((before ++ a :: after).map key).Nodup) : ∀ x ∈ after, key x ≠ key a := by
  intro x hx heq
  rw [List.map_append, List.map_cons] at h
  have htail := (List.nodup_cons.1 (List.nodup_append.1 h).2.1).1
  rw [← heq] at htail
  exact htail (List.mem_map_of_mem hx)

/-- Nothing before the record has its key. -/
theorem dropWhile_middle (h : ((before ++ a :: after).map key).Nodup) :
    (before ++ a :: after).dropWhile (fun x => decide (key x ≠ key a)) = a :: after := by
  have hne := before_ne h
  rw [List.dropWhile_append_of_pos (by simpa using hne), List.dropWhile_cons_of_neg (by simp)]

theorem next_middle (h : ((before ++ a :: after).map key).Nodup) :
    next key (before ++ a :: after) (key a) = after.head? := by
  unfold next
  rw [dropWhile_middle h]
  rfl

theorem lookup_middle (h : ((before ++ a :: after).map key).Nodup) :
    lookup key (before ++ a :: after) (key a) = some a := by
  have hne := before_ne h
  unfold lookup
  rw [List.find?_append, List.find?_eq_none.2 (by simpa using hne), Option.none_or,
    List.find?_cons_of_pos (by simp)]

theorem unlink_middle (h : ((before ++ a :: after).map key).Nodup) :
    unlink key (before ++ a :: after) (key a) = before ++ after := by
  have hne := before_ne h
  unfold unlink
  rw [List.eraseP_append_right _ (by simpa using hne), List.eraseP_cons_of_pos (by simp)]

theorem store_middle (h : ((before ++ a :: after).map key).Nodup) (hkey : key b = key a) :
    store key (before ++ a :: after) b = before ++ b :: after := by
  have hbefore := before_ne h
  have hafter := after_ne h
  have hkeep : ∀ l : List α, (∀ x ∈ l, key x ≠ key a) →
      l.map (fun x => if key x = key b then b else x) = l := by
    intro l hl
    rw [hkey]
    exact (List.map_congr_left fun x hx => if_neg (hl x hx)).trans (List.map_id' l)
  unfold store
  rw [List.map_append, List.map_cons, hkeep before hbefore, hkeep after hafter, if_pos hkey.symm]

/-! ## The list of the keys -/

/-! ## Pointers -/

theorem mem_of_lookup (h : lookup key l k = some a) : a ∈ l := List.mem_of_find?_eq_some h

theorem key_of_lookup (h : lookup key l k = some a) : key a = k := by
  simpa using List.find?_some h

theorem lookup_of_mem (hnodup : (l.map key).Nodup) (h : a ∈ l) : lookup key l (key a) = some a := by
  rcases List.append_of_mem h with ⟨before, after, rfl⟩
  exact lookup_middle hnodup

/-- A record that is found splits the list. -/
theorem exists_middle (h : lookup key l k = some a) :
    ∃ before after, l = before ++ a :: after ∧ key a = k := by
  rcases List.append_of_mem (mem_of_lookup h) with ⟨before, after, hl⟩
  exact ⟨before, after, hl, key_of_lookup h⟩

theorem keys_store : (store key l b).map key = l.map key := by
  unfold store
  rw [List.map_map]
  apply List.map_congr_left
  intro x _
  show key (if key x = key b then b else x) = key x
  split
  · rename_i heq
    exact heq.symm
  · rfl

theorem lookup_store (h : lookup key l (key b) = some a) :
    lookup key (store key l b) (key b) = some b := by
  induction l with
  | nil => cases h
  | cons x l ih =>
    unfold lookup store at *
    rw [List.map_cons]
    by_cases hx : key x = key b
    · rw [if_pos hx, List.find?_cons_of_pos (by simp)]
    · rw [List.find?_cons_of_neg (by simpa using hx)] at h
      rw [if_neg hx, List.find?_cons_of_neg (by simpa using hx)]
      exact ih h

theorem lookup_cons_self : lookup key (a :: l) (key a) = some a := by
  unfold lookup
  rw [List.find?_cons_of_pos (by simp)]

theorem lookup_cons_of_ne (hne : key a ≠ k) : lookup key (a :: l) k = lookup key l k := by
  unfold lookup
  rw [List.find?_cons_of_neg (by simpa using hne)]

/-- A pointer to another record is not concerned. -/
theorem lookup_store_of_ne (hne : k ≠ key b) : lookup key (store key l b) k = lookup key l k := by
  unfold lookup store
  induction l with
  | nil => rfl
  | cons x l ih =>
    rw [List.map_cons]
    by_cases hx : key x = key b
    · rw [if_pos hx, List.find?_cons_of_neg (by simpa using hne.symm),
        List.find?_cons_of_neg (by simpa [hx] using hne.symm)]
      exact ih
    · rw [if_neg hx]
      by_cases hk : key x = k
      · rw [List.find?_cons_of_pos (by simpa using hk), List.find?_cons_of_pos (by simpa using hk)]
      · rw [List.find?_cons_of_neg (by simpa using hk), List.find?_cons_of_neg (by simpa using hk)]
        exact ih

theorem lookup_unlink_of_ne {k' : κ} (hne : k' ≠ k) :
    lookup key (unlink key l k) k' = lookup key l k' := by
  unfold lookup unlink
  induction l with
  | nil => rfl
  | cons x l ih =>
    by_cases hx : key x = k
    · rw [List.eraseP_cons_of_pos (by simpa using hx),
        List.find?_cons_of_neg (by simpa [hx] using hne.symm)]
    · rw [List.eraseP_cons_of_neg (by simpa using hx)]
      by_cases hk : key x = k'
      · rw [List.find?_cons_of_pos (by simpa using hk), List.find?_cons_of_pos (by simpa using hk)]
      · rw [List.find?_cons_of_neg (by simpa using hk), List.find?_cons_of_neg (by simpa using hk)]
        exact ih

theorem store_self (hnodup : (l.map key).Nodup) (h : a ∈ l) : store key l a = l := by
  rcases List.append_of_mem h with ⟨before, after, rfl⟩
  exact store_middle hnodup rfl

theorem store_store (h : key b = key a) : store key (store key l a) b = store key l b := by
  unfold store
  rw [List.map_map]
  apply List.map_congr_left
  intro x _
  show (if key (if key x = key a then a else x) = key b then b else _) = _
  by_cases hx : key x = key a
  · rw [if_pos hx, if_pos h.symm, if_pos (hx.trans h.symm)]
  · rw [if_neg hx]

/-- A stored record is the new one or an old one with another key. -/
theorem mem_store {x : α} (h : x ∈ store key l b) : x = b ∨ (x ∈ l ∧ key x ≠ key b) := by
  unfold store at h
  rcases List.mem_map.1 h with ⟨y, hy, rfl⟩
  by_cases hkey : key y = key b
  · rw [if_pos hkey]
    exact Or.inl rfl
  · rw [if_neg hkey]
    exact Or.inr ⟨hy, hkey⟩

theorem mem_unlink {x : α} (h : x ∈ unlink key l k) : x ∈ l := List.mem_of_mem_eraseP h

theorem nodup_unlink (h : (l.map key).Nodup) : ((unlink key l k).map key).Nodup :=
  h.sublist ((List.eraseP_sublist).map key)

/-- With different keys, an unlinked key is gone. -/
theorem key_ne_of_mem_unlink (hnodup : (l.map key).Nodup) (hlookup : lookup key l k = some a)
    {x : α}
    (h : x ∈ unlink key l k) : key x ≠ k := by
  rcases exists_middle hlookup with ⟨before, after, rfl, rfl⟩
  rw [unlink_middle hnodup] at h
  rcases List.mem_append.1 h with hx | hx
  · exact before_ne hnodup x hx
  · exact after_ne hnodup x hx

/-- With different keys, an unlinked key is not found. -/
theorem lookup_unlink_self (hnodup : (l.map key).Nodup) : lookup key (unlink key l k) k = none := by
  cases hl : lookup key l k with
  | none =>
    have hall : ∀ x ∈ l, ¬ decide (key x = k) = true := List.find?_eq_none.1 hl
    unfold unlink
    rw [List.eraseP_of_forall_not hall]
    exact hl
  | some a =>
    refine List.find?_eq_none.2 fun x hx => ?_
    simpa using key_ne_of_mem_unlink hnodup hl hx

end Wdutf.Keyed
