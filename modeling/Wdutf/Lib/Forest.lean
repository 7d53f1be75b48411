import Mathlib.Data.List.Infix
import Mathlib.Data.List.Nodup
import Mathlib.Tactic.Common

/-!
# Wdutf.Lib.Forest — files and directories as a set of paths

A volume is a list of entries, each with its path from the root. A directory can be
removed when nothing is left in it.

* `WellFormed` — every entry lies in a directory, and no path is used twice;
* `prune` — what is left when everything at and below a path is removed that can be:
  an entry stays because it is stuck, or because an entry below it is (`Held`);
* `removeDirectory_pruneInside`, `prune_children` — `prune` is reached by doing the
  entries of the directory one after another, and then the directory itself.
-/

namespace Wdutf.Forest

/-- A file or a directory. -/
structure Entry (N : Type*) where
  path : List N
  isDir : Bool
deriving DecidableEq, Repr

variable {N : Type*} [DecidableEq N]

/-- There is a directory with this path; the root is not an entry. -/
def isDirectory (fs : List (Entry N)) (d : List N) : Bool :=
  d.isEmpty || fs.any fun e => e.isDir && e.path = d

/-- The name of `e`, if it lies in the directory `d`. -/
def Entry.nameIn (d : List N) (e : Entry N) : Option (N × Bool) :=
  match e.path.getLast? with
  | none => none
  | some a => if e.path.dropLast = d then some (a, e.isDir) else none

/-- The names in a directory, and which of them are directories. -/
def names (fs : List (Entry N)) (d : List N) : List (N × Bool) := fs.filterMap (Entry.nameIn d)

/-- Without the entry at a path. -/
def erase (fs : List (Entry N)) (p : List N) : List (Entry N) := fs.filter fun e => e.path ≠ p

/-- Remove a file, unless it is in use. -/
def deleteFile (locked : List N → Bool) (fs : List (Entry N)) (p : List N) : List (Entry N) :=
  if locked p || isDirectory fs p then fs else erase fs p

/-- Remove a directory, unless it is in use or there is something in it. -/
def removeDirectory (locked : List N → Bool) (fs : List (Entry N)) (p : List N) :
    List (Entry N) :=
  if locked p || !isDirectory fs p || !(names fs p).isEmpty then fs else erase fs p

/-- Every entry lies in a directory, and there is one entry for a path. -/
structure WellFormed (fs : List (Entry N)) : Prop where
  nodup : (fs.map Entry.path).Nodup
  rooted : ∀ e ∈ fs, e.path ≠ []
  parent : ∀ e ∈ fs, ∀ d a, e.path = d ++ [a] → isDirectory fs d = true

/-! ## Entries -/

theorem isDirectory_iff {fs : List (Entry N)} {d : List N} :
    isDirectory fs d = true ↔ d = [] ∨ ∃ e ∈ fs, e.isDir = true ∧ e.path = d := by
  simp [isDirectory]

theorem nameIn_eq_some {d : List N} {e : Entry N} {a : N} {b : Bool} :
    e.nameIn d = some (a, b) ↔ e.path = d ++ [a] ∧ e.isDir = b := by
  unfold Entry.nameIn
  rcases List.eq_nil_or_concat e.path with h | ⟨d', a', h⟩
  · simp [h]
  · rw [h, List.concat_eq_append]
    simp only [List.getLast?_append, List.getLast?_singleton, Option.some_or,
      List.dropLast_concat]
    split
    case isTrue hd =>
      subst hd
      simp
    case isFalse hd =>
      simp only [reduceCtorEq, false_iff]
      intro hpath
      exact hd (List.append_inj' hpath.1 rfl).1

theorem mem_names {fs : List (Entry N)} {d : List N} {a : N} {b : Bool} :
    (a, b) ∈ names fs d ↔ ∃ e ∈ fs, e.path = d ++ [a] ∧ e.isDir = b := by
  simp [names, nameIn_eq_some]

/-- The entry of a path. -/
theorem WellFormed.eq_of_path {fs : List (Entry N)} (h : WellFormed fs) {e e' : Entry N}
    (he : e ∈ fs) (he' : e' ∈ fs) (hpath : e.path = e'.path) : e = e' :=
  List.inj_on_of_nodup_map h.nodup he he' hpath

/-- What lies above an entry is a directory. -/
theorem WellFormed.above {fs : List (Entry N)} (h : WellFormed fs) {e : Entry N} (he : e ∈ fs)
    {p : List N} (hp : p <+: e.path) (hne : p ≠ e.path) : isDirectory fs p = true := by
  rcases hp with ⟨t, ht⟩
  induction t using List.reverseRecOn generalizing e with
  | nil => exact absurd (by simpa using ht) hne
  | append_singleton t a ih =>
    rw [← List.append_assoc] at ht
    have hdir := h.parent e he _ _ ht.symm
    rcases isDirectory_iff.1 hdir with hnil | ⟨e', he', hd, hpath⟩
    · rw [(List.append_eq_nil_iff.1 hnil).1]
      rfl
    · by_cases hp : p = e'.path
      · rw [hp]
        exact isDirectory_iff.2 (Or.inr ⟨e', he', hd, rfl⟩)
      · exact ih he' hp hpath.symm

/-- An entry strictly below a directory lies at or below one of its names. -/
theorem WellFormed.names_above {fs : List (Entry N)} (h : WellFormed fs) {e : Entry N}
    (he : e ∈ fs) {d : List N} (hd : d <+: e.path) (hne : e.path ≠ d) :
    ∃ a b, (a, b) ∈ names fs d ∧ d ++ [a] <+: e.path := by
  rcases hd with ⟨t, ht⟩
  cases t with
  | nil => exact absurd (by simpa using ht.symm) hne
  | cons a t =>
    have hbelow : d ++ [a] <+: e.path := ⟨t, by simpa using ht⟩
    by_cases heq : d ++ [a] = e.path
    · exact ⟨a, e.isDir, mem_names.2 ⟨e, he, heq.symm, rfl⟩, hbelow⟩
    · rcases isDirectory_iff.1 (h.above he hbelow heq) with hnil | ⟨e', he', hd', hpath⟩
      · simp at hnil
      · exact ⟨a, true, mem_names.2 ⟨e', he', hpath, hd'⟩, hbelow⟩

/-- The names in a directory are different. -/
theorem WellFormed.names_nodup {fs : List (Entry N)} (h : WellFormed fs) (d : List N) :
    ((names fs d).map Prod.fst).Nodup := by
  rw [List.Nodup, List.pairwise_map]
  have hpaths := h.nodup
  rw [List.Nodup, List.pairwise_map] at hpaths
  refine List.Pairwise.filterMap _ ?_ hpaths
  rintro e e' hne ⟨a, b⟩ hb ⟨a', b'⟩ hb' heq
  rw [nameIn_eq_some] at hb hb'
  apply hne
  rw [hb.1, hb'.1]
  exact congrArg (d ++ [·]) heq

/-! ## Pruning -/

variable {stuck : List N → Bool} {fs : List (Entry N)}

/-- There is something stuck at or below `p`. -/
def Held (stuck : List N → Bool) (fs : List (Entry N)) (p : List N) : Bool :=
  fs.any fun e => decide (p <+: e.path) && stuck e.path

theorem held_iff {p : List N} :
    Held stuck fs p = true ↔ ∃ e ∈ fs, p <+: e.path ∧ stuck e.path = true := by
  simp [Held]

/-- What is left at and below `d`. -/
def prune (stuck : List N → Bool) (fs : List (Entry N)) (d : List N) : List (Entry N) :=
  fs.filter fun e => !decide (d <+: e.path) || Held stuck fs e.path

/-- What is left below `d`, without `d` itself being touched. -/
def pruneInside (stuck : List N → Bool) (fs : List (Entry N)) (d : List N) : List (Entry N) :=
  fs.filter fun e => !decide (d <+: e.path) || e.path = d || Held stuck fs e.path

/-- What is left at and below some names of `d`. -/
def pruneNames (stuck : List N → Bool) (fs : List (Entry N)) (d : List N) (done : List N) :
    List (Entry N) :=
  fs.filter fun e => (done.all fun a => !decide (d ++ [a] <+: e.path)) || Held stuck fs e.path

theorem mem_prune {d : List N} {e : Entry N} :
    e ∈ prune stuck fs d ↔ e ∈ fs ∧ (¬ d <+: e.path ∨ Held stuck fs e.path = true) := by
  simp [prune]

theorem mem_pruneInside {d : List N} {e : Entry N} :
    e ∈ pruneInside stuck fs d ↔
      e ∈ fs ∧ (¬ d <+: e.path ∨ e.path = d ∨ Held stuck fs e.path = true) := by
  simp [pruneInside, or_assoc]

theorem mem_pruneNames {d done : List N} {e : Entry N} :
    e ∈ pruneNames stuck fs d done ↔
      e ∈ fs ∧ ((∀ a ∈ done, ¬ d ++ [a] <+: e.path) ∨ Held stuck fs e.path = true) := by
  simp [pruneNames]

/-- What is above something held is held. -/
theorem held_above {p q : List N} (hpq : p <+: q) (h : Held stuck fs q = true) :
    Held stuck fs p = true := by
  rcases held_iff.1 h with ⟨e, he, hq, hstuck⟩
  exact held_iff.2 ⟨e, he, hpq.trans hq, hstuck⟩

/-- A part of a volume that has, with an entry, all that is above it. -/
theorem WellFormed.filter (h : WellFormed fs) {keep : Entry N → Bool}
    (hkeep : ∀ e ∈ fs, ∀ e' ∈ fs, keep e = true → e'.path <+: e.path → keep e' = true) :
    WellFormed (fs.filter keep) := by
  refine ⟨h.nodup.sublist (List.filter_sublist.map _),
    fun e he => h.rooted e (List.mem_filter.1 he).1, ?_⟩
  intro e he d a hpath
  rw [List.mem_filter] at he
  rcases isDirectory_iff.1 (h.parent e he.1 d a hpath) with hnil | ⟨e', he', hd, hpath'⟩
  · exact isDirectory_iff.2 (Or.inl hnil)
  · have habove : e'.path <+: e.path := by
      rw [hpath, hpath']
      exact List.prefix_append d [a]
    exact isDirectory_iff.2 (Or.inr ⟨e', List.mem_filter.2 ⟨he', hkeep e he.1 e' he' he.2 habove⟩,
      hd, hpath'⟩)

theorem WellFormed.pruneNames (h : WellFormed fs) (d done : List N) :
    WellFormed (pruneNames stuck fs d done) := by
  refine h.filter ?_
  intro e _ e' _ hkeep hbelow
  simp only [Bool.or_eq_true, List.all_eq_true, Bool.not_eq_true', decide_eq_false_iff_not]
    at hkeep ⊢
  rcases hkeep with hkeep | hheld
  · exact Or.inl fun a ha hd => hkeep a ha (hd.trans hbelow)
  · exact Or.inr (held_above hbelow hheld)

/-- A stuck entry below `q` is still there when other names have been done. -/
theorem held_pruneNames {d done q : List N} :
    Held stuck (pruneNames stuck fs d done) q = Held stuck fs q := by
  rw [Bool.eq_iff_iff]
  constructor
  · intro h
    rcases held_iff.1 h with ⟨e, he, hq, hstuck⟩
    exact held_iff.2 ⟨e, (mem_pruneNames.1 he).1, hq, hstuck⟩
  · intro h
    rcases held_iff.1 h with ⟨e, he, hq, hstuck⟩
    -- a stuck entry holds itself
    have hself : Held stuck fs e.path = true := held_iff.2 ⟨e, he, List.prefix_refl _, hstuck⟩
    exact held_iff.2 ⟨e, mem_pruneNames.2 ⟨he, Or.inr hself⟩, hq, hstuck⟩

/-- One name more. -/
theorem prune_pruneNames (d done : List N) (a : N) :
    prune stuck (pruneNames stuck fs d done) (d ++ [a]) = pruneNames stuck fs d (done ++ [a]) := by
  have hheld : ∀ q, Held stuck (pruneNames stuck fs d done) q = Held stuck fs q :=
    fun _ => held_pruneNames
  rw [prune]
  simp only [hheld]
  rw [pruneNames, pruneNames, List.filter_filter]
  refine List.filter_congr fun e _ => ?_
  rw [Bool.eq_iff_iff]
  simp only [Bool.and_eq_true, Bool.or_eq_true, List.all_eq_true, List.mem_append,
    List.mem_singleton, Bool.not_eq_true', decide_eq_false_iff_not]
  constructor
  · rintro ⟨h | h, h' | h'⟩
    · refine Or.inl fun b hb => ?_
      rcases hb with hb | rfl
      · exact h' b hb
      · exact h
    · exact Or.inr h'
    · exact Or.inr h
    · exact Or.inr h
  · rintro (h | h)
    · exact ⟨Or.inl (h a (Or.inr rfl)), Or.inl fun b hb => h b (Or.inl hb)⟩
    · exact ⟨Or.inr h, Or.inr h⟩

/-- Nothing done yet. -/
theorem pruneNames_nil (d : List N) : pruneNames stuck fs d [] = fs := by
  simp [pruneNames]

/-- All names done. -/
theorem prune_children (h : WellFormed fs) (d : List N) :
    pruneNames stuck fs d ((names fs d).map Prod.fst) = pruneInside stuck fs d := by
  refine List.filter_congr fun e he => ?_
  rw [Bool.eq_iff_iff]
  simp only [Bool.or_eq_true, List.all_eq_true, Bool.not_eq_true', decide_eq_false_iff_not,
    decide_eq_true_iff, List.mem_map, Prod.exists, exists_and_right, exists_eq_right]
  constructor
  · rintro (hnone | hheld)
    · by_cases hd : d <+: e.path
      · by_cases heq : e.path = d
        · exact Or.inl (Or.inr heq)
        · rcases h.names_above he hd heq with ⟨a, b, hab, hbelow⟩
          exact absurd hbelow (hnone a ⟨b, hab⟩)
      · exact Or.inl (Or.inl hd)
    · exact Or.inr hheld
  · rintro ((hd | heq) | hheld)
    · exact Or.inl fun a _ hbelow => hd ((List.prefix_append d [a]).trans hbelow)
    · refine Or.inl fun a _ hbelow => ?_
      have := hbelow.length_le
      rw [heq, List.length_append, List.length_singleton] at this
      exact absurd this (Nat.not_succ_le_self _)
    · exact Or.inr hheld

/-! ## Removing the directory -/

/-- There is a name in a directory that something lies below. -/
theorem WellFormed.names_eq_nil_iff (h : WellFormed fs) {d : List N} :
    names fs d = [] ↔ ∀ e ∈ fs, d <+: e.path → e.path = d := by
  constructor
  · intro hnil e he hd
    by_contra hne
    rcases h.names_above he hd hne with ⟨a, b, hab, -⟩
    rw [hnil] at hab
    exact absurd hab List.not_mem_nil
  · intro hall
    rw [List.eq_nil_iff_forall_not_mem]
    rintro ⟨a, b⟩ hab
    rcases mem_names.1 hab with ⟨e, he, hpath, -⟩
    have := hall e he (by rw [hpath]; exact List.prefix_append d [a])
    rw [hpath] at this
    simp at this

theorem WellFormed.pruneInside (h : WellFormed fs) (d : List N) :
    WellFormed (pruneInside stuck fs d) := by
  rw [← prune_children h]
  exact h.pruneNames d _

theorem WellFormed.prune (h : WellFormed fs) (d : List N) : WellFormed (prune stuck fs d) := by
  refine h.filter ?_
  intro e _ e' _ hkeep hbelow
  simp only [Bool.or_eq_true, Bool.not_eq_true', decide_eq_false_iff_not] at hkeep ⊢
  rcases hkeep with hkeep | hheld
  · exact Or.inl fun hd => hkeep (hd.trans hbelow)
  · exact Or.inr (held_above hbelow hheld)

/-- The directory goes last; what is in use is stuck, and `d` is stuck for no other
reason. -/
theorem removeDirectory_pruneInside (h : WellFormed fs) {locked : List N → Bool} {d : List N}
    (hd : isDirectory fs d = true) (hstuck : stuck d = locked d) :
    removeDirectory locked (pruneInside stuck fs d) d = prune stuck fs d := by
  have hinside : prune stuck fs d =
      (pruneInside stuck fs d).filter fun e => e.path ≠ d || Held stuck fs d := by
    rw [pruneInside, prune, List.filter_filter]
    refine List.filter_congr fun e _ => ?_
    by_cases heq : e.path = d
    · subst heq
      simp
    · simp [heq]
  have hdir : isDirectory (pruneInside stuck fs d) d = true := by
    rcases isDirectory_iff.1 hd with hnil | ⟨e, he, hed, hpath⟩
    · exact isDirectory_iff.2 (Or.inl hnil)
    · exact isDirectory_iff.2
        (Or.inr ⟨e, mem_pruneInside.2 ⟨he, Or.inr (Or.inl hpath)⟩, hed, hpath⟩)
  -- it can go exactly if nothing holds it, or if it is the root, which is no entry
  cases hheld : Held stuck fs d with
  | false =>
    have hempty : names (pruneInside stuck fs d) d = [] := by
      rw [(h.pruneInside d).names_eq_nil_iff]
      intro e he hbelow
      rcases (mem_pruneInside.1 he).2 with hno | heq | hheld'
      · exact absurd hbelow hno
      · exact heq
      · rw [held_above hbelow hheld'] at hheld
        cases hheld
    have hlocked : locked d = false ∨ d = [] := by
      rcases isDirectory_iff.1 hd with hnil | ⟨e, he, -, hpath⟩
      · exact Or.inr hnil
      · left
        rw [← hstuck]
        by_contra hs
        rw [Bool.not_eq_false] at hs
        rw [held_iff.2 ⟨e, he, by rw [hpath], by rw [hpath, hs]⟩] at hheld
        cases hheld
    rcases hlocked with hlocked | hnil
    · rw [removeDirectory, hlocked, hdir, hempty, hinside, erase, hheld]
      simp
    · subst hnil
      have hfilter : ∀ e ∈ pruneInside stuck fs [], (e.path ≠ [] || false) = true := by
        intro e he
        simpa using h.rooted e (mem_pruneInside.1 he).1
      rw [hinside, hheld, List.filter_eq_self.2 hfilter, removeDirectory]
      split
      · rfl
      · rw [erase, List.filter_eq_self.2 (by simpa using hfilter)]
  | true =>
    rw [hinside, hheld, List.filter_eq_self.2 (by simp), removeDirectory, if_pos]
    rcases held_iff.1 hheld with ⟨e, he, hbelow, hs⟩
    by_cases heq : e.path = d
    · rw [heq, hstuck] at hs
      simp [hs]
    · have hmem : e ∈ pruneInside stuck fs d :=
        mem_pruneInside.2 ⟨he, Or.inr (Or.inr (held_iff.2 ⟨e, he, List.prefix_refl _, hs⟩))⟩
      rcases (h.pruneInside d).names_above hmem hbelow heq with ⟨a, b, hab, -⟩
      have hne : names (pruneInside stuck fs d) d ≠ [] := List.ne_nil_of_mem hab
      simp [hne]

/-- A second attempt changes nothing. -/
theorem removeDirectory_prune (h : WellFormed fs) {locked : List N → Bool} {d : List N}
    (hstuck : stuck d = locked d) :
    removeDirectory locked (prune stuck fs d) d = prune stuck fs d := by
  rw [removeDirectory]
  split
  case isTrue => rfl
  case isFalse hcond =>
    simp only [Bool.or_eq_true, Bool.not_eq_true', not_or, Bool.not_eq_true, Bool.not_eq_false,
      List.isEmpty_iff] at hcond
    rcases hcond with ⟨⟨hlocked, -⟩, hempty⟩
    rw [erase, List.filter_eq_self]
    intro e he
    have hall := ((h.prune d).names_eq_nil_iff (d := d)).1 hempty
    by_contra heq
    have heq : e.path = d := by simpa using heq
    -- an entry that stays at `d` is held by a stuck one, which stays as well
    rcases (mem_prune.1 he).2 with hno | hheld
    · exact hno (by rw [heq])
    · rcases held_iff.1 hheld with ⟨e', he', hbelow, hs⟩
      have hstay : e' ∈ prune stuck fs d :=
        mem_prune.2 ⟨he', Or.inr (held_iff.2 ⟨e', he', List.prefix_refl _, hs⟩)⟩
      rw [heq] at hbelow
      rw [hall e' hstay hbelow, hstuck, hlocked] at hs
      cases hs

/-- A file. -/
theorem deleteFile_eq_prune (h : WellFormed fs) {locked : List N → Bool} {e : Entry N}
    (he : e ∈ fs) (hfile : e.isDir = false) (hstuck : stuck e.path = locked e.path) :
    deleteFile locked fs e.path = prune stuck fs e.path := by
  have hnotdir : isDirectory fs e.path = false := by
    rw [← Bool.not_eq_true, isDirectory_iff]
    rintro (hnil | ⟨e', he', hd, hpath⟩)
    · exact h.rooted e he hnil
    · rw [h.eq_of_path he' he hpath, hfile] at hd
      cases hd
  -- nothing is below a file
  have hleaf : ∀ e' ∈ fs, e.path <+: e'.path → e'.path = e.path := by
    intro e' he' hbelow
    by_contra hne
    rw [h.above he' hbelow (Ne.symm hne)] at hnotdir
    cases hnotdir
  have hheld : Held stuck fs e.path = locked e.path := by
    rw [Bool.eq_iff_iff, held_iff]
    constructor
    · rintro ⟨e', he', hbelow, hs⟩
      rw [← hstuck, ← hleaf e' he' hbelow, hs]
    · intro hl
      exact ⟨e, he, List.prefix_refl _, by rw [hstuck, hl]⟩
  rw [deleteFile, hnotdir, Bool.or_false]
  cases hl : locked e.path with
  | true =>
    rw [if_pos rfl, prune, List.filter_eq_self.2]
    intro e' he'
    by_cases hbelow : e.path <+: e'.path
    · simp [hleaf e' he' hbelow, hheld, hl]
    · simp [hbelow]
  | false =>
    rw [if_neg (by simp), erase, prune]
    refine List.filter_congr fun e' he' => ?_
    by_cases hbelow : e.path <+: e'.path
    · simp [hleaf e' he' hbelow, hheld, hl]
    · have hne : e'.path ≠ e.path := fun heq => hbelow (by rw [heq])
      simp [hbelow, hne]

/-- Only what is stuck at and below `d` counts. -/
theorem prune_congr (stuck' : List N → Bool) {d : List N}
    (h : ∀ e ∈ fs, d <+: e.path → stuck e.path = stuck' e.path) :
    prune stuck fs d = prune stuck' fs d := by
  refine List.filter_congr fun e _ => ?_
  by_cases hd : d <+: e.path
  · have hheld : Held stuck fs e.path = Held stuck' fs e.path := by
      rw [Bool.eq_iff_iff, held_iff, held_iff]
      constructor
      · rintro ⟨e', he', hbelow, hs⟩
        exact ⟨e', he', hbelow, by rw [← h e' he' (hd.trans hbelow), hs]⟩
      · rintro ⟨e', he', hbelow, hs⟩
        exact ⟨e', he', hbelow, by rw [h e' he' (hd.trans hbelow), hs]⟩
    rw [hheld]
  · simp [hd]

/-- Nothing is removed where all is stuck. -/
theorem prune_of_stuck {d : List N} (h : ∀ e ∈ fs, d <+: e.path → stuck e.path = true) :
    prune stuck fs d = fs := by
  rw [prune, List.filter_eq_self]
  intro e he
  by_cases hd : d <+: e.path
  · simp [held_iff.2 ⟨e, he, List.prefix_refl _, h e he hd⟩]
  · simp [hd]

/-- An entry to which only what is stuck below it is left. -/
theorem removeDirectory_eq_prune (h : WellFormed fs) {locked : List N → Bool} {d : List N}
    (hd : isDirectory fs d = true) (hstuck : stuck d = locked d)
    (hbelow : ∀ e ∈ fs, d <+: e.path → e.path ≠ d → stuck e.path = true) :
    removeDirectory locked fs d = prune stuck fs d := by
  have hinside : pruneInside stuck fs d = fs := by
    rw [pruneInside, List.filter_eq_self]
    intro e he
    by_cases hp : d <+: e.path
    · by_cases heq : e.path = d
      · simp [heq]
      · simp [held_iff.2 ⟨e, he, List.prefix_refl _, hbelow e he hp heq⟩]
    · simp [hp]
  rw [← removeDirectory_pruneInside h hd hstuck, hinside]

/-! ## Single changes -/

/-- Make a directory, if there is nothing at its path and it lies in a directory. -/
def createDirectory (fs : List (Entry N)) (p : List N) : List (Entry N) :=
  if p.isEmpty || fs.any (fun e => e.path = p) || !isDirectory fs p.dropLast then fs
  else fs ++ [⟨p, true⟩]

/-- Delete one file or one empty directory at or below `d`. -/
inductive Deletion (d : List N) (fs : List (Entry N)) : List (Entry N) → Prop
  | file (locked : List N → Bool) (p : List N) : d <+: p → Deletion d fs (deleteFile locked fs p)
  | directory (locked : List N → Bool) (p : List N) :
      d <+: p → Deletion d fs (removeDirectory locked fs p)

/-- An entry with nothing below it can go. -/
theorem WellFormed.erase (h : WellFormed fs) {p : List N}
    (hleaf : ∀ e ∈ fs, p <+: e.path → e.path = p) : WellFormed (erase fs p) := by
  refine h.filter ?_
  intro e he e' _ hkeep hbelow
  simp only [ne_eq, decide_not, Bool.not_eq_true', decide_eq_false_iff_not] at hkeep ⊢
  intro heq
  rw [heq] at hbelow
  exact hkeep (hleaf e he hbelow)

theorem WellFormed.leaf_of_not_directory (h : WellFormed fs) {p : List N}
    (hp : isDirectory fs p = false) : ∀ e ∈ fs, p <+: e.path → e.path = p := by
  intro e he hbelow
  by_contra hne
  rw [h.above he hbelow (Ne.symm hne)] at hp
  cases hp

/-- A deletion removes one entry at or below `d` or nothing. -/
theorem Deletion.erases {d : List N} {fs' : List (Entry N)} (h : WellFormed fs)
    (hdel : Deletion d fs fs') :
    fs' = fs ∨ ∃ p, d <+: p ∧ fs' = Forest.erase fs p ∧
      ∀ e ∈ fs, p <+: e.path → e.path = p := by
  cases hdel with
  | file locked p hp =>
    rw [deleteFile]
    split
    · exact Or.inl rfl
    · rename_i hcond
      simp only [Bool.or_eq_true, not_or, Bool.not_eq_true] at hcond
      exact Or.inr ⟨p, hp, rfl, h.leaf_of_not_directory hcond.2⟩
  | directory locked p hp =>
    rw [removeDirectory]
    split
    · exact Or.inl rfl
    · rename_i hcond
      simp only [Bool.or_eq_true, Bool.not_eq_true', not_or, Bool.not_eq_true, Bool.not_eq_false,
        List.isEmpty_iff] at hcond
      exact Or.inr ⟨p, hp, rfl, h.names_eq_nil_iff.1 hcond.2⟩

theorem Deletion.wellFormed {d : List N} {fs' : List (Entry N)} (hdel : Deletion d fs fs')
    (h : WellFormed fs) : WellFormed fs' := by
  rcases hdel.erases h with rfl | ⟨p, -, rfl, hleaf⟩
  · exact h
  · exact h.erase hleaf

theorem WellFormed.createDirectory (h : WellFormed fs) (p : List N) :
    WellFormed (createDirectory fs p) := by
  rw [Forest.createDirectory]
  split
  · exact h
  · rename_i hcond
    simp only [Bool.or_eq_true, List.isEmpty_iff, List.any_eq_true, decide_eq_true_iff,
      Bool.not_eq_true', not_or, not_exists, not_and, Bool.not_eq_false] at hcond
    rcases hcond with ⟨⟨hne, hfresh⟩, hparent⟩
    have hmono : ∀ d, isDirectory fs d = true → isDirectory (fs ++ [⟨p, true⟩]) d = true := by
      intro d hd
      rcases isDirectory_iff.1 hd with hnil | ⟨e, he, hed, hpath⟩
      · exact isDirectory_iff.2 (Or.inl hnil)
      · exact isDirectory_iff.2 (Or.inr ⟨e, List.mem_append_left _ he, hed, hpath⟩)
    constructor
    case nodup =>
      rw [List.map_append, List.nodup_append]
      refine ⟨h.nodup, List.nodup_singleton _, ?_⟩
      intro q hq q' hq' heq
      rcases List.mem_map.1 hq with ⟨e, he, rfl⟩
      rw [List.map_cons, List.map_nil, List.mem_singleton] at hq'
      exact hfresh e he (heq.trans hq')
    case rooted =>
      intro e he
      rcases List.mem_append.1 he with he | he
      · exact h.rooted e he
      · rw [List.mem_singleton.1 he]
        exact hne
    case parent =>
      intro e he d a hpath
      rcases List.mem_append.1 he with he | he
      · exact hmono d (h.parent e he d a hpath)
      · rw [List.mem_singleton.1 he] at hpath
        have hp : p = d ++ [a] := hpath
        rw [hp, List.dropLast_concat] at hparent
        exact hmono d hparent

end Wdutf.Forest
