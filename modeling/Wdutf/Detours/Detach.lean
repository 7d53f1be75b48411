import Wdutf.Detours.Invariant

/-!
# Wdutf.Detours.Detach — what is left after a detach, `src/detours.cpp`

The intercepts of a function are those on the list of its detour. What a detach does is said for
them: the loops over regions, slots and lists leave the entries that do not match.

* `Detached` — the matching intercepts are gone, the others have kept their function and their
  order, and a function that has lost its last one is no longer detoured if its transaction
  succeeds;
* `SweptBy.detached` — the loops do that, whatever the transactions answer;
* `detach_exact_iff` — so do the two routines, where the end of the range does not overflow.
-/

namespace Wdutf.Detours

open Wdutf.Keyed Wdutf.Transition

/-- A function is detoured. -/
def State.Detoured (s : State) (f : Address) : Prop := ∃ d ∈ s.usedDetours, d.function = f

/-- A detour loses its intercepts. -/
def Detour.loses (gone : Address → Intercept → Bool) (d : Detour) : Bool :=
  !d.intercepts.isEmpty && d.intercepts.all (gone d.function)

/-- The functions of the detours that lose their intercepts. -/
def lostOf (gone : Address → Intercept → Bool) (ds : List Detour) : List Address :=
  (ds.filter (Detour.loses gone)).map Detour.function

/-- The functions that lose their last intercept, in the order in which they are visited. -/
def State.lost (s : State) (gone : Address → Intercept → Bool) : List Address :=
  lostOf gone s.usedDetours

/-- The intercepts that are gone after a detach, and the functions that are no longer detoured:
the transactions are made for the functions that lose their last intercept, in turn. -/
structure Detached (gone : Address → Intercept → Bool) (env : Env) (s s' : State) : Prop where
  remaining : ∀ f, s'.interceptsOf f = (s.interceptsOf f).filter fun p => !gone f p
  lost : ∀ f, f ∈ s.lost gone ↔ s.interceptsOf f ≠ [] ∧ s'.interceptsOf f = []
  transactions : s'.transactions = s.transactions + (s.lost gone).length
  undetoured : ∀ k f, (s.lost gone)[k]? = some f →
    ((env.transaction (s.transactions + k)).succeeds false = true ↔ ¬ s'.Detoured f)

/-! ## A sweep over detours -/

section Sweep

variable {env : Env} {visit : Detour → Bool} {hit : Intercept → Bool} {range : Address → Bool}

/-- The intercepts that a sweep frees. -/
def goneBy (range : Address → Bool) (hit : Intercept → Bool) (f : Address) (p : Intercept) : Bool :=
  range f && hit p

/-- The functions that a sweep leaves are those of the detours before it. -/
theorem function_sweep (d : Detour) (succeeds : Bool) :
    (d.sweep visit hit succeeds).function = d.function ∨
      (d.sweep visit hit succeeds).function = 0 := by
  unfold Detour.sweep Detour.keep
  split
  · split
    · exact Or.inr rfl
    · exact Or.inl rfl
  · exact Or.inl rfl

theorem function_of_sweep {n : ℕ} {ds : List Detour} {d' : Detour}
    (h : d' ∈ usedOf (sweepDetours env visit hit n ds)) :
    ∃ d ∈ usedOf ds, d.function = d'.function := by
  induction ds generalizing n with
  | nil => cases h
  | cons d ds ih =>
    rcases List.mem_filter.1 h with ⟨hmem, hused⟩
    rw [decide_eq_true_eq] at hused
    rw [sweepDetours] at hmem
    rcases List.mem_cons.1 hmem with rfl | hmem
    · rcases function_sweep d _ with hsame | hzero
      · rw [hsame] at hused ⊢
        exact ⟨d, List.mem_filter.2 ⟨List.mem_cons_self, by simpa using hused⟩, rfl⟩
      · exact absurd hzero hused
    · rcases ih (List.mem_filter.2 ⟨hmem, by simpa using hused⟩) with ⟨e, he, heq⟩
      rcases List.mem_filter.1 he with ⟨he, heused⟩
      exact ⟨e, List.mem_filter.2 ⟨List.mem_cons_of_mem d he, heused⟩, heq⟩

theorem usedOf_unused {d : Detour} (hunused : d.function = 0) (succeeds : Bool) :
    usedOf [d.sweep visit hit succeeds] = [] := by
  have hzero : (d.sweep visit hit succeeds).function = 0 := by
    rcases function_sweep d succeeds with hsame | hzero
    · rw [hsame, hunused]
    · exact hzero
  unfold usedOf
  rw [List.filter_cons_of_neg (by simpa using hzero), List.filter_nil]

variable (hvisit : ∀ d : Detour, d.function ≠ 0 → visit d = range d.function)
include hvisit

/-- The intercepts that are left of one detour. -/
theorem intercepts_sweep {d : Detour} (hused : d.function ≠ 0) (succeeds : Bool) (f : Address) :
    interceptsIn f (usedOf [d.sweep visit hit succeeds]) =
      (if d.function = f then d.intercepts else []).filter fun p => !goneBy range hit f p := by
  have hone : ∀ kept : List Intercept, interceptsIn f (usedOf [{ d with intercepts := kept }]) =
      if d.function = f then kept else [] :=
    fun kept => @interceptsIn_used { d with intercepts := kept } hused f
  unfold Detour.sweep
  rw [hvisit d hused]
  by_cases hf : d.function = f
  · subst hf
    rw [if_pos rfl]
    cases hrange : range d.function with
    | true =>
      simp only [goneBy, hrange, Bool.true_and, if_true]
      unfold Detour.keep
      split
      · rename_i hlost
        rw [hlost.2.1]
        rfl
      · exact (hone _).trans (if_pos rfl)
    | false =>
      simp only [goneBy, hrange, Bool.false_and, Bool.not_false, List.filter_true]
      exact (hone d.intercepts).trans (if_pos rfl)
  · -- another function
    rw [if_neg hf, List.filter_nil]
    split
    · unfold Detour.keep
      split
      · rfl
      · exact (hone _).trans (if_neg hf)
    · exact (hone d.intercepts).trans (if_neg hf)

/-- The intercepts that are left of a list of detours. -/
theorem intercepts_sweepDetours (n : ℕ) (ds : List Detour) (f : Address) :
    interceptsIn f (usedOf (sweepDetours env visit hit n ds)) =
      (interceptsIn f (usedOf ds)).filter fun p => !goneBy range hit f p := by
  induction ds generalizing n with
  | nil => rfl
  | cons d ds ih =>
    rw [sweepDetours, usedOf_cons, interceptsIn_append, ih, usedOf_cons d, interceptsIn_append,
      List.filter_append]
    congr 1
    by_cases hused : d.function = 0
    · rw [usedOf_unused hused, interceptsIn_unused hused]
      rfl
    · rw [intercepts_sweep hvisit hused, interceptsIn_used hused]

/-- A transaction is made for a detour that loses its intercepts. -/
theorem sweepLosses_eq {d : Detour} (hused : d.function ≠ 0) :
    d.sweepLosses visit hit = if d.loses (goneBy range hit) then 1 else 0 := by
  unfold Detour.sweepLosses
  rw [hvisit d hused]
  cases hrange : range d.function with
  | true =>
    rw [if_pos rfl]
    unfold Detour.losses
    apply if_congr _ rfl rfl
    simp [Detour.loses, goneBy, hrange]
  | false =>
    rw [if_neg Bool.false_ne_true, if_neg]
    simpa [Detour.loses, goneBy, hrange] using List.exists_mem_of_ne_nil d.intercepts

/-- What is left of a detour that loses its intercepts. -/
theorem sweep_of_loses {d : Detour} (hused : d.function ≠ 0)
    (hloses : d.loses (goneBy range hit) = true) (succeeds : Bool) :
    d.sweep visit hit succeeds =
      if succeeds = true then .zero else { d with intercepts := [] } := by
  have hlosses := @sweepLosses_eq _ hit _ hvisit _ hused
  rw [if_pos hloses] at hlosses
  unfold Detour.sweepLosses at hlosses
  split at hlosses
  · rename_i hvisited
    unfold Detour.losses at hlosses
    split at hlosses
    · rename_i hemptied
      unfold Detour.sweep Detour.keep
      rw [if_pos hvisited, hemptied.2]
      simp only [hemptied.1, ne_eq, not_false_eq_true, true_and]
    · cases hlosses
  · cases hlosses

omit hvisit in
/-- The first detour of a sweep does not count for the functions of the others. -/
theorem detoured_append {d : Detour} {es : List Detour} {succeeds : Bool} {f : Address}
    (hf : d.function ≠ f) :
    (∃ e ∈ usedOf [d.sweep visit hit succeeds] ++ es, e.function = f) ↔
      ∃ e ∈ es, e.function = f := by
  constructor
  · rintro ⟨e, he, rfl⟩
    rcases List.mem_append.1 he with he | he
    · exfalso
      rcases List.mem_filter.1 he with ⟨he, hused⟩
      rw [List.mem_singleton] at he
      rw [decide_eq_true_eq] at hused
      subst he
      rcases @function_sweep visit hit d succeeds with hsame | hzero
      · exact hf hsame.symm
      · exact hused hzero
    · exact ⟨e, he, rfl⟩
  · rintro ⟨e, he, hf⟩
    exact ⟨e, List.mem_append_right _ he, hf⟩

variable {ds : List Detour} (hunused : ∀ d ∈ ds, d.function = 0 → d.intercepts = [])

omit hvisit in
theorem sweepLosses_unused {d : Detour} (h : d.intercepts = []) :
    d.sweepLosses visit hit = 0 := by
  have hnone : ∀ kept, d.losses kept = 0 := fun kept => if_neg fun hlost => hlost.1 h
  unfold Detour.sweepLosses
  rw [hnone, ite_self]

include hunused

theorem length_lostOf :
    sweepLosses visit hit ds = (lostOf (goneBy range hit) (usedOf ds)).length := by
  unfold lostOf
  rw [List.length_map]
  induction ds with
  | nil => rfl
  | cons d ds ih =>
    rw [List.forall_mem_cons] at hunused
    rw [sweepLosses, ih hunused.2]
    unfold usedOf
    by_cases hused : d.function = 0
    · rw [sweepLosses_unused (hunused.1 hused), List.filter_cons_of_neg (by simpa using hused),
        Nat.zero_add]
    · rw [sweepLosses_eq hvisit hused, List.filter_cons_of_pos (by simpa using hused)]
      split
      · rename_i hloses
        rw [List.filter_cons_of_pos hloses, List.length_cons, Nat.add_comm]
      · rename_i hkeeps
        rw [List.filter_cons_of_neg hkeeps, Nat.zero_add]

/-- A function that has lost its last intercept is detoured if its transaction fails. -/
theorem undetoured_sweepDetours (hnodup : ((usedOf ds).map Detour.function).Nodup) {n k : ℕ}
    {f : Address} (hlost : (lostOf (goneBy range hit) (usedOf ds))[k]? = some f) :
    (env.transaction (n + k)).succeeds false = true ↔
      ¬ ∃ d ∈ usedOf (sweepDetours env visit hit n ds), d.function = f := by
  induction ds generalizing n k with
  | nil => cases hlost
  | cons d ds ih =>
    rw [List.forall_mem_cons] at hunused
    rw [sweepDetours, usedOf_cons]
    by_cases hused : d.function = 0
    · have hnone : usedOf (d :: ds) = usedOf ds := by
        unfold usedOf
        rw [List.filter_cons_of_neg (by simpa using hused)]
      rw [hnone] at hlost hnodup
      rw [usedOf_unused hused, List.nil_append, sweepLosses_unused (hunused.1 hused), Nat.add_zero]
      exact ih hunused.2 hnodup hlost
    have hcons : usedOf (d :: ds) = d :: usedOf ds := by
      unfold usedOf
      rw [List.filter_cons_of_pos (by simpa using hused)]
    rw [hcons] at hlost hnodup
    rw [List.map_cons, List.nodup_cons] at hnodup
    -- a function of the detours behind it is not that of `d`
    have hother : ∀ {k : ℕ} {g : Address}, (lostOf (goneBy range hit) (usedOf ds))[k]? = some g →
        d.function ≠ g := by
      rintro k g hg rfl
      have hg := List.mem_of_getElem? hg
      unfold lostOf at hg
      rcases List.mem_map.1 hg with ⟨e, he, heq⟩
      exact hnodup.1 (heq ▸ List.mem_map_of_mem (List.mem_filter.1 he).1)
    have hlosses := @sweepLosses_eq _ hit _ hvisit _ hused
    by_cases hloses : d.loses (goneBy range hit) = true
    · have hhead : lostOf (goneBy range hit) (d :: usedOf ds) =
          d.function :: lostOf (goneBy range hit) (usedOf ds) := by
        unfold lostOf
        rw [List.filter_cons_of_pos hloses, List.map_cons]
      rw [if_pos hloses] at hlosses
      rw [hhead] at hlost
      cases k with
      | zero =>
        -- its own transaction
        rw [List.getElem?_cons_zero, Option.some.injEq] at hlost
        subst hlost
        rw [Nat.add_zero, sweep_of_loses hvisit hused hloses]
        by_cases hsucceeds : (env.transaction n).succeeds false = true
        · refine iff_of_true hsucceeds ?_
          rintro ⟨e, he, hf⟩
          rw [if_pos hsucceeds] at he
          rcases List.mem_append.1 he with he | he
          · cases he
          · rcases function_of_sweep he with ⟨e', he', heq⟩
            exact hnodup.1 (hf ▸ heq ▸ List.mem_map_of_mem he')
        · refine iff_of_false hsucceeds (not_not_intro ?_)
          rw [if_neg hsucceeds]
          refine ⟨_, List.mem_append_left _ (List.mem_filter.2 ⟨List.mem_singleton_self _, ?_⟩),
            rfl⟩
          simpa using hused
      | succ k =>
        rw [List.getElem?_cons_succ] at hlost
        rw [detoured_append (hother hlost), hlosses]
        have hnext := @ih hunused.2 hnodup.2 (n + 1) k hlost
        rw [Nat.add_assoc, Nat.add_comm 1 k] at hnext
        exact hnext
    · have hskip : lostOf (goneBy range hit) (d :: usedOf ds) =
          lostOf (goneBy range hit) (usedOf ds) := by
        unfold lostOf
        rw [List.filter_cons_of_neg hloses]
      rw [if_neg hloses] at hlosses
      rw [hskip] at hlost
      rw [detoured_append (hother hlost), hlosses, Nat.add_zero]
      exact ih hunused.2 hnodup.2 hlost

end Sweep

/-! ## A detach -/

section Detach

variable {env : Env} {s s' : State} {visit : Detour → Bool} {hit : Intercept → Bool}
  {range : Address → Bool} {gone gone' : Address → Intercept → Bool} {pending : Option Address}

/-- The detours without a function have no intercepts. -/
theorem StateOk.unused (h : StateOk pending s) :
    ∀ d ∈ s.regionlist.flatMap Region.detours, d.function = 0 → d.intercepts = [] := by
  intro d hd hzero
  rcases List.mem_flatMap.1 hd with ⟨r, hr, hd⟩
  rcases List.getElem_of_mem hd with ⟨i, hi, rfl⟩
  have hslot := (h.regions r hr).slots i
  rw [detour_eq_getElem hi] at hslot
  exact (hslot.free hzero).1

/-- The functions that lose their last intercept. -/
theorem StateOk.mem_lost (h : StateOk pending s) {f : Address} :
    f ∈ s.lost gone ↔ s.interceptsOf f ≠ [] ∧ ∀ p ∈ s.interceptsOf f, gone f p = true := by
  unfold State.lost lostOf
  rw [List.mem_map]
  constructor
  · rintro ⟨d, hd, rfl⟩
    rcases List.mem_filter.1 hd with ⟨hd, hloses⟩
    rw [h.interceptsOf_eq hd]
    simpa [Detour.loses] using hloses
  · rintro ⟨hne, hall⟩
    rcases List.exists_mem_of_ne_nil _ hne with ⟨p, hp⟩
    rcases mem_interceptsOf.1 hp with ⟨d, hd, rfl, -⟩
    refine ⟨d, List.mem_filter.2 ⟨hd, ?_⟩, rfl⟩
    rw [h.interceptsOf_eq hd] at hne hall
    simpa [Detour.loses] using ⟨hne, hall⟩

/-- What the loops leave, in terms of the functions. -/
theorem SweptBy.detached (h : SweptBy env visit hit s s') (hok : StateOk pending s)
    (hvisit : ∀ d : Detour, d.function ≠ 0 → visit d = range d.function) :
    Detached (goneBy range hit) env s s' := by
  have hremaining : ∀ f, s'.interceptsOf f =
      (s.interceptsOf f).filter fun p => !goneBy range hit f p := by
    intro f
    unfold State.interceptsOf
    rw [h.used]
    exact intercepts_sweepDetours hvisit _ _ f
  constructor
  case remaining => exact hremaining
  case lost =>
    intro f
    rw [hok.mem_lost, hremaining, List.filter_eq_nil_iff]
    simp
  case transactions =>
    rw [h.transactions, length_lostOf hvisit hok.unused]
    rfl
  case undetoured =>
    intro k f hlost
    unfold State.Detoured
    rw [h.used]
    exact undetoured_sweepDetours hvisit hok.unused hok.functions_nodup hlost

/-- Only what matches among the intercepts that there are counts. -/
theorem detached_congr
    (hsame : ∀ f, ∀ p ∈ s.interceptsOf f, gone f p = gone' f p) (h : Detached gone env s s') :
    Detached gone' env s s' := by
  have hlost : s.lost gone' = s.lost gone := by
    unfold State.lost lostOf
    congr 1
    apply List.filter_congr
    intro d hd
    unfold Detour.loses
    congr 1
    rw [Bool.eq_iff_iff, List.all_eq_true, List.all_eq_true]
    have hd' : ∀ p ∈ d.intercepts, gone d.function p = gone' d.function p := by
      intro p hp
      exact hsame _ p (mem_interceptsOf.2 ⟨d, hd, rfl, hp⟩)
    exact forall₂_congr fun p hp => by rw [hd' p hp]
  constructor
  case remaining =>
    intro f
    rw [h.remaining f]
    apply List.filter_congr
    intro p hp
    rw [hsame f p hp]
  case lost =>
    rw [hlost]
    exact h.lost
  case transactions =>
    rw [hlost]
    exact h.transactions
  case undetoured =>
    rw [hlost]
    exact h.undetoured

/-- The functions in a range of addresses. -/
def between (pAddr pEnd : ℕ) (f : Address) : Bool := pAddr ≤ f && f < pEnd

/-- What matches for `DdkDetachAddressRange`: a function in the range, and an intercept in the
module if one is given. -/
def matchesRange (pAddr len : ℕ) (module : Option (Address × Address)) :
    Address → Intercept → Bool :=
  goneBy (between pAddr (pAddr + len)) (inModule module)

/-- A range whose end has wrapped around is empty. -/
theorem between_wrapped {pAddr len : ℕ} (hlen : len < 2 ^ 64)
    (hwraps : 2 ^ 64 ≤ pAddr + len) (f : Address) :
    between pAddr ((pAddr + len) % 2 ^ 64) f = false := by
  have hend : (pAddr + len) % 2 ^ 64 < pAddr := by
    rw [Nat.mod_eq_sub_mod hwraps]
    exact Nat.lt_of_le_of_lt (Nat.mod_le _ _) (by omega)
  by_contra hbetween
  simp only [between, Bool.not_eq_false, Bool.and_eq_true, decide_eq_true_eq] at hbetween
  exact absurd (Nat.lt_of_lt_of_le hbetween.2 (Nat.le_of_lt hend)) (Nat.not_lt.2 hbetween.1)

/-- What `DdkDetachAddressRange` frees is in the range. -/
theorem between_of_mod {pAddr pEnd : ℕ} {f : Address}
    (h : between pAddr (pEnd % 2 ^ 64) f = true) : between pAddr pEnd f = true := by
  have hle := Nat.mod_le pEnd (2 ^ 64)
  simp only [between, Bool.and_eq_true, decide_eq_true_eq] at h ⊢
  exact ⟨h.1, Nat.lt_of_lt_of_le h.2 hle⟩

/-- The loops of `DdkDetachAddressRange`. -/
theorem SweptBy.detachedRange {pAddr pEnd : ℕ} {module : Option (Address × Address)}
    (h : SweptBy env (inRange pAddr pEnd) (inModule module) s s') (hok : StateOk pending s) :
    Detached (goneBy (between pAddr pEnd) (inModule module)) env s s' := by
  apply h.detached hok
  intro d hused
  simp [inRange, between, hused]

/-- The loops of `DdkDetachIntercept`. -/
theorem SweptBy.detachedAll (h : SweptBy env (fun _ => true) hit s s') (hok : StateOk pending s) :
    Detached (fun _ => hit) env s s' := by
  have hdetached : Detached (goneBy (fun _ => true) hit) env s s' := h.detached hok fun _ _ => rfl
  exact detached_congr (fun _ _ _ => rfl) hdetached

theorem detachIntercept_detached (hok : StateOk none s) (pId pThread : Address) :
    ∃ status s', ddkDetachIntercept env pId pThread s = .ok status s' ∧
      Detached (fun _ => matchesId pId pThread) env s s' := by
  rcases @ddkDetachIntercept_spec env s hok pId pThread with ⟨status, s', hrun, -, hswept⟩
  exact ⟨status, s', hrun, hswept.detachedAll hok⟩

theorem detachAddressRange_detached_iff (hok : StateOk none s) (pAddr len : UInt64)
    (module : Option (Address × Address)) (hlen : len ≠ 0) :
    ∃ status s', ddkDetachAddressRange env pAddr.toNat len.toNat module s = .ok status s' ∧
      (Detached (matchesRange pAddr.toNat len.toNat module) env s s' ↔
        pAddr.toNat + len.toNat < 2 ^ 64 ∨
        ∀ f, ∀ p ∈ s.interceptsOf f, matchesRange pAddr.toNat len.toNat module f p = false) := by
  rcases @ddkDetachAddressRange_spec env s hok pAddr.toNat len.toNat module with
    ⟨status, s', hrun, -, ⟨hzero, -⟩ | hswept⟩
  · exact absurd (UInt64.toNat_inj.1 hzero) hlen
  refine ⟨status, s', hrun, ?_⟩
  have hdetached := hswept.detachedRange hok
  constructor
  · intro hclaimed
    by_cases hfits : pAddr.toNat + len.toNat < 2 ^ 64
    · exact Or.inl hfits
    · -- the end has wrapped around, and nothing is freed
      right
      intro f p hp
      have hnone := between_wrapped len.toNat_lt (Nat.le_of_not_lt hfits) f
      have hsame := (hdetached.remaining f).symm.trans (hclaimed.remaining f)
      simp only [goneBy, hnone, Bool.false_and, Bool.not_false, List.filter_true] at hsame
      rw [hsame] at hp
      simpa using (List.mem_filter.1 hp).2
  · rintro (hfits | hnothing)
    · rw [Nat.mod_eq_of_lt hfits] at hdetached
      exact hdetached
    · refine detached_congr ?_ hdetached
      intro f p hp
      rw [hnothing f p hp]
      by_contra hgone
      simp only [goneBy, Bool.not_eq_false, Bool.and_eq_true] at hgone
      have hmatches : matchesRange pAddr.toNat len.toNat module f p = true := by
        simp only [matchesRange, goneBy, Bool.and_eq_true]
        exact ⟨between_of_mod hgone.1, hgone.2⟩
      rw [hnothing f p hp] at hmatches
      cases hmatches

end Detach

/-- **Detaching removes exactly what matches.** `DdkDetachIntercept` does so from every state that
is reached, and `DdkDetachAddressRange` exactly when the end of the range does not overflow, or
nothing in the range matches. -/
theorem detach_exact_iff {es : List (Call × Env)} {s : State} (h : Run es s) (env : Env) :
    (∀ pId pThread : Address, ∃ status s',
      ddkDetachIntercept env pId pThread s = .ok status s' ∧
      Detached (fun _ => matchesId pId pThread) env s s') ∧
    (∀ (pAddr len : UInt64) (module : Option (Address × Address)), len ≠ 0 → ∃ status s',
      ddkDetachAddressRange env pAddr.toNat len.toNat module s = .ok status s' ∧
      (Detached (matchesRange pAddr.toNat len.toNat module) env s s' ↔
        pAddr.toNat + len.toNat < 2 ^ 64 ∨
        ∀ f, ∀ p ∈ s.interceptsOf f, matchesRange pAddr.toNat len.toNat module f p = false)) := by
  have hok := run_ok h
  constructor
  · exact detachIntercept_detached hok
  · exact detachAddressRange_detached_iff hok

theorem detach_exact_attached : ∃ status s',
    ddkDetachIntercept attachEnv 1 0 attachedState = .ok status s' ∧
      Detached (fun _ => matchesId 1 0) attachEnv attachedState s' :=
  (detach_exact_iff run_attached attachEnv).1 1 0

/-- A range that goes up to the end of the address space: the function in it stays detoured. -/
theorem detachAddressRange_wraps : Run [(attachCall, attachEnv)] attachedState ∧
    ddkDetachAddressRange attachEnv 0x10000 0xFFFFFFFFFFFF0000 none attachedState =
      .ok .success attachedState ∧
    ¬ Detached (matchesRange 0x10000 0xFFFFFFFFFFFF0000 none) attachEnv attachedState
      attachedState := by
  refine ⟨run_attached, rfl, fun h => ?_⟩
  have hremaining := h.remaining 0x10000
  revert hremaining
  decide

end Wdutf.Detours
