import Wdutf.Detours.Sweep

/-!
# Wdutf.Detours.State — the invariant of the regions

* `StateOk` — the regions are right, and no function has two detours;
* `StateOk.findDetour_eq` — `DdkFindDetour` finds the detour of a function;
* `State.interceptsOf` — the intercepts of a function, the most recent first.
-/

namespace Wdutf.Detours

open Wdutf.Keyed Wdutf.Action

/-! ## The state -/

/-- A detour has a function. -/
def State.Uses (s : State) (pDetour : DetourPtr) (pFunction : Address) : Prop :=
  pFunction ≠ 0 ∧ ∃ r ∈ s.regionlist, r.address = pDetour.region ∧
    (r.detour pDetour.index).function = pFunction

/-- The invariant of the regions. One region may be pending: it is referenced, or about to be
freed. -/
structure StateOk (pending : Option Address) (s : State) : Prop where
  nodup : (s.regionlist.map Region.address).Nodup
  regions : ∀ r ∈ s.regionlist, RegionOk r
  settled : ∀ r ∈ s.regionlist, pending ≠ some r.address → r.refcount = 0 ∧ r.freecount < r.count
  unique : ∀ f pDetour pDetour', s.Uses pDetour f → s.Uses pDetour' f → pDetour = pDetour'
  freed : ∀ r ∈ s.freed, ∀ i, (r.detour i).function = 0

section State

variable {s : State} {b : Address} {r r' : Region} {n : ℕ} {pending : Option Address}

theorem StateOk.has (h : StateOk pending s) (hr : r ∈ s.regionlist) : s.Has r.address r :=
  ⟨h.nodup, hr, rfl⟩

theorem StateOk.pend (h : StateOk none s) (b : Address) : StateOk (some b) s :=
  { h with settled := fun r hr _ => h.settled r hr nofun }

/-- The pending region is settled. -/
theorem StateOk.settle (h : StateOk (some b) s) (hr : s.Has b r) (href : r.refcount = 0)
    (hcount : r.freecount < r.count) : StateOk none s := by
  refine { h with settled := ?_ }
  intro r' hr' _
  by_cases hb : b = r'.address
  · have heq := (h.has hr').lookup_eq
    rw [← hb, hr.lookup_eq] at heq
    cases heq
    exact ⟨href, hcount⟩
  · exact h.settled r' hr' (fun heq => hb (Option.some.inj heq))

/-- The detours in use after a write. -/
theorem uses_write (hr : s.Has b r) (haddress : r'.address = r.address) {pDetour : DetourPtr}
    {f : Address}
    (h : (s.write r' n).Uses pDetour f) :
    (pDetour.region = b ∧ f ≠ 0 ∧ (r'.detour pDetour.index).function = f) ∨
      (pDetour.region ≠ b ∧ s.Uses pDetour f) := by
  rcases h with ⟨hf, r'', hmem, hregion, hfunction⟩
  rcases mem_store hmem with rfl | ⟨hmem, hne⟩
  · left
    exact ⟨hregion.symm.trans (haddress.trans hr.address), hf, hfunction⟩
  · right
    refine ⟨?_, hf, r'', hmem, hregion, hfunction⟩
    rw [haddress, hr.address] at hne
    rw [← hregion]
    exact hne

/-- A region is written; where the functions are does not change hands. -/
theorem StateOk.write (h : StateOk (some b) s) (hr : s.Has b r) (hok : RegionOk r')
    (haddress : r'.address = r.address)
    (hunique : ∀ f pDetour pDetour',
      (s.write r' n).Uses pDetour f → (s.write r' n).Uses pDetour' f →
      pDetour = pDetour') : StateOk (some b) (s.write r' n) where
  nodup := (hr.write r' haddress n).nodup
  regions r'' hr'' := by
    rcases mem_store hr'' with rfl | ⟨hmem, -⟩
    · exact hok
    · exact h.regions r'' hmem
  settled r'' hr'' hne := by
    rcases mem_store hr'' with rfl | ⟨hmem, -⟩
    · rw [haddress, hr.address] at hne
      exact absurd rfl hne
    · exact h.settled r'' hmem hne
  unique := hunique
  freed := h.freed

/-- A region is swept. -/
theorem StateOk.write_swept (h : StateOk (some b) s) (hr : s.Has b r) (hok : RegionOk r')
    (haddress : r'.address = r.address)
    (hfunctions : ∀ i, (r'.detour i).function ≠ 0 →
      (r'.detour i).function = (r.detour i).function) :
    StateOk (some b) (s.write r' n) := by
  refine h.write hr hok haddress ?_
  -- a detour in use was in use before
  have hbefore : ∀ f pDetour, (s.write r' n).Uses pDetour f → s.Uses pDetour f := by
    intro f pDetour huses
    rcases uses_write hr haddress huses with ⟨hregion, hf, hfunction⟩ | ⟨-, hold⟩
    · refine ⟨hf, r, hr.mem, hr.address.trans hregion.symm, ?_⟩
      rw [← hfunctions _ (by rw [hfunction]; exact hf)]
      exact hfunction
    · exact hold
  exact fun f pDetour pDetour' huses huses' =>
    h.unique f _ _ (hbefore f _ huses) (hbefore f _ huses')

/-- A function that has no detour gets one. -/
theorem StateOk.write_taken (h : StateOk (some b) s) (hr : s.Has b r) (hok : RegionOk r')
    (haddress : r'.address = r.address) {i : ℕ} {f : Address}
    (hnone : ∀ pDetour, ¬ s.Uses pDetour f)
    (hself : (r'.detour i).function = f)
    (hothers : ∀ j, j ≠ i → (r'.detour j).function = (r.detour j).function) :
    StateOk (some b) (s.write r' n) := by
  refine h.write hr hok haddress ?_
  have hbefore : ∀ f' pDetour, (s.write r' n).Uses pDetour f' →
      s.Uses pDetour f' ∨ (pDetour = ⟨b, i⟩ ∧ f' = f) := by
    intro f' pDetour huses
    rcases uses_write hr haddress huses with ⟨hregion, hf, hfunction⟩ | ⟨-, hold⟩
    · by_cases hi : pDetour.index = i
      · right
        rw [hi, hself] at hfunction
        refine ⟨?_, hfunction.symm⟩
        rw [← hregion, ← hi]
      · left
        rw [hothers _ hi] at hfunction
        exact ⟨hf, r, hr.mem, hr.address.trans hregion.symm, hfunction⟩
    · exact Or.inl hold
  intro f' pDetour pDetour' huses huses'
  rcases hbefore f' _ huses with hold | ⟨rfl, rfl⟩
  · rcases hbefore f' _ huses' with hold' | ⟨-, rfl⟩
    · exact h.unique f' _ _ hold hold'
    · exact absurd hold (hnone _)
  · rcases hbefore f' _ huses' with hold' | ⟨rfl, -⟩
    · exact absurd hold' (hnone _)
    · rfl

/-- A pending region without used detours is freed. -/
theorem StateOk.release (h : StateOk (some b) s) (hr : s.Has b r) (hfree : r.freecount = r.count) :
    StateOk none (s.release b r) := by
  have hmem : ∀ r' ∈ (s.release b r).regionlist, r' ∈ s.regionlist := fun _ hr' => mem_unlink hr'
  constructor
  case nodup => exact nodup_unlink h.nodup
  case regions => exact fun r' hr' => h.regions r' (hmem r' hr')
  case settled =>
    intro r' hr' _
    refine h.settled r' (hmem r' hr') ?_
    have hne := key_ne_of_mem_unlink h.nodup hr.lookup_eq hr'
    exact fun heq => hne (Option.some.inj heq).symm
  case unique =>
    intro f pDetour pDetour' huses huses'
    rcases huses with ⟨hf, r₁, hr₁, hrest⟩
    rcases huses' with ⟨-, r₂, hr₂, hrest'⟩
    exact h.unique f _ _ ⟨hf, r₁, hmem r₁ hr₁, hrest⟩ ⟨hf, r₂, hmem r₂ hr₂, hrest'⟩
  case freed =>
    intro r' hr' i
    rcases List.mem_cons.1 hr' with rfl | hr'
    · exact (h.regions r' hr.mem).counted.all_free hfree i
    · exact h.freed r' hr' i

/-- `DdkFreeRegion` on the pending region, when it has no references: it stays, or it goes. -/
theorem ddkFreeRegion_spec (h : StateOk (some b) s) (hr : s.Has b r) (href : r.refcount = 0) :
    ∃ s', ddkFreeRegion b s = .ok () s' ∧ StateOk none s' ∧
      (s' = s ∨ s' = s.release b r ∧ r.freecount = r.count) := by
  by_cases hfree : r.freecount = r.count
  · exact ⟨_, ddkFreeRegion_freed hr href hfree, h.release hr hfree, Or.inr ⟨rfl, hfree⟩⟩
  · have hle := (h.regions r hr.mem).counted.freecount
    exact ⟨s, ddkFreeRegion_kept hr (Or.inr hfree), h.settle hr href (by omega), Or.inl rfl⟩

end State

/-! ## The detours in use -/

/-- The detours with a function. -/
def usedOf (ds : List Detour) : List Detour := ds.filter fun d => d.function ≠ 0

theorem usedOf_append (ds ds' : List Detour) : usedOf (ds ++ ds') = usedOf ds ++ usedOf ds' :=
  List.filter_append ..

theorem usedOf_cons (d : Detour) (ds : List Detour) : usedOf (d :: ds) = usedOf [d] ++ usedOf ds :=
  usedOf_append [d] ds

/-- The detours in use, in the order of the regions. -/
def State.usedDetours (s : State) : List Detour := usedOf (s.regionlist.flatMap Region.detours)

theorem Counted.usedOf_eq_nil {r : Region} (h : Counted r) (hfree : r.freecount = r.count) :
    usedOf r.detours = [] := by
  apply List.filter_eq_nil_iff.2
  intro d hd
  rcases List.getElem_of_mem hd with ⟨i, hi, rfl⟩
  have hzero := h.all_free hfree i
  rw [detour_eq_getElem hi] at hzero
  simpa using hzero

/-! ## Finding a detour -/

section Find

variable {s : State} {pending : Option Address} {f : Address} {pDetour : DetourPtr}

/-- What `DdkFindDetour` returns. -/
def State.findDetour (s : State) (pFunction : Address) : Option DetourPtr :=
  s.regionlist.findSome? fun r =>
    if ddkIsRegionWithinJumpBounds r pFunction 0 then
      ((List.range r.hwm).find? fun i => (r.detour i).function = pFunction).map (⟨r.address, ·⟩)
    else none

theorem ddkFindDetour_run (s : State) (f : Address) :
    ddkFindDetour f s = .ok (s.findDetour f) s := rfl

/-- A detour that is found has the function. -/
theorem uses_of_findDetour (hf : f ≠ 0) (h : s.findDetour f = some pDetour) : s.Uses pDetour f := by
  rcases List.exists_of_findSome?_eq_some h with ⟨r, hr, hfind⟩
  split at hfind
  · rcases Option.map_eq_some_iff.1 hfind with ⟨i, hi, rfl⟩
    exact ⟨hf, r, hr, rfl, by simpa using List.find?_some hi⟩
  · cases hfind

/-- A used detour is found, because it is near enough and below the mark. -/
theorem StateOk.findDetour_eq (h : StateOk pending s) (huses : s.Uses pDetour f) :
    s.findDetour f = some pDetour := by
  cases hfind : s.findDetour f with
  | some pDetour' => rw [h.unique f _ _ huses (uses_of_findDetour huses.1 hfind)]
  | none =>
    rcases huses with ⟨hf, r, hr, hregion, hfunction⟩
    have hused : (r.detour pDetour.index).function ≠ 0 := by
      rw [hfunction]
      exact hf
    have hbounds := ((h.regions r hr).slots pDetour.index).bounds hused
    have hhwm := (h.regions r hr).counted.hwm pDetour.index hused
    rw [hfunction] at hbounds
    have hnone := List.findSome?_eq_none_iff.1 hfind r hr
    rw [if_pos hbounds, Option.map_eq_none_iff, List.find?_eq_none] at hnone
    exact absurd (by simpa using hfunction) (hnone pDetour.index (List.mem_range.2 hhwm))

end Find

/-! ## The intercepts of a function -/

/-- The intercepts of a function, on a list of detours. -/
def interceptsIn (f : Address) (ds : List Detour) : List Intercept :=
  ds.flatMap fun d => if d.function = f then d.intercepts else []

/-- The intercepts of a function. -/
def State.interceptsOf (s : State) (f : Address) : List Intercept := interceptsIn f s.usedDetours

/-- What an intercept was attached with. -/
structure Attachment where
  intercept : Address
  identity : Address
  ofInstance : Address
  thread : Address
deriving DecidableEq

def Intercept.attachment (p : Intercept) : Attachment :=
  ⟨p.intercept, p.identity, p.ofInstance, p.thread⟩

theorem interceptsIn_append (f : Address) (ds ds' : List Detour) :
    interceptsIn f (ds ++ ds') = interceptsIn f ds ++ interceptsIn f ds' := List.flatMap_append

/-- A detour that is not in use has no intercepts. -/
theorem interceptsIn_unused {d : Detour} (h : d.function = 0) (f : Address) :
    interceptsIn f (usedOf [d]) = [] := by
  unfold usedOf
  rw [List.filter_cons_of_neg (by simpa using h)]
  rfl

theorem interceptsIn_used {d : Detour} (h : d.function ≠ 0) (f : Address) :
    interceptsIn f (usedOf [d]) = if d.function = f then d.intercepts else [] := by
  unfold usedOf interceptsIn
  rw [List.filter_cons_of_pos (by simpa using h), List.filter_nil, List.flatMap_singleton]

section Unique

variable {s : State} {pending : Option Address}

/-- The detours of a region, with their places. -/
theorem uses_of_getElem {r : Region} {i : ℕ} (hr : r ∈ s.regionlist) (hi : i < r.detours.length)
    (hused : r.detours[i].function ≠ 0) : s.Uses ⟨r.address, i⟩ r.detours[i].function := by
  refine ⟨hused, r, hr, rfl, ?_⟩
  rw [detour_eq_getElem hi]

/-- No two detours in use have the same function. -/
theorem StateOk.functions_nodup (h : StateOk pending s) :
    (s.usedDetours.map Detour.function).Nodup := by
  unfold State.usedDetours usedOf
  rw [List.Nodup, List.pairwise_map, List.pairwise_filter, List.pairwise_flatMap]
  constructor
  · -- two detours of one region
    intro r hr
    rw [List.pairwise_iff_getElem]
    intro i j hi hj hij hi' hj' heq
    have hui := uses_of_getElem hr hi (by simpa using hi')
    have huj := uses_of_getElem hr hj (by simpa using hj')
    rw [← heq] at huj
    have hsame := h.unique _ _ _ hui huj
    simp only [DetourPtr.mk.injEq, true_and] at hsame
    omega
  · -- detours of two regions
    have hregions := h.nodup
    rw [List.Nodup, List.pairwise_map] at hregions
    refine (List.pairwise_iff_forall_sublist.2 ?_ : s.regionlist.Pairwise _)
    intro r r' hsub d hd d' hd' hused hused' heq
    have hne := List.pairwise_iff_forall_sublist.1 hregions hsub
    have hr : r ∈ s.regionlist := hsub.subset (by simp)
    have hr' : r' ∈ s.regionlist := hsub.subset (by simp)
    rcases List.getElem_of_mem hd with ⟨i, hi, rfl⟩
    rcases List.getElem_of_mem hd' with ⟨j, hj, rfl⟩
    have hui := uses_of_getElem hr hi (by simpa using hused)
    have huj := uses_of_getElem hr' hj (by simpa using hused')
    rw [← heq] at huj
    have hsame := h.unique _ _ _ hui huj
    simp only [DetourPtr.mk.injEq] at hsame
    exact hne hsame.1

/-- The intercepts of a function, on a list of detours with different functions. -/
theorem interceptsIn_eq {ds : List Detour} (h : (ds.map Detour.function).Nodup) {d : Detour}
    (hd : d ∈ ds) : interceptsIn d.function ds = d.intercepts := by
  unfold interceptsIn
  induction ds with
  | nil => cases hd
  | cons e ds ih =>
    rw [List.map_cons, List.nodup_cons] at h
    rw [List.flatMap_cons]
    rcases List.mem_cons.1 hd with rfl | hd
    · have hrest : (ds.flatMap fun e => if e.function = d.function then e.intercepts else []) =
          [] := by
        rw [List.flatMap_eq_nil_iff]
        intro e he
        rw [if_neg]
        intro heq
        exact h.1 (heq ▸ List.mem_map_of_mem he)
      rw [if_pos rfl, hrest, List.append_nil]
    · rw [if_neg, List.nil_append, ih h.2 hd]
      intro heq
      exact h.1 (heq ▸ List.mem_map_of_mem hd)

theorem StateOk.interceptsOf_eq (h : StateOk pending s) {d : Detour} (hd : d ∈ s.usedDetours) :
    s.interceptsOf d.function = d.intercepts :=
  interceptsIn_eq h.functions_nodup hd

/-- The intercepts of a function are on the list of its detour. -/
theorem StateOk.interceptsOf_has (h : StateOk pending s) {b : Address} {r : Region} {i : ℕ}
    (hr : s.Has b r) (hused : (r.detour i).function ≠ 0) :
    s.interceptsOf (r.detour i).function = (r.detour i).intercepts := by
  apply h.interceptsOf_eq
  exact List.mem_filter.2
    ⟨List.mem_flatMap.2 ⟨r, hr.mem, mem_of_used hused⟩, by simpa using hused⟩

theorem mem_interceptsOf {f : Address} {p : Intercept} :
    p ∈ s.interceptsOf f ↔ ∃ d ∈ s.usedDetours, d.function = f ∧ p ∈ d.intercepts := by
  unfold State.interceptsOf interceptsIn
  rw [List.mem_flatMap]
  constructor
  · rintro ⟨d, hd, hp⟩
    split at hp
    · rename_i hf
      exact ⟨d, hd, hf, hp⟩
    · cases hp
  · rintro ⟨d, hd, hf, hp⟩
    refine ⟨d, hd, ?_⟩
    rw [if_pos hf]
    exact hp

end Unique

/-! ### Writes -/

section Writes

variable {s : State} {b : Address} {r r' : Region} {i n : ℕ} {f : Address}

/-- A region is written that has the same intercepts of the function. -/
theorem interceptsOf_write (hr : s.Has b r) (haddress : r'.address = r.address)
    (hsame : interceptsIn f (usedOf r'.detours) = interceptsIn f (usedOf r.detours)) :
    (s.write r' n).interceptsOf f = s.interceptsOf f := by
  rcases exists_middle hr.lookup_eq with ⟨before, after, hlist, -⟩
  have hnodup := hr.nodup
  rw [hlist] at hnodup
  unfold State.interceptsOf State.usedDetours State.write
  rw [hlist, store_middle hnodup haddress]
  simp only [List.flatMap_append, List.flatMap_cons, usedOf_append, interceptsIn_append, hsame]

/-- One detour is written. -/
theorem interceptsIn_set {ds : List Detour} {d : Detour} (hi : i < ds.length)
    (hsame : interceptsIn f (usedOf [d]) = interceptsIn f (usedOf [ds[i]])) :
    interceptsIn f (usedOf (ds.set i d)) = interceptsIn f (usedOf ds) := by
  have hsplit : ds = ds.take i ++ ([ds[i]] ++ ds.drop (i + 1)) := by
    rw [List.singleton_append, ← List.drop_eq_getElem_cons hi, List.take_append_drop]
  have hset : ds.set i d = ds.take i ++ ([d] ++ ds.drop (i + 1)) := by
    rw [List.set_eq_take_append_cons_drop, if_pos hi]
    rfl
  rw [hset]
  conv_rhs => rw [hsplit]
  simp only [usedOf_append, interceptsIn_append, hsame]

/-- A region without used detours is given back. -/
theorem interceptsOf_release (hr : s.Has b r) (hok : Counted r) (hfree : r.freecount = r.count) :
    (s.release b r).interceptsOf f = s.interceptsOf f := by
  rcases exists_middle hr.lookup_eq with ⟨before, after, hlist, -⟩
  have hnodup := hr.nodup
  rw [hlist] at hnodup
  have hnone := hok.usedOf_eq_nil hfree
  unfold State.interceptsOf State.usedDetours State.release
  rw [hlist, ← hr.address, unlink_middle hnodup]
  simp only [List.flatMap_append, List.flatMap_cons, usedOf_append, interceptsIn_append, hnone]
  rfl

/-- A new region has no intercepts. -/
theorem interceptsOf_newRegion {size : ℕ} :
    State.interceptsOf { s with regionlist := newRegion b size :: s.regionlist } f =
      s.interceptsOf f := by
  have hnone : usedOf (newRegion b size).detours = [] := by
    apply List.filter_eq_nil_iff.2
    intro d hd
    rw [List.eq_of_mem_replicate hd]
    decide
  unfold State.interceptsOf State.usedDetours
  rw [List.flatMap_cons, usedOf_append, hnone, List.nil_append]

end Writes

end Wdutf.Detours
