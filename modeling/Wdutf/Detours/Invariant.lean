import Wdutf.Detours.State

/-!
# Wdutf.Detours.Invariant — the regions between the calls

* `detours_invariant` — after every run of `DdkAttachIntercept`, `DdkDetachIntercept` and
  `DdkDetachAddressRange`, with transactions that succeed or fail in any way, the counts of the
  regions and their detours are right, a function has one detour and `DdkFindDetour` finds it, no
  region was freed with a used detour, and the next call returns.
-/

namespace Wdutf.Detours

open Wdutf.Keyed Wdutf.Action Wdutf.Loop Wdutf.Transition

/-! ## Detaching -/

section Detach

variable {env : Env} {s : State} {visit : Detour → Bool} {hit : Intercept → Bool}

/-- One turn of the loop over the regions. The next region is read before the region can be
freed. -/
theorem regionTurn_spec (h : StateOk none s) {r : Region} {before after : List Region}
    (hlist : s.regionlist = before ++ r :: after) (status : Status) :
    ∃ status' s' before',
      regionTurn env visit hit (some r.address, status) s =
        .ok (some (after.head?.map Region.address, status')) s' ∧
      StateOk none s' ∧ s'.regionlist = before' ++ after ∧
      usedOf (before'.flatMap Region.detours) = usedOf (before.flatMap Region.detours) ++
        usedOf (sweepDetours env visit hit s.transactions r.detours) ∧
      s'.transactions = s.transactions + sweepLosses visit hit r.detours := by
  have hr : s.Has r.address r := ⟨h.nodup, by simp [hlist], rfl⟩
  have hok := h.regions r hr.mem
  have href := (h.settled r hr.mem nofun).1
  have hr₁ := hr.write { r with refcount := r.refcount + 1 } rfl s.transactions
  obtain ⟨x, r₂, n, hloop, hswept, hdetours, hn⟩ := detourLoop_spec env visit hit hr₁
    (Nat.succ_ne_zero _) (hok.withRefcount _) status
  replace hdetours : r₂.detours = sweepDetours env visit hit s.transactions r.detours := hdetours
  rw [State.write_write hswept.address] at hloop
  have hr₂ := hr.write r₂ hswept.address n
  have hnodup := h.nodup
  rw [hlist] at hnodup
  have hwritten : ∀ r' : Region, r'.address = r.address →
      (s.write r' n).regionlist = before ++ r' :: after := by
    intro r' haddress
    show store Region.address s.regionlist r' = _
    rw [hlist, store_middle hnodup haddress]
  have hnodup' : ((before ++ r₂ :: after).map Region.address).Nodup := by
    rw [← hwritten r₂ hswept.address]
    exact hr₂.nodup
  have hnext : next Region.address (s.write r₂ n).regionlist r.address = after.head? := by
    have haddress : r₂.address = r.address := hswept.address
    rw [hwritten r₂ haddress, ← haddress, next_middle hnodup']
  -- without the reference, the region stays or is freed
  have hok₃ := hswept.ok.withRefcount (r₂.refcount - 1)
  have hr₃ := hr.write { r₂ with refcount := r₂.refcount - 1 } hswept.address n
  have hstate := (h.pend r.address).write_swept (n := n) hr hok₃ hswept.address hswept.functions
  obtain ⟨s', hfree, hok', hs'⟩ := ddkFreeRegion_spec hstate hr₃ (by
    show r₂.refcount - 1 = 0
    rw [hswept.refcount]
    exact href)
  have hrun : regionTurn env visit hit (some r.address, status) s =
      .ok (some (after.head?.map Region.address, x.2)) s' := by
    rw [regionTurn, bind_ok (ddkAddReference_ok hr), bind_ok (getRegion_ok hr₁), bind_ok hloop]
    dsimp only
    rw [bind_ok (getRegion_ok hr₂), get_bind, hnext]
    have hdelete := ddkDeleteReference_eq hr₂
    rw [State.write_write (by rfl)] at hdelete
    rw [bind_ok (hdelete.trans hfree), pure_run]
  have hlist₃ := hwritten { r₂ with refcount := r₂.refcount - 1 } hswept.address
  rcases hs' with rfl | ⟨rfl, hall⟩
  · refine ⟨x.2, _, before ++ [{ r₂ with refcount := r₂.refcount - 1 }], hrun, hok', ?_, ?_, hn⟩
    · rw [hlist₃, List.append_assoc, List.singleton_append]
    · rw [List.flatMap_append, List.flatMap_singleton, usedOf_append, hdetours]
  · refine ⟨x.2, _, before, hrun, hok', ?_, ?_, hn⟩
    · show unlink Region.address (s.write { r₂ with refcount := r₂.refcount - 1 } n).regionlist
        r.address = _
      have hnodup₃ := hr₃.nodup
      rw [hlist₃] at hnodup₃ ⊢
      exact (congrArg (unlink Region.address _) hswept.address.symm).trans
        (unlink_middle hnodup₃)
    · -- a region that is freed has no detour in use
      have hnone : usedOf r₂.detours = [] := hok₃.counted.usedOf_eq_nil hall
      rw [← hdetours, hnone, List.append_nil]

/-- What the loop over the regions has done, when it has `k` regions ahead of it. -/
def RegionsVisited (env : Env) (visit : Detour → Bool) (hit : Intercept → Bool) (s : State)
    (k : ℕ) (x : Option Address × Status) (s' : State) : Prop :=
  StateOk none s' ∧ ∃ gone before after, s.regionlist = gone ++ after ∧
    s'.regionlist = before ++ after ∧ x.1 = after.head?.map Region.address ∧ after.length = k ∧
    usedOf (before.flatMap Region.detours) =
      usedOf (sweepDetours env visit hit s.transactions (gone.flatMap Region.detours)) ∧
    s'.transactions = s.transactions + sweepLosses visit hit (gone.flatMap Region.detours)

/-- What the loops leave of the detours in use. -/
structure SweptBy (env : Env) (visit : Detour → Bool) (hit : Intercept → Bool) (s s' : State) :
    Prop where
  used : s'.usedDetours =
    usedOf (sweepDetours env visit hit s.transactions (s.regionlist.flatMap Region.detours))
  transactions : s'.transactions =
    s.transactions + sweepLosses visit hit (s.regionlist.flatMap Region.detours)

/-- The loop over the regions. -/
theorem detachEntries_spec (h : StateOk none s) :
    ∃ status s', detachEntries env visit hit s = .ok status s' ∧ StateOk none s' ∧
      SweptBy env visit hit s s' := by
  have hturn : ∀ k x s', RegionsVisited env visit hit s k x s' →
      (regionTurn env visit hit x s' = .ok none s' ∧ RegionsVisited env visit hit s 0 x s') ∨
      ∃ x' s'' m, regionTurn env visit hit x s' = .ok (some x') s'' ∧ m < k ∧
        RegionsVisited env visit hit s m x' s'' := by
    rintro k ⟨p, status⟩ s' ⟨hok, gone, before, after, hall, hlist, hp, rfl, hused, hcount⟩
    cases after with
    | nil =>
      refine Or.inl ⟨?_, hok, gone, before, [], hall, hlist, hp, rfl, hused, hcount⟩
      have hp : p = none := hp
      rw [hp]
      rfl
    | cons r after =>
      have hp : p = some r.address := hp
      obtain ⟨status', s'', before', hrun, hok', hlist', hused', hcount'⟩ :=
        regionTurn_spec hok hlist status
      rw [hp]
      refine Or.inr ⟨_, s'', after.length, hrun, Nat.lt_succ_self _, hok', gone ++ [r], before',
        after, by rw [hall, List.append_assoc]; rfl, hlist', rfl, rfl, ?_, ?_⟩
      · rw [hused', hused, hcount, List.flatMap_append, List.flatMap_singleton,
          sweepDetours_append, usedOf_append]
      · rw [hcount', hcount, List.flatMap_append, List.flatMap_singleton, sweepLosses_append,
          Nat.add_assoc]
  have hstart : RegionsVisited env visit hit s s.regionlist.length
      (s.regionlist.head?.map Region.address, .success) s :=
    ⟨h, [], [], s.regionlist, rfl, rfl, rfl, rfl, rfl, rfl⟩
  rcases loop_total hturn hstart (Nat.lt_succ_self _) with
    ⟨⟨p, status⟩, s', hrun, hok, gone, before, after, hall, hlist, -, hafter, hused, hcount⟩
  rw [List.length_eq_zero_iff] at hafter
  subst hafter
  rw [List.append_nil] at hall hlist
  refine ⟨status, s', ?_, hok, ?_, ?_⟩
  · rw [detachEntries, get_bind, bind_ok hrun]
    rfl
  · unfold State.usedDetours
    rw [hlist, hused, hall]
  · rw [hcount, hall]

/-- Nothing is left to do without regions. -/
theorem sweptBy_of_isEmpty (hempty : s.regionlist.isEmpty = true) : SweptBy env visit hit s s := by
  rw [List.isEmpty_iff] at hempty
  constructor
  · unfold State.usedDetours
    rw [hempty]
    rfl
  · rw [hempty]
    rfl

/-- The entries that `DdkDetachIntercept` frees. -/
def matchesId (pId pThread : Address) (p : Intercept) : Bool :=
  (pThread = 0 || p.thread = pThread) && (pId = 0 || p.identity = pId || p.ofInstance = pId)

theorem ddkDetachIntercept_spec (h : StateOk none s) (pId pThread : Address) :
    ∃ status s', ddkDetachIntercept env pId pThread s = .ok status s' ∧ StateOk none s' ∧
      SweptBy env (fun _ => true) (matchesId pId pThread) s s' := by
  rw [ddkDetachIntercept, get_bind]
  split
  · rename_i hempty
    exact ⟨.success, s, rfl, h, sweptBy_of_isEmpty hempty⟩
  · exact detachEntries_spec h

/-- The detours that `DdkDetachAddressRange` visits. -/
def inRange (pAddr pEnd : ℕ) (d : Detour) : Bool :=
  d.function ≠ 0 && pAddr ≤ d.function && d.function < pEnd

/-- The entries that it frees there. -/
def inModule (module : Option (Address × Address)) (p : Intercept) : Bool :=
  match module with
  | none => true
  | some (pModuleAddr, pModuleEnd) => pModuleAddr ≤ p.intercept && p.intercept < pModuleEnd

theorem ddkDetachAddressRange_spec (h : StateOk none s) (pAddr len : ℕ)
    (module : Option (Address × Address)) :
    ∃ status s', ddkDetachAddressRange env pAddr len module s = .ok status s' ∧
      StateOk none s' ∧ (len = 0 ∧ s' = s ∨
        SweptBy env (inRange pAddr ((pAddr + len) % 2 ^ 64)) (inModule module) s s') := by
  rw [ddkDetachAddressRange, get_bind]
  split
  · rename_i hnothing
    rw [Bool.or_eq_true, decide_eq_true_eq] at hnothing
    refine ⟨.success, s, rfl, h, ?_⟩
    rcases hnothing with hempty | hzero
    · exact Or.inr (sweptBy_of_isEmpty hempty)
    · exact Or.inl ⟨hzero, rfl⟩
  · rcases @detachEntries_spec env s _ _ h with ⟨status, s', hrun, hok, hswept⟩
    exact ⟨status, s', hrun, hok, Or.inr hswept⟩

end Detach

/-! ## Attaching -/

section Attach

variable {env : Env} {s : State} {b : Address} {r : Region} {f : Address}

/-- The test with slack is the stronger one. -/
theorem withinJumpBounds_slack {pRegion size pFunction slack : ℕ}
    (h : withinJumpBounds pRegion size pFunction slack = true) :
    withinJumpBounds pRegion size pFunction 0 = true := by
  simp only [withinJumpBounds, Bool.or_eq_true, Bool.and_eq_true, decide_eq_true_eq] at h ⊢
  omega

/-- The region for a new detour: it is near the function, and has a free detour. -/
structure Offered (s : State) (b : Address) (r : Region) (f : Address) : Prop where
  ok : StateOk (some b) s
  has : s.Has b r
  refcount : r.refcount = 0
  free : r.freecount ≠ 0
  bounds : ddkIsRegionWithinJumpBounds r f 0 = true
  unused : ∀ pDetour, ¬ s.Uses pDetour f

/-- A new region has no functions. -/
theorem uses_newRegion {size : ℕ} {pDetour : DetourPtr}
    (h : State.Uses { s with regionlist := newRegion b size :: s.regionlist } pDetour f) :
    s.Uses pDetour f := by
  rcases h with ⟨hf, r, hr, hregion, hfunction⟩
  rcases List.mem_cons.1 hr with rfl | hr
  · rw [newRegion_detour] at hfunction
    exact absurd hfunction.symm hf
  · exact ⟨hf, r, hr, hregion, hfunction⟩

theorem stateOk_newRegion (h : StateOk none s) (size : ℕ)
    (hfresh : ∀ r ∈ s.regionlist, r.address ≠ b) :
    StateOk (some b) { s with regionlist := newRegion b size :: s.regionlist } where
  nodup := by
    rw [List.map_cons, List.nodup_cons]
    refine ⟨?_, h.nodup⟩
    intro hmem
    rcases List.mem_map.1 hmem with ⟨r, hr, hb⟩
    exact hfresh r hr hb
  regions r hr := by
    rcases List.mem_cons.1 hr with rfl | hr
    · exact regionOk_new b size
    · exact h.regions r hr
  settled r hr hne := by
    rcases List.mem_cons.1 hr with rfl | hr
    · exact absurd rfl hne
    · exact h.settled r hr nofun
  unique f _ _ huses huses' := h.unique f _ _ (uses_newRegion huses) (uses_newRegion huses')
  freed := h.freed

/-- The first region on the list that will do, or a new one. -/
theorem regionFor_spec (h : StateOk none s) (hunused : ∀ pDetour, ¬ s.Uses pDetour f)
    (hfresh : ∀ pRegion size, env.region = some (pRegion, size) →
      ∀ r ∈ s.regionlist, r.address ≠ pRegion)
    (hbounds : ∀ pRegion size, env.region = some (pRegion, size) →
      withinJumpBounds pRegion size f 0 = true) :
    (∃ status, status ≠ .success ∧ regionFor env f s = .ok (.error status) s) ∨
    ∃ b r s', regionFor env f s = .ok (.ok b) s' ∧ Offered s' b r f ∧
      ∀ g, s'.interceptsOf g = s.interceptsOf g := by
  rw [regionFor, get_bind]
  cases hfind : s.regionlist.find? fun r =>
      r.freecount ≠ 0 && ddkIsRegionWithinJumpBounds r f 0x100 with
  | some r =>
    have hr := List.mem_of_find?_eq_some hfind
    have htest := List.find?_some hfind
    simp only [Bool.and_eq_true, decide_eq_true_eq] at htest
    exact Or.inr ⟨r.address, r, s, rfl, ⟨h.pend _, h.has hr, (h.settled r hr nofun).1, htest.1,
      withinJumpBounds_slack htest.2, hunused⟩, fun _ => rfl⟩
  | none =>
    dsimp only
    rw [ddkAllocateRegion]
    cases hregion : env.region with
    | none => exact Or.inl ⟨.insufficientResources, nofun, rfl⟩
    | some new =>
      rcases new with ⟨b, size⟩
      dsimp only
      by_cases hsize : size < sizeofRegion
      · rw [if_pos hsize]
        exact Or.inl ⟨.insufficientResources, nofun, rfl⟩
      · rw [if_neg hsize]
        have hok := stateOk_newRegion h size (hfresh b size hregion)
        exact Or.inr ⟨b, newRegion b size, _, rfl, ⟨hok, hok.has List.mem_cons_self, rfl,
          Nat.succ_ne_zero _, hbounds b size hregion,
          fun _ huses => hunused _ (uses_newRegion huses)⟩, fun _ => interceptsOf_newRegion⟩

/-- A detour that was attached to the function. -/
theorem slotOk_attached {i : ℕ} {t : Address} (hf : f ≠ 0) (ht : t ≠ 0)
    (hbounds : ddkIsRegionWithinJumpBounds r f 0 = true) : SlotOk r i ⟨f, t, []⟩ :=
  ⟨fun hzero => absurd hzero hf, fun _ => ht, fun _ => hbounds, nofun, List.nodup_nil⟩

/-- The region with the attached detour. -/
theorem regionOk_attached {i : ℕ} {t : Address} (hok : RegionOk r) (hi : i < r.count)
    (hfree : (r.detour i).function = 0) (hf : f ≠ 0) (ht : t ≠ 0)
    (hbounds : ddkIsRegionWithinJumpBounds r f 0 = true) :
    RegionOk ((r.taken i f).setDetour i ⟨f, t, []⟩) := by
  have hlength : i < r.detours.length := by
    rw [hok.counted.length]
    exact hi
  constructor
  case counted =>
    apply (hok.counted.taken hi hfree hf).setDetour
    rw [detour_taken_self hlength]
  case slots =>
    intro j
    refine (slots_setDetour (r := r.taken i f) ?_ ((slotOk_attached hf ht hbounds).congr rfl rfl)
      j).congr
      rfl rfl
    intro k hk
    rw [detour_taken_ne hk]
    exact (hok.slots k).congr rfl rfl

/-- The function has its detour. -/
theorem Offered.attached (ho : Offered s b r f) {i n : ℕ} {t : Address} (hi : i < r.count)
    (hfree : (r.detour i).function = 0) (hf : f ≠ 0) (ht : t ≠ 0) :
    StateOk none (s.write ((r.taken i f).setDetour i ⟨f, t, []⟩) n) := by
  have hok := ho.ok.regions r ho.has.mem
  have hlength : i < (r.taken i f).detours.length := by
    rw [(hok.counted.taken hi hfree hf).length]
    exact hi
  have hstate := ho.ok.write_taken (n := n) ho.has
    (regionOk_attached hok hi hfree hf ht ho.bounds) rfl
    (i := i) ho.unused (by rw [detour_setDetour_self hlength])
    (fun j hj => by rw [detour_setDetour_ne hj, detour_taken_ne hj])
  refine hstate.settle (ho.has.write _ (by rfl) n) ho.refcount ?_
  have hcount := hok.counted.freecount
  show r.freecount - 1 < r.count
  omega

/-- The function could not be detoured, and the detour is given up again. -/
theorem Offered.abandoned (ho : Offered s b r f) {i n : ℕ} (hi : i < r.count)
    (hfree : (r.detour i).function = 0) (hf : f ≠ 0) :
    StateOk (some b) (s.write ((r.taken i f).cleared i) n) := by
  have hok := ho.ok.regions r ho.has.mem
  have hlength : i < r.detours.length := by
    rw [hok.counted.length]
    exact hi
  have hothers : ∀ j, j ≠ i → SlotOk (r.taken i f) j ((r.taken i f).detour j) := by
    intro j hj
    rw [detour_taken_ne hj]
    exact (hok.slots j).congr rfl rfl
  refine ho.ok.write_swept ho.has (regionOk_cleared (hok.counted.taken hi hfree hf) hothers ?_)
    rfl ?_
  · rw [detour_taken_self hlength]
    exact hf
  · intro j hj
    by_cases hji : j = i
    · rw [hji, detour_cleared_self] at hj
      exact absurd rfl hj
    · rw [detour_cleared_ne hji, detour_taken_ne hji]

/-- A free detour is written, with no intercepts. -/
theorem Offered.interceptsOf_eq (ho : Offered s b r f) {i n : ℕ} {r' : Region} {d : Detour}
    (hi : i < r.count) (hfree : (r.detour i).function = 0) (haddress : r'.address = r.address)
    (hr' : r'.detours = r.detours.set i d) (hd : d.intercepts = []) (g : Address) :
    (s.write r' n).interceptsOf g = s.interceptsOf g := by
  have hlength : i < r.detours.length := by
    rw [(ho.ok.regions r ho.has.mem).counted.length]
    exact hi
  have hnone : interceptsIn g (usedOf [d]) = [] := by
    by_cases hused : d.function = 0
    · exact interceptsIn_unused hused g
    · rw [interceptsIn_used hused, hd, ite_self]
  apply interceptsOf_write ho.has haddress
  rw [hr']
  apply interceptsIn_set hlength
  rw [hnone, interceptsIn_unused]
  rw [detour_eq_getElem hlength] at hfree
  exact hfree

/-- `DdkAllocateDetour` never runs out of detours in the region that it has chosen. -/
theorem ddkAllocateDetour_spec (h : StateOk none s) (hf : f ≠ 0)
    (hunused : ∀ pDetour, ¬ s.Uses pDetour f)
    (hfresh : ∀ pRegion size, env.region = some (pRegion, size) →
      ∀ r ∈ s.regionlist, r.address ≠ pRegion)
    (hbounds : ∀ pRegion size, env.region = some (pRegion, size) →
      withinJumpBounds pRegion size f 0 = true) :
    ∃ s', StateOk none s' ∧ (∀ g, s'.interceptsOf g = s.interceptsOf g) ∧
      ((∃ status, status ≠ .success ∧ ddkAllocateDetour env f s = .ok (.error status) s') ∨
      ∃ b i r, ddkAllocateDetour env f s = .ok (.ok ⟨b, i⟩) s' ∧ s'.Has b r ∧
        (r.detour i).function = f ∧ (r.detour i).intercepts = []) := by
  rcases regionFor_spec h hunused hfresh hbounds with
    ⟨status, hstatus, hnone⟩ | ⟨b, r, s₁, hregion, ho, hkept⟩
  · refine ⟨s, h, fun _ => rfl, Or.inl ⟨status, hstatus, ?_⟩⟩
    rw [ddkAllocateDetour, bind_ok hnone]
    rfl
  have hok := ho.ok.regions r ho.has.mem
  rcases hok.counted.exists_find ho.free with ⟨i, hfind⟩
  have hi : i < r.count := List.mem_range.1 (List.mem_of_find?_eq_some hfind)
  have hfree : (r.detour i).function = 0 := by simpa using List.find?_some hfind
  have hlength : i < r.detours.length := by
    rw [hok.counted.length]
    exact hi
  have hself : (r.taken i f).detour i = ⟨f, 0, []⟩ := detour_taken_self hlength
  have hr₂ := ho.has.write (r.taken i f) rfl s₁.transactions
  obtain ⟨status, n, r₃, hattach, hr₃⟩ := ddkAttachDetour_spec hr₂
    (by rw [← setDetour_length] at hlength; exact hlength) (by rw [hself])
  have hrun : ddkAllocateDetour env f s = (if ntSuccess status then pure (.ok ⟨b, i⟩) else
      ddkFreeDetour env ⟨b, i⟩ >>= fun _ => pure (.error status))
      ((s₁.write (r.taken i f) s₁.transactions).write r₃ n) := by
    rw [ddkAllocateDetour, bind_ok hregion]
    dsimp only
    rw [bind_ok (getRegion_ok ho.has), hfind]
    dsimp only
    show (setRegion (r.taken i f) >>= _) s₁ = _
    rw [bind_ok (setRegion_run _ _), bind_ok hattach]
  rcases hr₃ with ⟨hstatus, rfl⟩ | ⟨hstatus, t, ht, rfl⟩
  · -- the function could not be detoured
    obtain ⟨status', n', r₄, hfreed, -, hr₄⟩ := ddkFreeDetour_spec (i := i)
      (ho.has.write (r.taken i f) rfl n) (by rw [hself]) (by rw [hself]; exact hf)
    rcases hr₄ with ⟨-, hattached, -⟩ | ⟨-, rfl⟩
    · rw [hself] at hattached
      exact absurd rfl hattached
    rw [State.write_write (by rfl)] at hfreed
    have habandoned := ho.abandoned (n := n') hi hfree hf
    have hr₄ := ho.has.write ((r.taken i f).cleared i) (by rfl) n'
    obtain ⟨s', hregion', hok', hs'⟩ := ddkFreeRegion_spec habandoned hr₄ ho.refcount
    have hwritten : ∀ g, (s₁.write ((r.taken i f).cleared i) n').interceptsOf g =
        s₁.interceptsOf g := by
      refine ho.interceptsOf_eq hi hfree (by rfl) ?_ (d := .zero) rfl
      show (r.detours.set i _).set i _ = _
      rw [List.set_set]
    have hsame : ∀ g, s'.interceptsOf g = s.interceptsOf g := by
      intro g
      rw [← hkept, ← hwritten]
      rcases hs' with rfl | ⟨rfl, hall⟩
      · rfl
      · exact interceptsOf_release hr₄ (habandoned.regions _ hr₄.mem).counted hall
    refine ⟨s', hok', hsame, Or.inl ⟨status, hstatus, ?_⟩⟩
    rw [bind_ok hregion', pure_run] at hfreed
    rw [hrun, if_neg (mt ntSuccess_iff.1 hstatus), State.write_write rfl, bind_ok hfreed, pure_run]
  · rw [if_pos (ntSuccess_iff.2 hstatus), pure_run, State.write_write setDetour_address,
      hself] at hrun
    have hsame : ∀ g, (s₁.write ((r.taken i f).setDetour i ⟨f, t, []⟩) n).interceptsOf g =
        s.interceptsOf g := by
      intro g
      rw [← hkept]
      refine ho.interceptsOf_eq hi hfree (by rfl) ?_ (d := ⟨f, t, []⟩) rfl g
      show (r.detours.set i _).set i _ = _
      rw [List.set_set]
    refine ⟨_, ho.attached hi hfree hf ht, hsame,
      Or.inr ⟨b, i, _, hrun, ho.has.write _ (by rfl) n, ?_⟩⟩
    rw [detour_setDetour_self (by rw [← setDetour_length] at hlength; exact hlength)]
    exact ⟨rfl, rfl⟩

/-- An entry is put on the list of a detour. -/
theorem stateOk_linked {i n : ℕ} {e : Intercept} (h : StateOk none s) (hr : s.Has b r)
    (hused : (r.detour i).function ≠ 0) (he : e.detour = some ⟨b, i⟩)
    (hfresh : ∀ p ∈ (r.detour i).intercepts, p.address ≠ e.address) :
    StateOk none (s.write
      (r.setDetour i { r.detour i with intercepts := e :: (r.detour i).intercepts }) n) := by
  have hok := h.regions r hr.mem
  have hslot := hok.slots i
  have hsettled := h.settled r hr.mem nofun
  have hnew : SlotOk r i { r.detour i with intercepts := e :: (r.detour i).intercepts } := by
    refine ⟨fun hfree => absurd hfree hused, hslot.used, hslot.bounds, ?_, ?_⟩
    · intro p hp
      rcases List.mem_cons.1 hp with rfl | hp
      · rw [he, hr.address]
      · exact hslot.linked p hp
    · rw [List.map_cons, List.nodup_cons]
      refine ⟨?_, hslot.nodup⟩
      intro hmem
      rcases List.mem_map.1 hmem with ⟨p, hp, hpe⟩
      exact hfresh p hp hpe
  have hok' := hok.setDetour (by rfl) hnew
  have hswept := swept_setDetour hok' rfl
  exact ((h.pend b).write_swept hr hok' rfl hswept.functions).settle (hr.write _ (by rfl) n)
    hsettled.1 hsettled.2

/-- It is the first intercept of the function then. -/
theorem interceptsOf_linked {i n : ℕ} {e : Intercept} (h : StateOk none s) (hr : s.Has b r)
    (hused : (r.detour i).function ≠ 0) (he : e.detour = some ⟨b, i⟩)
    (hfresh : ∀ p ∈ (r.detour i).intercepts, p.address ≠ e.address) (g : Address) :
    (s.write (r.setDetour i { r.detour i with intercepts := e :: (r.detour i).intercepts })
        n).interceptsOf g =
      if g = (r.detour i).function then e :: s.interceptsOf g else s.interceptsOf g := by
  have hi := lt_length_of_used hused
  split
  · rename_i hg
    have hself : (r.setDetour i
        { r.detour i with intercepts := e :: (r.detour i).intercepts }).detour i =
        { r.detour i with intercepts := e :: (r.detour i).intercepts } :=
      detour_setDetour_self hi
    have hlinked := (stateOk_linked (n := n) h hr hused he hfresh).interceptsOf_has
      (hr.write _ (by rfl) n) (i := i) (by rw [hself]; exact hused)
    rw [hself] at hlinked
    rw [hg, h.interceptsOf_has hr hused]
    exact hlinked
  · rename_i hg
    apply interceptsOf_write hr (by rfl)
    apply interceptsIn_set hi
    rw [← detour_eq_getElem hi, interceptsIn_used hused, interceptsIn_used (by exact hused),
      if_neg (Ne.symm hg), if_neg (Ne.symm hg)]

/-- What an attach does to the intercepts: one more for the function, or nothing if it fails. -/
def Attached (pFunction : Address) (a : Attachment) (status : Status) (s s' : State) : Prop :=
  (status = .success ∧ a.intercept ≠ 0 ∧ ∃ e : Intercept, e.attachment = a ∧
    ∀ g, s'.interceptsOf g =
      if g = pFunction then e :: s.interceptsOf g else s.interceptsOf g) ∨
  (status ≠ .success ∧ ∀ g, s'.interceptsOf g = s.interceptsOf g)

theorem Attached.trans {a : Attachment} {status : Status} {s₁ s' : State}
    (h : Attached f a status s₁ s') (hsame : ∀ g, s₁.interceptsOf g = s.interceptsOf g) :
    Attached f a status s s' := by
  unfold Attached at h ⊢
  rw [funext hsame] at h
  exact h

/-- The end of `DdkAttachIntercept`, when there is a detour for the function. -/
theorem link_spec {i : ℕ} {e : Intercept} (h : StateOk none s) (hr : s.Has b r)
    (hfunction : (r.detour i).function = f) (hf : f ≠ 0) (he : e.detour = some ⟨b, i⟩)
    (hintercept : e.intercept ≠ 0) (hfresh : ∀ p ∈ (r.detour i).intercepts, p.address ≠ e.address) :
    ∃ s', (getDetour ⟨b, i⟩ >>= fun d =>
        setDetour ⟨b, i⟩ { d with intercepts := e :: d.intercepts } >>= fun _ =>
        pure Status.success) s = .ok .success s' ∧
      StateOk none s' ∧ Attached f e.attachment .success s s' := by
  have hused : (r.detour i).function ≠ 0 := by
    rw [hfunction]
    exact hf
  have hlinked := interceptsOf_linked (n := s.transactions) h hr hused he hfresh
  rw [hfunction] at hlinked
  refine ⟨_, ?_, stateOk_linked h hr hused he hfresh, Or.inl ⟨rfl, hintercept, e, rfl, hlinked⟩⟩
  rw [bind_ok (getDetour_ok hr i), bind_ok (setDetour_ok hr i _), pure_run]

/-- `DdkAttachIntercept` returns, with the invariant. -/
theorem ddkAttachIntercept_spec (h : StateOk none s)
    (pFunction pIntercept pIdentity pInstance pThread : Address)
    (henv : env.Allowed s (.attachIntercept pFunction pIntercept pIdentity pInstance pThread)) :
    ∃ status s', ddkAttachIntercept env pFunction pIntercept pIdentity pInstance pThread s =
      .ok status s' ∧
      StateOk none s' ∧
      Attached pFunction ⟨pIntercept, pIdentity, pInstance, pThread⟩ status s s' := by
  rw [ddkAttachIntercept]
  by_cases hnull : (pFunction = 0 || pIntercept = 0) = true
  · rw [if_pos hnull]
    exact ⟨.invalidParameter, s, rfl, h, Or.inr ⟨nofun, fun _ => rfl⟩⟩
  rw [if_neg hnull]
  rw [Bool.or_eq_true, decide_eq_true_eq, decide_eq_true_eq, not_or] at hnull
  rcases hnull with ⟨hf, hintercept⟩
  cases hentry : env.entry with
  | none => exact ⟨.insufficientResources, s, rfl, h, Or.inr ⟨nofun, fun _ => rfl⟩⟩
  | some address =>
    dsimp only
    rw [bind_ok (ddkFindDetour_run s pFunction)]
    cases hfind : s.findDetour pFunction with
    | some pDetour =>
      -- the function has a detour
      rcases uses_of_findDetour hf hfind with ⟨-, r, hr, hregion, hfunction⟩
      have hhas : s.Has pDetour.region r := ⟨h.nodup, hr, hregion⟩
      have hused : (r.detour pDetour.index).function ≠ 0 := by
        rw [hfunction]
        exact hf
      have hfresh : ∀ p ∈ (r.detour pDetour.index).intercepts, p.address ≠ address :=
        henv.entry address hentry r hr _ (mem_of_used hused)
      rcases link_spec (e := ⟨address, some pDetour, pIntercept, pIdentity, pInstance, pThread⟩)
        h hhas hfunction hf rfl hintercept hfresh with ⟨s', hrun, hok', hattached⟩
      exact ⟨.success, s', hrun, hok', hattached⟩
    | none =>
      have hunused : ∀ pDetour, ¬ s.Uses pDetour pFunction := by
        intro pDetour huses
        rw [h.findDetour_eq huses] at hfind
        cases hfind
      obtain ⟨s', hok', hsame,
          ⟨status, hstatus, hrun⟩ | ⟨b, i, r, hrun, hhas, hfunction, hempty⟩⟩ :=
        ddkAllocateDetour_spec h hf hunused henv.region
          (fun pRegion size hregion => henv.bounds pRegion size _ _ _ _ _ hregion rfl)
      · dsimp only
        rw [bind_ok hrun]
        exact ⟨status, s', rfl, hok', Or.inr ⟨hstatus, hsame⟩⟩
      · have hfresh : ∀ p ∈ (r.detour i).intercepts, p.address ≠ address := by
          rw [hempty]
          exact nofun
        rcases link_spec (e := ⟨address, some ⟨b, i⟩, pIntercept, pIdentity, pInstance, pThread⟩)
          hok' hhas hfunction hf rfl hintercept hfresh with ⟨s'', hrun', hok'', hattached⟩
        dsimp only
        rw [bind_ok hrun]
        exact ⟨.success, s'', hrun', hok'', hattached.trans hsame⟩

end Attach

/-! ## Runs -/

/-- Every call returns, with the invariant. -/
theorem call_spec {env : Env} {s : State} {c : Call} (h : StateOk none s) (henv : env.Allowed s c) :
    ∃ status s', call env c s = .ok status s' ∧ StateOk none s' := by
  cases c with
  | attachIntercept pFunction pIntercept pIdentity pInstance pThread =>
    rcases ddkAttachIntercept_spec h pFunction pIntercept pIdentity pInstance pThread henv with
      ⟨status, s', hrun, hok, -⟩
    exact ⟨status, s', hrun, hok⟩
  | detachIntercept pId pThread =>
    rcases ddkDetachIntercept_spec h pId pThread with ⟨status, s', hrun, hok, -⟩
    exact ⟨status, s', hrun, hok⟩
  | detachAddressRange pAddr len module =>
    rcases ddkDetachAddressRange_spec h pAddr len module with ⟨status, s', hrun, hok, -⟩
    exact ⟨status, s', hrun, hok⟩

theorem run_ok {es : List (Call × Env)} {s : State} (h : Run es s) : StateOk none s := by
  refine Trace.invariant ?_ ?_ h
  · rintro s ⟨hregions, hfreed⟩
    have huses : ∀ f pDetour, ¬ s.Uses pDetour f := by
      rintro f pDetour ⟨-, r, hr, -⟩
      rw [hregions] at hr
      cases hr
    constructor
    case nodup =>
      rw [hregions]
      exact List.nodup_nil
    case regions =>
      rw [hregions]
      exact nofun
    case settled =>
      rw [hregions]
      exact nofun
    case unique => exact fun f pDetour _ h => absurd h (huses f pDetour)
    case freed =>
      rw [hfreed]
      exact nofun
  · rintro s ⟨c, env⟩ s' hok ⟨henv, status, hcall⟩
    rcases call_spec hok henv with ⟨status', s'', hcall', hok'⟩
    rcases result_eq hcall hcall' with ⟨-, rfl⟩
    exact hok'

/-- What holds of the regions between the calls. -/
structure RegionInvariant (s : State) : Prop where
  refcount : ∀ r ∈ s.regionlist, r.refcount = 0
  freecount : ∀ r ∈ s.regionlist, r.detours.length = r.count ∧ r.freecount = r.count - r.used ∧
    r.freecount < r.count
  hwm : ∀ r ∈ s.regionlist, ∀ i < r.count, (r.detour i).function ≠ 0 → i < r.hwm
  free : ∀ r ∈ s.regionlist, ∀ i < r.count, (r.detour i).function = 0 →
    (r.detour i).intercepts = [] ∧ (r.detour i).trampoline = 0
  used : ∀ r ∈ s.regionlist, ∀ i < r.count, (r.detour i).function ≠ 0 → (r.detour i).trampoline ≠ 0
  unique : ∀ f pDetour pDetour', s.Uses pDetour f → s.Uses pDetour' f → pDetour = pDetour'
  found : ∀ f pDetour, s.Uses pDetour f → ddkFindDetour f s = .ok (some pDetour) s
  freed : ∀ r ∈ s.freed, ∀ i, (r.detour i).function = 0

theorem StateOk.invariant {s : State} (h : StateOk none s) : RegionInvariant s where
  refcount r hr := (h.settled r hr nofun).1
  freecount r hr := by
    have hcounted := (h.regions r hr).counted
    have hfree := hcounted.freecount
    exact ⟨hcounted.length, by omega, (h.settled r hr nofun).2⟩
  hwm r hr i _ := (h.regions r hr).counted.hwm i
  free r hr i _ := ((h.regions r hr).slots i).free
  used r hr i _ := ((h.regions r hr).slots i).used
  unique := h.unique
  found f _ huses := by
    rw [ddkFindDetour_run, h.findDetour_eq huses]
  freed := h.freed

/-- After every run the invariant holds, and the next call returns: no loop is endless, no pointer
is used after its memory was freed, and no region runs out of detours. -/
theorem detours_invariant {es : List (Call × Env)} {s : State} (h : Run es s) :
    RegionInvariant s ∧ ∀ (c : Call) (env : Env), env.Allowed s c →
      ∃ status s', call env c s = .ok status s' := by
  have hok := run_ok h
  refine ⟨hok.invariant, ?_⟩
  intro c env henv
  rcases call_spec hok henv with ⟨status, s', hcall, -⟩
  exact ⟨status, s', hcall⟩

/-- Memory for an entry and a region with two detours, and transactions that succeed. -/
def attachEnv : Env :=
  ⟨some 0x30000, some (0x20000, 152), fun _ => ⟨0, 0, 0, 0, 0, 0x10010, by decide⟩⟩

/-- A function is attached, for all threads. -/
def attachCall : Call := .attachIntercept 0x10000 0x40000 1 0 0

/-- The state after it. -/
def attachedState : State :=
  ⟨[⟨0x20000, 152, 0, 2, 1, 1,
    [⟨0x10000, 0x10010, [⟨0x30000, some ⟨0x20000, 0⟩, 0x40000, 1, 0, 0⟩]⟩, .zero]⟩], 1, []⟩

theorem allowed_attached : attachEnv.Allowed ⟨[], 0, []⟩ attachCall := by
  refine ⟨nofun, nofun, ?_⟩
  intro pRegion size pFunction pIntercept pIdentity pInstance pThread hregion hc
  cases hregion
  injection hc with hfunction
  rw [← hfunction]
  decide

theorem run_attached : Run [(attachCall, attachEnv)] attachedState := by
  have h0 : Run [] ⟨[], 0, []⟩ := .start ⟨rfl, rfl⟩
  exact h0.snoc ⟨allowed_attached, .success, rfl⟩

theorem detours_invariant_attached :
    ∃ es s, Run es s ∧ s.Uses ⟨0x20000, 0⟩ 0x10000 ∧ RegionInvariant s :=
  ⟨_, _, run_attached, ⟨by decide, _, List.mem_cons_self, rfl, rfl⟩,
    (detours_invariant run_attached).1⟩

end Wdutf.Detours
