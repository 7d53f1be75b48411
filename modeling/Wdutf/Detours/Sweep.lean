import Wdutf.Detours.Effect

/-!
# Wdutf.Detours.Sweep — freeing the intercepts of a region

The loops of `DdkDetachIntercept` and `DdkDetachAddressRange` over the detours of one region and
over the entries of one detour. The region is referenced, so it is not freed under them.

* `ddkFreeIntercept_spec` — one entry is freed;
* `Detour.sweep`, `sweepDetours` — what is left of a detour, and of the detours of a region, by
  the outcomes of the transactions;
* `entryLoop_spec`, `detourLoop_spec` — the loops end, and this is all they leave.
-/

namespace Wdutf.Detours

open Wdutf.Keyed Wdutf.Action Wdutf.Loop

/-- What the loops leave of a region. -/
structure Swept (r r' : Region) : Prop where
  ok : RegionOk r'
  address : r'.address = r.address
  refcount : r'.refcount = r.refcount
  count : r'.count = r.count
  hwm_le : r'.hwm ≤ r.hwm
  functions : ∀ i, (r'.detour i).function ≠ 0 → (r'.detour i).function = (r.detour i).function

theorem Swept.refl {r : Region} (h : RegionOk r) : Swept r r :=
  ⟨h, rfl, rfl, rfl, Nat.le_refl _, fun _ _ => rfl⟩

theorem Swept.trans {r r' r'' : Region} (h : Swept r r') (h' : Swept r' r'') : Swept r r'' where
  ok := h'.ok
  address := h'.address.trans h.address
  refcount := h'.refcount.trans h.refcount
  count := h'.count.trans h.count
  hwm_le := Nat.le_trans h'.hwm_le h.hwm_le
  functions i hused := by
    have heq := h'.functions i hused
    rw [heq] at hused
    exact heq.trans (h.functions i hused)

section Entries

variable {env : Env} {s : State} {b : Address} {r r' : Region} {i n : ℕ} {d : Detour}
  {p : Intercept}

/-! ## One entry -/

/-- A detour with an entry is in use. -/
theorem SlotOk.function_ne (h : SlotOk r i d) (hp : p ∈ d.intercepts) : d.function ≠ 0 := by
  intro hfree
  rw [(h.free hfree).1] at hp
  cases hp

/-- The detour without an entry. -/
def Detour.without (d : Detour) (p : Intercept) : Detour :=
  { d with intercepts := unlink Intercept.address d.intercepts p.address }

theorem SlotOk.without (h : SlotOk r i d) (hp : p ∈ d.intercepts) : SlotOk r i (d.without p) where
  free hfree := absurd hfree (h.function_ne hp)
  used := h.used
  bounds := h.bounds
  linked q hq := h.linked q (mem_unlink hq)
  nodup := nodup_unlink h.nodup

theorem RegionOk.unlinked (h : RegionOk r) (hp : p ∈ (r.detour i).intercepts) :
    RegionOk (r.setDetour i ((r.detour i).without p)) :=
  h.setDetour rfl ((h.slots i).without hp)

theorem swept_setDetour (hok : RegionOk (r.setDetour i d))
    (hsame : d.function = (r.detour i).function) :
    Swept r (r.setDetour i d) := by
  refine ⟨hok, rfl, rfl, rfl, Nat.le_refl _, ?_⟩
  intro j hused
  by_cases hji : j = i
  · subst hji
    have hj : j < r.detours.length := by
      rw [← setDetour_length]
      exact lt_length_of_used hused
    rw [detour_setDetour_self hj]
    exact hsame
  · rw [detour_setDetour_ne hji]

theorem swept_lowered (hok : RegionOk r) : Swept r r.lowered :=
  ⟨hok.lowered, rfl, rfl, rfl, lowerHwm_le _, fun _ _ => rfl⟩

/-- The detours of a region that has given one up. -/
theorem detour_cleared_self : (r.cleared i).detour i = .zero := by
  show (r.setDetour i .zero).detour i = .zero
  by_cases hi : i < r.detours.length
  · exact detour_setDetour_self hi
  · exact detour_of_length_le (by rw [setDetour_length]; exact Nat.not_lt.1 hi)

theorem detour_cleared_ne {j : ℕ} (h : j ≠ i) : (r.cleared i).detour j = r.detour j := by
  show (r.setDetour i .zero).detour j = r.detour j
  exact detour_setDetour_ne h

theorem swept_cleared (hok : RegionOk r) (hused : (r.detour i).function ≠ 0) :
    Swept r (r.cleared i) := by
  refine ⟨regionOk_cleared hok.counted (fun j _ => hok.slots j) hused, rfl, rfl, rfl,
    lowerHwm_le _, ?_⟩
  intro j hj
  by_cases hji : j = i
  · rw [hji, detour_cleared_self] at hj
    exact absurd rfl hj
  · rw [detour_cleared_ne hji]

/-! ### What is left of a detour -/

/-- The detour with the entries that are kept. One that has lost its last entry is given up when
the transaction succeeds. -/
def Detour.keep (d : Detour) (kept : List Intercept) (succeeds : Bool) : Detour :=
  if d.intercepts ≠ [] ∧ kept = [] ∧ succeeds = true then .zero else { d with intercepts := kept }

/-- The number of transactions for that. -/
def Detour.losses (d : Detour) (kept : List Intercept) : ℕ :=
  if d.intercepts ≠ [] ∧ kept = [] then 1 else 0

theorem keep_of_ne_nil {kept : List Intercept} {succeeds : Bool} (h : kept ≠ []) :
    d.keep kept succeeds = { d with intercepts := kept } := by
  unfold Detour.keep
  rw [if_neg fun hlost => h hlost.2.1]

theorem keep_self {succeeds : Bool} : d.keep d.intercepts succeeds = d := by
  unfold Detour.keep
  rw [if_neg fun hlost => hlost.1 hlost.2.1]

theorem losses_of_ne_nil {kept : List Intercept} (h : kept ≠ []) : d.losses kept = 0 := by
  unfold Detour.losses
  rw [if_neg fun hlost => h hlost.2]

theorem losses_self : d.losses d.intercepts = 0 := by
  unfold Detour.losses
  rw [if_neg fun hlost => hlost.1 hlost.2]

/-- Entries are lost one after another. -/
theorem keep_keep {kept kept' : List Intercept} {succeeds : Bool} (hd : d.intercepts ≠ [])
    (h : kept ≠ []) :
    (d.keep kept succeeds).keep kept' succeeds = d.keep kept' succeeds := by
  rw [keep_of_ne_nil h]
  unfold Detour.keep
  simp only [hd, h, ne_eq, not_false_eq_true, true_and]

theorem losses_keep {kept kept' : List Intercept} {succeeds : Bool} (hd : d.intercepts ≠ [])
    (h : kept ≠ []) : (d.keep kept succeeds).losses kept' = d.losses kept' := by
  rw [keep_of_ne_nil h]
  unfold Detour.losses
  simp only [hd, h, ne_eq, not_false_eq_true, true_and]

variable (env) in
/-- An entry of a referenced region is freed: it is off its list, and the detour may be given up. -/
theorem ddkFreeIntercept_spec (h : s.Has b r) (href : r.refcount ≠ 0) (hok : RegionOk r)
    (hp : p ∈ (r.detour i).intercepts) :
    ∃ status n r', ddkFreeIntercept env p s = .ok status (s.write r' n) ∧ Swept r r' ∧
      r'.detours = r.detours.set i ((r.detour i).keep ((r.detour i).without p).intercepts
        ((env.transaction s.transactions).succeeds false)) ∧
      n = s.transactions + (r.detour i).losses ((r.detour i).without p).intercepts := by
  have hused := (hok.slots i).function_ne hp
  have hattached := (hok.slots i).used hused
  have hne : (r.detour i).intercepts ≠ [] := List.ne_nil_of_mem hp
  have hi := lt_length_of_used hused
  have hlinked := (hok.slots i).linked p hp
  rw [h.address] at hlinked
  have hok₁ := hok.unlinked hp
  have hswept₁ := swept_setDetour hok₁ rfl
  have hd₁ : (r.setDetour i ((r.detour i).without p)).detour i = (r.detour i).without p :=
    detour_setDetour_self hi
  have hhas := h.write (r.setDetour i ((r.detour i).without p)) rfl s.transactions
  rw [ddkFreeIntercept, hlinked]
  dsimp only
  rw [bind_ok (getDetour_ok h i)]
  show ∃ status n r', (setDetour ⟨b, i⟩ ((r.detour i).without p) >>= _) s = _ ∧ _
  rw [bind_ok (setDetour_ok h i _)]
  by_cases hempty : ((r.detour i).without p).intercepts = []
  · -- the last entry: the detour is detached, or stays without entries
    obtain ⟨status, n, r₂, hfree, houtcome, hr₂⟩ := ddkFreeDetour_spec (i := i) hhas
      (by rw [hd₁]; exact hempty) (by rw [hd₁]; exact hused)
    rw [hd₁] at houtcome
    obtain ⟨hn, hstatus⟩ := houtcome hattached
    rw [State.write_transactions] at hn hstatus
    have hlosses :
        s.transactions + (r.detour i).losses ((r.detour i).without p).intercepts = n := by
      unfold Detour.losses
      rw [if_pos ⟨hne, hempty⟩, hn]
    have hkept : ∀ r₃, Swept r r₃ →
        (do ddkFreeRegion b; pure status) (s.write r₃ n) = .ok status (s.write r₃ n) := by
      intro r₃ hswept
      rw [bind_ok (ddkFreeRegion_kept (h.write r₃ hswept.address n)
        (Or.inl (hswept.refcount ▸ href))),
        pure_run]
    rcases hr₂ with ⟨hfailed, -, rfl⟩ | ⟨hdone, rfl⟩
    · have hswept := hswept₁.trans (swept_lowered hok₁)
      rw [hfree, State.write_write lowered_address, hkept _ hswept]
      refine ⟨status, n, _, rfl, hswept, ?_, hlosses.symm⟩
      unfold Detour.keep
      rw [if_neg fun hlost => hfailed (hstatus.2 hlost.2.2)]
      rfl
    · have hswept := hswept₁.trans (swept_cleared hok₁ (by rw [hd₁]; exact hused))
      rw [hfree, State.write_write (by rfl), hkept _ hswept]
      refine ⟨status, n, _, rfl, hswept, ?_, hlosses.symm⟩
      unfold Detour.keep
      rw [if_pos ⟨hne, hempty, hstatus.1 hdone⟩]
      show (r.detours.set i ((r.detour i).without p)).set i .zero = r.detours.set i .zero
      rw [List.set_set]
  · rw [ddkFreeDetour, bind_ok (getDetour_ok hhas i), hd₁, if_pos hempty, pure_run]
    refine ⟨_, _, _, rfl, hswept₁, ?_, ?_⟩
    · rw [keep_of_ne_nil hempty]
      rfl
    · rw [losses_of_ne_nil hempty]
      rfl

/-! ## The entries of a detour -/

/-- What the loop over the entries has done, when it has `k` entries ahead of it: the entries
that it has visited are on the list unless they were hit. -/
def EntriesVisited (env : Env) (hit : Intercept → Bool) (s : State) (r : Region) (i k : ℕ)
    (x : Option Address × Status) (s' : State) : Prop :=
  ∃ r' n visited rest, s' = s.write r' n ∧ Swept r r' ∧ (r.detour i).intercepts = visited ++ rest ∧
    r'.detours = r.detours.set i ((r.detour i).keep (visited.filter (fun p => !hit p) ++ rest)
      ((env.transaction s.transactions).succeeds false)) ∧
    n = s.transactions + (r.detour i).losses (visited.filter (fun p => !hit p) ++ rest) ∧
    x.1 = rest.head?.map Intercept.address ∧ rest.length = k

/-- One turn of the loop. -/
theorem entryTurn_spec {hit : Intercept → Bool} (h : s.Has b r) (hok : RegionOk r)
    (href : r.refcount ≠ 0) {k : ℕ} {x : Option Address × Status} {s' : State}
    (hinv : EntriesVisited env hit s r i k x s') :
    (entryTurn env hit ⟨b, i⟩ x s' = .ok none s' ∧ EntriesVisited env hit s r i 0 x s') ∨
    ∃ x' s'' m, entryTurn env hit ⟨b, i⟩ x s' = .ok (some x') s'' ∧ m < k ∧
      EntriesVisited env hit s r i m x' s'' := by
  rcases hinv with ⟨r', n, visited, rest, rfl, hswept, hall, hdetours, hn, hhead, rfl⟩
  rcases x with ⟨p, status⟩
  cases rest with
  | nil =>
    refine Or.inl ⟨?_, r', n, visited, [], rfl, hswept, hall, hdetours, hn, hhead, rfl⟩
    have hp : p = none := hhead
    rw [hp]
    rfl
  | cons e rest =>
    have hp : p = some e.address := hhead
    have hhas := h.write r' hswept.address n
    -- the detour is in use, and has its entries still
    have hmem : e ∈ (r.detour i).intercepts := by simp [hall]
    have hne : (r.detour i).intercepts ≠ [] := List.ne_nil_of_mem hmem
    have hi := lt_length_of_used ((hok.slots i).function_ne hmem)
    have hkept : visited.filter (fun p => !hit p) ++ e :: rest ≠ [] := by simp
    have hd' : r'.detour i = (r.detour i).keep (visited.filter (fun p => !hit p) ++ e :: rest)
        ((env.transaction s.transactions).succeeds false) := by
      unfold Region.detour
      rw [hdetours, List.getD_eq_getElem?_getD, List.getElem?_set_self hi]
      rfl
    have hlist : (r'.detour i).intercepts = visited.filter (fun p => !hit p) ++ e :: rest := by
      rw [hd', keep_of_ne_nil hkept]
    rw [losses_of_ne_nil hkept, Nat.add_zero] at hn
    have hnodup := (hswept.ok.slots i).nodup
    rw [hlist] at hnodup
    have hmem' : e ∈ (r'.detour i).intercepts := by simp [hlist]
    rw [hp, entryTurn, bind_ok (getDetour_ok hhas i), hlist, lookup_middle hnodup,
      next_middle hnodup]
    dsimp only
    right
    by_cases hhit : hit e = true
    · -- the entry is freed
      obtain ⟨rc, n', r'', hfree, hswept', hdetours', hn'⟩ :=
        ddkFreeIntercept_spec env hhas (hswept.refcount ▸ href) hswept.ok hmem'
      have hrest : ((r'.detour i).without e).intercepts =
          (visited ++ [e]).filter (fun p => !hit p) ++ rest := by
        show unlink Intercept.address (r'.detour i).intercepts e.address = _
        rw [hlist, unlink_middle hnodup]
        simp [hhit]
      rw [State.write_transactions, hn] at hdetours' hn'
      rw [hrest, hd', hdetours, List.set_set, keep_keep hne hkept] at hdetours'
      rw [hrest, hd', losses_keep hne hkept] at hn'
      rw [if_pos hhit, bind_ok hfree, pure_run, State.write_write hswept'.address]
      exact ⟨_, _, rest.length, rfl, Nat.lt_succ_self _, r'', n', visited ++ [e], rest, rfl,
        hswept.trans hswept', by simp [hall], hdetours', hn', rfl, rfl⟩
    · have hrest : (visited ++ [e]).filter (fun p => !hit p) ++ rest =
          visited.filter (fun p => !hit p) ++ e :: rest := by simp [hhit]
      rw [if_neg hhit, pure_run]
      refine ⟨_, _, rest.length, rfl, Nat.lt_succ_self _, r', n, visited ++ [e], rest, rfl, hswept,
        by simp [hall], ?_, ?_, rfl, rfl⟩
      · rw [hrest, hdetours]
      · rw [hrest, losses_of_ne_nil hkept, hn]
        rfl

variable (env) in
/-- The loop over the entries frees those that are hit. -/
theorem entryLoop_spec (hit : Intercept → Bool) (h : s.Has b r) (href : r.refcount ≠ 0)
    (hok : RegionOk r)
    (i : ℕ) (status : Status) :
    ∃ x r' n, loop .endless (entryTurn env hit ⟨b, i⟩) ((r.detour i).intercepts.length + 1)
        ((r.detour i).intercepts.head?.map Intercept.address, status) s = .ok x (s.write r' n) ∧
      Swept r r' ∧
      r'.detours = r.detours.set i ((r.detour i).keep
        ((r.detour i).intercepts.filter (fun p => !hit p))
        ((env.transaction s.transactions).succeeds false)) ∧
      n = s.transactions +
        (r.detour i).losses ((r.detour i).intercepts.filter (fun p => !hit p)) := by
  have hstart : EntriesVisited env hit s r i (r.detour i).intercepts.length
      ((r.detour i).intercepts.head?.map Intercept.address, status) s := by
    refine ⟨r, s.transactions, [], _, h.write_self.symm, Swept.refl hok, rfl, ?_, ?_, rfl, rfl⟩
    · rw [List.filter_nil, List.nil_append, keep_self]
      exact (congrArg Region.detours setDetour_self).symm
    · rw [List.filter_nil, List.nil_append, losses_self]
      rfl
  obtain ⟨x, s', hrun, r', n, visited, rest, rfl, hswept, hall, hdetours, hn, -, hrest⟩ :=
    loop_total (fun _ _ _ hinv => entryTurn_spec h hok href hinv) hstart
      (Nat.lt_succ_self _)
  rw [List.length_eq_zero_iff] at hrest
  subst hrest
  rw [List.append_nil] at hall hdetours hn
  rw [← hall] at hdetours hn
  exact ⟨x, r', n, hrun, hswept, hdetours, hn⟩

/-! ## The detours of a region -/

section Detours

variable (env : Env) (visit : Detour → Bool) (hit : Intercept → Bool)

/-- What is left of a detour that may be visited. -/
def Detour.sweep (d : Detour) (succeeds : Bool) : Detour :=
  if visit d then d.keep (d.intercepts.filter fun p => !hit p) succeeds else d

/-- Whether a detour loses its last entry, as a number of transactions. -/
def Detour.sweepLosses (d : Detour) : ℕ :=
  if visit d then d.losses (d.intercepts.filter fun p => !hit p) else 0

/-- What is left of detours that are visited in turn, from the transaction `n` on. -/
def sweepDetours : ℕ → List Detour → List Detour
  | _, [] => []
  | n, d :: ds => d.sweep visit hit ((env.transaction n).succeeds false) ::
      sweepDetours (n + d.sweepLosses visit hit) ds

def sweepLosses : List Detour → ℕ
  | [] => 0
  | d :: ds => d.sweepLosses visit hit + sweepLosses ds

theorem sweepDetours_append (n : ℕ) (ds ds' : List Detour) :
    sweepDetours env visit hit n (ds ++ ds') = sweepDetours env visit hit n ds ++
      sweepDetours env visit hit (n + sweepLosses visit hit ds) ds' := by
  induction ds generalizing n with
  | nil => rfl
  | cons d ds ih =>
    rw [List.cons_append, sweepDetours, sweepDetours, ih, sweepLosses, Nat.add_assoc,
      List.cons_append]

theorem sweepLosses_append (ds ds' : List Detour) :
    sweepLosses visit hit (ds ++ ds') = sweepLosses visit hit ds + sweepLosses visit hit ds' := by
  induction ds with
  | nil => exact (Nat.zero_add _).symm
  | cons d ds ih => rw [List.cons_append, sweepLosses, sweepLosses, ih, Nat.add_assoc]

theorem length_sweepDetours (n : ℕ) (ds : List Detour) :
    (sweepDetours env visit hit n ds).length = ds.length := by
  induction ds generalizing n with
  | nil => rfl
  | cons d ds ih => rw [sweepDetours, List.length_cons, List.length_cons, ih]

/-- Nothing is done to detours without entries. -/
theorem sweepDetours_empty (n : ℕ) {ds : List Detour} (h : ∀ d ∈ ds, d.intercepts = []) :
    sweepDetours env visit hit n ds = ds ∧ sweepLosses visit hit ds = 0 := by
  induction ds generalizing n with
  | nil => exact ⟨rfl, rfl⟩
  | cons d ds ih =>
    have hd := h d List.mem_cons_self
    have hsweep : ∀ succeeds, d.sweep visit hit succeeds = d := by
      intro succeeds
      unfold Detour.sweep
      rw [hd, List.filter_nil, ← hd, keep_self, ite_self]
    have hlosses : d.sweepLosses visit hit = 0 := by
      unfold Detour.sweepLosses
      rw [hd, List.filter_nil, ← hd, losses_self, ite_self]
    rcases ih n fun d' hd' => h d' (List.mem_cons_of_mem d hd') with ⟨hrest, hrest'⟩
    rw [sweepDetours, sweepLosses, hsweep, hlosses, Nat.add_zero, hrest, hrest']
    exact ⟨rfl, rfl⟩

/-- The next detour of a sweep is as it was, and can be written. -/
theorem sweepDetours_at {n i : ℕ} {ds : List Detour} (hi : i < ds.length) :
    (sweepDetours env visit hit n (ds.take i) ++ ds.drop i).getD i .zero = ds[i] ∧
      ∀ d, (sweepDetours env visit hit n (ds.take i) ++ ds.drop i).set i d =
        sweepDetours env visit hit n (ds.take i) ++ d :: ds.drop (i + 1) := by
  have hfront : (sweepDetours env visit hit n (ds.take i)).length = i := by
    rw [length_sweepDetours, List.length_take]
    omega
  rw [List.drop_eq_getElem_cons hi]
  constructor
  · rw [List.getD_eq_getElem?_getD, List.getElem?_append_right (by omega), hfront, Nat.sub_self]
    rfl
  · intro d
    rw [List.set_append_right _ _ (by omega), hfront, Nat.sub_self]
    rfl

end Detours

/-- What the loop over the detours has done, when at most `k` detours are ahead of it. -/
def DetoursVisited (env : Env) (visit : Detour → Bool) (hit : Intercept → Bool) (s : State)
    (r : Region) (k : ℕ) (x : ℕ × Status) (s' : State) : Prop :=
  ∃ r' n, s' = s.write r' n ∧ Swept r r' ∧ r'.hwm ≤ x.1 + k ∧
    r'.detours = sweepDetours env visit hit s.transactions (r.detours.take x.1) ++
      r.detours.drop x.1 ∧
    n = s.transactions + sweepLosses visit hit (r.detours.take x.1)

/-- One turn of the loop. `hwm` can be lower after it. -/
theorem detourTurn_spec {visit : Detour → Bool} {hit : Intercept → Bool} (h : s.Has b r)
    (href : r.refcount ≠ 0) {k : ℕ} {x : ℕ × Status} {s' : State}
    (hinv : DetoursVisited env visit hit s r k x s') :
    (detourTurn env visit hit b x s' = .ok none s' ∧ DetoursVisited env visit hit s r 0 x s') ∨
    ∃ x' s'' m, detourTurn env visit hit b x s' = .ok (some x') s'' ∧ m < k ∧
      DetoursVisited env visit hit s r m x' s'' := by
  rcases hinv with ⟨r', n, rfl, hswept, hk, hdetours, hn⟩
  rcases x with ⟨i, status⟩
  have hhas := h.write r' hswept.address n
  dsimp only at hk hdetours hn
  rw [detourTurn, bind_ok (getRegion_ok hhas)]
  by_cases hi : i < r'.hwm
  · right
    rw [if_pos hi]
    dsimp only
    -- the detours from `i` on have not been visited
    have hcounted := hswept.ok.counted
    have hhwm := hcounted.hwm_le
    have hlength := congrArg List.length hdetours
    rw [List.length_append, length_sweepDetours, ← List.length_append, List.take_append_drop,
      hcounted.length] at hlength
    have hlt : i < r.detours.length := by omega
    have htake : r.detours.take (i + 1) = r.detours.take i ++ [r.detour i] := by
      rw [List.take_succ_eq_append_getElem hlt, detour_eq_getElem hlt]
    rcases @sweepDetours_at env visit hit s.transactions i r.detours hlt with ⟨hget, hset⟩
    rw [← hdetours, ← detour_eq_getElem hlt] at hget
    rw [← hdetours] at hset
    have hd : r'.detour i = r.detour i := hget
    have hnext : ∀ d, d = (r.detour i).sweep visit hit ((env.transaction n).succeeds false) →
        r'.detours.set i d = sweepDetours env visit hit s.transactions (r.detours.take (i + 1)) ++
          r.detours.drop (i + 1) := by
      rintro d rfl
      rw [hset, htake, sweepDetours_append, sweepDetours, sweepDetours, ← hn, List.append_assoc]
      rfl
    have hcount : ∀ m, m = n + (r.detour i).sweepLosses visit hit →
        m = s.transactions + sweepLosses visit hit (r.detours.take (i + 1)) := by
      rintro m rfl
      rw [htake, sweepLosses_append, sweepLosses, sweepLosses, ← Nat.add_assoc, ← hn]
      rfl
    by_cases hvisit : visit (r'.detour i) = true
    · obtain ⟨x, r'', n', hloop, hswept', hdetours', hn'⟩ :=
        entryLoop_spec env hit hhas (hswept.refcount ▸ href) hswept.ok i status
      rw [if_pos hvisit, bind_ok hloop, State.write_write hswept'.address]
      have hle := hswept'.hwm_le
      rw [hd] at hvisit hdetours' hn'
      refine ⟨_, _, k - 1, rfl, by omega, r'', n', rfl, hswept.trans hswept', ?_, ?_, ?_⟩
      · show r''.hwm ≤ i + 1 + (k - 1)
        omega
      · rw [hdetours']
        apply hnext
        unfold Detour.sweep
        rw [if_pos hvisit]
        rfl
      · apply hcount
        unfold Detour.sweepLosses
        rw [if_pos hvisit]
        exact hn'
    · rw [if_neg hvisit, pure_run]
      rw [hd] at hvisit
      refine ⟨_, _, k - 1, rfl, by omega, r', n, rfl, hswept, ?_, ?_, ?_⟩
      · show r'.hwm ≤ i + 1 + (k - 1)
        omega
      · have hself : r'.detours = r'.detours.set i (r.detour i) := by
          rw [← hd]
          exact (congrArg Region.detours setDetour_self).symm
        rw [hself]
        apply hnext
        unfold Detour.sweep
        rw [if_neg hvisit]
      · apply hcount
        unfold Detour.sweepLosses
        rw [if_neg hvisit]
        rfl
  · rw [if_neg hi, pure_run]
    exact Or.inl ⟨rfl, r', n, rfl, hswept, Nat.not_lt.1 hi, hdetours, hn⟩

variable (env) in
/-- The loop over the detours of a region. -/
theorem detourLoop_spec (visit : Detour → Bool) (hit : Intercept → Bool) (h : s.Has b r)
    (href : r.refcount ≠ 0) (hok : RegionOk r) (status : Status) :
    ∃ x r' n, loop .endless (detourTurn env visit hit b) (r.hwm + 1) (0, status) s =
      .ok x (s.write r' n) ∧ Swept r r' ∧
      r'.detours = sweepDetours env visit hit s.transactions r.detours ∧
      n = s.transactions + sweepLosses visit hit r.detours := by
  have hstart : DetoursVisited env visit hit s r r.hwm (0, status) s :=
    ⟨r, s.transactions, h.write_self.symm, Swept.refl hok, Nat.le_of_eq (Nat.zero_add _).symm,
      rfl, rfl⟩
  obtain ⟨x, s', hrun, r', n, rfl, hswept, hhwm, hdetours, hn⟩ :=
    loop_total (fun _ _ _ hinv => detourTurn_spec h href hinv) hstart
      (Nat.lt_succ_self _)
  -- the detours behind the mark have no entries
  have hbehind : ∀ d ∈ r.detours.drop x.1, d.intercepts = [] := by
    intro d hd
    rcases List.getElem_of_mem hd with ⟨j, hj, rfl⟩
    have hlength : (sweepDetours env visit hit s.transactions (r.detours.take x.1)).length =
        x.1 := by
      rw [length_sweepDetours, List.length_take]
      rw [List.length_drop] at hj
      omega
    have hdj : r'.detour (x.1 + j) = (r.detours.drop x.1)[j] := by
      unfold Region.detour
      rw [hdetours, List.getD_eq_getElem?_getD, List.getElem?_append_right (by omega), hlength,
        Nat.add_sub_cancel_left, List.getElem?_eq_getElem hj]
      rfl
    rw [← hdj]
    apply ((hswept.ok.slots _).free _).1
    by_contra hused
    have hlt := hswept.ok.counted.hwm _ hused
    omega
  rcases sweepDetours_empty env visit hit n hbehind with ⟨hsame, hnone⟩
  refine ⟨x, r', n, hrun, hswept, ?_, ?_⟩
  · rw [hdetours, ← List.take_append_drop x.1 r.detours, sweepDetours_append, ← hn,
      List.take_append_drop, hsame]
  · rw [hn, ← List.take_append_drop x.1 r.detours, sweepLosses_append, List.take_append_drop, hnone]
    rfl

end Entries

end Wdutf.Detours
