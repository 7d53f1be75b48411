import Wdutf.Detours.Region

/-!
# Wdutf.Detours.Effect — what the routines do to a region

Each routine on a detour writes the region of the detour, and may make a transaction.

* `ddkDetachDetour_spec`, `ddkAttachDetour_spec` — the trampoline, by the outcome of the
  transaction;
* `ddkFreeDetour_spec` — a detour without intercepts is given up, or kept when it cannot be
  detached.
-/

namespace Wdutf.Detours

open Wdutf.Keyed Wdutf.Action

variable {env : Env} {s : State} {b : Address} {r r' : Region} {i n m : ℕ}

/-- The region at an address, on a list where the addresses are different. -/
structure State.Has (s : State) (b : Address) (r : Region) : Prop where
  nodup : (s.regionlist.map Region.address).Nodup
  mem : r ∈ s.regionlist
  address : r.address = b

/-- The state after a region was written, and after some transactions. -/
def State.write (s : State) (r : Region) (transactions : ℕ) : State :=
  { s with regionlist := store Region.address s.regionlist r, transactions := transactions }

@[simp] theorem State.write_transactions : (s.write r n).transactions = n := rfl

theorem State.Has.lookup_eq (h : s.Has b r) : lookup Region.address s.regionlist b = some r := by
  rw [← h.address]
  exact lookup_of_mem h.nodup h.mem

theorem State.Has.write (h : s.Has b r) (r' : Region) (haddress : r'.address = r.address) (n : ℕ) :
    (s.write r' n).Has b r' where
  nodup := by
    show ((store Region.address s.regionlist r').map Region.address).Nodup
    rw [keys_store]
    exact h.nodup
  mem := by
    have hlookup := h.lookup_eq
    rw [← h.address, ← haddress] at hlookup
    exact mem_of_lookup (lookup_store hlookup)
  address := haddress.trans h.address

theorem State.Has.store_eq (h : s.Has b r) : store Region.address s.regionlist r = s.regionlist :=
  store_self h.nodup h.mem

theorem State.Has.write_self (h : s.Has b r) : s.write r s.transactions = s := by
  unfold State.write
  rw [h.store_eq]

/-- The second write of a region counts. -/
theorem State.write_write (haddress : r'.address = r.address) :
    (s.write r n).write r' m = s.write r' m := by
  unfold State.write
  rw [store_store haddress]

theorem State.write_setDetour {d d' : Detour} :
    (s.write (r.setDetour i d) n).write (r.setDetour i d') m = s.write (r.setDetour i d') m :=
  State.write_write rfl

/-! ## Memory -/

theorem getRegion_ok (h : s.Has b r) : getRegion b s = .ok r s := by
  unfold getRegion
  rw [h.lookup_eq]

@[simp] theorem setRegion_run (r : Region) (s : State) :
    setRegion r s = .ok () (s.write r s.transactions) := rfl

theorem getDetour_ok (h : s.Has b r) (i : ℕ) : getDetour ⟨b, i⟩ s = .ok (r.detour i) s := by
  rw [getDetour, bind_ok (getRegion_ok h), pure_run]

theorem setDetour_ok (h : s.Has b r) (i : ℕ) (d : Detour) :
    setDetour ⟨b, i⟩ d s = .ok () (s.write (r.setDetour i d) s.transactions) := by
  rw [setDetour, bind_ok (getRegion_ok h), setRegion_run]

/-! ## Regions -/

theorem ddkFreeRegion_kept (h : s.Has b r) (hkept : r.refcount ≠ 0 ∨ r.freecount ≠ r.count) :
    ddkFreeRegion b s = .ok () s := by
  rw [ddkFreeRegion, bind_ok (getRegion_ok h), if_pos (by simpa using hkept), pure_run]

/-- The state after a region was given back. -/
def State.release (s : State) (b : Address) (r : Region) : State :=
  { s with regionlist := unlink Region.address s.regionlist b, freed := r :: s.freed }

theorem ddkFreeRegion_freed (h : s.Has b r) (href : r.refcount = 0)
    (hfree : r.freecount = r.count) :
    ddkFreeRegion b s = .ok () (s.release b r) := by
  rw [ddkFreeRegion, bind_ok (getRegion_ok h), if_neg (by simp [href, hfree]), modify_run]
  rfl

theorem ddkAddReference_ok (h : s.Has b r) :
    ddkAddReference b s =
      .ok () (s.write { r with refcount := r.refcount + 1 } s.transactions) := by
  rw [ddkAddReference, bind_ok (getRegion_ok h), setRegion_run]

theorem ddkDeleteReference_eq (h : s.Has b r) :
    ddkDeleteReference b s =
      ddkFreeRegion b (s.write { r with refcount := r.refcount - 1 } s.transactions) := by
  rw [ddkDeleteReference, bind_ok (getRegion_ok h), bind_ok (setRegion_run _ _)]

/-! ## Transactions -/

theorem ddkGetDetourStatus_eq_success {rc : ℤ} : ddkGetDetourStatus rc = .success ↔ rc = 0 := by
  unfold ddkGetDetourStatus
  split <;> simp_all

theorem ntSuccess_iff {status : Status} : ntSuccess status = true ↔ status = .success := by
  simp [ntSuccess]

/-- All calls of a transaction succeed. -/
def Transaction.succeeds (t : Transaction) (enable : Bool) : Bool :=
  t.began = 0 && t.updated = 0 && (if enable then t.attached else t.detached) = 0 &&
    t.committed = 0

/-- A transaction fails and changes nothing, or it writes the trampoline. -/
theorem ddkUpdateDetour_spec (h : s.Has b r) (i : ℕ) (enable : Bool) :
    ∃ status r',
      ddkUpdateDetour env ⟨b, i⟩ enable s = .ok status (s.write r' (s.transactions + 1)) ∧
      (status = .success ↔ (env.transaction s.transactions).succeeds enable = true) ∧
      (status ≠ .success ∧ r' = r ∨ status = .success ∧
        ∃ t, (enable = true → t ≠ 0) ∧ r' = r.setDetour i { r.detour i with trampoline := t }) := by
  have hstart : s.write r (s.transactions + 1) = { s with transactions := s.transactions + 1 } := by
    unfold State.write
    rw [h.store_eq]
  have hhas := h.write r rfl (s.transactions + 1)
  have hfail : ∀ rc : ℤ, rc ≠ 0 → ddkGetDetourStatus rc ≠ .success := fun rc hrc heq =>
    hrc (ddkGetDetourStatus_eq_success.1 heq)
  rw [ddkUpdateDetour, get_bind, bind_ok (modify_run _ _), ← hstart]
  generalize env.transaction s.transactions = t
  by_cases hbegan : t.began ≠ 0
  · rw [if_pos hbegan]
    exact ⟨_, r, rfl, iff_of_false (hfail _ hbegan) (by simp [Transaction.succeeds, hbegan]),
      Or.inl ⟨hfail _ hbegan, rfl⟩⟩
  rw [if_neg hbegan]
  by_cases hupdated : t.updated ≠ 0
  · rw [if_pos hupdated]
    exact ⟨_, r, rfl, iff_of_false (hfail _ hupdated) (by simp [Transaction.succeeds, hupdated]),
      Or.inl ⟨hfail _ hupdated, rfl⟩⟩
  rw [if_neg hupdated]
  dsimp only
  by_cases hrc : (if enable then t.attached else t.detached) ≠ 0
  · rw [if_pos hrc]
    exact ⟨_, r, rfl, iff_of_false (hfail _ hrc) (by simp [Transaction.succeeds, hrc]),
      Or.inl ⟨hfail _ hrc, rfl⟩⟩
  rw [if_neg hrc]
  by_cases hcommitted : t.committed ≠ 0
  · rw [if_pos hcommitted]
    exact ⟨_, r, rfl,
      iff_of_false (hfail _ hcommitted) (by simp [Transaction.succeeds, hcommitted]),
      Or.inl ⟨hfail _ hcommitted, rfl⟩⟩
  rw [if_neg hcommitted, bind_ok (getDetour_ok hhas i), bind_ok (setDetour_ok hhas i _), pure_run,
    State.write_write setDetour_address]
  have hstatus := ddkGetDetourStatus_eq_success.2 (not_not.1 hcommitted)
  refine ⟨_, _, rfl, iff_of_true hstatus ?_, Or.inr ⟨hstatus, _, ?_, rfl⟩⟩
  · simp only [Transaction.succeeds, Bool.and_eq_true, decide_eq_true_eq]
    exact ⟨⟨⟨not_not.1 hbegan, not_not.1 hupdated⟩, not_not.1 hrc⟩, not_not.1 hcommitted⟩
  · intro henable
    rw [if_pos henable]
    exact t.trampoline_ne

/-- A detour without a trampoline is not changed by taking it away. -/
theorem setDetour_untrampolined (hnone : (r.detour i).trampoline = 0) :
    r.setDetour i { r.detour i with trampoline := 0 } = r := by
  rw [← hnone]
  exact setDetour_self

/-- A detour is attached, or is left without a trampoline. -/
theorem ddkAttachDetour_spec (h : s.Has b r) (hi : i < r.detours.length)
    (hnone : (r.detour i).trampoline = 0) :
    ∃ status n r', ddkAttachDetour env ⟨b, i⟩ s = .ok status (s.write r' n) ∧
      (status ≠ .success ∧ r' = r ∨ status = .success ∧
        ∃ t, t ≠ 0 ∧ r' = r.setDetour i { r.detour i with trampoline := t }) := by
  have hhas := h.write (r.setDetour i { r.detour i with trampoline := (r.detour i).function })
    rfl s.transactions
  rcases ddkUpdateDetour_spec hhas i true with ⟨status, r₁, hupdate, -, hr₁⟩
  rw [ddkAttachDetour, bind_ok (getDetour_ok h i), if_neg (not_not.2 hnone),
    bind_ok (setDetour_ok h i _),
    bind_ok hupdate]
  rcases hr₁ with ⟨hstatus, rfl⟩ | ⟨hstatus, t, ht, rfl⟩
  · -- the transaction has failed: the trampoline is reset
    rw [if_neg (mt ntSuccess_iff.1 hstatus), State.write_write rfl]
    have hhas' := h.write (r.setDetour i { r.detour i with trampoline := (r.detour i).function })
      rfl ((s.write (r.setDetour i { r.detour i with trampoline := (r.detour i).function })
        s.transactions).transactions + 1)
    rw [bind_ok (getDetour_ok hhas' i), bind_ok (setDetour_ok hhas' i _), pure_run,
      detour_setDetour_self hi, setDetour_setDetour, State.write_setDetour,
      setDetour_untrampolined hnone]
    exact ⟨status, _, r, rfl, Or.inl ⟨hstatus, rfl⟩⟩
  · rw [if_pos (ntSuccess_iff.2 hstatus), pure_run, State.write_write setDetour_address,
      detour_setDetour_self hi, setDetour_setDetour]
    exact ⟨status, _, _, rfl, Or.inr ⟨hstatus, t, ht rfl, rfl⟩⟩

/-- The outcome of a detach, for a detour that is attached: one transaction decides it. -/
def DetachedBy (env : Env) (s : State) (d : Detour) (status : Status) (n : ℕ) : Prop :=
  d.trampoline ≠ 0 → n = s.transactions + 1 ∧
    (status = .success ↔ (env.transaction s.transactions).succeeds false = true)

/-- A detour loses its trampoline, or keeps it when the transaction fails. -/
theorem ddkDetachDetour_spec (h : s.Has b r) (hi : i < r.detours.length) :
    ∃ status n r', ddkDetachDetour env ⟨b, i⟩ s = .ok status (s.write r' n) ∧
      DetachedBy env s (r.detour i) status n ∧
      (status ≠ .success ∧ (r.detour i).trampoline ≠ 0 ∧ r' = r ∨
        status = .success ∧ r' = r.setDetour i { r.detour i with trampoline := 0 }) := by
  rw [ddkDetachDetour, bind_ok (getDetour_ok h i)]
  by_cases hnone : (r.detour i).trampoline = 0
  · rw [if_pos hnone, pure_run]
    refine ⟨.success, s.transactions, r, ?_, fun hne => absurd hnone hne,
      Or.inr ⟨rfl, (setDetour_untrampolined hnone).symm⟩⟩
    rw [h.write_self]
  · rcases ddkUpdateDetour_spec h i false with ⟨status, r₁, hupdate, houtcome, hr₁⟩
    rw [if_neg hnone, bind_ok hupdate]
    rcases hr₁ with ⟨hstatus, rfl⟩ | ⟨hstatus, t, -, rfl⟩
    · rw [if_neg (mt ntSuccess_iff.1 hstatus), pure_run]
      exact ⟨status, _, r₁, rfl, fun _ => ⟨rfl, houtcome⟩, Or.inl ⟨hstatus, hnone, rfl⟩⟩
    · have hhas := h.write (r.setDetour i { r.detour i with trampoline := t }) rfl
        (s.transactions + 1)
      rw [if_pos (ntSuccess_iff.2 hstatus), bind_ok (getDetour_ok hhas i),
        bind_ok (setDetour_ok hhas i _), pure_run, State.write_write setDetour_address,
        detour_setDetour_self hi, setDetour_setDetour]
      exact ⟨status, _, _, rfl, fun _ => ⟨rfl, houtcome⟩, Or.inr ⟨hstatus, rfl⟩⟩

/-! ## Detours -/

theorem giveUpDetour_attached (h : s.Has b r) (hattached : (r.detour i).trampoline ≠ 0) :
    giveUpDetour ⟨b, i⟩ s = .ok () s := by
  rw [giveUpDetour, bind_ok (getDetour_ok h i), if_neg (by simp [hattached]), pure_run]

theorem giveUpDetour_detached {f : Address} (h : s.Has b r) (hd : r.detour i = ⟨f, 0, []⟩)
    (hf : f ≠ 0) :
    giveUpDetour ⟨b, i⟩ s = .ok () (s.write (r.givenUp i) s.transactions) := by
  have hhas := h.write (r.setDetour i .zero) rfl s.transactions
  rw [giveUpDetour, bind_ok (getDetour_ok h i), hd, if_pos (by simp [hf])]
  show (setDetour ⟨b, i⟩ .zero >>= _) s = _
  rw [bind_ok (setDetour_ok h i _), bind_ok (getRegion_ok hhas), setRegion_run]
  exact congrArg _ (State.write_write rfl)

theorem lowerHwm_ok (h : s.Has b r) : lowerHwm b s = .ok () (s.write r.lowered s.transactions) := by
  rw [lowerHwm, bind_ok (getRegion_ok h), setRegion_run]
  rfl

/-- A detour that has lost its intercepts is given up, or kept when it cannot be detached. -/
theorem ddkFreeDetour_spec (h : s.Has b r) (hempty : (r.detour i).intercepts = [])
    (hused : (r.detour i).function ≠ 0) :
    ∃ status n r', ddkFreeDetour env ⟨b, i⟩ s = (do ddkFreeRegion b; pure status) (s.write r' n) ∧
      DetachedBy env s (r.detour i) status n ∧
      (status ≠ .success ∧ (r.detour i).trampoline ≠ 0 ∧ r' = r.lowered ∨
        status = .success ∧ r' = r.cleared i) := by
  have hi := lt_length_of_used hused
  rcases ddkDetachDetour_spec h hi with ⟨status, n, r₁, hdetach, houtcome, hr₁⟩
  rw [ddkFreeDetour, bind_ok (getDetour_ok h i), if_neg (not_not.2 hempty), bind_ok hdetach]
  rcases hr₁ with ⟨hstatus, hattached, rfl⟩ | ⟨hstatus, rfl⟩
  · have hhas := h.write r₁ rfl n
    rw [bind_ok (giveUpDetour_attached hhas hattached), bind_ok (lowerHwm_ok hhas),
      State.write_write lowered_address]
    exact ⟨status, _, _, rfl, houtcome, Or.inl ⟨hstatus, hattached, rfl⟩⟩
  · have hdetached : ({ r.detour i with trampoline := 0 } : Detour) =
        ⟨(r.detour i).function, 0, []⟩ := by
      rw [← hempty]
    rw [hdetached]
    have hhas := h.write (r.setDetour i ⟨(r.detour i).function, 0, []⟩) rfl n
    have hhas' := h.write (r.givenUp i) rfl n
    rw [bind_ok (giveUpDetour_detached hhas (detour_setDetour_self hi) hused), givenUp_setDetour,
      State.write_write (by rfl), State.write_transactions, bind_ok (lowerHwm_ok hhas'),
      State.write_write lowered_address]
    exact ⟨status, _, _, rfl, houtcome, Or.inr ⟨hstatus, rfl⟩⟩

end Wdutf.Detours
