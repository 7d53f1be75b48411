import Wdutf.Timer.Fate

/-!
# Wdutf.Timer.OneShot — a timer without a period

* `oneShot_fires_or_is_cancelled` — in every run in which `KeSetTimerEx` is called without a
  period, the call after an arming returns `FALSE` if the callback has signaled the timer and
  inserted the `Dpc` of the arming, once, and `TRUE` if it has done neither; and the callback
  does nothing for the arming afterwards.
-/

namespace Wdutf.Timer

open Wdutf.Threads Wdutf.Transition

variable {D T : Type}

/-! ## Steps -/

section Steps

variable {g : Ghost T} {c : Conf (Shared D T) T (Pc D)} {t : T} {s' : Shared D T} {l l' : Pc D}

/-- The conclusion of a step for the rule of `Wdutf.Lib.Threads`. -/
def StepOk (g : Ghost T) (c : Conf (Shared D T) T (Pc D)) (t : T) (s' : Shared D T) (l' : Pc D) :
    Prop :=
  ∃ g', TimerOk g' s' ∧ AtPoint t g' s' l' ∧
    ∀ u, u ≠ t → AtPoint u g c.shared (c.pc u) → AtPoint u g' s' (c.pc u)

/-- It follows from what the others rely on. -/
theorem stepOk_of {g' : Ghost T} (hok : TimerOk g' s')
    (hmine : ∀ k, g'.fate k = .firing t → l'.firing = some k)
    (hpoint : Point t g' s' l') (hrely : ∀ u, u ≠ t → Rely u g c.shared g' s') :
    StepOk g c t s' l' :=
  ⟨g', hok, ⟨hmine, hpoint⟩, fun u hu hat => atPoint_stable hat (hrely u hu)⟩

/-- The caller exchanges the state. -/
theorem stepOk_exchange {r : Request D} (hok : TimerOk g c.shared)
    (hcaller : c.shared.caller = some t) (htaken : g.taken = none) (hplain : r.Plain)
    (hmine : ∀ k, g.fate k ≠ .firing t) :
    StepOk g c t { c.shared with state := .idle, current := none }
      (.stopClock c.shared.current (c.shared.state = .active) r) := by
  have hok' := hok.exchanged hcaller htaken
  have hrely : ∀ u, u ≠ t → Rely u g c.shared ⟨g.fate, c.shared.current⟩
      { c.shared with state := .idle, current := none } := fun u hu =>
    rely_call hu hcaller c.shared.current (fun h => ⟨h, rfl⟩) (fun _ _ _ => nofun) (fun _ _ h => h)
      (fun _ => ⟨rfl, rfl⟩)
  by_cases hactive : c.shared.state = .active
  · -- the callback has lost: its arming is cancelled
    cases hcurrent : c.shared.current with
    | none => exact absurd hactive (hok.noCurrent hcurrent)
    | some k =>
      rcases hok.current k hcurrent with ⟨hdpc, ⟨-, harmed⟩ | ⟨h, -⟩⟩
      swap
      · exact absurd hactive h
      have hk : k < c.shared.armings.length := (List.getElem?_eq_some_iff.1 hdpc).1
      have htally := hok.tally k
      rw [harmed] at htally
      rw [hcurrent] at hok' hrely
      have hopen : (g.fate k).Open := by
        rw [harmed]
        trivial
      refine stepOk_of (hok'.seal (f := .cancelled) hk hopen htally nofun nofun) ?_
        ⟨⟨hcaller, rfl, rfl⟩, ?_, hplain⟩ ?_
      · intro j hj
        by_cases hne : j = k
        · simp [hne] at hj
        · exact absurd (by simpa [hne] using hj) (hmine j)
      · intro j hj
        cases hj
        exact Or.inl ⟨by simp [hactive], by simp⟩
      · intro u hu
        refine (hrely u hu).seal hopen ?_ nofun ?_ <;> rw [harmed] <;> exact nofun
  · -- the callback has won, if there was an arming
    refine stepOk_of hok' (fun k h => absurd h (hmine k)) ⟨⟨hcaller, rfl, rfl⟩, ?_, hplain⟩ hrely
    intro k hk
    refine Or.inr ⟨by simp [hactive], ?_⟩
    rcases (hok.current k hk).2 with ⟨h, -⟩ | ⟨-, hfires⟩
    · exact absurd h hactive
    · exact hfires

/-- The callback finds the state active. -/
theorem stepOk_active {k : ℕ} (hok : TimerOk g c.shared) (hactive : c.shared.state = .active)
    (hrunning : t ∈ c.shared.running) (honly : OnlyCurrent c.shared k)
    (hmine : ∀ k, g.fate k ≠ .firing t) :
    StepOk g c t { c.shared with state := .done } (.callbackSignal k) := by
  -- the state is that of the arming of the callback
  have hcurrent : c.shared.current = some k := by
    cases h : c.shared.current with
    | none => exact absurd hactive (hok.noCurrent h)
    | some j => rw [honly j h]
  rcases hok.current k hcurrent with ⟨hdpc, ⟨-, harmed⟩ | ⟨h, -⟩⟩
  swap
  · exact absurd hactive h
  have hk : k < c.shared.armings.length := (List.getElem?_eq_some_iff.1 hdpc).1
  have htally := hok.tally k
  rw [harmed] at htally
  have hopen : (g.fate k).Open := by
    rw [harmed]
    trivial
  refine stepOk_of (hok.seal (f := .firing t) hk hopen trivial ?_ nofun) ?_ ?_ ?_
  · intro j hj
    rw [honly j hj, Function.update_self]
    exact Or.inr ⟨nofun, trivial⟩
  · intro j hj
    by_cases hne : j = k
    · rw [hne]
      rfl
    · exact absurd (by simpa [hne] using hj) (hmine j)
  · exact ⟨hrunning, Function.update_self .., htally.1, htally.2, hdpc⟩
  · intro u hu
    have hrely : Rely u g c.shared g { c.shared with state := .done } :=
      { Rely.refl u g c.shared with }
    refine hrely.seal hopen ?_ ?_ (fun _ => trivial)
    · rw [harmed]
      exact nofun
    · intro h
      cases h
      exact hu rfl

/-- The callback has done what it does for its arming. -/
theorem stepOk_finish {k : ℕ} (hok : TimerOk g s') (hfate : g.fate k = .firing t)
    (hrunning : t ∈ s'.running) (dpc : Option D) (hdpc : s'.armings[k]? = some dpc)
    (hsignals : signals k s'.history = 1) (hinsertions : insertions k s'.history = expected dpc)
    (hmine : ∀ j, g.fate j = .firing t → some k = some j)
    (hrely : ∀ u, u ≠ t → Rely u g c.shared g s') : StepOk g c t s' .callbackEnd := by
  have hk : k < s'.armings.length := (List.getElem?_eq_some_iff.1 hdpc).1
  have htally : Tally s' k (.fired : Fate T) := by
    refine ⟨hsignals, fun dpc' hdpc' => ?_⟩
    rw [hdpc] at hdpc'
    cases hdpc'
    exact hinsertions
  have hopen : (g.fate k).Open := by
    rw [hfate]
    trivial
  refine stepOk_of (hok.seal (f := .fired) hk hopen htally ?_ hok.noCurrent) ?_ hrunning ?_
  · intro j hj
    by_cases hne : j = k
    · subst hne
      rw [Function.update_self]
      rcases (hok.current j hj).2 with ⟨-, h⟩ | ⟨h, -⟩
      · rw [hfate] at h
        cases h
      · exact Or.inr ⟨h, trivial⟩
    · rw [Function.update_of_ne hne]
      exact (hok.current j hj).2
  · intro j hj
    by_cases hne : j = k
    · simp [hne] at hj
    · have hj : g.fate j = .firing t := by simpa [hne] using hj
      exact absurd (Option.some.inj (hmine j hj)).symm hne
  · intro u hu
    refine (hrely u hu).seal hopen ?_ nofun (fun _ => trivial)
    rw [hfate]
    intro h
    cases h
    exact hu rfl

variable [DecidableEq T]

/-- Every step keeps the assertions. -/
theorem timer_step (hok : TimerOk g c.shared) (hall : ∀ u, AtPoint u g c.shared (c.pc u))
    (hact : Act (· = 0) t c.shared (c.pc t) s' l') : StepOk g c t s' l' := by
  have hat := hall t
  generalize hl : c.pc t = l at hact hat
  have hmine := hat.mine
  have hpoint := hat.point
  cases hact with
  -- the calls: no other call is in progress, and no state has been taken
  | cancelCall hfree =>
    refine stepOk_of { hok with taken := nofun } hmine ⟨rfl, hok.taken hfree, trivial⟩ ?_
    intro u _
    refine { Rely.refl u g c.shared with caller := ?_ }
    intro h
    rw [hfree] at h
    cases h
  | setCall dpc period hperiod hfree =>
    refine stepOk_of { hok with taken := nofun } hmine ⟨rfl, hok.taken hfree, hperiod⟩ ?_
    intro u _
    refine { Rely.refl u g c.shared with caller := ?_ }
    intro h
    rw [hfree] at h
    cases h
  | @exchange r =>
    rcases hpoint with ⟨hcaller, htaken, hplain⟩
    exact stepOk_exchange hok hcaller htaken hplain (fun k h => nomatch hmine k h)
  -- the caller stops the clock, drops what is pending and waits for what runs
  | stopClock =>
    rcases hpoint with ⟨hcalling, hdecided, hplain⟩
    exact stepOk_of { hok with clock := nofun } hmine
      ⟨⟨hcalling.caller, hcalling.current, hcalling.taken⟩, hdecided, hplain, rfl⟩
      (fun u hu => rely_write hu hcalling.caller none c.shared.pending c.shared.period
        c.shared.event)
  | cancelPending =>
    rcases hpoint with ⟨hcalling, hdecided, hplain, hclock⟩
    exact stepOk_of { hok with pending := nofun } hmine
      ⟨⟨hcalling.caller, hcalling.current, hcalling.taken⟩, hdecided, hplain, hclock, rfl⟩
      (fun u hu => rely_write hu hcalling.caller c.shared.clock [] c.shared.period c.shared.event)
  | waitCancel hrunning =>
    rcases hpoint with ⟨hcalling, hdecided, -⟩
    exact stepOk_of hok hmine
      ⟨hcalling.caller, hcalling.taken, settled_of_decided hall hrunning hdecided⟩
      (fun u _ => Rely.refl u g c.shared)
  | waitSet hrunning =>
    rcases hpoint with ⟨hcalling, hdecided, hplain, hclock, hpending⟩
    exact stepOk_of hok hmine
      ⟨hcalling, settled_of_decided hall hrunning hdecided, hplain, hclock, hpending, hrunning⟩
      (fun u _ => Rely.refl u g c.shared)
  -- nothing can fire while the members are rewritten
  | setDpc =>
    rcases hpoint with ⟨hcalling, hsettled, hperiod, hq⟩
    refine stepOk_of { hok with current := ?_ } hmine
      ⟨⟨hcalling.caller, hcalling.current, hcalling.taken⟩, hsettled, hperiod,
        ⟨hq.clock, hq.pending, hq.running⟩, rfl⟩ ?_
    · intro k hk
      rw [hcalling.current] at hk
      cases hk
    · intro u hu
      exact rely_call hu hcalling.caller g.taken (hq.idle u) (hq.idle u) (fun _ _ h => h)
        (fun _ => ⟨rfl, rfl⟩)
  | setPeriod =>
    rcases hpoint with ⟨hcalling, hsettled, hperiod, hq, hdpc⟩
    exact stepOk_of { hok with period := hperiod } hmine
      ⟨⟨hcalling.caller, hcalling.current, hcalling.taken⟩, hsettled, hperiod,
        ⟨hq.clock, hq.pending, hq.running⟩, hdpc⟩
      (fun u hu => rely_write hu hcalling.caller c.shared.clock c.shared.pending _ c.shared.event)
  | setState =>
    rcases hpoint with ⟨hcalling, hsettled, hperiod, hq, rfl⟩
    refine stepOk_of (hok.arm hcalling.current hq) hmine
      ⟨hcalling.caller, hcalling.taken, hsettled, hperiod, rfl⟩ ?_
    intro u hu
    refine rely_call hu hcalling.caller g.taken (hq.idle u) (hq.idle u) ?_ (fun _ => ⟨rfl, rfl⟩)
    intro k dpc hk
    rw [List.getElem?_append_left (List.getElem?_eq_some_iff.1 hk).1]
    exact hk
  | resetEvent =>
    rcases hpoint with ⟨hcaller, hrest⟩
    exact stepOk_of { hok with } hmine ⟨hcaller, hrest⟩
      (fun u hu => rely_write hu hcaller c.shared.clock c.shared.pending c.shared.period false)
  | @startClock after rc k period =>
    -- what the clock starts later is for the arming just made
    rcases hpoint with ⟨hcaller, htaken, hsettled, hperiod, hcurrent⟩
    refine stepOk_of { hok with clock := ?_ } hmine ⟨hcaller, htaken, hsettled⟩
      (fun u hu => rely_write hu hcaller (some (k, period)) c.shared.pending c.shared.period
        c.shared.event)
    intro k' period' hclock
    cases hclock
    refine ⟨hperiod, fun j hj => ?_⟩
    have hj : c.shared.current = some j := hj
    rw [hcurrent] at hj
    exact (Option.some.inj hj).symm
  | leave =>
    rcases hpoint with ⟨hcaller, htaken, hsettled⟩
    exact stepOk_of (hok.leave htaken hsettled) hmine trivial
      (fun u hu => rely_call hu hcaller none (fun h => ⟨h, rfl⟩) (fun _ _ h => h) (fun _ _ h => h)
        (fun k => ⟨signals_returns .., insertions_returns ..⟩))
  | @expire k period hclock =>
    -- the period is 0, so the clock stops
    rcases hok.clock k period hclock with ⟨rfl, honly⟩
    refine stepOk_of { hok with clock := ?_, pending := ?_ } hmine trivial ?_
    · rw [if_pos rfl]
      exact nofun
    · intro j hj
      rcases List.mem_cons.1 hj with rfl | hj
      · exact honly
      · exact hok.pending j hj
    · intro u _
      refine { Rely.refl u g c.shared with clock := ?_, pending := ?_ }
      · intro _ hnone
        rw [hclock] at hnone
        cases hnone
      · intro _ hnone
        rw [hclock] at hnone
        cases hnone
  | callbackStart k hk =>
    -- a quiescent timer has nothing pending, so nobody relies on it here
    refine stepOk_of { hok with pending := ?_ } hmine
      ⟨List.mem_cons_self, hok.pending k hk⟩ ?_
    · exact fun j hj => hok.pending j (List.mem_of_mem_erase hj)
    · intro u _
      refine { Rely.refl u g c.shared with
        pending := ?_, running := ?_, busy := fun h => ⟨List.mem_cons_of_mem _ h, rfl⟩ }
      · intro _ _ hnone
        rw [hnone] at hk
        cases hk
      · intro _ hnone
        rw [hnone] at hk
        cases hk
  | callbackPeriodic hperiod => exact absurd hok.period hperiod
  | callbackPeriod => exact stepOk_of hok hmine hpoint (fun u _ => Rely.refl u g c.shared)
  | @callbackActive k hactive =>
    exact stepOk_active hok hactive hpoint.1 hpoint.2 (fun k h => nomatch hmine k h)
  | callbackInactive => exact stepOk_of hok hmine hpoint.1 (fun u _ => Rely.refl u g c.shared)
  | @callbackSignal k =>
    have hfiring : Firing t g c.shared k 0 := hpoint
    have hok' := hok.record hfiring.fate (Or.inl rfl)
    refine stepOk_of { hok' with } hmine ?_
      (fun u hu => rely_record hu hfiring.fate (Or.inl rfl) true)
    exact {
      running := hfiring.running
      fate := hfiring.fate
      signals := by simp [signals, hfiring.signals]
      insertions := hfiring.insertions
      dpc := hfiring.dpc }
  | callbackDpc hdpc => exact stepOk_of hok hmine ⟨hpoint, hdpc⟩ (fun u _ => Rely.refl u g c.shared)
  | @callbackNoDpc k hdpc =>
    have hfiring : Firing t g c.shared k 1 := hpoint
    refine stepOk_finish hok hfiring.fate hfiring.running none ?_ hfiring.signals
      hfiring.insertions hmine (fun u _ => Rely.refl u g c.shared)
    rw [hfiring.dpc, hdpc]
  | @callbackInsert k =>
    rcases hpoint with ⟨hfiring, hdpc⟩
    refine stepOk_finish (hok.record hfiring.fate (Or.inr ⟨_, rfl⟩)) hfiring.fate hfiring.running
      c.shared.dpc hfiring.dpc hfiring.signals ?_ hmine
      (fun u hu => rely_record hu hfiring.fate (Or.inr ⟨_, rfl⟩) c.shared.event)
    cases hgiven : c.shared.dpc with
    | none => exact absurd hgiven hdpc
    | some dpc => simp [insertions, expected, hfiring.insertions]
  | callbackEnd =>
    refine stepOk_of { hok with } hmine trivial ?_
    intro u hu
    refine { Rely.refl u g c.shared with
      running := ?_, busy := fun h => ⟨(List.mem_erase_of_ne hu).2 h, rfl⟩ }
    intro _ _ hnone
    show c.shared.running.erase t = []
    rw [hnone]
    rfl

end Steps

/-! ## Runs -/

section Runs

variable [DecidableEq T] {ts : List T} {c : Conf (Shared D T) T (Pc D)}

omit [DecidableEq T] in
/-- Nothing has happened at first. -/
theorem init_ok (h : Init c) : Holds TimerOk AtPoint c := by
  rcases h with ⟨hshared, hidle⟩
  refine ⟨⟨fun _ => .armed, none⟩, ?_, fun t => ⟨nofun, ?_⟩⟩
  · rw [hshared]
    exact {
      period := rfl
      current := nofun
      noCurrent := nofun
      clock := nofun
      pending := nofun
      tally := fun _ => ⟨rfl, rfl⟩
      fresh := fun _ _ => rfl
      returned := nofun
      inTime := trivial
      accounted := nofun
      taken := fun _ => rfl }
  · rw [hidle]
    trivial

/-- The assertions hold after every run without periods. -/
theorem run_ok (h : Run (· = 0) ts c) : Holds TimerOk AtPoint c :=
  invariant (fun _ => init_ok) (fun _ _ _ _ _ hok hall hact => timer_step hok hall hact) h

/-- What the armings come to. The history has the latest event first. -/
structure FiresOrIsCancelled (s : Shared D T) : Prop where
  followed : ∀ k rc later earlier, s.history = later ++ .returned k rc :: earlier →
    (rc = false ∧ signals k earlier = 1 ∧
      ∃ dpc, s.armings[k]? = some dpc ∧ insertions k earlier = expected dpc) ∨
    (rc = true ∧ signals k earlier = 0 ∧ insertions k earlier = [])
  afterwards : ∀ k rc later earlier, s.history = later ++ .returned k rc :: earlier →
    signals k later = 0 ∧ insertions k later = []
  once : ∀ k, signals k s.history ≤ 1
  /-- Between the calls, only the last arming is not followed by a call. -/
  returned : s.caller = none →
    ∀ k < s.armings.length, s.current = some k ∨ ∃ rc, .returned k rc ∈ s.history

omit [DecidableEq T] in
/-- A signal is seen once, by the fate of the arming. -/
theorem signals_le_one {g : Ghost T} {s : Shared D T} {pc : T → Pc D} (hok : TimerOk g s)
    (hall : ∀ t, AtPoint t g s (pc t)) (k : ℕ) : signals k s.history ≤ 1 := by
  have htally := hok.tally k
  cases hfate : g.fate k with
  | armed =>
    rw [hfate] at htally
    exact Nat.le_succ_of_le (Nat.le_of_eq htally.1)
  | firing t =>
    -- the callback knows what it has done
    have hfiring := (hall t).mine k hfate
    have hpoint := (hall t).point
    generalize pc t = l at hfiring hpoint
    cases l with
    | callbackSignal j =>
      cases hfiring
      exact Nat.le_succ_of_le (Nat.le_of_eq hpoint.signals)
    | callbackDpc j =>
      cases hfiring
      exact Nat.le_of_eq hpoint.signals
    | callbackInsert j =>
      cases hfiring
      exact Nat.le_of_eq hpoint.1.signals
    | _ => cases hfiring
  | fired =>
    rw [hfate] at htally
    exact Nat.le_of_eq htally.1
  | cancelled =>
    rw [hfate] at htally
    exact Nat.le_succ_of_le (Nat.le_of_eq htally.1)

/-- Every arming that is followed by a call has fired before the call returns, or never does. -/
theorem oneShot_fires_or_is_cancelled (h : Run (· = 0) ts c) : FiresOrIsCancelled c.shared := by
  rcases run_ok h with ⟨g, hok, hall⟩
  have hafter : ∀ k rc later earlier, c.shared.history = later ++ .returned k rc :: earlier →
      signals k later = 0 ∧ insertions k later = [] := by
    intro k rc later earlier hhistory
    have hinTime := hok.inTime
    rw [hhistory] at hinTime
    exact hinTime.after
  constructor
  case followed =>
    intro k rc later earlier hhistory
    rcases hafter k rc later earlier hhistory with ⟨hsignals, hinsertions⟩
    have hmem : Event.returned k rc ∈ c.shared.history := by simp [hhistory]
    have htally := hok.tally k
    -- all that happened was before the return
    have hearlier : signals k c.shared.history = signals k earlier ∧
        insertions k c.shared.history = insertions k earlier := by
      rw [hhistory, signals_append, insertions_append, hsignals, hinsertions]
      exact ⟨Nat.zero_add _, rfl⟩
    rcases hok.returned k rc hmem k rfl with ⟨hrc, hfate⟩ | ⟨hrc, hfate⟩
    · rw [hfate] at htally
      exact Or.inr ⟨hrc, hearlier.1 ▸ htally.1, hearlier.2 ▸ htally.2⟩
    · have hk : k < c.shared.armings.length := by
        by_contra hk
        have harmed := hok.fresh k (Nat.not_lt.1 hk)
        rw [hfate] at harmed
        cases harmed
      have hdpc := List.getElem?_eq_getElem hk
      rw [hfate] at htally
      exact Or.inl ⟨hrc, hearlier.1 ▸ htally.1, _, hdpc, hearlier.2 ▸ htally.2 _ hdpc⟩
  case afterwards => exact hafter
  case once => exact signals_le_one hok hall
  case returned =>
    intro hfree k hk
    rcases hok.accounted k hk with hcurrent | htaken | hreturned
    · exact Or.inl hcurrent
    · rw [hok.taken hfree] at htaken
      cases htaken
    · exact Or.inr hreturned

end Runs

/-- A timer that is armed, fires, and is cancelled too late. -/
theorem oneShot_fires : ∃ (ts : List Bool) (c : Conf (Shared ℕ Bool) Bool (Pc ℕ)),
    Run (· = 0) ts c ∧ c.shared.history = [.returned 0 false, .inserted 0 (some 7), .signaled 0] ∧
    FiresOrIsCancelled c.shared := by
  have h0 : Run (· = 0) [] (⟨initial, fun _ => .idle⟩ : Conf (Shared ℕ Bool) Bool (Pc ℕ)) :=
    .start ⟨rfl, fun _ => rfl⟩
  -- `KeSetTimerEx`
  have h1 := run_step h0 false (Act.setCall (some 7) 0 rfl rfl)
  have h2 := run_step h1 false Act.exchange
  have h3 := run_step h2 false Act.stopClock
  have h4 := run_step h3 false Act.cancelPending
  have h5 := run_step h4 false (Act.waitSet rfl)
  have h6 := run_step h5 false Act.setDpc
  have h7 := run_step h6 false Act.setPeriod
  have h8 := run_step h7 false Act.setState
  have h9 := run_step h8 false Act.resetEvent
  have h10 := run_step h9 false Act.startClock
  have h11 := run_step h10 false Act.leave
  -- the callback
  have h12 := run_step h11 true (Act.expire rfl)
  have h13 := run_step h12 true (Act.callbackStart 0 (by decide))
  have h14 := run_step h13 true (Act.callbackPeriod rfl)
  have h15 := run_step h14 true (Act.callbackActive rfl)
  have h16 := run_step h15 true Act.callbackSignal
  -- `KeCancelTimer` waits for it
  have h17 := run_step h16 false (Act.cancelCall rfl)
  have h18 := run_step h17 false Act.exchange
  have h19 := run_step h18 false Act.stopClock
  have h20 := run_step h19 false Act.cancelPending
  have h21 := run_step h20 true (Act.callbackDpc nofun)
  have h22 := run_step h21 true Act.callbackInsert
  have h23 := run_step h22 true Act.callbackEnd
  have h24 := run_step h23 false (Act.waitCancel rfl)
  have h25 := run_step h24 false Act.leave
  exact ⟨_, _, h25, rfl, oneShot_fires_or_is_cancelled h25⟩

end Wdutf.Timer
