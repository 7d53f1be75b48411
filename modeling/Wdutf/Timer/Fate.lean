import Wdutf.Timer.Model

/-!
# Wdutf.Timer.Fate — what becomes of an arming

An arming is *armed* until the exchange of a call or the compare-exchange of the callback finds
the state active: then it is *cancelled*, or it is *firing*, and *fired* when the callback ends.

* `TimerOk` — what holds of the timer and of the history, by the fates of the armings;
* `Point` — what a thread relies on at each point of its program;
* `atPoint_stable` — the steps of the other threads leave it alone.

What a callback reads after the compare-exchange is still that of its arming, because the call that
would change it waits for the callback.
-/

namespace Wdutf.Timer

open Wdutf.Threads Wdutf.Transition

variable {D T : Type}

/-! ## What is observed -/

/-- How often the timer has been signaled for an arming. -/
def signals (k : ℕ) : List (Event D) → ℕ
  | [] => 0
  | .signaled j :: history => (if j = k then 1 else 0) + signals k history
  | .inserted _ _ :: history => signals k history
  | .returned _ _ :: history => signals k history

/-- The arguments of `KeInsertQueueDpc` for an arming. -/
def insertions (k : ℕ) : List (Event D) → List (Option D)
  | [] => []
  | .signaled _ :: history => insertions k history
  | .inserted j dpc :: history =>
      if j = k then dpc :: insertions k history else insertions k history
  | .returned _ _ :: history => insertions k history

/-- They are, for an arming that fires: its `Dpc`, once, if it has one. -/
def expected : Option D → List (Option D)
  | none => []
  | some dpc => [some dpc]

/-- Nothing happens for an arming after the call that follows it has returned. -/
def InTime : List (Event D) → Prop
  | [] => True
  | .signaled k :: history => (∀ rc, .returned k rc ∉ history) ∧ InTime history
  | .inserted k _ :: history => (∀ rc, .returned k rc ∉ history) ∧ InTime history
  | .returned _ _ :: history => InTime history

@[simp]
theorem signals_returns (k : ℕ) (after : Option ℕ) (rc : Bool) (history : List (Event D)) :
    signals k (returns after rc ++ history) = signals k history := by
  cases after with
  | none => rfl
  | some j => rfl

@[simp]
theorem insertions_returns (k : ℕ) (after : Option ℕ) (rc : Bool) (history : List (Event D)) :
    insertions k (returns after rc ++ history) = insertions k history := by
  cases after with
  | none => rfl
  | some j => rfl

theorem InTime.returns {history : List (Event D)} (h : InTime history) (after : Option ℕ)
    (rc : Bool) :
    InTime (returns after rc ++ history) := by
  cases after with
  | none => exact h
  | some j => exact h

theorem InTime.tail {e : Event D} {history : List (Event D)} (h : InTime (e :: history)) :
    InTime history := by
  cases e with
  | signaled k => exact h.2
  | inserted k dpc => exact h.2
  | returned k rc => exact h

theorem signals_append (k : ℕ) (later earlier : List (Event D)) :
    signals k (later ++ earlier) = signals k later + signals k earlier := by
  induction later with
  | nil => exact (Nat.zero_add _).symm
  | cons e later ih =>
    cases e with
    | signaled j => simp [signals, ih, Nat.add_assoc]
    | inserted j dpc => exact ih
    | returned j rc => exact ih

theorem insertions_append (k : ℕ) (later earlier : List (Event D)) :
    insertions k (later ++ earlier) = insertions k later ++ insertions k earlier := by
  induction later with
  | nil => rfl
  | cons e later ih =>
    cases e with
    | signaled j => exact ih
    | inserted j dpc =>
      by_cases hj : j = k
      · simp [insertions, hj, ih]
      · simp [insertions, hj, ih]
    | returned j rc => exact ih

/-- The events after the return. -/
theorem InTime.after {later earlier : List (Event D)} {k : ℕ} {rc : Bool}
    (h : InTime (later ++ .returned k rc :: earlier)) :
    signals k later = 0 ∧ insertions k later = [] := by
  induction later with
  | nil => exact ⟨rfl, rfl⟩
  | cons e later ih =>
    have hrest := ih (InTime.tail h)
    have hmem : Event.returned k rc ∈ later ++ .returned k rc :: earlier := by simp
    cases e with
    | signaled j =>
      have hne : j ≠ k := by
        rintro rfl
        exact h.1 rc hmem
      simpa [signals, insertions, hne] using hrest
    | inserted j dpc =>
      have hne : j ≠ k := by
        rintro rfl
        exact h.1 rc hmem
      simpa [signals, insertions, hne] using hrest
    | returned j rc' => exact hrest

/-! ## The invariant -/

/-- What became of an arming. -/
inductive Fate (T : Type) where
  | armed
  | firing (t : T)
  | fired
  | cancelled

/-- The callback has won. -/
def Fate.Fires : Fate T → Prop
  | .firing _ => True
  | .fired => True
  | _ => False

/-- Neither the callback nor a call is done with the arming. -/
def Fate.Open : Fate T → Prop
  | .armed => True
  | .firing _ => True
  | _ => False

theorem Fate.Open.ne_fired {f : Fate T} (h : f.Open) : f ≠ .fired := by
  rintro rfl
  exact h

theorem Fate.Open.ne_cancelled {f : Fate T} (h : f.Open) : f ≠ .cancelled := by
  rintro rfl
  exact h

/-- What became of the armings, and the arming that a call under way follows. -/
structure Ghost (T : Type) where
  fate : ℕ → Fate T
  taken : Option ℕ

/-- What has been observed of an arming, by its fate. -/
def Tally (s : Shared D T) (k : ℕ) : Fate T → Prop
  | .armed => signals k s.history = 0 ∧ insertions k s.history = []
  | .firing _ => True
  | .fired => signals k s.history = 1 ∧
      ∀ dpc, s.armings[k]? = some dpc → insertions k s.history = expected dpc
  | .cancelled => signals k s.history = 0 ∧ insertions k s.history = []

/-- Events of other armings do not count. -/
theorem Tally.congr {s : Shared D T} {k : ℕ} {f : Fate T} (h : Tally s k f)
    {history : List (Event D)}
    (hsignals : signals k history = signals k s.history)
    (hinsertions : insertions k history = insertions k s.history) (caller : Option T) :
    Tally { s with caller := caller, history := history } k f := by
  cases f with
  | armed => exact ⟨hsignals.trans h.1, hinsertions.trans h.2⟩
  | firing t => trivial
  | fired => exact ⟨hsignals.trans h.1, fun dpc hdpc => hinsertions.trans (h.2 dpc hdpc)⟩
  | cancelled => exact ⟨hsignals.trans h.1, hinsertions.trans h.2⟩

/-- What a call has to return: while the callback may still run, and after that. -/
def Decided (g : Ghost T) (after : Option ℕ) (rc : Bool) : Prop :=
  ∀ k, after = some k → (rc = true ∧ g.fate k = .cancelled) ∨ (rc = false ∧ (g.fate k).Fires)

def Settled (g : Ghost T) (after : Option ℕ) (rc : Bool) : Prop :=
  ∀ k, after = some k → (rc = true ∧ g.fate k = .cancelled) ∨ (rc = false ∧ g.fate k = .fired)

/-- No arming but this one can be found active. -/
def OnlyCurrent (s : Shared D T) (k : ℕ) : Prop := ∀ j, s.current = some j → j = k

/-- The assertion about the timer. -/
structure TimerOk (g : Ghost T) (s : Shared D T) : Prop where
  period : s.period = 0
  current : ∀ k, s.current = some k → s.armings[k]? = some s.dpc ∧
    (s.state = .active ∧ g.fate k = .armed ∨ s.state ≠ .active ∧ (g.fate k).Fires)
  noCurrent : s.current = none → s.state ≠ .active
  clock : ∀ k period, s.clock = some (k, period) → period = 0 ∧ OnlyCurrent s k
  pending : ∀ k ∈ s.pending, OnlyCurrent s k
  tally : ∀ k, Tally s k (g.fate k)
  fresh : ∀ k, s.armings.length ≤ k → g.fate k = .armed
  returned : ∀ k rc, .returned k rc ∈ s.history → Settled g (some k) rc
  inTime : InTime s.history
  accounted : ∀ k < s.armings.length,
    s.current = some k ∨ g.taken = some k ∨ ∃ rc, .returned k rc ∈ s.history
  taken : s.caller = none → g.taken = none

/-- A call has exchanged the state, and not armed the timer. -/
structure Calling (t : T) (g : Ghost T) (s : Shared D T) (after : Option ℕ) : Prop where
  caller : s.caller = some t
  current : s.current = none
  taken : g.taken = after

/-- No callback runs, and none is going to. -/
structure Quiescent (s : Shared D T) : Prop where
  clock : s.clock = none
  pending : s.pending = []
  running : s.running = []

/-- A callback has found the state active, and has seen to `n` signals. -/
structure Firing (t : T) (g : Ghost T) (s : Shared D T) (k n : ℕ) : Prop where
  running : t ∈ s.running
  fate : g.fate k = .firing t
  signals : signals k s.history = n
  insertions : insertions k s.history = []
  dpc : s.armings[k]? = some s.dpc

/-- The call has no period. -/
def Request.Plain : Request D → Prop
  | .cancel => True
  | .set _ period => period = 0

/-- What a thread relies on at a point of its program. -/
def Point (t : T) (g : Ghost T) (s : Shared D T) : Pc D → Prop
  | .idle => True
  | .exchange r => s.caller = some t ∧ g.taken = none ∧ r.Plain
  | .stopClock after rc r => Calling t g s after ∧ Decided g after rc ∧ r.Plain
  | .cancelPending after rc r =>
      Calling t g s after ∧ Decided g after rc ∧ r.Plain ∧ s.clock = none
  | .waitCallbacks after rc r =>
      Calling t g s after ∧ Decided g after rc ∧ r.Plain ∧ s.clock = none ∧ s.pending = []
  | .setDpc after rc _ period =>
      Calling t g s after ∧ Settled g after rc ∧ period = 0 ∧ Quiescent s
  | .setPeriod after rc dpc period =>
      Calling t g s after ∧ Settled g after rc ∧ period = 0 ∧ Quiescent s ∧ s.dpc = dpc
  | .setState after rc dpc period =>
      Calling t g s after ∧ Settled g after rc ∧ period = 0 ∧ Quiescent s ∧ s.dpc = dpc
  | .resetEvent after rc k period =>
      s.caller = some t ∧ g.taken = after ∧ Settled g after rc ∧ period = 0 ∧ s.current = some k
  | .startClock after rc k period =>
      s.caller = some t ∧ g.taken = after ∧ Settled g after rc ∧ period = 0 ∧ s.current = some k
  | .leave after rc => s.caller = some t ∧ g.taken = after ∧ Settled g after rc
  | .callbackPeriod k => t ∈ s.running ∧ OnlyCurrent s k
  | .callbackCompare k => t ∈ s.running ∧ OnlyCurrent s k
  | .callbackSignal k => Firing t g s k 0
  | .callbackDpc k => Firing t g s k 1
  | .callbackInsert k => Firing t g s k 1 ∧ s.dpc ≠ none
  | .callbackEnd => t ∈ s.running

/-- The arming that a callback is firing. -/
def Pc.firing : Pc D → Option ℕ
  | .callbackSignal k => some k
  | .callbackDpc k => some k
  | .callbackInsert k => some k
  | _ => none

/-- The assertion about a thread. -/
structure AtPoint (t : T) (g : Ghost T) (s : Shared D T) (l : Pc D) : Prop where
  mine : ∀ k, g.fate k = .firing t → l.firing = some k
  point : Point t g s l

/-- What the steps of other threads leave alone. -/
structure Rely (u : T) (g : Ghost T) (s : Shared D T) (g' : Ghost T) (s' : Shared D T) : Prop where
  caller : s.caller = some u →
    s'.caller = some u ∧ s'.current = s.current ∧ g'.taken = g.taken ∧ s'.dpc = s.dpc
  clock : s.caller = some u → s.clock = none → s'.clock = none
  pending : s.caller = some u → s.clock = none → s.pending = [] → s'.pending = []
  running : s.caller = some u → s.pending = [] → s.running = [] → s'.running = []
  firing : ∀ k, g'.fate k = .firing u ↔ g.fate k = .firing u
  cancelled : ∀ k, g.fate k = .cancelled → g'.fate k = .cancelled
  fired : ∀ k, g.fate k = .fired → g'.fate k = .fired
  fires : ∀ k, (g.fate k).Fires → (g'.fate k).Fires
  busy : u ∈ s.running → u ∈ s'.running ∧ s'.dpc = s.dpc
  onlyCurrent : u ∈ s.running → ∀ k, OnlyCurrent s k → OnlyCurrent s' k
  armings : ∀ (k : ℕ) dpc, s.armings[k]? = some dpc → s'.armings[k]? = some dpc
  observed : ∀ k, g.fate k = .firing u →
    signals k s'.history = signals k s.history ∧ insertions k s'.history = insertions k s.history

section Stable

variable {u : T} {g g' : Ghost T} {s s' : Shared D T} {l : Pc D}

theorem Rely.refl (u : T) (g : Ghost T) (s : Shared D T) : Rely u g s g s where
  caller h := ⟨h, rfl, rfl, rfl⟩
  clock _ h := h
  pending _ _ h := h
  running _ _ h := h
  firing _ := Iff.rfl
  cancelled _ h := h
  fired _ h := h
  fires _ h := h
  busy h := ⟨h, rfl⟩
  onlyCurrent _ _ h := h
  armings _ _ h := h
  observed _ _ := ⟨rfl, rfl⟩

theorem Rely.decided (h : Rely u g s g' s') {after : Option ℕ} {rc : Bool}
    (hdecided : Decided g after rc) : Decided g' after rc := by
  intro k hk
  rcases hdecided k hk with ⟨hrc, hfate⟩ | ⟨hrc, hfate⟩
  · exact Or.inl ⟨hrc, h.cancelled k hfate⟩
  · exact Or.inr ⟨hrc, h.fires k hfate⟩

theorem Rely.settled (h : Rely u g s g' s') {after : Option ℕ} {rc : Bool}
    (hsettled : Settled g after rc) : Settled g' after rc := by
  intro k hk
  rcases hsettled k hk with ⟨hrc, hfate⟩ | ⟨hrc, hfate⟩
  · exact Or.inl ⟨hrc, h.cancelled k hfate⟩
  · exact Or.inr ⟨hrc, h.fired k hfate⟩

theorem Rely.calling (h : Rely u g s g' s') {after : Option ℕ} (hcalling : Calling u g s after) :
    Calling u g' s' after := by
  rcases h.caller hcalling.caller with ⟨hcaller, hcurrent, htaken, -⟩
  exact ⟨hcaller, hcurrent.trans hcalling.current, htaken.trans hcalling.taken⟩

theorem Rely.quiescent (h : Rely u g s g' s') (hcaller : s.caller = some u) (hq : Quiescent s) :
    Quiescent s' where
  clock := h.clock hcaller hq.clock
  pending := h.pending hcaller hq.clock hq.pending
  running := h.running hcaller hq.pending hq.running

theorem Rely.firingAt (h : Rely u g s g' s') {k n : ℕ} (hfiring : Firing u g s k n) :
    Firing u g' s' k n where
  running := (h.busy hfiring.running).1
  fate := (h.firing k).2 hfiring.fate
  signals := (h.observed k hfiring.fate).1.trans hfiring.signals
  insertions := (h.observed k hfiring.fate).2.trans hfiring.insertions
  dpc := by
    rw [(h.busy hfiring.running).2]
    exact h.armings k _ hfiring.dpc

/-- The assertion about a thread survives the steps of the others. -/
theorem atPoint_stable (hat : AtPoint u g s l) (h : Rely u g s g' s') : AtPoint u g' s' l := by
  refine ⟨fun k hk => hat.mine k ((h.firing k).1 hk), ?_⟩
  have hpoint := hat.point
  cases l with
  | idle => trivial
  | exchange r =>
    rcases hpoint with ⟨hcaller, htaken, hplain⟩
    rcases h.caller hcaller with ⟨hcaller', -, htaken', -⟩
    exact ⟨hcaller', htaken'.trans htaken, hplain⟩
  | stopClock after rc r =>
    rcases hpoint with ⟨hcalling, hdecided, hplain⟩
    exact ⟨h.calling hcalling, h.decided hdecided, hplain⟩
  | cancelPending after rc r =>
    rcases hpoint with ⟨hcalling, hdecided, hplain, hclock⟩
    exact ⟨h.calling hcalling, h.decided hdecided, hplain, h.clock hcalling.caller hclock⟩
  | waitCallbacks after rc r =>
    rcases hpoint with ⟨hcalling, hdecided, hplain, hclock, hpending⟩
    exact ⟨h.calling hcalling, h.decided hdecided, hplain, h.clock hcalling.caller hclock,
      h.pending hcalling.caller hclock hpending⟩
  | setDpc after rc dpc period =>
    rcases hpoint with ⟨hcalling, hsettled, hperiod, hq⟩
    exact ⟨h.calling hcalling, h.settled hsettled, hperiod, h.quiescent hcalling.caller hq⟩
  | setPeriod after rc dpc period =>
    rcases hpoint with ⟨hcalling, hsettled, hperiod, hq, hdpc⟩
    exact ⟨h.calling hcalling, h.settled hsettled, hperiod, h.quiescent hcalling.caller hq,
      (h.caller hcalling.caller).2.2.2.trans hdpc⟩
  | setState after rc dpc period =>
    rcases hpoint with ⟨hcalling, hsettled, hperiod, hq, hdpc⟩
    exact ⟨h.calling hcalling, h.settled hsettled, hperiod, h.quiescent hcalling.caller hq,
      (h.caller hcalling.caller).2.2.2.trans hdpc⟩
  | resetEvent after rc k period =>
    rcases hpoint with ⟨hcaller, htaken, hsettled, hperiod, hcurrent⟩
    rcases h.caller hcaller with ⟨hcaller', hcurrent', htaken', -⟩
    exact ⟨hcaller', htaken'.trans htaken, h.settled hsettled, hperiod, hcurrent'.trans hcurrent⟩
  | startClock after rc k period =>
    rcases hpoint with ⟨hcaller, htaken, hsettled, hperiod, hcurrent⟩
    rcases h.caller hcaller with ⟨hcaller', hcurrent', htaken', -⟩
    exact ⟨hcaller', htaken'.trans htaken, h.settled hsettled, hperiod, hcurrent'.trans hcurrent⟩
  | leave after rc =>
    rcases hpoint with ⟨hcaller, htaken, hsettled⟩
    rcases h.caller hcaller with ⟨hcaller', -, htaken', -⟩
    exact ⟨hcaller', htaken'.trans htaken, h.settled hsettled⟩
  | callbackPeriod k => exact ⟨(h.busy hpoint.1).1, h.onlyCurrent hpoint.1 k hpoint.2⟩
  | callbackCompare k => exact ⟨(h.busy hpoint.1).1, h.onlyCurrent hpoint.1 k hpoint.2⟩
  | callbackSignal k => exact h.firingAt hpoint
  | callbackDpc k => exact h.firingAt hpoint
  | callbackInsert k =>
    rcases hpoint with ⟨hfiring, hdpc⟩
    refine ⟨h.firingAt hfiring, ?_⟩
    rw [(h.busy hfiring.running).2]
    exact hdpc
  | callbackEnd => exact (h.busy hpoint).1

end Stable

/-! ## Steps -/

section Steps

variable {g : Ghost T} {s s' : Shared D T} {t u : T} {k : ℕ} {f : Fate T} {l : Pc D}

/-- Another thread is not the caller. -/
theorem caller_ne (hu : u ≠ t) (hcaller : s.caller = some t) : s.caller ≠ some u := by
  intro h
  rw [hcaller] at h
  exact hu (Option.some.inj h).symm

/-- A step of the caller that writes no history disturbs nobody, if no callback runs or
it leaves what they rely on. -/
theorem rely_call (hu : u ≠ t) (hcaller : s.caller = some t) (taken : Option ℕ)
    (hbusy : u ∈ s.running → u ∈ s'.running ∧ s'.dpc = s.dpc)
    (honly : u ∈ s.running → ∀ k, OnlyCurrent s k → OnlyCurrent s' k)
    (harmings : ∀ (k : ℕ) dpc, s.armings[k]? = some dpc → s'.armings[k]? = some dpc)
    (hobserved : ∀ k, signals k s'.history = signals k s.history ∧
      insertions k s'.history = insertions k s.history) :
    Rely u g s ⟨g.fate, taken⟩ s' where
  caller h := absurd h (caller_ne hu hcaller)
  clock h := absurd h (caller_ne hu hcaller)
  pending h := absurd h (caller_ne hu hcaller)
  running h := absurd h (caller_ne hu hcaller)
  firing _ := Iff.rfl
  cancelled _ h := h
  fired _ h := h
  fires _ h := h
  busy := hbusy
  onlyCurrent := honly
  armings := harmings
  observed k _ := hobserved k

/-- A write that no callback reads, in the cases that occur here. -/
theorem rely_write (hu : u ≠ t) (hcaller : s.caller = some t) (clock : Option (ℕ × Int32))
    (pending : List ℕ) (period : Int32) (event : Bool) :
    Rely u g s g { s with clock := clock, pending := pending, period := period, event := event } :=
  rely_call hu hcaller g.taken (fun h => ⟨h, rfl⟩) (fun _ _ h => h) (fun _ _ h => h)
    (fun _ => ⟨rfl, rfl⟩)

/-- No callback relies on anything when none runs. -/
theorem Quiescent.idle (hq : Quiescent s) (u : T) {p : Prop} (h : u ∈ s.running) : p := by
  rw [hq.running] at h
  cases h

/-- The fate of an arming is sealed. -/
theorem TimerOk.seal (h : TimerOk g s) {st : TimerState} (hk : k < s.armings.length)
    (hopen : (g.fate k).Open) (htally : Tally s k f)
    (hcurrent : ∀ j, s.current = some j → (st = .active ∧ Function.update g.fate k f j = .armed) ∨
      (st ≠ .active ∧ (Function.update g.fate k f j).Fires))
    (hnone : s.current = none → st ≠ .active) :
    TimerOk ⟨Function.update g.fate k f, g.taken⟩ { s with state := st } := by
  constructor
  case period => exact h.period
  case current => exact fun j hj => ⟨(h.current j hj).1, hcurrent j hj⟩
  case noCurrent => exact hnone
  case clock => exact h.clock
  case pending => exact h.pending
  case tally =>
    intro j
    show Tally s j (Function.update g.fate k f j)
    by_cases hj : j = k
    · rw [hj, Function.update_self]
      exact htally
    · rw [Function.update_of_ne hj]
      exact h.tally j
  case fresh =>
    intro j hj
    have hne : j ≠ k := fun h => absurd hk (by rw [← h]; exact Nat.not_lt.2 hj)
    show Function.update g.fate k f j = .armed
    rw [Function.update_of_ne hne]
    exact h.fresh j hj
  case returned =>
    intro j rc hmem i hi
    cases hi
    have hsettled := h.returned j rc hmem j rfl
    have hne : j ≠ k := by
      rintro rfl
      rcases hsettled with ⟨-, hfate⟩ | ⟨-, hfate⟩
      · exact hopen.ne_cancelled hfate
      · exact hopen.ne_fired hfate
    show (_ ∧ Function.update g.fate k f j = _) ∨ (_ ∧ Function.update g.fate k f j = _)
    rw [Function.update_of_ne hne]
    exact hsettled
  case inTime => exact h.inTime
  case accounted => exact h.accounted
  case taken => exact h.taken

/-- It concerns no other thread. -/
theorem Rely.seal {taken : Option ℕ} (h : Rely u g s ⟨g.fate, taken⟩ s') (hopen : (g.fate k).Open)
    (hfiring : g.fate k ≠ .firing u) (hf : f ≠ .firing u) (hfires : (g.fate k).Fires → f.Fires) :
    Rely u g s ⟨Function.update g.fate k f, taken⟩ s' := by
  refine { h with firing := ?_, cancelled := ?_, fired := ?_, fires := ?_ } <;> intro j
  · by_cases hj : j = k
    · subst hj
      simp [hfiring, hf]
    · simp [hj]
  · by_cases hj : j = k
    · subst hj
      simp [hopen.ne_cancelled]
    · simp [hj]
  · by_cases hj : j = k
    · subst hj
      simp [hopen.ne_fired]
    · simp [hj]
  · by_cases hj : j = k
    · subst hj
      simpa using hfires
    · simp [hj]

/-- The exchange of the state: the caller has taken the arming. -/
theorem TimerOk.exchanged (h : TimerOk g s) (hcaller : s.caller = some t)
    (htaken : g.taken = none) :
    TimerOk ⟨g.fate, s.current⟩ { s with state := .idle, current := none } := by
  constructor
  case period => exact h.period
  case current => exact nofun
  case noCurrent => exact nofun
  case clock => exact fun k period hclock => ⟨(h.clock k period hclock).1, nofun⟩
  case pending => exact fun _ _ => nofun
  case tally => exact h.tally
  case fresh => exact h.fresh
  case returned => exact h.returned
  case inTime => exact h.inTime
  case accounted =>
    intro k hk
    rcases h.accounted k hk with hcurrent | hnone | hreturned
    · exact Or.inr (Or.inl hcurrent)
    · rw [htaken] at hnone
      cases hnone
    · exact Or.inr (Or.inr hreturned)
  case taken =>
    intro hnone
    rw [hcaller] at hnone
    cases hnone

/-- The timer is armed. -/
theorem TimerOk.arm (h : TimerOk g s) (hcurrent : s.current = none) (hq : Quiescent s) :
    TimerOk g { s with
      state := .active
      current := some s.armings.length
      armings := s.armings ++ [s.dpc] } := by
  constructor
  case period => exact h.period
  case current =>
    intro k hk
    cases hk
    exact ⟨by simp, Or.inl ⟨rfl, h.fresh _ (Nat.le_refl _)⟩⟩
  case noCurrent => exact nofun
  case clock =>
    intro k period hclock
    rw [hq.clock] at hclock
    cases hclock
  case pending =>
    intro k hk
    rw [hq.pending] at hk
    cases hk
  case tally =>
    intro k
    have htally := h.tally k
    have hfresh := h.fresh k
    cases hfate : g.fate k with
    | armed =>
      rw [hfate] at htally
      exact htally
    | firing u => trivial
    | fired =>
      -- a fired arming is not the new one
      rw [hfate] at htally hfresh
      have hk : k < s.armings.length := by
        by_contra hk
        exact nomatch hfresh (Nat.not_lt.1 hk)
      refine ⟨htally.1, fun dpc hdpc => htally.2 dpc ?_⟩
      rw [← hdpc]
      exact (List.getElem?_append_left hk).symm
    | cancelled =>
      rw [hfate] at htally
      exact htally
  case fresh =>
    intro k hk
    apply h.fresh
    rw [List.length_append] at hk
    exact Nat.le_of_succ_le hk
  case returned => exact h.returned
  case inTime => exact h.inTime
  case accounted =>
    intro k hk
    rw [List.length_append] at hk
    rcases Nat.lt_succ_iff_lt_or_eq.1 hk with hk | rfl
    · rcases h.accounted k hk with hsome | htaken | hreturned
      · rw [hcurrent] at hsome
        cases hsome
      · exact Or.inr (Or.inl htaken)
      · exact Or.inr (Or.inr hreturned)
    · exact Or.inl rfl
  case taken => exact h.taken

/-- The call returns. -/
theorem TimerOk.leave (h : TimerOk g s) {after : Option ℕ} {rc : Bool} (htaken : g.taken = after)
    (hsettled : Settled g after rc) :
    TimerOk ⟨g.fate, none⟩ { s with caller := none, history := returns after rc ++ s.history } := by
  constructor
  case period => exact h.period
  case current => exact h.current
  case noCurrent => exact h.noCurrent
  case clock => exact h.clock
  case pending => exact h.pending
  case tally => exact fun k => (h.tally k).congr (signals_returns ..) (insertions_returns ..) none
  case fresh => exact h.fresh
  case returned =>
    intro k rc' hmem
    rcases List.mem_append.1 hmem with hmem | hmem
    · cases after with
      | none => cases hmem
      | some j =>
        rw [returns, List.mem_singleton] at hmem
        cases hmem
        exact hsettled
    · exact h.returned k rc' hmem
  case inTime => exact h.inTime.returns after rc
  case accounted =>
    intro k hk
    rcases h.accounted k hk with hcurrent | hnone | ⟨rc', hreturned⟩
    · exact Or.inl hcurrent
    · refine Or.inr (Or.inr ⟨rc, List.mem_append_left _ ?_⟩)
      rw [← htaken, hnone]
      exact List.mem_singleton.2 rfl
    · exact Or.inr (Or.inr ⟨rc', List.mem_append_right _ hreturned⟩)
  case taken => exact fun _ => rfl

/-- The callback writes something about the arming that it is firing. -/
theorem TimerOk.record (h : TimerOk g s) (hfiring : g.fate k = .firing t) {e : Event D}
    (he : e = .signaled k ∨ ∃ dpc, e = .inserted k dpc) :
    TimerOk g { s with history := e :: s.history } := by
  have hopen : ∀ rc, .returned k rc ∉ s.history := by
    intro rc hmem
    rcases h.returned k rc hmem k rfl with ⟨-, hfate⟩ | ⟨-, hfate⟩ <;>
      rw [hfiring] at hfate <;> cases hfate
  constructor
  case period => exact h.period
  case current => exact h.current
  case noCurrent => exact h.noCurrent
  case clock => exact h.clock
  case pending => exact h.pending
  case tally =>
    intro j
    by_cases hj : k = j
    · subst hj
      rw [hfiring]
      trivial
    · rcases he with rfl | ⟨dpc, rfl⟩
      · exact (h.tally j).congr (by simp [signals, hj]) (by simp [insertions]) s.caller
      · exact (h.tally j).congr (by simp [signals]) (by simp [insertions, hj]) s.caller
  case fresh => exact h.fresh
  case returned =>
    intro j rc hmem
    rcases List.mem_cons.1 hmem with heq | hmem
    · rcases he with rfl | ⟨dpc, rfl⟩ <;> cases heq
    · exact h.returned j rc hmem
  case inTime =>
    rcases he with rfl | ⟨dpc, rfl⟩
    · exact ⟨hopen, h.inTime⟩
    · exact ⟨hopen, h.inTime⟩
  case accounted =>
    intro j hj
    rcases h.accounted j hj with hcurrent | htaken | ⟨rc, hreturned⟩
    · exact Or.inl hcurrent
    · exact Or.inr (Or.inl htaken)
    · exact Or.inr (Or.inr ⟨rc, List.mem_cons_of_mem _ hreturned⟩)
  case taken => exact h.taken

/-- And it does not concern the other callbacks. -/
theorem rely_record (hu : u ≠ t) (hfiring : g.fate k = .firing t) {e : Event D}
    (he : e = .signaled k ∨ ∃ dpc, e = .inserted k dpc) (event : Bool) :
    Rely u g s g { s with event := event, history := e :: s.history } := by
  refine { Rely.refl u g s with observed := ?_ }
  intro j hj
  have hne : k ≠ j := by
    rintro rfl
    rw [hfiring] at hj
    cases hj
    exact hu rfl
  rcases he with rfl | ⟨dpc, rfl⟩
  · simp [signals, insertions, hne]
  · simp [signals, insertions, hne]

/-- A firing callback is running. -/
theorem AtPoint.running (h : AtPoint u g s l) (hl : l.firing = some k) : u ∈ s.running := by
  have hpoint := h.point
  cases l with
  | callbackSignal => exact hpoint.running
  | callbackDpc => exact hpoint.running
  | callbackInsert => exact hpoint.1.running
  | _ => cases hl

/-- When no callback runs, none is firing. -/
theorem settled_of_decided {pc : T → Pc D} (hall : ∀ u, AtPoint u g s (pc u))
    (hrunning : s.running = [])
    {after : Option ℕ} {rc : Bool} (h : Decided g after rc) : Settled g after rc := by
  intro k hk
  rcases h k hk with hcancelled | ⟨hrc, hfires⟩
  · exact Or.inl hcancelled
  · refine Or.inr ⟨hrc, ?_⟩
    cases hfate : g.fate k with
    | firing u =>
      have hmem := (hall u).running ((hall u).mine k hfate)
      rw [hrunning] at hmem
      cases hmem
    | fired => rfl
    | armed =>
      rw [hfate] at hfires
      cases hfires
    | cancelled =>
      rw [hfate] at hfires
      cases hfires

end Steps

end Wdutf.Timer
