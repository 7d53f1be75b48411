import Wdutf.Detours.Detach

/-!
# Wdutf.Detours.Select — the intercept for a thread, `src/detours.cpp`

`DdkGetIntercept` passes over the intercepts of a detour, from the most recent one on. It stops at
one for its own thread, but goes on behind one for all threads.

* `Log` — what is attached to the functions: the attachments of a run that were not detached, the
  most recent first;
* `logged_eq` — the lists of the detours are the log;
* `selectIntercept_eq` — the loop returns the oldest intercept for all threads;
* `getIntercept_iff` — so the choice is right exactly when there is an intercept for the thread, or
  the oldest one for all threads is as good as the most recent one.
-/

namespace Wdutf.Detours

open Wdutf.Keyed Wdutf.Action Wdutf.Transition

/-! ## The routine -/

/-- The loop of `DdkGetIntercept`. -/
def selectIntercept (thread : Address) : List Intercept → Address → Address
  | [], pIntercept => pIntercept
  | ep :: rest, pIntercept =>
    if ep.thread = thread then ep.intercept
    else selectIntercept thread rest (if ep.thread = 0 then ep.intercept else pIntercept)

/-- `DdkGetIntercept`, for the current thread: the intercept, and the new `realpointer`. -/
def ddkGetIntercept (thread : Address) : Option DetourPtr → DetourM (Address × Address)
  | none => throw (.ddkfail "Invalid detour")
  | some pDetour => do
    let d ← getDetour pDetour
    if d.function = 0 then throw (.ddkfail "Invalid detour")
    else
      let pIntercept := selectIntercept thread d.intercepts d.trampoline
      pure (if pIntercept = 0 then d.function else pIntercept, d.trampoline)

/-! ## What is attached -/

/-- The attachments of each function, the most recent first. -/
abbrev Log := Address → List Attachment

/-- A call that returns: an attach that succeeds is logged, and a detach takes what it matches
off the log. -/
def Log.step (log : Log) (status : Status) (c : Call) (f : Address) : List Attachment :=
  match c with
  | .attachIntercept pFunction pIntercept pIdentity pInstance pThread =>
    if status = .success ∧ f = pFunction then ⟨pIntercept, pIdentity, pInstance, pThread⟩ :: log f
    else log f
  | .detachIntercept pId pThread => (log f).filter fun a =>
    !((pThread = 0 || a.thread = pThread) && (pId = 0 || a.identity = pId || a.ofInstance = pId))
  | .detachAddressRange pAddr len module =>
    if pAddr ≤ f ∧ f < (pAddr + len) % 2 ^ 64 then
      (log f).filter fun a =>
        match module with
        | none => false
        | some (pModuleAddr, pModuleEnd) => !(pModuleAddr ≤ a.intercept && a.intercept < pModuleEnd)
    else log f

/-- A run with its log. -/
abbrev LoggedRun : List (Call × Env) → State × Log → Prop :=
  Trace (fun x => x.1.regionlist = [] ∧ x.1.freed = [] ∧ x.2 = fun _ => []) fun x e x' =>
    e.2.Allowed x.1 e.1 ∧ ∃ status, call e.2 e.1 x.1 = .ok status x'.1 ∧
      x'.2 = x.2.step status e.1

/-- The log is what is on the lists of the detours. -/
structure LogOk (s : State) (log : Log) : Prop where
  ok : StateOk none s
  logged : ∀ f, (s.interceptsOf f).map Intercept.attachment = log f
  intercept : ∀ f, ∀ a ∈ log f, a.intercept ≠ 0

section Step

variable {env : Env} {s s' : State} {log : Log} {status : Status}

/-- A detach takes off the log what it takes off the lists. -/
theorem map_attachment_filter (l : List Intercept) (hit : Attachment → Bool) :
    (l.filter fun p => hit p.attachment).map Intercept.attachment =
      (l.map Intercept.attachment).filter hit := by
  rw [List.filter_map]
  rfl

theorem LogOk.attach (h : LogOk s log) {pFunction : Address} {a : Attachment}
    (hok : StateOk none s') (hattached : Attached pFunction a status s s') :
    LogOk s' (log.step status
      (.attachIntercept pFunction a.intercept a.identity a.ofInstance a.thread)) := by
  rcases hattached with ⟨rfl, hne, e, he, hsame⟩ | ⟨hstatus, hsame⟩
  · refine ⟨hok, fun f => ?_, fun f a' ha' => ?_⟩
    · rw [hsame, Log.step]
      by_cases hf : f = pFunction
      · rw [if_pos hf, if_pos ⟨rfl, hf⟩, List.map_cons, he, h.logged]
      · rw [if_neg hf, if_neg (fun hboth => hf hboth.2), h.logged]
    · simp only [Log.step] at ha'
      split at ha'
      · rcases List.mem_cons.1 ha' with rfl | ha'
        · exact hne
        · exact h.intercept f a' ha'
      · exact h.intercept f a' ha'
  · have hlog : log.step status
        (.attachIntercept pFunction a.intercept a.identity a.ofInstance a.thread) = log := by
      funext f
      rw [Log.step, if_neg (fun hboth => hstatus hboth.1)]
    rw [hlog]
    refine ⟨hok, fun f => ?_, h.intercept⟩
    rw [hsame, h.logged]

/-- What is left of the log was on it. -/
theorem LogOk.filtered (h : LogOk s log) {log' : Log} (hok : StateOk none s')
    (hlogged : ∀ f, (s'.interceptsOf f).map Intercept.attachment = log' f)
    (hsub : ∀ f, ∀ a ∈ log' f, a ∈ log f) : LogOk s' log' :=
  ⟨hok, hlogged, fun f a ha => h.intercept f a (hsub f a ha)⟩

theorem LogOk.detachIntercept (h : LogOk s log) {pId pThread : Address} (hok : StateOk none s')
    (status : Status)
    (hdetached : Detached (fun _ => matchesId pId pThread) env s s') :
    LogOk s' (log.step status (.detachIntercept pId pThread)) := by
  refine h.filtered hok (fun f => ?_) fun f a ha => (List.mem_filter.1 ha).1
  rw [hdetached.remaining, Log.step, ← h.logged, ← map_attachment_filter]
  rfl

theorem LogOk.detachAddressRange (h : LogOk s log) {pAddr len : ℕ}
    {module : Option (Address × Address)} (hok : StateOk none s') (status : Status)
    (hdetached : len = 0 ∧ s' = s ∨
      Detached (goneBy (between pAddr ((pAddr + len) % 2 ^ 64)) (inModule module)) env s s') :
    LogOk s' (log.step status (.detachAddressRange pAddr len module)) := by
  refine h.filtered hok (fun f => ?_) fun f a ha => ?_
  · simp only [Log.step]
    rcases hdetached with ⟨hzero, rfl⟩ | hdetached
    · -- an empty range
      rw [if_neg, h.logged]
      rintro ⟨hle, hlt⟩
      rw [hzero, Nat.add_zero] at hlt
      exact absurd (Nat.lt_of_lt_of_le hlt (Nat.mod_le _ _)) (Nat.not_lt.2 hle)
    rw [hdetached.remaining]
    split
    · rename_i hrange
      have hbetween : between pAddr ((pAddr + len) % 2 ^ 64) f = true := by
        simpa [between] using hrange
      simp only [goneBy, hbetween, Bool.true_and]
      rw [← h.logged, ← map_attachment_filter]
      cases module with
      | none => rfl
      | some module => rfl
    · rename_i hrange
      have hbetween : between pAddr ((pAddr + len) % 2 ^ 64) f = false := by
        rw [← Bool.not_eq_true]
        simpa [between] using hrange
      simp only [goneBy, hbetween, Bool.false_and, Bool.not_false, List.filter_true]
      exact h.logged f
  · simp only [Log.step] at ha
    split at ha
    · exact (List.mem_filter.1 ha).1
    · exact ha

end Step

/-- After every run the lists of the detours are the log. -/
theorem logged_eq {es : List (Call × Env)} {x : State × Log} (h : LoggedRun es x) :
    LogOk x.1 x.2 := by
  refine @Trace.invariant _ _ _ _ (fun x => LogOk x.1 x.2) ?_ ?_ _ _ h
  · rintro ⟨s, log⟩ ⟨hregions, hfreed, hlog⟩
    have hrun : Run [] s := .start ⟨hregions, hfreed⟩
    refine ⟨run_ok hrun, fun f => ?_, fun f a ha => ?_⟩
    · have hnone : s.interceptsOf f = [] := by
        unfold State.interceptsOf State.usedDetours
        rw [hregions]
        rfl
      rw [hnone, hlog]
      rfl
    · rw [hlog] at ha
      cases ha
  · rintro ⟨s, log⟩ ⟨c, env⟩ ⟨s', log'⟩ hok ⟨henv, status, hcall, hlog⟩
    replace hcall : call env c s = .ok status s' := hcall
    replace hlog : log' = log.step status c := hlog
    subst hlog
    cases c with
    | attachIntercept pFunction pIntercept pIdentity pInstance pThread =>
      rcases ddkAttachIntercept_spec hok.ok pFunction pIntercept pIdentity pInstance pThread henv
        with ⟨status', s'', hcall', hok', hattached⟩
      rcases result_eq hcall hcall' with ⟨rfl, rfl⟩
      exact LogOk.attach hok hok' hattached
    | detachIntercept pId pThread =>
      rcases @ddkDetachIntercept_spec env s hok.ok pId pThread with
        ⟨status', s'', hcall', hok', hswept⟩
      rcases result_eq hcall hcall' with ⟨rfl, rfl⟩
      exact LogOk.detachIntercept hok hok' status (hswept.detachedAll hok.ok)
    | detachAddressRange pAddr len module =>
      rcases @ddkDetachAddressRange_spec env s hok.ok pAddr len module with
        ⟨status', s'', hcall', hok', hswept⟩
      rcases result_eq hcall hcall' with ⟨rfl, rfl⟩
      have hdetached := hswept.imp id fun hswept => hswept.detachedRange hok.ok
      exact LogOk.detachAddressRange hok hok' status hdetached

/-! ## The choice -/

section Choice

variable {t : Address} {l : List Intercept} {p : Address}

/-- An intercept is for this thread; `0` is for all threads. -/
def Attachment.isFor (t : Address) (a : Attachment) : Bool := a.thread = t

/-- The intercepts for all threads. -/
def allThreads (as : List Attachment) : List Attachment := as.filter (Attachment.isFor 0)

/-- The intercept that a thread should get: the most recent one for it, or else the most recent
one for all threads. -/
def chosen (t : Address) (as : List Attachment) : Option Address :=
  ((as.find? (Attachment.isFor t)).or (as.find? (Attachment.isFor 0))).map Attachment.intercept

theorem isFor_attachment (e : Intercept) : e.attachment.isFor t = true ↔ e.thread = t :=
  decide_eq_true_iff

/-- The loop stops at the first intercept for the thread. -/
theorem selectIntercept_thread {a : Attachment}
    (h : (l.map Intercept.attachment).find? (Attachment.isFor t) = some a) :
    selectIntercept t l p = a.intercept := by
  induction l generalizing p with
  | nil => cases h
  | cons e l ih =>
    rw [List.map_cons] at h
    rw [selectIntercept]
    by_cases he : e.thread = t
    · rw [List.find?_cons_of_pos ((isFor_attachment e).2 he)] at h
      cases h
      rw [if_pos he]
      rfl
    · rw [List.find?_cons_of_neg ((isFor_attachment e).not.2 he)] at h
      rw [if_neg he, ih h]

/-- Without one, it returns the oldest intercept for all threads. -/
theorem selectIntercept_eq
    (h : (l.map Intercept.attachment).find? (Attachment.isFor t) = none) :
    selectIntercept t l p =
      (((allThreads (l.map Intercept.attachment)).getLast?).map Attachment.intercept).getD p := by
  induction l generalizing p with
  | nil => rfl
  | cons e l ih =>
    rw [List.map_cons] at h ⊢
    have hother := List.find?_eq_none.1 h _ List.mem_cons_self
    rw [List.find?_cons_of_neg hother] at h
    rw [selectIntercept, if_neg ((isFor_attachment e).not.1 hother), ih h]
    unfold allThreads
    by_cases hall : e.thread = 0
    · -- the intercepts behind it, if any, take its place
      rw [if_pos hall, List.filter_cons_of_pos ((isFor_attachment e).2 hall), List.getLast?_cons]
      cases ((l.map Intercept.attachment).filter (Attachment.isFor 0)).getLast? with
      | none => rfl
      | some a => rfl
    · rw [if_neg hall, List.filter_cons_of_neg ((isFor_attachment e).not.2 hall)]

/-- The intercept of the first attachment, for all threads. -/
theorem chosen_eq {as : List Attachment} (h : as.find? (Attachment.isFor t) = none) :
    chosen t as = (allThreads as).head?.map Attachment.intercept := by
  unfold chosen allThreads
  rw [h, Option.none_or, List.head?_filter]

/-- What the loop returns, for a list without null pointers. -/
theorem selectIntercept_iff (hp : p ≠ 0)
    (hne : ∀ a ∈ l.map Intercept.attachment, a.intercept ≠ 0) :
    selectIntercept t l p ≠ 0 ∧
      (selectIntercept t l p = (chosen t (l.map Intercept.attachment)).getD p ↔
        (∃ a ∈ l.map Intercept.attachment, a.thread = t) ∨
        (allThreads (l.map Intercept.attachment)).getLast?.map Attachment.intercept =
          (allThreads (l.map Intercept.attachment)).head?.map Attachment.intercept) := by
  cases hfind : (l.map Intercept.attachment).find? (Attachment.isFor t) with
  | some a =>
    have hmem := List.mem_of_find?_eq_some hfind
    have hthread : a.isFor t = true := List.find?_some hfind
    rw [selectIntercept_thread hfind, chosen, hfind]
    exact ⟨hne a hmem, iff_of_true rfl (Or.inl ⟨a, hmem, of_decide_eq_true hthread⟩)⟩
  | none =>
    have hnone : ¬ ∃ a ∈ l.map Intercept.attachment, a.thread = t := by
      rintro ⟨a, ha, hthread⟩
      exact List.find?_eq_none.1 hfind a ha (decide_eq_true hthread)
    rw [selectIntercept_eq hfind, chosen_eq hfind, or_iff_right hnone]
    cases hlast : (allThreads (l.map Intercept.attachment)).getLast? with
    | none =>
      rw [List.getLast?_eq_none_iff.1 hlast]
      exact ⟨hp, iff_of_true rfl rfl⟩
    | some a =>
      refine ⟨hne a (List.mem_filter.1 (List.mem_of_getLast? hlast)).1, ?_⟩
      cases hfirst : (allThreads (l.map Intercept.attachment)).head? with
      | none =>
        rw [List.head?_eq_none_iff.1 hfirst] at hlast
        cases hlast
      | some a' => exact Option.some_inj.symm

end Choice

/-- **The intercept for a thread.** After every run, `DdkGetIntercept` returns for a detour in use
the intercept that the thread should get exactly when there is one for this thread, or the oldest
one for all threads has the same address as the most recent one. -/
theorem getIntercept_iff {es : List (Call × Env)} {s : State} {log : Log}
    (h : LoggedRun es (s, log)) {pDetour : DetourPtr} {f : Address} (huses : s.Uses pDetour f)
    (t : Address) :
    ∃ d pIntercept, getDetour pDetour s = .ok d s ∧ d.function = f ∧
      ddkGetIntercept t (some pDetour) s = .ok (pIntercept, d.trampoline) s ∧
      (pIntercept = (chosen t (log f)).getD d.trampoline ↔
        (∃ a ∈ log f, a.thread = t) ∨
        (allThreads (log f)).getLast?.map Attachment.intercept =
          (allThreads (log f)).head?.map Attachment.intercept) := by
  have hok : LogOk s log := logged_eq h
  rcases huses with ⟨hf, r, hr, hregion, hfunction⟩
  have hhas : s.Has pDetour.region r := ⟨hok.ok.nodup, hr, hregion⟩
  have hused : (r.detour pDetour.index).function ≠ 0 := hfunction ▸ hf
  have htrampoline := ((hok.ok.regions r hr).slots pDetour.index).used hused
  have hdetour := getDetour_ok hhas pDetour.index
  have hlog : (r.detour pDetour.index).intercepts.map Intercept.attachment = log f := by
    rw [← hok.ok.interceptsOf_has hhas hused, hfunction, hok.logged]
  have hne := hok.intercept f
  rw [← hlog] at hne ⊢
  rcases selectIntercept_iff htrampoline hne with ⟨hselect, hiff⟩
  refine ⟨r.detour pDetour.index, _, hdetour, hfunction, ?_, hiff⟩
  rw [ddkGetIntercept, bind_ok hdetour, if_neg hused, if_neg hselect, pure_run]

/-- A function is attached once, for all threads. -/
theorem loggedRun_attached : LoggedRun [(attachCall, attachEnv)]
    (attachedState, Log.step (fun _ => []) .success attachCall) := by
  have h0 : LoggedRun [] (⟨[], 0, []⟩, fun _ => []) := .start ⟨rfl, rfl, rfl⟩
  exact h0.snoc ⟨allowed_attached, .success, rfl, rfl⟩

theorem getIntercept_attached : ∃ d pIntercept,
    getDetour ⟨0x20000, 0⟩ attachedState = .ok d attachedState ∧ d.function = 0x10000 ∧
      ddkGetIntercept 7 (some ⟨0x20000, 0⟩) attachedState =
        .ok (pIntercept, d.trampoline) attachedState ∧
      pIntercept = (chosen 7 [⟨0x40000, 1, 0, 0⟩]).getD d.trampoline := by
  have huses : attachedState.Uses ⟨0x20000, 0⟩ 0x10000 :=
    ⟨by decide, _, List.mem_cons_self, rfl, rfl⟩
  rcases getIntercept_iff loggedRun_attached huses 7 with
    ⟨d, pIntercept, hdetour, hfunction, hrun, hiff⟩
  exact ⟨d, pIntercept, hdetour, hfunction, hrun, hiff.2 (Or.inr rfl)⟩

/-- The function is attached once more, to another intercept for all threads. -/
def attachAgain : Call := .attachIntercept 0x10000 0x50000 2 0 0

def againEnv : Env := ⟨some 0x31000, none, attachEnv.transaction⟩

def againState : State :=
  ⟨[⟨0x20000, 152, 0, 2, 1, 1,
    [⟨0x10000, 0x10010, [⟨0x31000, some ⟨0x20000, 0⟩, 0x50000, 2, 0, 0⟩,
      ⟨0x30000, some ⟨0x20000, 0⟩, 0x40000, 1, 0, 0⟩]⟩, .zero]⟩], 1, []⟩

/-- The most recent intercept for all threads is `0x50000`, and the first one is returned. -/
theorem getIntercept_oldest : ∃ log : Log,
    LoggedRun [(attachCall, attachEnv), (attachAgain, againEnv)] (againState, log) ∧
    againState.Uses ⟨0x20000, 0⟩ 0x10000 ∧
    log 0x10000 = [⟨0x50000, 2, 0, 0⟩, ⟨0x40000, 1, 0, 0⟩] ∧
    ddkGetIntercept 7 (some ⟨0x20000, 0⟩) againState = .ok (0x40000, 0x10010) againState ∧
    (chosen 7 (log 0x10000)).getD 0x10010 = 0x50000 := by
  have hallowed : againEnv.Allowed attachedState attachAgain := by
    refine ⟨?_, nofun, nofun⟩
    rintro address ⟨⟩
    decide
  refine ⟨Log.step (Log.step (fun _ => []) .success attachCall) .success attachAgain, ?_,
    ⟨by decide, _, List.mem_cons_self, rfl, rfl⟩, rfl, rfl, rfl⟩
  exact loggedRun_attached.snoc ⟨hallowed, .success, rfl, rfl⟩

end Wdutf.Detours
