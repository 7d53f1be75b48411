import Mathlib.Data.List.Basic
import Mathlib.Logic.Function.Basic
import Mathlib.Tactic.Common
import Wdutf.Lib.RwLock
import Wdutf.Lib.Threads
import Wdutf.Ke.Irql
import Wdutf.Ke.SpinLock

/-!
# Wdutf.Ke.Locks — the spin locks of any number of threads, `src/spinlock.cpp`

A `KSPIN_LOCK` is an `SRWLOCK` itself. An `EX_SPIN_LOCK` has one in the table of
`Wdutf.Ke.SpinLock`, which `GetSRWLock` looks up in every call, while other threads give new
locks their slots. The threads call the routines of `Wdutf.Ke.Irql` in any order.

* `Act` — the steps of the threads, with those of `GetSRWLock` among them;
* `SharedOk`, `AtPoint` — the `SRWLOCK` in every place stands for the holders of one lock;
* `spinLocks_excluded` — readers and writers of every lock, whatever the callers do;
* `spinLocks_irql` — the IRQL of callers that keep the documented discipline.
-/

namespace Wdutf.Locks

open Wdutf.RwLock Wdutf.Threads Wdutf.Transition

variable {K W T : Type}

/-! ## The model -/

/-- The `SRWLOCK` of a lock: the word of the lock, or a slot of the table. -/
inductive Place (K : Type) where
  | own (k : K)
  | slot (s : SpinLock.Slot)
deriving DecidableEq, Repr

/-- A thread has a lock. -/
structure Hold (K W T : Type) where
  thread : T
  lock : Lock K W
  mode : Mode
deriving DecidableEq, Repr

/-- What the threads share, with the holders of all locks. -/
structure Shared (K W T : Type) where
  slots : SpinLock.Shared W T
  srw : Place K → Rw
  holds : List (Hold K W T)

/-- A thread: its IRQL and variables, what is left of the routine that it runs, where it
stands in `GetSRWLock`, and the `SRWLOCK` that was found. -/
structure Local (K W : Type) where
  core : Core K W
  code : List Instr
  /-- A `DDKASSERT` failed; the thread does not go on. -/
  failed : Bool
  getter : SpinLock.Pc W
  place : Option (Place K)

/-- The slot of a word. -/
def slotOf (s : SpinLock.Shared W T) (w : W) : SpinLock.Slot :=
  ⟨s.lockv (s.word w / SpinLock.maxv), s.word w % SpinLock.maxv⟩

def placeOf (s : SpinLock.Shared W T) : Lock K W → Place K
  | .spin k => .own k
  | .ex w => .slot (slotOf s w)

/-! ## The places -/

/-- The lock has its `SRWLOCK`. -/
def Used (s : SpinLock.Shared W T) : Lock K W → Prop
  | .spin _ => True
  | .ex w => s.word w ≠ 0

/-- The word that `GetSRWLock` works for. -/
def getterWord : SpinLock.Pc W → Option W
  | .idle | .failed _ => none
  | .read w | .acquire w | .recheck w | .take w => some w
  | .allocate w _ | .count w _ | .publish w _ | .release w _ => some w
  | .checkCount w _ | .checkBlock w _ | .address w _ => some w

/-- Two locks do not share an `SRWLOCK`. -/
theorem placeOf_injective {s : SpinLock.Shared W T} (hok : SpinLock.SlotsOk s) {a b : Lock K W}
    (ha : Used s a) (h : placeOf s a = placeOf s b) : a = b := by
  cases a with
  | spin k =>
    cases b with
    | spin k' =>
      rw [placeOf, placeOf, Place.own.injEq] at h
      rw [h]
    | ex w => cases h
  | ex w =>
    cases b with
    | spin k => cases h
    | ex w' =>
      rw [placeOf, placeOf, Place.slot.injEq] at h
      rw [hok.word_of_slot ha h]

/-- A word that has its slot keeps it. -/
theorem slotOf_kept [DecidableEq W] {t : T} {s s' : SpinLock.Shared W T} {pc pc' : SpinLock.Pc W}
    (hok : SpinLock.SlotsOk s) (hat : SpinLock.AtPoint t s pc) (hact : SpinLock.Act t s pc s' pc')
    {w : W} (hw : s.word w ≠ 0) : s'.word w ≠ 0 ∧ slotOf s' w = slotOf s w := by
  cases hact with
  | @calloc w' i p hnone =>
    refine ⟨hw, ?_⟩
    have hne : s.word w / SpinLock.maxv ≠ i / SpinLock.maxv := by
      intro heq
      exact hok.block_of_word hw (by rw [heq]; exact hnone)
    show (⟨Function.update s.lockv _ (some p) _, _⟩ : SpinLock.Slot) = _
    rw [Function.update_of_ne hne]
    rfl
  | @publish w' i =>
    have hne : w ≠ w' := by
      rintro rfl
      exact hw hat.2.1
    have hword : Function.update s.word w' i w = s.word w := Function.update_of_ne hne _ _
    constructor
    · show Function.update s.word w' i w ≠ 0
      rwa [hword]
    · show (⟨s.lockv (Function.update s.word w' i w / _), Function.update s.word w' i w % _⟩ :
        SpinLock.Slot) = _
      rw [hword]
      rfl
  | _ => exact ⟨hw, rfl⟩

theorem placeOf_kept [DecidableEq W] {t : T} {s s' : SpinLock.Shared W T} {pc pc' : SpinLock.Pc W}
    (hok : SpinLock.SlotsOk s) (hat : SpinLock.AtPoint t s pc) (hact : SpinLock.Act t s pc s' pc')
    {lock : Lock K W} (hused : Used s lock) :
    Used s' lock ∧ placeOf s' lock = placeOf s lock := by
  cases lock with
  | spin k => exact ⟨trivial, rfl⟩
  | ex w =>
    rcases slotOf_kept hok hat hact hused with ⟨hword, hslot⟩
    exact ⟨hword, congrArg Place.slot hslot⟩

/-- `GetSRWLock` works for one word. -/
theorem getterWord_act [DecidableEq W] {t : T} {s s' : SpinLock.Shared W T} {pc pc' : SpinLock.Pc W}
    (hidle : pc ≠ .idle) (hact : SpinLock.Act t s pc s' pc') {w : W}
    (h : getterWord pc' = some w) : getterWord pc = some w := by
  cases hact with
  | call => exact absurd rfl hidle
  | tooMany | noMemory | aboveCount | noBlock | ret => cases h
  | _ => exact h

/-! ## The steps -/

/-- `KeTestSpinLock`; `ptr` has the word `Ptr` of every `SRWLOCK`. What else than the holders a
word stands for (threads in the queue) is known to the `SRWLOCK` routines alone. -/
def keTestSpinLock (ptr : Place K → UInt64) (k : K) : Bool := ptr (.own k) = 0

/-- What is relied on of the words: one with the value of a new `SRWLOCK` has no holder. -/
def Words (ptr : Place K → UInt64) (srw : Place K → Rw) : Prop := ∀ p, ptr p = 0 → srw p = free

variable [DecidableEq K] [DecidableEq W] [DecidableEq T]

/-- The steps of a thread whose callers make the calls that are `ok`. -/
inductive Act (ok : Core K W → Call K W → Prop) (t : T) :
    Shared K W T → Local K W → Shared K W T → Local K W → Prop
  | call {s : Shared K W T} {l : Local K W} (call : Call K W) :
      l.code = [] → l.failed = false → call.Valid l.core → ok l.core call →
      Act ok t s l s { l with core := call.start l.core, code := call.code, place := none }
  -- what concerns the thread alone
  | quiet {s : Shared K W T} {l : Local K W} {i : Instr} {code : List Instr} {c : Core K W} :
      l.code = i :: code → i.quiet = true → i.run l.core = some c →
      Act ok t s l s { l with core := c, code := code }
  | assertion {s : Shared K W T} {l : Local K W} {i : Instr} {code : List Instr} :
      l.code = i :: code → i.quiet = true → i.run l.core = none →
      Act ok t s l s { l with code := [], failed := true }
  | enter {s : Shared K W T} {l : Local K W} {code : List Instr} :
      l.code = .enter :: code →
      Act ok t s l s { l with core := l.core.push l.core.newIrql, code := code }
  | leave {s : Shared K W T} {l : Local K W} {code : List Instr} :
      l.code = .leave :: code → Act ok t s l s { l with core := l.core.pop, code := code }
  -- `(SRWLOCK *)SpinLock`
  | cast {s : Shared K W T} {l : Local K W} {code : List Instr} {k : K} :
      l.code = .find :: code → l.core.lock = some (.spin k) →
      Act ok t s l s { l with place := some (.own k), code := code }
  -- `GetSRWLock(SpinLock)`
  | lookUp {s : Shared K W T} {l : Local K W} {code : List Instr} {w : W} :
      l.code = .find :: code → l.core.lock = some (.ex w) → l.getter = .idle →
      Act ok t s l s { l with getter := .read w }
  | getter {s : Shared K W T} {l : Local K W} {slots : SpinLock.Shared W T} {g : SpinLock.Pc W} :
      l.getter ≠ .idle → (∀ w i, l.getter ≠ .address w i) →
      SpinLock.Act t s.slots l.getter slots g →
      Act ok t s l { s with slots := slots } { l with getter := g }
  | found {s : Shared K W T} {l : Local K W} {code : List Instr} {w : W} {i : UInt32} :
      l.code = .find :: code → l.getter = .address w i →
      Act ok t s l
        { s with
          slots := { s.slots with
            returned := s.slots.returned ++
              [(w, ⟨s.slots.lockv (i / SpinLock.maxv), i % SpinLock.maxv⟩)] } }
        { l with
          place := some (.slot ⟨s.slots.lockv (i / SpinLock.maxv), i % SpinLock.maxv⟩)
          getter := .idle
          code := code }
  -- `AcquireSRWLockExclusive`, `AcquireSRWLockShared`
  | acquire {s : Shared K W T} {l : Local K W} {mode : Mode} {code : List Instr} {p : Place K}
      {lock : Lock K W} :
      l.code = .acquire mode :: code → l.place = some p → l.core.lock = some lock →
      (s.srw p).CanTake mode →
      Act ok t s l
        { s with
          srw := Function.update s.srw p ((s.srw p).take mode)
          holds := ⟨t, lock, mode⟩ :: s.holds }
        { l with core := l.core.push l.core.newIrql, code := code }
  -- `TryAcquireSRWLockExclusive`
  | tryAcquire {s : Shared K W T} {l : Local K W} {mode : Mode} {code : List Instr} {p : Place K}
      {lock : Lock K W} :
      l.code = .tryAcquire mode :: code → l.place = some p → l.core.lock = some lock →
      (s.srw p).CanTake mode →
      Act ok t s l
        { s with
          srw := Function.update s.srw p ((s.srw p).take mode)
          holds := ⟨t, lock, mode⟩ :: s.holds }
        { l with core := l.core.push l.core.irql, code := code }
  | tryFails {s : Shared K W T} {l : Local K W} {mode : Mode} {code : List Instr} {p : Place K} :
      l.code = .tryAcquire mode :: code → l.place = some p → ¬ (s.srw p).CanTake mode →
      Act ok t s l s { l with code := code }
  -- `ReleaseSRWLockExclusive`, `ReleaseSRWLockShared`
  | release {s : Shared K W T} {l : Local K W} {mode : Mode} {code : List Instr} {p : Place K}
      {lock : Lock K W} :
      l.code = .release mode :: code → l.place = some p → l.core.lock = some lock →
      Act ok t s l
        { s with
          srw := Function.update s.srw p ((s.srw p).give mode)
          holds := s.holds.erase ⟨t, lock, mode⟩ }
        { l with core := l.core.pop, code := code }

/-- No lock has been used, and every thread is at `PASSIVE_LEVEL`. -/
def Init (c : Conf (Shared K W T) T (Local K W)) : Prop :=
  c.shared = ⟨⟨fun _ => 0, 1, fun _ => none, none, []⟩, fun _ => free, []⟩ ∧
    ∀ t, (c.pc t).core.irql = passiveLevel ∧ (c.pc t).core.frames = [] ∧ (c.pc t).code = [] ∧
      (c.pc t).failed = false ∧ (c.pc t).getter = .idle ∧ (c.pc t).place = none

/-! ## The invariant -/

/-- Those who hold a lock in this place. -/
def holdersAt (s : Shared K W T) (p : Place K) : List (Hold K W T) :=
  s.holds.filter fun h => placeOf s.slots h.lock = p

/-- What holds of the shared data after every step. -/
structure SharedOk (s : Shared K W T) : Prop where
  slots : SpinLock.SlotsOk s.slots
  used : ∀ h ∈ s.holds, Used s.slots h.lock
  stands : ∀ p, HeldBy Hold.mode (s.srw p) (holdersAt s p)

/-- What a thread knows where it stands. -/
structure AtPoint (ok : Core K W → Call K W → Prop) (t : T) (s : Shared K W T) (l : Local K W) :
    Prop where
  getter : SpinLock.AtPoint t s.slots l.getter
  word : ∀ w, getterWord l.getter = some w →
    l.core.lock = some (.ex w) ∧ ∃ code, l.code = .find :: code
  place : ∀ p, l.place = some p →
    ∃ lock, l.core.lock = some lock ∧ Used s.slots lock ∧ p = placeOf s.slots lock
  fits : Fits l.place.isSome l.code l.core
  -- the thread has what is recorded of it
  counts : ∀ lock mode, s.holds.count ⟨t, lock, mode⟩ =
    l.core.frames.countP fun f => decide (f.IsOf lock mode)
  irql : (∀ c call, ok c call → call.Disciplined c) → Runs l.code l.core ∧ l.failed = false

/-! ## Every step keeps the invariant -/

/-- The conclusion of a step for the rule of `Wdutf.Lib.Threads`. -/
def StepOk (ok : Core K W → Call K W → Prop) (c : Conf (Shared K W T) T (Local K W)) (t : T)
    (s' : Shared K W T) (l' : Local K W) : Prop :=
  ∃ _g : Unit, SharedOk s' ∧ AtPoint ok t s' l' ∧
    ∀ u, u ≠ t → AtPoint ok u c.shared (c.pc u) → AtPoint ok u s' (c.pc u)

variable {ok : Core K W → Call K W → Prop}

/-- A step that changes no shared data. -/
theorem stepOk_same {c : Conf (Shared K W T) T (Local K W)} {t : T} {l' : Local K W}
    (hok : SharedOk c.shared) (hat : AtPoint ok t c.shared l') : StepOk ok c t c.shared l' :=
  ⟨(), hok, hat, fun _ _ hu => hu⟩

/-- What a step of `GetSRWLock` does to those who hold a lock. -/
theorem stepOk_slots {c : Conf (Shared K W T) T (Local K W)} {t : T}
    {slots : SpinLock.Shared W T} {g : SpinLock.Pc W} {l' : Local K W} (hok : SharedOk c.shared)
    (hat : AtPoint ok t c.shared (c.pc t))
    (hact : SpinLock.Act t c.shared.slots (c.pc t).getter slots g)
    (hself : SpinLock.AtPoint t slots g → AtPoint ok t { c.shared with slots := slots } l') :
    StepOk ok c t { c.shared with slots := slots } l' := by
  have hstep := SpinLock.act_stepOk (c := ⟨c.shared.slots, fun u => (c.pc u).getter⟩) hok.slots
    hat.getter hact
  rcases hstep with ⟨_, hslots, hgetter, hothers⟩
  have hkept : ∀ lock : Lock K W, Used c.shared.slots lock →
      Used slots lock ∧ placeOf slots lock = placeOf c.shared.slots lock :=
    fun lock hused => placeOf_kept hok.slots hat.getter hact hused
  refine ⟨(), ⟨hslots, fun h hh => (hkept _ (hok.used h hh)).1, ?_⟩, hself hgetter, ?_⟩
  · intro p
    have hsame : holdersAt { c.shared with slots := slots } p = holdersAt c.shared p := by
      refine List.filter_congr fun h hh => ?_
      show decide (placeOf slots h.lock = p) = decide (placeOf c.shared.slots h.lock = p)
      rw [(hkept _ (hok.used h hh)).2]
    rw [hsame]
    exact hok.stands p
  · intro u hu hatu
    refine ⟨hothers u hu hatu.getter, hatu.word, ?_, hatu.fits, hatu.counts,
      hatu.irql⟩
    intro p hp
    rcases hatu.place p hp with ⟨lock, hlock, hused, rfl⟩
    exact ⟨lock, hlock, (hkept lock hused).1, (hkept lock hused).2.symm⟩

/-- A disciplined thread after its next instruction. -/
theorem AtPoint.irql_next {t : T} {s : Shared K W T} {l : Local K W} (hat : AtPoint ok t s l)
    {i : Instr} (hi : ∀ mode, i ≠ .tryAcquire mode) {code : List Instr} (hcode : l.code = i :: code)
    {c : Core K W} (hrun : i.run l.core = some c)
    (hdis : ∀ c call, ok c call → call.Disciplined c) : Runs code c ∧ l.failed = false := by
  rcases hat.irql hdis with ⟨hruns, hfailed⟩
  rw [hcode] at hruns
  rcases hruns.next hi with ⟨c', hrun', hruns'⟩
  rw [hrun] at hrun'
  cases hrun'
  exact ⟨hruns', hfailed⟩

/-- A thread takes its lock, and the frame is its caller's. -/
theorem stepOk_take {c : Conf (Shared K W T) T (Local K W)} {t : T} {mode : Mode} {p : Place K}
    {lock : Lock K W} {irql : UInt8} {code : List Instr} (hok : SharedOk c.shared)
    (hat : AtPoint ok t c.shared (c.pc t)) (hplace : (c.pc t).place = some p)
    (hlock : (c.pc t).core.lock = some lock) (hcan : (c.shared.srw p).CanTake mode)
    (hword : ∀ w, getterWord (c.pc t).getter ≠ some w) (hmode : (c.pc t).core.pair.mode = mode)
    (hfits : Fits true code ((c.pc t).core.push irql))
    (hirql : (∀ c call, ok c call → call.Disciplined c) →
      Runs code ((c.pc t).core.push irql) ∧ (c.pc t).failed = false) :
    StepOk ok c t
      { c.shared with
        srw := Function.update c.shared.srw p ((c.shared.srw p).take mode)
        holds := ⟨t, lock, mode⟩ :: c.shared.holds }
      { c.pc t with core := (c.pc t).core.push irql, code := code } := by
  rcases hat.place p hplace with ⟨lock', hlock', hused, rfl⟩
  rw [hlock] at hlock'
  cases hlock'
  refine ⟨(), ⟨hok.slots, ?_, ?_⟩, ⟨hat.getter, fun w hw => absurd hw (hword w),
    hat.place, ?_, ?_, hirql⟩, ?_⟩
  · intro h hh
    rcases List.mem_cons.1 hh with rfl | hh
    · exact hused
    · exact hok.used h hh
  · intro q
    show HeldBy _ (Function.update c.shared.srw _ _ q) (List.filter _ (_ :: c.shared.holds))
    by_cases hq : q = placeOf c.shared.slots lock
    · subst hq
      rw [Function.update_self, List.filter_cons_of_pos (by simp)]
      exact (hok.stands _).take (h := ⟨t, lock, mode⟩) hcan
    · rw [Function.update_of_ne hq, List.filter_cons_of_neg (by simpa using Ne.symm hq)]
      exact hok.stands q
  · show Fits (c.pc t).place.isSome code _
    rw [hplace]
    exact hfits
  · intro lock' mode'
    show List.count _ (_ :: c.shared.holds) = List.countP _ (_ :: (c.pc t).core.frames)
    rw [List.count_cons, List.countP_cons, hat.counts lock' mode']
    have hiff : ((⟨t, lock, mode⟩ : Hold K W T) == ⟨t, lock', mode'⟩) =
        decide ((⟨(c.pc t).core.lock, (c.pc t).core.pair, irql, (c.pc t).core.irql⟩ :
          Frame K W).IsOf lock' mode') := by
      rw [hlock, Bool.eq_iff_iff, beq_iff_eq, decide_eq_true_iff, Frame.IsOf, hmode]
      simp
    rw [hiff]
  · intro u hu hatu
    refine ⟨hatu.getter, hatu.word, hatu.place, hatu.fits, ?_, hatu.irql⟩
    intro lock' mode'
    have hne : (⟨t, lock, mode⟩ : Hold K W T) ≠ ⟨u, lock', mode'⟩ := by
      intro h
      exact hu (congrArg Hold.thread h).symm
    show List.count _ (_ :: c.shared.holds) = _
    rw [List.count_cons_of_ne hne]
    exact hatu.counts lock' mode'

/-- A thread gives its lock back. -/
theorem stepOk_give {c : Conf (Shared K W T) T (Local K W)} {t : T} {mode : Mode} {p : Place K}
    {lock : Lock K W} {code : List Instr} (hok : SharedOk c.shared)
    (hat : AtPoint ok t c.shared (c.pc t)) (hcode : (c.pc t).code = .release mode :: code)
    (hplace : (c.pc t).place = some p) (hlock : (c.pc t).core.lock = some lock)
    (hword : ∀ w, getterWord (c.pc t).getter ≠ some w) :
    StepOk ok c t
      { c.shared with
        srw := Function.update c.shared.srw p ((c.shared.srw p).give mode)
        holds := c.shared.holds.erase ⟨t, lock, mode⟩ }
      { c.pc t with core := (c.pc t).core.pop, code := code } := by
  rcases hat.place p hplace with ⟨lock', hlock', hused, rfl⟩
  rw [hlock] at hlock'
  cases hlock'
  have hfits := hat.fits
  rw [hcode, hplace] at hfits
  rcases hfits with ⟨-, ⟨f, lock', hframe, hmem, hlock', hf⟩, hfits⟩
  rw [hlock] at hlock'
  cases hlock'
  have hheld : (⟨t, lock, mode⟩ : Hold K W T) ∈ c.shared.holds := by
    rw [← List.count_pos_iff, hat.counts lock mode, List.countP_pos_iff]
    exact ⟨f, hmem, decide_eq_true hf⟩
  refine ⟨(), ⟨hok.slots, ?_, ?_⟩, ⟨hat.getter, fun w hw => absurd hw (hword w), ?_,
    ?_, ?_, ?_⟩, ?_⟩
  · exact fun h hh => hok.used h (List.mem_of_mem_erase hh)
  · intro q
    show HeldBy _ (Function.update c.shared.srw _ _ q)
      (List.filter _ (c.shared.holds.erase ⟨t, lock, mode⟩))
    by_cases hq : q = placeOf c.shared.slots lock
    · subst hq
      rw [Function.update_self, ← List.erase_filter]
      exact (hok.stands _).give (h := ⟨t, lock, mode⟩) (List.mem_filter.2 ⟨hheld, by simp⟩)
    · rw [Function.update_of_ne hq, ← List.erase_filter, List.erase_of_not_mem]
      · exact hok.stands q
      · intro h
        exact hq (of_decide_eq_true (List.mem_filter.1 h).2).symm
  · intro q hq
    rw [Core.pop_of_frame hframe]
    exact hat.place q hq
  · show Fits (c.pc t).place.isSome code _
    rw [hplace]
    exact hfits
  · intro lock' mode'
    show List.count _ (c.shared.holds.erase _) = List.countP _ (c.pc t).core.pop.frames
    rw [Core.pop_of_frame hframe]
    show _ = List.countP _ ((c.pc t).core.frames.erase f)
    have hheld' := (List.perm_cons_erase hheld).count_eq ⟨t, lock', mode'⟩
    have hmem' := (List.perm_cons_erase hmem).countP_eq fun f => decide (f.IsOf lock' mode')
    rw [List.count_cons] at hheld'
    rw [List.countP_cons] at hmem'
    have hiff : ((⟨t, lock, mode⟩ : Hold K W T) == ⟨t, lock', mode'⟩) =
        decide (f.IsOf lock' mode') := by
      rw [Bool.eq_iff_iff, beq_iff_eq, decide_eq_true_iff, Frame.IsOf, hf.1, hf.2]
      simp
    have hcounts := hat.counts lock' mode'
    rw [hiff] at hheld'
    omega
  · exact hat.irql_next (by simp) hcode rfl
  · intro u hu hatu
    refine ⟨hatu.getter, hatu.word, hatu.place, hatu.fits, ?_, hatu.irql⟩
    intro lock' mode'
    have hne : (⟨u, lock', mode'⟩ : Hold K W T) ≠ ⟨t, lock, mode⟩ := by
      intro h
      exact hu (congrArg Hold.thread h)
    show List.count _ (c.shared.holds.erase _) = _
    rw [List.count_erase_of_ne hne]
    exact hatu.counts lock' mode'

/-- A thread that is not at the lookup of its lock is not in `GetSRWLock`. -/
theorem AtPoint.no_word {t : T} {s : Shared K W T} {l : Local K W} (hat : AtPoint ok t s l)
    (h : ∀ code, l.code ≠ .find :: code) (w : W) : getterWord l.getter ≠ some w := by
  intro hw
  rcases (hat.word w hw).2 with ⟨code, hcode⟩
  exact h code hcode

/-- Every step keeps the invariant. -/
theorem act_stepOk {c : Conf (Shared K W T) T (Local K W)} {t : T} {s' : Shared K W T}
    {l' : Local K W} (hok : SharedOk c.shared) (hat : AtPoint ok t c.shared (c.pc t))
    (hact : Act ok t c.shared (c.pc t) s' l') : StepOk ok c t s' l' := by
  generalize hl : c.pc t = l at hact
  generalize hs : c.shared = s at hact
  cases hact with
  | call call hcode hfailed hvalid hcall =>
    subst hl hs
    have hword := hat.no_word (by simp [hcode])
    refine stepOk_same hok ⟨hat.getter, fun w hw => absurd hw (hword w), ?_, fits_call hvalid, ?_,
      ?_⟩
    · intro p hp
      cases hp
    · intro lock mode
      rw [hat.counts lock mode]
      cases call <;> rfl
    · intro hdis
      rcases hat.irql hdis with ⟨hruns, -⟩
      rw [hcode] at hruns
      exact ⟨runs_call hruns hvalid (hdis _ _ hcall), hfailed⟩
  | @quiet i code c' hcode hi hrun =>
    subst hl hs
    have hsame := sameCall_run hi hrun
    have hword := hat.no_word (by rw [hcode]; rintro code' ⟨⟩; cases hi)
    have hfits := hat.fits
    rw [hcode, fits_cons_quiet hi] at hfits
    refine stepOk_same hok ⟨hat.getter, fun w hw => absurd hw (hword w), ?_, hfits _ hrun, ?_,
      ?_⟩
    · intro p hp
      rw [hsame.lock]
      exact hat.place p hp
    · rw [hsame.frames]
      exact hat.counts
    · exact hat.irql_next (by rintro mode rfl; cases hi) hcode hrun
  | @assertion i code hcode hi hrun =>
    subst hl hs
    have hword := hat.no_word (by rw [hcode]; rintro code' ⟨⟩; cases hi)
    refine stepOk_same hok ⟨hat.getter, fun w hw => absurd hw (hword w), hat.place, ?_,
      hat.counts, ?_⟩
    · rw [Fits]
      trivial
    · intro hdis
      -- a disciplined caller's assertion does not fail
      rcases hat.irql hdis with ⟨hruns, -⟩
      rw [hcode] at hruns
      rcases hruns.next (by rintro mode rfl; cases hi) with ⟨c', hrun', -⟩
      rw [hrun] at hrun'
      cases hrun'
  | @enter code hcode =>
    subst hl hs
    have hword := hat.no_word (by simp [hcode])
    have hfits := hat.fits
    rw [hcode] at hfits
    refine stepOk_same hok ⟨hat.getter, fun w hw => absurd hw (hword w), hat.place, hfits.2, ?_,
      ?_⟩
    · intro lock mode
      rw [hat.counts lock mode]
      refine (List.countP_cons_of_neg ?_).symm
      simp [Frame.IsOf, hfits.1]
    · exact hat.irql_next (by simp) hcode rfl
  | @leave code hcode =>
    subst hl hs
    have hword := hat.no_word (by simp [hcode])
    have hfits := hat.fits
    rw [hcode] at hfits
    rcases hfits with ⟨⟨f, hframe, hnone⟩, hfits⟩
    have hpop := Core.pop_of_frame hframe
    refine stepOk_same hok ⟨hat.getter, fun w hw => absurd hw (hword w), ?_, hfits, ?_, ?_⟩
    · rw [hpop]
      exact hat.place
    · intro lock mode
      rw [hat.counts lock mode, hpop]
      show _ = List.countP _ ((c.pc t).core.frames.erase f)
      by_cases hmem : f ∈ (c.pc t).core.frames
      · rw [(List.perm_cons_erase hmem).countP_eq, List.countP_cons_of_neg]
        simp [Frame.IsOf, hnone]
      · rw [List.erase_of_not_mem hmem]
    · exact hat.irql_next (by simp) hcode rfl
  | @cast code k hcode hlock =>
    subst hl hs
    have hfits := hat.fits
    rw [hcode] at hfits
    refine stepOk_same hok ⟨hat.getter, ?_, ?_, hfits.2, hat.counts, ?_⟩
    · intro w hw
      have hlock' := (hat.word w hw).1
      rw [hlock] at hlock'
      cases hlock'
    · intro p hp
      cases hp
      exact ⟨.spin k, hlock, trivial, rfl⟩
    · exact hat.irql_next (by simp) hcode rfl
  | @lookUp code w hcode hlock hidle =>
    subst hl hs
    refine stepOk_same hok ⟨trivial, ?_, hat.place, hat.fits, hat.counts, hat.irql⟩
    intro w' hw'
    cases hw'
    exact ⟨hlock, code, hcode⟩
  | @getter slots g hidle hret hact =>
    subst hl hs
    have hkept : ∀ lock : Lock K W, Used c.shared.slots lock →
        Used slots lock ∧ placeOf slots lock = placeOf c.shared.slots lock :=
      fun lock hused => placeOf_kept hok.slots hat.getter hact hused
    refine stepOk_slots hok hat hact fun hg => ⟨hg, ?_, ?_, hat.fits, hat.counts, hat.irql⟩
    · exact fun w hw => hat.word w (getterWord_act hidle hact hw)
    · intro p hp
      rcases hat.place p hp with ⟨lock, hlock, hused, rfl⟩
      exact ⟨lock, hlock, (hkept lock hused).1, (hkept lock hused).2.symm⟩
  | @found code w i hcode hget =>
    subst hl hs
    have hpoint := hat.getter
    have hword := hat.word
    rw [hget] at hpoint hword
    have hfits := hat.fits
    rw [hcode] at hfits
    have hact : SpinLock.Act t c.shared.slots (c.pc t).getter _ .idle := hget ▸ SpinLock.Act.ret
    refine stepOk_slots hok hat hact fun _ => ⟨trivial, ?_, ?_, hfits.2, hat.counts, ?_⟩
    · intro w' hw'
      cases hw'
    · intro p hp
      cases hp
      refine ⟨.ex w, (hword w rfl).1, ?_, ?_⟩
      · show c.shared.slots.word w ≠ 0
        rw [hpoint.2]
        exact hpoint.1
      · show _ = Place.slot (slotOf c.shared.slots w)
        rw [slotOf, hpoint.2]
    · exact hat.irql_next (by simp) hcode rfl
  | acquire hcode hplace hlock hcan =>
    subst hl hs
    have hfits := hat.fits
    rw [hcode, hplace] at hfits
    exact stepOk_take hok hat hplace hlock hcan (hat.no_word (by simp [hcode])) hfits.2.1
      hfits.2.2 (hat.irql_next (by simp) hcode rfl)
  | tryAcquire hcode hplace hlock hcan =>
    subst hl hs
    have hfits := hat.fits
    rw [hcode, hplace] at hfits
    refine stepOk_take hok hat hplace hlock hcan (hat.no_word (by simp [hcode])) hfits.2.1
      hfits.2.2.1 fun hdis => ?_
    rcases hat.irql hdis with ⟨hruns, hfailed⟩
    rw [hcode] at hruns
    exact ⟨hruns.2.1, hfailed⟩
  | tryFails hcode hplace hcan =>
    subst hl hs
    have hword := hat.no_word (by simp [hcode])
    have hfits := hat.fits
    rw [hcode] at hfits
    refine stepOk_same hok ⟨hat.getter, fun w hw => absurd hw (hword w), hat.place,
      hfits.2.2.2, hat.counts, ?_⟩
    intro hdis
    rcases hat.irql hdis with ⟨hruns, hfailed⟩
    rw [hcode] at hruns
    exact ⟨hruns.2.2, hfailed⟩
  | release hcode hplace hlock =>
    subst hl hs
    exact stepOk_give hok hat hcode hplace hlock (hat.no_word (by simp [hcode]))

/-- The invariant of every run. -/
theorem locks_invariant {ts : List T} {c : Conf (Shared K W T) T (Local K W)}
    (h : Trace Init (Step (Act ok)) ts c) :
    SharedOk c.shared ∧ ∀ t, AtPoint ok t c.shared (c.pc t) := by
  have hholds : Holds (fun _ : Unit => SharedOk) (fun t _ => AtPoint ok t) c := by
    refine Threads.invariant ?_ ?_ h
    · rintro ⟨shared, pc⟩ ⟨rfl, hpc⟩
      refine ⟨(), ⟨SpinLock.slotsOk_init, ?_, fun _ => heldBy_free⟩, ?_⟩
      · exact fun h hh => absurd hh List.not_mem_nil
      · intro t
        rcases hpc t with ⟨hirql, hframes, hcode, hfailed, hgetter, hplace⟩
        refine ⟨?_, ?_, ?_, ?_, ?_, ?_⟩
        · rw [hgetter]
          trivial
        · intro w hw
          rw [hgetter] at hw
          cases hw
        · intro p hp
          rw [hplace] at hp
          cases hp
        · rw [hcode, Fits]
          trivial
        · intro lock mode
          rw [hframes]
          rfl
        · intro _
          rw [hcode, Runs, hframes]
          exact ⟨hirql, hfailed⟩
    · intro g c t s l hok hat hact
      exact act_stepOk hok (hat t) hact
  rcases hholds with ⟨_, hok, hat⟩
  exact ⟨hok, hat⟩

/-! ## Readers and writers -/

/-- What the callers of the spin locks rely on. -/
structure Excluded (c : Conf (Shared K W T) T (Local K W)) : Prop where
  /-- Who holds a lock exclusively is alone. -/
  alone : ∀ h ∈ c.shared.holds, h.mode = .exclusive →
    (c.shared.holds.filter fun h' => h'.lock = h.lock) = [h]
  /-- A thread holds what it has taken and not given back. -/
  holders : ∀ t lock mode, c.shared.holds.count ⟨t, lock, mode⟩ =
    (c.pc t).core.frames.countP fun f => decide (f.IsOf lock mode)
  /-- A thread is kept out by a holder of the lock that it wants, and of no other. -/
  waits : ∀ t mode code p,
    (c.pc t).code = .acquire mode :: code ∨ (c.pc t).code = .tryAcquire mode :: code →
    (c.pc t).place = some p → ¬ (c.shared.srw p).CanTake mode →
    ∃ h ∈ c.shared.holds, (c.pc t).core.lock = some h.lock ∧
      (mode = .exclusive ∨ h.mode = .exclusive)
  /-- An `SRWLOCK` is released the way it is held. -/
  released : ∀ t mode code p, (c.pc t).code = .release mode :: code → (c.pc t).place = some p →
    (c.shared.srw p).Taken mode
  /-- `KeTestSpinLock` gives `TRUE` only if nobody holds the lock. -/
  tested : ∀ ptr, Words ptr c.shared.srw → ∀ k, keTestSpinLock ptr k = true →
    ∀ h ∈ c.shared.holds, h.lock ≠ .spin k
  /-- "Uninitialized read write lock" does not occur. -/
  initialized : ∀ t, (c.pc t).getter ≠ .failed .uninitialized

omit [DecidableEq T] in
/-- The holders of a lock are those in its place. -/
theorem SharedOk.holders {s : Shared K W T} (hok : SharedOk s) (lock : Lock K W) :
    holdersAt s (placeOf s.slots lock) = s.holds.filter fun h => h.lock = lock := by
  refine List.filter_congr fun h hh => ?_
  rw [decide_eq_decide]
  constructor
  · exact placeOf_injective hok.slots (hok.used h hh)
  · intro heq
    rw [heq]

/-- **The spin locks of any number of threads**, after every interleaving of their steps,
whatever calls they make. -/
theorem spinLocks_excluded {ts : List T} {c : Conf (Shared K W T) T (Local K W)}
    (h : Trace Init (Step (Act ok)) ts c) : Excluded c := by
  rcases locks_invariant h with ⟨hok, hat⟩
  constructor
  case alone =>
    intro h hh hmode
    have hstands := hok.stands (placeOf c.shared.slots h.lock)
    have hmem : h ∈ holdersAt c.shared (placeOf c.shared.slots h.lock) :=
      List.mem_filter.2 ⟨hh, decide_eq_true rfl⟩
    rw [← hok.holders h.lock]
    exact hstands.alone hmem hmode
  case holders => exact fun t => (hat t).counts
  case waits =>
    intro t mode code p _ hplace hcan
    rcases (hat t).place p hplace with ⟨lock, hlock, -, rfl⟩
    have hstands := hok.stands (placeOf c.shared.slots lock)
    rw [hok.holders lock] at hstands
    rcases hstands.blocked hcan with ⟨h, hh, hmodes⟩
    rcases List.mem_filter.1 hh with ⟨hmem, heq⟩
    exact ⟨h, hmem, by rw [hlock, of_decide_eq_true heq], hmodes⟩
  case released =>
    intro t mode code p hcode hplace
    rcases (hat t).place p hplace with ⟨lock, hlock, -, rfl⟩
    have hfits := (hat t).fits
    rw [hcode] at hfits
    rcases hfits with ⟨-, ⟨f, lock', -, hmem, hlock', hf⟩, -⟩
    rw [hlock] at hlock'
    cases hlock'
    have hheld : (⟨t, lock, mode⟩ : Hold K W T) ∈ c.shared.holds := by
      rw [← List.count_pos_iff, (hat t).counts lock mode, List.countP_pos_iff]
      exact ⟨f, hmem, decide_eq_true hf⟩
    have hstands := hok.stands (placeOf c.shared.slots lock)
    exact hstands.taken (h := ⟨t, lock, mode⟩) (List.mem_filter.2 ⟨hheld, decide_eq_true rfl⟩)
  case tested =>
    intro ptr hwords k htest
    have hstands := hok.stands (.own k)
    have hholders : holdersAt c.shared (.own k) =
        c.shared.holds.filter fun h => h.lock = .spin k := hok.holders (.spin k)
    have hfree := hwords _ (of_decide_eq_true htest)
    rw [hholders, hfree] at hstands
    have hnil := hstands.free_iff.1 rfl
    rw [List.filter_eq_nil_iff] at hnil
    exact fun h hh heq => hnil h hh (decide_eq_true heq)
  case initialized =>
    intro t hget
    have hpoint := (hat t).getter
    rw [hget] at hpoint
    exact hpoint rfl

/-- A thread takes an `EX_SPIN_LOCK` exclusively, with the slot that it has given to it;
another thread finds the slot and waits. -/
theorem spinLocks_excluded_waits :
    ∃ (ts : List Bool) (c : Conf (Shared Unit Unit Bool) Bool (Local Unit Unit)),
      Trace Init (Step (Act fun _ _ => True)) ts c ∧
      c.shared.holds = [⟨true, .ex (), .exclusive⟩] ∧
      (c.pc false).code = [.acquire .shared] ∧ Excluded c := by
  have h0 : Trace (Init (K := Unit) (W := Unit) (T := Bool)) (Step (Act fun _ _ => True)) []
      ⟨⟨⟨fun _ => 0, 1, fun _ => none, none, []⟩, fun _ => free, []⟩,
        fun _ => ⟨⟨0, 0, none, raisePair, none, []⟩, [], false, .idle, none⟩⟩ :=
    Trace.start ⟨rfl, fun _ => ⟨rfl, rfl, rfl, rfl, rfl, rfl⟩⟩
  have h1 := run_step h0 true (Act.call (.acquire (.ex ())
    ⟨exAcquireSpinLockExclusive, .exclusive, ⟨exReleaseSpinLockExclusive, false⟩, false⟩) rfl rfl
    (by show _ ∈ exPairs; decide) trivial)
  have h2 := run_step h1 true (Act.quiet rfl rfl rfl)
  have h3 := run_step h2 true (Act.quiet rfl rfl rfl)
  have h4 := run_step h3 true (Act.lookUp rfl rfl rfl)
  have h5 := run_step h4 true (Act.getter (by simp) (by simp) (SpinLock.Act.readZero rfl))
  have h6 := run_step h5 true (Act.getter (by simp) (by simp) (SpinLock.Act.acquire rfl))
  have h7 := run_step h6 true (Act.getter (by simp) (by simp) (SpinLock.Act.recheckZero rfl))
  have h8 := run_step h7 true (Act.getter (by simp) (by simp) (SpinLock.Act.take (by decide)))
  have h9 := run_step h8 true (Act.getter (by simp) (by simp)
    (SpinLock.Act.calloc 0 rfl (by intro k h; cases h)))
  have h10 := run_step h9 true (Act.getter (by simp) (by simp) SpinLock.Act.count)
  have h11 := run_step h10 true (Act.getter (by simp) (by simp) SpinLock.Act.publish)
  have h12 := run_step h11 true (Act.getter (by simp) (by simp) SpinLock.Act.release)
  have h13 := run_step h12 true (Act.getter (by simp) (by simp)
    (SpinLock.Act.belowCount (by decide)))
  have h14 := run_step h13 true (Act.getter (by simp) (by simp) (SpinLock.Act.block (by decide)))
  have h15 := run_step h14 true (Act.found rfl rfl)
  have h16 := run_step h15 true (Act.acquire rfl rfl rfl (by decide))
  have h17 := run_step h16 false (Act.call (.acquire (.ex ())
    ⟨exAcquireSpinLockShared, .shared, ⟨exReleaseSpinLockShared, false⟩, false⟩) rfl rfl
    (by show _ ∈ exPairs; decide) trivial)
  have h18 := run_step h17 false (Act.quiet rfl rfl rfl)
  have h19 := run_step h18 false (Act.quiet rfl rfl rfl)
  have h20 := run_step h19 false (Act.lookUp rfl rfl rfl)
  have h21 := run_step h20 false (Act.getter (by simp) (by simp)
    (SpinLock.Act.readIndex (by decide)))
  have h22 := run_step h21 false (Act.getter (by simp) (by simp)
    (SpinLock.Act.belowCount (by decide)))
  have h23 := run_step h22 false (Act.getter (by simp) (by simp) (SpinLock.Act.block (by decide)))
  have h24 := run_step h23 false (Act.found rfl rfl)
  exact ⟨_, _, h24, rfl, rfl, spinLocks_excluded h24⟩

/-! ## The IRQL -/

/-- What holds for callers that keep the documented discipline. -/
structure Kept (c : Conf (Shared K W T) T (Local K W)) : Prop where
  /-- No assertion fails. -/
  passes : ∀ t, (c.pc t).failed = false
  /-- Who holds a lock is at `DISPATCH_LEVEL` or above. -/
  dispatch : ∀ h ∈ c.shared.holds, dispatchLevel ≤ (c.pc h.thread).core.irql
  /-- Between the calls, the frames of a thread stand on one another. -/
  stack : ∀ t, (c.pc t).code = [] → Ladder (c.pc t).core.frames (c.pc t).core.irql

/-- **The IRQL of the threads**, after every interleaving of their steps, where all calls
are disciplined. -/
theorem spinLocks_irql {ts : List T} {c : Conf (Shared K W T) T (Local K W)}
    (h : Trace Init (Step (Act Call.Disciplined)) ts c) : Kept c := by
  rcases locks_invariant h with ⟨hok, hat⟩
  have hirql := fun t => (hat t).irql fun _ _ hdis => hdis
  constructor
  case passes => exact fun t => (hirql t).2
  case dispatch =>
    intro h hh
    have hcount := List.count_pos_iff.2 hh
    rw [(hat h.thread).counts h.lock h.mode, List.countP_pos_iff] at hcount
    rcases hcount with ⟨f, hmem, hf⟩
    rcases (hirql h.thread).1.covers f hmem with ⟨hle, hdispatch⟩
    refine UInt8.le_trans (hdispatch ?_) hle
    rw [(of_decide_eq_true hf).1]
    exact Option.some_ne_none _
  case stack =>
    intro t hcode
    have hruns := (hirql t).1
    rw [hcode] at hruns
    exact hruns

/-- A thread takes two locks, the second one at `DISPATCH_LEVEL`, and gives both back. -/
theorem spinLocks_irql_nested :
    ∃ (ts : List Unit) (c : Conf (Shared Bool Unit Unit) Unit (Local Bool Unit)),
      Trace Init (Step (Act Call.Disciplined)) ts c ∧ c.shared.holds = [] ∧
      (c.pc ()).core.irql = passiveLevel ∧ Kept c := by
  have h0 : Trace (Init (K := Bool) (W := Unit) (T := Unit)) (Step (Act Call.Disciplined)) []
      ⟨⟨⟨fun _ => 0, 1, fun _ => none, none, []⟩, fun _ => free, []⟩,
        fun _ => ⟨⟨0, 0, none, raisePair, none, []⟩, [], false, .idle, none⟩⟩ :=
    Trace.start ⟨rfl, fun _ => ⟨rfl, rfl, rfl, rfl, rfl, rfl⟩⟩
  have h1 := run_step h0 () (Act.call (.acquire (.spin true)
    ⟨keAcquireSpinLockRaiseToDpc, .exclusive, ⟨keReleaseSpinLock, false⟩, false⟩) rfl rfl
    (by show _ ∈ spinPairs; decide) (by show _ ≤ dispatchLevel; decide))
  have h2 := run_step h1 () (Act.quiet rfl rfl rfl)
  have h3 := run_step h2 () (Act.quiet rfl rfl rfl)
  have h4 := run_step h3 () (Act.cast rfl rfl)
  have h5 := run_step h4 () (Act.acquire rfl rfl rfl (by decide))
  have h6 := run_step h5 () (Act.call (.acquire (.spin false)
    ⟨keAcquireSpinLockAtDpcLevel, .exclusive, ⟨keReleaseSpinLockFromDpcLevel, true⟩, true⟩) rfl rfl
    (by show _ ∈ spinPairs; decide) (by show dispatchLevel ≤ _; decide))
  have h7 := run_step h6 () (Act.quiet rfl rfl rfl)
  have h8 := run_step h7 () (Act.quiet rfl rfl rfl)
  have h9 := run_step h8 () (Act.cast rfl rfl)
  have h10 := run_step h9 () (Act.acquire rfl rfl rfl (by decide))
  have h11 := run_step h10 () (Act.call (.giveBack ⟨some (.spin false),
    ⟨keAcquireSpinLockAtDpcLevel, .exclusive, ⟨keReleaseSpinLockFromDpcLevel, true⟩, true⟩, 2, 2⟩
    ⟨keReleaseSpinLockFromDpcLevel, true⟩ 2) rfl rfl ⟨by decide, by show _ ∈ givers _ _; decide⟩
    ⟨rfl, rfl, rfl⟩)
  have h12 := run_step h11 () (Act.quiet rfl rfl rfl)
  have h13 := run_step h12 () (Act.cast rfl rfl)
  have h14 := run_step h13 () (Act.release rfl rfl rfl)
  have h15 := run_step h14 () (Act.quiet rfl rfl rfl)
  have h16 := run_step h15 () (Act.call (.giveBack ⟨some (.spin true),
    ⟨keAcquireSpinLockRaiseToDpc, .exclusive, ⟨keReleaseSpinLock, false⟩, false⟩, 0, 2⟩
    ⟨keReleaseSpinLock, false⟩ 0) rfl rfl ⟨by decide, by show _ ∈ givers _ _; decide⟩
    ⟨rfl, rfl, rfl⟩)
  have h17 := run_step h16 () (Act.quiet rfl rfl rfl)
  have h18 := run_step h17 () (Act.cast rfl rfl)
  have h19 := run_step h18 () (Act.release rfl rfl rfl)
  have h20 := run_step h19 () (Act.quiet rfl rfl rfl)
  exact ⟨_, _, h20, rfl, rfl, spinLocks_irql h20⟩

end Wdutf.Locks
