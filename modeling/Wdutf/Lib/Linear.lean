import Mathlib.Data.List.Basic
import Mathlib.Logic.Function.Basic
import Mathlib.Tactic.Common
import Wdutf.Lib.Transition

/-!
# Wdutf.Lib.Linear — calls on a shared object and their sequential order

Threads call the operations of an object; each call runs through atomic steps on
the shared data, and calls of different threads interleave in any way. The calls
that have returned are kept with the times at which they began and ended.

* `Linearizable` — the calls can be put in an order that keeps the order of
  calls that do not overlap and in which each returns what the sequential
  specification says;
* `linearizable_of_points` — the rule: it is enough to name, for each call, a step
  at which the call takes its effect.
-/

namespace Wdutf.Linear

open Wdutf.Transition

variable {S T Op L Res A : Type*}

/-- A call that has returned, with the times of its first and last event. -/
structure Call (Op Res : Type*) where
  op : Op
  result : Res
  start : ℕ
  stop : ℕ
deriving DecidableEq, Repr

/-- The calls, made one after the other from `a` on, give these results and end in `b`. -/
def Replays (spec : A → Op → A × Res) : A → List (Op × Res) → A → Prop
  | a, [], b => a = b
  | a, (op, r) :: rest, b => (spec a op).2 = r ∧ Replays spec (spec a op).1 rest b

/-- There is a sequential order of the calls. -/
def Linearizable (spec : A → Op → A × Res) (a : A) (calls : List (Call Op Res)) (b : A) : Prop :=
  ∃ order : List (Call Op Res), order.Perm calls ∧
    order.Pairwise (fun x y => ¬ y.stop < x.start) ∧
    Replays spec a (order.map fun c => (c.op, c.result)) b

/-- One more call at the end. -/
theorem Replays.snoc {spec : A → Op → A × Res} {rest : List (Op × Res)} {b : A} (op : Op) :
    ∀ {a : A}, Replays spec a rest b →
      Replays spec a (rest ++ [(op, (spec b op).2)]) (spec b op).1 := by
  induction rest with
  | nil =>
    intro a h
    have hab : a = b := h
    subst hab
    exact ⟨rfl, rfl⟩
  | cons x rest ih =>
    intro a h
    exact ⟨h.1, ih h.2⟩

/-! ## The system -/

/-- An object: where the code of an operation starts, its atomic steps, and what it
returns at its end. -/
structure Object (S Op L Res : Type*) where
  code : Op → L
  act : S → L → Option (S × L)
  result : L → Option Res

/-- A call in progress. -/
structure Frame (Op L : Type*) where
  op : Op
  start : ℕ
  point : L

/-- The shared data, the call each thread is in, the time, and the calls that have
returned. -/
structure Conf (S T Op L Res : Type*) where
  shared : S
  busy : T → Option (Frame Op L)
  clock : ℕ
  returned : List (Call Op Res)

/-- No call is in progress. -/
def Conf.Quiet (c : Conf S T Op L Res) : Prop := ∀ t, c.busy t = none

/-- The events of a run. -/
inductive Event (T Op : Type*) where
  | call (t : T) (op : Op)
  | step (t : T)
  | ret (t : T)

/-- Before the first call. -/
def idle (s : S) : Conf S T Op L Res := ⟨s, fun _ => none, 0, []⟩

/-- A call that has taken its effect; `stop` is set when it has returned. -/
structure Entry (T Op Res : Type*) where
  thread : T
  op : Op
  result : Res
  start : ℕ
  stop : Option ℕ

/-- The call of an entry, once it has returned. -/
def Entry.call (x : Entry T Op Res) : Option (Call Op Res) :=
  x.stop.map fun k => ⟨x.op, x.result, x.start, k⟩

/-- The entry that thread `t` has in the order while its call has not returned. -/
def openEntry (busy : T → Option (Frame Op L)) (effect : T → Option Res) (t : T) :
    List (Entry T Op Res) :=
  match busy t, effect t with
  | some f, some r => [⟨t, f.op, r, f.start, none⟩]
  | _, _ => []

/-- Only the frame and the effect of the thread itself count. -/
theorem openEntry_congr {busy busy' : T → Option (Frame Op L)} {effect effect' : T → Option Res}
    {t : T} (hbusy : busy t = busy' t) (heffect : effect t = effect' t) :
    openEntry busy effect t = openEntry busy' effect' t := by
  simp only [openEntry, hbusy, heffect]

theorem openEntry_idle {busy : T → Option (Frame Op L)} {effect : T → Option Res} {t : T}
    (h : busy t = none) : openEntry busy effect t = [] := by
  simp only [openEntry, h]

theorem openEntry_none {busy : T → Option (Frame Op L)} {effect : T → Option Res} {t : T}
    (h : effect t = none) : openEntry busy effect t = [] := by
  simp only [openEntry, h]
  cases busy t <;> rfl

theorem openEntry_some {busy : T → Option (Frame Op L)} {effect : T → Option Res} {t : T}
    {f : Frame Op L} {r : Res} (h : busy t = some f) (hr : effect t = some r) :
    openEntry busy effect t = [⟨t, f.op, r, f.start, none⟩] := by
  simp only [openEntry, h, hr]

/-! ## Events -/

variable [DecidableEq T]

/-- Thread `t` begins a call, at the point `l`. -/
def Conf.begin (c : Conf S T Op L Res) (t : T) (op : Op) (l : L) : Conf S T Op L Res where
  shared := c.shared
  busy := Function.update c.busy t (some ⟨op, c.clock, l⟩)
  clock := c.clock + 1
  returned := c.returned

/-- The call `f` of thread `t` makes a step. -/
def Conf.advance (c : Conf S T Op L Res) (t : T) (f : Frame Op L) (s : S) (l : L) :
    Conf S T Op L Res where
  shared := s
  busy := Function.update c.busy t (some { f with point := l })
  clock := c.clock + 1
  returned := c.returned

/-- The call `f` of thread `t` returns. -/
def Conf.finish (c : Conf S T Op L Res) (t : T) (f : Frame Op L) (r : Res) :
    Conf S T Op L Res where
  shared := c.shared
  busy := Function.update c.busy t none
  clock := c.clock + 1
  returned := ⟨f.op, r, f.start, c.clock⟩ :: c.returned

section simp_lemmas
variable (c : Conf S T Op L Res) (t : T) (f : Frame Op L) (op : Op) (s : S) (l : L) (r : Res)

@[simp] theorem Conf.begin_busy :
    (c.begin t op l).busy = Function.update c.busy t (some ⟨op, c.clock, l⟩) := rfl
@[simp] theorem Conf.advance_busy :
    (c.advance t f s l).busy = Function.update c.busy t (some { f with point := l }) := rfl
@[simp] theorem Conf.finish_busy :
    (c.finish t f r).busy = Function.update c.busy t none := rfl

end simp_lemmas

/-- What an event does. -/
def Object.next (o : Object S Op L Res) (c : Conf S T Op L Res) :
    Event T Op → Option (Conf S T Op L Res)
  | .call t op =>
    match c.busy t with
    | some _ => none
    | none => some (c.begin t op (o.code op))
  | .step t =>
    match c.busy t with
    | none => none
    | some f =>
      match o.act c.shared f.point with
      | none => none
      | some (s, l) => some (c.advance t f s l)
  | .ret t =>
    match c.busy t with
    | none => none
    | some f =>
      match o.result f.point with
      | none => none
      | some r => some (c.finish t f r)

/-- The event happens. -/
def Object.Next (o : Object S Op L Res) (c : Conf S T Op L Res) (e : Event T Op)
    (c' : Conf S T Op L Res) : Prop :=
  o.next c e = some c'

variable {o : Object S Op L Res} {c c' : Conf S T Op L Res} {e : Event T Op}

/-- All that an event can do. -/
theorem next_cases (h : o.next c e = some c') :
    (∃ t op, e = .call t op ∧ c.busy t = none ∧ c' = c.begin t op (o.code op)) ∨
    (∃ t f s l, e = .step t ∧ c.busy t = some f ∧ o.act c.shared f.point = some (s, l) ∧
      c' = c.advance t f s l) ∨
    (∃ t f r, e = .ret t ∧ c.busy t = some f ∧ o.result f.point = some r ∧
      c' = c.finish t f r) := by
  cases e with
  | call t op =>
    simp only [Object.next] at h
    split at h
    · cases h
    · rename_i hbusy
      exact Or.inl ⟨t, op, rfl, hbusy, (Option.some.inj h).symm⟩
  | step t =>
    simp only [Object.next] at h
    split at h
    · cases h
    · rename_i f hbusy
      split at h
      · cases h
      · rename_i s l hact
        exact Or.inr (Or.inl ⟨t, f, s, l, rfl, hbusy, hact, (Option.some.inj h).symm⟩)
  | ret t =>
    simp only [Object.next] at h
    split at h
    · cases h
    · rename_i f hbusy
      split at h
      · cases h
      · rename_i r hresult
        exact Or.inr (Or.inr ⟨t, f, r, rfl, hbusy, hresult, (Option.some.inj h).symm⟩)

/-! ## The order of the effects -/

/-- The entry of a call of `t` that has not returned. -/
def Entry.isOpen (t : T) (x : Entry T Op Res) : Bool := x.stop.isNone && decide (x.thread = t)

theorem Entry.isOpen_iff {t : T} {x : Entry T Op Res} :
    x.isOpen t = true ↔ x.stop = none ∧ x.thread = t := by
  simp [Entry.isOpen, Option.isNone_iff_eq_none]

/-- `order` lists the calls that have taken their effect, in the order of these
effects; `effect` has the results of those in progress. -/
structure Ordered (spec : A → Op → A × Res) (a₀ a : A) (effect : T → Option Res)
    (c : Conf S T Op L Res) (order : List (Entry T Op Res)) : Prop where
  replays : Replays spec a₀ (order.map fun x => (x.op, x.result)) a
  apart : order.Pairwise fun x y => ∀ k, y.stop = some k → x.start ≤ k
  begun : ∀ x ∈ order, x.start < c.clock
  frames : ∀ t f, c.busy t = some f → f.start < c.clock
  returned : (order.filterMap Entry.call).Perm c.returned
  opened : ∀ t, order.filter (Entry.isOpen t) = openEntry c.busy effect t


variable {spec : A → Op → A × Res} {a₀ a : A} {effect : T → Option Res}
variable {order : List (Entry T Op Res)}

/-- A new call has not taken its effect. -/
theorem Ordered.call (h : Ordered spec a₀ a effect c order) {t : T} (hbusy : c.busy t = none)
    (op : Op) (l : L) :
    Ordered spec a₀ a (Function.update effect t none) (c.begin t op l) order := by
  refine ⟨h.replays, h.apart, fun x hx => Nat.lt_succ_of_lt (h.begun x hx), ?_, h.returned, ?_⟩
  · intro u f hf
    rw [Conf.begin_busy] at hf
    by_cases hu : u = t
    · subst hu
      rw [Function.update_self] at hf
      cases hf
      exact Nat.lt_succ_self _
    · rw [Function.update_of_ne hu] at hf
      exact Nat.lt_succ_of_lt (h.frames u f hf)
  · intro u
    rw [h.opened u]
    by_cases hu : u = t
    · subst hu
      rw [openEntry_idle hbusy, openEntry_none (Function.update_self u none effect)]
    · exact openEntry_congr (Function.update_of_ne hu _ _).symm (Function.update_of_ne hu _ _).symm

/-- The frames after a step of `t`. -/
theorem Ordered.frames_step (h : Ordered spec a₀ a effect c order) {t : T} {f : Frame Op L}
    (hbusy : c.busy t = some f) (l : L) (u : T) (f' : Frame Op L)
    (hf : Function.update c.busy t (some { f with point := l }) u = some f') :
    f'.start < c.clock + 1 := by
  by_cases hu : u = t
  · subst hu
    rw [Function.update_self] at hf
    cases hf
    exact Nat.lt_succ_of_lt (h.frames u f hbusy)
  · rw [Function.update_of_ne hu] at hf
    exact Nat.lt_succ_of_lt (h.frames u f' hf)

/-- A step without effect. -/
theorem Ordered.step (h : Ordered spec a₀ a effect c order) {t : T} {f : Frame Op L}
    (hbusy : c.busy t = some f) (s : S) (l : L) :
    Ordered spec a₀ a effect (c.advance t f s l) order := by
  refine ⟨h.replays, h.apart, fun x hx => Nat.lt_succ_of_lt (h.begun x hx),
    h.frames_step hbusy l, h.returned, ?_⟩
  intro u
  rw [h.opened u]
  by_cases hu : u = t
  · subst hu
    simp only [openEntry, Conf.advance_busy, Function.update_self, hbusy]
    cases effect u <;> rfl
  · exact openEntry_congr (Function.update_of_ne hu _ _).symm rfl

/-- A step at which the call of `t` takes its effect. -/
theorem Ordered.takes (h : Ordered spec a₀ a effect c order) {t : T} {f : Frame Op L}
    (hbusy : c.busy t = some f) (hnone : effect t = none) (s : S) (l : L) :
    Ordered spec a₀ (spec a f.op).1 (Function.update effect t (some (spec a f.op).2))
      (c.advance t f s l) (order ++ [⟨t, f.op, (spec a f.op).2, f.start, none⟩]) := by
  refine ⟨?_, ?_, ?_, h.frames_step hbusy l, ?_, ?_⟩
  · rw [List.map_append]
    exact h.replays.snoc f.op
  · rw [List.pairwise_append]
    refine ⟨h.apart, List.pairwise_singleton _ _, ?_⟩
    -- the new entry has not returned
    intro x _ y hy k hk
    rw [List.mem_singleton] at hy
    subst hy
    cases hk
  · intro x hx
    rcases List.mem_append.1 hx with hx | hx
    · exact Nat.lt_succ_of_lt (h.begun x hx)
    · rw [List.mem_singleton] at hx
      subst hx
      exact Nat.lt_succ_of_lt (h.frames t f hbusy)
  · rw [List.filterMap_append, List.filterMap_cons_none rfl, List.filterMap_nil, List.append_nil]
    exact h.returned
  · intro u
    rw [List.filter_append, h.opened u]
    by_cases hu : u = t
    · subst hu
      rw [Conf.advance_busy, openEntry_none hnone, openEntry_some (Function.update_self u _ c.busy)
        (Function.update_self u _ effect)]
      simp [Entry.isOpen]
    · have hclosed : Entry.isOpen u (⟨t, f.op, (spec a f.op).2, f.start, none⟩ : Entry T Op Res) =
          false := by
        simpa [Entry.isOpen] using fun h => hu h.symm
      rw [List.filter_singleton, hclosed]
      simp only [Bool.cond_false, List.append_nil]
      exact openEntry_congr (Function.update_of_ne hu _ _).symm (Function.update_of_ne hu _ _).symm

/-- A call that took its effect returns. -/
theorem Ordered.ret (h : Ordered spec a₀ a effect c order) {t : T} {f : Frame Op L} {r : Res}
    (hbusy : c.busy t = some f) (heffect : effect t = some r) :
    ∃ order', Ordered spec a₀ a effect (c.finish t f r) order' := by
  have hopened := h.opened t
  rw [openEntry_some hbusy heffect, List.filter_eq_cons_iff] at hopened
  -- the entry of `t` is closed in its place
  rcases hopened with ⟨before, after, rfl, hbefore, -, hafter⟩
  rw [List.filter_eq_nil_iff] at hafter
  refine ⟨before ++ ⟨t, f.op, r, f.start, some c.clock⟩ :: after, ?_, ?_, ?_, ?_, ?_, ?_⟩
  · simpa using h.replays
  · have hapart := h.apart
    have hbegun := h.begun
    rw [List.pairwise_append, List.pairwise_cons] at hapart ⊢
    refine ⟨hapart.1, ⟨hapart.2.1.1, hapart.2.1.2⟩, ?_⟩
    intro x hx y hy k hk
    rcases List.mem_cons.1 hy with rfl | hy
    · cases hk
      exact Nat.le_of_lt (hbegun x (List.mem_append_left _ hx))
    · exact hapart.2.2 x hx y (List.mem_cons_of_mem _ hy) k hk
  · intro x hx
    rcases List.mem_append.1 hx with hx | hx
    · exact Nat.lt_succ_of_lt (h.begun x (List.mem_append_left _ hx))
    · rcases List.mem_cons.1 hx with rfl | hx
      · exact Nat.lt_succ_of_lt (h.frames t f hbusy)
      · exact Nat.lt_succ_of_lt
          (h.begun x (List.mem_append_right _ (List.mem_cons_of_mem _ hx)))
  · intro u f' hf
    rw [Conf.finish_busy] at hf
    by_cases hu : u = t
    · subst hu
      rw [Function.update_self] at hf
      cases hf
    · rw [Function.update_of_ne hu] at hf
      exact Nat.lt_succ_of_lt (h.frames u f' hf)
  · have hreturned := h.returned
    simp only [List.filterMap_append, List.filterMap_cons, Entry.call, Option.map_none,
      Option.map_some] at hreturned ⊢
    exact List.perm_middle.trans (hreturned.cons _)
  · intro u
    have hu := h.opened u
    rw [Conf.finish_busy]
    rw [List.filter_append, List.filter_cons] at hu ⊢
    by_cases hut : u = t
    · subst hut
      rw [openEntry_idle (Function.update_self u none c.busy)]
      simpa [Entry.isOpen_iff] using
        ⟨fun x hx => fun hn => by simpa [Entry.isOpen_iff, hn] using hbefore x hx,
          fun x hx => fun hn => by simpa [Entry.isOpen_iff, hn] using hafter x hx⟩
    · rw [openEntry_congr (Function.update_of_ne hut none c.busy) rfl, ← hu]
      simp [Entry.isOpen, Ne.symm hut]

/-- An order in which all calls have returned. -/
theorem Ordered.linearizable (h : Ordered spec a₀ a effect c order) (hquiet : c.Quiet) :
    Linearizable spec a₀ c.returned a := by
  have hclosed : ∀ x ∈ order, x.stop ≠ none := by
    intro x hx hstop
    have hfilter := h.opened x.thread
    rw [openEntry_idle (hquiet x.thread), List.filter_eq_nil_iff] at hfilter
    exact hfilter x hx (Entry.isOpen_iff.2 ⟨hstop, rfl⟩)
  refine ⟨order.filterMap Entry.call, h.returned, ?_, ?_⟩
  · refine List.Pairwise.filterMap Entry.call ?_ h.apart
    intro x y hxy b hb b' hb'
    simp only [Entry.call, Option.map_eq_some_iff] at hb hb'
    rcases hb with ⟨k, -, rfl⟩
    rcases hb' with ⟨k', hk', rfl⟩
    exact Nat.not_lt.2 (hxy k' hk')
  · have hmap : (order.filterMap Entry.call).map (fun c => (c.op, c.result)) =
        order.map fun x => (x.op, x.result) := by
      clear h
      induction order with
      | nil => rfl
      | cons x rest ih =>
        rcases Option.ne_none_iff_exists'.1 (hclosed x (List.mem_cons_self ..)) with ⟨k, hk⟩
        have hrest := ih fun y hy => hclosed y (List.mem_cons_of_mem _ hy)
        simp [Entry.call, hk] at hrest ⊢
        exact hrest
    rw [hmap]
    exact h.replays

/-! ## The rule -/

/-- If every call takes its effect at one of its steps, before it returns, the calls
of a run are linearizable. `R` relates the abstract state and the effects taken by
the calls in progress to the concrete state, and `Clean` is what is known of the
events of the run. -/
theorem linearizable_of_points {Init : Conf S T Op L Res → Prop}
    {Clean : Conf S T Op L Res → Event T Op → Prop}
    (R : A → (T → Option Res) → Conf S T Op L Res → Prop)
    (hinit : ∀ c, Init c → ∃ s, c = idle s ∧ R a₀ (fun _ => none) c)
    (hcall : ∀ a effect c t op, R a effect c → c.busy t = none →
      R a (Function.update effect t none) (c.begin t op (o.code op)))
    (hstep : ∀ a effect c t f s l, R a effect c → Clean c (.step t) → c.busy t = some f →
      o.act c.shared f.point = some (s, l) →
      R a effect (c.advance t f s l) ∨
      effect t = none ∧
        R (spec a f.op).1 (Function.update effect t (some (spec a f.op).2)) (c.advance t f s l))
    (hret : ∀ a effect c t f r, R a effect c → c.busy t = some f → o.result f.point = some r →
      effect t = some r ∧ R a effect (c.finish t f r))
    {es : List (Event T Op)} {c : Conf S T Op L Res}
    (h : Trace Init (fun c e c' => o.Next c e c' ∧ Clean c e) es c) :
    ∃ a effect, R a effect c ∧ ∃ order, Ordered spec a₀ a effect c order := by
  induction h with
  | start hc =>
    rcases hinit _ hc with ⟨s, rfl, hR⟩
    refine ⟨a₀, fun _ => none, hR, [], rfl, List.Pairwise.nil, ?_, ?_, List.Perm.nil, ?_⟩
    · intro x hx
      cases hx
    · intro t f hf
      cases hf
    · intro t
      rfl
  | snoc _ hnext ih =>
    rcases ih with ⟨a, effect, hR, order, hord⟩
    rcases hnext with ⟨hnext, hclean⟩
    rcases next_cases hnext with ⟨t, op, rfl, hbusy, rfl⟩ | ⟨t, f, s, l, rfl, hbusy, hact, rfl⟩ |
      ⟨t, f, r, rfl, hbusy, hresult, rfl⟩
    · exact ⟨a, _, hcall _ _ _ t op hR hbusy, order, hord.call hbusy op _⟩
    · rcases hstep _ _ _ t f s l hR hclean hbusy hact with hR' | ⟨hnone, hR'⟩
      · exact ⟨a, effect, hR', order, hord.step hbusy s l⟩
      · exact ⟨_, _, hR', _, hord.takes hbusy hnone s l⟩
    · rcases hret _ _ _ t f r hR hbusy hresult with ⟨heffect, hR'⟩
      exact ⟨a, effect, hR', hord.ret hbusy heffect⟩

end Wdutf.Linear
