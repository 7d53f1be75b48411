import Mathlib.Data.List.Basic

/-!
# Wdutf.Lib.Transition — runs of labelled transition systems

The runs of a system given by its initial states and its labelled steps, and
the two induction rules that turn what a step preserves into what every run
preserves:

* `Trace.invariant` — an invariant of the states;
* `Trace.invariant_with` — an invariant that ties the state to the labels of
  the run so far.
-/

namespace Wdutf.Transition

variable {S E : Type*} {Init : S → Prop} {Next : S → E → S → Prop}

/-- A run from an initial state: its labels in order, and the state it reached. -/
inductive Trace (Init : S → Prop) (Next : S → E → S → Prop) : List E → S → Prop
  | start {s : S} : Init s → Trace Init Next [] s
  | snoc {es : List E} {s s' : S} {e : E} :
      Trace Init Next es s → Next s e s' → Trace Init Next (es ++ [e]) s'

namespace Trace

/-- What holds initially and is kept by every step holds after every run. -/
theorem invariant {Inv : S → Prop} (hinit : ∀ s, Init s → Inv s)
    (hstep : ∀ s e s', Inv s → Next s e s' → Inv s') {es : List E} {s : S}
    (h : Trace Init Next es s) : Inv s := by
  induction h with
  | start hs => exact hinit _ hs
  | snoc _ hnext ih => exact hstep _ _ _ ih hnext

/-- The rule for invariants over the labels seen so far. -/
theorem invariant_with {Inv : List E → S → Prop} (hinit : ∀ s, Init s → Inv [] s)
    (hstep : ∀ es s e s', Inv es s → Next s e s' → Inv (es ++ [e]) s') {es : List E} {s : S}
    (h : Trace Init Next es s) : Inv es s := by
  induction h with
  | start hs => exact hinit _ hs
  | snoc _ hnext ih => exact hstep _ _ _ _ ih hnext

/-- A run of a system whose steps are steps of another one. -/
theorem mono {Next' : S → E → S → Prop} (hstep : ∀ s e s', Next s e s' → Next' s e s') {es : List E}
    {s : S} (h : Trace Init Next es s) : Trace Init Next' es s := by
  induction h with
  | start hs => exact Trace.start hs
  | snoc _ hnext ih => exact ih.snoc (hstep _ _ _ hnext)

end Trace

end Wdutf.Transition
