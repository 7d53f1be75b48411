import Mathlib.Tactic.Common
import Mathlib.Data.Nat.Basic
import Mathlib.Data.Nat.Count
import Mathlib.Algebra.GroupWithZero.Nat

/-!
# Wdutf.Lib.Runs — runs of hits in a sequence

The mathematics of a left-to-right search for `n` consecutive hits in a
sequence `f : ℕ → Bool`. A search that starts at `a` and stands at `p` needs
to remember one number, the length `trailing f a p` of the run of hits that
ends right below `p`:

* `noRun_succ` — no run of length `n` has been passed as long as the
  trailing run stays shorter than `n`;
* `not_runAt_of_lt` — a run that is still open can only start where the
  trailing run does;
* `firstRun_of_trailing` — so the first time the trailing run, together with
  the hits ahead of it, makes up `n` hits, its start is the first one.

A walk takes one maximal run after the other, each from the end of the last:

* `Walk.enumerates`, `Walk.sum_eq` — a walk from 0 lists the maximal runs in
  order, and their lengths add up to the number of hits.
-/

namespace Wdutf.Runs

variable (f : ℕ → Bool)

/-- The `n` elements from `i` on are hits. -/
def RunAt (i n : ℕ) : Prop := ∀ j, i ≤ j → j < i + n → f j = true

/-- No run of `n` hits lies inside `[a, e)`. -/
def NoRun (a e n : ℕ) : Prop := ∀ i, a ≤ i → i + n ≤ e → ¬ RunAt f i n

/-- `s` is the first start, from `a` on, of a run of `n` hits, and that run
lies inside `[a, e)`. -/
def FirstRun (a e n s : ℕ) : Prop :=
  a ≤ s ∧ s + n ≤ e ∧ RunAt f s n ∧ ∀ i, a ≤ i → i < s → ¬ RunAt f i n

/-- The length of the run of hits that ends right below `p`, counted from `a`. -/
def trailing (a : ℕ) : ℕ → ℕ
  | 0 => 0
  | p + 1 => if a ≤ p ∧ f p = true then trailing a p + 1 else 0

variable {f}

theorem RunAt.mono {i n m : ℕ} (h : RunAt f i n) (hm : m ≤ n) : RunAt f i m :=
  fun j hj hj' => h j hj (by omega)

theorem RunAt.append {i n m : ℕ} (h : RunAt f i n) (h' : RunAt f (i + n) m) :
    RunAt f i (n + m) := by
  intro j hj hj'
  by_cases hjn : j < i + n
  · exact h j hj hjn
  · exact h' j (by omega) (by omega)

/-- A hit is a run of its own. -/
theorem runAt_one {i : ℕ} (h : f i = true) : RunAt f i 1 := by
  intro j hj hj'
  rw [show j = i by omega]
  exact h

/-- Nothing has been passed yet. -/
theorem noRun_self {a n : ℕ} (hn : 1 ≤ n) : NoRun f a a n := by
  intro i hi hie
  omega

/-! ## The trailing run -/

theorem trailing_le (a p : ℕ) : trailing f a p ≤ p - a := by
  induction p with
  | zero => simp [trailing]
  | succ p ih =>
    rw [trailing]
    split
    · omega
    · omega

theorem trailing_of_le {a p : ℕ} (h : p ≤ a) : trailing f a p = 0 := by
  have := trailing_le (f := f) a p
  omega

theorem trailing_hit {a p : ℕ} (ha : a ≤ p) (hf : f p = true) :
    trailing f a (p + 1) = trailing f a p + 1 := by
  rw [trailing, if_pos ⟨ha, hf⟩]

theorem trailing_miss {a p : ℕ} (hf : f p = false) : trailing f a (p + 1) = 0 := by
  rw [trailing, if_neg (by simp [hf])]

/-- The trailing run is a run. -/
theorem runAt_trailing (a p : ℕ) : RunAt f (p - trailing f a p) (trailing f a p) := by
  induction p with
  | zero =>
    intro j hj hj'
    simp [trailing] at hj'
  | succ p ih =>
    rw [trailing]
    split
    · rename_i h
      have hle := trailing_le (f := f) a p
      intro j hj hj'
      by_cases hjp : j = p
      · rw [hjp]
        exact h.2
      · exact ih j (by omega) (by omega)
    · intro j hj hj'
      omega

/-- Before the trailing run there is a miss, or nothing. -/
theorem trailing_start (p : ℕ) :
    p - trailing f 0 p = 0 ∨ f (p - trailing f 0 p - 1) = false := by
  induction p with
  | zero => exact Or.inl rfl
  | succ p ih =>
    cases hp : f p with
    | true =>
      rw [trailing_hit (Nat.zero_le p) hp, Nat.add_sub_add_right]
      exact ih
    | false =>
      rw [trailing_miss hp]
      exact Or.inr hp

/-- The trailing run is the longest run that ends at `p`. -/
theorem le_trailing {a i p : ℕ} (hai : a ≤ i) (hip : i ≤ p) (h : RunAt f i (p - i)) :
    p - i ≤ trailing f a p := by
  induction p with
  | zero => omega
  | succ p ih =>
    by_cases hi : i = p + 1
    · omega
    · have hp : f p = true := h p (by omega) (by omega)
      rw [trailing_hit (by omega) hp]
      have := ih (by omega) (h.mono (by omega))
      omega

/-- Hits ahead of the search extend the trailing run. -/
theorem trailing_add {a p k : ℕ} (ha : a ≤ p) (h : RunAt f p k) :
    trailing f a (p + k) = trailing f a p + k := by
  induction k with
  | zero => rfl
  | succ k ih =>
    rw [← Nat.add_assoc, trailing_hit (by omega) (h (p + k) (by omega) (by omega)),
      ih (h.mono (by omega))]
    omega

/-! ## Progress of a search -/

theorem noRun_succ {a p n : ℕ} (hn : 1 ≤ n) (h : NoRun f a p n)
    (ht : trailing f a (p + 1) < n) : NoRun f a (p + 1) n := by
  intro i hai hi hrun
  by_cases hip : i + n ≤ p
  · exact h i hai hip hrun
  · -- the run would end exactly at `p + 1`
    have hend : p + 1 - i = n := by omega
    have := le_trailing hai (by omega) (p := p + 1) (by rwa [hend])
    omega

/-- Hits ahead that do not complete a run leave the search without one. -/
theorem noRun_add {a p n k : ℕ} (ha : a ≤ p) (hn : 1 ≤ n) (h : NoRun f a p n) (hk : RunAt f p k)
    (ht : trailing f a p + k < n) : NoRun f a (p + k) n := by
  induction k with
  | zero => exact h
  | succ k ih =>
    have hk' : RunAt f p k := hk.mono (by omega)
    have hadd : trailing f a (p + (k + 1)) = trailing f a p + (k + 1) := trailing_add ha hk
    exact noRun_succ hn (ih hk' (by omega)) (by rwa [← hadd] at ht)

/-- The trailing run of a search that has found nothing is too short. -/
theorem trailing_lt {a p n : ℕ} (ha : a ≤ p) (h : NoRun f a p n) : trailing f a p < n := by
  by_contra hge
  have hle := trailing_le (f := f) a p
  refine h (p - trailing f a p) (by omega) (by omega) ?_
  exact (runAt_trailing a p).mono (by omega)

/-- A run that is still open at `p` does not start before the trailing run. -/
theorem not_runAt_of_lt {a p n i : ℕ} (h : NoRun f a p n) (hai : a ≤ i)
    (hi : i < p - trailing f a p) : ¬ RunAt f i n := by
  intro hrun
  by_cases hip : i + n ≤ p
  · exact h i hai hip hrun
  · have := le_trailing hai (by omega) (hrun.mono (m := p - i) (by omega))
    omega

/-- If the trailing run and `k` hits ahead of it make up `n` hits, the start
of the trailing run is the first start. -/
theorem firstRun_of_trailing {a p n k e : ℕ} (ha : a ≤ p) (h : NoRun f a p n)
    (hk : RunAt f p k) (ht : n ≤ trailing f a p + k) (he : p - trailing f a p + n ≤ e) :
    FirstRun f a e n (p - trailing f a p) := by
  have hle := trailing_le (f := f) a p
  refine ⟨by omega, he, ?_, fun i hai hi => not_runAt_of_lt h hai hi⟩
  have hrun := runAt_trailing (f := f) a p
  refine RunAt.mono (hrun.append (m := k) ?_) ht
  rwa [show p - trailing f a p + trailing f a p = p by omega]

/-- The first run of a shorter search is that of a longer one. -/
theorem FirstRun.mono {a e e' n s : ℕ} (h : FirstRun f a e n s) (he : e ≤ e') :
    FirstRun f a e' n s := by
  rcases h with ⟨has, hse, hrun, hfirst⟩
  exact ⟨has, by omega, hrun, hfirst⟩

theorem FirstRun.not_noRun {a e n s : ℕ} (h : FirstRun f a e n s) : ¬ NoRun f a e n :=
  fun hno => hno s h.1 h.2.1 h.2.2.1

/-! ## Walking from run to run -/

/-- `m` is the first hit from `a` on. -/
def FirstHit (f : ℕ → Bool) (a m : ℕ) : Prop :=
  a ≤ m ∧ f m = true ∧ ∀ i, a ≤ i → i < m → f i = false

theorem FirstHit.unique {a m m' : ℕ} (h : FirstHit f a m) (h' : FirstHit f a m') : m = m' := by
  rcases h with ⟨ham, hm, hbefore⟩
  rcases h' with ⟨ham', hm', hbefore'⟩
  rcases Nat.lt_trichotomy m m' with hlt | heq | hgt
  · have := hbefore' m ham hlt
    simp [hm] at this
  · exact heq
  · have := hbefore m' ham' hgt
    simp [hm'] at this

/-- The first hit from `a` on starts the `c` hits from `s` on, which end at a miss or
at the end `e` of the sequence. -/
structure NextRun (f : ℕ → Bool) (e a s c : ℕ) : Prop where
  first : FirstHit f a s
  pos : 0 < c
  inside : s + c ≤ e
  run : RunAt f s c
  ends : s + c = e ∨ f (s + c) = false

/-- The `c` hits from `s` on cannot be extended inside `[0, e)`. -/
structure MaximalRun (f : ℕ → Bool) (e s c : ℕ) : Prop where
  pos : 0 < c
  inside : s + c ≤ e
  run : RunAt f s c
  starts : s = 0 ∨ f (s - 1) = false
  ends : s + c = e ∨ f (s + c) = false

/-- The runs met from `a` on, each searched for from the end of the one before. -/
inductive Walk (f : ℕ → Bool) (e : ℕ) : ℕ → List (ℕ × ℕ) → Prop
  | done {a : ℕ} : (∀ i, a ≤ i → i < e → f i = false) → Walk f e a []
  | next {a s c : ℕ} {runs : List (ℕ × ℕ)} :
      NextRun f e a s c → Walk f e (s + c) runs → Walk f e a ((s, c) :: runs)

/-- The maximal runs, in order. -/
def Enumerates (f : ℕ → Bool) (e : ℕ) (runs : List (ℕ × ℕ)) : Prop :=
  runs.Pairwise (fun r r' => r.1 + r.2 ≤ r'.1) ∧
  ∀ r, r ∈ runs ↔ MaximalRun f e r.1 r.2

/-- From the start of the sequence, or from a miss, the next run is a maximal one. -/
theorem NextRun.maximal {e a s c : ℕ} (h : NextRun f e a s c) (ha : a = 0 ∨ f a = false) :
    MaximalRun f e s c := by
  refine ⟨h.pos, h.inside, h.run, ?_, h.ends⟩
  rcases h.first with ⟨has, hs, hbefore⟩
  by_cases hlt : a < s
  · exact Or.inr (hbefore (s - 1) (by omega) (by omega))
  · have heq : a = s := by omega
    rcases ha with hzero | hmiss
    · exact Or.inl (by omega)
    · rw [heq, hs] at hmiss
      cases hmiss

/-- A maximal run from `a` on is the next run, or starts behind it. -/
theorem NextRun.eq_or_le {e a s c s' c' : ℕ} (h : NextRun f e a s c) (h' : MaximalRun f e s' c')
    (ha : a ≤ s') : (s', c') = (s, c) ∨ s + c ≤ s' := by
  have hhit' : f s' = true := h'.run s' (le_refl s') (by have := h'.pos; omega)
  have hge : s ≤ s' := by
    by_contra hlt
    have := h.first.2.2 s' ha (by omega)
    simp [hhit'] at this
  rcases Nat.lt_or_ge s' (s + c) with hin | hbehind
  · -- inside the next run only its own start is preceded by a miss
    have heq : s' = s := by
      by_contra hne
      rcases h'.starts with hzero | hmiss
      · omega
      · have := h.run (s' - 1) (by omega) (by omega)
        simp [hmiss] at this
    subst heq
    refine Or.inl ?_
    rcases Nat.lt_trichotomy c c' with hlt | hc | hgt
    · have hhit := h'.run (s' + c) (by omega) (by omega)
      have hinside := h'.inside
      rcases h.ends with hend | hmiss
      · omega
      · simp [hmiss] at hhit
    · rw [hc]
    · have hhit := h.run (s' + c') (by omega) (by omega)
      have hinside := h.inside
      rcases h'.ends with hend | hmiss
      · omega
      · simp [hmiss] at hhit
  · exact Or.inr hbehind

/-- The search goes on from the end of the sequence or from a miss. -/
theorem NextRun.at_boundary {e a s c : ℕ} (h : NextRun f e a s c) :
    s + c = 0 ∨ e ≤ s + c ∨ f (s + c) = false := by
  rcases h.ends with hend | hmiss
  · exact Or.inr (Or.inl (by omega))
  · exact Or.inr (Or.inr hmiss)

theorem Walk.mem_maximal {e a : ℕ} {runs : List (ℕ × ℕ)} (h : Walk f e a runs)
    (ha : a = 0 ∨ e ≤ a ∨ f a = false) {r : ℕ × ℕ} (hr : r ∈ runs) :
    a ≤ r.1 ∧ MaximalRun f e r.1 r.2 := by
  induction h with
  | done _ => simp at hr
  | @next a s c runs hnext _ ih =>
    have hinside := hnext.inside
    have hpos := hnext.pos
    have hfirst := hnext.first.1
    rcases List.mem_cons.1 hr with rfl | htail
    · refine ⟨hfirst, hnext.maximal ?_⟩
      rcases ha with hzero | hend | hmiss
      · exact Or.inl hzero
      · omega
      · exact Or.inr hmiss
    · rcases ih hnext.at_boundary htail with ⟨hle, hmax⟩
      exact ⟨by omega, hmax⟩

theorem Walk.pairwise {e a : ℕ} {runs : List (ℕ × ℕ)} (h : Walk f e a runs)
    (ha : a = 0 ∨ e ≤ a ∨ f a = false) : runs.Pairwise (fun r r' => r.1 + r.2 ≤ r'.1) := by
  induction h with
  | done _ => exact List.Pairwise.nil
  | @next a s c runs hnext hwalk ih =>
    have hboundary := hnext.at_boundary
    exact List.pairwise_cons.2 ⟨fun r hr => (hwalk.mem_maximal hboundary hr).1, ih hboundary⟩

/-- No maximal run from `a` on is left out. -/
theorem Walk.mem_of_maximal {e a s c : ℕ} {runs : List (ℕ × ℕ)} (h : Walk f e a runs)
    (hmax : MaximalRun f e s c) (ha : a ≤ s) : (s, c) ∈ runs := by
  induction h with
  | done hmiss =>
    have hpos := hmax.pos
    have hinside := hmax.inside
    have hhit := hmax.run s (le_refl s) (by omega)
    simp [hmiss s ha (by omega)] at hhit
  | next hnext _ ih =>
    rcases hnext.eq_or_le hmax ha with heq | hle
    · rw [heq]
      exact List.mem_cons_self
    · exact List.mem_cons_of_mem _ (ih hle)

/-- A walk from 0 lists the maximal runs. -/
theorem Walk.enumerates {e : ℕ} {runs : List (ℕ × ℕ)} (h : Walk f e 0 runs) :
    Enumerates f e runs := by
  refine ⟨h.pairwise (Or.inl rfl), fun r => ⟨fun hr => (h.mem_maximal (Or.inl rfl) hr).2, ?_⟩⟩
  intro hmax
  exact h.mem_of_maximal hmax (Nat.zero_le _)

/-! ## Counting hits -/

/-- The number of hits below `n`. -/
def hitCount (f : ℕ → Bool) (n : ℕ) : ℕ := Nat.count (fun i => f i = true) n

theorem hitCount_succ (n : ℕ) : hitCount f (n + 1) = hitCount f n + (f n).toNat := by
  rw [hitCount, Nat.count_succ, hitCount]
  cases f n <;> rfl

theorem hitCount_le (n : ℕ) : hitCount f n ≤ n := Nat.count_le _

/-- Misses do not count. -/
theorem hitCount_misses {a m : ℕ} (ham : a ≤ m) (h : ∀ i, a ≤ i → i < m → f i = false) :
    hitCount f m = hitCount f a := by
  induction m, ham using Nat.le_induction with
  | base => rfl
  | succ m hm ih =>
    rw [hitCount_succ, ih fun i hi hi' => h i hi (by omega), h m hm (by omega)]
    rfl

/-- A run counts as long as it is. -/
theorem hitCount_run {s c : ℕ} (h : RunAt f s c) : hitCount f (s + c) = hitCount f s + c := by
  induction c with
  | zero => rfl
  | succ c ih =>
    rw [← Nat.add_assoc, hitCount_succ, ih (h.mono (by omega)), h (s + c) (by omega) (by omega)]
    rfl

theorem hitCount_congr {g : ℕ → Bool} {n : ℕ} (h : ∀ i, i < n → f i = g i) :
    hitCount f n = hitCount g n := by
  induction n with
  | zero => rfl
  | succ n ih => rw [hitCount_succ, hitCount_succ, ih fun i hi => h i (by omega), h n (by omega)]

/-- Every element is a hit or a miss. -/
theorem hitCount_not (n : ℕ) : hitCount f n + hitCount (fun i => !f i) n = n := by
  induction n with
  | zero => rfl
  | succ n ih =>
    rw [hitCount_succ, hitCount_succ]
    cases f n <;> simp <;> omega

/-- The lengths met by a walk add up to the hits ahead of it. -/
theorem Walk.sum_eq {e a : ℕ} {runs : List (ℕ × ℕ)} (h : Walk f e a runs) (ha : a ≤ e) :
    hitCount f a + (runs.map Prod.snd).sum = hitCount f e := by
  induction h with
  | done hmiss => simp [hitCount_misses ha hmiss]
  | @next a s c runs hnext _ ih =>
    have hbefore : hitCount f s = hitCount f a :=
      hitCount_misses hnext.first.1 hnext.first.2.2
    have hrun := hitCount_run hnext.run
    have hrest := ih hnext.inside
    rw [List.map_cons, List.sum_cons]
    omega

end Wdutf.Runs
