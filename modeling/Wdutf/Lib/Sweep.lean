import Mathlib.Algebra.Group.Nat.Defs
import Mathlib.Data.List.Basic
import Mathlib.Tactic.Common
import Wdutf.Lib.Block

/-!
# Wdutf.Lib.Sweep — a block that is rewritten while it is scanned

A sweep goes over the offsets of a block from left to right. At every offset it tests the
block as it is then, and if the test holds, writes a patch there. The test may look beyond
the offset, so that a patch can make or spoil what comes later.

* `reads` — the comparison that stops at the first difference, and fails where the block
  ends before that;
* `origin` — where a byte of the block comes from, at any time of the sweep: from the last
  patch over it, or from the start;
* `Substituted` — all patches at once, and `substituted_of_fired`: the sweep comes to that if
  its patches are apart.
-/

namespace Wdutf.Sweep

open Wdutf.Block

variable {ε β γ : Type} {out : ε} {f : β → γ} {m m' r : List β} {pat : List γ} {patch : List β}
  {i j n x : ℕ}

/-! ## Comparing -/

/-- The block has the pattern at an offset, as far as it goes. -/
def Agrees (f : β → γ) (m : List β) (i : ℕ) (pat : List γ) : Prop :=
  ∀ k c b, pat[k]? = some c → m[i + k]? = some b → f b = c

/-- The comparison of a pattern with the block at an offset. -/
def reads [DecidableEq γ] (out : ε) (f : β → γ) (m : List β) : ℕ → List γ → Except ε Bool
  | _, [] => .ok true
  | i, c :: pat =>
    match m[i]? with
    | none => .error out
    | some b => if f b = c then reads out f m (i + 1) pat else .ok false

theorem agrees_nil : Agrees f m i [] := by
  intro k c b hc
  cases hc

theorem agrees_cons {c : γ} : Agrees f m i (c :: pat) ↔
    (∀ b, m[i]? = some b → f b = c) ∧ Agrees f m (i + 1) pat := by
  constructor
  case mp =>
    intro h
    refine ⟨fun b hb => h 0 c b rfl hb, fun k d b hd hb => h (k + 1) d b hd ?_⟩
    rwa [Nat.add_assoc, Nat.add_comm 1 k] at hb
  case mpr =>
    rintro ⟨hfirst, hrest⟩ k d b hd hb
    cases k with
    | zero =>
      rcases Option.some.inj hd with rfl
      exact hfirst b hb
    | succ k =>
      refine hrest k d b hd ?_
      rwa [Nat.add_assoc, Nat.add_comm 1 k]

/-- The three results of a comparison. -/
theorem reads_cases [DecidableEq γ] (out : ε) (f : β → γ) (m : List β) (hi : i ≤ m.length)
    (pat : List γ) :
    (reads out f m i pat = .ok true ∧ Agrees f m i pat ∧ i + pat.length ≤ m.length) ∨
    (reads out f m i pat = .error out ∧ Agrees f m i pat ∧ m.length < i + pat.length) ∨
    (reads out f m i pat = .ok false ∧ ¬ Agrees f m i pat) := by
  induction pat generalizing i with
  | nil => exact Or.inl ⟨rfl, agrees_nil, hi⟩
  | cons c pat ih =>
    rw [agrees_cons, List.length_cons]
    rcases Nat.lt_or_ge i m.length with hlt | hge
    · have hget : m[i]? = some m[i] := List.getElem?_eq_getElem hlt
      rw [reads, hget]
      by_cases hfirst : f m[i] = c
      · have hall : ∀ b, some m[i] = some b → f b = c := by
          rintro b hb
          rwa [← Option.some.inj hb]
        dsimp only
        rw [if_pos hfirst]
        rcases ih (i := i + 1) hlt with ⟨heq, hagrees, hlen⟩ | ⟨heq, hagrees, hlen⟩ | ⟨heq, hne⟩
        · exact Or.inl ⟨heq, ⟨hall, hagrees⟩, by omega⟩
        · exact Or.inr (Or.inl ⟨heq, ⟨hall, hagrees⟩, by omega⟩)
        · exact Or.inr (Or.inr ⟨heq, fun h => hne h.2⟩)
      · dsimp only
        rw [if_neg hfirst]
        exact Or.inr (Or.inr ⟨rfl, fun h => hfirst (h.1 _ rfl)⟩)
    · -- the block has ended
      have hget : ∀ k, m[i + k]? = none := fun k => List.getElem?_eq_none (by omega)
      have hnone : m[i]? = none := hget 0
      rw [reads, hnone]
      refine Or.inr (Or.inl ⟨rfl, ⟨?_, ?_⟩, by omega⟩)
      · intro b hb
        cases hb
      intro k d b _ hb
      rw [Nat.add_assoc, hget] at hb
      cases hb

theorem Agrees.drop (h : Agrees f m i pat) (k : ℕ) : Agrees f m (i + k) (pat.drop k) := by
  intro l c b hc hb
  rw [List.getElem?_drop] at hc
  rw [Nat.add_assoc] at hb
  exact h (k + l) c b hc hb

/-- Two patterns that differ where they overlap are not both there. -/
theorem Agrees.not_of_differ {pat' : List γ} {k : ℕ} (h : Agrees f m i pat)
    (hlen : i + pat.length ≤ m.length)
    (hdiffer : ∃ l < pat'.length, k + l < pat.length ∧ pat[k + l]? ≠ pat'[l]?) :
    ¬ Agrees f m (i + k) pat' := by
  rcases hdiffer with ⟨l, hl', hl, hne⟩
  intro hagrees
  have hcell : m[i + (k + l)]? = some m[i + (k + l)] := List.getElem?_eq_getElem (by omega)
  have hcell' : m[i + k + l]? = some m[i + (k + l)] := by rw [Nat.add_assoc, hcell]
  rw [List.getElem?_eq_getElem hl, List.getElem?_eq_getElem hl'] at hne
  have hfirst := h (k + l) _ _ (List.getElem?_eq_getElem hl) hcell
  have hsecond := hagrees l _ _ (List.getElem?_eq_getElem hl') hcell'
  exact hne (congrArg some (hfirst.symm.trans hsecond))

/-- What is compared does not depend on the block before the offset. -/
theorem agrees_congr (h : ∀ x, i ≤ x → m[x]? = m'[x]?) : Agrees f m i pat ↔ Agrees f m' i pat := by
  unfold Agrees
  refine forall_congr' fun k => forall_congr' fun c => forall_congr' fun b => ?_
  rw [h (i + k) (Nat.le_add_right i k)]

theorem reads_congr [DecidableEq γ] (out : ε) (f : β → γ) (pat : List γ)
    (h : ∀ x, i ≤ x → m[x]? = m'[x]?) : reads out f m i pat = reads out f m' i pat := by
  induction pat generalizing i with
  | nil => rfl
  | cons c pat ih =>
    have hrest : reads out f m (i + 1) pat = reads out f m' (i + 1) pat :=
      ih fun x hx => h x (by omega)
    simp only [reads, h i (Nat.le_refl i), hrest]

/-! ## The sweep -/

/-- One turn: the patch is written if the test holds. -/
def turn (out : ε) (test : List β → ℕ → Except ε Bool) (patch : List β) (i : ℕ) (m : List β) :
    Except ε (List β) := do
  if ← test m i then put out m i patch else .ok m

/-- The block after the turns at the first `n` offsets. -/
def sweep (out : ε) (test : List β → ℕ → Except ε Bool) (patch : List β) :
    ℕ → List β → Except ε (List β)
  | 0, m => .ok m
  | n + 1, m => do
    let m ← sweep out test patch n m
    turn out test patch n m

/-- An offset at which the patch is written. -/
def Fired (out : ε) (test : List β → ℕ → Except ε Bool) (patch m : List β) (i : ℕ) : Prop :=
  ∃ b, sweep out test patch i m = .ok b ∧ test b i = .ok true

/-- The offset lies in a patch. -/
def Covers (patch : List β) (i x : ℕ) : Prop := i ≤ x ∧ x < i + patch.length

theorem covers_add {k : ℕ} {v : β} (hv : patch[k]? = some v) : Covers patch i (i + k) :=
  ⟨Nat.le_add_right i k, Nat.add_lt_add_left (List.getElem?_eq_some_iff.1 hv).1 i⟩

theorem Covers.exists_cell (h : Covers patch i x) : ∃ v, patch[x - i]? = some v := by
  rcases h with ⟨hle, hlt⟩
  exact ⟨_, List.getElem?_eq_getElem (show x - i < patch.length by omega)⟩

variable {test : List β → ℕ → Except ε Bool}

theorem turn_ok (h : turn out test patch i m = .ok m') :
    (test m i = .ok true ∧ put out m i patch = .ok m') ∨ (test m i = .ok false ∧ m' = m) := by
  rcases bind_inv h with ⟨fires, htest, h⟩
  cases fires with
  | true => exact Or.inl ⟨htest, h⟩
  | false => exact Or.inr ⟨htest, (Except.ok.inj h).symm⟩

theorem sweep_succ_ok (h : sweep out test patch (n + 1) m = .ok r) :
    ∃ b, sweep out test patch n m = .ok b ∧ turn out test patch n b = .ok r := bind_inv h

/-- A sweep that returns has come past every offset before. -/
theorem exists_sweep (h : sweep out test patch n m = .ok r) (hi : i ≤ n) :
    ∃ b, sweep out test patch i m = .ok b := by
  induction n generalizing r with
  | zero =>
    rcases Nat.le_zero.1 hi with rfl
    exact ⟨r, h⟩
  | succ n ih =>
    rcases Nat.lt_or_ge n i with hlt | hge
    · have hin : i = n + 1 := by omega
      rw [hin]
      exact ⟨r, h⟩
    · rcases sweep_succ_ok h with ⟨b, hb, -⟩
      exact ih hb hge

theorem getElem?_put_of_covers (h : put out m i patch = .ok m') (hx : Covers patch i x) :
    m'[x]? = patch[x - i]? := by
  rcases put_ok_iff.1 h with ⟨hroom, rfl⟩
  rcases hx with ⟨hge, hlt⟩
  have htake : (m.take i).length = i := by
    rw [List.length_take]
    omega
  rw [List.append_assoc, List.getElem?_append_right (by omega), htake,
    List.getElem?_append_left (by omega)]

theorem getElem?_put_of_not_covers (h : put out m i patch = .ok m') (hx : ¬ Covers patch i x) :
    m'[x]? = m[x]? := by
  rcases put_ok_iff.1 h with ⟨hroom, rfl⟩
  have htake : (m.take i).length = i := by
    rw [List.length_take]
    omega
  rw [List.append_assoc]
  rcases Nat.lt_or_ge x i with hlt | hge
  · rw [List.getElem?_append_left (by omega), List.getElem?_take_of_lt hlt]
  · have hbehind : i + patch.length ≤ x := by
      by_contra hin
      exact hx ⟨hge, by omega⟩
    rw [List.getElem?_append_right (by omega), htake, List.getElem?_append_right (by omega),
      List.getElem?_drop]
    congr 1
    omega

theorem length_put (h : put out m i patch = .ok m') : m'.length = m.length := by
  rcases put_ok_iff.1 h with ⟨hroom, rfl⟩
  simp only [List.length_append, List.length_take, List.length_drop]
  omega

/-- Every test of a sweep that returns has had a result. -/
theorem exists_test (h : sweep out test patch n m = .ok r) (hi : i < n) :
    ∃ b fires, sweep out test patch i m = .ok b ∧ test b i = .ok fires := by
  rcases exists_sweep h (Nat.succ_le_of_lt hi) with ⟨m', hm'⟩
  rcases sweep_succ_ok hm' with ⟨b, hb, hturn⟩
  rcases turn_ok hturn with ⟨htest, -⟩ | ⟨htest, -⟩
  · exact ⟨b, true, hb, htest⟩
  · exact ⟨b, false, hb, htest⟩

theorem length_sweep (h : sweep out test patch n m = .ok r) : r.length = m.length := by
  induction n generalizing r with
  | zero => rw [← Except.ok.inj h]
  | succ n ih =>
    rcases sweep_succ_ok h with ⟨b, hb, hturn⟩
    rcases turn_ok hturn with ⟨-, hput⟩ | ⟨-, rfl⟩
    · rw [length_put hput, ih hb]
    · exact ih hb

/-- An offset whose patch covers `x`. -/
def Hit (out : ε) (test : List β → ℕ → Except ε Bool) (patch m : List β) (x i : ℕ) : Prop :=
  Fired out test patch m i ∧ Covers patch i x

/-- What a turn does to a byte. -/
theorem turn_hit (h : sweep out test patch n m = .ok m') (hturn : turn out test patch n m' = .ok r)
    (x : ℕ) :
    (Hit out test patch m x n ∧ r[x]? = patch[x - n]?) ∨
    (¬ Hit out test patch m x n ∧ r[x]? = m'[x]?) := by
  rcases turn_ok hturn with ⟨htest, hput⟩ | ⟨htest, rfl⟩
  · by_cases hcovers : Covers patch n x
    · exact Or.inl ⟨⟨⟨m', h, htest⟩, hcovers⟩, getElem?_put_of_covers hput hcovers⟩
    · exact Or.inr ⟨fun hhit => hcovers hhit.2, getElem?_put_of_not_covers hput hcovers⟩
  · refine Or.inr ⟨?_, rfl⟩
    rintro ⟨⟨b, hb, htrue⟩, -⟩
    rw [h] at hb
    rcases Except.ok.inj hb with rfl
    rw [htest] at htrue
    cases htrue

/-- Where a byte comes from: from the start, or from the last patch over it. -/
theorem origin (h : sweep out test patch n m = .ok r) (x : ℕ) :
    (r[x]? = m[x]? ∧ ∀ i < n, ¬ Hit out test patch m x i) ∨
    ∃ i < n, Hit out test patch m x i ∧ r[x]? = patch[x - i]? ∧
      ∀ j, i < j → j < n → ¬ Hit out test patch m x j := by
  induction n generalizing r with
  | zero => exact Or.inl ⟨by rw [← Except.ok.inj h], fun i hi => absurd hi (Nat.not_lt_zero i)⟩
  | succ n ih =>
    rcases sweep_succ_ok h with ⟨b, hb, hturn⟩
    rcases turn_hit hb hturn x with ⟨hhit, heq⟩ | ⟨hnot, heq⟩
    · -- this is the last patch over the byte
      exact Or.inr ⟨n, Nat.lt_succ_self n, hhit, heq, fun j hlt hj => by omega⟩
    · rcases ih hb with ⟨hsame, hnone⟩ | ⟨i, hi, hhit, hpatch, hlast⟩
      · left
        refine ⟨heq.trans hsame, fun i hi => ?_⟩
        rcases Nat.lt_succ_iff_lt_or_eq.1 hi with hlt | rfl
        · exact hnone i hlt
        · exact hnot
      · right
        refine ⟨i, by omega, hhit, heq.trans hpatch, fun j hij hj => ?_⟩
        rcases Nat.lt_succ_iff_lt_or_eq.1 hj with hlt | rfl
        · exact hlast j hij hlt
        · exact hnot

/-- The first patch over a byte finds it as it was. -/
theorem exists_first_hit (hhit : Hit out test patch m x i) : ∃ j b,
    sweep out test patch j m = .ok b ∧ test b j = .ok true ∧ Covers patch j x ∧ b[x]? = m[x]? := by
  induction i using Nat.strongRecOn with
  | ind i ih =>
    rcases hhit with ⟨⟨b, hb, htest⟩, hcovers⟩
    rcases origin hb x with ⟨heq, -⟩ | ⟨j, hj, hbefore, -⟩
    · exact ⟨i, b, hb, htest, hcovers, heq⟩
    · exact ih j hj hbefore

/-- As long as the patches end before, the block ahead is as it was. -/
theorem ahead (h : sweep out test patch n m = .ok r)
    (hends : ∀ i < n, Fired out test patch m i → i + patch.length ≤ n) (hx : n ≤ x) :
    r[x]? = m[x]? := by
  rcases origin h x with ⟨heq, -⟩ | ⟨i, hi, ⟨hfired, -, hlt⟩, -⟩
  · exact heq
  · have := hends i hi hfired
    omega

/-- A sweep that does not return stops at a test, or at a patch without room. -/
theorem sweep_error {e : ε} (h : sweep out test patch n m = .error e) :
    ∃ i < n, ∃ b, sweep out test patch i m = .ok b ∧
      (test b i = .error e ∨ test b i = .ok true ∧ m.length < i + patch.length) := by
  induction n with
  | zero => cases h
  | succ n ih =>
    cases hb : sweep out test patch n m with
    | error e' =>
      rw [sweep, hb] at h
      rcases Except.error.inj h with rfl
      rcases ih hb with ⟨i, hi, hstop⟩
      exact ⟨i, by omega, hstop⟩
    | ok b =>
      rw [sweep, hb] at h
      change turn out test patch n b = .error e at h
      refine ⟨n, Nat.lt_succ_self n, b, hb, ?_⟩
      cases htest : test b n with
      | error e' =>
        rw [turn, htest] at h
        exact Or.inl (congrArg Except.error (Except.error.inj h))
      | ok fires =>
        cases fires with
        | false =>
          rw [turn, htest] at h
          cases h
        | true =>
          right
          refine ⟨rfl, ?_⟩
          by_contra hroom
          have hlen := length_sweep hb
          rw [turn, htest] at h
          change put out b n patch = .error e at h
          rw [put_ok (by omega)] at h
          cases h

/-! ## Tests that the patches do not disturb -/

/-- The test has at every turn the result that it has on the block before the sweep. -/
def Undisturbed (out : ε) (test : List β → ℕ → Except ε Bool) (patch : List β) (n : ℕ)
    (m : List β) : Prop :=
  ∀ i < n, ∀ b, sweep out test patch i m = .ok b → test b i = test m i

theorem Undisturbed.fired_iff (hsame : Undisturbed out test patch n m)
    (h : sweep out test patch n m = .ok r) (hi : i < n) :
    Fired out test patch m i ↔ test m i = .ok true := by
  constructor
  case mp =>
    rintro ⟨b, hb, htest⟩
    rwa [hsame i hi b hb] at htest
  case mpr =>
    intro htest
    rcases exists_sweep h (Nat.le_of_lt hi) with ⟨b, hb⟩
    refine ⟨b, hb, ?_⟩
    rwa [hsame i hi b hb]

/-- It returns if the tests do, and there is room for the patches. -/
theorem Undisturbed.returns (hsame : Undisturbed out test patch n m)
    (htest : ∀ i < n, ∀ e, test m i ≠ .error e)
    (hroom : ∀ i < n, test m i = .ok true → i + patch.length ≤ m.length) :
    ∃ r, sweep out test patch n m = .ok r := by
  cases h : sweep out test patch n m with
  | ok r => exact ⟨r, rfl⟩
  | error e =>
    rcases sweep_error h with ⟨i, hi, b, hb, hstop⟩
    rw [hsame i hi b hb] at hstop
    rcases hstop with herror | ⟨htrue, hlen⟩
    · exact absurd herror (htest i hi e)
    · have := hroom i hi htrue
      omega

/-! ## All patches at once -/

/-- The block with the patch at every site, and nothing else changed. -/
structure Substituted (m : List β) (Site : ℕ → Prop) (patch r : List β) : Prop where
  length : r.length = m.length
  sites : ∀ i x, Site i → Covers patch i x → r[x]? = patch[x - i]?
  others : ∀ x, (∀ i, Site i → ¬ Covers patch i x) → r[x]? = m[x]?

theorem Substituted.cell {Site : ℕ → Prop} {k : ℕ} {v : β} (h : Substituted m Site patch r)
    (hi : Site i) (hv : patch[k]? = some v) : r[i + k]? = some v := by
  rw [h.sites i _ hi (covers_add hv), Nat.add_sub_cancel_left, hv]

theorem Substituted.congr {Site Site' : ℕ → Prop} (h : Substituted m Site patch r)
    (hiff : ∀ i, Site i ↔ Site' i) : Substituted m Site' patch r where
  length := h.length
  sites i x hi hc := h.sites i x ((hiff i).2 hi) hc
  others x hx := h.others x fun i hi => hx i ((hiff i).1 hi)

/-- The result is unique. -/
theorem Substituted.unique {Site : ℕ → Prop} {r' : List β} (h : Substituted m Site patch r)
    (h' : Substituted m Site patch r') : r = r' := by
  apply List.ext_getElem?
  intro x
  by_cases hx : ∃ i, Site i ∧ Covers patch i x
  · rcases hx with ⟨i, hi, hc⟩
    rw [h.sites i x hi hc, h'.sites i x hi hc]
  · have hnone : ∀ i, Site i → ¬ Covers patch i x := fun i hi hc => hx ⟨i, hi, hc⟩
    rw [h.others x hnone, h'.others x hnone]

/-- A sweep whose patches are apart has put them all at once. -/
theorem substituted_of_fired (h : sweep out test patch n m = .ok r)
    (hapart : ∀ i j, i < j → j < n → Fired out test patch m i → Fired out test patch m j →
      i + patch.length ≤ j) :
    Substituted m (fun i => i < n ∧ Fired out test patch m i) patch r := by
  constructor
  case length => exact length_sweep h
  case sites =>
    rintro i x ⟨hi, hfired⟩ hc
    rcases origin h x with ⟨-, hnone⟩ | ⟨j, hj, ⟨hfired', hc'⟩, heq, -⟩
    · exact absurd ⟨hfired, hc⟩ (hnone i hi)
    · -- no other patch covers the byte
      rcases hc with ⟨hle, hlt⟩
      rcases hc' with ⟨hle', hlt'⟩
      rcases Nat.lt_trichotomy i j with hij | rfl | hji
      · have := hapart i j hij hj hfired hfired'
        omega
      · exact heq
      · have := hapart j i hji hi hfired' hfired
        omega
  case others =>
    intro x hx
    rcases origin h x with ⟨heq, -⟩ | ⟨i, hi, ⟨hfired, hc⟩, -⟩
    · exact heq
    · exact absurd hc (hx i ⟨hi, hfired⟩)

end Wdutf.Sweep
