import Mathlib.Algebra.BigOperators.Fin
import Mathlib.Algebra.Group.Nat.Defs
import Mathlib.Algebra.GroupWithZero.Nat
import Mathlib.Data.List.Basic
import Mathlib.Tactic.Common
import Mathlib.Tactic.Ring
import Wdutf.Lib.Loop
import Wdutf.Rtl.Compare
import Wdutf.Rtl.Hash

/-!
# Wdutf.Rtl.HashPolynomial — what `RtlHashUnicodeString` computes, `src/unicode.cpp`

The loop of `RtlHashUnicodeString` counts in a `USHORT` and multiplies with two shifts and
a subtraction. It is the polynomial X65599 of the characters, modulo `2 ^ 32`.

* `hashLoop` — the loop itself, over the memory of the string;
* `hashVariables_eq` — its variables after every turn, so that the index does not wrap;
* `hash_polynomial` — the value, and what it is for a concatenation.
-/

namespace Wdutf.Rtl

open Wdutf.Loop
open Wdutf.Rtl.Compare (CountedString)

/-! ## The loop -/

/-- The variables of the loop. -/
structure HashVariables where
  i : UInt16
  hash : UInt32
deriving DecidableEq, Repr

inductive HashFailure where
  /-- A character that is not in the memory of the string. -/
  | outOfBounds
  /-- More turns than were given. -/
  | outOfTurns
deriving DecidableEq, Repr

/-- One turn of the loop, or `none` if its condition fails. -/
def hashTurn (string : CountedString) (caseInSensitive : Bool) (v : HashVariables) :
    EStateM HashFailure Unit (Option HashVariables) :=
  if v.i.toNat < string.length.toNat / 2 then
    match string.buffer[v.i.toNat]? with
    | none => throw .outOfBounds
    | some c => pure (some ⟨v.i + 1, hashStep caseInSensitive v.hash c⟩)
  else pure none

/-- The loop of `RtlHashUnicodeString`, in at most `turns` turns. -/
def hashLoop (string : CountedString) (caseInSensitive : Bool) (turns : ℕ) :
    EStateM HashFailure Unit HashVariables :=
  loop .outOfTurns (hashTurn string caseInSensitive) turns ⟨0, 0⟩

/-- The variables after `k` turns, or `none` if the loop makes fewer. -/
def hashVariables (string : CountedString) (caseInSensitive : Bool) :
    ℕ → EStateM HashFailure Unit (Option HashVariables)
  | 0 => pure (some ⟨0, 0⟩)
  | k + 1 => do
    match ← hashVariables string caseInSensitive k with
    | none => pure none
    | some v => hashTurn string caseInSensitive v

/-- What the variables are after `k` turns. -/
def variablesAt (string : CountedString) (caseInSensitive : Bool) (k : ℕ) : HashVariables where
  i := UInt16.ofNat k
  hash := (string.chars.take k).foldl (hashStep caseInSensitive) 0

theorem toNat_variablesAt {string : CountedString} {k : ℕ} (ci : Bool)
    (hk : k ≤ string.length.toNat / 2) : (variablesAt string ci k).i.toNat = k := by
  have hlt := string.length.toNat_lt
  exact UInt16.toNat_ofNat_of_lt' (by simp only [UInt16.size]; omega)

theorem hashTurn_next {string : CountedString} {k : ℕ} (ci : Bool)
    (hk : k < string.length.toNat / 2) :
    hashTurn string ci (variablesAt string ci k) () =
      .ok (some (variablesAt string ci (k + 1))) () := by
  have hbuffer : k < string.buffer.length := by
    have := string.holds
    omega
  have hcharacter : string.chars[k]? = some string.buffer[k] := by
    rw [CountedString.chars, List.getElem?_take_of_lt hk, List.getElem?_eq_getElem hbuffer]
  have htake : string.chars.take (k + 1) = string.chars.take k ++ [string.buffer[k]] := by
    rw [List.take_add_one, hcharacter, Option.toList_some]
  have hnext : variablesAt string ci (k + 1) =
      ⟨(variablesAt string ci k).i + 1,
        hashStep ci (variablesAt string ci k).hash string.buffer[k]⟩ := by
    simp only [variablesAt, htake, List.foldl_append, List.foldl_cons, List.foldl_nil,
      UInt16.ofNat_add]
    rfl
  have hi := toNat_variablesAt ci (Nat.le_of_lt hk)
  rw [hashTurn, hi, if_pos hk, List.getElem?_eq_getElem hbuffer, hnext]
  rfl

theorem hashTurn_last (string : CountedString) (ci : Bool) :
    hashTurn string ci (variablesAt string ci (string.length.toNat / 2)) () = .ok none () := by
  have hi : (variablesAt string ci (string.length.toNat / 2)).i.toNat = _ :=
    toNat_variablesAt ci (Nat.le_refl _)
  rw [hashTurn, hi, if_neg (Nat.lt_irrefl _)]
  rfl

theorem hashVariables_eq {string : CountedString} {k : ℕ} (ci : Bool)
    (hk : k ≤ string.length.toNat / 2) :
    hashVariables string ci k () = .ok (some (variablesAt string ci k)) () := by
  induction k with
  | zero => rfl
  | succ k ih =>
    rw [hashVariables, Action.bind_ok (ih (by omega))]
    exact hashTurn_next ci (by omega)

/-- The loop ends with the hash of the counted characters. -/
theorem hashLoop_eq (string : CountedString) (ci : Bool) {turns : ℕ}
    (hturns : string.length.toNat / 2 < turns) :
    ∃ v, hashLoop string ci turns () = .ok v () ∧
      v.hash = string.chars.foldl (hashStep ci) 0 := by
  have hall : string.chars.take (string.length.toNat / 2) = string.chars :=
    List.take_of_length_le (by rw [CountedString.chars, List.length_take]; omega)
  have hstep : ∀ (n : ℕ) (v : HashVariables) (s : Unit),
      (n ≤ string.length.toNat / 2 ∧ v = variablesAt string ci (string.length.toNat / 2 - n)) →
      (hashTurn string ci v s = .ok none s ∧
        v.hash = string.chars.foldl (hashStep ci) 0) ∨
      ∃ v' s' m, hashTurn string ci v s = .ok (some v') s' ∧ m < n ∧
        (m ≤ string.length.toNat / 2 ∧
          v' = variablesAt string ci (string.length.toNat / 2 - m)) := by
    rintro n v s ⟨hn, rfl⟩
    cases n with
    | zero =>
      left
      refine ⟨hashTurn_last string ci, ?_⟩
      simp only [variablesAt, Nat.sub_zero, hall]
    | succ n =>
      right
      have hk : string.length.toNat / 2 - (n + 1) < string.length.toNat / 2 := by omega
      have hnext := hashTurn_next ci hk
      rw [Nat.sub_add_eq, Nat.sub_add_cancel (by omega)] at hnext
      exact ⟨_, (), n, hnext, by omega, by omega, rfl⟩
  rcases loop_total hstep (x := ⟨0, 0⟩) (s := ())
    ⟨Nat.le_refl _, by rw [Nat.sub_self]; rfl⟩ hturns with ⟨v, s', hrun, hpost⟩
  exact ⟨v, hrun, hpost⟩

/-! ## The polynomial -/

/-- The character as it is hashed. -/
def hashed (caseInSensitive : Bool) (c : Wchar) : Wchar :=
  if caseInSensitive then towupper c else c

/-- The polynomial X65599 of the characters, the first one with the highest power. -/
def x65599 (caseInSensitive : Bool) (string : UnicodeString) : ℕ :=
  ∑ i : Fin string.length,
    (hashed caseInSensitive string[i]).toNat * 65599 ^ (string.length - 1 - i)

theorem x65599_cons (ci : Bool) (c : Wchar) (s : UnicodeString) :
    x65599 ci (c :: s) = (hashed ci c).toNat * 65599 ^ s.length + x65599 ci s := by
  refine (Fin.sum_univ_succ (n := s.length) _).trans ?_
  refine congrArg₂ (· + ·) rfl (Finset.sum_congr rfl ?_)
  intro i _
  have hpower : (c :: s).length - 1 - (i.succ : ℕ) = s.length - 1 - i := by
    rw [List.length_cons, Fin.val_succ]
    omega
  rw [hpower]
  rfl

/-- The shifts and the subtraction multiply by 65599. -/
theorem toNat_hashStep (ci : Bool) (hash : UInt32) (c : Wchar) :
    (hashStep ci hash c).toNat = ((hashed ci c).toNat + 65599 * hash.toNat) % 2 ^ 32 := by
  have hhash := hash.toNat_lt
  have hstep : hashStep ci hash c =
      (hashed ci c).toUInt32 + (hash <<< 6) + (hash <<< 16) - hash := rfl
  simp only [hstep, UInt32.toNat_sub, UInt32.toNat_add, UInt32.toNat_shiftLeft,
    UInt16.toNat_toUInt32, UInt32.reduceToNat, Nat.reduceMod, Nat.shiftLeft_eq]
  omega

/-- Hashing goes on from a hash that there is already. -/
theorem toNat_foldl_hashStep (ci : Bool) (s : UnicodeString) (hash : UInt32) :
    (s.foldl (hashStep ci) hash).toNat =
      (hash.toNat * 65599 ^ s.length + x65599 ci s) % 2 ^ 32 := by
  induction s generalizing hash with
  | nil =>
    simp [x65599]
  | cons c s ih =>
    rw [List.foldl_cons, ih, toNat_hashStep, x65599_cons, List.length_cons, Nat.add_mod,
      Nat.mul_mod, Nat.mod_mod, ← Nat.mul_mod, ← Nat.add_mod]
    ring_nf

theorem toNat_hash {s : UnicodeString} {ci : Bool} {algorithm hash : UInt32}
    (h : rtlHashUnicodeString s ci algorithm = .ok hash) : hash.toNat = x65599 ci s % 2 ^ 32 := by
  unfold rtlHashUnicodeString at h
  split at h
  case isTrue => cases h
  case isFalse =>
    rw [← Except.ok.inj h, toNat_foldl_hashStep]
    simp

theorem hash_accepted (s : UnicodeString) (ci : Bool) {algorithm : UInt32}
    (h : algorithm = hashStringAlgorithmDefault ∨ algorithm = hashStringAlgorithmX65599) :
    rtlHashUnicodeString s ci algorithm = .ok (s.foldl (hashStep ci) 0) := by
  rcases h with rfl | rfl <;> rfl

/-- **The hash is X65599.** For every string and both cases: the loop counts without
wrapping and ends with the hash of the counted characters, the hash is the polynomial, and
the hash of a concatenation is given by those of its parts. -/
theorem hash_polynomial (caseInSensitive : Bool) :
    (∀ (string : CountedString) (turns : ℕ), string.length.toNat / 2 < turns →
      (∀ k ≤ string.length.toNat / 2, ∃ v,
        hashVariables string caseInSensitive k () = .ok (some v) () ∧ v.i.toNat = k) ∧
      ∃ v, hashLoop string caseInSensitive turns () = .ok v () ∧
        ∀ algorithm, algorithm = hashStringAlgorithmDefault ∨
            algorithm = hashStringAlgorithmX65599 →
          rtlHashUnicodeString string.chars caseInSensitive algorithm = .ok v.hash) ∧
    (∀ (s : UnicodeString) (algorithm : UInt32),
      algorithm = hashStringAlgorithmDefault ∨ algorithm = hashStringAlgorithmX65599 →
      ∃ hash, rtlHashUnicodeString s caseInSensitive algorithm = .ok hash ∧
        hash.toNat = x65599 caseInSensitive s % 2 ^ 32) ∧
    (∀ (s t : UnicodeString) (algorithm hash hash' : UInt32),
      rtlHashUnicodeString s caseInSensitive algorithm = .ok hash →
      rtlHashUnicodeString t caseInSensitive algorithm = .ok hash' →
      ∃ hash'', rtlHashUnicodeString (s ++ t) caseInSensitive algorithm = .ok hash'' ∧
        hash''.toNat = (hash.toNat * 65599 ^ t.length + hash'.toNat) % 2 ^ 32) := by
  refine ⟨?_, ?_, ?_⟩
  case refine_1 =>
    intro string turns hturns
    constructor
    · intro k hk
      exact ⟨_, hashVariables_eq caseInSensitive hk, toNat_variablesAt caseInSensitive hk⟩
    · rcases hashLoop_eq string caseInSensitive hturns with ⟨v, hrun, hhash⟩
      refine ⟨v, hrun, fun algorithm halgorithm => ?_⟩
      rw [hash_accepted _ _ halgorithm, hhash]
  case refine_2 =>
    intro s algorithm halgorithm
    have hhash := hash_accepted s caseInSensitive halgorithm
    exact ⟨_, hhash, toNat_hash hhash⟩
  case refine_3 =>
    intro s t algorithm hash hash' h h'
    have ht := toNat_hash h'
    unfold rtlHashUnicodeString at h ⊢
    split at h
    case isTrue => cases h
    case isFalse halgorithm =>
      refine ⟨_, if_neg halgorithm, ?_⟩
      rw [List.foldl_append, toNat_foldl_hashStep, Except.ok.inj h, ht]
      simp

end Wdutf.Rtl
