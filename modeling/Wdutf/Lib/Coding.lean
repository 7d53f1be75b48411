import Mathlib.Data.List.Basic
import Mathlib.Data.List.Infix
import Mathlib.Tactic.Common

/-!
# Wdutf.Lib.Coding — texts in a code of variable width

A code gives every character a word of units, and a text is written as the words of
its characters one after another.

* `exists_cut` — a place inside a text lies within the word of one character;
* `Longest` — the longest prefix of a text, in whole characters, that fits;
* `Decoder` — reading the words back; `scan` passes over units that start no word;
* `next_suffix_eq_none` — in a code that tells the first units of its words, nothing is
  read from inside a word that was cut.
-/

namespace Wdutf.Coding

variable {κ α β : Type}

/-! ## Cuts -/

/-- A place before the end of a text lies in the word of a character, or right before
it. -/
theorem exists_cut {f : κ → List α} {cs : List κ} {n : ℕ} (h : n < (cs.flatMap f).length) :
    ∃ pre c rest, cs = pre ++ c :: rest ∧ (pre.flatMap f).length ≤ n ∧
      n < (pre.flatMap f).length + (f c).length := by
  induction cs generalizing n with
  | nil => exact absurd h (Nat.not_lt_zero n)
  | cons c cs ih =>
    by_cases hc : n < (f c).length
    · exact ⟨[], c, cs, rfl, Nat.zero_le n, by simpa using hc⟩
    · rw [List.flatMap_cons, List.length_append] at h
      rcases ih (n := n - (f c).length) (by omega) with ⟨pre, d, rest, rfl, hle, hlt⟩
      refine ⟨c :: pre, d, rest, rfl, ?_, ?_⟩
      · rw [List.flatMap_cons, List.length_append]
        omega
      · rw [List.flatMap_cons, List.length_append]
        omega

/-- The units before a cut. -/
theorem take_cut {f : κ → List α} {pre rest : List κ} {c : κ} {n : ℕ}
    (hle : (pre.flatMap f).length ≤ n) (hlt : n ≤ (pre.flatMap f).length + (f c).length) :
    ((pre ++ c :: rest).flatMap f).take n =
      pre.flatMap f ++ (f c).take (n - (pre.flatMap f).length) := by
  rw [List.flatMap_append, List.flatMap_cons, List.take_append, List.take_of_length_le hle]
  rw [List.take_append_of_le_length (by omega)]

theorem length_flatMap_concat (f : κ → List α) (pre : List κ) (c : κ) :
    ((pre ++ [c]).flatMap f).length = (pre.flatMap f).length + (f c).length := by
  rw [List.flatMap_append, List.flatMap_singleton, List.length_append]

/-- Where one prefix of a text ends no later than another, it is a prefix of it. -/
theorem prefix_of_length_le {f : κ → List α} {q pre rest : List κ} {c : κ}
    (hq : q <+: pre ++ c :: rest)
    (hlt : (q.flatMap f).length < (pre.flatMap f).length + (f c).length) : q <+: pre := by
  by_cases hlen : q.length ≤ pre.length
  · exact List.prefix_of_prefix_length_le hq (List.prefix_append _ _) hlen
  · -- a longer one has the word of `c` in it
    exfalso
    have hpre : pre ++ [c] <+: q := by
      have hstart : pre ++ [c] <+: pre ++ c :: rest := ⟨rest, by simp⟩
      apply List.prefix_of_prefix_length_le hstart hq
      rw [List.length_append, List.length_singleton]
      omega
    rcases hpre with ⟨more, rfl⟩
    simp only [List.flatMap_append, List.flatMap_singleton, List.length_append] at hlt
    omega

/-! ## The longest prefix that fits -/

/-- The longest prefix, in whole characters, whose words take at most `size` units. -/
structure Longest (f : κ → List α) (cs : List κ) (size : ℕ) (pre : List κ) : Prop where
  isPrefix : pre <+: cs
  fits : (pre.flatMap f).length ≤ size
  longest : ∀ q, q <+: cs → (q.flatMap f).length ≤ size → q.length ≤ pre.length

theorem longest_of_cut {f : κ → List α} {pre rest : List κ} {c : κ} {size : ℕ}
    (hle : (pre.flatMap f).length ≤ size)
    (hlt : size < (pre.flatMap f).length + (f c).length) :
    Longest f (pre ++ c :: rest) size pre where
  isPrefix := List.prefix_append _ _
  fits := hle
  longest := by
    intro q hq hfits
    exact (prefix_of_length_le hq (Nat.lt_of_le_of_lt hfits hlt)).length_le

theorem Longest.unique {f : κ → List α} {cs pre pre' : List κ} {size : ℕ}
    (h : Longest f cs size pre) (h' : Longest f cs size pre') : pre = pre' := by
  have hlen : pre.length = pre'.length :=
    Nat.le_antisymm (h'.longest pre h.isPrefix h.fits) (h.longest pre' h'.isPrefix h'.fits)
  exact List.IsPrefix.eq_of_length
    (List.prefix_of_prefix_length_le h.isPrefix h'.isPrefix (Nat.le_of_eq hlen)) hlen

/-! ## Decoding -/

/-- The first unit of the word, and no other, is one that starts words. -/
def FirstOnly (Inner : α → Prop) (word : List α) : Prop :=
  ∃ u rest, word = u :: rest ∧ ¬ Inner u ∧ ∀ x ∈ rest, Inner x

/-- Reading the first character of a text, for a code in which no word is empty. -/
structure Decoder (enc : κ → List α) where
  next : List α → Option κ
  next_append : ∀ c rest, next (enc c ++ rest) = some c
  prefix_of_next : ∀ src c, next src = some c → enc c <+: src
  enc_ne_nil : ∀ c, enc c ≠ []

variable {enc : κ → List α}

namespace Decoder

/-- The characters of a text; a unit that starts no word counts as `none`. -/
def scan (d : Decoder enc) : ℕ → List α → List (Option κ)
  | 0, _ => []
  | _ + 1, [] => []
  | turns + 1, u :: src =>
    match d.next (u :: src) with
    | some c => some c :: scan d turns ((u :: src).drop (enc c).length)
    | none => none :: scan d turns src

theorem scan_nil (d : Decoder enc) (turns : ℕ) : d.scan turns [] = [] := by
  cases turns with
  | zero => rfl
  | succ turns => rfl

/-- A well-formed text is read first. -/
theorem scan_append (d : Decoder enc) (cs : List κ) {turns : ℕ} {src : List α}
    (h : ((cs.flatMap enc) ++ src).length ≤ turns) :
    ∃ left, src.length ≤ left ∧
      d.scan turns (cs.flatMap enc ++ src) = cs.map some ++ d.scan left src := by
  induction cs generalizing turns with
  | nil => exact ⟨turns, by simpa using h, rfl⟩
  | cons c cs ih =>
    rw [List.flatMap_cons, List.append_assoc] at h ⊢
    have hread := d.next_append c (cs.flatMap enc ++ src)
    have hpos : 0 < (enc c).length := List.length_pos_of_ne_nil (d.enc_ne_nil c)
    have hdrop : (enc c ++ (cs.flatMap enc ++ src)).drop (enc c).length = cs.flatMap enc ++ src :=
      List.drop_left
    rw [List.length_append] at h
    match turns, hsrc : enc c ++ (cs.flatMap enc ++ src) with
    | 0, _ => omega
    | turns + 1, [] =>
      rw [List.append_eq_nil_iff] at hsrc
      exact absurd hsrc.1 (d.enc_ne_nil c)
    | turns + 1, u :: text =>
      rw [hsrc] at hread hdrop
      have hlen : (cs.flatMap enc ++ src).length ≤ turns := by omega
      rcases ih hlen with ⟨left, hleft, hscan⟩
      refine ⟨left, hleft, ?_⟩
      rw [scan, hread]
      simp only
      rw [hdrop, hscan]
      rfl

/-- Where no unit starts a word, every unit counts. -/
theorem scan_none (d : Decoder enc) {turns : ℕ} {src : List α} (h : src.length ≤ turns)
    (hnone : ∀ s, s <:+ src → d.next s = none) :
    d.scan turns src = List.replicate src.length none := by
  induction src generalizing turns with
  | nil => rw [scan_nil, List.length_nil, List.replicate_zero]
  | cons u src ih =>
    match turns with
    | 0 => exact absurd h (Nat.not_succ_le_zero _)
    | turns + 1 =>
      rw [scan, hnone _ List.suffix_rfl]
      simp only
      rw [ih (Nat.le_of_succ_le_succ h) fun s hs => hnone s (hs.trans (List.suffix_cons u src))]
      rfl

/-- A text that is read without such units is the words of its characters. -/
theorem eq_of_scan (d : Decoder enc) {turns : ℕ} {src : List α} {cs : List κ}
    (h : src.length ≤ turns) (hscan : d.scan turns src = cs.map some) : src = cs.flatMap enc := by
  induction turns generalizing src cs with
  | zero =>
    have hnil : cs = [] := List.map_eq_nil_iff.1 hscan.symm
    rw [List.eq_nil_of_length_eq_zero (Nat.le_zero.1 h), hnil]
    rfl
  | succ turns ih =>
    match src with
    | [] =>
      rw [scan_nil] at hscan
      rw [List.map_eq_nil_iff.1 hscan.symm]
      rfl
    | u :: src =>
      unfold scan at hscan
      split at hscan
      · rename_i c hc
        rcases d.prefix_of_next _ _ hc with ⟨rest, hrest⟩
        match cs with
        | [] => cases hscan
        | c' :: cs =>
          rw [List.map_cons, List.cons.injEq, Option.some.injEq] at hscan
          rcases hscan with ⟨rfl, hscan⟩
          rw [← hrest, List.drop_left] at hscan
          have hlen := congrArg List.length hrest
          have hpos : 0 < (enc c).length := List.length_pos_of_ne_nil (d.enc_ne_nil c)
          rw [List.length_append] at hlen
          rw [← hrest, List.flatMap_cons, ← ih (by omega) hscan]
      · match cs with
        | [] => cases hscan
        | c' :: cs => cases hscan

/-- The length of a conversion, from a bound for what a unit may become. -/
theorem length_flatMap_scan_le (d : Decoder enc) {g : Option κ → List β} {k : ℕ}
    (hnone : (g none).length ≤ k) (hsome : ∀ c, (g (some c)).length ≤ k * (enc c).length)
    (turns : ℕ) (src : List α) : ((d.scan turns src).flatMap g).length ≤ k * src.length := by
  induction turns generalizing src with
  | zero => exact Nat.zero_le _
  | succ turns ih =>
    match src with
    | [] =>
      rw [scan_nil]
      exact Nat.zero_le _
    | u :: src =>
      unfold scan
      split
      · rename_i c hc
        rcases d.prefix_of_next _ _ hc with ⟨rest, hrest⟩
        have hrest' := ih rest
        have hc' := hsome c
        rw [← hrest, List.drop_left, List.flatMap_cons, List.length_append, List.length_append,
          Nat.mul_add]
        omega
      · have hrest := ih src
        rw [List.flatMap_cons, List.length_append, List.length_cons, Nat.mul_add]
        omega

/-- A proper part of a word at its start is no text. -/
theorem next_take_eq_none (d : Decoder enc) {c : κ} {n : ℕ} (h : n < (enc c).length) :
    d.next ((enc c).take n) = none := by
  match hnext : d.next ((enc c).take n) with
  | none => rfl
  | some c' =>
    exfalso
    rcases d.prefix_of_next _ _ hnext with ⟨rest, hrest⟩
    -- the same character is read in the whole word, which is longer
    have hwhole : enc c = enc c' ++ (rest ++ (enc c).drop n) := by
      rw [← List.append_assoc, hrest, List.take_append_drop]
    have hread := d.next_append c' (rest ++ (enc c).drop n)
    have hself := d.next_append c []
    rw [List.append_nil] at hself
    rw [← hwhole, hself, Option.some.injEq] at hread
    have hlen := congrArg List.length hrest
    rw [List.length_append, List.length_take, ← hread] at hlen
    omega

/-- In a code that tells first units, nothing is read from inside a cut word. -/
theorem next_suffix_eq_none (d : Decoder enc) {Inner : α → Prop}
    (hfirst : ∀ c, FirstOnly Inner (enc c)) {c : κ} {n : ℕ} {s : List α}
    (h : n < (enc c).length) (hs : s <:+ (enc c).take n) : d.next s = none := by
  match hnext : d.next s with
  | none => rfl
  | some c' =>
    exfalso
    rcases d.prefix_of_next _ _ hnext with ⟨rest, rfl⟩
    rcases hs with ⟨front, hfront⟩
    rcases hfirst c' with ⟨v, w', hc', hv, -⟩
    match front with
    | [] =>
      -- the cut word itself
      rw [List.nil_append] at hfront
      rw [hfront, d.next_take_eq_none h] at hnext
      cases hnext
    | x :: front =>
      rcases hfirst c with ⟨u, w, hc, -, hw⟩
      have hmem : v ∈ w := by
        match n with
        | 0 => cases hfront
        | n + 1 =>
          rw [hc, hc', List.take_succ_cons, List.cons_append, List.cons.injEq] at hfront
          apply List.mem_of_mem_take (i := n)
          rw [← hfront.2]
          simp
      exact hv (hw v hmem)

end Decoder

end Wdutf.Coding
