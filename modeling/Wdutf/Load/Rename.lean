import Mathlib.Data.List.Basic
import Mathlib.Tactic.Common
import Wdutf.Load.Update

/-!
# Wdutf.Load.Rename — the scan for the names of libraries, `src/load.cpp`

The first scan of `DdkUpdateImage` writes `"ddk.dll"` over the names. What it writes is in
its way at most right behind `"hal.dll"`, which is as long as `"ddk.dll"`, so that the NUL
goes behind it.

* `no_name_behind` — a name that begins in another, or right behind a terminated one;
* `linksName_undisturbed` — the scan finds what there was before it.
-/

namespace Wdutf.Load

open Wdutf.Block Wdutf.Sweep

variable {m b name : List UInt8} {i j k n x : ℕ} {c v : UInt8}

theorem exists_byte (h : x < m.length) : ∃ v, m[x]? = some v := ⟨_, List.getElem?_eq_getElem h⟩

/-! ## Letters -/

/-- The names begin with different letters. -/
def starts : List UInt8 := [0x6E, 0x68, 0x77]

/-- Letters that are the same but for their case differ in one bit at most. -/
theorem or_tolower (v : UInt8) : tolower v ||| 0x20 = v ||| 0x20 := by
  have hall : ∀ k < 256, tolower (UInt8.ofNat k) ||| 0x20 = UInt8.ofNat k ||| 0x20 := by
    decide +kernel
  have hv := hall v.toNat v.toNat_lt
  rwa [UInt8.ofNat_toNat] at hv

theorem or_of_mem_names (hname : name ∈ names) (hc : name[k]? = some c) : c ||| 0x20 = c := by
  have hall : ∀ name ∈ names, name.all (fun c => c ||| 0x20 == c) = true := by decide
  have hmem := List.all_eq_true.1 (hall name hname) c (List.mem_of_getElem? hc)
  exact beq_iff_eq.1 hmem

/-- A letter of a name in the buffer. -/
theorem or_of_agrees (hname : name ∈ names) (h : Agrees tolower m i name)
    (hc : name[k]? = some c) (hv : m[i + k]? = some v) : v ||| 0x20 = c := by
  rw [← or_tolower, h k c v hc hv]
  exact or_of_mem_names hname hc

theorem exists_start (hname : name ∈ names) : ∃ c ∈ starts, name[0]? = some c := by
  simp only [names, List.mem_cons, List.not_mem_nil, or_false] at hname
  rcases hname with rfl | rfl | rfl
  · exact ⟨0x6E, by decide, rfl⟩
  · exact ⟨0x68, by decide, rfl⟩
  · exact ⟨0x77, by decide, rfl⟩

theorem or_mem_starts (hname : name ∈ names) (h : Agrees tolower m i name) (hv : m[i]? = some v) :
    v ||| 0x20 ∈ starts := by
  rcases exists_start hname with ⟨c, hc, hfirst⟩
  rwa [or_of_agrees hname h hfirst hv]

/-- At most one name stands at an offset. -/
theorem name_unique {name' : List UInt8} (hname : name ∈ names) (hname' : name' ∈ names)
    (h : Agrees tolower m i name) (h' : Agrees tolower m i name') (hi : i < m.length) :
    name = name' := by
  have hall : ∀ name ∈ names, ∀ name' ∈ names, name[0]? = name'[0]? → name = name' := by decide
  rcases exists_byte hi with ⟨v, hv⟩
  rcases exists_start hname with ⟨c, -, hc⟩
  rcases exists_start hname' with ⟨c', -, hc'⟩
  have hfirst := or_of_agrees hname h hc hv
  rw [or_of_agrees hname' h' hc' hv] at hfirst
  exact hall name hname name' hname' (by rw [hc, hc', hfirst])

/-- What is written begins no name. -/
theorem ddkDll_not_start (hv : ddkDll[k]? = some v) : v ||| 0x20 ∉ starts := by
  have hall : ddkDll.all (fun v => decide (v ||| 0x20 ∉ starts)) = true := by decide
  exact of_decide_eq_true (List.all_eq_true.1 hall v (List.mem_of_getElem? hv))

/-! ## Names that are apart -/

theorem NameAt.lt (h : NameAt m i) : i + 7 ≤ m.length := by
  rcases h with ⟨name, hname, -, hlen⟩
  have hall : ∀ name ∈ names, 7 ≤ name.length := by decide
  have := hall name hname
  omega

theorem NameAt.start (h : NameAt m i) : ∃ v, m[i]? = some v ∧ v ||| 0x20 ∈ starts := by
  have hlt := h.lt
  rcases h with ⟨name, hname, hagrees, -⟩
  rcases exists_byte (m := m) (x := i) (by omega) with ⟨v, hv⟩
  exact ⟨v, hv, or_mem_starts hname hagrees hv⟩

theorem HalAt.nameAt (h : HalAt m i) : NameAt m i := ⟨halDll, by simp [names], h.1, h.2⟩

/-- Only `"hal.dll"` has no room for eight bytes. -/
theorem NameAt.room (h : NameAt m i) (hhal : ¬ HalAt m i) : i + 8 ≤ m.length := by
  rcases h with ⟨name, hname, hagrees, hlen⟩
  simp only [names, List.mem_cons, List.not_mem_nil, or_false] at hname
  rcases hname with rfl | rfl | rfl
  · change i + 12 ≤ m.length at hlen
    omega
  · exact absurd ⟨hagrees, hlen⟩ hhal
  · change i + 10 ≤ m.length at hlen
    omega

/-- No name begins in another one. -/
theorem no_name_inside {name' : List UInt8} (hname : name ∈ names) (hname' : name' ∈ names)
    (h : Agrees tolower m i name) (hlen : i + name.length ≤ m.length) (hk : 0 < k)
    (hlt : k < name.length) : ¬ Agrees tolower m (i + k) name' := by
  have hdiffer : ∀ name ∈ names, ∀ name' ∈ names, ∀ k < name.length, 0 < k →
      ∃ l < name'.length, k + l < name.length ∧ name[k + l]? ≠ name'[l]? := by decide
  exact h.not_of_differ hlen (hdiffer name hname name' hname' k hlt hk)

/-- Nor right behind one, unless that is `"hal.dll"` with a letter behind it. -/
theorem no_name_behind (h : NameAt m i)
    (hend : HalAt m i → ∀ v, m[i + 7]? = some v → v ||| 0x20 = 0x20) (hij : i < j)
    (hj : j < i + 8) (hlt : j < m.length) (hname : name ∈ names) :
    ¬ Agrees tolower m j name := by
  have hoffset : j = i + (j - i) := by omega
  by_cases hhal : HalAt m i
  case pos =>
    by_cases hlast : j = i + 7
    case pos =>
      -- the byte behind `"hal.dll"`
      intro hagrees
      rcases exists_byte hlt with ⟨v, hv⟩
      have hstart := or_mem_starts hname hagrees hv
      rw [hlast] at hv
      rw [hend hhal v hv] at hstart
      exact absurd hstart (by decide)
    case neg =>
      rw [hoffset]
      exact no_name_inside (by simp [names]) hname hhal.1 hhal.2 (by omega)
        (show j - i < 7 by omega)
  case neg =>
    rcases h with ⟨name', hname', hagrees, hlen⟩
    have hlong : 8 ≤ name'.length := by
      simp only [names, List.mem_cons, List.not_mem_nil, or_false] at hname'
      rcases hname' with rfl | rfl | rfl
      · decide
      · exact absurd ⟨hagrees, hlen⟩ hhal
      · decide
    rw [hoffset]
    exact no_name_inside hname' hname hagrees hlen (by omega) (by omega)

theorem NameAt.apart (h : NameAt m i) (h' : NameAt m j)
    (hend : HalAt m i → ∀ v, m[i + 7]? = some v → v ||| 0x20 = 0x20) (hij : i < j) :
    i + 8 ≤ j := by
  by_contra hlt
  have hj := h'.lt
  rcases h' with ⟨name, hname, hagrees, -⟩
  exact no_name_behind h hend hij (by omega) (by omega) hname hagrees

/-! ## The scan -/

theorem linksName_congr (h : ∀ x, i ≤ x → m[x]? = b[x]?) : linksName m i = linksName b i := by
  unfold linksName strnicmp
  simp only [reads_congr _ tolower _ h]

/-- A written letter is not the start of a name. -/
theorem linksName_ddkDll (hv : b[i]? = some v) (hstart : v ||| 0x20 ∉ starts) :
    linksName b i = .ok false := by
  have hi : i ≤ b.length := by
    rcases List.getElem?_eq_some_iff.1 hv with ⟨hlt, -⟩
    omega
  rcases linksName_cases hi with ⟨-, name, hname, hagrees, -⟩ | ⟨-, name, hname, hagrees, -⟩ |
    ⟨heq, -⟩
  · exact absurd (or_mem_starts hname hagrees hv) hstart
  · exact absurd (or_mem_starts hname hagrees hv) hstart
  · exact heq

/-- The names that are found leave room for what is written. -/
theorem links_apart (hij : i < j) (hj : j < m.length)
    (hi : Fired Stop.outOfBounds linksName ddkDll m i)
    (hfired : Fired Stop.outOfBounds linksName ddkDll m j) : i + 8 ≤ j := by
  rcases hfired with ⟨b, hb, htest⟩
  by_contra hlt
  have hcovers : Covers ddkDll i j := ⟨by omega, show j < i + 8 by omega⟩
  rcases exists_byte (m := b) (x := j) (by rw [length_sweep hb]; exact hj) with ⟨v, hget⟩
  rcases origin hb j with ⟨-, hnone⟩ | ⟨i', -, -, heq, -⟩
  · exact hnone i hij ⟨hi, hcovers⟩
  · -- the letter there has been written
    rw [hget] at heq
    rw [linksName_ddkDll hget (ddkDll_not_start heq.symm)] at htest
    cases htest

theorem nameAt_of_links (hj : j < m.length)
    (hfired : Fired Stop.outOfBounds linksName ddkDll m j) : NameAt m j := by
  have hends : ∀ i < j, Fired Stop.outOfBounds linksName ddkDll m i → i + ddkDll.length ≤ j :=
    fun i hij hi => links_apart hij hj hi hfired
  rcases hfired with ⟨b, hb, htest⟩
  have hahead := linksName_congr (m := b) (b := m) fun x hx => ahead hb hends hx
  rw [hahead] at htest
  rcases linksName_cases (Nat.le_of_lt hj) with ⟨-, hname⟩ | ⟨heq, -⟩ | ⟨heq, -⟩
  · exact hname
  · rw [heq] at htest
    cases htest
  · rw [heq] at htest
    cases htest

/-- The first scan finds the names that were there before it, if every `"hal.dll"` that it
finds has no letter behind it. -/
theorem linksName_undisturbed (hn : n ≤ m.length)
    (hend : ∀ i < n, Fired Stop.outOfBounds linksName ddkDll m i → HalAt m i →
      ∀ v, m[i + 7]? = some v → v ||| 0x20 = 0x20) :
    Undisturbed Stop.outOfBounds linksName ddkDll n m := by
  intro j hj b hb
  by_cases hclear : ∀ i < j, Fired Stop.outOfBounds linksName ddkDll m i → i + 8 ≤ j
  case pos => exact linksName_congr fun x hx => ahead hb hclear hx
  case neg =>
    simp only [not_forall] at hclear
    rcases hclear with ⟨i, hij, hfired, hlt⟩
    have hcovers : Covers ddkDll i j := ⟨by omega, show j < i + 8 by omega⟩
    rcases exists_byte (m := b) (x := j) (by rw [length_sweep hb]; omega) with ⟨v, hget⟩
    have hwritten : linksName b j = .ok false := by
      rcases origin hb j with ⟨-, hnone⟩ | ⟨i', -, -, heq, -⟩
      · exact absurd ⟨hfired, hcovers⟩ (hnone i hij)
      · rw [hget] at heq
        exact linksName_ddkDll hget (ddkDll_not_start heq.symm)
    have hname := nameAt_of_links (by omega) hfired
    have hquiet : ∀ name ∈ names, ¬ Agrees tolower m j name :=
      fun name => no_name_behind hname (hend i (by omega) hfired) hij (by omega) (by omega)
    rw [hwritten]
    rcases linksName_cases (m := m) (i := j) (by omega) with
      ⟨-, name, hmem, hagrees, -⟩ | ⟨-, name, hmem, hagrees, -⟩ | ⟨heq, -⟩
    · exact absurd hagrees (hquiet name hmem)
    · exact absurd hagrees (hquiet name hmem)
    · exact heq.symm

/-- A name is found where it stands. -/
theorem linksName_true_iff (hi : i < m.length) : linksName m i = .ok true ↔ NameAt m i := by
  constructor
  case mp =>
    intro htrue
    rcases linksName_cases (Nat.le_of_lt hi) with ⟨-, hname⟩ | ⟨heq, -⟩ | ⟨heq, -⟩
    · exact hname
    · rw [heq] at htrue
      cases htrue
    · rw [heq] at htrue
      cases htrue
  case mpr =>
    intro h
    rcases linksName_cases (Nat.le_of_lt hi) with ⟨heq, -⟩ | ⟨-, name, hname, hagrees, hlen⟩ |
      ⟨-, hnone⟩
    · exact heq
    · -- another name, which runs out, would begin with the same letter
      rcases h with ⟨name', hname', hagrees', hlen'⟩
      rw [name_unique hname hname' hagrees hagrees' hi] at hlen
      omega
    · rcases h with ⟨name, hname, hagrees, -⟩
      exact absurd hagrees (hnone name hname)

end Wdutf.Load
