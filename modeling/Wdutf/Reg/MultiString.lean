import Mathlib.Data.List.Forall2
import Mathlib.Tactic.Common
import Wdutf.Lib.Each
import Wdutf.Reg.Table

/-!
# Wdutf.Reg.MultiString — delivery of `REG_MULTI_SZ` values, `src/registry.cpp`

`DdkQueryCallback` hands the strings of a value to the `QueryRoutine` one by one. It looks
for NULs only, not at the length of the value.

* `wcslen_append` — the scan finds the end of a string;
* `queryStrings_multiSz` — the calls for a list of strings;
* `queryStrings_ok` — no scan leaves a block with three characters of zeros at its end, or
  two of them and a byte;
* `multiString_delivery` — so the strings of every value are delivered, and every value is
  read within its six zero bytes.
-/

namespace Wdutf.Reg

open Wdutf.Rtl Wdutf.Io Wdutf.Block Wdutf.Each

/-! ## Strings in memory -/

theorem wideChars_wchars (s : List Wchar) (rest : List UInt8) :
    wideChars (wchars s ++ rest) = s ++ wideChars rest := by
  induction s with
  | nil => rfl
  | cons c s ih =>
    have hc : UInt16.ofNat (c.toUInt8.toNat + 256 * (c >>> 8).toUInt8.toNat) = c := by
      have hlt := c.toNat_lt
      have hshift : (c >>> 8).toNat = c.toNat / 256 := by
        rw [UInt16.toNat_shiftRight]
        exact Nat.shiftRight_eq_div_pow _ _
      apply UInt16.toNat_inj.1
      rw [UInt16.toNat_ofNat', UInt16.toNat_toUInt8, UInt16.toNat_toUInt8, hshift]
      omega
    show UInt16.ofNat (c.toUInt8.toNat + 256 * (c >>> 8).toUInt8.toNat) ::
      wideChars (wchars s ++ rest) = _
    rw [hc, ih, List.cons_append]

theorem wchars_append (s t : List Wchar) : wchars (s ++ t) = wchars s ++ wchars t :=
  List.flatMap_append

/-- A pointer that moves by characters. -/
theorem wideChars_drop (block : List UInt8) (k : ℕ) :
    wideChars (block.drop (2 * k)) = (wideChars block).drop k := by
  induction k generalizing block with
  | zero => rfl
  | succ k ih =>
    rcases block with _ | ⟨a, _ | ⟨b, block⟩⟩
    · rfl
    · simp [wideChars, Nat.mul_succ]
    · exact ih block

theorem wcslen_zero (dp : List Wchar) : wcslen (0 :: dp) = .ok 0 := by
  rw [wcslen, if_pos rfl]

theorem wcslen_cons {c : Wchar} (dp : List Wchar) (h : c ≠ 0) :
    wcslen (c :: dp) = (wcslen dp).map (· + 1) := by
  rw [wcslen, if_neg h]

/-- The scan ends at the NUL behind a string. -/
theorem wcslen_append {s : List Wchar} (dp : List Wchar) (h : 0 ∉ s) :
    wcslen (s ++ 0 :: dp) = .ok s.length := by
  induction s with
  | nil => exact wcslen_zero dp
  | cons c s ih =>
    have hc : c ≠ 0 := fun heq => h (heq ▸ List.mem_cons_self)
    rw [List.cons_append, wcslen_cons _ hc, ih fun hmem => h (List.mem_cons_of_mem _ hmem)]
    rfl

/-- A string that is there for the scan. -/
theorem wcslen_split {dp : List Wchar} {n : ℕ} (h : wcslen dp = .ok n) :
    ∃ s rest, dp = s ++ 0 :: rest ∧ s.length = n ∧ 0 ∉ s := by
  induction dp generalizing n with
  | nil => cases h
  | cons c dp ih =>
    by_cases hc : c = 0
    · rw [hc, wcslen_zero] at h
      cases h
      exact ⟨[], dp, by rw [hc]; rfl, rfl, List.not_mem_nil⟩
    · rw [wcslen_cons _ hc] at h
      cases hdp : wcslen dp with
      | error stop =>
        rw [hdp] at h
        cases h
      | ok k =>
        rw [hdp] at h
        cases h
        rcases ih hdp with ⟨s, rest, rfl, hlength, hnul⟩
        refine ⟨c :: s, rest, rfl, by rw [List.length_cons, hlength], ?_⟩
        rw [List.mem_cons, not_or]
        exact ⟨fun heq => hc heq.symm, hnul⟩

/-- There is a NUL to be found. -/
theorem wcslen_of_mem {dp : List Wchar} (h : 0 ∈ dp) : ∃ n, wcslen dp = .ok n := by
  rcases List.append_of_mem h with ⟨s, rest, rfl⟩
  induction s with
  | nil => exact ⟨0, wcslen_zero rest⟩
  | cons c s ih =>
    by_cases hc : c = 0
    · exact ⟨0, by rw [hc, List.cons_append, wcslen_zero]⟩
    · rcases ih (by simp) with ⟨n, hn⟩
      exact ⟨n + 1, by rw [List.cons_append, wcslen_cons _ hc, hn]; rfl⟩

/-! ## The loop -/

/-- `REG_MULTI_SZ`: strings with a NUL behind each, and one more. -/
def multiSz (strings : List (List Wchar)) : List Wchar := strings.flatMap (· ++ [0]) ++ [0]

theorem multiSz_cons (s : List Wchar) (strings : List (List Wchar)) :
    multiSz (s :: strings) = s ++ 0 :: multiSz strings := by
  unfold multiSz
  rw [List.flatMap_cons, List.append_assoc, List.append_assoc]
  rfl

section Loop

variable (qp : TableEntry) (caller : Caller)

/-- A call of the routine. -/
def handOver (call : RoutineCall) (calls : List RoutineCall) :
    Except Stop (NtStatus × List RoutineCall) :=
  .ok (caller.queryRoutine calls call, calls ++ [call])

/-- The call for a string at `data`. -/
def stringCall (data : List UInt8) (s : List Wchar) : RoutineCall :=
  ⟨qp.name, regSz, data, UInt32.ofNat (2 * s.length), caller.context, qp.entryContext⟩

/-- The calls for the strings of a value. -/
def stringCalls (rest : List UInt8) : List (List Wchar) → List RoutineCall
  | [] => []
  | s :: strings =>
    stringCall qp caller (wchars (multiSz (s :: strings)) ++ rest) s :: stringCalls rest strings

variable {qp caller} {data : List UInt8} {status : NtStatus} {calls : List RoutineCall}

/-- The scan leaves the block. -/
theorem queryStrings_stop {type : UInt32} {stop : Stop}
    (h : wcslen (wideChars data) = .error stop) :
    queryStrings qp caller type data status calls = .error stop := by
  rw [queryStrings]
  split
  · rename_i stop' hstop
    rw [h] at hstop
    rw [Except.error.inj hstop]
  · rename_i hzero
    rw [h] at hzero
    cases hzero
  · rename_i n hn
    rw [h] at hn
    cases hn

/-- The loop ends at an empty string. -/
theorem queryStrings_end {type : UInt32} (h : wcslen (wideChars data) = .ok 0) :
    queryStrings qp caller type data status calls = .ok (status, calls) := by
  rw [queryStrings]
  split
  · rename_i stop hstop
    rw [h] at hstop
    cases hstop
  · rfl
  · rename_i n hn
    rw [h] at hn
    cases hn

/-- One string. -/
theorem queryStrings_next {type : UInt32} {n : ℕ} (h : wcslen (wideChars data) = .ok (n + 1)) :
    queryStrings qp caller type data status calls =
      if type = regExpandSz ∧ caller.environment ≠ 0 then .error .fail
      else
        let call : RoutineCall :=
          ⟨qp.name, regSz, data, UInt32.ofNat (2 * (n + 1)), caller.context, qp.entryContext⟩
        if ntSuccess (caller.queryRoutine calls call) = true ∧ type = regMultiSz then
          queryStrings qp caller type (data.drop (2 * (n + 2)))
            (caller.queryRoutine calls call) (calls ++ [call])
        else .ok (caller.queryRoutine calls call, calls ++ [call]) := by
  rw [queryStrings]
  split
  · rename_i stop hstop
    rw [h] at hstop
    cases hstop
  · rename_i hzero
    rw [h] at hzero
    cases hzero
  · rename_i k hk
    rw [h] at hk
    cases hk
    rfl

/-- One string of a `REG_MULTI_SZ` value. -/
theorem queryStrings_string {s : List Wchar} (hs : s ≠ [])
    (h : wcslen (wideChars data) = .ok s.length) :
    queryStrings qp caller regMultiSz data status calls =
      if ntSuccess (caller.queryRoutine calls (stringCall qp caller data s)) = true then
        queryStrings qp caller regMultiSz (data.drop (2 * (s.length + 1)))
          (caller.queryRoutine calls (stringCall qp caller data s))
          (calls ++ [stringCall qp caller data s])
      else .ok (caller.queryRoutine calls (stringCall qp caller data s),
        calls ++ [stringCall qp caller data s]) := by
  rcases Nat.exists_eq_succ_of_ne_zero (Nat.ne_of_gt (List.length_pos_iff.2 hs)) with ⟨n, hn⟩
  have hexpand : ¬ (regMultiSz = regExpandSz ∧ caller.environment ≠ 0) :=
    fun hboth => absurd hboth.1 (by decide)
  unfold stringCall
  rw [hn] at h ⊢
  rw [queryStrings_next h, if_neg hexpand]
  simp only [and_true]

/-- The strings of a value are handed over in order, up to a failure. -/
theorem queryStrings_multiSz {strings : List (List Wchar)} (rest : List UInt8)
    (h : ∀ s ∈ strings, s ≠ [] ∧ 0 ∉ s) :
    queryStrings qp caller regMultiSz (wchars (multiSz strings) ++ rest) status calls =
      (each ntSuccess (handOver caller) (stringCalls qp caller rest strings) status calls).map
        Prod.snd := by
  induction strings generalizing status calls with
  | nil =>
    apply queryStrings_end
    rw [wideChars_wchars]
    exact wcslen_zero _
  | cons s strings ih =>
    rcases h s List.mem_cons_self with ⟨hs, hnul⟩
    have hlength : wcslen (wideChars (wchars (multiSz (s :: strings)) ++ rest)) =
        .ok s.length := by
      rw [wideChars_wchars, multiSz_cons, List.append_assoc]
      exact wcslen_append _ hnul
    have hdrop : (wchars (multiSz (s :: strings)) ++ rest).drop (2 * (s.length + 1)) =
        wchars (multiSz strings) ++ rest := by
      have hfirst : multiSz (s :: strings) = (s ++ [0]) ++ multiSz strings := by
        rw [multiSz_cons, List.append_assoc]
        rfl
      rw [hfirst, wchars_append, List.append_assoc]
      exact List.drop_left' (by rw [length_wchars, List.length_append]; rfl)
    rw [queryStrings_string hs hlength, hdrop, stringCalls]
    cases hstatus : ntSuccess (caller.queryRoutine calls
        (stringCall qp caller (wchars (multiSz (s :: strings)) ++ rest) s)) with
    | true =>
      rw [if_pos rfl, each_good rfl hstatus, ih fun t ht => h t (List.mem_cons_of_mem _ ht)]
      cases each ntSuccess (handOver caller) (stringCalls qp caller rest strings) _ _ with
      | error stop => rfl
      | ok r => rfl
    | false =>
      rw [if_neg Bool.false_ne_true, each_bad rfl hstatus]
      rfl

/-- What the scan needs in front of it: two NULs in a row, or one at once. -/
def Terminated (dp : List Wchar) : Prop :=
  (∃ w t, dp = w ++ 0 :: 0 :: t) ∨ ∃ t, dp = 0 :: t

theorem Terminated.mem {dp : List Wchar} (h : Terminated dp) : 0 ∈ dp := by
  rcases h with ⟨w, t, rfl⟩ | ⟨t, rfl⟩
  · exact List.mem_append_right _ List.mem_cons_self
  · exact List.mem_cons_self

/-- Behind a string that is not empty there are still two NULs in a row, or one at once. -/
theorem Terminated.drop {dp : List Wchar} {n : ℕ} (h : Terminated dp)
    (hn : wcslen dp = .ok (n + 1)) : Terminated (dp.drop (n + 2)) := by
  rcases wcslen_split hn with ⟨s, rest, rfl, hlength, hnul⟩
  have hrest : (s ++ 0 :: rest).drop (n + 2) = rest := by
    have hsplit : s ++ 0 :: rest = (s ++ [0]) ++ rest := by
      rw [List.append_assoc]
      rfl
    rw [hsplit]
    exact List.drop_left' (by rw [List.length_append, hlength]; rfl)
  rw [hrest]
  rcases h with ⟨w, t, hdp⟩ | ⟨t, hdp⟩
  · rcases List.append_eq_append_iff.1 hdp with ⟨m, rfl, hm⟩ | ⟨m, rfl, hm⟩
    · -- the string ends before the two NULs, or with the first one
      cases m with
      | nil =>
        injection hm with _ hm
        exact Or.inr ⟨t, hm⟩
      | cons c m =>
        injection hm with _ hm
        exact Or.inl ⟨m, t, hm⟩
    · -- it cannot end behind the first one
      cases m with
      | nil =>
        injection hm with _ hm
        exact Or.inr ⟨t, hm.symm⟩
      | cons c m =>
        injection hm with hc _
        exact absurd (List.mem_append_right w (hc ▸ List.mem_cons_self)) hnul
  · cases s with
    | nil => cases hlength
    | cons c s =>
      injection hdp with hc _
      exact absurd (hc ▸ List.mem_cons_self) hnul

/-- The loop ends within the block. -/
theorem queryStrings_ok (h : Terminated (wideChars data)) :
    ∃ reply, queryStrings qp caller regMultiSz data status calls = .ok reply := by
  induction hsize : data.length using Nat.strongRecOn generalizing data status calls with
  | ind size ih =>
    rcases wcslen_of_mem h.mem with ⟨n, hn⟩
    cases n with
    | zero => exact ⟨_, queryStrings_end hn⟩
    | succ n =>
      rcases wcslen_split hn with ⟨s, rest, -, hlength, -⟩
      have hs : s ≠ [] := by
        rintro rfl
        cases hlength
      have hdrop := h.drop hn
      have hlt := wcslen_wideChars_lt hn
      rw [← hlength] at hn
      rw [queryStrings_string hs hn]
      cases ntSuccess (caller.queryRoutine calls (stringCall qp caller data s)) with
      | true =>
        rw [if_pos rfl]
        apply ih (data.drop (2 * (s.length + 1))).length
        · rw [List.length_drop]
          omega
        · rw [wideChars_drop, hlength]
          exact hdrop
        · rfl
      | false => exact ⟨_, if_neg Bool.false_ne_true⟩

end Loop

/-! ## Values -/

/-- Six zero bytes make two NULs in a row, also behind an odd byte. -/
theorem wideChars_padding (data rest : List UInt8) :
    ∃ w t, wideChars (data ++ (List.replicate 6 0 ++ rest)) = w ++ 0 :: 0 :: t := by
  induction data using wideChars.induct with
  | case1 a b data ih =>
    rcases ih with ⟨w, t, hw⟩
    exact ⟨_ :: w, t, congrArg (List.cons _) hw⟩
  | case2 data h =>
    rcases data with _ | ⟨a, _ | ⟨b, data⟩⟩
    · exact ⟨[], _, rfl⟩
    · exact ⟨[_], _, rfl⟩
    · exact absurd rfl (h a b data)

/-- A pass that reads the value has it in the buffer, with six zero bytes behind it. -/
theorem readPass_success {v : Value} {len : UInt32} {buffer : List UInt8} {r : Read}
    (h : readPass (.ok v) len buffer = .ok r) (hrc : r.rc = errorSuccess) :
    r.type = v.type ∧ r.bytes = UInt32.ofNat v.data.length ∧
      ∃ rest, r.data = v.data ++ (List.replicate 6 0 ++ rest) := by
  have hbytes : (UInt32.ofNat v.data.length).toNat = v.data.length := by
    rw [UInt32.toNat_ofNat']
    exact Nat.mod_eq_of_lt v.size
  unfold readPass at h
  by_cases hfits : v.data.length ≤ (len - nullbytes).toNat
  · have hread : readData (.ok v) (len - nullbytes) =
        (errorSuccess, v.data, UInt32.ofNat v.data.length) := by
      rw [readData, if_pos hfits]
    rw [hread] at h
    rcases bind_inv h with ⟨first, hfirst, h⟩
    rcases bind_inv h with ⟨second, hsecond, h⟩
    rcases Except.ok.inj h with rfl
    rw [terminate, if_pos rfl, hbytes] at hsecond
    exact ⟨rfl, rfl, put_put hfirst hsecond⟩
  · -- the buffer was too small
    have hread : readData (.ok v) (len - nullbytes) =
        (errorMoreData, [], UInt32.ofNat v.data.length) := by
      rw [readData, if_neg hfits]
    rw [hread] at h
    rcases bind_inv h with ⟨first, hfirst, h⟩
    rcases bind_inv h with ⟨second, hsecond, h⟩
    rcases Except.ok.inj h with rfl
    have hne : errorMoreData ≠ errorSuccess := by decide
    exact absurd hrc hne

theorem readLoop_success {heap : Heap} {v : Value} {passes : ℕ} {len bytes : UInt32} {r : Read}
    (h : readLoop heap (.ok v) passes len bytes = .ok (some r)) (hrc : r.rc = errorSuccess) :
    r.type = v.type ∧ r.bytes = UInt32.ofNat v.data.length ∧
      ∃ rest, r.data = v.data ++ (List.replicate 6 0 ++ rest) := by
  induction passes generalizing len bytes with
  | zero => cases h
  | succ passes ih =>
    rw [readLoop] at h
    cases hblock : heap.realloc (growLen len bytes) with
    | none =>
      rw [hblock] at h
      cases h
    | some block =>
      rw [hblock] at h
      rcases bind_inv h with ⟨first, hfirst, h⟩
      by_cases hmore : first.rc = errorMoreData
      · rw [if_pos hmore] at h
        exact ih h
      · rw [if_neg hmore] at h
        rcases Option.some.inj (Except.ok.inj h) with rfl
        exact readPass_success hfirst hrc

/-- A call hands over a string: its type, its characters without the NUL, and their length in
bytes. -/
structure HandsOver (qp : TableEntry) (caller : Caller) (call : RoutineCall) (s : List Wchar) :
    Prop where
  name : call.valueName = qp.name
  type : call.valueType = regSz
  length : call.valueLength.toNat = 2 * s.length
  data : call.valueData.take call.valueLength.toNat = wchars s
  context : call.context = caller.context
  entryContext : call.entryContext = qp.entryContext

theorem stringCalls_handOver (qp : TableEntry) (caller : Caller) (rest : List UInt8)
    {strings : List (List Wchar)} (hsize : (wchars (multiSz strings)).length < 2 ^ 32) :
    List.Forall₂ (HandsOver qp caller) (stringCalls qp caller rest strings) strings := by
  induction strings with
  | nil => exact List.Forall₂.nil
  | cons s strings ih =>
    rw [multiSz_cons, length_wchars, List.length_append, List.length_cons] at hsize
    have hlength : (UInt32.ofNat (2 * s.length)).toNat = 2 * s.length := by
      rw [UInt32.toNat_ofNat']
      exact Nat.mod_eq_of_lt (by omega)
    apply List.Forall₂.cons
    · constructor
      case name => rfl
      case type => rfl
      case length => exact hlength
      case data =>
        show ((wchars (multiSz (s :: strings)) ++ rest).take
          (UInt32.ofNat (2 * s.length)).toNat) = wchars s
        rw [hlength, multiSz_cons, wchars_append, List.append_assoc]
        exact List.take_left' (length_wchars s)
      case context => rfl
      case entryContext => rfl
    · apply ih
      rw [length_wchars]
      omega

theorem ddkQueryCallback_multiSz {qp : TableEntry} (hnoexpand : qp.noexpand = false)
    (caller : Caller) (data : List UInt8) (bytes : UInt32) (calls : List RoutineCall) :
    ddkQueryCallback qp caller regMultiSz data bytes calls =
      queryStrings qp caller regMultiSz data statusSuccess calls := by
  have hexpand : ¬ (qp.noexpand = true ∨ (regMultiSz ≠ regMultiSz ∧ regMultiSz ≠ regExpandSz)) := by
    rw [hnoexpand]
    decide
  rw [ddkQueryCallback, if_neg hexpand]

/-- **Delivery of `REG_MULTI_SZ`.** The routine is called for the strings of a stored list in
order, once for each, up to the first failure, whatever lies behind the list. Of a value with
any bytes, the scan reads no more than its bytes and six zero bytes. And these are what
`DdkQueryValue` hands over, when it has read the value. -/
theorem multiString_delivery (qp : TableEntry) (hnoexpand : qp.noexpand = false) (caller : Caller)
    (calls : List RoutineCall) (bytes : UInt32) :
    (∀ (strings : List (List Wchar)) (v : Value) (rest : List UInt8),
      (∀ s ∈ strings, s ≠ [] ∧ 0 ∉ s) → v.data = wchars (multiSz strings) →
      ∃ expected, List.Forall₂ (HandsOver qp caller) expected strings ∧
        ddkQueryCallback qp caller regMultiSz (v.data ++ rest) bytes calls =
          (each ntSuccess (handOver caller) expected statusSuccess calls).map Prod.snd) ∧
    (∀ data rest : List UInt8, ∃ reply,
      ddkQueryCallback qp caller regMultiSz (data ++ (List.replicate 6 0 ++ rest)) bytes calls =
        .ok reply) ∧
    (∀ (heap : Heap) (v : Value) (passes : ℕ) (r : Read),
      readLoop heap (.ok v) passes 0 0 = .ok (some r) → r.rc = errorSuccess →
      r.type = v.type ∧ r.bytes = UInt32.ofNat v.data.length ∧
        ∃ rest, r.data = v.data ++ (List.replicate 6 0 ++ rest)) := by
  refine ⟨?_, ?_, ?_⟩
  · intro strings v rest hstrings hdata
    refine ⟨stringCalls qp caller rest strings, ?_, ?_⟩
    · apply stringCalls_handOver
      rw [← hdata]
      exact v.size
    · rw [ddkQueryCallback_multiSz hnoexpand, hdata]
      exact queryStrings_multiSz rest hstrings
  · intro data rest
    rw [ddkQueryCallback_multiSz hnoexpand]
    exact queryStrings_ok (Or.inl (wideChars_padding data rest))
  · intro heap v passes r h hrc
    exact readLoop_success h hrc

/-- Two strings. -/
theorem multiString_delivery_two :
    ∃ expected, List.Forall₂ (HandsOver ⟨⟨true, 0, some [0x41]⟩, 8, 0, [], 0⟩
        ⟨0, 0, fun _ _ => 0⟩) expected [[0x61, 0x62], [0x63]] ∧
      ddkQueryCallback ⟨⟨true, 0, some [0x41]⟩, 8, 0, [], 0⟩ ⟨0, 0, fun _ _ => 0⟩ regMultiSz
          (wchars (multiSz [[0x61, 0x62], [0x63]]) ++ List.replicate 6 0) 12 [] =
        (each ntSuccess (handOver ⟨0, 0, fun _ _ => 0⟩) expected statusSuccess []).map Prod.snd :=
  (multiString_delivery ⟨⟨true, 0, some [0x41]⟩, 8, 0, [], 0⟩ (by decide) ⟨0, 0, fun _ _ => 0⟩
    [] 12).1 [[0x61, 0x62], [0x63]]
      ⟨[0x41], regMultiSz, wchars (multiSz [[0x61, 0x62], [0x63]]), by decide⟩
      (List.replicate 6 0) (by decide) rfl

end Wdutf.Reg
