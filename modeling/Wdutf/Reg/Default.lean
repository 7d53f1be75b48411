import Mathlib.Tactic.Common
import Wdutf.Reg.Delivery
import Wdutf.Reg.MultiString

/-!
# Wdutf.Reg.Default — the length of a default, `src/registry.cpp`

`DdkGetDefaultValue` looks for the end of a string, or of a list of strings, when
`DefaultLength` is zero.

* `defaultEnd_multiSz` — it finds the end of a list behind the last string;
* `withLength_alike` — the length is used for the default only;
* `default_length` — so the query delivers what it does with the length of the encoding.
-/

namespace Wdutf.Reg

open Wdutf.Rtl Wdutf.Io Wdutf.Block

/-! ## The end of a default -/

/-- The default is an encoded string, or an encoded list. -/
inductive EncodedDefault : UInt32 → List Wchar → Prop where
  | sz {s : List Wchar} (h : 0 ∉ s) : EncodedDefault regSz (s ++ [0])
  | expandSz {s : List Wchar} (h : 0 ∉ s) : EncodedDefault regExpandSz (s ++ [0])
  | multiSz {strings : List (List Wchar)} (hne : strings ≠ [])
      (h : ∀ s ∈ strings, s ≠ [] ∧ 0 ∉ s) : EncodedDefault regMultiSz (multiSz strings)

section Scan

variable {type : UInt32} {dp : List Wchar} {i n : ℕ}

/-- A turn of the scan, which passes a string and its NUL. -/
theorem defaultEnd_turn (hn : wcslen (dp.drop i) = .ok n) :
    defaultEnd type dp i =
      if type = regMultiSz ∧ (i + (n + 1) < 2 ∨ dp.getD (i + (n + 1) - 1) 0 ≠ 0 ∨
          dp.getD (i + (n + 1) - 2) 0 ≠ 0) then defaultEnd type dp (i + (n + 1))
      else .ok (i + (n + 1)) := by
  rw [defaultEnd]
  split
  · rename_i stop hstop
    rw [hn] at hstop
    cases hstop
  · rename_i n' hn'
    rw [hn] at hn'
    cases hn'
    rfl

end Scan

/-- The scan of a single string. -/
theorem defaultEnd_sz {type : UInt32} (htype : type ≠ regMultiSz) {s : List Wchar} (h : 0 ∉ s)
    (t : List Wchar) : defaultEnd type (s ++ 0 :: t) 0 = .ok (s.length + 1) := by
  have hn : wcslen ((s ++ 0 :: t).drop 0) = .ok s.length := wcslen_append t h
  rw [defaultEnd_turn hn, if_neg fun hmulti => htype hmulti.1, Nat.zero_add]

/-- The scan of a list, from one of its strings on. A NUL stands before it, if it is not the
first one. -/
theorem defaultEnd_multiSz {strings : List (List Wchar)} (h : ∀ s ∈ strings, s ≠ [] ∧ 0 ∉ s)
    (pre t : List Wchar) (hpre : strings = [] → ∃ p, pre = p ++ [0]) :
    defaultEnd regMultiSz (pre ++ (multiSz strings ++ t)) pre.length =
      .ok (pre.length + (multiSz strings).length) := by
  induction strings generalizing pre with
  | nil =>
    rcases hpre rfl with ⟨p, rfl⟩
    have hn : wcslen ((p ++ [0] ++ (multiSz [] ++ t)).drop (p ++ [0]).length) = .ok 0 := by
      rw [List.drop_left]
      exact wcslen_zero t
    have hdp : p ++ [0] ++ (multiSz [] ++ t) = p ++ 0 :: 0 :: t := by
      rw [List.append_assoc]
      rfl
    have hlast : (p ++ 0 :: 0 :: t).getD ((p ++ [0]).length + (0 + 1) - 1) 0 = 0 := by
      simp
    have hbefore : (p ++ 0 :: 0 :: t).getD ((p ++ [0]).length + (0 + 1) - 2) 0 = 0 := by
      simp
    rw [defaultEnd_turn hn, hdp, hlast, hbefore, if_neg (by simp)]
    rfl
  | cons s strings ih =>
    rcases h s List.mem_cons_self with ⟨hs, hnul⟩
    have hpos := List.length_pos_iff.2 hs
    have hsplit : pre ++ (multiSz (s :: strings) ++ t) =
        (pre ++ s ++ [0]) ++ (multiSz strings ++ t) := by
      rw [multiSz_cons]
      simp only [List.append_assoc, List.cons_append, List.nil_append]
    have hn : wcslen ((pre ++ (multiSz (s :: strings) ++ t)).drop pre.length) =
        .ok s.length := by
      rw [List.drop_left, multiSz_cons, List.append_assoc]
      exact wcslen_append _ hnul
    -- the last character of the string is no NUL
    have hchar : (pre ++ (multiSz (s :: strings) ++ t)).getD
        (pre.length + (s.length + 1) - 2) 0 ≠ 0 := by
      have hindex : pre.length + (s.length + 1) - 2 = pre.length + (s.length - 1) := by omega
      have hlt : s.length - 1 < s.length := by omega
      rw [hindex, List.getD_eq_getElem?_getD, List.getElem?_append_right (by omega),
        Nat.add_sub_cancel_left, multiSz_cons, List.append_assoc,
        List.getElem?_append_left hlt, List.getElem?_eq_getElem hlt, Option.getD_some]
      exact fun hzero => hnul (hzero ▸ List.getElem_mem hlt)
    rw [defaultEnd_turn hn, if_pos ⟨rfl, Or.inr (Or.inr hchar)⟩, hsplit]
    have hlength : pre.length + (s.length + 1) = (pre ++ s ++ [0]).length := by
      simp only [List.length_append, List.length_singleton]
      omega
    rw [hlength, ih (fun u hu => h u (List.mem_cons_of_mem _ hu)) _ fun _ => ⟨_, rfl⟩, multiSz_cons]
    congr 1
    simp only [List.length_append, List.length_cons, List.length_nil]
    omega

theorem EncodedDefault.defaultEnd {type : UInt32} {enc : List Wchar}
    (h : EncodedDefault type enc) (t : List Wchar) :
    Reg.defaultEnd type (enc ++ t) 0 = .ok enc.length := by
  cases h with
  | sz h =>
    rw [List.append_assoc, List.length_append]
    exact defaultEnd_sz (by decide) h t
  | expandSz h =>
    rw [List.append_assoc, List.length_append]
    exact defaultEnd_sz (by decide) h t
  | multiSz hne h =>
    have hend := defaultEnd_multiSz h [] t fun hnil => absurd hnil hne
    rwa [List.length_nil, Nat.zero_add, List.nil_append] at hend

theorem EncodedDefault.length_pos {type : UInt32} {enc : List Wchar}
    (h : EncodedDefault type enc) : 0 < enc.length := by
  cases h with
  | sz h => exact List.length_pos_iff.2 (by simp)
  | expandSz h => exact List.length_pos_iff.2 (by simp)
  | multiSz hne h => exact List.length_pos_iff.2 (by simp [Reg.multiSz])

theorem EncodedDefault.string {type : UInt32} {enc : List Wchar} (h : EncodedDefault type enc) :
    ¬ (type ≠ regSz ∧ type ≠ regExpandSz ∧ type ≠ regMultiSz) := by
  rintro ⟨hsz, hexpand, hmulti⟩
  cases h with
  | sz h => exact hsz rfl
  | expandSz h => exact hexpand rfl
  | multiSz hne h => exact hmulti rfl

/-! ## The length -/

/-- The entry with another `DefaultLength`. -/
def TableEntry.withLength (qp : TableEntry) (length : UInt32) : TableEntry :=
  { qp with defaultLength := length }

section Length

variable {qp : TableEntry} {caller : Caller} {target : Target} {calls : List RoutineCall}
  {type : UInt32} {data : List UInt8} {status : NtStatus}

/-- The loop over strings does not look at the length of the default. -/
theorem queryStrings_withLength (length : UInt32) :
    queryStrings (qp.withLength length) caller type data status calls =
      queryStrings qp caller type data status calls := by
  induction hsize : data.length using Nat.strongRecOn generalizing data status calls with
  | ind size ih =>
    cases hn : wcslen (wideChars data) with
    | error stop => rw [queryStrings_stop hn, queryStrings_stop hn]
    | ok n =>
      cases n with
      | zero => rw [queryStrings_end hn, queryStrings_end hn]
      | succ n =>
        have hlt := wcslen_wideChars_lt hn
        have hdrop : (data.drop (2 * (n + 2))).length < size := by
          rw [List.length_drop]
          omega
        rw [queryStrings_next hn, queryStrings_next hn]
        dsimp only
        rw [ih _ hdrop rfl]
        rfl

theorem ddkQueryCallback_withLength (length bytes : UInt32) :
    ddkQueryCallback (qp.withLength length) caller type data bytes calls =
      ddkQueryCallback qp caller type data bytes calls := by
  unfold ddkQueryCallback
  rw [queryStrings_withLength]
  rfl

/-- A query with another length, and the same default. -/
theorem ddkQueryValue_withLength {length length' : UInt32}
    (h : ddkGetDefaultValue (qp.withLength length) = ddkGetDefaultValue (qp.withLength length'))
    (heap : Heap) (found : Except LStatus Value) (passes : ℕ) :
    ddkQueryValue heap found passes (qp.withLength length) caller target calls =
      ddkQueryValue heap found passes (qp.withLength length') caller target calls := by
  have hdefault : replyDefault (qp.withLength length) caller target calls =
      replyDefault (qp.withLength length') caller target calls := by
    unfold replyDefault
    rw [h]
    rfl
  have hdirect : ∀ r, valueDirect (qp.withLength length) caller target calls r =
      valueDirect (qp.withLength length') caller target calls r := by
    intro r
    unfold valueDirect
    rw [hdefault]
    rfl
  have hroutine : ∀ r, valueRoutine (qp.withLength length) caller calls r =
      valueRoutine (qp.withLength length') caller calls r := by
    intro r
    unfold valueRoutine
    rw [ddkQueryCallback_withLength, ddkQueryCallback_withLength]
  unfold ddkQueryValue
  simp only [hdirect, hroutine]
  rfl

end Length

/-- The loop over all values, for entries whose queries agree. -/
theorem enumerateLoop_congr {w : Surroundings} (qp qp' : TableEntry) {caller : Caller}
    {target : Target} (hdelete : qp.delete = qp'.delete)
    (h : ∀ found name calls, queryNamed w qp caller target found name calls =
      queryNamed w qp' caller target found name calls)
    (turns : ℕ) (index count : UInt32) (values : List Value) (status : NtStatus)
    (calls : List RoutineCall) :
    enumerateLoop w qp caller target turns index count values status calls =
      enumerateLoop w qp' caller target turns index count values status calls := by
  induction turns generalizing index count values status calls with
  | zero => rfl
  | succ turns ih =>
    have hdeletes : ∀ status name, deletes w qp status name = deletes w qp' status name := by
      intro status name
      unfold deletes
      rw [hdelete]
    rw [enumerateLoop, enumerateLoop]
    simp only [h, hdeletes, ih]

/-- Entries that differ in the length of the same default are queried alike. -/
theorem withLength_alike {qp : TableEntry} {caller : Caller} {s : Situation}
    {length length' : UInt32}
    (h : ddkGetDefaultValue (qp.withLength length) = ddkGetDefaultValue (qp.withLength length')) :
    Alike (qp.withLength length) (qp.withLength length') caller s := by
  constructor
  case entry => rfl
  case query =>
    intro status key keys calls
    have hvalue : queryEntryValue (qp.withLength length) caller s calls =
        queryEntryValue (qp.withLength length') caller s calls :=
      ddkQueryValue_withLength h _ _ _
    have hnamed : ∀ found name calls,
        queryNamed s.surroundings (qp.withLength length) caller s.target found name calls =
          queryNamed s.surroundings (qp.withLength length') caller s.target found name calls := by
      intro found name calls
      -- the default is that of the entry, the name is not
      have hdefault : ddkGetDefaultValue
          (TableEntry.withLength { qp with name := some name } length) =
            ddkGetDefaultValue (TableEntry.withLength { qp with name := some name } length') := h
      have hquery : ddkQueryValue s.surroundings.heap found s.surroundings.passes
          (TableEntry.withLength { qp with name := some name } length) caller s.target calls =
            ddkQueryValue s.surroundings.heap found s.surroundings.passes
              (TableEntry.withLength { qp with name := some name } length') caller s.target calls :=
        ddkQueryValue_withLength hdefault _ _ _
      exact congrArg (Except.map fun reply => (reply.status, reply.calls)) hquery
    have hvalues : ddkQueryEnumerateValues s.surroundings s.turns s.values (qp.withLength length)
        caller s.target calls =
          ddkQueryEnumerateValues s.surroundings s.turns s.values (qp.withLength length') caller
            s.target calls := by
      unfold ddkQueryEnumerateValues
      rw [enumerateLoop_congr (qp.withLength length) (qp.withLength length') rfl hnamed]
      rfl
    unfold deliverEntry
    rw [hvalue, hvalues]
    rfl

/-- **The length of a default.** Without `DefaultLength`, the length is that of the encoding,
which is read and nothing behind it; and `RtlQueryRegistryValues` delivers what it does with
that length in the entry, whatever the rest of the table is. -/
theorem default_length (qp : TableEntry) (enc : List Wchar)
    (henc : EncodedDefault (qp.defaultType &&& 0xff) enc) (rest : List UInt8)
    (hdata : qp.defaultData = wchars enc ++ rest) (length : UInt32)
    (hlength : length.toNat = (wchars enc).length) :
    ddkGetDefaultValue (qp.withLength 0) =
        .ok (qp.defaultType &&& 0xff, qp.defaultData, length) ∧
      ∀ (r : Request) (pre post : List (TableEntry × Situation)) (s : Situation) (caller : Caller)
        (keys : Keys),
        deliverRegistryValues r (pre ++ (qp.withLength 0, s) :: post) caller keys =
          deliverRegistryValues r (pre ++ (qp.withLength length, s) :: post) caller keys := by
  have hend := henc.defaultEnd (wideChars rest)
  have hstring := henc.string
  have hpos := henc.length_pos
  rw [length_wchars] at hlength
  have hget : ddkGetDefaultValue (qp.withLength 0) =
      .ok (qp.defaultType &&& 0xff, qp.defaultData, length) := by
    have hlen : UInt32.ofNat (2 * enc.length) = length := by
      rw [← hlength, UInt32.ofNat_toNat]
    have hscan : defaultEnd (qp.defaultType &&& 0xff) (wideChars qp.defaultData) 0 =
        .ok enc.length := by
      rw [hdata, wideChars_wchars]
      exact hend
    have hcomputed : ddkGetDefaultValue (qp.withLength 0) =
        (defaultEnd (qp.defaultType &&& 0xff) (wideChars qp.defaultData) 0).map fun i =>
          (qp.defaultType &&& 0xff, qp.defaultData, UInt32.ofNat (2 * i)) :=
      if_neg fun h => h.elim (fun hzero => hzero rfl) hstring
    rw [hcomputed, hscan, ← hlen]
    rfl
  have hexplicit : ddkGetDefaultValue (qp.withLength length) =
      .ok (qp.defaultType &&& 0xff, qp.defaultData, length) := by
    have hne : length ≠ 0 := by
      rintro rfl
      have hzero : (0 : UInt32).toNat = 0 := rfl
      omega
    exact if_pos (Or.inl hne)
  refine ⟨hget, fun r pre post s caller keys => ?_⟩
  exact deliver_congr (withLength_alike (hget.trans hexplicit.symm)) r pre post

/-- A list of two strings. -/
theorem default_length_two :
    ddkGetDefaultValue (TableEntry.withLength ⟨⟨false, 0x30, some [0x41]⟩, 8, 7,
        wchars (multiSz [[0x61], [0x62, 0x63]]), 0⟩ 0) =
        .ok (7 &&& 0xff, wchars (multiSz [[0x61], [0x62, 0x63]]), 12) ∧
      ∀ (r : Request) (pre post : List (TableEntry × Situation)) (s : Situation) (caller : Caller)
        (keys : Keys),
        deliverRegistryValues r (pre ++ (TableEntry.withLength ⟨⟨false, 0x30, some [0x41]⟩, 8, 7,
            wchars (multiSz [[0x61], [0x62, 0x63]]), 0⟩ 0, s) :: post) caller keys =
          deliverRegistryValues r (pre ++ (TableEntry.withLength ⟨⟨false, 0x30, some [0x41]⟩, 8, 7,
            wchars (multiSz [[0x61], [0x62, 0x63]]), 0⟩ 12, s) :: post) caller keys :=
  default_length ⟨⟨false, 0x30, some [0x41]⟩, 8, 7, wchars (multiSz [[0x61], [0x62, 0x63]]), 0⟩
    (multiSz [[0x61], [0x62, 0x63]]) (EncodedDefault.multiSz (by decide) (by decide)) []
    (List.append_nil _).symm 12 (by decide)

end Wdutf.Reg
