import Mathlib.Algebra.Group.Nat.Defs
import Mathlib.Data.List.Induction
import Mathlib.Data.List.Nodup
import Mathlib.Data.List.Perm.Basic
import Mathlib.Data.List.TakeWhile
import Mathlib.Tactic.Common
import Wdutf.Lib.Keyed
import Wdutf.Reg.Keys
import Wdutf.Rtl.Hash

/-!
# Wdutf.Reg.Values — writing, querying and enumerating values, `src/registry.cpp`

The values of one key. `ZwSetValueKey` and `ZwQueryValueKey` take leading backslashes off
the name of a value. `RtlWriteRegistryValue` stores the name as it is, and
`ZwEnumerateValueKey` returns it as it was stored.

* `agrees_iff` — the query with an enumerated name agrees with the enumeration exactly if
  the name does not begin with a backslash and the lengths do not overflow;
* `values_agree_iff` — so they agree in every state of a run exactly if no write of the
  run stores such a value.
-/

namespace Wdutf.Reg

open Wdutf.Rtl Wdutf.Io

/-! ## The registry of the operating system -/

/-- A value of a key. The size of its data is a `DWORD`. -/
structure Value where
  name : List Wchar
  type : UInt32
  data : List UInt8
  size : data.length < 2 ^ 32
deriving DecidableEq, Repr

def errorFileNotFound : LStatus := 2
def errorMoreData : LStatus := 234
def errorNoMoreItems : LStatus := 259

/-- The string that a pointer to wide characters stands for. -/
def wcs (memory : List Wchar) : List Wchar := memory.takeWhile (· ≠ 0)

section System

variable (fold : Wchar → Wchar)

/-- Names are compared by what `fold` makes of their characters. -/
def Value.key (v : Value) : List Wchar := v.name.map fold

/-- `RegQueryValueExW`. -/
def regQueryValueExW (values : List Value) (name : List Wchar) : Except LStatus Value :=
  match Keyed.lookup (Value.key fold) values (name.map fold) with
  | none => .error errorFileNotFound
  | some v => .ok v

/-- `RegEnumValueW` with a buffer of 1024 characters for the name. -/
def regEnumValueW (values : List Value) (index : UInt32) : Except LStatus Value :=
  match values[index.toNat]? with
  | none => .error errorNoMoreItems
  | some v => if v.name.length < 1024 then .ok v else .error errorMoreData

/-- `RegSetValueExW` when it is successful. A value that is there keeps its name. -/
def regSetValueExW (values : List Value) (name : List Wchar) (type : UInt32) (data : List UInt8)
    (size : data.length < 2 ^ 32) : List Value :=
  match Keyed.lookup (Value.key fold) values (name.map fold) with
  | none => values ++ [⟨name, type, data, size⟩]
  | some v => Keyed.store (Value.key fold) values ⟨v.name, type, data, size⟩

end System

/-- A second call with a buffer of `datalen` bytes: the status, what is written to the
buffer, and `datalen` afterwards. -/
def readData (found : Except LStatus Value) (datalen : UInt32) : LStatus × List UInt8 × UInt32 :=
  match found with
  | .error rc => (rc, [], datalen)
  | .ok v =>
    if v.data.length ≤ datalen.toNat then (errorSuccess, v.data, UInt32.ofNat v.data.length)
    else (errorMoreData, [], UInt32.ofNat v.data.length)

/-! ## The routines -/

/-- `KEY_VALUE_INFORMATION_CLASS`. -/
inductive KeyValueInformationClass where
  | keyValueBasicInformation
  | keyValueFullInformation
  | keyValuePartialInformation
  | other (number : UInt32)
deriving DecidableEq, Repr

/-- What a call returns and writes: its status, `*ResultLength`, and the bytes that go to
offsets of the buffer, in order. -/
structure ValueReply where
  status : NtStatus
  resultLength : Option UInt32
  writes : List (ℕ × List UInt8)
deriving DecidableEq, Repr

/-- The bytes of a `ULONG`. -/
def ulong (n : UInt32) : List UInt8 :=
  [n.toUInt8, (n >>> 8).toUInt8, (n >>> 16).toUInt8, (n >>> 24).toUInt8]

/-- The bytes of wide characters. -/
def wchars (s : List Wchar) : List UInt8 :=
  s.flatMap fun c : Wchar => [c.toUInt8, (c >>> 8).toUInt8]

/-- `ZwQueryValueKey` on the values of the key of the handle. `info` tells whether there is
a buffer. -/
def zwQueryValueKey (fold : Wchar → Wchar) (pKey : Option (List Value)) (valueName : UnicodeString)
    (cls : KeyValueInformationClass) (info : Bool) (length : UInt32) : ValueReply :=
  match pKey with
  | none => ⟨statusInvalidHandle, none, []⟩
  | some values =>
    let name := wcs (ddkUnicodeToString valueName 0x5C)
    let namelen := name.length
    match regQueryValueExW fold values name with
    | .error rc => ⟨ddkGetRegistryStatus rc, none, []⟩
    | .ok v =>
      let datalen := UInt32.ofNat v.data.length
      match cls with
      | .keyValueBasicInformation =>
        let resultLength := UInt32.ofNat (12 + 2 * namelen)
        if !info then ⟨ddkGetRegistryStatus errorSuccess, some resultLength, []⟩
        else if length < resultLength then ⟨statusBufferTooSmall, some resultLength, []⟩
        else ⟨ddkGetRegistryStatus errorSuccess, some resultLength,
          [(0, ulong 0), (4, ulong v.type), (8, ulong (UInt32.ofNat (2 * namelen))),
            (12, wchars name)]⟩
      | .keyValueFullInformation =>
        let resultLength := UInt32.ofNat (20 + 2 * namelen) + datalen
        if !info then ⟨ddkGetRegistryStatus errorSuccess, some resultLength, []⟩
        else if length < resultLength then ⟨statusBufferTooSmall, some resultLength, []⟩
        else
          let (rc, data, datalen) := readData (regQueryValueExW fold values name) datalen
          ⟨ddkGetRegistryStatus rc, some resultLength,
            [(0, ulong 0), (4, ulong v.type), (16, ulong (UInt32.ofNat (2 * namelen))),
              (8, ulong (UInt32.ofNat (20 + 2 * namelen))), (20, wchars name),
              (20 + 2 * namelen, data), (12, ulong datalen)]⟩
      | .keyValuePartialInformation =>
        let resultLength := UInt32.ofNat (12 + datalen.toNat)
        if !info then ⟨ddkGetRegistryStatus errorSuccess, some resultLength, []⟩
        else if length < resultLength then ⟨statusBufferTooSmall, some resultLength, []⟩
        else
          let (rc, data, datalen) := readData (regQueryValueExW fold values name) datalen
          ⟨ddkGetRegistryStatus rc, some resultLength,
            [(0, ulong 0), (4, ulong v.type), (12, data), (8, ulong datalen)]⟩
      | .other _ => ⟨statusInvalidParameter, none, []⟩

/-- `ZwEnumerateValueKey` on the values of the key of the handle. -/
def zwEnumerateValueKey (pKey : Option (List Value)) (index : UInt32)
    (cls : KeyValueInformationClass) (info : Bool) (length : UInt32) : ValueReply :=
  match pKey with
  | none => ⟨statusInvalidHandle, none, []⟩
  | some values =>
    match regEnumValueW values index with
    | .error rc => ⟨ddkGetRegistryStatus rc, none, []⟩
    | .ok v =>
      let name := v.name
      let namelen := name.length
      let datalen := UInt32.ofNat v.data.length
      match cls with
      | .keyValueBasicInformation =>
        let resultLength := UInt32.ofNat (12 + 2 * namelen)
        if !info then ⟨ddkGetRegistryStatus errorSuccess, some resultLength, []⟩
        else if length < resultLength then ⟨statusBufferTooSmall, some resultLength, []⟩
        else ⟨ddkGetRegistryStatus errorSuccess, some resultLength,
          [(0, ulong 0), (4, ulong v.type), (8, ulong (UInt32.ofNat (2 * namelen))),
            (12, wchars name)]⟩
      | .keyValueFullInformation =>
        let resultLength := UInt32.ofNat (20 + 2 * namelen) + datalen
        if !info then ⟨ddkGetRegistryStatus errorSuccess, some resultLength, []⟩
        else if length < resultLength then ⟨statusBufferTooSmall, some resultLength, []⟩
        else
          let (rc, data, datalen) := readData (regEnumValueW values index) datalen
          ⟨ddkGetRegistryStatus rc, some resultLength,
            [(0, ulong 0), (4, ulong v.type), (16, ulong (UInt32.ofNat (2 * namelen))),
              (8, ulong (UInt32.ofNat (20 + 2 * namelen))), (20, wchars name),
              (20 + 2 * namelen, data), (12, ulong datalen)]⟩
      | .keyValuePartialInformation =>
        let resultLength := UInt32.ofNat (12 + datalen.toNat)
        if !info then ⟨ddkGetRegistryStatus errorSuccess, some resultLength, []⟩
        else if length < resultLength then ⟨statusBufferTooSmall, some resultLength, []⟩
        else
          let (rc, data, datalen) := readData (regEnumValueW values index) datalen
          ⟨ddkGetRegistryStatus rc, some resultLength,
            [(0, ulong 0), (4, ulong v.type), (12, data), (8, ulong datalen)]⟩
      | .other _ => ⟨statusInvalidParameter, none, []⟩

/-- The calls that write a value of the key, with their arguments and the status of
`RegSetValueExW`. -/
inductive Write where
  | zwSetValueKey (valueName : UnicodeString) (type : UInt32) (data : List UInt8)
      (size : data.length < 2 ^ 32) (rc : LStatus)
  | rtlWriteRegistryValue (valueName : List Wchar) (type : UInt32) (data : List UInt8)
      (size : data.length < 2 ^ 32) (rc : LStatus)

namespace Write

/-- The name that the call is given. -/
def valueName : Write → List Wchar
  | zwSetValueKey valueName _ _ _ _ => valueName
  | rtlWriteRegistryValue valueName _ _ _ _ => valueName

/-- The value that the call has `RegSetValueExW` store. -/
def value : Write → Value
  | zwSetValueKey valueName type data size _ =>
    ⟨wcs (ddkUnicodeToString valueName 0x5C), type, data, size⟩
  | rtlWriteRegistryValue valueName type data size _ => ⟨wcs valueName, type, data, size⟩

def rc : Write → LStatus
  | zwSetValueKey _ _ _ _ rc => rc
  | rtlWriteRegistryValue _ _ _ _ rc => rc

/-- The values after the call, and its status. -/
def run (fold : Wchar → Wchar) (values : List Value) (w : Write) : NtStatus × List Value :=
  (ddkGetRegistryStatus w.rc,
    if w.rc = errorSuccess then
      regSetValueExW fold values w.value.name w.value.type w.value.data w.value.size
    else values)

end Write

/-- The values of a key after some calls. -/
def valuesAfter (fold : Wchar → Wchar) (writes : List Write) : List Value :=
  writes.foldl (fun values w => (w.run fold values).2) []

/-! ## Agreement -/

/-- The three classes. -/
def informationClasses : List KeyValueInformationClass :=
  [.keyValueBasicInformation, .keyValueFullInformation, .keyValuePartialInformation]

theorem basic_mem : .keyValueBasicInformation ∈ informationClasses := by
  simp [informationClasses]

theorem full_mem : .keyValueFullInformation ∈ informationClasses := by
  simp [informationClasses]

/-- The enumeration returns the name. -/
def ReturnsName (values : List Value) (index : UInt32) (name : List Wchar) : Prop :=
  ∃ length, (zwEnumerateValueKey (some values) index .keyValueBasicInformation true length).status =
      statusSuccess ∧
    (8, ulong (UInt32.ofNat (2 * name.length))) ∈
      (zwEnumerateValueKey (some values) index .keyValueBasicInformation true length).writes ∧
    (12, wchars name) ∈
      (zwEnumerateValueKey (some values) index .keyValueBasicInformation true length).writes

/-- Nothing is written to a buffer that is too small, and nothing behind `ResultLength`. -/
structure ValueReply.Bounded (reply : ValueReply) : Prop where
  tooSmall : reply.status = statusBufferTooSmall → reply.writes = []
  success : reply.status = statusSuccess → ∀ written ∈ reply.writes,
    ∃ n ∈ reply.resultLength, written.1 + written.2.length ≤ n.toNat

/-- The query with a name agrees with the enumeration at an index. -/
structure Agrees (fold : Wchar → Wchar) (values : List Value) (index : UInt32)
    (name : List Wchar) : Prop where
  found : ∀ cls ∈ informationClasses,
    (zwQueryValueKey fold (some values) name cls false 0).status = statusSuccess
  same : ∀ cls ∈ informationClasses, ∀ info length,
    zwQueryValueKey fold (some values) name cls info length =
      zwEnumerateValueKey (some values) index cls info length
  queryBounded : ∀ cls ∈ informationClasses, ∀ info length,
    (zwQueryValueKey fold (some values) name cls info length).Bounded
  enumerateBounded : ∀ cls ∈ informationClasses, ∀ info length,
    (zwEnumerateValueKey (some values) index cls info length).Bounded

/-- Every index returns a name, and the query with it agrees. -/
def AllAgree (fold : Wchar → Wchar) (values : List Value) : Prop :=
  ∀ index : UInt32, index.toNat < values.length →
    (∃ name, ReturnsName values index name) ∧
      ∀ name, ReturnsName values index name → Agrees fold values index name

/-- A value that both routines handle alike: its name does not begin with a backslash, and
the longest information fits a `ULONG`. -/
structure Value.Plain (v : Value) : Prop where
  name : v.name.head? ≠ some 0x5C
  length : 20 + 2 * v.name.length + v.data.length < 2 ^ 32

/-- What holds of the values of a key: no two names are the same to the system, and the
names fit the buffer of the enumeration. -/
structure Stored (fold : Wchar → Wchar) (values : List Value) : Prop where
  keys : (values.map (Value.key fold)).Nodup
  nul : ∀ v ∈ values, ∀ c ∈ v.name, c ≠ 0
  short : ∀ v ∈ values, v.name.length ≤ 1023

/-! ## What both decoders return -/

/-- `*ResultLength` for a value under a name. -/
def informationLength (name : List Wchar) (v : Value) : KeyValueInformationClass → UInt32
  | .keyValueBasicInformation => UInt32.ofNat (12 + 2 * name.length)
  | .keyValueFullInformation => UInt32.ofNat (20 + 2 * name.length) + UInt32.ofNat v.data.length
  | _ => UInt32.ofNat (12 + v.data.length)

/-- What goes to the buffer for a value under a name. -/
def informationWrites (name : List Wchar) (v : Value) :
    KeyValueInformationClass → List (ℕ × List UInt8)
  | .keyValueBasicInformation =>
    [(0, ulong 0), (4, ulong v.type), (8, ulong (UInt32.ofNat (2 * name.length))),
      (12, wchars name)]
  | .keyValueFullInformation =>
    [(0, ulong 0), (4, ulong v.type), (16, ulong (UInt32.ofNat (2 * name.length))),
      (8, ulong (UInt32.ofNat (20 + 2 * name.length))), (20, wchars name),
      (20 + 2 * name.length, v.data), (12, ulong (UInt32.ofNat v.data.length))]
  | _ => [(0, ulong 0), (4, ulong v.type), (12, v.data), (8, ulong (UInt32.ofNat v.data.length))]

/-- The reply for a value under a name. -/
def valueInformation (name : List Wchar) (v : Value) (cls : KeyValueInformationClass) (info : Bool)
    (length : UInt32) : ValueReply :=
  if !info then ⟨statusSuccess, some (informationLength name v cls), []⟩
  else if length < informationLength name v cls then
    ⟨statusBufferTooSmall, some (informationLength name v cls), []⟩
  else ⟨statusSuccess, some (informationLength name v cls), informationWrites name v cls⟩

theorem toNat_size (v : Value) : (UInt32.ofNat v.data.length).toNat = v.data.length :=
  UInt32.toNat_ofNat_of_lt' v.size

theorem readData_ok (v : Value) : readData (.ok v) (UInt32.ofNat v.data.length) =
    (errorSuccess, v.data, UInt32.ofNat v.data.length) := by
  simp only [readData, toNat_size, le_refl, if_true]

theorem query_eq {fold : Wchar → Wchar} {values : List Value} {name valueName : List Wchar}
    {v : Value} (hname : wcs (ddkUnicodeToString valueName 0x5C) = name)
    (hv : regQueryValueExW fold values name = .ok v) {cls : KeyValueInformationClass}
    (hcls : cls ∈ informationClasses) (info : Bool) (length : UInt32) :
    zwQueryValueKey fold (some values) valueName cls info length =
      valueInformation name v cls info length := by
  simp only [informationClasses, List.mem_cons, List.not_mem_nil, or_false] at hcls
  rcases hcls with rfl | rfl | rfl
  all_goals simp only [zwQueryValueKey, hname, hv, readData_ok, toNat_size]
  all_goals rfl

theorem enumerate_eq {values : List Value} {index : UInt32} {v : Value}
    (hv : regEnumValueW values index = .ok v) {cls : KeyValueInformationClass}
    (hcls : cls ∈ informationClasses) (info : Bool) (length : UInt32) :
    zwEnumerateValueKey (some values) index cls info length =
      valueInformation v.name v cls info length := by
  simp only [informationClasses, List.mem_cons, List.not_mem_nil, or_false] at hcls
  rcases hcls with rfl | rfl | rfl
  all_goals simp only [zwEnumerateValueKey, hv, readData_ok, toNat_size]
  all_goals rfl

theorem length_ulong (n : UInt32) : (ulong n).length = 4 := rfl

theorem length_wchars (s : List Wchar) : (wchars s).length = 2 * s.length := by
  simp [wchars, Nat.mul_comm]

theorem wchars_injective : Function.Injective wchars := by
  intro s t h
  induction s generalizing t with
  | nil =>
    cases t with
    | nil => rfl
    | cons d t => simp [wchars] at h
  | cons c s ih =>
    cases t with
    | nil => simp [wchars] at h
    | cons d t =>
      have hbytes : c.toUInt8 = d.toUInt8 ∧ (c >>> 8).toUInt8 = (d >>> 8).toUInt8 ∧
          wchars s = wchars t := by
        simpa [wchars] using h
      have hc : c = d := by
        have hlow := congrArg UInt8.toNat hbytes.1
        have hhigh := congrArg UInt8.toNat hbytes.2.1
        apply UInt16.toNat_inj.1
        simp [Nat.shiftRight_eq_div_pow] at hlow hhigh
        have := c.toNat_lt
        have := d.toNat_lt
        omega
      rw [hc, ih hbytes.2.2]

/-- The lengths that a plain value leads to. -/
theorem toNat_informationLength {name : List Wchar} {v : Value}
    (h : 20 + 2 * name.length + v.data.length < 2 ^ 32) :
    (informationLength name v .keyValueBasicInformation).toNat = 12 + 2 * name.length ∧
      (informationLength name v .keyValueFullInformation).toNat =
        20 + 2 * name.length + v.data.length ∧
      (informationLength name v .keyValuePartialInformation).toNat = 12 + v.data.length := by
  have hsize : UInt32.size = 2 ^ 32 := rfl
  refine ⟨UInt32.toNat_ofNat_of_lt' (by omega), ?_, UInt32.toNat_ofNat_of_lt' (by omega)⟩
  rw [informationLength, UInt32.toNat_add, toNat_size, UInt32.toNat_ofNat_of_lt' (by omega)]
  exact Nat.mod_eq_of_lt (by omega)

theorem informationWrites_within {name : List Wchar} {v : Value}
    (h : 20 + 2 * name.length + v.data.length < 2 ^ 32) {cls : KeyValueInformationClass}
    (hcls : cls ∈ informationClasses) {written : ℕ × List UInt8}
    (hwritten : written ∈ informationWrites name v cls) :
    written.1 + written.2.length ≤ (informationLength name v cls).toNat := by
  rcases toNat_informationLength h with ⟨hbasic, hfull, hpart⟩
  simp only [informationClasses, List.mem_cons, List.not_mem_nil, or_false] at hcls
  rcases hcls with rfl | rfl | rfl
  · rw [hbasic]
    simp only [informationWrites, List.mem_cons, List.not_mem_nil, or_false] at hwritten
    rcases hwritten with rfl | rfl | rfl | rfl
    all_goals simp only [length_ulong, length_wchars]; omega
  · rw [hfull]
    simp only [informationWrites, List.mem_cons, List.not_mem_nil, or_false] at hwritten
    rcases hwritten with rfl | rfl | rfl | rfl | rfl | rfl | rfl
    all_goals simp only [length_ulong, length_wchars]; omega
  · rw [hpart]
    simp only [informationWrites, List.mem_cons, List.not_mem_nil, or_false] at hwritten
    rcases hwritten with rfl | rfl | rfl | rfl
    all_goals simp only [length_ulong]; omega

theorem valueInformation_bounded {name : List Wchar} {v : Value}
    (h : 20 + 2 * name.length + v.data.length < 2 ^ 32) {cls : KeyValueInformationClass}
    (hcls : cls ∈ informationClasses) (info : Bool) (length : UInt32) :
    (valueInformation name v cls info length).Bounded := by
  rw [valueInformation]
  split
  · exact ⟨fun _ => rfl, fun _ => by simp⟩
  · split
    · exact ⟨fun _ => rfl, fun _ => by simp⟩
    · have hne : statusSuccess ≠ statusBufferTooSmall := by decide
      refine ⟨fun hstatus => absurd hstatus hne, fun _ written hwritten => ?_⟩
      exact ⟨_, rfl, informationWrites_within h hcls hwritten⟩

/-- Where the length overflows, the data lies behind it. -/
theorem length_of_bounded {name : List Wchar} {v : Value}
    (h : (valueInformation name v .keyValueFullInformation true 0xFFFFFFFF).Bounded) :
    20 + 2 * name.length + v.data.length < 2 ^ 32 := by
  have hlength : ¬ (0xFFFFFFFF : UInt32) < informationLength name v .keyValueFullInformation := by
    have hmax : (0xFFFFFFFF : UInt32).toNat = 2 ^ 32 - 1 := rfl
    have hlt := (informationLength name v .keyValueFullInformation).toNat_lt
    rw [UInt32.lt_iff_toNat_lt, hmax]
    omega
  rw [valueInformation, if_neg (by simp), if_neg hlength] at h
  rcases h.success rfl (20 + 2 * name.length, v.data) (by simp [informationWrites]) with
    ⟨n, -, hn⟩
  have := n.toNat_lt
  simp only at hn
  omega

/-! ## One state -/

section State

variable {fold : Wchar → Wchar} {values : List Value} {index : UInt32} {v : Value}
  {name : List Wchar}

theorem wcs_eq_self {s : List Wchar} (h : ∀ c ∈ s, c ≠ 0) : wcs s = s :=
  List.takeWhile_eq_self_iff.2 (by simpa using h)

theorem length_wcs_le (s : List Wchar) : (wcs s).length ≤ s.length :=
  (List.takeWhile_sublist _).length_le

theorem enumValue_ok (h : Stored fold values) (hv : values[index.toNat]? = some v) :
    regEnumValueW values index = .ok v := by
  have hshort := h.short v (List.mem_of_getElem? hv)
  rw [regEnumValueW, hv]
  exact if_pos (by omega)

theorem queryValue_ok (h : Stored fold values) (hv : v ∈ values) :
    regQueryValueExW fold values v.name = .ok v := by
  have hlookup : Keyed.lookup (Value.key fold) values (v.name.map fold) = some v :=
    Keyed.lookup_of_mem h.keys hv
  rw [regQueryValueExW, hlookup]

theorem returnsName_iff (h : Stored fold values) (hv : values[index.toNat]? = some v) :
    ReturnsName values index name ↔ name = v.name := by
  simp only [ReturnsName, enumerate_eq (enumValue_ok h hv) basic_mem]
  constructor
  · rintro ⟨length, -, -, hname⟩
    rw [valueInformation] at hname
    split at hname
    case isTrue => simp at hname
    case isFalse =>
      split at hname
      case isTrue => simp at hname
      case isFalse =>
        have hwchars : wchars name = wchars v.name := by
          simpa [informationWrites] using hname
        exact wchars_injective hwchars
  · rintro rfl
    refine ⟨informationLength v.name v .keyValueBasicInformation, ?_⟩
    rw [valueInformation, if_neg (by simp), if_neg (UInt32.lt_irrefl _)]
    simp [informationWrites]

/-- The name that the query looks for. -/
theorem queryName_eq (h : Stored fold values) (hv : v ∈ values)
    (hplain : v.name.head? ≠ some 0x5C) : wcs (ddkUnicodeToString v.name 0x5C) = v.name := by
  have hstrip : ddkUnicodeToString v.name 0x5C = v.name := by
    cases hname : v.name with
    | nil => rfl
    | cons c name =>
      have hc : c ≠ 0x5C := by
        intro hc
        simp [hname, hc] at hplain
      simp [ddkUnicodeToString, hc]
  rw [hstrip]
  exact wcs_eq_self (h.nul v hv)

/-- A name that loses a backslash gets shorter. -/
theorem length_queryName_lt (hname : name.head? = some 0x5C) :
    (wcs (ddkUnicodeToString name 0x5C)).length < name.length := by
  cases name with
  | nil => simp at hname
  | cons c name =>
    have hc : c = 0x5C := by simpa using hname
    have hwcs := length_wcs_le (ddkUnicodeToString (c :: name) 0x5C)
    have hdrop : (ddkUnicodeToString (c :: name) 0x5C).length ≤ name.length := by
      rw [ddkUnicodeToString, List.dropWhile_cons_of_pos (by simp [hc])]
      exact (List.dropWhile_sublist _).length_le
    rw [List.length_cons]
    omega

theorem agrees_of_plain (h : Stored fold values) (hv : values[index.toNat]? = some v)
    (hplain : v.Plain) : Agrees fold values index v.name := by
  have hmem : v ∈ values := List.mem_of_getElem? hv
  have hname := queryName_eq h hmem hplain.name
  have hquery := queryValue_ok h hmem
  have henum := enumValue_ok h hv
  constructor
  case found =>
    intro cls hcls
    rw [query_eq hname hquery hcls]
    rfl
  case same =>
    intro cls hcls info length
    rw [query_eq hname hquery hcls, enumerate_eq henum hcls]
  case queryBounded =>
    intro cls hcls info length
    rw [query_eq hname hquery hcls]
    exact valueInformation_bounded hplain.length hcls info length
  case enumerateBounded =>
    intro cls hcls info length
    rw [enumerate_eq henum hcls]
    exact valueInformation_bounded hplain.length hcls info length

theorem plain_of_agrees (h : Stored fold values) (hv : values[index.toNat]? = some v)
    (hagrees : Agrees fold values index v.name) : v.Plain := by
  have hmem : v ∈ values := List.mem_of_getElem? hv
  have henum := enumValue_ok h hv
  constructor
  case length =>
    have hbounded := hagrees.enumerateBounded _ full_mem true 0xFFFFFFFF
    rw [enumerate_eq henum full_mem] at hbounded
    exact length_of_bounded hbounded
  case name =>
    intro hname
    have hlt := length_queryName_lt hname
    have hshort := h.short v hmem
    have hsame := hagrees.same _ basic_mem false 0
    rw [enumerate_eq henum basic_mem] at hsame
    set stripped := wcs (ddkUnicodeToString v.name 0x5C) with hstripped
    cases hquery : regQueryValueExW fold values stripped with
    | error rc =>
      simp [zwQueryValueKey, valueInformation, ← hstripped, hquery] at hsame
    | ok u =>
      -- another value is found: the lengths of the two names are different
      rw [query_eq hstripped.symm hquery basic_mem] at hsame
      have hlength := congrArg ValueReply.resultLength hsame
      simp only [valueInformation, Bool.not_false, if_true, Option.some.injEq] at hlength
      have hnat := congrArg UInt32.toNat hlength
      have hsize : UInt32.size = 2 ^ 32 := rfl
      rw [informationLength, informationLength, UInt32.toNat_ofNat_of_lt' (by omega),
        UInt32.toNat_ofNat_of_lt' (by omega)] at hnat
      omega

theorem agrees_iff (h : Stored fold values) (hv : values[index.toNat]? = some v) :
    Agrees fold values index v.name ↔ v.Plain :=
  ⟨plain_of_agrees h hv, agrees_of_plain h hv⟩

theorem allAgree_of_plain (h : Stored fold values) (hplain : ∀ v ∈ values, v.Plain) :
    AllAgree fold values := by
  intro index hindex
  have hv : values[index.toNat]? = some values[index.toNat] := List.getElem?_eq_getElem hindex
  refine ⟨⟨_, (returnsName_iff h hv).2 rfl⟩, ?_⟩
  intro name hname
  rw [(returnsName_iff h hv).1 hname]
  exact (agrees_iff h hv).2 (hplain _ (List.getElem_mem hindex))

/-- The first value shows whether it is plain. -/
theorem plain_of_allAgree (h : Stored fold (v :: values)) (hall : AllAgree fold (v :: values)) :
    v.Plain := by
  have hv : (v :: values)[(0 : UInt32).toNat]? = some v := rfl
  have hindex : (0 : UInt32).toNat < (v :: values).length := by simp
  exact (agrees_iff h hv).1 ((hall 0 hindex).2 _ ((returnsName_iff h hv).2 rfl))

end State

/-! ## Runs -/

section Runs

variable {fold : Wchar → Wchar} {values : List Value} {name : List Wchar} {type : UInt32}
  {data : List UInt8} {size : data.length < 2 ^ 32} {v : Value}

/-- What a write leaves: the values before it, or the new data under the name or under one
that is the same to the system. -/
theorem mem_regSetValueExW (hv : v ∈ regSetValueExW fold values name type data size) :
    v ∈ values ∨ v.data = data ∧ v.name.map fold = name.map fold ∧
      (v.name = name ∨ ∃ u ∈ values, v.name = u.name) := by
  rw [regSetValueExW] at hv
  split at hv
  case h_1 =>
    rcases List.mem_append.1 hv with hv | hv
    · exact .inl hv
    · rw [List.mem_singleton.1 hv]
      exact .inr ⟨rfl, rfl, .inl rfl⟩
  case h_2 u hu =>
    have hkey : Value.key fold u = name.map fold := Keyed.key_of_lookup hu
    rcases List.mem_map.1 hv with ⟨x, hx, rfl⟩
    split
    · exact .inr ⟨rfl, hkey, .inr ⟨u, Keyed.mem_of_lookup hu, rfl⟩⟩
    · exact .inl hx

/-- The new data is there. -/
theorem exists_mem_regSetValueExW (fold : Wchar → Wchar) (values : List Value) (new : Value) :
    ∃ v ∈ regSetValueExW fold values new.name new.type new.data new.size,
      v.name.map fold = new.name.map fold ∧ v.data = new.data := by
  rw [regSetValueExW]
  split
  case h_1 => exact ⟨new, by simp, rfl, rfl⟩
  case h_2 u hu =>
    have hkey : Value.key fold u = new.name.map fold := Keyed.key_of_lookup hu
    have hlookup : Keyed.lookup (Value.key fold) values
        (Value.key fold ⟨u.name, new.type, new.data, new.size⟩) = some u := by
      change Keyed.lookup (Value.key fold) values (Value.key fold u) = some u
      rw [hkey]
      exact hu
    exact ⟨_, Keyed.mem_of_lookup (Keyed.lookup_store hlookup), hkey, rfl⟩

theorem keys_regSetValueExW (h : (values.map (Value.key fold)).Nodup) :
    ((regSetValueExW fold values name type data size).map (Value.key fold)).Nodup := by
  rw [regSetValueExW]
  split
  case h_1 hnone =>
    rw [List.map_append, List.map_singleton, List.nodup_append]
    refine ⟨h, List.nodup_singleton _, ?_⟩
    intro a ha b hb heq
    rw [List.mem_singleton.1 hb] at heq
    rcases List.mem_map.1 ha with ⟨u, hu, rfl⟩
    have := List.find?_eq_none.1 hnone u hu
    simp only [decide_eq_true_eq] at this
    exact this heq
  case h_2 => rwa [Keyed.keys_store]

/-- The name of the value fits the buffer of the enumeration, and has no NUL. -/
def Write.Named (w : Write) : Prop := w.valueName.length ≤ 1023 ∧ ∀ c ∈ w.valueName, c ≠ 0

theorem Write.Named.value {w : Write} (h : w.Named) :
    w.value.name.length ≤ 1023 ∧ ∀ c ∈ w.value.name, c ≠ 0 := by
  have hsub : w.value.name.Sublist w.valueName := by
    cases w with
    | zwSetValueKey => exact (List.takeWhile_sublist _).trans (List.dropWhile_sublist _)
    | rtlWriteRegistryValue => exact List.takeWhile_sublist _
  exact ⟨hsub.length_le.trans h.1, fun c hc => h.2 c (hsub.subset hc)⟩

theorem length_eq_of_map {s t : List Wchar} (h : s.map fold = t.map fold) :
    s.length = t.length := by
  have := congrArg List.length h
  simpa using this

theorem stored_run {w : Write} (hw : w.Named) (h : Stored fold values) :
    Stored fold (w.run fold values).2 := by
  rw [Write.run]
  split
  case isFalse => exact h
  case isTrue =>
    constructor
    case keys => exact keys_regSetValueExW h.keys
    case nul =>
      intro v hv
      rcases mem_regSetValueExW hv with hv | ⟨-, -, hname | ⟨u, hu, hname⟩⟩
      · exact h.nul v hv
      · rw [hname]
        exact hw.value.2
      · rw [hname]
        exact h.nul u hu
    case short =>
      intro v hv
      rcases mem_regSetValueExW hv with hv | ⟨-, hkey, -⟩
      · exact h.short v hv
      · rw [length_eq_of_map hkey]
        exact hw.value.1

theorem plain_run {w : Write} (hw : w.rc = errorSuccess → w.value.Plain)
    (h : ∀ v ∈ values, v.Plain) : ∀ v ∈ (w.run fold values).2, v.Plain := by
  rw [Write.run]
  split
  case isFalse => exact h
  case isTrue hrc =>
    intro v hv
    rcases mem_regSetValueExW hv with hv | ⟨hdata, hkey, hname⟩
    · exact h v hv
    · constructor
      case length =>
        rw [hdata, length_eq_of_map hkey]
        exact (hw hrc).length
      case name =>
        rcases hname with hname | ⟨u, hu, hname⟩
        · rw [hname]
          exact (hw hrc).name
        · rw [hname]
          exact (h u hu).name

theorem valuesAfter_append (writes : List Write) (w : Write) :
    valuesAfter fold (writes ++ [w]) = (w.run fold (valuesAfter fold writes)).2 := by
  simp [valuesAfter]

theorem stored_valuesAfter {writes : List Write} (h : ∀ w ∈ writes, w.Named) :
    Stored fold (valuesAfter fold writes) := by
  induction writes using List.reverseRecOn with
  | nil => exact ⟨List.nodup_nil, by simp [valuesAfter], by simp [valuesAfter]⟩
  | append_singleton writes w ih =>
    rw [valuesAfter_append]
    exact stored_run (h w (by simp)) (ih fun w hw => h w (by simp [hw]))

theorem plain_valuesAfter {writes : List Write}
    (h : ∀ w ∈ writes, w.rc = errorSuccess → w.value.Plain) :
    ∀ v ∈ valuesAfter fold writes, v.Plain := by
  induction writes using List.reverseRecOn with
  | nil => simp [valuesAfter]
  | append_singleton writes w ih =>
    rw [valuesAfter_append]
    exact plain_run (h w (by simp)) (ih fun w hw => h w (by simp [hw]))

/-- The order of the values is the system's. -/
theorem Stored.perm {values' : List Value} (h : Stored fold values) (hperm : values'.Perm values) :
    Stored fold values' where
  keys := (hperm.map _).nodup_iff.2 h.keys
  nul := fun v hv => h.nul v (hperm.subset hv)
  short := fun v hv => h.short v (hperm.subset hv)

/-- A write whose value is not plain stores one that is not. -/
theorem exists_not_plain (hfold : ∀ c, fold c = fold 0x5C → c = 0x5C) {w : Write}
    (hrc : w.rc = errorSuccess) (hw : ¬ w.value.Plain) (values : List Value) :
    ∃ v ∈ (w.run fold values).2, ¬ v.Plain := by
  rw [Write.run, if_pos hrc]
  rcases exists_mem_regSetValueExW fold values w.value with ⟨v, hv, hkey, hdata⟩
  refine ⟨v, hv, fun hplain => hw ?_⟩
  constructor
  case length =>
    rw [← hdata, ← length_eq_of_map hkey]
    exact hplain.length
  case name =>
    -- no other character is folded to the backslash
    intro hname
    apply hplain.name
    have hhead : (v.name.map fold).head? = (w.value.name.map fold).head? := by rw [hkey]
    rw [List.head?_map, List.head?_map, hname, Option.map_some, Option.map_eq_some_iff] at hhead
    rcases hhead with ⟨c, hc, heq⟩
    rw [hc, hfold c heq]

/-- Query and enumeration agree in every state of a run, in whatever order the system lists
the values, exactly if every write that succeeds stores a plain value. -/
theorem values_agree_iff (hfold : ∀ c, fold c = fold 0x5C → c = 0x5C) {writes : List Write}
    (hnamed : ∀ w ∈ writes, w.Named) :
    (∀ done, done <+: writes → ∀ values, values.Perm (valuesAfter fold done) →
        AllAgree fold values) ↔
      ∀ w ∈ writes, w.rc = errorSuccess → w.value.Plain := by
  constructor
  · intro h w hw hrc
    by_contra hplain
    -- right after the write, list the value first
    rcases List.append_of_mem hw with ⟨before, after, rfl⟩
    have hdone : before ++ [w] <+: before ++ w :: after := ⟨after, by simp⟩
    have hstored : Stored fold (valuesAfter fold (before ++ [w])) :=
      stored_valuesAfter fun w hw => hnamed w (hdone.subset hw)
    rcases exists_not_plain hfold hrc hplain (valuesAfter fold before) with ⟨v, hv, hnot⟩
    rw [← valuesAfter_append] at hv
    rcases List.append_of_mem hv with ⟨left, right, hvalues⟩
    have hperm : (v :: (left ++ right)).Perm (valuesAfter fold (before ++ [w])) := by
      rw [hvalues]
      exact List.perm_middle.symm
    exact hnot (plain_of_allAgree (hstored.perm hperm) (h _ hdone _ hperm))
  · intro h done hdone values hperm
    have hstored : Stored fold (valuesAfter fold done) :=
      stored_valuesAfter fun w hw => hnamed w (hdone.subset hw)
    have hplain : ∀ v ∈ valuesAfter fold done, v.Plain :=
      plain_valuesAfter fun w hw => h w (hdone.subset hw)
    exact allAgree_of_plain (hstored.perm hperm) fun v hv => hplain v (hperm.subset hv)

end Runs

theorem towupper_backslash (c : Wchar) (h : towupper c = towupper 0x5C) : c = 0x5C := by
  have hbackslash : towupper 0x5C = 0x5C := rfl
  rw [hbackslash, towupper] at h
  split at h
  case isFalse => exact h
  case isTrue hc =>
    have hle : c.toNat ≤ 0x7A := UInt16.le_iff_toNat_le.1 hc.2
    have hge : 0x61 ≤ c.toNat := UInt16.le_iff_toNat_le.1 hc.1
    have hsub : c.toNat - 0x20 = 0x5C := by
      have hnat := congrArg UInt16.toNat h
      rwa [UInt16.toNat_sub_of_le _ _ (UInt16.le_iff_toNat_le.2 (by
        change 0x20 ≤ c.toNat
        omega))] at hnat
    omega

/-- The value `\a`, written without its backslash, and the value `b`. -/
def sampleWrites : List Write :=
  [.zwSetValueKey [0x5C, 0x61] 4 [1, 0, 0, 0] (by decide) 0,
    .rtlWriteRegistryValue [0x62] 3 [7] (by decide) 0]

theorem values_agree_sampleWrites :
    (valuesAfter towupper sampleWrites).length = 2 ∧
      AllAgree towupper (valuesAfter towupper sampleWrites) := by
  have hnamed : ∀ w ∈ sampleWrites, w.Named := by
    simp [sampleWrites, Write.Named, Write.valueName]
  have hplain : ∀ w ∈ sampleWrites, w.rc = errorSuccess → w.value.Plain := by
    intro w hw _
    simp only [sampleWrites, List.mem_cons, List.not_mem_nil, or_false] at hw
    rcases hw with rfl | rfl
    · exact ⟨by decide, by decide⟩
    · exact ⟨by decide, by decide⟩
  have hall := (values_agree_iff towupper_backslash hnamed).2 hplain
  exact ⟨by decide, hall sampleWrites List.prefix_rfl _ (List.Perm.refl _)⟩

/-- The value `\f`, as `RtlWriteRegistryValue` stores it. -/
def slashWrite : Write := .rtlWriteRegistryValue [0x5C, 0x66] 3 [7] (by decide) 0

/-- The enumeration returns the name `\f`, and the query with it finds nothing. -/
theorem values_disagree_slashWrite :
    ReturnsName (valuesAfter towupper [slashWrite]) 0 [0x5C, 0x66] ∧
      (zwQueryValueKey towupper (some (valuesAfter towupper [slashWrite])) [0x5C, 0x66]
        .keyValueBasicInformation false 0).status = statusObjectNameNotFound ∧
      ¬ AllAgree towupper (valuesAfter towupper [slashWrite]) := by
  have hname : ReturnsName (valuesAfter towupper [slashWrite]) 0 [0x5C, 0x66] :=
    ⟨100, by decide, by decide, by decide⟩
  have hstatus : (zwQueryValueKey towupper (some (valuesAfter towupper [slashWrite])) [0x5C, 0x66]
      .keyValueBasicInformation false 0).status = statusObjectNameNotFound := by
    decide
  refine ⟨hname, hstatus, fun h => ?_⟩
  have hfound := ((h 0 (by decide)).2 _ hname).found _ basic_mem
  rw [hstatus] at hfound
  exact absurd hfound (by decide)

end Wdutf.Reg
