import Mathlib.Data.List.Nodup
import Mathlib.Logic.Function.Basic
import Mathlib.Tactic.Common
import Wdutf.Lib.Transition
import Wdutf.Reg.Keys

/-!
# Wdutf.Reg.Object — key objects and the keys they use, `src/registry.cpp`

`ZwOpenKey`, `ZwOpenKeyEx` and `ZwCreateKey` make a `KEY` object for a key of the operating
system, and `ZwClose` frees it. With a path that is empty the object gets the key of its
root directory, and the destructor closes it all the same.

* `Aliases` — the calls after which two objects use one key;
* `key_ownership` — in every run without them each object's key is open, and every key
  is closed once, with its object;
* `key_shared` — a run with such a call, and a live object whose key is closed.
-/

namespace Wdutf.Reg

open Wdutf.Rtl Wdutf.Io Wdutf.Transition

/-- The live `KEY` objects with their keys, by the order of their allocation. -/
structure State where
  keys : Keys
  objects : ℕ → Option Hkey
  next : ℕ

/-- `OBJECT_ATTRIBUTES`: the name, none if its buffer is NULL, and the handle of the
root directory. -/
structure ObjectAttributes where
  objectName : Option UnicodeString
  rootDirectory : Option ℕ

/-- What the system answers: the status of `RegOpenKeyW` or `RegCreateKeyExW`, and whether the
object could be allocated. -/
structure Answer where
  rc : LStatus
  allocated : Bool

/-- `ObjectName` as a path. -/
def pathOf (name : UnicodeString) : List Wchar := ddkUnicodeToString name 0x5C

/-- The key that the path is relative to: the hive, or that of the root directory. -/
def State.base (s : State) : Option ℕ → Option Hkey
  | none => some .hive
  | some handle => s.objects handle

/-- The end of `DdkGetRegistryObject`: the object for a key. -/
def State.allocObject (s : State) (base key : Hkey) (keys : Keys) (allocated : Bool) :
    NtStatus × State :=
  if allocated then
    (statusSuccess, ⟨keys, Function.update s.objects s.next (some key), s.next + 1⟩)
  else
    (statusInsufficientResources,
      { s with keys := if key ≠ base then keys.regCloseKey key else keys })

/-- `DdkGetRegistryObject`. The handle of the object is `s.next`. -/
def ddkGetRegistryObject (s : State) (attributes : Option ObjectAttributes) (answer : Answer) :
    NtStatus × State :=
  match attributes with
  | none => (statusInvalidParameter, s)
  | some attributes =>
    match attributes.objectName with
    | none => (statusInvalidParameter, s)
    | some name =>
      match s.base attributes.rootDirectory with
      | none => (statusInvalidHandle, s)
      | some base =>
        if emptyString (pathOf name) then s.allocObject base base s.keys answer.allocated
        else if answer.rc ≠ errorSuccess then (ddkGetRegistryStatus answer.rc, s)
        else s.allocObject base s.keys.openKey.1 s.keys.openKey.2 answer.allocated

/-- `ZwOpenKeyEx`; `keyHandle` tells whether the caller takes the handle. -/
def zwOpenKeyEx (s : State) (keyHandle : Bool) (attributes : Option ObjectAttributes)
    (answer : Answer) :
    NtStatus × State :=
  if keyHandle then ddkGetRegistryObject s attributes answer else (statusInvalidParameter, s)

/-- `ZwOpenKey`. -/
def zwOpenKey (s : State) (keyHandle : Bool) (attributes : Option ObjectAttributes)
    (answer : Answer) :
    NtStatus × State :=
  zwOpenKeyEx s keyHandle attributes answer

/-- `ZwCreateKey`. -/
def zwCreateKey (s : State) (keyHandle : Bool) (attributes : Option ObjectAttributes)
    (answer : Answer) :
    NtStatus × State :=
  if keyHandle then ddkGetRegistryObject s attributes answer else (statusInvalidParameter, s)

/-- `DdkFreeKeyObject`, on the key of the object. -/
def ddkFreeKeyObject (keys : Keys) (key : Hkey) : Keys :=
  if key ≠ .hive then keys.regCloseKey key else keys

/-- `ZwClose` of the only reference to a key object. -/
def zwClose (s : State) (handle : ℕ) : NtStatus × State :=
  match s.objects handle with
  | none => (statusInvalidHandle, s)
  | some key =>
    (statusSuccess, { s with
      keys := ddkFreeKeyObject s.keys key
      objects := Function.update s.objects handle none })

inductive Call where
  | zwOpenKey (keyHandle : Bool) (attributes : Option ObjectAttributes) (answer : Answer)
  | zwOpenKeyEx (keyHandle : Bool) (attributes : Option ObjectAttributes) (answer : Answer)
  | zwCreateKey (keyHandle : Bool) (attributes : Option ObjectAttributes) (answer : Answer)
  | zwClose (handle : ℕ)

def call (s : State) : Call → NtStatus × State
  | .zwOpenKey keyHandle attributes answer => zwOpenKey s keyHandle attributes answer
  | .zwOpenKeyEx keyHandle attributes answer => zwOpenKeyEx s keyHandle attributes answer
  | .zwCreateKey keyHandle attributes answer => zwCreateKey s keyHandle attributes answer
  | .zwClose handle => zwClose s handle

/-- No key object has been made yet. -/
def initial : State := ⟨⟨0, []⟩, fun _ => none, 0⟩

/-! ## Ownership -/

/-- Every key is closed once, with the last object that uses it, and the hive never. -/
structure Owned (s : State) : Prop where
  /-- The key of a live object is open. -/
  live : ∀ h key, s.objects h = some key → key ∉ s.keys.closed
  /-- No key is closed twice. -/
  once : s.keys.closed.Nodup
  /-- What is closed was opened: the hive is not closed. -/
  closed : ∀ key ∈ s.keys.closed, ∃ n, n < s.keys.opened ∧ key = .opened n
  /-- A key that no live object uses has been closed. -/
  freed : ∀ n, n < s.keys.opened → .opened n ∈ s.keys.closed ∨ ∃ h, s.objects h = some (.opened n)

/-- The invariant: no two live objects use one key, except for the hive. -/
structure Inv (s : State) : Prop extends Owned s where
  known : ∀ h n, s.objects h = some (.opened n) → n < s.keys.opened
  unique : ∀ h h' n, s.objects h = some (.opened n) → s.objects h' = some (.opened n) → h = h'
  fresh : ∀ h, s.next ≤ h → s.objects h = none

/-- The root directory has a key of its own, and the path is empty: the new object gets
this key. -/
def AliasesRoot (s : State) (attributes : Option ObjectAttributes) : Prop :=
  ∃ a name h n, attributes = some a ∧ a.objectName = some name ∧ a.rootDirectory = some h ∧
    s.objects h = some (.opened n) ∧ emptyString (pathOf name) = true

/-- The call makes an object for the key of another one. -/
def Aliases (s : State) : Call → Prop
  | .zwOpenKey _ attributes _ => AliasesRoot s attributes
  | .zwOpenKeyEx _ attributes _ => AliasesRoot s attributes
  | .zwCreateKey _ attributes _ => AliasesRoot s attributes
  | .zwClose _ => False

variable {s : State}

theorem inv_initial : Inv initial := by
  constructor
  case toOwned => constructor <;> simp [initial]
  all_goals simp [initial]

theorem update_next (h : Inv s) (key : Hkey) (x : ℕ) (k : Hkey) :
    Function.update s.objects s.next (some key) x = some k ↔
      (x = s.next ∧ k = key) ∨ s.objects x = some k := by
  by_cases hx : x = s.next
  · subst hx
    rw [Function.update_self, h.fresh _ (Nat.le_refl _)]
    simp [eq_comm]
  · rw [Function.update_of_ne hx]
    simp [hx]

/-- The next key to be opened is not closed, and no object has it. -/
theorem Inv.next_not_closed (h : Inv s) : Hkey.opened s.keys.opened ∉ s.keys.closed := by
  intro hmem
  rcases h.closed _ hmem with ⟨n, hn, heq⟩
  cases heq
  exact absurd hn (Nat.lt_irrefl _)

theorem Inv.next_not_used (h : Inv s) (x : ℕ) : s.objects x ≠ some (.opened s.keys.opened) :=
  fun hx => absurd (h.known x _ hx) (Nat.lt_irrefl _)

/-- A new object for the hive, or for a key that was opened for it. -/
theorem Inv.add (h : Inv s) {key : Hkey} {keys : Keys} (hclosed : keys.closed = s.keys.closed)
    (hkey : key = .hive ∧ keys.opened = s.keys.opened ∨
      key = .opened s.keys.opened ∧ keys.opened = s.keys.opened + 1) :
    Inv ⟨keys, Function.update s.objects s.next (some key), s.next + 1⟩ := by
  have hle : s.keys.opened ≤ keys.opened := by omega
  have hopen : key ∉ s.keys.closed := by
    rcases hkey with ⟨rfl, -⟩ | ⟨rfl, -⟩
    · intro hmem
      rcases h.closed _ hmem with ⟨n, -, heq⟩
      cases heq
    · exact h.next_not_closed
  -- the key of another object is not the new one
  have hother : ∀ x n, s.objects x = some (.opened n) → key ≠ .opened n := by
    intro x n hx heq
    rcases hkey with ⟨rfl, -⟩ | ⟨rfl, -⟩
    · cases heq
    · cases heq
      exact h.next_not_used x hx
  constructor
  case toOwned =>
    constructor
    case live =>
      intro x k hx
      show k ∉ keys.closed
      rw [hclosed]
      rcases (update_next h key x k).1 hx with ⟨-, rfl⟩ | hx
      · exact hopen
      · exact h.live x k hx
    case once =>
      show keys.closed.Nodup
      rw [hclosed]
      exact h.once
    case closed =>
      intro k hk
      rcases h.closed k (hclosed ▸ hk) with ⟨n, hn, heq⟩
      exact ⟨n, Nat.lt_of_lt_of_le hn hle, heq⟩
    case freed =>
      intro n hn
      show Hkey.opened n ∈ keys.closed ∨ ∃ x, Function.update s.objects s.next (some key) x = _
      rw [hclosed]
      by_cases hold : n < s.keys.opened
      · rcases h.freed n hold with hmem | ⟨x, hx⟩
        · exact Or.inl hmem
        · exact Or.inr ⟨x, (update_next h key x _).2 (Or.inr hx)⟩
      · -- the new key
        replace hn : n < keys.opened := hn
        rcases hkey with ⟨-, hsame⟩ | ⟨rfl, hnew⟩
        · omega
        · obtain rfl : n = s.keys.opened := by omega
          exact Or.inr ⟨s.next, (update_next h _ s.next _).2 (Or.inl ⟨rfl, rfl⟩)⟩
  case known =>
    intro x n hx
    rcases (update_next h key x _).1 hx with ⟨-, heq⟩ | hx
    · rcases hkey with ⟨rfl, -⟩ | ⟨rfl, hnew⟩
      · cases heq
      · cases heq
        exact hnew ▸ Nat.lt_succ_self _
    · exact Nat.lt_of_lt_of_le (h.known x n hx) hle
  case unique =>
    intro x y n hx hy
    rcases (update_next h key x _).1 hx with ⟨hxn, heq⟩ | hx
    · rcases (update_next h key y _).1 hy with ⟨hyn, -⟩ | hy
      · exact hxn.trans hyn.symm
      · exact absurd heq.symm (hother y n hy)
    · rcases (update_next h key y _).1 hy with ⟨-, heq⟩ | hy
      · exact absurd heq.symm (hother x n hx)
      · exact h.unique x y n hx hy
  case fresh =>
    intro x hx
    have hxn : x ≠ s.next := Nat.ne_of_gt hx
    show Function.update s.objects s.next (some key) x = none
    rw [Function.update_of_ne hxn]
    exact h.fresh x (Nat.le_of_succ_le hx)

/-- A key that was opened, and closed because there is no object for it. -/
theorem Inv.drop (h : Inv s) :
    Inv { s with keys := s.keys.openKey.2.regCloseKey s.keys.openKey.1 } := by
  constructor
  case toOwned =>
    constructor
    case live =>
      intro x k hx hmem
      rcases List.mem_cons.1 hmem with rfl | hmem
      · exact h.next_not_used x hx
      · exact h.live x k hx hmem
    case once => exact List.nodup_cons.2 ⟨h.next_not_closed, h.once⟩
    case closed =>
      intro k hk
      rcases List.mem_cons.1 hk with rfl | hk
      · exact ⟨_, Nat.lt_succ_self _, rfl⟩
      · rcases h.closed k hk with ⟨n, hn, heq⟩
        exact ⟨n, Nat.lt_succ_of_lt hn, heq⟩
    case freed =>
      intro n hn
      rcases Nat.lt_succ_iff_lt_or_eq.1 hn with hold | rfl
      · rcases h.freed n hold with hmem | hx
        · exact Or.inl (List.mem_cons_of_mem _ hmem)
        · exact Or.inr hx
      · exact Or.inl (List.mem_cons_self ..)
  case known => exact fun x n hx => Nat.lt_succ_of_lt (h.known x n hx)
  case unique => exact h.unique
  case fresh => exact h.fresh

theorem update_none (x y : ℕ) (k : Hkey) :
    Function.update s.objects x none y = some k ↔ y ≠ x ∧ s.objects y = some k := by
  by_cases hy : y = x
  · rw [hy, Function.update_self]
    simp
  · rw [Function.update_of_ne hy]
    simp [hy]

/-- Without one of the objects, the others still use different keys. -/
theorem Inv.forget (h : Inv s) {x : ℕ} (keys : Keys) (hopened : keys.opened = s.keys.opened)
    (howned : Owned { s with keys := keys, objects := Function.update s.objects x none }) :
    Inv { s with keys := keys, objects := Function.update s.objects x none } := by
  constructor
  case toOwned => exact howned
  case known =>
    intro y n hy
    show n < keys.opened
    rw [hopened]
    exact h.known y n ((update_none x y _).1 hy).2
  case unique =>
    intro y z n hy hz
    exact h.unique y z n ((update_none x y _).1 hy).2 ((update_none x z _).1 hz).2
  case fresh =>
    intro y hy
    show Function.update s.objects x none y = none
    by_cases hyx : y = x
    · rw [hyx, Function.update_self]
    · rw [Function.update_of_ne hyx]
      exact h.fresh y hy

/-- The destructor of an object. -/
theorem Inv.free (h : Inv s) {x : ℕ} {key : Hkey} (hx : s.objects x = some key) :
    Inv { s with
      keys := ddkFreeKeyObject s.keys key
      objects := Function.update s.objects x none } := by
  -- another key that has not been closed is still used
  have hused : ∀ y n, s.objects y = some (.opened n) → key ≠ .opened n →
      Function.update s.objects x none y = some (.opened n) := by
    intro y n hy hne
    refine (update_none x y _).2 ⟨?_, hy⟩
    rintro rfl
    rw [hx] at hy
    exact hne (Option.some.inj hy)
  unfold ddkFreeKeyObject
  cases key with
  | hive =>
    -- nothing is closed
    rw [if_neg (not_not.2 rfl)]
    apply h.forget s.keys rfl
    constructor
    case live => exact fun y k hy => h.live y k ((update_none x y k).1 hy).2
    case once => exact h.once
    case closed => exact h.closed
    case freed =>
      intro n hn
      rcases h.freed n hn with hmem | ⟨y, hy⟩
      · exact Or.inl hmem
      · exact Or.inr ⟨y, hused y n hy nofun⟩
  | opened m =>
    -- no other object uses the key that is closed
    rw [if_pos nofun]
    apply h.forget (s.keys.regCloseKey (.opened m)) rfl
    constructor
    case live =>
      intro y k hy hmem
      rcases (update_none x y k).1 hy with ⟨hyx, hy⟩
      rcases List.mem_cons.1 hmem with rfl | hmem
      · exact hyx (h.unique y x m hy hx)
      · exact h.live y k hy hmem
    case once => exact List.nodup_cons.2 ⟨h.live x _ hx, h.once⟩
    case closed =>
      intro k hk
      rcases List.mem_cons.1 hk with rfl | hk
      · exact ⟨m, h.known x m hx, rfl⟩
      · exact h.closed k hk
    case freed =>
      intro n hn
      by_cases hnm : n = m
      · rw [hnm]
        exact Or.inl (List.mem_cons_self ..)
      · rcases h.freed n hn with hmem | ⟨y, hy⟩
        · exact Or.inl (List.mem_cons_of_mem _ hmem)
        · refine Or.inr ⟨y, hused y n hy ?_⟩
          intro heq
          cases heq
          exact hnm rfl

/-- `DdkGetRegistryObject` keeps the invariant, unless it shares the key of the root
directory. -/
theorem Inv.getRegistryObject (h : Inv s) {attributes : Option ObjectAttributes} (answer : Answer)
    (hshare : ¬ AliasesRoot s attributes) : Inv (ddkGetRegistryObject s attributes answer).2 := by
  unfold ddkGetRegistryObject
  split
  · exact h
  · rename_i a
    split
    · exact h
    · rename_i name hname
      split
      · exact h
      · rename_i base hbase
        split
        · -- an empty path: the base is the hive
          rename_i hempty
          have hhive : base = .hive := by
            cases base with
            | hive => rfl
            | opened n =>
              cases hroot : a.rootDirectory with
              | none =>
                rw [hroot] at hbase
                cases hbase
              | some x =>
                rw [hroot] at hbase
                exact absurd ⟨a, name, x, n, rfl, hname, hroot, hbase, hempty⟩ hshare
          unfold State.allocObject
          split
          · exact h.add rfl (Or.inl ⟨hhive, rfl⟩)
          · rw [if_neg (not_not.2 rfl)]
            exact h
        · split
          · exact h
          · unfold State.allocObject
            split
            · exact h.add rfl (Or.inr ⟨rfl, rfl⟩)
            · -- the new key is not the base
              have hne : s.keys.openKey.1 ≠ base := by
                rintro rfl
                cases hroot : a.rootDirectory with
                | none =>
                  rw [hroot] at hbase
                  cases hbase
                | some x =>
                  rw [hroot] at hbase
                  exact h.next_not_used x hbase
              rw [if_pos hne]
              exact h.drop

theorem Inv.call (h : Inv s) {c : Call} (hshare : ¬ Aliases s c) : Inv (call s c).2 := by
  cases c with
  | zwOpenKey keyHandle attributes answer =>
    show Inv (zwOpenKeyEx s keyHandle attributes answer).2
    unfold zwOpenKeyEx
    split
    · exact h.getRegistryObject answer hshare
    · exact h
  | zwOpenKeyEx keyHandle attributes answer =>
    show Inv (zwOpenKeyEx s keyHandle attributes answer).2
    unfold zwOpenKeyEx
    split
    · exact h.getRegistryObject answer hshare
    · exact h
  | zwCreateKey keyHandle attributes answer =>
    show Inv (zwCreateKey s keyHandle attributes answer).2
    unfold zwCreateKey
    split
    · exact h.getRegistryObject answer hshare
    · exact h
  | zwClose handle =>
    show Inv (zwClose s handle).2
    unfold zwClose
    split
    · exact h
    · rename_i hkey
      exact h.free hkey

/-- The runs of these calls. -/
abbrev Run : List Call → State → Prop := Trace (· = initial) fun s c s' => s' = (call s c).2

/-- Those in which no call makes an object for the key of another one. -/
abbrev UnsharedRun : List Call → State → Prop :=
  Trace (· = initial) fun s c s' => ¬ Aliases s c ∧ s' = (call s c).2

/-- **Key ownership.** After every run in which no call with a root directory that has a
key of its own has an empty path. -/
theorem key_ownership (cs : List Call) (s : State) (h : UnsharedRun cs s) : Owned s := by
  have hinv : Inv s := by
    refine h.invariant ?_ ?_
    · rintro s rfl
      exact inv_initial
    · rintro s c s' hs ⟨hshare, rfl⟩
      exact hs.call hshare
  exact hinv.toOwned

/-- A key is opened by name, another one relative to it, and both handles are closed: each
key is closed once. -/
theorem key_ownership_closes :
    ∃ s : State, Owned s ∧ s.keys.opened = 2 ∧ s.keys.closed = [.opened 1, .opened 0] := by
  have h0 : UnsharedRun [] initial := Trace.start rfl
  have h1 := h0.snoc (e := .zwOpenKey true (some ⟨some [0x41], none⟩) ⟨0, true⟩) ⟨?_, rfl⟩
  have h2 := h1.snoc (e := .zwOpenKey true (some ⟨some [0x42], some 0⟩) ⟨0, true⟩) ⟨?_, rfl⟩
  have h3 := h2.snoc (e := .zwClose 0) ⟨id, rfl⟩
  have h4 := h3.snoc (e := .zwClose 1) ⟨id, rfl⟩
  · exact ⟨_, key_ownership _ _ h4, rfl, rfl⟩
  · rintro ⟨a, name, h, n, heq, hname, -, -, hempty⟩
    cases heq
    cases hname
    exact absurd hempty (by decide)
  · rintro ⟨a, name, h, n, heq, -, hroot, -⟩
    cases heq
    cases hroot

/-- A key is opened by name, then relative to it with an empty name, and the first handle is
closed: the object of the second one is alive, and its key is closed. -/
theorem key_shared : ¬ ∀ (cs : List Call) (s : State), Run cs s → Owned s := by
  intro hall
  have h0 : Run [] initial := Trace.start rfl
  have h1 := h0.snoc (e := .zwOpenKey true (some ⟨some [0x41], none⟩) ⟨0, true⟩) rfl
  have h2 := h1.snoc (e := .zwOpenKey true (some ⟨some [], some 0⟩) ⟨0, true⟩) rfl
  have h3 := h2.snoc (e := .zwClose 0) rfl
  exact (hall _ _ h3).live 1 (.opened 0) rfl (List.mem_singleton_self _)

end Wdutf.Reg
