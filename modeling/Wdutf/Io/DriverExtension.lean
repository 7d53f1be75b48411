import Mathlib.Data.List.Basic
import Mathlib.Tactic.Common
import Wdutf.Io.Irp

/-!
# Wdutf.Io.DriverExtension — driver object extensions, `src/ddk.cpp`

`IoAllocateDriverObjectExtension` keeps the extensions of all drivers in `ExtensionList`, a table of
ten entries with an identifier each, and `IoGetDriverObjectExtension` looks for an identifier.
Neither reads its `DriverObject`. An entry with the identifier `NULL` is free.

The memory of an extension comes from the pool and is never given back: the blocks are numbered
from 1 on, and `NULL` is 0. Whether the pool has memory for a block is part of a call.

* `Table` — the used entries come first, and all free ones behind the first are clear;
* `ioGetDriverObjectExtension_run` — what a lookup finds after any calls;
* `extension_iff` — when this is the extension of the driver that asks;
* `extension_shared` — two drivers with one identifier.
-/

namespace Wdutf.Io.DriverExtension

/-! ## The routines -/

/-- `STATUS_SUCCESS`. -/
def statusSuccess : NtStatus := 0

/-- `STATUS_UNSUCCESSFUL`. -/
def statusUnsuccessful : NtStatus := (0xC0000001 : UInt32).toInt32

/-- `STATUS_INSUFFICIENT_RESOURCES`. -/
def statusInsufficientResources : NtStatus := (0xC000009A : UInt32).toInt32

/-- An entry of `ExtensionList`. -/
structure Entry where
  id : Pvoid
  extn : ℕ
deriving DecidableEq

/-- A call of `IoAllocateDriverObjectExtension`; `memory` tells whether `ExAllocatePool` has memory
for the extension. -/
structure Call where
  driverObject : Pvoid
  clientIdentificationAddress : Pvoid
  memory : Bool

/-- A call that returned `STATUS_SUCCESS`, with the extension that it allocated. -/
structure Success where
  driverObject : Pvoid
  id : Pvoid
  extn : ℕ
deriving DecidableEq

/-- `ExtensionList`, the number of blocks that the pool has handed out, and the calls that have
returned `STATUS_SUCCESS`, the last one first. No step tests these. -/
structure State where
  extensionList : List Entry
  blocks : ℕ
  successes : List Success

/-- The table at the start of the program. -/
def initial : State := ⟨List.replicate 10 ⟨0, 0⟩, 0, []⟩

/-- The loop of `IoAllocateDriverObjectExtension`: the first entry that is free or has the
identifier. -/
def setEntry (id : Pvoid) (extn : ℕ) : List Entry → Option (List Entry)
  | [] => none
  | e :: rest =>
    if e.id = 0 ∨ e.id = id then some (⟨id, extn⟩ :: rest)
    else (setEntry id extn rest).map (e :: ·)

/-- What the loop comes to: the table with the new entry, or no entry for it. -/
def loopResult (call : Call) (extn : ℕ) (s : State) : Option (List Entry) → NtStatus × ℕ × State
  | some extensionList =>
    (statusSuccess, extn, ⟨extensionList, extn,
      ⟨call.driverObject, call.clientIdentificationAddress, extn⟩ :: s.successes⟩)
  | none => (statusUnsuccessful, extn, { s with blocks := extn })

/-- `IoAllocateDriverObjectExtension`, with what it stores in `*DriverObjectExtension`. -/
def ioAllocateDriverObjectExtension (call : Call) (s : State) : NtStatus × ℕ × State :=
  if call.memory then
    loopResult call (s.blocks + 1) s
      (setEntry call.clientIdentificationAddress (s.blocks + 1) s.extensionList)
  else (statusInsufficientResources, 0, s)

/-- The loop of `IoGetDriverObjectExtension`. -/
def getEntry (id : Pvoid) : List Entry → ℕ
  | [] => 0
  | e :: rest => if e.id = id then e.extn else getEntry id rest

/-- `IoGetDriverObjectExtension`. -/
def ioGetDriverObjectExtension (_driverObject clientIdentificationAddress : Pvoid) (s : State) :
    ℕ :=
  getEntry clientIdentificationAddress s.extensionList

/-- The state after some calls. -/
def run (calls : List Call) : State :=
  calls.foldl (fun s call => (ioAllocateDriverObjectExtension call s).2.2) initial

/-! ## The table -/

/-- The used entries of the table, and the free ones. -/
structure Table (l used free : List Entry) : Prop where
  split : l = used ++ free
  used_id : ∀ e ∈ used, e.id ≠ 0
  free_id : ∀ e ∈ free, e.id = 0
  clear : ∀ e ∈ free.tail, e.extn = 0

/-- The identifier was never used before in a successful call. -/
def New (id : Pvoid) (successes : List Success) : Prop := ∀ x ∈ successes, x.id ≠ id

instance (id : Pvoid) (successes : List Success) : Decidable (New id successes) :=
  inferInstanceAs (Decidable (∀ x ∈ successes, x.id ≠ id))

/-- The last successful call with the identifier, whatever its driver; a call with `NULL` lasts
until another identifier enters the table. -/
def lastKept (id : Pvoid) : List Success → Option Success
  | [] => none
  | x :: older =>
    if x.id = id then some x
    else if id = 0 ∧ New x.id older then none
    else lastKept id older

section SetEntry

variable {id : Pvoid} {l used free : List Entry}

/-- An entry with the identifier. -/
theorem setEntry_used (extn : ℕ) (free : List Entry) (h : ∃ e ∈ used, e.id = id)
    (hused : ∀ e ∈ used, e.id ≠ 0) :
    ∃ before e after, used = before ++ e :: after ∧ e.id = id ∧ (∀ x ∈ before, x.id ≠ id) ∧
      setEntry id extn (used ++ free) = some (before ++ ⟨id, extn⟩ :: (after ++ free)) := by
  induction used with
  | nil =>
    rcases h with ⟨e, he, -⟩
    exact absurd he List.not_mem_nil
  | cons x used ih =>
    by_cases hx : x.id = id
    · refine ⟨[], x, used, rfl, hx, fun x hx => absurd hx List.not_mem_nil, ?_⟩
      rw [List.cons_append, setEntry, if_pos (Or.inr hx)]
      rfl
    · have hrest : ∃ e ∈ used, e.id = id := by
        rcases h with ⟨e, he, heid⟩
        rcases List.mem_cons.1 he with rfl | he
        · exact absurd heid hx
        · exact ⟨e, he, heid⟩
      rcases ih hrest (fun e he => hused e (List.mem_cons_of_mem x he)) with
        ⟨before, e, after, rfl, he, hbefore, hset⟩
      refine ⟨x :: before, e, after, rfl, he, ?_, ?_⟩
      · intro y hy
        rcases List.mem_cons.1 hy with rfl | hy
        · exact hx
        · exact hbefore y hy
      · have hne : ¬ (x.id = 0 ∨ x.id = id) := by
          rintro (h | h)
          · exact hused x List.mem_cons_self h
          · exact hx h
        rw [List.cons_append, setEntry, if_neg hne, hset]
        rfl

/-- No entry with the identifier: the first free one is taken. -/
theorem setEntry_free (extn : ℕ) (h : ∀ e ∈ used, e.id ≠ id) (hused : ∀ e ∈ used, e.id ≠ 0)
    (hfree : ∀ e ∈ free, e.id = 0) :
    setEntry id extn (used ++ free) =
      if free = [] then none else some (used ++ ⟨id, extn⟩ :: free.tail) := by
  induction used with
  | nil =>
    cases free with
    | nil => rfl
    | cons e free =>
      rw [List.nil_append, setEntry, if_pos (Or.inl (hfree e List.mem_cons_self)),
        if_neg (List.cons_ne_nil _ _)]
      rfl
  | cons x used ih =>
    have hne : ¬ (x.id = 0 ∨ x.id = id) := by
      rintro (h' | h')
      · exact hused x List.mem_cons_self h'
      · exact h x List.mem_cons_self h'
    rw [List.cons_append, setEntry, if_neg hne,
      ih (fun e he => h e (List.mem_cons_of_mem x he))
        (fun e he => hused e (List.mem_cons_of_mem x he))]
    by_cases hnil : free = []
    · rw [if_pos hnil, if_pos hnil]
      rfl
    · rw [if_neg hnil, if_neg hnil]
      rfl

/-- A used entry is overwritten. -/
theorem Table.overwrite {before after : List Entry} {e e' : Entry}
    (h : Table l (before ++ e :: after) free) (he' : e'.id ≠ 0) :
    Table (before ++ e' :: (after ++ free)) (before ++ e' :: after) free := by
  constructor
  case split => rw [List.append_assoc, List.cons_append]
  case used_id =>
    intro x hx
    rcases List.mem_append.1 hx with hx | hx
    · exact h.used_id x (List.mem_append_left _ hx)
    · rcases List.mem_cons.1 hx with rfl | hx
      · exact he'
      · exact h.used_id x (List.mem_append_right _ (List.mem_cons_of_mem e hx))
  case free_id => exact h.free_id
  case clear => exact h.clear

/-- `NULL` takes the first free entry, which stays free. -/
theorem Table.enter_null {e e' : Entry} {rest : List Entry} (h : Table l used (e :: rest))
    (he' : e'.id = 0) : Table (used ++ e' :: rest) used (e' :: rest) := by
  constructor
  case split => rfl
  case used_id => exact h.used_id
  case free_id =>
    intro x hx
    rcases List.mem_cons.1 hx with rfl | hx
    · exact he'
    · exact h.free_id x (List.mem_cons_of_mem e hx)
  case clear => exact h.clear

/-- Another identifier takes it. -/
theorem Table.enter {e e' : Entry} {rest : List Entry} (h : Table l used (e :: rest))
    (he' : e'.id ≠ 0) : Table (used ++ e' :: rest) (used ++ [e']) rest := by
  constructor
  case split => rw [List.append_assoc, List.singleton_append]
  case used_id =>
    intro x hx
    rcases List.mem_append.1 hx with hx | hx
    · exact h.used_id x hx
    · rw [List.mem_singleton.1 hx]
      exact he'
  case free_id => exact fun x hx => h.free_id x (List.mem_cons_of_mem e hx)
  case clear => exact fun x hx => h.clear x (List.mem_of_mem_tail hx)

theorem getEntry_append (h : ∀ e ∈ used, e.id ≠ id) :
    getEntry id (used ++ l) = getEntry id l := by
  induction used with
  | nil => rfl
  | cons e used ih =>
    rw [List.cons_append, getEntry, if_neg (h e List.mem_cons_self)]
    exact ih fun x hx => h x (List.mem_cons_of_mem e hx)

/-- An entry is overwritten: only the lookups of its two identifiers change. -/
theorem getEntry_set {before after : List Entry} {e e' : Entry} (h : e.id ≠ id) (h' : e'.id ≠ id) :
    getEntry id (before ++ e :: after) = getEntry id (before ++ e' :: after) := by
  induction before with
  | nil => rw [List.nil_append, List.nil_append, getEntry, getEntry, if_neg h, if_neg h']
  | cons x before ih => rw [List.cons_append, List.cons_append, getEntry, getEntry, ih]

/-- The free entries behind the first one. -/
theorem getEntry_clear (hid : ∀ e ∈ l, e.id = 0) (hextn : ∀ e ∈ l, e.extn = 0) :
    getEntry id l = 0 := by
  induction l with
  | nil => rfl
  | cons e l ih =>
    rw [getEntry]
    split
    · exact hextn e List.mem_cons_self
    · exact ih (fun x hx => hid x (List.mem_cons_of_mem e hx))
        (fun x hx => hextn x (List.mem_cons_of_mem e hx))

end SetEntry

/-! ## The calls -/

/-- The extension of a successful call. -/
def extnOf : Option Success → ℕ
  | none => 0
  | some x => x.extn

/-- What holds between the calls. -/
structure Ok (s : State) (used free : List Entry) : Prop extends
    Table s.extensionList used free where
  keys : ∀ id, id ≠ 0 → ((∃ e ∈ used, e.id = id) ↔ ∃ x ∈ s.successes, x.id = id)
  lookup : ∀ id, getEntry id s.extensionList = extnOf (lastKept id s.successes)
  blocks : ∀ x ∈ s.successes, 1 ≤ x.extn ∧ x.extn ≤ s.blocks
  decreasing : s.successes.Pairwise fun x y => y.extn < x.extn

section Calls

variable {s : State} {used free : List Entry} {id : Pvoid}

/-- A new block is none of the old extensions. -/
theorem Ok.blocks_cons (h : Ok s used free) (driverObject id : Pvoid) :
    (∀ x ∈ (⟨driverObject, id, s.blocks + 1⟩ : Success) :: s.successes,
      1 ≤ x.extn ∧ x.extn ≤ s.blocks + 1) ∧
    ((⟨driverObject, id, s.blocks + 1⟩ : Success) :: s.successes).Pairwise
      fun x y => y.extn < x.extn := by
  constructor
  · intro x hx
    rcases List.mem_cons.1 hx with rfl | hx
    · exact ⟨Nat.succ_pos _, Nat.le_refl _⟩
    · exact ⟨(h.blocks x hx).1, Nat.le_succ_of_le (h.blocks x hx).2⟩
  · exact List.pairwise_cons.2 ⟨fun y hy => Nat.lt_succ_of_le (h.blocks y hy).2, h.decreasing⟩

/-- The identifier is in the table. -/
theorem Ok.overwrite (h : Ok s used free) (hid : id ≠ 0) (hmem : ∃ e ∈ used, e.id = id)
    (driverObject : Pvoid) : ∃ l used', setEntry id (s.blocks + 1) s.extensionList = some l ∧
      Ok ⟨l, s.blocks + 1, ⟨driverObject, id, s.blocks + 1⟩ :: s.successes⟩ used' free := by
  rcases setEntry_used (s.blocks + 1) free hmem h.used_id with
    ⟨before, e, after, rfl, he, hbefore, hset⟩
  refine ⟨_, before ++ ⟨id, s.blocks + 1⟩ :: after, by rw [h.split]; exact hset, ?_⟩
  have hold : ¬ New id s.successes := by
    rcases (h.keys id hid).1 hmem with ⟨x, hx, hxid⟩
    exact fun hnew => hnew x hx hxid
  constructor
  case toTable => exact h.toTable.overwrite hid
  case keys =>
    intro id' hid'
    have hids : (∃ x ∈ before ++ ⟨id, s.blocks + 1⟩ :: after, x.id = id') ↔
        ∃ x ∈ before ++ e :: after, x.id = id' := by
      simp only [List.mem_append, List.mem_cons, or_and_right, exists_or, exists_eq_left, he]
    rw [hids, h.keys id' hid']
    simp only [List.mem_cons, exists_eq_or_imp]
    constructor
    · exact Or.inr
    · rintro (rfl | hx)
      · exact (h.keys _ hid).1 hmem
      · exact hx
  case lookup =>
    intro id'
    show getEntry id' (before ++ ⟨id, s.blocks + 1⟩ :: (after ++ free)) = _
    by_cases heq : id = id'
    · rw [← heq, getEntry_append hbefore, getEntry, if_pos rfl, lastKept, if_pos rfl]
      rfl
    · have hlookup := h.lookup id'
      rw [h.split, List.append_assoc, List.cons_append] at hlookup
      rw [lastKept, if_neg heq, if_neg (fun hnew => hold hnew.2), ← hlookup]
      exact getEntry_set heq (by rw [he]; exact heq)
  case blocks => exact (h.blocks_cons driverObject id).1
  case decreasing => exact (h.blocks_cons driverObject id).2

/-- The first free entry is taken: its lookup, and those of other identifiers but `NULL`. -/
theorem Ok.getEntry_enter {e : Entry} {rest : List Entry} (h : Ok s used (e :: rest))
    (hmem : ∀ e ∈ used, e.id ≠ id) (extn : ℕ) :
    getEntry id (used ++ ⟨id, extn⟩ :: rest) = extn ∧ ∀ id', id ≠ id' → id' ≠ 0 →
      getEntry id' (used ++ ⟨id, extn⟩ :: rest) = extnOf (lastKept id' s.successes) := by
  constructor
  · rw [getEntry_append hmem, getEntry, if_pos rfl]
  · intro id' hne hzero
    rw [← h.lookup id', h.split]
    refine getEntry_set hne ?_
    rw [h.free_id e List.mem_cons_self]
    exact Ne.symm hzero

/-- `NULL` takes it: the entry stays free. -/
theorem Ok.enter_null {e : Entry} {rest : List Entry} (h : Ok s used (e :: rest))
    (driverObject : Pvoid) :
    Ok ⟨used ++ ⟨0, s.blocks + 1⟩ :: rest, s.blocks + 1,
      ⟨driverObject, 0, s.blocks + 1⟩ :: s.successes⟩ used (⟨0, s.blocks + 1⟩ :: rest) := by
  have hblocks := h.blocks_cons driverObject 0
  rcases h.getEntry_enter h.used_id (s.blocks + 1) with ⟨hself, hother⟩
  constructor
  case toTable => exact h.toTable.enter_null rfl
  case keys =>
    intro id' hid'
    rw [h.keys id' hid']
    simp only [List.mem_cons, exists_eq_or_imp]
    constructor
    · exact Or.inr
    · rintro (hzero | hx)
      · exact absurd hzero.symm hid'
      · exact hx
  case lookup =>
    intro id'
    by_cases heq : (0 : Pvoid) = id'
    · rw [← heq, hself, lastKept, if_pos rfl]
      rfl
    · rw [lastKept, if_neg heq, if_neg (fun hnew => heq hnew.1.symm)]
      exact hother id' heq (Ne.symm heq)
  case blocks => exact hblocks.1
  case decreasing => exact hblocks.2

/-- An identifier that is not in the table takes it. -/
theorem Ok.enter {e : Entry} {rest : List Entry} (h : Ok s used (e :: rest)) (hid : id ≠ 0)
    (hmem : ∀ e ∈ used, e.id ≠ id) (driverObject : Pvoid) :
    Ok ⟨used ++ ⟨id, s.blocks + 1⟩ :: rest, s.blocks + 1,
      ⟨driverObject, id, s.blocks + 1⟩ :: s.successes⟩ (used ++ [⟨id, s.blocks + 1⟩]) rest := by
  have hblocks := h.blocks_cons driverObject id
  rcases h.getEntry_enter hmem (s.blocks + 1) with ⟨hself, hother⟩
  have hnew : New id s.successes := by
    intro x hx hxid
    rcases (h.keys id hid).2 ⟨x, hx, hxid⟩ with ⟨e', he', heid⟩
    exact hmem e' he' heid
  constructor
  case toTable => exact h.toTable.enter hid
  case keys =>
    intro id' hid'
    simp only [List.mem_append, or_and_right, exists_or, h.keys id' hid', exists_eq_left,
      List.mem_cons, List.not_mem_nil, or_false]
    exact or_comm
  case lookup =>
    intro id'
    by_cases heq : id = id'
    · rw [← heq, hself, lastKept, if_pos rfl]
      rfl
    · by_cases hzero : id' = 0
      · -- the extension of `NULL` was in this entry
        have hrest : ∀ x ∈ rest, x.id = 0 := fun x hx => h.free_id x (List.mem_cons_of_mem e hx)
        rw [lastKept, if_neg heq, if_pos ⟨hzero, hnew⟩, hzero,
          getEntry_append h.used_id, getEntry, if_neg hid]
        exact getEntry_clear hrest h.clear
      · rw [lastKept, if_neg heq, if_neg (fun h => hzero h.1)]
        exact hother id' heq hzero
  case blocks => exact hblocks.1
  case decreasing => exact hblocks.2

/-- An identifier that is not in the table, or `NULL`. -/
theorem Ok.takeFree (h : Ok s used free) (hmem : ∀ e ∈ used, e.id ≠ id) (hfree : free ≠ [])
    (driverObject : Pvoid) : ∃ l used' free',
      setEntry id (s.blocks + 1) s.extensionList = some l ∧
      Ok ⟨l, s.blocks + 1, ⟨driverObject, id, s.blocks + 1⟩ :: s.successes⟩ used' free' := by
  rcases List.exists_cons_of_ne_nil hfree with ⟨e, rest, rfl⟩
  have hset : setEntry id (s.blocks + 1) s.extensionList =
      some (used ++ ⟨id, s.blocks + 1⟩ :: rest) := by
    rw [h.split, setEntry_free _ hmem h.used_id h.free_id, if_neg hfree]
    rfl
  by_cases hid : id = 0
  · subst hid
    exact ⟨_, _, _, hset, h.enter_null driverObject⟩
  · exact ⟨_, _, _, hset, h.enter hid hmem driverObject⟩

/-- A call keeps what holds, and a call that fails leaves the table alone. -/
theorem Ok.call (h : Ok s used free) (call : Call) :
    (∃ used' free', Ok (ioAllocateDriverObjectExtension call s).2.2 used' free') ∧
      ((ioAllocateDriverObjectExtension call s).1 ≠ statusSuccess →
        (ioAllocateDriverObjectExtension call s).2.2.extensionList = s.extensionList) := by
  unfold ioAllocateDriverObjectExtension
  cases hmemory : call.memory with
  | false =>
    rw [if_neg Bool.false_ne_true]
    exact ⟨⟨used, free, h⟩, fun _ => rfl⟩
  | true =>
    rw [if_pos rfl]
    cases hset : setEntry call.clientIdentificationAddress (s.blocks + 1) s.extensionList with
    | none =>
      refine ⟨⟨used, free, ?_⟩, fun _ => rfl⟩
      exact { h with
        blocks := fun x hx => ⟨(h.blocks x hx).1, Nat.le_succ_of_le (h.blocks x hx).2⟩ }
    | some l =>
      refine ⟨?_, fun hne => absurd rfl hne⟩
      by_cases hmem : ∃ e ∈ used, e.id = call.clientIdentificationAddress
      · have hid : call.clientIdentificationAddress ≠ 0 := by
          rcases hmem with ⟨e, he, heid⟩
          exact heid ▸ h.used_id e he
        rcases h.overwrite hid hmem call.driverObject with ⟨l', used', hset', hok⟩
        rw [hset] at hset'
        cases hset'
        exact ⟨used', free, hok⟩
      · have hne : ∀ e ∈ used, e.id ≠ call.clientIdentificationAddress :=
          fun e he heid => hmem ⟨e, he, heid⟩
        have hfree : free ≠ [] := by
          intro hnil
          rw [h.split, setEntry_free _ hne h.used_id h.free_id, if_pos hnil] at hset
          cases hset
        rcases h.takeFree hne hfree call.driverObject with ⟨l', used', free', hset', hok⟩
        rw [hset] at hset'
        cases hset'
        exact ⟨used', free', hok⟩

theorem ok_run (calls : List Call) : ∃ used free, Ok (run calls) used free := by
  unfold run
  have hinit : ∃ used free, Ok initial used free := by
    refine ⟨[], List.replicate 10 ⟨0, 0⟩, ?_⟩
    constructor
    case toTable =>
      constructor
      case split => rfl
      case used_id => exact fun e he => absurd he List.not_mem_nil
      case free_id =>
        intro e he
        rw [List.eq_of_mem_replicate he]
      case clear =>
        intro e he
        rw [List.eq_of_mem_replicate (List.mem_of_mem_tail he)]
    case keys => simp [initial]
    case lookup =>
      intro id
      refine getEntry_clear ?_ ?_ <;> intro e he <;> rw [List.eq_of_mem_replicate he]
    case blocks => exact fun x hx => absurd hx List.not_mem_nil
    case decreasing => exact List.Pairwise.nil
  generalize initial = s at hinit
  induction calls generalizing s with
  | nil => exact hinit
  | cons call calls ih =>
    rcases hinit with ⟨used, free, hok⟩
    exact ih _ (hok.call call).1

/-- What a lookup finds: the driver does not matter. -/
theorem ioGetDriverObjectExtension_run (calls : List Call) (driverObject id : Pvoid) :
    ioGetDriverObjectExtension driverObject id (run calls) =
      extnOf (lastKept id (run calls).successes) := by
  rcases ok_run calls with ⟨used, free, hok⟩
  exact hok.lookup id

end Calls

/-! ## Whose extension is found -/

/-- The extension of the last successful call for the driver and the identifier. -/
def latest (driverObject id : Pvoid) (successes : List Success) : ℕ :=
  extnOf (successes.find? fun x => x.driverObject = driverObject ∧ x.id = id)

/-- The call that the table keeps is one of the driver, or there is none, and the driver has made
no successful call. -/
def Own (driverObject id : Pvoid) (successes : List Success) : Option Success → Prop
  | some x => x.driverObject = driverObject
  | none => ∀ x ∈ successes, ¬ (x.driverObject = driverObject ∧ x.id = id)

section Latest

variable {driverObject id : Pvoid} {successes : List Success} {x : Success}

/-- The call that is kept is the last one with its identifier. -/
theorem lastKept_some (h : lastKept id successes = some x) : x.id = id ∧
    ∃ newer older, successes = newer ++ x :: older ∧ ∀ y ∈ newer, y.id ≠ id := by
  induction successes with
  | nil => cases h
  | cons y older ih =>
    rw [lastKept] at h
    by_cases hy : y.id = id
    · rw [if_pos hy] at h
      cases h
      exact ⟨hy, [], older, rfl, fun z hz => absurd hz List.not_mem_nil⟩
    · rw [if_neg hy] at h
      by_cases hnew : id = 0 ∧ New y.id older
      · rw [if_pos hnew] at h
        cases h
      · rw [if_neg hnew] at h
        rcases ih h with ⟨hid, newer, rest, rfl, hnewer⟩
        refine ⟨hid, y :: newer, rest, rfl, ?_⟩
        intro z hz
        rcases List.mem_cons.1 hz with rfl | hz
        · exact hy
        · exact hnewer z hz

/-- A call of the driver with the identifier is found. -/
theorem latest_eq_zero (hpos : ∀ x ∈ successes, 1 ≤ x.extn) :
    latest driverObject id successes = 0 ↔
      ∀ x ∈ successes, ¬ (x.driverObject = driverObject ∧ x.id = id) := by
  unfold latest
  cases hfind : successes.find? fun x => x.driverObject = driverObject ∧ x.id = id with
  | none =>
    refine iff_of_true rfl ?_
    simpa using hfind
  | some y =>
    have hy := List.mem_of_find?_eq_some hfind
    have hmatch := List.find?_some hfind
    refine iff_of_false (Nat.ne_of_gt (hpos y hy)) ?_
    exact fun h => h y hy (by simpa using hmatch)

theorem latest_iff (hpos : ∀ x ∈ successes, 1 ≤ x.extn)
    (hdecreasing : successes.Pairwise fun x y => y.extn < x.extn) :
    extnOf (lastKept id successes) = latest driverObject id successes ↔
      Own driverObject id successes (lastKept id successes) := by
  cases hkept : lastKept id successes with
  | none =>
    rw [Own, ← latest_eq_zero hpos]
    exact eq_comm
  | some x =>
    rcases lastKept_some hkept with ⟨hid, newer, older, hsplit, hnewer⟩
    have hpass : ∀ y ∈ newer, ¬ (y.driverObject = driverObject ∧ y.id = id) :=
      fun y hy h => hnewer y hy h.2
    have hfind : successes.find? (fun y => y.driverObject = driverObject ∧ y.id = id) =
        (x :: older).find? fun y => y.driverObject = driverObject ∧ y.id = id := by
      rw [hsplit, List.find?_append, List.find?_eq_none.2 (by simpa using hpass), Option.none_or]
    rw [Own, latest, hfind]
    by_cases hdriver : x.driverObject = driverObject
    · refine iff_of_true ?_ hdriver
      rw [List.find?_cons_of_pos (by simp [hdriver, hid])]
    · -- any call of the driver has made another extension
      refine iff_of_false ?_ hdriver
      rw [List.find?_cons_of_neg (by simp [hdriver])]
      have hmem : x ∈ successes := by
        rw [hsplit]
        exact List.mem_append_right _ List.mem_cons_self
      cases hold : older.find? fun y => y.driverObject = driverObject ∧ y.id = id with
      | none => exact Nat.ne_of_gt (hpos x hmem)
      | some y =>
        rw [hsplit, List.pairwise_append] at hdecreasing
        have hlt := (List.pairwise_cons.1 hdecreasing.2.1).1 y (List.mem_of_find?_eq_some hold)
        exact Nat.ne_of_gt hlt

end Latest

/-- **Driver object extensions.** -/
theorem extension_iff (calls : List Call) (driverObject id : Pvoid) :
    (ioGetDriverObjectExtension driverObject id (run calls) =
        latest driverObject id (run calls).successes ↔
      Own driverObject id (run calls).successes (lastKept id (run calls).successes)) ∧
    ∀ call, (ioAllocateDriverObjectExtension call (run calls)).1 ≠ statusSuccess →
      ∀ driverObject' id',
        ioGetDriverObjectExtension driverObject' id'
            (ioAllocateDriverObjectExtension call (run calls)).2.2 =
          ioGetDriverObjectExtension driverObject' id' (run calls) := by
  rcases ok_run calls with ⟨used, free, hok⟩
  constructor
  · rw [ioGetDriverObjectExtension_run]
    exact latest_iff (fun x hx => (hok.blocks x hx).1) hok.decreasing
  · intro call hfailed driverObject' id'
    rw [ioGetDriverObjectExtension, ioGetDriverObjectExtension, (hok.call call).2 hfailed]

/-- A driver that asks for its own extension. -/
theorem extension_iff_own :
    ioGetDriverObjectExtension 1 5 (run [⟨1, 5, true⟩, ⟨2, 6, true⟩]) =
      latest 1 5 (run [⟨1, 5, true⟩, ⟨2, 6, true⟩]).successes :=
  (extension_iff [⟨1, 5, true⟩, ⟨2, 6, true⟩] 1 5).1.2 (show (1 : Pvoid) = 1 from rfl)

/-- The driver 1 allocates an extension with the identifier 5: the driver 2, which has none,
gets it. -/
theorem extension_shared : ¬ ∀ calls driverObject id,
    ioGetDriverObjectExtension driverObject id (run calls) =
      latest driverObject id (run calls).successes := by
  intro hall
  exact absurd (hall [⟨1, 5, true⟩] 2 5) (by decide)

end Wdutf.Io.DriverExtension
