import Mathlib.Data.List.Count
import Mathlib.Data.List.Range
import Mathlib.Tactic.Common
import Wdutf.Lib.Transition
import Wdutf.Ob.Symlink

/-!
# Wdutf.Ob.Links — the life of symbolic links over whole runs

Any sequence of creations and deletions of links, with opens by their names and
closes in between. The creator's reference on a link, the one of its name and the
ones of the lookups are taken and released in different routines:

* `Inv` — a link with a name has two references at least, a link without one has
  one at least, and every open file has its reference on its device;
* `links_balance` — so there is one live link for each link name, and one more for
  each deletion of a link in the run.
-/

namespace Wdutf.Ob.Links

open Wdutf.Action Wdutf.Keyed Wdutf.Rtl Wdutf.Transition

/-! ## Steps -/

/-- The calls of a run. -/
inductive Event where
  | createSymbolicLink (memory : Bool) (symbolicLinkName deviceName : UnicodeString)
  | deleteSymbolicLink (symbolicLinkName : UnicodeString)
  | createFileEx (memory : Bool) (objectAttributes : Option ObjectAttributes)
      (ioStatusBlock : Bool) (options : UInt32)
  | close (file : ObjId)

/-- The action of a call, with the handle that it returns. -/
def perform (ddkIoCreateFile : UnicodeString → ObM FileReply) : Event → ObM (Option ObjId)
  | .createSymbolicLink memory symbolicLinkName deviceName => do
    let _ ← ioCreateSymbolicLink memory symbolicLinkName deviceName
    pure none
  | .deleteSymbolicLink symbolicLinkName => do
    let _ ← ioDeleteSymbolicLink symbolicLinkName
    pure none
  | .createFileEx memory objectAttributes ioStatusBlock options => do
    pure (← ioCreateFileEx ddkIoCreateFile memory objectAttributes ioStatusBlock
      options).fileHandle
  | .close file => do
    let _ ← zwClose file
    pure none

/-- The state, and the files that are open with the devices they are on. -/
structure World where
  state : State
  files : List (ObjId × ObjId)

/-- The device of a file. -/
def deviceOf (s : State) (file : ObjId) : Option ObjId :=
  match s.objects file with
  | some ⟨_, .file (some device)⟩ => some device
  | _ => none

/-- The open files after a call that has returned a handle in the state `t`. -/
def filesAfter (files : List (ObjId × ObjId)) (t : State) : Event → Option ObjId →
    List (ObjId × ObjId)
  | .close file, _ => files.filter fun x => x.1 != file
  | _, none => files
  | _, some file => ((deviceOf t file).map (file, ·)).toList ++ files

/-- The condition on a call: opens are by the names of devices and links, and only open
files are closed. -/
def Permitted (w : World) : Event → Prop
  | .createFileEx _ objectAttributes _ _ =>
    ∀ attributes ∈ objectAttributes, ∀ name ∈ attributes.objectName, ddkIsFilePath name = false
  | .close file => file ∈ w.files.map (·.1)
  | _ => True

/-- The call is the deletion of a name that denotes a link. -/
def deletesLink (s : State) : Event → Bool
  | .deleteSymbolicLink symbolicLinkName =>
    (s.findLive (canonicalPath symbolicLinkName [])).any s.isLink
  | _ => false

/-- There are no links yet, and no open files. -/
def Init (w : World) : Prop :=
  Table w.state ∧ (∀ o, w.state.isLink o = false) ∧ w.files = []

/-- A call that returns. The label has the call, and whether it deletes a link. -/
structure Step (ddkIoCreateFile : UnicodeString → ObM FileReply) (w : World)
    (l : Event × Bool) (w' : World) : Prop where
  permitted : Permitted w l.1
  deletes : l.2 = deletesLink w.state l.1
  run : ∃ handle, perform ddkIoCreateFile l.1 w.state = .ok handle w'.state ∧
    w'.files = filesAfter w.files w'.state l.1 handle

/-- The number of live links. -/
def liveLinks (s : State) : ℕ :=
  (List.range s.nextObject).countP fun o => s.isLink o && s.isLive o

/-- The number of names of links in the table. -/
def linkNames (s : State) : ℕ := s.ddkNameList.countP fun e => s.isLink e.object

/-! ## The invariant -/

/-- Every link has the references that its creator and its name stand for. -/
def LinkRefs (s : State) : Prop :=
  ∀ o rc destination enabled, s.objects o = some ⟨rc, .symlink destination enabled⟩ →
    1 ≤ rc ∧ (¬ Unnamed s o → 2 ≤ rc)

/-- Every open file is there, and its device has a reference for each file on it and one more. -/
def FileRefs (s : State) (files : List (ObjId × ObjId)) : Prop :=
  (files.map (·.1)).Nodup ∧
  ∀ x ∈ files, s.objects x.1 = some ⟨1, .file (some x.2)⟩ ∧ Unnamed s x.1 ∧
    ∃ rc driver next, s.objects x.2 = some ⟨rc, .device driver next⟩ ∧
      1 + ((files.map (·.2)).count x.2 : ℤ) ≤ rc

/-- The links that the heap has beyond the names of links. -/
structure Inv (deleted : ℕ) (w : World) : Prop where
  table : Table w.state
  links : LinkRefs w.state
  files : FileRefs w.state w.files
  count : (List.range w.state.nextObject).countP w.state.isLink = linkNames w.state + deleted

/-- A link is live as long as it is there. -/
theorem liveLinks_eq {s : State} (h : LinkRefs s) :
    liveLinks s = (List.range s.nextObject).countP s.isLink := by
  apply List.countP_congr
  intro o _
  rw [Bool.and_eq_true]
  refine ⟨fun hlive => hlive.1, fun hlink => ⟨hlink, ?_⟩⟩
  rcases isLink_iff.1 hlink with ⟨rc, destination, enabled, hob⟩
  have hpos := (h o rc destination enabled hob).1
  exact isLive_iff.2 ⟨_, hob, by show rc ≠ 0; omega⟩

theorem init_inv {w : World} (h : Init w) : Inv 0 w := by
  rcases h with ⟨htable, hnone, hfiles⟩
  constructor
  case table => exact htable
  case links =>
    intro o rc destination enabled hob
    have hlink := isLink_iff.2 ⟨rc, destination, enabled, hob⟩
    rw [hnone o] at hlink
    cases hlink
  case files => simp [FileRefs, hfiles]
  case count => simp [linkNames, hnone]

/-! ## Steps that leave the links alone -/

/-- From `s` to `t` there are the same names and links, and no link has lost a reference. -/
structure SameLinks (s t : State) : Prop where
  names : t.ddkNameList = s.ddkNameList
  nextObject : s.nextObject ≤ t.nextObject
  kept : ∀ o, s.isLink o = true → t.isLink o = true
  refs : ∀ o rc destination enabled, t.objects o = some ⟨rc, .symlink destination enabled⟩ →
    ∃ rc₀, rc₀ ≤ rc ∧ s.objects o = some ⟨rc₀, .symlink destination enabled⟩

section SameLinks

variable {s t : State} {o : ObjId} {deleted : ℕ}

theorem SameLinks.isLink (h : SameLinks s t) (o : ObjId) : t.isLink o = s.isLink o := by
  rw [Bool.eq_iff_iff]
  refine ⟨fun hlink => ?_, h.kept o⟩
  rcases isLink_iff.1 hlink with ⟨rc, destination, enabled, hob⟩
  rcases h.refs o rc destination enabled hob with ⟨rc₀, -, hob₀⟩
  exact isLink_iff.2 ⟨rc₀, destination, enabled, hob₀⟩

theorem SameLinks.linkRefs (h : SameLinks s t) (hrefs : LinkRefs s) : LinkRefs t := by
  intro o rc destination enabled hob
  rcases h.refs o rc destination enabled hob with ⟨rc₀, hle, hob₀⟩
  rcases hrefs o rc₀ destination enabled hob₀ with ⟨hone, htwo⟩
  refine ⟨by omega, fun hnamed => ?_⟩
  have hold : 2 ≤ rc₀ := by
    apply htwo
    rwa [Unnamed, h.names] at hnamed
  omega

/-- Addresses that are not used yet count for nothing. -/
theorem countP_range {p : ℕ → Bool} {n m : ℕ} (hle : n ≤ m) (hp : ∀ o, n ≤ o → p o = false) :
    (List.range m).countP p = (List.range n).countP p := by
  induction m, hle using Nat.le_induction with
  | base => rfl
  | succ m hle ih => simp [List.range_succ, ih, hp m hle]

theorem isLink_unused (h : Table s) (ho : s.nextObject ≤ o) : s.isLink o = false := by
  rw [Bool.eq_false_iff]
  intro hlink
  rcases isLink_iff.1 hlink with ⟨rc, destination, enabled, hob⟩
  exact absurd (h.heap o (by rw [hob]; simp)) (Nat.not_lt.2 ho)

theorem SameLinks.count (h : SameLinks s t) (htable : Table s)
    (hcount : (List.range s.nextObject).countP s.isLink = linkNames s + deleted) :
    (List.range t.nextObject).countP t.isLink = linkNames t + deleted := by
  have hlinks : t.isLink = s.isLink := funext h.isLink
  rw [linkNames, h.names, hlinks, countP_range h.nextObject fun o ho => isLink_unused htable ho,
    hcount, linkNames]

theorem sameLinks_addRefs {f : ObjId → ℤ} (hf : ∀ o, s.isLink o = true → 0 ≤ f o) :
    SameLinks s (s.addRefs f) := by
  refine ⟨rfl, Nat.le_refl _, ?_, ?_⟩
  · intro o hlink
    rcases isLink_iff.1 hlink with ⟨rc, destination, enabled, hob⟩
    exact isLink_iff.2 ⟨_, destination, enabled, addRefs_some hob⟩
  · intro o rc destination enabled hob
    rcases Option.map_eq_some_iff.1 hob with ⟨⟨rc₀, body⟩, hob₀, heq⟩
    injection heq with hrc hbody
    subst hbody
    refine ⟨rc₀, ?_, hob₀⟩
    have hnonneg := hf o (isLink_iff.2 ⟨rc₀, destination, enabled, hob₀⟩)
    simp only at hrc
    omega

theorem sameLinks_freed (ho : s.isLink o = false) : SameLinks s (s.freed o) := by
  refine ⟨rfl, Nat.le_refl _, ?_, ?_⟩
  · intro x hlink
    have hx : x ≠ o := by
      rintro rfl
      rw [ho] at hlink
      cases hlink
    rw [State.isLink, freed_of_ne s hx]
    exact hlink
  · intro x rc destination enabled hob
    by_cases hx : x = o
    · rw [hx, freed_self] at hob
      cases hob
    · rw [freed_of_ne s hx] at hob
      exact ⟨rc, le_refl rc, hob⟩

theorem sameLinks_collided (s : State) : SameLinks s s.collided :=
  ⟨rfl, Nat.le_succ _, fun _ hlink => hlink, fun _ rc _ _ hob => ⟨rc, le_refl rc, hob⟩⟩

/-- An allocation of something else than a link. -/
theorem sameLinks_allocated (h : Table s) {body : Body}
    (hbody : ∀ destination enabled, body ≠ .symlink destination enabled) :
    SameLinks s (s.allocated body) := by
  refine ⟨rfl, Nat.le_succ _, ?_, ?_⟩
  · intro x hlink
    rcases isLink_iff.1 hlink with ⟨rc, destination, enabled, hob⟩
    refine isLink_iff.2 ⟨rc, destination, enabled, ?_⟩
    rw [allocated_of_ne s body (h.ne_fresh hob), hob]
  · intro x rc destination enabled hob
    by_cases hx : x = s.nextObject
    · rw [hx, allocated_self] at hob
      injection Option.some.inj hob with _ heq
      exact absurd heq (hbody destination enabled)
    · rw [allocated_of_ne s body hx] at hob
      exact ⟨rc, le_refl rc, hob⟩

theorem SameLinks.trans {u : State} (h : SameLinks s t) (h' : SameLinks t u) : SameLinks s u := by
  refine ⟨h'.names.trans h.names, h.nextObject.trans h'.nextObject,
    fun o hlink => h'.kept o (h.kept o hlink), ?_⟩
  intro o rc destination enabled hob
  rcases h'.refs o rc destination enabled hob with ⟨rc₁, hle₁, hob₁⟩
  rcases h.refs o rc₁ destination enabled hob₁ with ⟨rc₀, hle₀, hob₀⟩
  exact ⟨rc₀, by omega, hob₀⟩

end SameLinks

/-! ## Open files -/

section Files

variable {s t : State} {files : List (ObjId × ObjId)}

/-- Files stay open when they and their devices do not lose anything. -/
theorem FileRefs.frame (h : FileRefs s files)
    (hfile : ∀ x ∈ files, t.objects x.1 = s.objects x.1)
    (hunnamed : ∀ x ∈ files, Unnamed s x.1 → Unnamed t x.1)
    (hdevice : ∀ x ∈ files, ∀ rc driver next, s.objects x.2 = some ⟨rc, .device driver next⟩ →
      ∃ rc', rc ≤ rc' ∧ t.objects x.2 = some ⟨rc', .device driver next⟩) : FileRefs t files := by
  refine ⟨h.1, fun x hx => ?_⟩
  rcases h.2 x hx with ⟨hob, hun, rc, driver, next, hdev, hle⟩
  rcases hdevice x hx rc driver next hdev with ⟨rc', hle', hdev'⟩
  exact ⟨(hfile x hx).trans hob, hunnamed x hx hun, rc', driver, next, hdev', by omega⟩

/-- A lookup finds no open file. -/
theorem FileRefs.not_found (h : FileRefs s files) {x : ObjId × ObjId} (hx : x ∈ files)
    (path : UnicodeString) : refOn (s.findLive path) x.1 = 0 := by
  cases hfind : s.findLive path with
  | none => rfl
  | some o =>
    rcases findLive_some hfind with ⟨e, he, rfl, -⟩
    exact refOn_of_ne ((h.2 x hx).2.1 e he).symm

theorem FileRefs.refOn (h : FileRefs s files) (path : UnicodeString) :
    FileRefs (s.addRefs (refOn (s.findLive path))) files := by
  refine h.frame ?_ (fun _ _ hun => hun) ?_
  · exact fun x hx => addRefs_of_zero (h.not_found hx path)
  · intro x _ rc driver next hdev
    exact ⟨_, Int.le_add_of_nonneg_right (refOn_nonneg _ x.2), addRefs_some hdev⟩

theorem FileRefs.lt (h : FileRefs s files) (htable : Table s) {x : ObjId × ObjId} (hx : x ∈ files) :
    x.1 ≠ s.nextObject ∧ x.2 ≠ s.nextObject := by
  rcases h.2 x hx with ⟨hob, -, rc, driver, next, hdev, -⟩
  exact ⟨htable.ne_fresh hob, htable.ne_fresh hdev⟩

theorem FileRefs.allocated (h : FileRefs s files) (htable : Table s) (body : Body) :
    FileRefs (s.allocated body) files := by
  refine h.frame ?_ (fun _ _ hun => hun) ?_
  · exact fun x hx => allocated_of_ne s body (h.lt htable hx).1
  · intro x hx rc driver next hdev
    exact ⟨rc, le_refl rc, (allocated_of_ne s body (h.lt htable hx).2).trans hdev⟩

/-- A live device has a reference besides those of its files. -/
theorem FileRefs.count_lt (h : FileRefs s files) {device driver : ObjId} {next : Option ObjId}
    {rc : ℤ} (hob : s.objects device = some ⟨rc, .device driver next⟩) (hpos : 1 ≤ rc) :
    1 + ((files.map (·.2)).count device : ℤ) ≤ rc := by
  by_cases hmem : device ∈ files.map (·.2)
  · rcases List.mem_map.1 hmem with ⟨x, hx, rfl⟩
    rcases (h.2 x hx).2.2 with ⟨rc', driver', next', hob', hle⟩
    rw [hob] at hob'
    injection Option.some.inj hob' with hrc
    omega
  · rw [List.count_eq_zero_of_not_mem hmem]
    omega

/-- A device gets a reference, and a file on it is opened. -/
theorem FileRefs.opened (h : FileRefs s files) (htable : Table s) {device : ObjId}
    {path : UnicodeString} (hfind : s.findLive path = some device)
    (hdevice : s.isDevice device = true) :
    FileRefs (s.opened device) ((s.nextObject, device) :: files) := by
  rcases isDevice_iff.1 hdevice with ⟨rc, driver, next, hob⟩
  have hpos := htable.findLive_pos hfind hob
  have hcount := h.count_lt hob hpos
  have hopened : (s.opened device).objects device = some ⟨rc + 1, .device driver next⟩ := by
    rw [State.opened, allocated_of_ne (s.addRefs _) _ (htable.ne_fresh hob), addRefs_some hob,
      refOn_self]
  have hold : FileRefs (s.opened device) files :=
    (hfind ▸ h.refOn path).allocated (htable.refOn (some device)) (.file (some device))
  -- the device has the reference of the new file
  have hnew : 1 + (((s.nextObject, device) :: files).map (·.2)).count device ≤ rc + 1 := by
    rw [List.map_cons, List.count_cons_self]
    omega
  refine ⟨?_, fun x hx => ?_⟩
  · rw [List.map_cons, List.nodup_cons]
    refine ⟨fun hmem => ?_, h.1⟩
    rcases List.mem_map.1 hmem with ⟨x, hx, heq⟩
    exact (h.lt htable hx).1 heq
  · rcases List.mem_cons.1 hx with rfl | hx
    · exact ⟨allocated_self .., htable.unnamed_fresh, rc + 1, driver, next, hopened, hnew⟩
    · rcases hold.2 x hx with ⟨hfile, hun, rc', driver', next', hdev, hle⟩
      refine ⟨hfile, hun, ?_⟩
      by_cases hxd : x.2 = device
      · rw [hxd]
        exact ⟨rc + 1, driver, next, hopened, hnew⟩
      · refine ⟨rc', driver', next', hdev, ?_⟩
        rw [List.map_cons, List.count_cons_of_ne (Ne.symm hxd)]
        exact hle

/-- A file is closed, and its device loses a reference. -/
theorem FileRefs.closed {before after : List (ObjId × ObjId)} {file device : ObjId}
    (h : FileRefs s (before ++ (file, device) :: after)) :
    FileRefs ((s.addRefs (Pi.single device (-1))).freed file) (before ++ after) := by
  have hsub : (before ++ after).Sublist (before ++ (file, device) :: after) :=
    (List.Sublist.refl before).append (List.sublist_cons_self _ after)
  have hfile : s.objects file = some ⟨1, .file (some device)⟩ := (h.2 (file, device) (by simp)).1
  refine ⟨h.1.sublist (hsub.map _), fun x hx => ?_⟩
  rcases h.2 x (hsub.subset hx) with ⟨hob, hun, rc, driver, next, hdev, hle⟩
  have hxfile : x.1 ≠ file := by
    have hkeys : ((before ++ (file, device) :: after).map Prod.fst).Nodup := h.1
    rcases List.mem_append.1 hx with hx | hx
    · exact before_ne hkeys x hx
    · exact after_ne hkeys x hx
  have hxdev : x.2 ≠ file := by
    intro heq
    rw [heq, hfile] at hdev
    cases hdev
  refine ⟨?_, hun, ?_⟩
  · -- a file is not the device of another one
    have hne : x.1 ≠ device := by
      rcases (h.2 (file, device) (by simp)).2.2 with ⟨rc', driver', next', hdevice, -⟩
      intro heq
      rw [heq, hdevice] at hob
      cases hob
    rw [freed_of_ne _ hxfile, addRefs_of_zero (Pi.single_eq_of_ne hne _), hob]
  · rw [freed_of_ne _ hxdev]
    rw [List.map_append, List.map_cons, List.count_append, List.count_cons] at hle
    rw [List.map_append, List.count_append]
    refine ⟨_, driver, next, addRefs_some hdev, ?_⟩
    by_cases hxd : x.2 = device
    · rw [hxd, Pi.single_eq_same]
      rw [hxd] at hle
      simp only [beq_self_eq_true, if_true] at hle
      push_cast at hle ⊢
      omega
    · rw [Pi.single_eq_of_ne hxd]
      push_cast at hle ⊢
      split at hle <;> omega

end Files

/-! ## The steps -/

section Steps

variable {s t : State} {files : List (ObjId × ObjId)} {deleted : ℕ}

/-- A step that leaves the links alone. -/
theorem Inv.same (h : Inv deleted ⟨s, files⟩) {files' : List (ObjId × ObjId)} (htable : Table t)
    (hsame : SameLinks s t) (hfiles : FileRefs t files') : Inv deleted ⟨t, files'⟩ :=
  ⟨htable, hsame.linkRefs h.links, hfiles, hsame.count h.table h.count⟩

theorem Inv.collided (h : Inv deleted ⟨s, files⟩) : Inv deleted ⟨s.collided, files⟩ :=
  h.same h.table.collided (sameLinks_collided s) (h.files.frame (fun _ _ => rfl)
    (fun _ _ hun => hun) fun _ _ rc _ _ hdev => ⟨rc, le_refl rc, hdev⟩)

/-- A lookup whose reference is not given back. -/
theorem Inv.refOn (h : Inv deleted ⟨s, files⟩) (path : UnicodeString) :
    Inv deleted ⟨s.addRefs (refOn (s.findLive path)), files⟩ :=
  h.same (h.table.refOn _) (sameLinks_addRefs fun o _ => refOn_nonneg _ o) (h.files.refOn path)

/-- The creation of a link. -/
theorem Inv.linked (h : Inv deleted ⟨s, files⟩) {name deviceName : UnicodeString}
    (hdestination : PathFits deviceName []) :
    Inv deleted ⟨s.linked name deviceName, files⟩ := by
  have hnew : (s.linked name deviceName).objects s.nextObject =
      some ⟨2, .symlink (wcs deviceName) true⟩ := named_self ..
  have hold : ∀ o, o ≠ s.nextObject → (s.linked name deviceName).objects o = s.objects o :=
    fun o ho => (named_of_ne _ _ _ ho).trans (allocated_of_ne s _ ho)
  have hlink : ∀ o, o ≠ s.nextObject → (s.linked name deviceName).isLink o = s.isLink o :=
    fun o ho => by rw [State.isLink, State.isLink, hold o ho]
  have hnewLink : (s.linked name deviceName).isLink s.nextObject = true :=
    isLink_iff.2 ⟨_, _, _, hnew⟩
  have hunnamed : ∀ o, o ≠ s.nextObject → (Unnamed (s.linked name deviceName) o ↔ Unnamed s o) := by
    intro o ho
    refine ⟨fun hun e he => hun e (List.mem_cons_of_mem _ he), fun hun e he => ?_⟩
    rcases List.mem_cons.1 he with rfl | he
    · exact ho.symm
    · exact hun e he
  constructor
  case table => exact h.table.linked hdestination
  case links =>
    intro o rc destination enabled hob
    by_cases ho : o = s.nextObject
    · rw [ho, hnew] at hob
      injection Option.some.inj hob with hrc
      omega
    · rw [hold o ho] at hob
      rw [hunnamed o ho]
      exact h.links o rc destination enabled hob
  case files =>
    refine h.files.frame ?_ ?_ ?_
    · exact fun x hx => hold _ (h.files.lt h.table hx).1
    · exact fun x hx hun => (hunnamed _ (h.files.lt h.table hx).1).2 hun
    · exact fun x hx rc _ _ hdev => ⟨rc, le_refl rc, (hold _ (h.files.lt h.table hx).2).trans hdev⟩
  case count =>
    -- the new link and its name count for one each
    have hrange : (List.range s.nextObject).countP (s.linked name deviceName).isLink =
        (List.range s.nextObject).countP s.isLink := by
      apply List.countP_congr
      intro o ho
      rw [hlink o (Nat.ne_of_lt (List.mem_range.1 ho))]
    have hnames : s.ddkNameList.countP (fun e => (s.linked name deviceName).isLink e.object) =
        linkNames s := by
      apply List.countP_congr
      intro e he
      rw [hlink e.object (h.table.listed_ne he)]
    have hobjects : (List.range (s.nextObject + 1)).countP (s.linked name deviceName).isLink =
        (List.range s.nextObject).countP s.isLink + 1 := by
      rw [List.range_succ, List.countP_append, hrange, List.countP_singleton, if_pos hnewLink]
    have hentries : linkNames (s.linked name deviceName) = linkNames s + 1 := by
      have hcons := List.countP_cons_of_pos (l := s.ddkNameList)
        (a := ⟨s.nextName, s.nextObject, canonicalPath name []⟩)
        (p := fun e => (s.linked name deviceName).isLink e.object) hnewLink
      rwa [hnames] at hcons
    have hcount : (List.range s.nextObject).countP s.isLink = linkNames s + deleted := h.count
    refine hobjects.trans ?_
    rw [hentries]
    omega

/-- The deletion of a link. -/
theorem Inv.linkDeleted (h : Inv deleted ⟨s, files⟩) {o : ObjId} {path : UnicodeString}
    (hfind : s.findLive path = some o) (hlink : s.isLink o = true) (hdel : LinkDeleted o s t) :
    Inv (deleted + 1) ⟨t, files⟩ := by
  rcases isLink_iff.1 hlink with ⟨rc, destination, enabled, hob⟩
  rcases findLive_some hfind with ⟨e, he, heo, -⟩
  have hnamed : ¬ Unnamed s o := fun hun => hun e he heo
  have hrc : 2 ≤ rc := (h.links o rc destination enabled hob).2 hnamed
  have hleft : t.objects o = some ⟨rc - 1, .symlink destination enabled⟩ := by
    rw [hdel.link, hob]
    show dropRef _ = _
    rw [dropRef, if_neg (by show rc ≠ 1; omega)]
  have hgone : Unnamed t o := by
    intro x hx
    rw [hdel.names, List.mem_filter] at hx
    simpa using hx.2
  have hisLink : ∀ x, t.isLink x = s.isLink x := by
    intro x
    by_cases hx : x = o
    · rw [hx, hlink]
      exact isLink_iff.2 ⟨_, _, _, hleft⟩
    · rw [State.isLink, State.isLink, hdel.others x hx]
  constructor
  case table => exact hdel.table h.table
  case links =>
    intro x rcx destinationx enabledx hobx
    by_cases hx : x = o
    · rw [hx, hleft] at hobx
      injection Option.some.inj hobx with hrcx
      exact ⟨by omega, fun hnamedx => absurd hgone (hx ▸ hnamedx)⟩
    · rw [hdel.others x hx] at hobx
      rcases h.links x rcx destinationx enabledx hobx with ⟨hone, htwo⟩
      refine ⟨hone, fun hnamedx => htwo fun hun => hnamedx fun e he => ?_⟩
      rw [hdel.names] at he
      exact hun e (List.mem_of_mem_filter he)
  case files =>
    have hne : ∀ x ∈ files, x.1 ≠ o ∧ x.2 ≠ o := by
      intro x hx
      rcases h.files.2 x hx with ⟨hfile, -, rcd, driver, next, hdev, -⟩
      constructor
      · intro heq
        rw [heq, hob] at hfile
        cases hfile
      · intro heq
        rw [heq, hob] at hdev
        cases hdev
    refine h.files.frame ?_ ?_ ?_
    · exact fun x hx => hdel.others _ (hne x hx).1
    · intro x hx hun e he
      rw [hdel.names] at he
      exact hun e (List.mem_of_mem_filter he)
    · intro x hx rcd _ _ hdev
      exact ⟨rcd, le_refl rcd, (hdel.others _ (hne x hx).2).trans hdev⟩
  case count =>
    -- one entry of the table goes, the only one of the link
    have hentry : s.ddkNameList.countP (fun e => s.isLink e.object) =
        (s.ddkNameList.filter (fun e => e.object != o)).countP (fun e => s.isLink e.object) +
          1 := by
      rcases List.append_of_mem he with ⟨before, after, hsplit⟩
      have hnodup := h.table.objects
      simp only [hsplit] at hnodup ⊢
      have hbefore := before_ne hnodup
      have hafter := after_ne hnodup
      rw [heo] at hbefore hafter
      rw [List.filter_append, List.filter_cons_of_neg (by simp [heo]),
        List.filter_eq_self.2 (by simpa using hbefore),
        List.filter_eq_self.2 (by simpa using hafter), List.countP_append, List.countP_append,
        List.countP_cons_of_pos (by rw [heo]; exact hlink)]
      omega
    have hcount := h.count
    have hlinks : t.isLink = s.isLink := funext hisLink
    simp only [linkNames] at hcount ⊢
    rw [hdel.same.nextObject, hdel.names, hlinks]
    omega

/-- The close of an open file. -/
theorem Inv.closed (h : Inv deleted ⟨s, files⟩) {file : ObjId} (hmem : file ∈ files.map (·.1))
    {valid : Bool} (hrun : zwClose file s = .ok valid t) :
    Inv deleted ⟨t, files.filter fun x => x.1 != file⟩ := by
  rcases List.mem_map.1 hmem with ⟨⟨_, device⟩, hx, rfl⟩
  rcases List.append_of_mem hx with ⟨before, after, rfl⟩
  rename_i file
  rcases h.files.2 _ hx with ⟨hfile, hun, rc, driver, next, hdev, hle⟩
  replace hfile : s.objects file = some ⟨1, .file (some device)⟩ := hfile
  replace hdev : s.objects device = some ⟨rc, .device driver next⟩ := hdev
  have hpos : 2 ≤ rc := by
    rw [List.map_append, List.map_cons, List.count_append, List.count_cons_self] at hle
    push_cast at hle
    omega
  -- the last reference on the file goes, and with it the one on the device
  have hderef : obfDereferenceObject file s =
      .ok () ((s.addRefs (Pi.single device (-1))).freed file) := by
    rw [obfDereferenceObject, bind_ok (fromPointer_ok hfile (by simp))]
    exact dereferenceFile hfile hdev hpos h.table.addrs hun
  have hclose : zwClose file s = .ok true ((s.addRefs (Pi.single device (-1))).freed file) := by
    rw [zwClose, bind_ok (getObject_ok hfile),
      if_pos (show isHandleObject ⟨1, .file (some device)⟩ = true from rfl), bind_ok hderef]
    rfl
  rcases result_eq hclose hrun with ⟨-, rfl⟩
  have hfilter : (before ++ (file, device) :: after).filter (fun x => x.1 != file) =
      before ++ after := by
    have hkeys : ((before ++ (file, device) :: after).map Prod.fst).Nodup := h.files.1
    have hbefore := before_ne hkeys
    have hafter := after_ne hkeys
    rw [List.filter_append, List.filter_cons_of_neg (by simp),
      List.filter_eq_self.2 (by simpa using hbefore), List.filter_eq_self.2 (by simpa using hafter)]
  rw [hfilter]
  have hnotLink : ∀ {o}, s.isLink o = true → o ≠ device ∧ o ≠ file := by
    intro o hlink
    rcases isLink_iff.1 hlink with ⟨rcl, destination, enabled, hob⟩
    constructor
    · rintro rfl
      rw [hdev] at hob
      cases hob
    · rintro rfl
      rw [hfile] at hob
      cases hob
  refine h.same ?_ (SameLinks.trans (t := s.addRefs (Pi.single device (-1))) ?_ ?_) h.files.closed
  · refine Table.freed (h.table.addRef hdev ?_) hun
    show 0 ≤ rc + -1
    omega
  · exact sameLinks_addRefs fun o hlink => by rw [Pi.single_eq_of_ne (hnotLink hlink).1]
  · apply sameLinks_freed
    simp [State.isLink, addRefs_some hfile]

/-- An open, whatever comes of it. -/
theorem Inv.opened (h : Inv deleted ⟨s, files⟩) {memory : Bool} {name : UnicodeString}
    {options : UInt32} {reply : FileReply}
    (hrun : ddkIoCreateDevice memory name options s = .ok reply t) :
    Inv deleted ⟨t, match reply.fileHandle with
      | none => files
      | some file => ((deviceOf t file).map (file, ·)).toList ++ files⟩ := by
  rcases ddkIoCreateDevice_cases h.table hrun with
    ⟨hhandle, rfl | ⟨path, rfl⟩⟩ | ⟨path, device, hfind, hdevice, hhandle, rfl⟩
  · rw [hhandle]
    exact h
  · rw [hhandle]
    exact h.refOn path
  · have hof : deviceOf (s.opened device) s.nextObject = some device := by
      have hnew : (s.opened device).objects s.nextObject = some ⟨1, .file (some device)⟩ :=
        allocated_self ..
      rw [deviceOf, hnew]
    rw [hhandle]
    simp only [hof, Option.map_some, Option.toList_some, List.singleton_append]
    have hrefs := h.table.refOn (some device)
    refine h.same ?_ ?_ (h.files.opened h.table hfind hdevice)
    · exact hrefs.allocated (by simp)
    · exact (sameLinks_addRefs fun o _ => refOn_nonneg _ o).trans
        (sameLinks_allocated hrefs (by simp))

/-- One step counts for one deleted link or none. -/
theorem step_inv {ddkIoCreateFile : UnicodeString → ObM FileReply} {w w' : World}
    {l : Event × Bool} (h : Inv deleted w) (hstep : Step ddkIoCreateFile w l w') :
    Inv (deleted + if l.2 then 1 else 0) w' := by
  rcases w with ⟨s, files⟩
  rcases w' with ⟨t, files'⟩
  rcases l with ⟨event, hit⟩
  rcases hstep with ⟨hpermitted, hdeletes, handle, hrun, hfiles⟩
  simp only at hpermitted hdeletes hrun hfiles
  subst hdeletes hfiles
  cases event with
  | createSymbolicLink memory name deviceName =>
    rcases bind_inv hrun with ⟨status, u, hcreate, hpure⟩
    rcases result_eq (pure_run _ u) hpure with ⟨rfl, rfl⟩
    rcases ioCreateSymbolicLink_cases h.table hcreate with rfl | rfl | ⟨hdestination, -, rfl⟩
    · exact h
    · exact h.collided
    · exact h.linked hdestination
  | deleteSymbolicLink name =>
    rcases bind_inv hrun with ⟨status, u, hdelete, hpure⟩
    rcases result_eq (pure_run _ u) hpure with ⟨rfl, rfl⟩
    rcases ioDeleteSymbolicLink_cases h.table hdelete with
      ⟨hfind, rfl⟩ | ⟨o, hfind, ⟨hlink, rfl⟩ | ⟨hlink, hdel⟩⟩
    · simpa [deletesLink, filesAfter, hfind] using h
    · have hlost := h.refOn (canonicalPath name [])
      rw [hfind] at hlost
      simpa [deletesLink, filesAfter, hfind, hlink] using hlost
    · simpa [deletesLink, filesAfter, hfind, hlink] using h.linkDeleted hfind hlink hdel
  | createFileEx memory objectAttributes ioStatusBlock options =>
    rcases bind_inv hrun with ⟨reply, u, hopen, hpure⟩
    rcases result_eq (pure_run _ u) hpure with ⟨rfl, rfl⟩
    rcases ioCreateFileEx_cases hpermitted hopen with ⟨hhandle, rfl⟩ | ⟨name, hdevice⟩
    · rw [hhandle]
      exact h
    · have hopened := h.opened hdevice
      cases hhandle : reply.fileHandle with
      | none => simpa [deletesLink, filesAfter, hhandle] using hopened
      | some file => simpa [deletesLink, filesAfter, hhandle] using hopened
  | close file =>
    rcases bind_inv hrun with ⟨valid, u, hclose, hpure⟩
    rcases result_eq (pure_run _ u) hpure with ⟨rfl, rfl⟩
    simpa [deletesLink, filesAfter] using h.closed hpermitted hclose

end Steps

/-- After every run the heap has one link beyond the names of links for each deletion of a
link. -/
theorem run_inv {ddkIoCreateFile : UnicodeString → ObM FileReply} {ls : List (Event × Bool)}
    {w : World} (h : Trace Init (Step ddkIoCreateFile) ls w) : Inv (ls.countP (·.2)) w := by
  induction h with
  | start hinit => exact init_inv hinit
  | snoc _ hstep ih =>
    rw [List.countP_append, List.countP_singleton]
    exact step_inv ih hstep

/-- **No link is ever freed.** There are as many live links as names of links exactly as
long as no deletion has hit a link. -/
theorem links_balance (ddkIoCreateFile : UnicodeString → ObM FileReply)
    (ls : List (Event × Bool)) (w : World) (h : Trace Init (Step ddkIoCreateFile) ls w) :
    liveLinks w.state = linkNames w.state ↔ ∀ l ∈ ls, l.2 = false := by
  have hinv := run_inv h
  have hzero : ls.countP (·.2) = 0 ↔ ∀ l ∈ ls, l.2 = false := by simp [List.countP_eq_zero]
  rw [← hzero, liveLinks_eq hinv.links, hinv.count]
  omega

/-- A step of a run from a state that is given. -/
theorem step_snoc {ddkIoCreateFile : UnicodeString → ObM FileReply} {ls : List (Event × Bool)}
    {w : World} (h : Trace Init (Step ddkIoCreateFile) ls w) (event : Event)
    (hpermitted : Permitted w event) {handle : Option ObjId} {t : State}
    (hrun : perform ddkIoCreateFile event w.state = .ok handle t) :
    Trace Init (Step ddkIoCreateFile) (ls ++ [(event, deletesLink w.state event)])
      ⟨t, filesAfter w.files t event handle⟩ :=
  h.snoc ⟨hpermitted, rfl, handle, hrun, rfl⟩

theorem init_empty : Init ⟨emptyState, []⟩ := ⟨table_emptyState, fun _ => rfl, rfl⟩

/-- A link, and a second one under its name. -/
theorem links_balance_taken : ∃ w, Trace Init (Step fun _ => throw .ddkfail)
    [(.createSymbolicLink true [0x5C, 0x4C] [0x5C, 0x44], false),
      (.createSymbolicLink true [0x5C, 0x6C] [0x5C, 0x45], false)] w ∧
    liveLinks w.state = 1 ∧ liveLinks w.state = linkNames w.state := by
  have h0 : Trace Init (Step fun _ => throw .ddkfail) [] _ := Trace.start init_empty
  have h1 := step_snoc h0 (.createSymbolicLink true [0x5C, 0x4C] [0x5C, 0x44]) trivial rfl
  have h2 := step_snoc h1 (.createSymbolicLink true [0x5C, 0x6C] [0x5C, 0x45]) trivial rfl
  exact ⟨_, h2, by decide, (links_balance _ _ _ h2).2 (by decide)⟩

/-- A link that is created and deleted stays in the heap. -/
theorem links_not_balanced : ¬ ∀ ddkIoCreateFile ls w, Trace Init (Step ddkIoCreateFile) ls w →
    w.files = [] → liveLinks w.state = linkNames w.state := by
  intro hall
  have h0 : Trace Init (Step fun _ => throw .ddkfail) [] _ := Trace.start init_empty
  have h1 := step_snoc h0 (.createSymbolicLink true [0x5C, 0x4C] [0x5C, 0x44]) trivial rfl
  have h2 := step_snoc h1 (.deleteSymbolicLink [0x5C, 0x4C]) trivial rfl
  exact absurd (hall _ _ _ h2 rfl) (by decide)

end Wdutf.Ob.Links
