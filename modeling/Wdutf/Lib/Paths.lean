import Mathlib.Data.List.Infix
import Mathlib.Data.List.Lemmas
import Mathlib.Tactic.Common

/-!
# Wdutf.Lib.Paths — paths as moves in a tree of directories

The components of a path are moves: one stays, one goes to the parent, one goes into
a directory. What a list of moves comes to does not depend on where it starts (`net`):
it leads up some levels, and from there down again.

* `walk_eq_net` — the directory a walk ends in, from the net effect;
* `prefix_walk_iff` — the walk ends below its start exactly if it comes down through
  the directories that it went up.

A path is cut at each of its separators when its directories are made one by one:

* `components_cuts` — the components of the cuts are the prefixes of the components.
-/

namespace Wdutf.Paths

section Moves

variable {N M : Type*}

/-- What a component does. -/
inductive Move (N : Type*) where
  | stay
  | up
  | into (name : N)
deriving DecidableEq, Repr

/-- The directory after a move. The root is its own parent. -/
def Move.go (dirs : List N) : Move N → List N
  | .stay => dirs
  | .up => dirs.dropLast
  | .into name => dirs ++ [name]

/-- The directory after some moves. -/
def walk (dirs : List N) (moves : List (Move N)) : List N := moves.foldl Move.go dirs

/-- So many levels up, and from there into these directories. -/
structure Net (N : Type*) where
  ups : ℕ
  names : List N
deriving DecidableEq, Repr

/-- A net effect and one more move. -/
def Net.next (r : Net N) : Move N → Net N
  | .stay => r
  | .up => if r.names.isEmpty then ⟨r.ups + 1, []⟩ else ⟨r.ups, r.names.dropLast⟩
  | .into name => ⟨r.ups, r.names ++ [name]⟩

/-- The net effect of some moves. -/
def net (moves : List (Move N)) : Net N := moves.foldl Net.next ⟨0, []⟩

/-- Where a net effect leads to. -/
def Net.apply (r : Net N) (dirs : List N) : List N :=
  dirs.take (dirs.length - r.ups) ++ r.names

@[simp] theorem walk_nil (dirs : List N) : walk dirs [] = dirs := rfl

theorem walk_append (dirs : List N) (moves moves' : List (Move N)) :
    walk dirs (moves ++ moves') = walk (walk dirs moves) moves' :=
  List.foldl_append

theorem walk_into (dirs names : List N) : walk dirs (names.map .into) = dirs ++ names := by
  induction names generalizing dirs with
  | nil => simp
  | cons name names ih =>
    change walk (dirs ++ [name]) (names.map .into) = _
    rw [ih, List.append_assoc, List.singleton_append]

theorem Net.next_apply (r : Net N) (dirs : List N) (move : Move N) :
    (r.next move).apply dirs = move.go (r.apply dirs) := by
  cases move with
  | stay => rfl
  | into name => simp [Net.next, Net.apply, Move.go]
  | up =>
    rw [Net.next]
    split
    case isTrue h =>
      have hnames : r.names = [] := by simpa using h
      simp only [Net.apply, Move.go, hnames, List.append_nil]
      rw [List.dropLast_eq_take, List.take_take, List.length_take]
      congr 1
      omega
    case isFalse h =>
      have hnames : r.names ≠ [] := by simpa using h
      simp only [Net.apply, Move.go]
      rw [List.dropLast_append_of_ne_nil hnames]

theorem walk_eq_net (dirs : List N) (moves : List (Move N)) :
    walk dirs moves = (net moves).apply dirs := by
  induction moves using List.reverseRecOn with
  | nil => simp [net, Net.apply]
  | append_singleton moves move ih =>
    have hnet : net (moves ++ [move]) = (net moves).next move := by
      simp [net, List.foldl_append]
    rw [walk_append, ih, hnet, Net.next_apply]
    rfl

/-- Names are compared by their images under `f`. -/
theorem prefix_walk_iff (f : N → M) (dirs : List N) (moves : List (Move N)) :
    dirs.map f <+: (walk dirs moves).map f ↔
      (dirs.drop (dirs.length - (net moves).ups)).map f <+: (net moves).names.map f := by
  rw [walk_eq_net, Net.apply, List.map_append]
  conv_lhs => lhs; rw [← List.take_append_drop (dirs.length - (net moves).ups) dirs]
  rw [List.map_append]
  exact List.prefix_append_right_inj _

end Moves

section Cuts

variable {α β : Type*} (sep : α → Bool) (backslash : α)

/-- All separators replaced by one. -/
def unify (path : List α) : List α := path.map fun c => if sep c then backslash else c

/-- What stands before each separator, with the separators in it unified. -/
def cuts : List α → List (List α)
  | [] => []
  | c :: path =>
    if sep c then [] :: (cuts path).map (backslash :: ·) else (cuts path).map (c :: ·)

variable {sep backslash}

theorem unify_of_forall {word : List α} (h : ∀ c ∈ word, sep c = false) :
    unify sep backslash word = word := by
  rw [unify, List.map_congr_left (g := id)]
  · exact List.map_id word
  · intro c hc
    simp [h c hc]

theorem unify_append (path path' : List α) :
    unify sep backslash (path ++ path') = unify sep backslash path ++ unify sep backslash path' :=
  List.map_append

theorem cuts_append {word : List α} (h : ∀ c ∈ word, sep c = false) (path : List α) :
    cuts sep backslash (word ++ path) = (cuts sep backslash path).map (word ++ ·) := by
  induction word with
  | nil => simp
  | cons c word ih =>
    have hc : sep c = false := h c (by simp)
    have hword : ∀ c ∈ word, sep c = false := fun c hc => h c (List.mem_cons_of_mem _ hc)
    rw [List.cons_append, cuts, if_neg (by simp [hc]), ih hword, List.map_map]
    rfl

theorem cuts_word {word : List α} (h : ∀ c ∈ word, sep c = false) :
    cuts sep backslash word = [] := by
  have hnil : cuts sep backslash (word ++ []) = _ := cuts_append h []
  simpa [cuts] using hnil

theorem cuts_separator {c : α} (hc : sep c = true) (path : List α) :
    cuts sep backslash (c :: path) = [] :: (cuts sep backslash path).map (backslash :: ·) := by
  rw [cuts, if_pos hc]

/-- A path is one word, or starts with a word and a separator. -/
theorem word_cases (sep : α → Bool) (path : List α) :
    (∀ c ∈ path, sep c = false) ∨
      ∃ word c rest, path = word ++ c :: rest ∧ sep c = true ∧ ∀ c ∈ word, sep c = false := by
  induction path with
  | nil => exact .inl (by simp)
  | cons c path ih =>
    cases hc : sep c with
    | true => exact .inr ⟨[], c, path, rfl, hc, by simp⟩
    | false =>
      rcases ih with h | ⟨word, d, rest, rfl, hd, hword⟩
      · exact .inl (by simpa [hc] using h)
      · exact .inr ⟨c :: word, d, rest, rfl, hd, by simpa [hc] using hword⟩

theorem inits_eq_cons (l : List β) : l.inits = [] :: l.inits.tail := by
  cases l <;> simp

/-- The cuts of a path and the path itself have the nonempty prefixes of its components
for their components. -/
theorem components_cuts (hb : sep backslash = true) (path : List α) :
    (cuts sep backslash path ++ [unify sep backslash path]).map (List.splitOnP sep) =
      (List.splitOnP sep path).inits.tail := by
  induction hlen : path.length using Nat.strong_induction_on generalizing path with
  | _ length ih =>
    rcases word_cases sep path with hword | ⟨word, c, rest, rfl, hc, hword⟩
    · rw [cuts_word hword, unify_of_forall hword]
      simp [List.splitOnP_eq_singleton hword]
    · -- every later cut starts with the word and a separator
      have hcomponents : ∀ tail, List.splitOnP sep (word ++ backslash :: tail) =
          word :: List.splitOnP sep tail :=
        List.splitOnP_append_cons_of_forall_mem hword backslash hb
      have hrest := ih rest.length (by rw [← hlen]; simp; omega) rest rfl
      have hcuts : cuts sep backslash (word ++ c :: rest) =
          word :: (cuts sep backslash rest).map fun cut => word ++ backslash :: cut := by
        rw [cuts_append hword, cuts_separator hc]
        simp
      have hunify : unify sep backslash (word ++ c :: rest) =
          word ++ backslash :: unify sep backslash rest := by
        rw [unify_append, unify_of_forall hword]
        simp [unify, hc]
      rw [hcuts, hunify, List.splitOnP_append_cons_of_forall_mem hword c hc, List.inits_cons,
        List.tail_cons, List.cons_append, List.map_cons, List.splitOnP_eq_singleton hword]
      -- the prefix without a component of the rest is the first cut
      rw [inits_eq_cons (List.splitOnP sep rest), List.map_cons, ← hrest]
      simp [Function.comp_def, hcomponents]

/-- Cuts commute with a change of the characters. -/
theorem cuts_map {sep' : β → Bool} {backslash' : β} (f : α → β) (hsep : ∀ c, sep' (f c) = sep c)
    (hb : f backslash = backslash') (path : List α) :
    cuts sep' backslash' (path.map f) = (cuts sep backslash path).map (List.map f) := by
  induction path with
  | nil => rfl
  | cons c path ih =>
    rw [List.map_cons, cuts, cuts, hsep, ih]
    split <;> simp [Function.comp_def, hb]

theorem unify_map {sep' : β → Bool} {backslash' : β} (f : α → β) (hsep : ∀ c, sep' (f c) = sep c)
    (hb : f backslash = backslash') (path : List α) :
    unify sep' backslash' (path.map f) = (unify sep backslash path).map f := by
  simp only [unify, List.map_map]
  apply List.map_congr_left
  intro c _
  simp only [Function.comp_apply, hsep]
  split
  · exact hb.symm
  · rfl

end Cuts

end Wdutf.Paths
