import Mathlib.Data.List.Basic
import Mathlib.Tactic.Common
import Wdutf.Ob.Names
import Wdutf.Ob.Driver

/-!
# Wdutf.Ob.DriverName — the forms of a driver's name, `src/driver.cpp`

A bare name in characters, and the wide characters that are made of it where a driver is
registered, looked for by its file, and looked for by its name.

* `driverPath_wide` — the path under which a driver is registered;
* `map_charToWchar`, `formatName_eq` — the names for which the forms agree;
* `folded_signed`, `folded_cut` — where they do not, the other paths differ from that one.
-/

namespace Wdutf.Ob

open Wdutf.Rtl

/-- `'\\'`. -/
def slash : UInt8 := 0x5C

/-- `'.'`. -/
def dot : UInt8 := 0x2E

/-- A base name: characters, none of them a backslash or a dot. -/
structure BaseName (b : List UInt8) : Prop where
  ne_nil : b ≠ []
  slash : slash ∉ b
  dot : dot ∉ b
  nul : 0 ∉ b

/-- The path of the driver. -/
def driverPath (name : UnicodeString) : UnicodeString := canonicalPath name driverDir

variable {b : List UInt8} {w : List Wchar}

/-! ## Characters -/

theorem char_cases {p : UInt8 → Prop} (h : ∀ n : Fin 256, p (.ofBitVec ⟨n⟩)) (c : UInt8) : p c :=
  h c.toBitVec.toFin

/-- The sign of a character is lost where it has none. -/
theorem charToWchar_eq (c : UInt8) : charToWchar c = c.toUInt16 ↔ c < 0x80 := by
  revert c
  refine char_cases ?_
  decide +kernel

/-- The case of the characters makes no difference. -/
theorem towlower_charToWchar (c : UInt8) :
    towlower (charToWchar c) = towlower c.toUInt16 ↔ c < 0x80 := by
  revert c
  refine char_cases ?_
  decide +kernel

theorem charToWchar_eq_zero (c : UInt8) : charToWchar c = 0 ↔ c = 0 := by
  revert c
  refine char_cases ?_
  decide +kernel

theorem charToWchar_eq_backslash (c : UInt8) : charToWchar c = backslash ↔ c = slash := by
  revert c
  refine char_cases ?_
  decide +kernel

theorem toUInt16_eq_zero (c : UInt8) : c.toUInt16 = 0 ↔ c = 0 := by
  revert c
  refine char_cases ?_
  decide +kernel

theorem toUInt16_eq_backslash (c : UInt8) : c.toUInt16 = backslash ↔ c = slash := by
  revert c
  refine char_cases ?_
  decide +kernel

/-! ## Paths -/

theorem map_ne_zero {f : UInt8 → Wchar} (hf : ∀ c, f c = 0 ↔ c = 0) (hb : 0 ∉ b) :
    ∀ c ∈ b.map f, c ≠ 0 := by
  intro c hc hzero
  rcases List.mem_map.1 hc with ⟨x, hx, rfl⟩
  exact hb ((hf x).1 hzero ▸ hx)

theorem wide_ne_zero (hb : 0 ∉ b) : ∀ c ∈ wide b, c ≠ 0 :=
  map_ne_zero toUInt16_eq_zero hb

theorem wcs_eq_self (hw : ∀ c ∈ w, c ≠ 0) : wcs w = w :=
  List.takeWhile_eq_self_iff.2 fun c hc => by simpa using hw c hc

theorem head_map_ne {f : UInt8 → Wchar} (hf : ∀ c, f c = backslash ↔ c = slash)
    (hb : BaseName b) : (b.map f).headD 0 ≠ backslash := by
  rcases List.exists_cons_of_ne_nil hb.ne_nil with ⟨x, t, rfl⟩
  intro hslash
  exact hb.slash ((hf x).1 hslash ▸ List.mem_cons_self)

/-- The path of a name without NULs that does not begin with a backslash. -/
theorem driverPath_eq (hw : ∀ c ∈ w, c ≠ 0) (hhead : w.headD 0 ≠ backslash) :
    driverPath w = driverDir ++ backslash :: w := by
  have hdir : wcs driverDir = driverDir := by decide
  have hsep : driverDir.getLastD 0 ≠ backslash := by decide
  have htext : pathText w driverDir [] = driverDir ++ backslash :: w := by
    simp only [pathText, hdir, wcs_eq_self hw, bne_iff_ne, ne_eq, hsep, not_false_eq_true,
      reduceIte, bne_iff_ne.2 hhead]
    rfl
  rw [driverPath, canonicalPath, htext, wcs_eq_self]
  intro c hc
  rcases List.mem_append.1 hc with hc | hc
  · have hnul : (0 : Wchar) ∉ driverDir := by decide
    rintro rfl
    exact hnul hc
  · rcases List.mem_cons.1 hc with rfl | hc
    · decide
    · exact hw c hc

/-- The path under which a driver is registered. -/
theorem driverPath_wide (hb : BaseName b) :
    driverPath (wide b) = driverDir ++ backslash :: wide b :=
  driverPath_eq (wide_ne_zero hb.nul) (head_map_ne toUInt16_eq_backslash hb)

/-- The path under which it is looked for by its file. -/
theorem driverPath_signed (hb : BaseName b) :
    driverPath (b.map charToWchar) = driverDir ++ backslash :: b.map charToWchar :=
  driverPath_eq (map_ne_zero charToWchar_eq_zero hb.nul)
    (head_map_ne charToWchar_eq_backslash hb)

theorem length_wide (b : List UInt8) : (wide b).length = b.length := List.length_map ..

theorem wide_take (b : List UInt8) (n : ℕ) : (wide b).take n = wide (b.take n) :=
  List.map_take.symm

theorem BaseName.take (hb : BaseName b) {n : ℕ} (hn : 0 < n) : BaseName (b.take n) where
  ne_nil := by
    intro hnil
    rcases List.take_eq_nil_iff.1 hnil with h | h
    · omega
    · exact hb.ne_nil h
  slash := fun hmem => hb.slash (List.mem_of_mem_take hmem)
  dot := fun hmem => hb.dot (List.mem_of_mem_take hmem)
  nul := fun hmem => hb.nul (List.mem_of_mem_take hmem)

/-! ## The forms of a name -/

theorem map_charToWchar : b.map charToWchar = wide b ↔ ∀ c ∈ b, c < 0x80 := by
  rw [wide, List.map_inj_left]
  constructor
  · exact fun h c hc => (charToWchar_eq c).1 (h c hc)
  · exact fun h c hc => (charToWchar_eq c).2 (h c hc)

theorem formatName_eq (h : b.length ≤ 255) : formatName b = wide b :=
  List.take_of_length_le (by rwa [length_wide])

/-- A name with a signed character is looked for under another path. -/
theorem folded_signed (hb : BaseName b) (h : ¬ ∀ c ∈ b, c < 0x80) :
    folded (driverPath (b.map charToWchar)) ≠ folded (driverPath (wide b)) := by
  rw [driverPath_signed hb, driverPath_wide hb]
  intro heq
  apply h
  unfold folded at heq
  rw [List.map_append, List.map_append] at heq
  have htail := List.append_cancel_left heq
  rw [List.map_cons, List.map_cons, List.cons.injEq, wide, List.map_map, List.map_map,
    List.map_inj_left] at htail
  exact fun c hc => (towlower_charToWchar c).1 (htail.2 c hc)

/-- So is a name that does not fit into the buffer. -/
theorem folded_cut (hb : BaseName b) (h : 255 < b.length) :
    folded (driverPath (formatName b)) ≠ folded (driverPath (wide b)) := by
  intro heq
  have hlen := length_eq_of_folded heq
  rw [formatName, wide_take, driverPath_wide (hb.take (by omega)), driverPath_wide hb,
    List.length_append, List.length_append, List.length_cons, List.length_cons, length_wide,
    length_wide, List.length_take] at hlen
  omega

end Wdutf.Ob
